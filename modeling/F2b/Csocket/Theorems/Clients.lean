import F2b.Csocket.Poll
import F2b.Csocket.Theorems.Conn
import Mathlib.Data.List.Nodup

-- The table of clients.

namespace F2b

namespace Conn

variable {md5 : CString → CString} {δ : Type} {cb : Cmd → δ → CString × δ}

theorem handle_sock (conn : Conn) (line nonce : CString) (d : δ) :
    (conn.handle md5 cb line nonce d).1.sock = conn.sock := by
  simp only [handle]
  cases Cmd.create line
  case none     => cases conn.flags.authOk <;> rfl
  case some cmd =>
    by_cases ha : cmd.type = .auth
    case pos =>
      simp only [ha, if_true, checkAuth]
      split
      · rfl
      · split <;> rfl
    case neg =>
      simp only [ha, if_false, logEvents]
      split
      · split <;> rfl
      · split <;> rfl

theorem messages_sock (nonces : Nat → CString) (turns : Nat) (conn : Conn) (d : δ) :
    (conn.messages md5 cb nonces turns d).1.sock = conn.sock := by
  induction turns generalizing conn d
  case zero          => rfl
  case succ turns hi =>
    simp only [messages]
    split
    · rfl
    · split
      · rw [hi]
      · rw [hi, handle_sock]

theorem receive_sock (md5 : CString → CString) (cb : Cmd → δ → CString × δ) (nonces : Nat → CString)
    (conn : Conn) (d : δ) (r : Recv) :
    (conn.receive md5 cb nonces d r).2.1.sock = conn.sock := by
  cases r
  case error => rfl
  case data  =>
    simp only [receive]
    split
    · rfl
    · split
      · rfl
      · rw [messages_sock]

theorem transmit_sock (conn : Conn) (sent : Sent) : (conn.transmit sent).2.sock = conn.sock := by
  simp only [transmit]
  split
  · rfl
  · cases sent <;> rfl

theorem process_sock (conn : Conn) (incoming : Option Recv) (nonces : Nat → CString) (sent : Sent)
    (d : δ) : (conn.process md5 cb incoming nonces sent d).2.1.sock = conn.sock := by
  cases incoming
  case none   => exact transmit_sock conn sent
  case some r =>
    have hr := receive_sock md5 cb nonces conn d r
    simp only [process]
    split
    · exact hr
    · exact (transmit_sock _ sent).trans hr

end Conn

namespace Csock

variable {md5 : CString → CString} {δ : Type} {cb : Cmd → δ → CString × δ}

def first : Slot :=
  ⟨0, by decide⟩

-- The table as it should be: each connection that is open has a slot, and one only.
structure Tabled (c : Csock) : Prop where
  nodup : c.sockets.Nodup
  slot  : ∀ sock ∈ c.sockets, ∃! cnum, (c.clients cnum).map (·.sock) = some sock
  sock  : ∀ cnum conn, c.clients cnum = some conn → conn.sock ∈ c.sockets

-- What the arrival of a connection should do to the table: it takes a free slot, or is refused if there
-- is none.
inductive Admits (t : Slot → Option Conn) (conn : Conn) : (Slot → Option Conn) → Prop
  | enter {cnum} : t cnum = none → Admits t conn (Function.update t cnum (some conn))
  | refuse       : (∀ cnum, t cnum ≠ none) → Admits t conn t

def AllAdmitted (md5 : CString → CString) (c : Csock) : List (Conn.SockType × Incoming) → Prop
  | []             => True
  | (type, i) :: is =>
    (∀ sock nonce, i = .conn sock nonce →
      Admits c.clients (.accept md5 type sock c.password nonce) (c.accept md5 type i).clients) ∧
    AllAdmitted md5 (c.accept md5 type i) is

-- A client stays in its slot, unless its own call of `f2b_conn_process` reports that it is closed.
def Stays (md5 : CString → CString) (cb : Cmd → δ → CString × δ) (p : Poll) (c c' : Csock) : Prop :=
  ∀ cnum conn, c.clients cnum = some conn →
    (∃ conn', c'.clients cnum = some conn' ∧ conn'.sock = conn.sock) ∨
    (c'.clients cnum = none ∧
      ∃ d, (conn.process md5 cb (p.recv conn.sock) (p.nonces conn.sock) (p.sent conn.sock) d).1)

structure Served (md5 : CString → CString) (cb : Cmd → δ → CString × δ) (p : Poll) (c c' : Csock) :
    Prop where
  admitted : p.ready → AllAdmitted md5 c (c.listen.zip p.incoming)
  stays    : Stays md5 cb p c c'
  tabled   : c'.Tabled

def accepted (is : List (Conn.SockType × Incoming)) : List Nat :=
  is.filterMap fun i => match i.2 with
    | .conn sock _ => some sock
    | _            => none

-- The system gives each new connection a socket that is not open.
def Fresh (c : Csock) (p : Poll) : Prop :=
  (accepted (c.listen.zip p.incoming) ++ c.sockets).Nodup

instance (c : Csock) (p : Poll) : Decidable (c.Fresh p) :=
  inferInstanceAs (Decidable (List.Nodup _))

-- Connections are accepted while the first slot is free, so one at most.
def FirstFree (c : Csock) (p : Poll) : Prop :=
  p.ready → (accepted (c.listen.zip p.incoming)).length ≤ if c.clients first = none then 1 else 0

variable {c c' : Csock} {p : Poll} {cnum : Slot} {conn : Conn}

theorem accept_conn (c : Csock) (type : Conn.SockType) (sock : Nat) (nonce : CString) :
    c.accept md5 type (.conn sock nonce) =
    { c with
      clients := Function.update c.clients first (some (.accept md5 type sock c.password nonce))
      sockets := sock :: c.sockets } :=
  rfl

theorem Tabled.enter (h : c.Tabled) (hn : c.clients cnum = none) (hf : conn.sock ∉ c.sockets) :
    Tabled { c with
      clients := Function.update c.clients cnum (some conn)
      sockets := conn.sock :: c.sockets } where
  nodup := List.nodup_cons.mpr ⟨hf, h.nodup⟩
  slot  := by
    refine List.forall_mem_cons.mpr ⟨⟨cnum, by simp, fun k hk => ?_⟩, fun sock hs => ?_⟩
    · by_contra hne
      simp only [Function.update_of_ne hne, Option.map_eq_some_iff] at hk
      obtain ⟨conn', hc, he⟩ := hk
      exact hf (he ▸ h.sock k conn' hc)
    · obtain ⟨k, hk, hu⟩ := h.slot sock hs
      have hne : k ≠ cnum := fun he => by simp [he, hn] at hk
      refine ⟨k, by simpa [Function.update_of_ne hne] using hk, fun k' hk' => ?_⟩
      by_cases he : k' = cnum
      case pos =>
        subst he
        simp only [Function.update_self, Option.map_some, Option.some.injEq] at hk'
        exact absurd (hk' ▸ hs) hf
      case neg => exact hu k' (by simpa [Function.update_of_ne he] using hk')
  sock  := fun k conn' hc => by
    by_cases he : k = cnum
    case pos =>
      subst he
      obtain rfl : conn = conn' := by simpa using hc
      exact List.mem_cons_self
    case neg => exact List.mem_cons_of_mem _ (h.sock k conn' (by simpa [Function.update_of_ne he] using hc))

theorem Tabled.eventBroadcast (evt : CString) (h : c.Tabled) : (c.eventBroadcast evt).Tabled := by
  have he (conn : Conn) : (conn.event evt).sock = conn.sock := by
    simp only [Conn.event]
    split <;> rfl
  have hs (cnum : Slot) :
      ((c.eventBroadcast evt).clients cnum).map (·.sock) = (c.clients cnum).map (·.sock) := by
    simp [Csock.eventBroadcast, Function.comp_def, he]
  refine ⟨h.nodup, fun sock hm => ?_, fun cnum conn hc => ?_⟩
  · simpa only [hs] using h.slot sock hm
  · obtain ⟨conn', hc', rfl⟩ := Option.map_eq_some_iff.mp hc
    exact he conn' ▸ h.sock cnum conn' hc'

theorem serve_eq (md5 : CString → CString) (cb : Cmd → δ → CString × δ) (p : Poll)
    (watched : List Nat) (c : Csock) (d : δ) (cnum : Slot) :
    (c.clients cnum = none ∧ serve md5 cb p watched c d cnum = (c, d)) ∨
    (∃ conn conn' d', c.clients cnum = some conn ∧ conn'.sock = conn.sock ∧
      serve md5 cb p watched c d cnum =
        ({ c with clients := Function.update c.clients cnum (some conn') }, d')) ∨
    (∃ conn d', c.clients cnum = some conn ∧
      (conn.process md5 cb (if conn.sock ∈ watched then p.recv conn.sock else none)
        (p.nonces conn.sock) (p.sent conn.sock) d).1 ∧
      serve md5 cb p watched c d cnum =
        ({ c with
          clients := Function.update c.clients cnum none
          sockets := c.sockets.erase conn.sock }, d')) := by
  simp only [serve]
  cases hc : c.clients cnum
  case none      => exact .inl ⟨rfl, rfl⟩
  case some conn =>
    cases hf : (conn.process md5 cb (if conn.sock ∈ watched then p.recv conn.sock else none)
      (p.nonces conn.sock) (p.sent conn.sock) d).1
    case true  => exact .inr (.inr ⟨conn, _, rfl, hf, by simp only [hf, if_true, Conn.process_sock]; rfl⟩)
    case false =>
      exact .inr (.inl ⟨conn, _, _, rfl, Conn.process_sock conn _ _ _ d, by simp only [hf]; rfl⟩)

theorem Tabled.serve (h : c.Tabled) (p : Poll) (watched : List Nat) (d : δ) (cnum : Slot) :
    (serve md5 cb p watched c d cnum).1.Tabled := by
  obtain ⟨_, he⟩ | ⟨conn, conn', d', hc, hs, he⟩ | ⟨conn, d', hc, _, he⟩ :=
    serve_eq md5 cb p watched c d cnum <;> rw [he]
  case inl     => exact h
  case inr.inl =>
    have hk (k : Slot) : (Function.update c.clients cnum (some conn') k).map (·.sock) =
        (c.clients k).map (·.sock) := by
      by_cases he : k = cnum
      case pos => subst he; simp [hc, hs]
      case neg => rw [Function.update_of_ne he]
    refine ⟨h.nodup, fun sock hm => by simpa only [hk] using h.slot sock hm, fun k conn₁ hk₁ => ?_⟩
    have hs₁ := (hk k).symm.trans (congrArg _ hk₁)
    obtain ⟨conn₂, hc₂, hs₂⟩ := Option.map_eq_some_iff.mp hs₁
    exact (show conn₂.sock = conn₁.sock from hs₂) ▸ h.sock k conn₂ hc₂
  case inr.inr =>
    have hn := h.nodup
    refine ⟨hn.erase _, fun sock hm => ?_, fun k conn₁ hk => ?_⟩
    · have ⟨hne, hm⟩ := hn.mem_erase_iff.mp hm
      obtain ⟨k, hk, hu⟩ := h.slot sock hm
      have hkn : k ≠ cnum := fun he => hne (by simpa [he, hc] using hk.symm)
      refine ⟨k, by simpa [Function.update_of_ne hkn] using hk, fun k' hk' => hu k' ?_⟩
      have hkn' : k' ≠ cnum := fun he => by simp [he] at hk'
      simpa [Function.update_of_ne hkn'] using hk'
    · have hkn : k ≠ cnum := fun he => by simp [he] at hk
      have hk : c.clients k = some conn₁ := by simpa [Function.update_of_ne hkn] using hk
      refine hn.mem_erase_iff.mpr ⟨fun he => hkn ?_, h.sock k conn₁ hk⟩
      obtain ⟨k₀, _, hu⟩ := h.slot conn.sock (h.sock cnum conn hc)
      exact (hu k (by simp [hk, he])).trans (hu cnum (by simp [hc])).symm

-- One turn leaves the other slots alone, and a client in its slot unless its own call fails.
theorem serve_slot (md5 : CString → CString) (cb : Cmd → δ → CString × δ) (p : Poll)
    (watched : List Nat) (c : Csock) (d : δ) (cnum : Slot) :
    (∀ k ≠ cnum, (serve md5 cb p watched c d cnum).1.clients k = c.clients k) ∧
    ∀ conn, c.clients cnum = some conn →
      (∃ conn', (serve md5 cb p watched c d cnum).1.clients cnum = some conn' ∧
        conn'.sock = conn.sock) ∨
      ((serve md5 cb p watched c d cnum).1.clients cnum = none ∧
        ∃ d, (conn.process md5 cb (if conn.sock ∈ watched then p.recv conn.sock else none)
          (p.nonces conn.sock) (p.sent conn.sock) d).1) := by
  obtain ⟨hc, he⟩ | ⟨conn, conn', d', hc, hs, he⟩ | ⟨conn, d', hc, hf, he⟩ :=
    serve_eq md5 cb p watched c d cnum <;> rw [he]
  case inl     => exact ⟨fun _ _ => rfl, fun conn h => by simp [hc] at h⟩
  case inr.inl =>
    refine ⟨fun k hk => Function.update_of_ne hk .., fun conn₁ h => .inl ⟨conn', by simp, ?_⟩⟩
    obtain rfl := Option.some.inj (hc.symm.trans h)
    exact hs
  case inr.inr =>
    refine ⟨fun k hk => Function.update_of_ne hk .., fun conn₁ h => .inr ⟨by simp, d, ?_⟩⟩
    obtain rfl := Option.some.inj (hc.symm.trans h)
    exact hf

theorem serveAll_slots (md5 : CString → CString) (cb : Cmd → δ → CString × δ) (p : Poll)
    (watched : List Nat) {slots : List Slot} (hd : slots.Nodup)
    (c : Csock) (d : δ) :
    (∀ k ∉ slots, (serveAll md5 cb p watched slots c d).1.clients k = c.clients k) ∧
    ∀ k ∈ slots, ∀ conn, c.clients k = some conn →
      (∃ conn', (serveAll md5 cb p watched slots c d).1.clients k = some conn' ∧
        conn'.sock = conn.sock) ∨
      ((serveAll md5 cb p watched slots c d).1.clients k = none ∧
        ∃ d, (conn.process md5 cb (if conn.sock ∈ watched then p.recv conn.sock else none)
          (p.nonces conn.sock) (p.sent conn.sock) d).1) := by
  induction slots generalizing c d
  case nil              => exact ⟨fun _ _ => rfl, by simp⟩
  case cons k₀ slots hi =>
    have ⟨hk₀, hd⟩ := List.nodup_cons.mp hd
    have ⟨ho, hs⟩ := serve_slot md5 cb p watched c d k₀
    have hi := hi hd (serve md5 cb p watched c d k₀).1 (serve md5 cb p watched c d k₀).2
    have he : serveAll md5 cb p watched (k₀ :: slots) c d =
      serveAll md5 cb p watched slots (serve md5 cb p watched c d k₀).1
        (serve md5 cb p watched c d k₀).2 := rfl
    rw [he]
    refine ⟨fun k hk => ?_, List.forall_mem_cons.mpr ⟨fun conn h => ?_, fun k hk conn h => ?_⟩⟩
    · have ⟨hne, hk⟩ := List.ne_and_not_mem_of_not_mem_cons hk
      exact (hi.1 k hk).trans (ho k hne)
    · rw [hi.1 k₀ hk₀]
      exact hs conn h
    · have hne : k ≠ k₀ := fun he => hk₀ (he ▸ hk)
      exact hi.2 k hk conn ((ho k hne).trans h)

theorem Tabled.serveAll (h : c.Tabled) (p : Poll) (watched : List Nat) (slots : List Slot) (d : δ) :
    (serveAll md5 cb p watched slots c d).1.Tabled := by
  induction slots generalizing c d
  case nil           => exact h
  case cons k ks hi  => exact hi (h.serve p watched d k) _

theorem Admits.first_free {t : Slot → Option Conn} (h : Admits t conn (Function.update t first (some conn)))
    (hs : ∀ conn', t first = some conn' → conn'.sock ≠ conn.sock) : t first = none := by
  generalize hu : Function.update t first (some conn) = t' at h
  cases h
  case enter k hk =>
    by_cases he : k = first
    case pos => exact he ▸ hk
    case neg =>
      have := congrFun hu k
      simp [Function.update_of_ne he, hk] at this
  case refuse =>
    have := congrFun hu first
    exact absurd rfl (hs conn (by simpa using this.symm))

theorem Tabled.accept (md5 : CString → CString) (type : Conn.SockType) {sock : Nat} (nonce : CString)
    (h : c.Tabled) (hn : c.clients first = none) (hf : sock ∉ c.sockets) :
    (c.accept md5 type (.conn sock nonce)).Tabled :=
  have hf : (Conn.accept md5 type sock c.password nonce).sock ∉ c.sockets := hf
  h.enter hn hf

-- With the first slot free, the one connection that arrives is admitted as it should be.
theorem acceptAll_of_firstFree (md5 : CString → CString) {is : List (Conn.SockType × Incoming)} (h : c.Tabled)
    (hf : (accepted is ++ c.sockets).Nodup)
    (hl : (accepted is).length ≤ if c.clients first = none then 1 else 0) :
    AllAdmitted md5 c is ∧ (c.acceptAll md5 is).Tabled ∧
    ∀ cnum conn, c.clients cnum = some conn → (c.acceptAll md5 is).clients cnum = some conn := by
  induction is generalizing c
  case nil          => exact ⟨trivial, h, fun _ _ h => h⟩
  case cons i is hi =>
    obtain ⟨type, i⟩ := i
    cases i
    case quiet =>
      have ⟨ha, ht, hc⟩ := hi h hf hl
      exact ⟨⟨by simp, ha⟩, ht, hc⟩
    case error =>
      have ⟨ha, ht, hc⟩ := hi h hf hl
      exact ⟨⟨by simp, ha⟩, ht, hc⟩
    case conn sock nonce =>
      have hl : (accepted is).length + 1 ≤ if c.clients first = none then 1 else 0 := hl
      have hn : c.clients first = none := by
        by_contra hn
        simp [hn] at hl
      have he : accepted is = [] := by simpa [hn] using hl
      have hs : sock ∉ c.sockets := fun hm => by
        simp [accepted, hm] at hf
      have ⟨ha, ht, hc⟩ := hi (h.accept md5 type nonce hn hs)
        (by simpa [he, accept_conn] using ⟨hs, h.nodup⟩) (by simp [he])
      refine ⟨⟨fun sock' nonce' heq => ?_, ha⟩, ht, fun k conn hk => hc k conn ?_⟩
      · obtain ⟨rfl, rfl⟩ := Incoming.conn.inj heq
        exact .enter hn
      · have hne : k ≠ first := fun he => by simp [he, hn] at hk
        rw [accept_conn]
        exact (Function.update_of_ne hne ..).trans hk

theorem firstFree_of_allAdmitted {is : List (Conn.SockType × Incoming)} (h : c.Tabled)
    (hf : (accepted is ++ c.sockets).Nodup) (ha : AllAdmitted md5 c is) :
    (accepted is).length ≤ if c.clients first = none then 1 else 0 := by
  induction is generalizing c
  case nil          => simp [accepted]
  case cons i is hi =>
    obtain ⟨type, i⟩ := i
    obtain ⟨ha₀, ha⟩ := ha
    cases i
    case quiet => exact hi h hf ha
    case error => exact hi h hf ha
    case conn sock nonce =>
      have hf : (sock :: (accepted is ++ c.sockets)).Nodup := hf
      have ⟨hs, hf⟩ := List.nodup_cons.mp hf
      have hs' : sock ∉ c.sockets := fun hm => hs (List.mem_append_right _ hm)
      have hn : c.clients first = none := by
        refine (ha₀ sock nonce rfl).first_free fun conn' hc he => hs' ?_
        exact (show conn'.sock = sock from he) ▸ h.sock first conn' hc
      have hl := hi (h.accept md5 type nonce hn hs') (by
        rw [accept_conn, List.nodup_middle]
        exact List.nodup_cons.mpr ⟨hs, hf⟩) ha
      have hl : (accepted is).length ≤ 0 := by simpa [accept_conn] using hl
      simp only [hn, if_true]
      exact Nat.succ_le_succ hl

-- The table is served as it should be in exactly the case that connections arrive while the first slot
-- is free.
theorem served_poll_iff (h : c.Tabled) (hf : p.ready → c.Fresh p) (d : δ) :
    Served md5 cb p c (poll md5 cb p c d).1 ↔ c.FirstFree p := by
  cases hr : p.ready
  case false =>
    have he : poll md5 cb p c d = (c, d) := by simp [poll, hr]
    rw [he]
    exact ⟨fun _ h => by simp [hr] at h, fun _ =>
      ⟨fun h => by simp [hr] at h, fun _ conn hc => .inl ⟨conn, hc, rfl⟩, h⟩⟩
  case true =>
    have hf := hf hr
    refine ⟨fun hs _ => firstFree_of_allAdmitted h hf (hs.admitted hr), fun hl => ?_⟩
    have ⟨ha, ht, hk⟩ := acceptAll_of_firstFree md5 h hf (hl hr)
    have he : poll md5 cb p c d = serveAll md5 cb p c.watched (List.finRange CSOCKET_MAX_CLIENTS)
        (c.acceptAll md5 (c.listen.zip p.incoming)) d := by
      simp [poll, hr]
    rw [he]
    refine ⟨fun _ => ha, fun cnum conn hc => ?_, ht.serveAll ..⟩
    have hw : conn.sock ∈ c.watched :=
      List.mem_filterMap.mpr ⟨cnum, List.mem_finRange cnum, by simp [hc]⟩
    have hs := (serveAll_slots md5 cb p c.watched (List.nodup_finRange _)
      (c.acceptAll md5 (c.listen.zip p.incoming)) d).2 cnum (List.mem_finRange cnum) conn
      (hk cnum conn hc)
    simpa only [hw, if_true] using hs

section Run

-- The calls of `f2b_csocket_poll`, with the daemon behind the callback.
def Step (md5 : CString → CString) (cb : Cmd → δ → CString × δ) (s : Csock × δ) (p : Poll)
    (s' : Csock × δ) : Prop :=
  (p.ready → s.1.Fresh p) ∧ poll md5 cb p s.1 s.2 = s'

def Created (s : Csock × δ) : Prop :=
  (∀ cnum, s.1.clients cnum = none) ∧ s.1.sockets = []

variable {s s' : Csock × δ}

theorem Tabled.created (h : Created s) : s.1.Tabled where
  nodup := h.2 ▸ .nil
  slot  := fun sock hm => by simp [h.2] at hm
  sock  := fun cnum conn hc => by simp [h.1] at hc

-- After any run in which connections arrive while the first slot is free, this is what the next call
-- needs to serve all clients as it should.
theorem served_iff
    (h : Transition.Reachable Created (Transition.Guarded (Step md5 cb) fun s p => s.1.FirstFree p) s)
    (hp : Step md5 cb s p s') : Served md5 cb p s.1 s'.1 ↔ s.1.FirstFree p := by
  have ht : s.1.Tabled := by
    refine h.invariant (P := fun s : Csock × δ => s.1.Tabled) (fun _ h => .created h) fun s p s' hs ht => ?_
    obtain ⟨⟨hf, rfl⟩, hg⟩ := hs
    exact ((served_poll_iff ht hf s.2).mpr hg).tabled
  obtain ⟨hf, rfl⟩ := hp
  exact served_poll_iff ht hf s.2

end Run

section Example

open Session (digest count nonce)

def created : Csock where
  listen   := [.inet]
  clients  := fun _ => none
  password := "secret".toList
  sockets  := []

def arrival (incoming : Incoming) : Poll where
  ready    := true
  incoming := [incoming]
  recv     := fun _ => none
  nonces   := fun _ _ => nonce
  sent     := fun _ => .again

def joined : Csock × Nat :=
  poll digest count (arrival (.conn 5 nonce)) created 0

theorem served_joined :
    Served digest count (arrival .quiet) joined.1 (poll digest count (arrival .quiet) joined.1 joined.2).1 := by
  refine (served_iff (s := joined) ⟨(created, 0), [arrival (.conn 5 nonce)], ⟨fun _ => rfl, rfl⟩,
    .step ⟨⟨fun _ => ?_, rfl⟩, fun _ => ?_⟩ .refl⟩ ⟨fun _ => ?_, rfl⟩).mpr fun _ => ?_
  all_goals decide

-- The second client takes the slot of the first one, whose connection stays open without a slot.
theorem not_served_second :
    Transition.Reachable Created (Step digest count) joined ∧
    Step digest count joined (arrival (.conn 6 nonce))
      (poll digest count (arrival (.conn 6 nonce)) joined.1 joined.2) ∧
    ¬Served digest count (arrival (.conn 6 nonce)) joined.1
      (poll digest count (arrival (.conn 6 nonce)) joined.1 joined.2).1 := by
  refine ⟨⟨(created, 0), [arrival (.conn 5 nonce)], ⟨fun _ => rfl, rfl⟩,
    .step ⟨fun _ => ?_, rfl⟩ .refl⟩, ⟨fun _ => ?_, rfl⟩, fun h => ?_⟩
  case refine_3 =>
    obtain ⟨cnum, hc, _⟩ := h.tabled.slot 5 (by decide)
    revert cnum
    decide
  all_goals decide

end Example

end Csock
end F2b
