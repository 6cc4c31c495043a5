import F2b.Csocket.Conn
import F2b.Lib.Transition

-- A client that has not shown the password, and what it gets to see.

namespace F2b

namespace Conn

variable {md5 : CString → CString} {δ : Type} {cb : Cmd → δ → CString × δ}
variable {conn : Conn} {line nonce : CString} {d : δ}

def unauthLine (challenge : CString) : CString :=
  "-unauthorized: ".toList ++ challenge ++ "\n".toList

theorem sendUnauth_eq (conn : Conn) : conn.sendUnauth = conn.append (unauthLine conn.challenge) := by
  simp only [sendUnauth, append, Buf.append_append]
  rfl

theorem drop_append (conn : Conn) (str : CString) :
    (conn.append str).send.data.drop conn.send.data.length <+: str := by
  simp only [append, Buf.append, List.drop_left]
  exact List.take_prefix ..

-- The line holds valid credentials, or asks for events.
def presents (md5 : CString → CString) (conn : Conn) (line : CString) : Bool :=
  (Cmd.create line).any fun cmd => cmd.type = .auth && conn.credentials md5 cmd

def asksEvents (line : CString) : Bool :=
  (Cmd.create line).any (·.type = .logEvents)

theorem handle_refused (cb : Cmd → δ → CString × δ) (nonce : CString) (d : δ)
    (ha : ¬conn.flags.authOk) (hp : ¬conn.presents md5 line) (he : ¬asksEvents line) :
    ∃ conn', (conn' = conn ∨ conn' = conn.updateChallenge md5 nonce) ∧
    conn.handle md5 cb line nonce d = (conn'.sendUnauth, d) := by
  simp only [handle]
  cases hc : Cmd.create line
  case none     => exact ⟨conn, .inl rfl, by simp [ha]⟩
  case some cmd =>
    simp only [presents, asksEvents, hc, Option.any_some] at hp he
    by_cases ht : cmd.type = .auth
    case pos =>
      have hp : ¬conn.credentials md5 cmd := by simpa [ht] using hp
      exact ⟨_, .inr rfl, by simp [ht, checkAuth, ha, hp]⟩
    case neg =>
      have he : cmd.type ≠ .logEvents := by simpa using he
      exact ⟨conn, .inl rfl, by simp [ht, he, ha]⟩

end Conn

-- A connection with the daemon behind it and all bytes that have been queued to the client.
structure Session (δ : Type) where
  conn   : Conn
  daemon : δ
  queued : CString
  deriving DecidableEq

namespace Session

-- What happens to a connection: a line from the client, an event, or a call of `send`.
inductive Input
  | line (line nonce : CString)
  | event (evt : CString)
  | sent (sent : Conn.Sent)

def Input.isEvent : Input → Bool
  | event _ => true
  | _       => false

variable {δ : Type}

def queue (s : Session δ) (conn : Conn) (daemon : δ) : Session δ where
  conn   := conn
  daemon := daemon
  queued := s.queued ++ conn.send.data.drop s.conn.send.data.length

variable (md5 : CString → CString) (cb : Cmd → δ → CString × δ)

def step (s : Session δ) : Input → Option (Session δ)
  | .line line nonce =>
    let (conn, d) := s.conn.handle md5 cb line nonce s.daemon
    some (s.queue conn d)
  | .event evt       => some (s.queue (s.conn.event evt) s.daemon)
  | .sent sent       =>
    let (failed, conn) := s.conn.transmit sent
    if failed then none else some { s with conn }

def Step (s : Session δ) (i : Input) (s' : Session δ) : Prop :=
  s.step md5 cb i = some s'

def new (sock : Nat) (password nonce : CString) (daemon : δ) : Session δ where
  conn   := .accept md5 .inet sock password nonce
  daemon := daemon
  queued := []

-- The client does not show the password, in any form.
def Anonymous (s : Session δ) : Input → Prop
  | .line line _ => ¬s.conn.presents md5 line
  | _            => True

-- It does not ask for events either.
def Harmless (s : Session δ) (i : Input) : Prop :=
  s.Anonymous md5 i ∧ ∀ line nonce, i = .line line nonce → ¬Conn.asksEvents line

-- All bytes belong to lines that refuse the client, which may be cut off where the buffer is full.
def OnlyUnauth (queued : CString) : Prop :=
  ∃ lines : List CString, queued = lines.flatten ∧
    ∀ l ∈ lines, ∃ nonce, l <+: Conn.unauthLine ((md5 nonce).strlcpy 40)

structure Refused (d : δ) (s : Session δ) : Prop where
  authOk    : ¬s.conn.flags.authOk
  events    : ¬s.conn.flags.events
  challenge : ∃ nonce, s.conn.challenge = (md5 nonce).strlcpy 40
  daemon    : s.daemon = d
  queued    : OnlyUnauth md5 s.queued

variable {md5 cb} {d : δ} {s s' : Session δ} {i : Input}

theorem OnlyUnauth.append {queued str nonce : CString} (h : OnlyUnauth md5 queued)
    (hp : str <+: Conn.unauthLine ((md5 nonce).strlcpy 40)) : OnlyUnauth md5 (queued ++ str) := by
  obtain ⟨lines, rfl, hl⟩ := h
  refine ⟨lines ++ [str], by simp, fun l hm => ?_⟩
  obtain hm | hm := List.mem_append.mp hm
  case inl => exact hl l hm
  case inr => exact List.mem_singleton.mp hm ▸ ⟨nonce, hp⟩

theorem Refused.new (sock : Nat) (password nonce : CString) (d : δ) :
    Refused md5 d (new md5 sock password nonce d) where
  authOk    := by simp [Session.new, Conn.accept, Conn.updateChallenge]
  events    := by simp [Session.new, Conn.accept, Conn.updateChallenge]
  challenge := ⟨nonce, rfl⟩
  daemon    := rfl
  queued    := ⟨[], rfl, by simp⟩

theorem Refused.event_silent (h : s.Refused md5 d) (hi : i.isEvent) (hs : s.Step md5 cb i s') : s' = s := by
  cases i <;> simp only [Input.isEvent, Bool.false_eq_true] at hi
  obtain rfl := Option.some.inj hs
  simp [queue, Conn.event, h.events]

theorem Refused.step (h : s.Refused md5 d) (hs : Transition.Guarded (Step md5 cb) (Harmless md5) s i s') :
    s'.Refused md5 d := by
  obtain ⟨hs, ha, he⟩ := hs
  cases i
  case event evt => exact h.event_silent (i := .event evt) rfl hs ▸ h
  case sent sent =>
    have ⟨buf, hc⟩ : ∃ buf, (s.conn.transmit sent).2 = { s.conn with send := buf } := by
      simp only [Conn.transmit]
      split
      · exact ⟨_, rfl⟩
      · split <;> exact ⟨_, rfl⟩
    simp only [Step, Session.step] at hs
    split at hs
    case isTrue  => cases hs
    case isFalse =>
      obtain rfl := Option.some.inj hs
      exact ⟨by simpa [hc] using h.authOk, by simpa [hc] using h.events,
        by simpa [hc] using h.challenge, h.daemon, h.queued⟩
  case line line nonce =>
    obtain ⟨conn', hc, hh⟩ := Conn.handle_refused cb nonce s.daemon h.authOk ha (he line nonce rfl)
    have ⟨n, hn⟩ : ∃ nonce, conn'.challenge = (md5 nonce).strlcpy 40 := by
      obtain rfl | rfl := hc
      · exact h.challenge
      · exact ⟨nonce, rfl⟩
    have hf : conn'.flags = s.conn.flags ∧ conn'.send = s.conn.send := by
      obtain rfl | rfl := hc <;> exact ⟨rfl, rfl⟩
    simp only [Step, Session.step, hh, Option.some.injEq] at hs
    subst hs
    have hp := Conn.drop_append conn' (Conn.unauthLine conn'.challenge)
    rw [← Conn.sendUnauth_eq, hf.2, hn] at hp
    exact ⟨hf.1 ▸ h.authOk, hf.1 ▸ h.events, ⟨n, hn⟩, h.daemon, h.queued.append hp⟩

theorem step_deterministic : Transition.Deterministic (Step md5 cb) :=
  fun _ _ _ _ h₁ h₂ => Option.some.inj (h₁.symm.trans h₂)

theorem Refused.run {is : List Input} (h : s.Refused md5 d)
    (e : Transition.Steps (Transition.Guarded (Step md5 cb) (Harmless md5)) s is s') :
    s'.Refused md5 d ∧ Transition.Steps (Step md5 cb) s (is.filter (!·.isEvent)) s' := by
  have hp : Transition.Preserves (Transition.Guarded (Step md5 cb) (Harmless md5)) (Refused md5 d) :=
    fun _ _ _ hs hr => hr.step hs
  refine ⟨e.invariant hp h, ?_⟩
  have e := (e.with_invariant hp h).drop_silent fun _ _ _ hi hs => hs.2.event_silent hi hs.1.1
  exact e.mono fun _ _ _ hs => hs.1.1

-- A client that neither shows the password nor asks for events makes the daemon do nothing, sees
-- nothing but refusals, and sees the same whatever events there are.
theorem refused_sees_nothing {sock : Nat} {password nonce : CString} {is₁ is₂ : List Input}
    {s₁ s₂ : Session δ}
    (e₁ : Transition.Steps (Transition.Guarded (Step md5 cb) (Harmless md5))
      (new md5 sock password nonce d) is₁ s₁)
    (e₂ : Transition.Steps (Transition.Guarded (Step md5 cb) (Harmless md5))
      (new md5 sock password nonce d) is₂ s₂)
    (he : is₁.filter (!·.isEvent) = is₂.filter (!·.isEvent)) :
    s₁.daemon = d ∧ OnlyUnauth md5 s₁.queued ∧ s₁.queued = s₂.queued := by
  have ⟨hr, e₁⟩ := (Refused.new sock password nonce d).run e₁
  have ⟨_, e₂⟩ := (Refused.new sock password nonce d).run e₂
  exact ⟨hr.daemon, hr.queued, congrArg queued (e₁.deterministic step_deterministic (he ▸ e₂))⟩

section Process

variable {nonces : Nat → CString} {conn conn' : Conn} {d' : δ}

theorem checkAuth_recv (conn : Conn) (recv : Buf) (cmd : Cmd) (nonce : CString) :
    { conn with recv }.checkAuth md5 cmd nonce = { conn.checkAuth md5 cmd nonce with recv } := by
  have hc : { conn with recv }.credentials md5 cmd = conn.credentials md5 cmd := rfl
  simp only [Conn.checkAuth, hc]
  cases conn.flags.authOk
  case true  => rfl
  case false => cases conn.credentials md5 cmd <;> rfl

theorem logEvents_recv (conn : Conn) (recv : Buf) (cmd : Cmd) :
    { conn with recv }.logEvents cmd = { conn.logEvents cmd with recv } := by
  simp only [Conn.logEvents]
  split <;> rfl

theorem handle_recv (conn : Conn) (recv : Buf) (line nonce : CString) (d : δ) :
    { conn with recv }.handle md5 cb line nonce d =
    ({ (conn.handle md5 cb line nonce d).1 with recv }, (conn.handle md5 cb line nonce d).2) := by
  simp only [Conn.handle, checkAuth_recv, logEvents_recv]
  cases Cmd.create line
  case none     => cases conn.flags.authOk <;> rfl
  case some cmd =>
    by_cases ha : cmd.type = .auth
    case pos => simp only [ha, if_true]
    case neg =>
      by_cases he : cmd.type = .logEvents
      case pos => simp only [he, reduceCtorEq, if_true, if_false]
      case neg =>
        simp only [ha, he, if_false]
        cases conn.flags.authOk <;> rfl

theorem event_recv (conn : Conn) (recv : Buf) (evt : CString) :
    { conn with recv }.event evt = { conn.event evt with recv } := by
  simp only [Conn.event]
  split <;> rfl

theorem transmit_recv (conn : Conn) (recv : Buf) (sent : Conn.Sent) :
    { conn with recv }.transmit sent = ((conn.transmit sent).1, { (conn.transmit sent).2 with recv }) := by
  simp only [Conn.transmit]
  split
  case isTrue  => rfl
  case isFalse => cases sent <;> rfl

-- The loop over the lines takes enough turns: it leaves no complete line in the buffer.
theorem extract_messages {turns : Nat} (h : conn.recv.data.length ≤ turns) :
    (conn.messages md5 cb nonces turns d).1.recv.extract = none := by
  induction turns generalizing conn d
  case zero          =>
    have hd : conn.recv.data = [] := List.eq_nil_of_length_eq_zero (Nat.le_zero.mp h)
    simp [Conn.messages, Buf.extract, CString.ofBuffer, CString.strchr, hd]
  case succ turns hi =>
    simp only [Conn.messages]
    split
    case h_1 hn => exact hn
    case h_2 line rest he =>
      have hl : rest.data.length ≤ turns := by
        have := Buf.extract_lt he
        omega
      split
      case isTrue  => exact hi hl
      case isFalse =>
        refine hi ?_
        rw [handle_recv conn rest]
        exact hl

-- A run without events from one state of the connection and the daemon to another one.
def Serves (md5 : CString → CString) (cb : Cmd → δ → CString × δ) (conn : Conn) (d : δ) (conn' : Conn)
    (d' : δ) : Prop :=
  ∃ is : List Input, (∀ i ∈ is, ¬i.isEvent) ∧ ∀ queued, ∃ queued',
    Transition.Steps (Step md5 cb) ⟨conn, d, queued⟩ is ⟨conn', d', queued'⟩

theorem Serves.refl : Serves md5 cb conn d conn d :=
  ⟨[], by simp, fun queued => ⟨queued, .refl⟩⟩

theorem Serves.trans {conn'' : Conn} {d'' : δ} (h₁ : Serves md5 cb conn d conn' d')
    (h₂ : Serves md5 cb conn' d' conn'' d'') : Serves md5 cb conn d conn'' d'' := by
  obtain ⟨is₁, he₁, hr₁⟩ := h₁
  obtain ⟨is₂, he₂, hr₂⟩ := h₂
  refine ⟨is₁ ++ is₂, fun i hi => (List.mem_append.mp hi).elim (he₁ i) (he₂ i), fun queued => ?_⟩
  obtain ⟨queued₁, h₁⟩ := hr₁ queued
  obtain ⟨queued₂, h₂⟩ := hr₂ queued₁
  exact ⟨queued₂, h₁.append h₂⟩

def Input.line? : Input → Option CString
  | line l _ => some l
  | _        => none

-- A run without events in which these lines are handled.
def Dispatches (md5 : CString → CString) (cb : Cmd → δ → CString × δ) (conn : Conn) (d : δ)
    (lines : List CString) (conn' : Conn) (d' : δ) : Prop :=
  ∃ is : List Input, (∀ i ∈ is, ¬i.isEvent) ∧ is.filterMap Input.line? = lines ∧
    ∀ queued, ∃ queued', Transition.Steps (Step md5 cb) ⟨conn, d, queued⟩ is ⟨conn', d', queued'⟩

section Dispatches

variable {conn'' : Conn} {d'' : δ} {ls₁ ls₂ : List CString}

theorem Dispatches.serves (h : Dispatches md5 cb conn d ls₁ conn' d') : Serves md5 cb conn d conn' d' :=
  have ⟨is, he, _, hr⟩ := h
  ⟨is, he, hr⟩

theorem Dispatches.refl : Dispatches md5 cb conn d [] conn d :=
  ⟨[], by simp, rfl, fun queued => ⟨queued, .refl⟩⟩

theorem Dispatches.trans (h₁ : Dispatches md5 cb conn d ls₁ conn' d')
    (h₂ : Dispatches md5 cb conn' d' ls₂ conn'' d'') :
    Dispatches md5 cb conn d (ls₁ ++ ls₂) conn'' d'' := by
  obtain ⟨is₁, he₁, hl₁, hr₁⟩ := h₁
  obtain ⟨is₂, he₂, hl₂, hr₂⟩ := h₂
  refine ⟨is₁ ++ is₂, fun i hi => (List.mem_append.mp hi).elim (he₁ i) (he₂ i), ?_, fun queued => ?_⟩
  case refine_1 => rw [List.filterMap_append, hl₁, hl₂]
  case refine_2 =>
    obtain ⟨queued₁, h₁⟩ := hr₁ queued
    obtain ⟨queued₂, h₂⟩ := hr₂ queued₁
    exact ⟨queued₂, h₁.append h₂⟩

theorem Dispatches.single {i : Input} (hi : ¬i.isEvent)
    (h : ∀ queued, ∃ queued', Step md5 cb ⟨conn, d, queued⟩ i ⟨conn', d', queued'⟩) :
    Dispatches md5 cb conn d i.line?.toList conn' d' := by
  refine ⟨[i], by simpa using hi, ?_, fun queued => ?_⟩
  case refine_1 => cases i <;> rfl
  case refine_2 =>
    obtain ⟨queued', h⟩ := h queued
    exact ⟨queued', .step h .refl⟩

theorem dispatches_handle (md5 : CString → CString) (cb : Cmd → δ → CString × δ) (line nonce : CString)
    (conn : Conn) (recv : Buf) (d : δ) :
    Dispatches md5 cb { conn with recv } d [line]
      { (conn.handle md5 cb line nonce d).1 with recv } (conn.handle md5 cb line nonce d).2 := by
  refine .single (i := .line line nonce) (by simp [Input.isEvent]) fun queued => ?_
  simp only [Step, Session.step, handle_recv conn recv]
  exact ⟨_, rfl⟩

end Dispatches

def spoken (lines : List CString) : List CString :=
  (lines.filter (· ≠ [])).map Conn.stripCr

theorem spoken_append (ls ls' : List CString) : spoken (ls ++ ls') = spoken ls ++ spoken ls' := by
  simp [spoken]

-- The lines that the loop takes from the buffer, and what it leaves.
def cut : Nat → Buf → List CString × Buf
  | 0,         recv => ([], recv)
  | turns + 1, recv =>
    match recv.extract with
    | none              => ([], recv)
    | some (line, recv) => (line :: (cut turns recv).1, (cut turns recv).2)

-- The loop over the lines in the buffer handles them one after the other.
theorem dispatches_messages (md5 : CString → CString) (cb : Cmd → δ → CString × δ) (nonces : Nat → CString)
    (turns : Nat) (conn : Conn) (recv : Buf) (d : δ) :
    Dispatches md5 cb { conn with recv } d (spoken (cut turns conn.recv).1)
      { (conn.messages md5 cb nonces turns d).1 with recv } (conn.messages md5 cb nonces turns d).2 ∧
    (conn.messages md5 cb nonces turns d).1.recv = (cut turns conn.recv).2 := by
  induction turns generalizing conn d
  case zero          => exact ⟨.refl, rfl⟩
  case succ turns hi =>
    simp only [Conn.messages, cut]
    cases he : conn.recv.extract
    case none   => exact ⟨.refl, rfl⟩
    case some r =>
      obtain ⟨line, rest⟩ := r
      by_cases hl : line = []
      case pos => simpa [hl, spoken] using hi { conn with recv := rest } d
      case neg =>
        have hs : spoken (line :: (cut turns rest).1) =
            [Conn.stripCr line] ++ spoken (cut turns rest).1 := by
          simp [spoken, hl]
        have hd := dispatches_handle md5 cb (Conn.stripCr line) (nonces turns) conn recv d
        simp only [hl, if_false, handle_recv conn rest, hs]
        have ⟨hm, hr⟩ := hi { (conn.handle md5 cb (Conn.stripCr line) (nonces turns) d).1 with recv := rest }
          (conn.handle md5 cb (Conn.stripCr line) (nonces turns) d).2
        exact ⟨hd.trans hm, hr⟩

theorem serves_receive (md5 : CString → CString) (cb : Cmd → δ → CString × δ) (nonces : Nat → CString)
    (conn : Conn) (d : δ) (r : Conn.Recv) :
    Serves md5 cb conn d { (conn.receive md5 cb nonces d r).2.1 with recv := conn.recv }
      (conn.receive md5 cb nonces d r).2.2 := by
  cases r
  case error => exact .refl
  case data bytes =>
    simp only [Conn.receive]
    split
    case isTrue  => exact .refl
    case isFalse =>
      split
      case isTrue  => exact .refl
      case isFalse =>
        let recv := conn.recv.append (bytes.take (conn.recv.size - conn.recv.data.length))
        exact (dispatches_messages md5 cb nonces recv.data.length { conn with recv } conn.recv d).1.serves

theorem dispatches_transmit (md5 : CString → CString) (cb : Cmd → δ → CString × δ) {sent : Conn.Sent}
    (conn : Conn) (recv : Buf) (d : δ) (h : (conn.transmit sent).1 = false) :
    Dispatches md5 cb { conn with recv } d [] { (conn.transmit sent).2 with recv } d := by
  refine .single (i := .sent sent) (by simp [Input.isEvent]) fun queued => ⟨queued, ?_⟩
  simp [Step, Session.step, transmit_recv, h]

-- Each call of `f2b_conn_process` is a part of a session.
theorem serves_process {incoming : Option Conn.Recv} {sent : Conn.Sent} {failed : Bool}
    (h : conn.process md5 cb incoming nonces sent d = (failed, conn', d')) :
    ∃ conn'', Serves md5 cb conn d conn'' d' ∧ (¬failed → conn'' = { conn' with recv := conn.recv }) := by
  have ht (conn₁ : Conn) (d₁ : δ) (hs : Serves md5 cb conn d { conn₁ with recv := conn.recv } d₁)
      (h : ((conn₁.transmit sent).1, (conn₁.transmit sent).2, d₁) = (failed, conn', d')) :
      ∃ conn'', Serves md5 cb conn d conn'' d' ∧
        (¬failed → conn'' = { conn' with recv := conn.recv }) := by
    simp only [Prod.mk.injEq] at h
    obtain ⟨rfl, rfl, rfl⟩ := h
    cases hf : (conn₁.transmit sent).1
    case true  => exact ⟨_, hs, fun hf => absurd rfl hf⟩
    case false => exact ⟨_, hs.trans (dispatches_transmit md5 cb conn₁ conn.recv d₁ hf).serves, fun _ => rfl⟩
  cases incoming
  case none   => exact ht conn d .refl h
  case some r =>
    have hs := serves_receive md5 cb nonces conn d r
    simp only [Conn.process] at h
    generalize conn.receive md5 cb nonces d r = t at h hs
    obtain ⟨b, conn₁, d₁⟩ := t
    cases b
    case true  =>
      obtain ⟨rfl, rfl, rfl⟩ : true = failed ∧ conn₁ = conn' ∧ d₁ = d' := by simpa using h
      exact ⟨_, hs, fun hf => absurd rfl hf⟩
    case false => exact ht conn₁ d₁ hs (by simpa using h)

end Process

section Example

def nonce : CString := "0000002a+1700000000".toList

def digest (s : CString) : CString :=
  if s = nonce then "b49286878edb13f89a08fcdfa7c76f65".toList else []

def evtBan : CString := "event=ban jail=ssh addr=192.0.2.7 bantime=3600 count=1".toList

-- A session in which the daemon counts the commands that it runs.
def count (_ : Cmd) (n : Nat) : CString × Nat :=
  ("+ok\n".toList, n + 1)

def session (inputs : List Input) : Option (Session Nat) :=
  Transition.replay (step digest count) (new digest 7 "secret".toList nonce 0) inputs

theorem anonymous_of_type {line : CString} {cmd : Cmd} (s : Session δ) (nonce : CString)
    (hc : Cmd.create line = some cmd) (h : cmd.type ≠ .auth) : s.Anonymous digest (.line line nonce) := by
  simp [Anonymous, Conn.presents, hc, h]

theorem refused_sees_nothing_of_ban :
    ∃ s₁ s₂, session [.line "status".toList [], .event evtBan] = some s₁ ∧
    session [.line "status".toList []] = some s₂ ∧
    s₁.daemon = 0 ∧ OnlyUnauth digest s₁.queued ∧ s₁.queued = s₂.queued := by
  have h₁ := (Option.some_get (show (session [.line "status".toList [], .event evtBan]).isSome from rfl)).symm
  have h₂ := (Option.some_get (show (session [.line "status".toList []]).isSome from rfl)).symm
  have hc : Cmd.create "status".toList = some ⟨.status, ["status".toList]⟩ := by decide
  have hs (s : Session Nat) : s.Harmless digest (.line "status".toList []) :=
    ⟨anonymous_of_type s [] hc (by decide), fun _ _ h => by cases h; decide⟩
  have he (s : Session Nat) : s.Harmless digest (.event evtBan) := ⟨trivial, fun _ _ h => by cases h⟩
  refine ⟨_, _, h₁, h₂, refused_sees_nothing (.guard (.of_replay h₁) ?_) (.guard (.of_replay h₂) ?_) rfl⟩
  · exact List.forall_mem_cons.mpr ⟨hs, List.forall_mem_singleton.mpr he⟩
  · exact List.forall_mem_singleton.mpr hs

-- The client asks for events without the password, and sees the ban of a host.
theorem refused_sees_ban :
    ∃ s₁ s₂, Transition.Steps (Transition.Guarded (Step digest count) (Anonymous digest))
      (new digest 7 "secret".toList nonce 0) [.line "log events on".toList [], .event evtBan] s₁ ∧
    Transition.Steps (Transition.Guarded (Step digest count) (Anonymous digest))
      (new digest 7 "secret".toList nonce 0) [.line "log events on".toList []] s₂ ∧
    ¬(s₁.daemon = 0 ∧ OnlyUnauth digest s₁.queued ∧ s₁.queued = s₂.queued) := by
  have h₁ := (Option.some_get
    (show (session [.line "log events on".toList [], .event evtBan]).isSome from rfl)).symm
  have h₂ := (Option.some_get (show (session [.line "log events on".toList []]).isSome from rfl)).symm
  have hc : Cmd.create "log events on".toList =
    some ⟨.logEvents, ["log".toList, "events".toList, "on".toList]⟩ := by decide
  have hs (s : Session Nat) : s.Anonymous digest (.line "log events on".toList []) :=
    anonymous_of_type s [] hc (by decide)
  refine ⟨_, _, .guard (.of_replay h₁) ?_, .guard (.of_replay h₂) ?_, fun h => ?_⟩
  · exact List.forall_mem_cons.mpr ⟨hs, List.forall_mem_singleton.mpr fun _ => trivial⟩
  · exact List.forall_mem_singleton.mpr hs
  · exact absurd h.2.2 (by decide)

end Example

end Session
end F2b
