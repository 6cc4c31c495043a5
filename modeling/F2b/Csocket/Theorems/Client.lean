import F2b.Csocket.Client
import F2b.Csocket.Theorems.Chunks

-- What is typed at the client is handled by the daemon, each command once and in order.

namespace F2b

open CString (split isgraph isspace)

namespace Client

-- A client and the daemon, with the bytes that are on their way.
structure Pair (δ : Type) where
  running : Bool
  typed   : List CString
  unsent  : CString
  wire    : CString
  link    : Link δ

-- `main` gives the next command to `handle_cmd`, `send` is called, the client ends, or the daemon calls
-- `f2b_conn_process` and receives some bytes, or the end of the stream.
inductive Event
  | command
  | send (sent : Conn.Sent)
  | leave
  | serve (n : Nat) (nonces : Nat → CString) (sent : Conn.Sent)
  | hangup (nonces : Nat → CString) (sent : Conn.Sent)

namespace Pair

variable {δ : Type} (md5 : CString → CString) (cb : Cmd → δ → CString × δ)

def chunk (s : Pair δ) (n : Nat) : Option CString :=
  if n = 0 then none else some (s.wire.take n)

-- The daemon cannot send to a client that has ended.
inductive Step (s : Pair δ) : Event → Pair δ → Prop
  | command {line rest} :
    s.running → s.unsent = [] → s.typed = line :: rest →
    Step s .command { s with typed := rest, unsent := buffer line }
  | send {sent taken p} :
    s.running → s.unsent ≠ [] → turn s.unsent sent = some (taken, p) →
    Step s (.send sent) { s with unsent := p, wire := s.wire ++ taken }
  | exit {sent} :
    s.running → s.unsent ≠ [] → turn s.unsent sent = none →
    Step s (.send sent) { s with running := false }
  | leave :
    s.running → s.unsent = [] → s.typed = [] →
    Step s .leave { s with running := false }
  | serve {n nonces sent closed conn daemon} :
    s.link.alive → n ≤ s.wire.length → n ≤ s.link.conn.recv.size - s.link.conn.recv.data.length →
    (sent = .error → ¬s.running) →
    s.link.conn.process md5 cb ((s.chunk n).map .data) nonces sent s.link.daemon = (closed, conn, daemon) →
    Step s (.serve n nonces sent) { s with wire := s.wire.drop n, link := ⟨!closed, conn, daemon⟩ }
  | hangup {nonces sent closed conn daemon} :
    s.link.alive → ¬s.running → s.wire = [] →
    s.link.conn.process md5 cb (some (.data [])) nonces sent s.link.daemon = (closed, conn, daemon) →
    Step s (.hangup nonces sent) { s with link := ⟨!closed, conn, daemon⟩ }

-- The client has connected to a listener of the type `unix`.
def start (typed : List CString) (sock : Nat) (password nonce : CString) (daemon : δ) : Pair δ where
  running := true
  typed   := typed
  unsent  := []
  wire    := []
  link    := .start md5 .unix sock password nonce daemon

end Pair

structure Plain (line : CString) : Prop where
  printable : ∀ c ∈ line, isgraph c ∨ isspace c
  fits      : line.length + 1 < WBUF_SIZE

-- The lines that a command is for the daemon.
def rows (line : CString) : List CString :=
  (split (line ++ ['\n'])).1

theorem buffer_eq {line : CString} (h : line.length + 1 < WBUF_SIZE) : buffer line = line ++ ['\n'] :=
  CString.strlcpy_of_lt (by simpa)

theorem split_snoc (s : CString) : (split (s ++ ['\n'])).2 = [] := by
  have ⟨_, hn, _⟩ := CString.split_spec s
  rw [CString.split_append, CString.split_line [] hn]
  rfl

theorem split_buffers {lines : List CString} (h : ∀ l ∈ lines, Plain l) :
    split (lines.flatMap buffer) = (lines.flatMap rows, []) := by
  induction lines
  case nil           => rfl
  case cons l ls hi =>
    have ⟨hl, h⟩ := List.forall_mem_cons.mp h
    rw [List.flatMap_cons, buffer_eq hl.fits, CString.split_append, split_snoc, List.nil_append, hi h]
    rfl

section Run

open Pair

variable {δ : Type} {md5 : CString → CString} {cb : Cmd → δ → CString × δ}
variable {conn₀ : Conn} {d₀ : δ} {typed done : List CString} {calls : List Link.Call} {s s' : Pair δ} {i : Event}

-- No byte gets lost or comes twice, and the connection is closed because of a line that is too long, or because
-- the client has ended.
structure Carried (md5 : CString → CString) (cb : Cmd → δ → CString × δ) (conn₀ : Conn) (d₀ : δ)
    (typed done : List CString) (calls : List Link.Call) (s : Pair δ) : Prop where
  received : Link.Received md5 cb conn₀ d₀ calls
    { s.link with alive := (split (Link.stream calls)).2.length < RBUF_SIZE }
  short    : s.link.alive → (split (Link.stream calls)).2.length < RBUF_SIZE
  closed   : ¬s.link.alive → RBUF_SIZE ≤ (split (Link.stream calls)).2.length ∨
    ¬s.running ∧ (s.wire = [] ∨ (split (Link.stream calls)).1 ≠ [])
  typed    : typed = done ++ s.typed
  bytes    : Link.stream calls ++ s.wire ++ s.unsent = done.flatMap buffer

theorem turn_append {p taken rest : CString} {sent : Conn.Sent} (h : turn p sent = some (taken, rest)) :
    taken ++ rest = p := by
  cases sent
  case sent n => obtain ⟨rfl, rfl⟩ := Prod.mk.inj (Option.some.inj h); exact List.take_append_drop ..
  case again  => obtain ⟨rfl, rfl⟩ := Prod.mk.inj (Option.some.inj h); rfl
  case error  => cases h

-- A client that cannot be sent to is like one that takes nothing for now, until something is queued for it.
theorem process_error (md5 : CString → CString) (cb : Cmd → δ → CString × δ) (conn : Conn)
    (incoming : Option Conn.Recv) (nonces : Nat → CString) (d : δ) :
    conn.process md5 cb incoming nonces .error d =
    ((conn.process md5 cb incoming nonces .again d).1 ||
      (conn.process md5 cb incoming nonces .again d).2.1.send.data ≠ [],
    (conn.process md5 cb incoming nonces .again d).2) := by
  have ht (conn : Conn) : conn.transmit .error = (decide (conn.send.data ≠ []), conn) ∧
      conn.transmit .again = (false, conn) := by
    simp only [Conn.transmit]
    split <;> simp_all
  cases incoming
  case none   => simp [Conn.process, ht]
  case some r =>
    simp only [Conn.process, ht]
    generalize conn.receive md5 cb nonces d r = c
    obtain ⟨failed, conn, d⟩ := c
    cases failed <;> simp

theorem process_end (md5 : CString → CString) (cb : Cmd → δ → CString × δ) (conn : Conn) (nonces : Nat → CString)
    (sent : Conn.Sent) (d : δ) :
    conn.process md5 cb (some (.data [])) nonces sent d = (true, conn, d) := by
  simp [Conn.process, Conn.receive]

theorem quiet_of_dispatches {conn conn' : Conn} {d d' : δ} (h : Session.Dispatches md5 cb conn d [] conn' d')
    (hq : conn.send.data = []) : conn'.send.data = [] := by
  obtain ⟨is, hn, hl, hr⟩ := h
  obtain ⟨queued, e⟩ := hr []
  generalize hs : Session.mk conn d [] = s at e
  generalize hs' : Session.mk conn' d' queued = s' at e
  have hq : s.conn.send.data = [] := hs ▸ hq
  suffices h : s'.conn.send.data = [] by rwa [← hs'] at h
  clear hs hs' hr
  induction e
  case refl                    => exact hq
  case step i is hstep _ hi =>
    have ⟨hn, hns⟩ := List.forall_mem_cons.mp hn
    cases i
    case line  => simp [Session.Input.line?] at hl
    case event => simp [Session.Input.isEvent] at hn
    case sent  =>
      refine hi hns (by simpa [Session.Input.line?] using hl) ?_
      simp only [Session.Step, Session.step, Conn.transmit, hq] at hstep
      obtain rfl := Option.some.inj hstep
      exact hq

-- The bytes that a call takes from the wire have been sent by the client, and can be handled.
theorem Carried.arrives {n : Nat} (hp : ∀ l ∈ typed, Plain l) (h : Carried md5 cb conn₀ d₀ typed done calls s)
    (hn : n ≤ s.wire.length) (hf : n ≤ s.link.conn.recv.size - s.link.conn.recv.data.length) :
    ∀ chunk ∈ s.chunk n, Link.Arrives s.link.conn chunk := by
  intro chunk hm
  obtain ⟨h0, rfl⟩ : n ≠ 0 ∧ s.wire.take n = chunk := by
    simp only [Pair.chunk] at hm
    split at hm
    · cases hm
    · exact ⟨‹_›, Option.some.inj hm⟩
  have hl : (s.wire.take n).length = n := List.length_take_of_le hn
  refine ⟨List.ne_nil_of_length_pos (by omega), hl.trans_le hf, fun c hc => ?_⟩
  have hm : c ∈ done.flatMap buffer := h.bytes ▸ by simp [List.mem_of_mem_take hc]
  obtain ⟨l, hl, hm⟩ := List.mem_flatMap.mp hm
  have hpl := hp l (h.typed ▸ List.mem_append_left _ hl)
  rw [buffer_eq hpl.fits] at hm
  obtain hm | hm := List.mem_append.mp hm
  case inl => exact hpl.printable c hm
  case inr => exact List.mem_singleton.mp hm ▸ .inr (by decide)

theorem stream_chunk (calls : List Link.Call) (s : Pair δ) (n : Nat) (nonces : Nat → CString) (sent : Conn.Sent) :
    Link.stream (calls ++ [⟨s.chunk n, nonces, sent⟩]) = Link.stream calls ++ s.wire.take n := by
  simp only [Link.stream, List.flatMap_append, List.flatMap_cons, List.flatMap_nil, List.append_nil, Pair.chunk]
  split
  case isTrue h0 => simp [h0]
  case isFalse   => rfl

-- What a call makes of the connection, if the client can be sent to or `closed` says that it cannot.
theorem Carried.served {n : Nat} {nonces : Nat → CString} {sent : Conn.Sent} {failed closed : Bool} {conn : Conn}
    {daemon : δ} (hp : ∀ l ∈ typed, Plain l) (h : Carried md5 cb conn₀ d₀ typed done calls s) (ha : s.link.alive)
    (hn : n ≤ s.wire.length) (hf : n ≤ s.link.conn.recv.size - s.link.conn.recv.data.length) (he : sent ≠ .error)
    (hc : s.link.conn.process md5 cb ((s.chunk n).map .data) nonces sent s.link.daemon = (failed, conn, daemon))
    (hcl : closed = failed ∨ closed ∧ ¬s.running ∧ conn.send.data ≠ []) (hq : conn₀.send.data = []) :
    ∃ calls, Carried md5 cb conn₀ d₀ typed done calls
      { s with wire := s.wire.drop n, link := ⟨!closed, conn, daemon⟩ } := by
  have hst := stream_chunk calls s n nonces sent
  have hlink : (⟨true, s.link.conn, s.link.daemon⟩ : Link δ) =
      { s.link with alive := decide ((split (Link.stream calls)).2.length < RBUF_SIZE) } := by
    rw [decide_eq_true (h.short ha)]
  have hr : Link.Received md5 cb conn₀ d₀ (calls ++ [⟨s.chunk n, nonces, sent⟩]) ⟨!failed, conn, daemon⟩ :=
    (hlink ▸ h.received).step ⟨rfl, h.arrives hp hn hf, he, by simpa using hc⟩
  have hfail : failed = false ↔ (split (Link.stream (calls ++ [⟨s.chunk n, nonces, sent⟩]))).2.length < RBUF_SIZE := by
    simpa using congrArg (· = true) hr.alive
  refine ⟨_, ⟨by rw [← hr.alive]; exact hr, fun ha => hfail.mp ?_, fun hna => ?_, h.typed, ?_⟩⟩
  case refine_1 =>
    obtain rfl | ⟨rfl, _⟩ := hcl
    case inl => simpa using ha
    case inr => simp at ha
  case refine_2 =>
    obtain rfl | ⟨-, hrun, hd⟩ := hcl
    case inl =>
      refine .inl (Nat.le_of_not_lt fun hlt => hna ?_)
      simpa using hfail.mpr hlt
    case inr =>
      refine .inr ⟨hrun, .inr fun h0 => hd ?_⟩
      have hl := hr.lines
      rw [h0] at hl
      have hs : ({ conn with recv := conn₀.recv } : Conn).send.data = [] := quiet_of_dispatches hl hq
      exact hs
  case refine_3 => rw [← h.bytes, hst, List.append_assoc (Link.stream calls), List.take_append_drop]

theorem Carried.step (hp : ∀ l ∈ typed, Plain l) (hq : conn₀.send.data = [])
    (h : Carried md5 cb conn₀ d₀ typed done calls s) (hs : s.Step md5 cb i s') :
    ∃ done calls, Carried md5 cb conn₀ d₀ typed done calls s' := by
  cases hs
  case command line rest _ hu hl =>
    refine ⟨done ++ [line], calls, h.received, h.short, h.closed, by simp [h.typed, hl], ?_⟩
    have hb := h.bytes
    rw [hu, List.append_nil] at hb
    rw [List.flatMap_append, ← hb]
    simp
  case send sent taken p hrun _ hturn =>
    have hb : Link.stream calls ++ (s.wire ++ taken) ++ p = done.flatMap buffer := by
      rw [← h.bytes, ← turn_append hturn]
      simp
    exact ⟨done, calls, h.received, h.short,
      fun hna => (h.closed hna).imp_right fun ⟨hn, _⟩ => absurd hrun hn, h.typed, hb⟩
  case exit hrun _ _ =>
    exact ⟨done, calls, h.received, h.short,
      fun hna => (h.closed hna).imp_right fun ⟨hn, _⟩ => absurd hrun hn, h.typed, h.bytes⟩
  case leave hrun _ _ =>
    exact ⟨done, calls, h.received, h.short,
      fun hna => (h.closed hna).imp_right fun ⟨hn, _⟩ => absurd hrun hn, h.typed, h.bytes⟩
  case serve n nonces sent closed conn daemon ha hn hf he hc =>
    by_cases hse : sent = .error
    case neg => exact ⟨done, h.served hp ha hn hf hse hc (.inl rfl) hq⟩
    case pos =>
      rw [hse, process_error] at hc
      obtain ⟨hcl, hcd⟩ := Prod.mk.inj hc
      have hag : s.link.conn.process md5 cb ((s.chunk n).map .data) nonces .again s.link.daemon =
          (_, conn, daemon) := Prod.ext rfl hcd
      refine ⟨done, h.served hp ha hn hf (by simp) hag ?_ hq⟩
      rw [hcd] at hcl
      by_cases hd : conn.send.data = []
      case pos => exact .inl (by simpa [hd] using hcl.symm)
      case neg => exact .inr ⟨by simpa [hd] using hcl.symm, he hse, hd⟩
  case hangup nonces sent closed conn daemon ha hrun hw hc =>
    rw [process_end] at hc
    obtain ⟨rfl, rfl, rfl⟩ : true = closed ∧ s.link.conn = conn ∧ s.link.daemon = daemon := by simpa using hc
    exact ⟨done, calls, h.received, by simp, fun _ => .inr ⟨hrun, .inl hw⟩, h.typed, h.bytes⟩

theorem carried_start (md5 : CString → CString) (cb : Cmd → δ → CString × δ) (typed : List CString) (sock : Nat)
    (password nonce : CString) (d : δ) :
    Carried md5 cb (.accept md5 .unix sock password nonce) d typed [] [] (start md5 typed sock password nonce d) where
  received := ⟨.refl, rfl, by simp [Link.stream, split], by simp [Link.stream, split], rfl⟩
  short    := fun _ => by decide
  closed   := fun h => absurd rfl h
  typed    := rfl
  bytes    := rfl

theorem Carried.run {is : List Event} (hp : ∀ l ∈ typed, Plain l) (hq : conn₀.send.data = [])
    (h : Carried md5 cb conn₀ d₀ typed done calls s) (e : Transition.Steps (Step md5 cb) s is s') :
    ∃ done calls, Carried md5 cb conn₀ d₀ typed done calls s' := by
  refine e.invariant (P := fun s => ∃ done calls, Carried md5 cb conn₀ d₀ typed done calls s) ?_ ⟨done, calls, h⟩
  rintro s i s' hs ⟨done, calls, h⟩
  exact h.step hp hq hs

-- These lines have been handled, and nothing else has reached the daemon.
def Handled (md5 : CString → CString) (cb : Cmd → δ → CString × δ) (s₀ : Link δ) (lines : List CString)
    (s : Link δ) : Prop :=
  Session.Dispatches md5 cb s₀.conn s₀.daemon lines { s.conn with recv := s₀.conn.recv } s.daemon

def Drained (s : Pair δ) : Prop :=
  s.unsent = [] ∧ s.wire = []

theorem spoken_prefix {ls ls' : List CString} (h : ls <+: ls') : Session.spoken ls <+: Session.spoken ls' := by
  obtain ⟨t, rfl⟩ := h
  rw [Session.spoken_append]
  exact List.prefix_append ..

-- The lines that the daemon has received are the first ones, and it may have a part of the next one.
theorem Carried.split_stream (hp : ∀ l ∈ typed, Plain l) (h : Carried md5 cb conn₀ d₀ typed done calls s) :
    (split (Link.stream calls)).1 <+: done.flatMap rows ∧
    ((split (Link.stream calls)).2 = [] ∨ ∃ r ∈ done.flatMap rows, (split (Link.stream calls)).2 <+: r) ∧
    (Drained s → (split (Link.stream calls)).1 = done.flatMap rows) := by
  have hb := split_buffers fun l hl => hp l (h.typed ▸ List.mem_append_left _ hl)
  have hpre : Link.stream calls <+: done.flatMap buffer := by
    rw [← h.bytes, List.append_assoc]
    exact List.prefix_append ..
  have ⟨hls, htail⟩ := CString.split_of_prefix hpre (by rw [hb])
  rw [hb] at hls htail
  refine ⟨hls, htail, fun ⟨hu, hw⟩ => ?_⟩
  have hs := h.bytes
  rw [hu, hw, List.append_nil, List.append_nil] at hs
  rw [hs, hb]

theorem Carried.tail_lt (hp : ∀ l ∈ typed, Plain l) (hs : ∀ l ∈ typed, ∀ r ∈ rows l, r.length < RBUF_SIZE)
    (h : Carried md5 cb conn₀ d₀ typed done calls s) : (split (Link.stream calls)).2.length < RBUF_SIZE := by
  obtain ⟨-, hn | ⟨r, hr, hl⟩, -⟩ := h.split_stream hp
  case inl => rw [hn]; decide
  case inr =>
    obtain ⟨l, hm, hr⟩ := List.mem_flatMap.mp hr
    exact Nat.lt_of_le_of_lt hl.length_le (hs l (h.typed ▸ List.mem_append_left _ hm) r hr)

theorem Carried.alive (hp : ∀ l ∈ typed, Plain l) (hs : ∀ l ∈ typed, ∀ r ∈ rows l, r.length < RBUF_SIZE)
    (h : Carried md5 cb conn₀ d₀ typed done calls s) (hr : s.running) : s.link.alive := by
  by_contra ha
  obtain hc | ⟨hn, -⟩ := h.closed ha
  case inl => exact absurd (h.tail_lt hp hs) (Nat.not_lt.mpr hc)
  case inr => exact hn hr

def Pair.after (s : Pair δ) (r : Sending) : Pair δ :=
  { s with running := r.outcome ≠ .exited, unsent := r.left, wire := s.wire ++ r.taken }

theorem sendLoop_cons {p : CString} (hp : p ≠ []) (r : Conn.Sent) (rs : List Conn.Sent) :
    sendLoop p (r :: rs) = match turn p r with
      | none            => ⟨[], p, .exited⟩
      | some (taken, p) => { sendLoop p rs with taken := taken ++ (sendLoop p rs).taken } := by
  cases p
  case nil  => contradiction
  case cons => rfl

theorem sendLoop_all (p : CString) : sendLoop p [.sent p.length] = ⟨p, [], .returned⟩ := by
  cases p
  case nil  => rfl
  case cons => simp [sendLoop, turn]

-- The loop in `handle_cmd` is a run of the client.
theorem steps_sendLoop (md5 : CString → CString) (cb : Cmd → δ → CString × δ) (hr : s.running)
    (results : List Conn.Sent) :
    ∃ is, Transition.Steps (Step md5 cb) s is (s.after (sendLoop s.unsent results)) := by
  induction results generalizing s
  case nil =>
    obtain ⟨running, typed, unsent, wire, link⟩ := s
    obtain rfl : running = true := hr
    cases unsent <;> exact ⟨[], by simpa [sendLoop, Pair.after] using .refl⟩
  case cons r rs hi =>
    by_cases hu : s.unsent = []
    case pos =>
      have : s.after (sendLoop s.unsent (r :: rs)) = s := by
        obtain ⟨running, typed, unsent, wire, link⟩ := s
        obtain rfl : running = true := hr
        obtain rfl : unsent = [] := hu
        simp [sendLoop, Pair.after]
      exact ⟨[], by rw [this]; exact .refl⟩
    case neg =>
      rw [sendLoop_cons hu]
      cases ht : turn s.unsent r
      case none => exact ⟨[_], by simpa [Pair.after] using .step (.exit hr hu ht) .refl⟩
      case some t =>
        obtain ⟨taken, p⟩ := t
        let s₁ : Pair δ := { s with unsent := p, wire := s.wire ++ taken }
        obtain ⟨is, e⟩ := hi (s := s₁) hr
        refine ⟨_ :: is, .step (.send hr hu ht) ?_⟩
        simpa [Pair.after, s₁] using e

-- So is a whole call of it, for the next command.
theorem steps_handleCmd (md5 : CString → CString) (cb : Cmd → δ → CString × δ) {line : CString} {rest : List CString}
    (hr : s.running) (hu : s.unsent = []) (ht : s.typed = line :: rest) (results : List Conn.Sent) :
    ∃ is, Transition.Steps (Step md5 cb) s is ({ s with typed := rest }.after (handleCmd line results)) := by
  obtain ⟨is, e⟩ := steps_sendLoop (s := { s with typed := rest, unsent := buffer line }) md5 cb hr results
  exact ⟨_, .step (.command hr hu ht) e⟩

theorem Carried.finish_wire (hp : ∀ l ∈ typed, Plain l) (hs : ∀ l ∈ typed, ∀ r ∈ rows l, r.length < RBUF_SIZE)
    (hq : conn₀.send.data = []) (h : Carried md5 cb conn₀ d₀ typed done calls s) (hr : s.running) :
    ∃ is s', Transition.Steps (Step md5 cb) s is s' ∧ s'.wire = [] ∧ s'.running ∧ s'.typed = s.typed ∧
      s'.unsent = s.unsent := by
  induction hn : s.wire.length generalizing s done calls
  case zero      => exact ⟨[], s, .refl, List.eq_nil_of_length_eq_zero hn, hr, rfl, rfl⟩
  case succ n hi =>
    have ha : s.link.alive := h.alive hp hs hr
    have hf : 1 ≤ s.link.conn.recv.size - s.link.conn.recv.data.length := by
      have hl := h.short ha
      have hrecv := h.received.recv
      simp only at hrecv
      rw [hrecv]
      exact Nat.sub_pos_of_lt hl
    have hstep : s.Step md5 cb (.serve 1 (fun _ => []) .again) _ :=
      .serve ha (show 1 ≤ s.wire.length by omega) hf (by simp) rfl
    obtain ⟨done, calls, h'⟩ := h.step hp hq hstep
    obtain ⟨is, s', e, hw, hr', ht, hu⟩ := hi h' hr (by simp [hn])
    exact ⟨_, s', .step hstep e, hw, hr', ht, hu⟩

theorem Carried.finish_typed (hp : ∀ l ∈ typed, Plain l) (hs : ∀ l ∈ typed, ∀ r ∈ rows l, r.length < RBUF_SIZE)
    (hq : conn₀.send.data = []) (h : Carried md5 cb conn₀ d₀ typed done calls s) (hr : s.running)
    (hd : Drained s) : ∃ is s', Transition.Steps (Step md5 cb) s is s' ∧ s'.typed = [] ∧ Drained s' := by
  induction ht : s.typed generalizing s done calls
  case nil               => exact ⟨[], s, .refl, ht, hd⟩
  case cons line rest hi =>
    obtain ⟨is₁, e₁⟩ := steps_handleCmd md5 cb hr hd.1 ht [.sent (buffer line).length]
    rw [handleCmd, sendLoop_all] at e₁
    obtain ⟨_, _, h₁⟩ := h.run hp hq e₁
    obtain ⟨is₂, s₂, e₂, hw, hr₂, ht₂, hu⟩ := h₁.finish_wire hp hs hq (by simp [Pair.after])
    obtain ⟨_, _, h₂⟩ := h₁.run hp hq e₂
    obtain ⟨is₃, s₃, e₃, hf⟩ := hi h₂ hr₂ ⟨hu, hw⟩ ht₂
    exact ⟨_, s₃, (e₁.append e₂).append e₃, hf⟩

-- A client that runs can get all of its commands handled.
theorem Carried.finish (hp : ∀ l ∈ typed, Plain l) (hs : ∀ l ∈ typed, ∀ r ∈ rows l, r.length < RBUF_SIZE)
    (hq : conn₀.send.data = []) (h : Carried md5 cb conn₀ d₀ typed done calls s) (hr : s.running) :
    ∃ is s', Transition.Steps (Step md5 cb) s is s' ∧ s'.typed = [] ∧ Drained s' := by
  obtain ⟨is₁, e₁⟩ := steps_sendLoop md5 cb hr [.sent s.unsent.length]
  rw [sendLoop_all] at e₁
  obtain ⟨_, _, h₁⟩ := h.run hp hq e₁
  obtain ⟨is₂, s₂, e₂, hw, hr₂, _, hu⟩ := h₁.finish_wire hp hs hq (by simp [Pair.after])
  obtain ⟨_, _, h₂⟩ := h₁.run hp hq e₂
  obtain ⟨is₃, s₃, e₃, hf⟩ := h₂.finish_typed hp hs hq hr₂ ⟨hu, hw⟩
  exact ⟨_, s₃, (e₁.append e₂).append e₃, hf⟩

end Run

section Interactive

def command (line : CString) : CString :=
  Conn.stripCr (line.takeWhile (· ≠ '\n'))

structure Typed (line : CString) : Prop where
  plain : Plain line
  short : line.length < RBUF_SIZE
  start : ∃ c, line.head? = some c ∧ ¬isspace c
  last  : '\n' ∉ line.dropLast

theorem typed_of_mem {input line : CString} (hp : ∀ c ∈ input, isgraph c ∨ isspace c) (h : line ∈ readlines input) :
    Typed line := by
  obtain ⟨hl, hn⟩ := List.mem_filter.mp h
  obtain ⟨text, ht, rfl⟩ := List.mem_map.mp hl
  obtain ⟨chunk, hm, rfl⟩ := List.mem_map.mp ht
  have hc : ∀ c ∈ chunk, c ∈ input := by
    have hf := CString.flatten_fgetsLoop RBUF_SIZE (RBUF_SIZE - 1) [] input
    rw [List.nil_append] at hf
    exact fun c hc => hf ▸ List.mem_flatten_of_mem hm hc
  have hnul : CString.nul ∉ chunk := Link.not_nul_mem fun c h => hp c (hc c h)
  rw [CString.ofBuffer_eq_self hnul] at hn ⊢
  have hl : chunk.length < RBUF_SIZE := CString.length_lt_of_mem_fgetsLoop (by decide) (by decide) hm
  have hd : chunk.dropWhile isspace <:+ chunk := List.dropWhile_suffix _
  have hlen := Nat.lt_of_le_of_lt hd.length_le hl
  have hpl : Plain (chunk.dropWhile isspace) :=
    ⟨fun c hm => hp c (hc c (hd.subset hm)), Nat.lt_trans (Nat.add_lt_add_right hlen 1) (by decide)⟩
  refine ⟨hpl, hlen, ?_, ?_⟩
  case refine_1 =>
    have hn : chunk.dropWhile isspace ≠ [] := of_decide_eq_true hn
    exact ⟨_, List.head?_eq_some_head hn, by simpa using List.head_dropWhile_not isspace hn⟩
  case refine_2 =>
    have hl := CString.newline_last_of_mem_fgetsLoop List.not_mem_nil hm
    obtain ⟨t, ht⟩ := hd
    by_cases hn : chunk.dropWhile isspace = []
    case pos => simp [hn]
    case neg =>
      rw [← ht, List.dropLast_append_of_ne_nil hn] at hl
      exact fun hm => hl (List.mem_append_right _ hm)

-- A newline at the end of a line makes an empty line behind it, which the daemon skips.
theorem Typed.rows {line : CString} (h : Typed line) :
    (∀ r ∈ rows line, r.length < RBUF_SIZE) ∧ Session.spoken (Client.rows line) = [command line] := by
  obtain ⟨c, hc, hs⟩ := h.start
  have hnil : line ≠ [] := by rintro rfl; cases hc
  have he : line.takeWhile (· ≠ '\n') ≠ [] := by
    obtain ⟨l, rfl⟩ : ∃ l, line = c :: l := List.head?_eq_some_iff.mp hc
    have : c ≠ '\n' := by rintro rfl; exact hs (by decide)
    simp [this]
  obtain hl | hl : line.getLast hnil = '\n' ∨ line.getLast hnil ≠ '\n' := em _
  case inl =>
    have hline : line = line.dropLast ++ '\n' :: [] := by rw [← hl, List.dropLast_append_getLast]
    have ht : line.takeWhile (· ≠ '\n') = line.dropLast := by
      rw [hline, CString.takeWhile_line [] h.last]
      simp
    have hr : Client.rows line = [line.dropLast, []] := by
      rw [Client.rows, hline, List.append_assoc, List.cons_append, CString.split_line _ (by simpa using h.last)]
      simp [split]
    have hlen : line.length - 1 < RBUF_SIZE := Nat.lt_of_le_of_lt (Nat.sub_le ..) h.short
    rw [ht] at he
    rw [hr, command, ht]
    refine ⟨by simpa using ⟨hlen, by decide⟩, by simp [Session.spoken, he]⟩
  case inr =>
    have hn : '\n' ∉ line := by
      rw [← List.dropLast_append_getLast hnil, List.mem_append, not_or]
      exact ⟨h.last, by simpa using Ne.symm hl⟩
    have ht : line.takeWhile (· ≠ '\n') = line := by
      rw [List.takeWhile_eq_self_iff]
      rintro c hc
      have : c ≠ '\n' := by rintro rfl; exact hn hc
      simpa
    have hr : Client.rows line = [line] := by
      rw [Client.rows, CString.split_line [] hn]
      rfl
    rw [hr, command, ht]
    exact ⟨by simpa using h.short, by simp [Session.spoken, hnil]⟩

variable {δ : Type} {md5 : CString → CString} {cb : Cmd → δ → CString × δ} {s : Pair δ} {is : List Event}
variable {input arg : CString} {sock : Nat} {password nonce : CString} {d : δ}

theorem spoken_rows {lines : List CString} (h : ∀ l ∈ lines, Typed l) :
    Session.spoken (lines.flatMap rows) = lines.map command := by
  induction lines
  case nil          => rfl
  case cons l ls hi =>
    have ⟨hl, h⟩ := List.forall_mem_cons.mp h
    rw [List.flatMap_cons, Session.spoken_append, hl.rows.2, hi h]
    rfl

-- If the lines of the terminal fit the buffer, they are the commands, without leading blanks.
theorem readlines_eq (hp : ∀ c ∈ input, isgraph c ∨ isspace c)
    (hs : ∀ l ∈ CString.physical input, l.length < RBUF_SIZE) :
    readlines input = ((CString.physical input).map (·.dropWhile isspace)).filter (· ≠ []) := by
  have hf : CString.fgets RBUF_SIZE input = CString.physical input := by
    have hl : ∀ l ∈ CString.physical input,
        CString.fgetsLoop RBUF_SIZE [] (RBUF_SIZE - 1) l = [l] ∧ CString.ofBuffer l = l := by
      intro l hl
      obtain ⟨hn, hd⟩ := CString.physical_spec hl
      have hm : ∀ c ∈ l, c ∈ input := fun c hc =>
        CString.flatten_physical input ▸ List.mem_flatten_of_mem hl hc
      exact ⟨CString.fgetsLoop_fits hd (Nat.le_sub_one_of_lt (hs l hl)) hn,
        CString.ofBuffer_eq_self (Link.not_nul_mem fun c hc => hp c (hm c hc))⟩
    rw [CString.fgets, CString.fgetsLoop_physical]
    generalize CString.physical input = ls at hl
    induction ls
    case nil          => rfl
    case cons l ls hi =>
      obtain ⟨⟨hf, hb⟩, hl⟩ := List.forall_mem_cons.mp hl
      rw [List.flatMap_cons, hf, List.map_append, hi hl, List.map_singleton, hb, List.singleton_append]
  rw [readlines, hf]

-- Whatever `send` and `recv` take at a time: the lines that are typed are handled in order, none of them twice
-- or in parts, and all of them once the bytes have arrived. The connection is open as long as the client runs,
-- and the client can go on until all lines are handled. Lines that fit the buffer are what stands in the input,
-- without leading blanks.
theorem handled_once (hp : ∀ c ∈ input, isgraph c ∨ isspace c)
    (e : Transition.Steps (Pair.Step md5 cb)
      (Pair.start md5 (commands (.interactive input)) sock password nonce d) is s) :
    (∃ done handled, commands (.interactive input) = done ++ s.typed ∧ handled <+: done.map command ∧
      Handled md5 cb (.start md5 .unix sock password nonce d) handled s.link ∧
      (Drained s → handled = done.map command)) ∧
    (s.running → s.link.alive ∧
      ∃ js s', Transition.Steps (Pair.Step md5 cb) s js s' ∧ s'.typed = [] ∧ Drained s') ∧
    ((∀ l ∈ CString.physical input, l.length < RBUF_SIZE) → commands (.interactive input) =
      ((CString.physical input).map (·.dropWhile isspace)).filter (· ≠ [])) := by
  have ht : ∀ l ∈ commands (.interactive input), Typed l := fun l hl => typed_of_mem hp hl
  have hpl : ∀ l ∈ commands (.interactive input), Plain l := fun l hl => (ht l hl).plain
  have hs : ∀ l ∈ commands (.interactive input), ∀ r ∈ rows l, r.length < RBUF_SIZE := fun l hl => (ht l hl).rows.1
  obtain ⟨done, calls, hc⟩ := (carried_start md5 cb _ sock password nonce d).run hpl rfl e
  have hd := spoken_rows fun l hl => ht l (hc.typed ▸ List.mem_append_left _ hl)
  have ⟨hpre, _, hdr⟩ := hc.split_stream hpl
  refine ⟨⟨done, _, hc.typed, hd ▸ spoken_prefix hpre, hc.received.lines, fun h => ?_⟩, fun hr => ?_, readlines_eq hp⟩
  case refine_1 => rw [hdr h, hd]
  case refine_2 => exact ⟨hc.alive hpl hs hr, hc.finish hpl hs rfl hr⟩

end Interactive

section Oneshot

variable {δ : Type} {md5 : CString → CString} {cb : Cmd → δ → CString × δ} {s : Pair δ} {is : List Event}
variable {arg : CString} {sock : Nat} {password nonce : CString} {d : δ}

-- The option copies one character more than the daemon can take in a line.
theorem oneshot_handled_iff (hp : ∀ c ∈ arg, isgraph c ∨ isspace c) (hn : '\n' ∉ arg)
    (e : Transition.Steps (Pair.Step md5 cb)
      (Pair.start md5 (commands (.oneshot arg)) sock password nonce d) is s)
    (ht : s.typed = []) (hu : s.unsent = []) (hd : s.wire = [] ∨ ¬s.link.alive) :
    (s.running → (s.link.alive ↔ arg.length < RBUF_SIZE)) ∧
    Handled md5 cb (.start md5 .unix sock password nonce d)
      (if arg.length < RBUF_SIZE then Session.spoken [arg] else []) s.link := by
  have hm : commands (.oneshot arg) = [arg.take RBUF_SIZE] := rfl
  have hl : (arg.take RBUF_SIZE).length ≤ RBUF_SIZE := List.length_take_le ..
  have hpl : ∀ l ∈ commands (.oneshot arg), Plain l := by
    rw [hm]
    simp only [List.mem_singleton, forall_eq]
    exact ⟨fun c hc => hp c (List.mem_of_mem_take hc), Nat.lt_of_le_of_lt (Nat.add_le_add_right hl 1) (by decide)⟩
  have hnt : '\n' ∉ arg.take RBUF_SIZE := fun h => hn (List.mem_of_mem_take h)
  have hrows : rows (arg.take RBUF_SIZE) = [arg.take RBUF_SIZE] := by
    rw [rows, CString.split_line [] hnt]
    rfl
  obtain ⟨done, calls, hc⟩ := (carried_start md5 cb _ sock password nonce d).run hpl rfl e
  obtain rfl : done = [arg.take RBUF_SIZE] := by simpa [ht, hm] using hc.typed.symm
  obtain ⟨hpre, -, hdr⟩ := hc.split_stream hpl
  rw [List.flatMap_singleton, hrows] at hpre hdr
  split_ifs
  case pos hlt =>
    have ha : arg.take RBUF_SIZE = arg := List.take_of_length_le (Nat.le_of_lt hlt)
    rw [ha] at hm hrows hpre hdr
    have hs : ∀ l ∈ commands (.oneshot arg), ∀ r ∈ rows l, r.length < RBUF_SIZE := by
      simpa [hm, hrows] using hlt
    refine ⟨fun hr => iff_of_true (hc.alive hpl hs hr) hlt, ?_⟩
    have hlines : (split (Link.stream calls)).1 = [arg] := by
      have hone (hne : (split (Link.stream calls)).1 ≠ []) : (split (Link.stream calls)).1 = [arg] :=
        hpre.eq_of_length_le (List.length_pos_of_ne_nil hne)
      obtain hw | hna := hd
      case inl => exact hdr ⟨hu, hw⟩
      case inr =>
        obtain hlong | ⟨-, hw | hne⟩ := hc.closed hna
        · exact absurd (hc.tail_lt hpl hs) (Nat.not_lt.mpr hlong)
        · exact hdr ⟨hu, hw⟩
        · exact hone hne
    exact hlines ▸ hc.received.lines
  case neg hge =>
    have hlen : (arg.take RBUF_SIZE).length = RBUF_SIZE := List.length_take_of_le (Nat.le_of_not_lt hge)
    have hlines : (split (Link.stream calls)).1 = [] := by
      by_contra hne
      have hone := hpre.eq_of_length_le (List.length_pos_of_ne_nil hne)
      have hshort := hc.received.short _ (hone ▸ List.mem_singleton_self _)
      omega
    have hna : ¬s.link.alive := hd.elim (fun hw => by simpa [hlines] using hdr ⟨hu, hw⟩) id
    have hl := hc.received.lines
    rw [hlines] at hl
    exact ⟨fun _ => iff_of_false hna hge, hl⟩

end Oneshot

section Example

open Session (digest nonce count)

def opened (mode : Mode) : Pair Nat :=
  .start digest (commands mode) 5 [] nonce 0

def exchange : List Event :=
  [.command, .send (.sent 3), .send .again, .send (.sent 5), .serve 8 (fun _ => []) .again]

theorem handled_once_status :
    ∃ s, Transition.Steps (Pair.Step digest count) (opened (.interactive "  status\n".toList)) exchange s ∧
    s.link.daemon = 1 ∧ s.running ∧ s.link.alive ∧
    ∃ done handled, commands (.interactive "  status\n".toList) = done ++ s.typed ∧ handled <+: done.map command ∧
      Handled digest count (.start digest .unix 5 [] nonce 0) handled s.link ∧
      (Drained s → handled = done.map command) := by
  have e : Transition.Steps (Pair.Step digest count) (opened (.interactive "  status\n".toList)) exchange _ :=
    .step (.command rfl rfl rfl) (.step (.send rfl (by decide) rfl) (.step (.send rfl (by decide) rfl)
      (.step (.send rfl (by decide) rfl) (.step (.serve rfl (by decide) (by decide) (by simp) rfl) .refl))))
  have h := handled_once (CString.forall_of_all (by decide)) e
  exact ⟨_, e, rfl, rfl, (h.2.1 rfl).1, h.1⟩

theorem oneshot_handled_status :
    ∃ s, Transition.Steps (Pair.Step digest count) (opened (.oneshot "status".toList))
      [.command, .send (.sent 7), .serve 7 (fun _ => []) .again] s ∧
    Handled digest count (.start digest .unix 5 [] nonce 0) ["status".toList] s.link := by
  have e : Transition.Steps (Pair.Step digest count) (opened (.oneshot "status".toList))
      [.command, .send (.sent 7), .serve 7 (fun _ => []) .again] _ :=
    .step (.command rfl rfl rfl) (.step (.send rfl (by decide) rfl)
      (.step (.serve rfl (by decide) (by decide) (by simp) rfl) .refl))
  exact ⟨_, e, (oneshot_handled_iff (CString.forall_of_all (by decide)) (by decide) e rfl rfl (.inl rfl)).2⟩

end Example
end Client
end F2b
