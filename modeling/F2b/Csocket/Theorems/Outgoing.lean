import F2b.Csocket.Theorems.Intake
import F2b.Lib.Outbox

-- What a client gets of the replies and events for it, however slowly it reads.

namespace F2b

namespace Conn

variable {δ : Type} (md5 : CString → CString) (cb : Cmd → δ → CString × δ)

def reply (conn : Conn) (line nonce : CString) (d : δ) : CString :=
  match Cmd.create line with
  | some cmd =>
    if cmd.type = .auth then
      if conn.flags.authOk then "+already authorized\n".toList
      else if conn.credentials md5 cmd then "+ok\n".toList
      else unauthLine ((md5 nonce).strlcpy 40)
    else if cmd.type = .logEvents then
      if cmd.args.getD 2 [] = "on".toList ∨ cmd.args.getD 2 [] = "yes".toList ∨ cmd.args.getD 2 [] = "true".toList then
        "+events on\n".toList
      else
        "+events off\n".toList
    else if conn.flags.authOk then (cb cmd d).1
    else unauthLine conn.challenge
  | none =>
    if conn.flags.authOk then "-unknown command, try 'help'\n".toList else unauthLine conn.challenge

def eventLine (evt : CString) : CString :=
  "!".toList ++ evt ++ "\n".toList

def Sent.count : Sent → Nat
  | sent n => n
  | again  => 0
  | error  => 0

variable {md5}

theorem send_checkAuth (conn : Conn) (cmd : Cmd) (nonce : CString) :
    (conn.checkAuth md5 cmd nonce).send = conn.send.append (
      if conn.flags.authOk then "+already authorized\n".toList
      else if conn.credentials md5 cmd then "+ok\n".toList
      else unauthLine ((md5 nonce).strlcpy 40)) := by
  rw [checkAuth]
  split
  case isTrue  => rfl
  case isFalse =>
    split
    case isTrue  => rfl
    case isFalse => rw [sendUnauth_eq]; rfl

theorem send_logEvents (conn : Conn) (cmd : Cmd) :
    (conn.logEvents cmd).send = conn.send.append (
      if cmd.args.getD 2 [] = "on".toList ∨ cmd.args.getD 2 [] = "yes".toList ∨ cmd.args.getD 2 [] = "true".toList then
        "+events on\n".toList
      else
        "+events off\n".toList) := by
  rw [logEvents]
  split <;> rfl

theorem send_handle (md5 : CString → CString) (cb : Cmd → δ → CString × δ) (conn : Conn) (line nonce : CString)
    (d : δ) :
    (conn.handle md5 cb line nonce d).1.send = conn.send.append (conn.reply md5 cb line nonce d) := by
  rw [handle, reply]
  cases Cmd.create line
  case none     =>
    simp only
    split
    case isTrue  => rfl
    case isFalse => rw [sendUnauth_eq]; rfl
  case some cmd =>
    simp only
    split
    case isTrue  => exact send_checkAuth ..
    case isFalse =>
      split
      case isTrue  => exact send_logEvents ..
      case isFalse =>
        split
        case isTrue  => rfl
        case isFalse => rw [sendUnauth_eq]; rfl

theorem send_event (conn : Conn) (evt : CString) :
    (conn.event evt).send = if conn.flags.events then conn.send.append (eventLine evt) else conn.send := by
  rw [event]
  split
  case isTrue  => simp only [append, Buf.append_append]; rfl
  case isFalse => rfl

theorem send_transmit (conn : Conn) (sent : Sent) : (conn.transmit sent).2.send = conn.send.splice sent.count := by
  simp only [transmit]
  split
  case isTrue h => rw [Buf.splice, h, List.drop_nil, ← h]
  case isFalse  => cases sent <;> rfl

end Conn

-- A session with all messages for the client so far, and all bytes that it has got.
structure Feed (δ : Type) where
  session   : Session δ
  messages  : List CString
  delivered : CString

namespace Feed

open Session (Input)

section Definitions

variable {δ : Type} (md5 : CString → CString) (cb : Cmd → δ → CString × δ)

def texts (s : Feed δ) : Input → List CString
  | .line line nonce => [s.session.conn.reply md5 cb line nonce s.session.daemon]
  | .event evt       => if s.session.conn.flags.events then [Conn.eventLine evt] else []
  | .sent _          => []

def taken (s : Feed δ) : Input → CString
  | .sent sent => s.session.conn.send.data.take sent.count
  | _          => []

def Step (s : Feed δ) (i : Input) (s' : Feed δ) : Prop :=
  s.session.Step md5 cb i s'.session ∧ s'.messages = s.messages ++ s.texts md5 cb i ∧
  s'.delivered = s.delivered ++ s.taken i

def start (type : Conn.SockType) (sock : Nat) (password nonce : CString) (d : δ) : Feed δ where
  session   := ⟨.accept md5 type sock password nonce, d, []⟩
  messages  := []
  delivered := []

-- The message fits into the send buffer, or the buffer is full.
def Roomy (s : Feed δ) (i : Input) : Prop :=
  let send := s.session.conn.send
  ∀ m ∈ s.texts md5 cb i, send.data.length + m.length ≤ send.size ∨ send.size ≤ send.data.length

def outbox (s : Feed δ) : Outbox Char where
  waiting   := s.session.conn.send.data
  delivered := s.delivered

end Definitions

section Refinement

variable {δ : Type} {md5 : CString → CString} {cb : Cmd → δ → CString × δ}
variable {s s' : Feed δ} {i : Input} {is : List Input}

theorem outbox_put {m : CString} (hs : s'.session.conn.send = s.session.conn.send.append m)
    (hd : s'.delivered = s.delivered) :
    s'.outbox = s.outbox.step s.session.conn.send.size (.put m) ∧
    s'.session.conn.send.size = s.session.conn.send.size := by
  rw [outbox, hs, hd]
  exact ⟨rfl, rfl⟩

theorem outbox_take {n : Nat} (hs : s'.session.conn.send = s.session.conn.send.splice n)
    (hd : s'.delivered = s.delivered ++ s.session.conn.send.data.take n) :
    s'.outbox = s.outbox.step s.session.conn.send.size (.take n) ∧
    s'.session.conn.send.size = s.session.conn.send.size := by
  rw [outbox, hs, hd]
  exact ⟨rfl, rfl⟩

theorem outbox_step (h : s.Step md5 cb i s') :
    ∃ op : Outbox.Op Char, op.messages = s.texts md5 cb i ∧
    s'.outbox = s.outbox.step s.session.conn.send.size op ∧
    s'.session.conn.send.size = s.session.conn.send.size := by
  have hs := h.1
  have hd := h.2.2
  clear h
  cases i
  case line line nonce =>
    have hd : s'.delivered = s.delivered := hd.trans (List.append_nil _)
    have hs : s'.session.conn.send = (s.session.conn.handle md5 cb line nonce s.session.daemon).1.send := by
      rw [← Option.some.inj hs]
      rfl
    exact ⟨.put _, rfl, outbox_put (hs.trans (Conn.send_handle ..)) hd⟩
  case event evt =>
    have hd : s'.delivered = s.delivered := hd.trans (List.append_nil _)
    have hs : s'.session.conn.send = (s.session.conn.event evt).send := by
      rw [← Option.some.inj hs]
      rfl
    rw [Conn.send_event] at hs
    by_cases ht : s.session.conn.flags.events
    case pos =>
      rw [if_pos ht] at hs
      exact ⟨.put (Conn.eventLine evt), by rw [texts, if_pos ht]; rfl, outbox_put hs hd⟩
    case neg =>
      rw [if_neg ht] at hs
      have hd : s'.delivered = s.delivered ++ s.session.conn.send.data.take 0 := by simpa using hd
      exact ⟨.take 0, by rw [texts, if_neg ht]; rfl, outbox_take hs hd⟩
  case sent sent =>
    have hs : s'.session.conn.send = (s.session.conn.transmit sent).2.send := by
      simp only [Session.Step, Session.step] at hs
      split at hs
      case isTrue  => cases hs
      case isFalse => rw [← Option.some.inj hs]
    exact ⟨.take sent.count, rfl, outbox_take (hs.trans (Conn.send_transmit ..)) hd⟩

-- A run is a run of the queue with the same messages.
theorem outbox_run (e : Transition.Steps (Transition.Guarded (Step md5 cb) (Roomy md5 cb)) s is s') :
    ∃ ops : List (Outbox.Op Char), s'.messages = s.messages ++ ops.flatMap Outbox.Op.messages ∧
    Transition.Steps (Transition.Guarded (Outbox.Step s.session.conn.send.size) (Outbox.Fits s.session.conn.send.size))
      s.outbox ops s'.outbox := by
  induction e
  case refl                => exact ⟨[], by simp, .refl⟩
  case step s₁ s₂ s₃ i is hs e hi =>
    obtain ⟨ops, hm, e'⟩ := hi
    obtain ⟨op, ho, hb, hz⟩ := outbox_step hs.1
    refine ⟨op :: ops, ?_, .step ⟨hb, fun m hm => ?_⟩ (hz ▸ e')⟩
    case refine_1 => rw [hm, hs.1.2.1, ← ho, List.flatMap_cons, List.append_assoc]
    case refine_2 => exact hs.2 m (ho ▸ hm)

-- In every run in which no message is cut, the client gets complete messages, in their order.
theorem whole_run {type : Conn.SockType} {sock : Nat} {password nonce : CString} {d : δ}
    (e : Transition.Steps (Transition.Guarded (Step md5 cb) (Roomy md5 cb)) (start md5 type sock password nonce d) is
      s) :
    Outbox.Whole s.messages s.delivered := by
  obtain ⟨ops, hm, e⟩ := outbox_run e
  rw [hm]
  exact (Outbox.Intact.run e Outbox.intact_empty).whole

end Refinement

section Turns

variable {δ : Type} {md5 : CString → CString} {cb : Cmd → δ → CString × δ}
variable {s s' : Session δ} {i : Input} {is : List Input}

theorem session_step_recv (recv : Buf) (h : s.Step md5 cb i s') :
    Session.Step md5 cb { s with conn := { s.conn with recv } } i { s' with conn := { s'.conn with recv } } := by
  cases i
  case line line nonce =>
    obtain rfl := Option.some.inj h
    rw [Session.Step, Session.step, Session.handle_recv s.conn recv]
    rfl
  case event evt =>
    obtain rfl := Option.some.inj h
    rw [Session.Step, Session.step, Session.event_recv s.conn recv]
    rfl
  case sent sent =>
    simp only [Session.Step, Session.step, Session.transmit_recv s.conn recv] at h ⊢
    split at h
    case isTrue     => cases h
    case isFalse hf =>
      obtain rfl := Option.some.inj h
      exact if_neg hf

theorem session_steps_recv (recv : Buf) (e : Transition.Steps (Session.Step md5 cb) s is s') :
    Transition.Steps (Session.Step md5 cb) { s with conn := { s.conn with recv } } is
      { s' with conn := { s'.conn with recv } } := by
  induction e
  case refl        => exact .refl
  case step h _ hi => exact .step (session_step_recv recv h) hi

theorem steps_of_session (e : Transition.Steps (Session.Step md5 cb) s is s') (f : Feed δ) (hf : f.session = s) :
    ∃ f' : Feed δ, f'.session = s' ∧ Transition.Steps (Step md5 cb) f is f' := by
  induction e generalizing f
  case refl                => exact ⟨f, hf, .refl⟩
  case step s₁ s₂ s₃ i is h _ hi =>
    obtain ⟨f', hs, e⟩ := hi ⟨s₂, f.messages ++ f.texts md5 cb i, f.delivered ++ f.taken i⟩ rfl
    exact ⟨f', hs, .step ⟨hf ▸ h, rfl, rfl⟩ e⟩

variable {c c' : Conn × δ} {t : Intake.Turn} {ts : List Intake.Turn}

-- A call of `f2b_conn_process` that leaves the connection open is a part of a session, and so is an event.
theorem session_of_turn (recv : Buf) (queued : CString) (h : Intake.Step md5 cb c t c') :
    ∃ is queued', Transition.Steps (Session.Step md5 cb) ⟨{ c.1 with recv }, c.2, queued⟩ is
      ⟨{ c'.1 with recv }, c'.2, queued'⟩ := by
  cases t
  case event evt =>
    obtain rfl := h
    have hs : Session.Step md5 cb ⟨c.1, c.2, queued⟩ (.event evt) _ := rfl
    exact ⟨_, _, .step (session_step_recv recv hs) .refl⟩
  case process incoming nonces sent =>
    obtain ⟨conn, ⟨is, _, hr⟩, hc⟩ := Session.serves_process h
    obtain ⟨queued', e⟩ := hr queued
    rw [hc (by simp)] at e
    exact ⟨is, queued', session_steps_recv recv e⟩

def Tracks (md5 : CString → CString) (cb : Cmd → δ → CString × δ) (f₀ : Feed δ) (c : Conn × δ) : Prop :=
  ∃ (is : List Input) (f : Feed δ), Transition.Steps (Step md5 cb) f₀ is f ∧
    f.session = ⟨{ c.1 with recv := .alloc RBUF_SIZE }, c.2, f.session.queued⟩

theorem preserves_tracks (f₀ : Feed δ) : Transition.Preserves (Intake.Step md5 cb) (Tracks md5 cb f₀) := by
  rintro c t c' ht ⟨is, f, e, hf⟩
  obtain ⟨js, queued, e'⟩ := session_of_turn (.alloc RBUF_SIZE) f.session.queued ht
  obtain ⟨f', hs, e'⟩ := steps_of_session e' f hf
  exact ⟨is ++ js, f', e.append e', by rw [hs]⟩

-- What is proved of these runs holds of each connection until it is closed.
theorem tracks_of_turns {type : Conn.SockType} {sock : Nat} {password nonce : CString} {d : δ}
    (e : Transition.Steps (Intake.Step md5 cb) (.accept md5 type sock password nonce, d) ts c) :
    Tracks md5 cb (start md5 type sock password nonce d) c :=
  e.invariant (preserves_tracks _) ⟨[], _, .refl, rfl⟩

end Turns

section Example

open Session (digest count nonce)

def unknown : CString :=
  "-unknown command, try 'help'\n".toList

def typo : Input :=
  .line "x".toList []

theorem flood (n : Nat) {f : Feed Nat} (ha : f.session.conn.flags.authOk) :
    ∃ f' : Feed Nat, Transition.Steps (Step digest count) f (List.replicate n typo) f' ∧
    f'.session.conn = { f.session.conn with send := f.session.conn.send.append (List.replicate n unknown).flatten } ∧
    f'.messages = f.messages ++ List.replicate n unknown ∧ f'.delivered = f.delivered := by
  induction n generalizing f
  case zero      => exact ⟨f, .refl, by simp [Buf.append], by simp, rfl⟩
  case succ n hi =>
    have hc : Cmd.create "x".toList = none := by decide
    have hh : f.session.conn.handle digest count "x".toList [] f.session.daemon =
        (f.session.conn.append unknown, f.session.daemon) := by
      rw [Conn.handle, hc]
      exact if_pos ha
    have hr : f.session.conn.reply digest count "x".toList [] f.session.daemon = unknown := by
      rw [Conn.reply, hc]
      exact if_pos ha
    have hm : f.texts digest count typo = [unknown] := congrArg (fun m => [m]) hr
    let s : Session Nat := f.session.queue (f.session.conn.append unknown) f.session.daemon
    have hs : Step digest count f typo ⟨s, f.messages ++ [unknown], f.delivered⟩ := by
      refine ⟨?_, by rw [hm], (List.append_nil _).symm⟩
      rw [Session.Step, typo, Session.step, hh]
    obtain ⟨f', e, hf, hm', hd⟩ := hi (f := ⟨s, f.messages ++ [unknown], f.delivered⟩) ha
    refine ⟨f', .step hs e, ?_, ?_, hd⟩
    case refine_1 =>
      rw [hf, List.replicate_succ, List.flatten_cons, ← Buf.append_append]
      rfl
    case refine_2 => rw [hm', List.replicate_succ, List.append_assoc]; rfl

theorem drain (n : Nat) (f : Feed Nat) :
    ∃ f' : Feed Nat, Step digest count f (.sent (.sent n)) f' ∧
    f'.session.conn = { f.session.conn with send := f.session.conn.send.splice n } ∧
    f'.messages = f.messages ∧ f'.delivered = f.delivered ++ f.session.conn.send.data.take n := by
  have ht : f.session.conn.transmit (.sent n) =
      (false, { f.session.conn with send := f.session.conn.send.splice n }) := by
    rw [Conn.transmit]
    split
    case isTrue h => rw [Buf.splice, h, List.drop_nil, ← h]
    case isFalse  => rfl
  let s : Session Nat := { f.session with conn := { f.session.conn with send := f.session.conn.send.splice n } }
  refine ⟨⟨s, f.messages, f.delivered ++ f.session.conn.send.data.take n⟩, ⟨?_, ?_, rfl⟩, rfl, rfl, rfl⟩
  case refine_1 => simp only [Session.Step, Session.step, ht]; rfl
  case refine_2 => exact (List.append_nil _).symm

theorem length_unknown : unknown.length = 29 := by decide

theorem length_flatten_replicate (n : Nat) : (List.replicate n unknown).flatten.length = n * 29 := by
  rw [List.length_flatten, List.map_replicate, List.sum_replicate_nat, length_unknown]

theorem take_flatten {n : Nat} (size : Nat) (h : size = n * 29 + 27) :
    (List.replicate (n + 1) unknown).flatten.take size = (List.replicate n unknown).flatten ++ unknown.take 27 := by
  have hl := length_flatten_replicate n
  rw [List.replicate_succ', List.flatten_append, List.flatten_singleton, List.take_append,
    List.take_of_length_le (by omega), hl, h, Nat.add_sub_cancel_left]

-- The last reply but one is cut off, and the next one stands behind what is left of it.
theorem not_whole (n : Nat) :
    ¬Outbox.Whole (List.replicate (n + 2) unknown)
      ((List.replicate n unknown).flatten ++ (unknown.take 27 ++ unknown)) := by
  rintro ⟨sent, hs, hp⟩
  obtain ⟨j, hj, rfl⟩ := List.sublist_replicate_iff.mp hs
  have hn : j = n + 2 := by
    have := hp.length_le
    simp only [List.length_append, length_flatten_replicate, List.length_take, length_unknown] at this
    omega
  subst hn
  rw [List.replicate_add, List.flatten_append, List.prefix_append_right_inj] at hp
  revert hp
  decide

def client : Feed Nat :=
  start digest .unix 5 [] nonce 0

def served : Feed Nat where
  session   := client.session.queue (client.session.conn.append "+ok\n".toList) 1
  messages  := ["+ok\n".toList]
  delivered := []

theorem whole_run_status :
    ∃ f : Feed Nat, Transition.Steps (Transition.Guarded (Step digest count) (Roomy digest count)) client
      [.line "status".toList [], .sent (.sent 3)] f ∧ f.delivered = "+ok".toList ∧
    Outbox.Whole f.messages f.delivered := by
  have ht : client.texts digest count (.line "status".toList []) = ["+ok\n".toList] := by decide
  have h₁ : Step digest count client (.line "status".toList []) served := ⟨rfl, by decide, by decide⟩
  obtain ⟨f, h₂, _, _, hd⟩ := drain 3 served
  have hr : client.Roomy digest count (.line "status".toList []) := by
    intro m hm
    rw [ht] at hm
    obtain rfl := List.mem_singleton.mp hm
    decide
  have e : Transition.Steps (Transition.Guarded (Step digest count) (Roomy digest count)) client
      [.line "status".toList [], .sent (.sent 3)] f := .step ⟨h₁, hr⟩ (.step ⟨h₂, fun m hm => by cases hm⟩ .refl)
  exact ⟨f, e, hd, whole_run e⟩

theorem overflow (n : Nat) (h : WBUF_SIZE = n * 29 + 27) :
    ∃ is f, Transition.Steps (Step digest count) client is f ∧ f.messages = List.replicate (n + 2) unknown ∧
    f.delivered = (List.replicate n unknown).flatten ++ (unknown.take 27 ++ unknown) := by
  obtain ⟨f₁, e₁, hc₁, hm₁, hd₁⟩ := flood (n + 1) (f := client) (by decide)
  obtain ⟨f₂, h₂, hc₂, hm₂, hd₂⟩ := drain WBUF_SIZE f₁
  obtain ⟨f₃, e₃, hc₃, hm₃, hd₃⟩ := flood 1 (f := f₂) (by rw [hc₂, hc₁]; rfl)
  obtain ⟨f₄, h₄, hc₄, hm₄, hd₄⟩ := drain 29 f₃
  have hb₁ : f₁.session.conn.send = ⟨(List.replicate n unknown).flatten ++ unknown.take 27, WBUF_SIZE⟩ := by
    rw [hc₁, ← take_flatten WBUF_SIZE h]
    rfl
  have hl : f₁.session.conn.send.data.length = WBUF_SIZE := by
    rw [hb₁, List.length_append, length_flatten_replicate, List.length_take, length_unknown, h]
    rfl
  have hb₃ : f₃.session.conn.send.data = unknown := by
    rw [hc₃, hc₂, Buf.splice, List.drop_eq_nil_of_le (Nat.le_of_eq hl), hb₁]
    rfl
  refine ⟨_, f₄, e₁.append (.step h₂ (e₃.append (.step h₄ .refl))), ?_, ?_⟩
  case refine_1 =>
    rw [hm₄, hm₃, hm₂, hm₁, List.append_assoc, List.replicate_append_replicate]
    rfl
  case refine_2 =>
    rw [hd₄, hd₃, hd₂, hd₁, hb₃, List.take_of_length_le (Nat.le_of_eq hl), hb₁, List.append_assoc, List.append_assoc]
    rfl

theorem not_always_delivered_whole :
    ¬∀ is f, Transition.Steps (Step digest count) client is f → Outbox.Whole f.messages f.delivered := by
  intro h
  obtain ⟨is, f, e, hm, hd⟩ := overflow 1129 rfl
  have hw := h is f e
  rw [hm, hd] at hw
  exact not_whole 1129 hw

end Example

end Feed
end F2b
