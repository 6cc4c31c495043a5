import F2b.Csocket.Theorems.Conn

-- How a client of an `inet` listener is let in, and what the daemon does for it then.

namespace F2b

namespace Conn

variable {md5 : CString → CString} {δ : Type} {cb : Cmd → δ → CString × δ}
variable {conn : Conn} {line nonce : CString} {d : δ}

def isAuth (line : CString) : Bool :=
  (Cmd.create line).any (·.type = .auth)

def request (line : CString) : Option Cmd :=
  (Cmd.create line).filter fun cmd => cmd.type ≠ .auth ∧ cmd.type ≠ .logEvents

structure Kept (conn conn' : Conn) : Prop where
  authOk    : conn'.flags.authOk = conn.flags.authOk
  password  : conn'.password = conn.password
  challenge : conn'.challenge = conn.challenge

theorem kept_append (conn : Conn) (str : CString) : Kept conn (conn.append str) :=
  ⟨rfl, rfl, rfl⟩

theorem kept_logEvents (conn : Conn) (cmd : Cmd) : Kept conn (conn.logEvents cmd) := by
  simp only [logEvents]
  split <;> exact ⟨rfl, rfl, rfl⟩

theorem kept_event (conn : Conn) (evt : CString) : Kept conn (conn.event evt) := by
  simp only [event]
  split <;> exact ⟨rfl, rfl, rfl⟩

theorem kept_transmit (conn : Conn) (sent : Sent) : Kept conn (conn.transmit sent).2 := by
  simp only [transmit]
  split
  case isTrue  => exact ⟨rfl, rfl, rfl⟩
  case isFalse => split <;> exact ⟨rfl, rfl, rfl⟩

theorem handle_open (md5 : CString → CString) (cb : Cmd → δ → CString × δ) (line nonce : CString) (d : δ)
    (ha : conn.flags.authOk) :
    Kept conn (conn.handle md5 cb line nonce d).1 ∧
    (conn.handle md5 cb line nonce d).2 = (request line).elim d fun cmd => (cb cmd d).2 := by
  cases hc : Cmd.create line
  case none     => simp only [handle, request, hc, ha, if_true]; exact ⟨kept_append .., rfl⟩
  case some cmd =>
    by_cases ht : cmd.type = .auth
    case pos =>
      simp only [handle, request, hc, ht, if_true, checkAuth, ha]
      exact ⟨kept_append .., by simp [Option.filter_some, ht]⟩
    case neg =>
      by_cases he : cmd.type = .logEvents
      case pos => simp [handle, request, hc, he, kept_logEvents, Option.filter_some]
      case neg => simp [handle, request, hc, ht, he, ha, kept_append, Option.filter_some]

theorem handle_shut (md5 : CString → CString) (cb : Cmd → δ → CString × δ) (line nonce : CString) (d : δ)
    (ha : ¬conn.flags.authOk) :
    (conn.handle md5 cb line nonce d).1.flags.authOk = conn.presents md5 line ∧
    (conn.handle md5 cb line nonce d).1.password = conn.password ∧
    (¬conn.presents md5 line → (conn.handle md5 cb line nonce d).1.challenge =
      if isAuth line then (md5 nonce).strlcpy 40 else conn.challenge) ∧
    (conn.handle md5 cb line nonce d).2 = d := by
  cases hc : Cmd.create line
  case none     => simp [handle, presents, isAuth, hc, ha, sendUnauth, append]
  case some cmd =>
    by_cases ht : cmd.type = .auth
    case pos =>
      cases hp : conn.credentials md5 cmd <;>
        simp [handle, presents, isAuth, hc, ht, checkAuth, ha, hp, sendUnauth, append, updateChallenge]
    case neg =>
      by_cases he : cmd.type = .logEvents
      case pos =>
        have hk := kept_logEvents conn cmd
        simp [handle, presents, isAuth, hc, he, hk.authOk, hk.password, hk.challenge, ha]
      case neg => simp [handle, presents, isAuth, hc, ht, he, ha, sendUnauth, append]

end Conn

namespace Session

variable {δ : Type} (md5 : CString → CString) (cb : Cmd → δ → CString × δ)

-- The daemon with a record of the commands that it has been asked to run.
def recorded (cmd : Cmd) (d : δ × List Cmd) : CString × δ × List Cmd :=
  let (reply, d') := cb cmd d.1
  (reply, d', d.2 ++ [cmd])

-- The nonce of the challenge after an input: each attempt that fails makes a new one.
def renew (nonce : CString) : Input → CString
  | .line line n => if Conn.isAuth line then n else nonce
  | _            => nonce

-- The nonce of the current challenge, after inputs that have not let the client in.
def currentNonce (nonce : CString) (is : List Input) : CString :=
  is.foldl renew nonce

-- The line shows the password, or the digest of the challenge followed by the password.
def Grants (password nonce line : CString) : Prop :=
  ∃ cmd, Cmd.create line = some cmd ∧ cmd.type = .auth ∧
    ((cmd.args.getD 1 [] = "plain".toList ∧ cmd.args.getD 2 [] = password) ∨
      (cmd.args.getD 1 [] = "challenge".toList ∧
        cmd.args.getD 2 [] = md5 ((md5 nonce).strlcpy 40 ++ password)))

def NeverGrants (password nonce : CString) (is : List Input) : Prop :=
  ∀ pre line n post, is = pre ++ .line line n :: post →
    ¬Grants md5 password (currentNonce nonce pre) line

def requests : List Input → List Cmd
  | []                => []
  | .line line _ :: is => (Conn.request line).toList ++ requests is
  | _ :: is           => requests is

-- The client has been let in by a line, and the daemon has run the commands that came after it.
def LetIn (password nonce : CString) (is : List Input) (calls : List Cmd) : Prop :=
  ∃ pre line n post, is = pre ++ .line line n :: post ∧ NeverGrants md5 password nonce pre ∧
    Grants md5 password (currentNonce nonce pre) line ∧ calls = requests post

-- What the inputs so far have to do with the access of the client.
structure Gate (password nonce : CString) (d : δ) (is : List Input) (s : Session (δ × List Cmd)) : Prop where
  asked : s.conn.password = password
  shut  : ¬s.conn.flags.authOk → s.conn.challenge = (md5 (currentNonce nonce is)).strlcpy 40 ∧
    NeverGrants md5 password nonce is ∧ s.daemon = (d, [])
  letIn : s.conn.flags.authOk → LetIn md5 password nonce is s.daemon.2

variable {md5 cb} {password nonce : CString} {d : δ} {s s' : Session (δ × List Cmd)} {i : Input}
variable {is : List Input}

theorem credentials_iff {conn : Conn} {cmd : Cmd} (hp : conn.password = password)
    (hc : conn.challenge = (md5 nonce).strlcpy 40) :
    conn.credentials md5 cmd ↔
      (cmd.args.getD 1 [] = "plain".toList ∧ cmd.args.getD 2 [] = password) ∨
      (cmd.args.getD 1 [] = "challenge".toList ∧
        cmd.args.getD 2 [] = md5 ((md5 nonce).strlcpy 40 ++ password)) := by
  have hn : "plain".toList ≠ "challenge".toList := by decide
  simp only [Conn.credentials, hp, hc]
  split
  case isTrue h₁  => simp only [h₁, hn, decide_eq_true_eq, true_and, false_and, or_false]
  case isFalse h₁ =>
    split
    case isTrue h₂  => simp only [h₂, hn.symm, decide_eq_true_eq, true_and, false_and, false_or]
    case isFalse h₂ => simp only [h₁, h₂, Bool.false_eq_true, false_and, or_self]

theorem presents_iff {conn : Conn} {line : CString} (hp : conn.password = password)
    (hc : conn.challenge = (md5 nonce).strlcpy 40) :
    conn.presents md5 line ↔ Grants md5 password nonce line := by
  simp only [Conn.presents, Grants, Option.any_eq_true, Bool.and_eq_true, decide_eq_true_eq,
    credentials_iff hp hc]

theorem requests_append (is js : List Input) : requests (is ++ js) = requests is ++ requests js := by
  induction is
  case nil          => rfl
  case cons i is hi => cases i <;> simp [requests, hi]

theorem NeverGrants.nil : NeverGrants md5 password nonce [] :=
  fun _ _ _ _ h => by simp at h

theorem NeverGrants.concat (h : NeverGrants md5 password nonce is)
    (hi : ∀ line n, i = .line line n → ¬Grants md5 password (currentNonce nonce is) line) :
    NeverGrants md5 password nonce (is ++ [i]) := by
  intro pre line n post he
  obtain rfl | ⟨post, j, rfl⟩ := List.eq_nil_or_concat' post
  case inl =>
    have ⟨hp, he⟩ := List.append_inj' he rfl
    exact hp ▸ hi line n (List.singleton_inj.mp he)
  case inr =>
    rw [← List.cons_append, ← List.append_assoc] at he
    exact h pre line n post (List.append_inj' he rfl).1

theorem LetIn.concat {calls : List Cmd} (h : LetIn md5 password nonce is calls) (i : Input) :
    LetIn md5 password nonce (is ++ [i]) (calls ++ requests [i]) := by
  obtain ⟨pre, line, n, post, rfl, hp, hg, rfl⟩ := h
  exact ⟨pre, line, n, post ++ [i], by simp, hp, hg, (requests_append ..).symm⟩

theorem Gate.new (md5 : CString → CString) (sock : Nat) (password nonce : CString) (d : δ) :
    Gate md5 password nonce d [] (new md5 sock password nonce (d, [])) where
  asked := rfl
  shut  := fun _ => ⟨rfl, .nil, rfl⟩
  letIn := fun h => by simp [Session.new, Conn.accept, Conn.updateChallenge] at h

theorem Gate.silent (h : Gate md5 password nonce d is s) (hi : ∀ line n, i ≠ .line line n)
    (hk : s.conn.Kept s'.conn) (hd : s'.daemon = s.daemon) : Gate md5 password nonce d (is ++ [i]) s' := by
  have hr : renew (currentNonce nonce is) i = currentNonce nonce is ∧ requests [i] = [] := by
    cases i <;> simp_all [renew, requests]
  refine ⟨hk.password.trans h.asked, fun hn => ?_, fun ha => ?_⟩
  case refine_1 =>
    have ⟨hc, hg, hd'⟩ := h.shut (hk.authOk ▸ hn)
    refine ⟨?_, hg.concat fun line n he => absurd he (hi line n), hd.trans hd'⟩
    rw [hk.challenge, hc, currentNonce, currentNonce, List.foldl_concat]
    exact congrArg (fun n => (md5 n).strlcpy 40) hr.1.symm
  case refine_2 =>
    have := (h.letIn (hk.authOk ▸ ha)).concat i
    rwa [hr.2, List.append_nil, ← hd] at this

theorem recorded_request (cb : Cmd → δ → CString × δ) (line n : CString) (d : δ × List Cmd) :
    ((Conn.request line).elim d fun cmd => (recorded cb cmd d).2).2 = d.2 ++ requests [.line line n] := by
  rw [requests, requests, List.append_nil]
  cases Conn.request line
  case none     => exact (List.append_nil _).symm
  case some cmd => rfl

theorem Gate.line {line n : CString} (h : Gate md5 password nonce d is s)
    (hs : s.Step md5 (recorded cb) (.line line n) s') :
    Gate md5 password nonce d (is ++ [.line line n]) s' ∧
    (s.conn.flags.authOk → s'.conn.flags.authOk) := by
  have he : s.queue (s.conn.handle md5 (recorded cb) line n s.daemon).1
      (s.conn.handle md5 (recorded cb) line n s.daemon).2 = s' := Option.some.inj hs
  subst he
  by_cases ha : s.conn.flags.authOk
  case pos =>
    have ⟨hk, hd⟩ := Conn.handle_open md5 (recorded cb) line n s.daemon ha
    have hc := (h.letIn ha).concat (.line line n)
    refine ⟨⟨hk.password.trans h.asked, fun hn => absurd (hk.authOk.trans ha) hn, fun _ => ?_⟩,
      hk.authOk.trans⟩
    rw [← recorded_request cb line n s.daemon, ← hd] at hc
    exact hc
  case neg =>
    have ⟨ha', hp, hc', hd⟩ := Conn.handle_shut md5 (recorded cb) line n s.daemon ha
    have ⟨hc, hg, hn⟩ := h.shut ha
    have hq := (presents_iff h.asked hc : s.conn.presents md5 line ↔ _)
    refine ⟨⟨hp.trans h.asked, fun hn' => ?_, fun hs => ?_⟩, fun h => absurd h ha⟩
    case refine_1 =>
      have hq' : ¬s.conn.presents md5 line := ha' ▸ hn'
      refine ⟨?_, hg.concat fun _ _ he => ?_, hd.trans hn⟩
      · simp only [queue, hc' hq', hc, currentNonce, List.foldl_concat, renew]
        split <;> rfl
      · obtain ⟨rfl, rfl⟩ := Input.line.inj he
        exact hq.not.mp hq'
    case refine_2 =>
      have hq' : s.conn.presents md5 line := ha' ▸ hs
      exact ⟨is, line, n, [], rfl, hg, hq.mp hq', congrArg Prod.snd (hd.trans hn)⟩

theorem Gate.step (h : Gate md5 password nonce d is s) (hs : s.Step md5 (recorded cb) i s') :
    Gate md5 password nonce d (is ++ [i]) s' ∧ (s.conn.flags.authOk → s'.conn.flags.authOk) := by
  cases i
  case line line n => exact h.line hs
  case event evt   =>
    obtain rfl := Option.some.inj hs
    have hk := Conn.kept_event s.conn evt
    exact ⟨h.silent (by simp) hk rfl, hk.authOk.trans⟩
  case sent sent   =>
    have hk := Conn.kept_transmit s.conn sent
    simp only [Step, Session.step] at hs
    split at hs
    case isTrue  => cases hs
    case isFalse =>
      obtain rfl := Option.some.inj hs
      exact ⟨h.silent (by simp) hk rfl, hk.authOk.trans⟩

-- In every run a client is let in exactly when one of its lines shows the password or the digest of the
-- current challenge with the password. The daemon runs nothing before this line, and then the
-- commands of the lines after it. Nobody who has been let in is shut out again.
theorem letIn_iff {sock : Nat}
    (e : Transition.Steps (Step md5 (recorded cb)) (new md5 sock password nonce (d, [])) is s) :
    (s.conn.flags.authOk ↔ ∃ calls, LetIn md5 password nonce is calls) ∧
    (s.conn.flags.authOk → LetIn md5 password nonce is s.daemon.2) ∧
    (¬s.conn.flags.authOk → s.daemon = (d, [])) ∧
    ∀ js s', Transition.Steps (Step md5 (recorded cb)) s js s' → s.conn.flags.authOk →
      s'.conn.flags.authOk := by
  have hg {is js : List Input} {s s' : Session (δ × List Cmd)} (h : Gate md5 password nonce d is s)
      (e : Transition.Steps (Step md5 (recorded cb)) s js s') : Gate md5 password nonce d (is ++ js) s' :=
    e.history (fun _ _ _ _ hs h => (h.step hs).1) h
  have h := hg (.new md5 sock password nonce d) e
  rw [List.nil_append] at h
  refine ⟨⟨fun ha => ⟨_, h.letIn ha⟩, fun ⟨_, hl⟩ => ?_⟩, h.letIn, fun ha => (h.shut ha).2.2,
    fun js s' e' ha => ?_⟩
  case refine_1 =>
    by_contra ha
    obtain ⟨pre, line, n, post, he, _, hgr, _⟩ := hl
    exact (h.shut ha).2.1 pre line n post he hgr
  case refine_2 =>
    have h' := e'.history (P := fun is s => Gate md5 password nonce d is s ∧ s.conn.flags.authOk)
      (fun _ _ _ _ hs h => ⟨(h.1.step hs).1, (h.1.step hs).2 h.2⟩) ⟨h, ha⟩
    exact h'.2

section Example

-- A command too early, a wrong password, the right one, and the command again.
def login : List Input :=
  ["status", "auth plain public", "auth plain secret", "status"].map fun l => .line l.toList []

def loginRun : Option (Session (Nat × List Cmd)) :=
  Transition.replay (step digest (recorded count)) (new digest 7 "secret".toList Session.nonce (0, [])) login

theorem letIn_login :
    ∃ s, loginRun = some s ∧ s.daemon = (1, [⟨.status, ["status".toList]⟩]) ∧
    LetIn digest "secret".toList Session.nonce login s.daemon.2 := by
  have hr := (Option.some_get (show loginRun.isSome by decide)).symm
  exact ⟨_, hr, by decide, (letIn_iff (.of_replay hr)).2.1 (by decide)⟩

end Example

end Session
end F2b
