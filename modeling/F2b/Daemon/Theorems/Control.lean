import F2b.Backends.Blocklist
import F2b.Csocket.Theorems.Slots
import F2b.Daemon.Control

-- The commands of the control socket find what they need in their tokens, and a jail if they are about one.

namespace F2b.Control

open Deref Cmd

section Commands

variable {β μ : Type} [Backend β] {env : Env} {replies : Replies μ} {now : Int}
variable {line nonce : CString} {cmd : Cmd} {jail : Option (Place Jail)} {c : Control β μ} {md5 : CString → CString}

theorem hasJail_iff (type : CmdType) :
    type.hasJail ↔ ∃ d ∈ commands, d.type = type ∧ d.tokens[1]? = some "<jailname>".toList := by
  cases type <;> decide

theorem safe_dispatch (h : Cmd.create line = some cmd) (hj : cmd.type.hasJail → jail.isSome) :
    Safe (cmd.Holds line) (dispatch env replies now cmd jail c)
      fun r => r.2.state = cmd.type.state?.getD c.state := by
  have ha {i : Nat} := Cmd.safe_arg h (i := i)
  rw [dispatch]
  cases ht : cmd.type
  all_goals rw [ht] at ha hj
  case auth             => exact safe_pure rfl
  case help             => exact safe_pure rfl
  case status           => exact safe_pure rfl
  case reload           => exact safe_pure rfl
  case shutdown         => exact safe_pure rfl
  case logRotate        => exact safe_pure rfl
  case logEvents        => exact safe_pure rfl
  case logLevel         =>
    exact (ha (i := 2) (by decide) (by decide)).bind fun level _ => safe_pure rfl
  case jailStatus       => exact safe_follow (hj rfl) fun p => safe_pure rfl
  case jailSet          =>
    refine safe_follow (hj rfl) fun p => ?_
    refine (ha (i := 3) (by decide) (by decide)).bind fun param _ => ?_
    exact (ha (i := 4) (by decide) (by decide)).bind fun value _ => safe_pure rfl
  case jailIpStatus     =>
    refine safe_follow (hj rfl) fun p => ?_
    exact (ha (i := 4) (by decide) (by decide)).bind fun ip _ => safe_pure rfl
  case jailIpBan        =>
    refine safe_follow (hj rfl) fun p => ?_
    exact (ha (i := 4) (by decide) (by decide)).bind fun ip _ => safe_pure rfl
  case jailIpRelease    =>
    refine safe_follow (hj rfl) fun p => ?_
    exact (ha (i := 4) (by decide) (by decide)).bind fun ip _ => safe_pure rfl
  case jailSourceStats  =>
    refine safe_follow (hj rfl) fun p => ?_
    exact safe_ite (fun _ => safe_pure rfl) fun _ => safe_pure rfl
  case jailFilterStats  =>
    refine safe_follow (hj rfl) fun p => ?_
    exact safe_ite (fun _ => safe_pure rfl) fun _ => safe_pure rfl
  case jailFilterReload =>
    refine safe_follow (hj rfl) fun p => ?_
    exact safe_ite (fun _ => safe_pure rfl) fun _ => safe_pure rfl

-- A command finds all that it needs, and it writes `state` as the main loop expects.
theorem safe_cmdProcess (h : Cmd.create line = some cmd) (c : Control β μ) :
    Safe (cmd.Holds line) (cmdProcess env replies now cmd c)
      fun r => r.2.state = cmd.type.state?.getD c.state := by
  rw [cmdProcess]
  split_ifs with hh hj
  case pos => exact safe_pure (by rw [hh]; rfl)
  case pos =>
    have hr : ∀ d ∈ commands, d.type = cmd.type → 1 < d.tokens.length := by
      have hr : ∀ d ∈ commands, d.type.hasJail → 1 < d.tokens.length := by decide
      exact fun d hd ht => hr d hd (ht ▸ hj)
    have hs : cmd.type.state? = none := by
      revert hj
      cases cmd.type <;> decide
    refine (Cmd.safe_arg h (i := 1) (Nat.le_refl 1) hr).bind fun name _ => ?_
    split
    case h_1   => exact safe_pure (by rw [hs]; rfl)
    case h_2 p => exact safe_dispatch h fun _ => rfl
  case neg => exact safe_dispatch h fun hj' => absurd hj' hj

def answer (env : Env) (replies : Replies μ) (now : Int) (cmd : Cmd) (c : Control β μ) : CString × Control β μ :=
  (cmdProcess env replies now cmd c).value ([], c)

-- A line that a client sends is handled without a fault, and as the model of the connection says.
theorem safe_line (conn : Conn) (c : Control β μ) :
    Safe (fun i => ∃ cmd, Cmd.create line = some cmd ∧ cmd.Holds line i)
      (Conn.Slots.handle md5 (cmdProcess env replies now) conn line nonce c)
      (· = conn.handle md5 (answer env replies now) line nonce c) :=
  Conn.Slots.safe_handle fun _ h => (safe_cmdProcess h c).value ([], c)

-- No handler reads a slot without a token, and the jail is looked up for the commands that name one.
theorem slots_hold (h : Cmd.create line = some cmd) (env : Env) (replies : Replies μ) (md5 : CString → CString) :
    (cmd.type = .auth → ∀ conn nonce,
      Safe (cmd.Holds line) (Conn.Slots.checkAuth md5 conn cmd nonce) (· = conn.checkAuth md5 cmd nonce)) ∧
    (cmd.type = .logEvents → ∀ conn,
      Safe (cmd.Holds line) (Conn.Slots.logEvents conn cmd) (· = conn.logEvents cmd)) ∧
    (∀ now (c : Control β μ), Safe (cmd.Holds line) (cmdProcess env replies now cmd c) fun _ => True) ∧
    ∀ type : CmdType, type.hasJail ↔ ∃ d ∈ commands, d.type = type ∧ d.tokens[1]? = some "<jailname>".toList := by
  refine ⟨fun ht conn nonce => ?_, fun ht conn => ?_, fun now c => ?_, hasJail_iff⟩
  case refine_1 => exact Conn.Slots.safe_checkAuth h ht
  case refine_2 => exact Conn.Slots.safe_logEvents h ht
  case refine_3 => exact (safe_cmdProcess h c).mono (fun _ h => h) fun _ _ => trivial

end Commands

section Example

def ssh : Control Blocklist Unit where
  state     := .run
  appconfig := .init
  jails     := [Jail.create (fun _ => 0) .builtin ⟨"ssh".toList, .jail, []⟩]
  world     := ⟨⟨[], [], []⟩, [], fun _ => none⟩
  modules   := ()

theorem slots_hold_ban :
    Safe (Cmd.Holds "jail ssh ip ban 192.0.2.7".toList
      ⟨.jailIpBan, ["jail".toList, "ssh".toList, "ip".toList, "ban".toList, "192.0.2.7".toList]⟩)
      (cmdProcess ⟨.quad, fun _ => 0, fun _ => [], 4096, []⟩
        ⟨[], 1, fun _ => [], fun _ _ => [], fun _ _ => [], fun _ _ => ([], ())⟩ 1000
        ⟨.jailIpBan, ["jail".toList, "ssh".toList, "ip".toList, "ban".toList, "192.0.2.7".toList]⟩ ssh)
      fun _ => True :=
  (slots_hold (by decide) _ _ fun _ => []).2.2.1 1000 ssh

end Example
end F2b.Control
