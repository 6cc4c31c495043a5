import F2b.Backends.Runner
import F2b.Backends.Theorems.Argv
import F2b.Jail.Theorems.Calls
import Mathlib.Data.List.Forall2

-- What a jail executes: the commands of its configuration. Whatever the log lines and the control commands hold,
-- only valid addresses come into their arguments, each in the place that is meant for one.

namespace F2b.Exec

open CString (isblank)
open Words (words)

section Definitions

-- What stands in the place of a word.
def Fills (inet : Inet) (id word arg : CString) : Prop :=
  arg = word ∨ (word = TOKEN_ID ∧ arg = id) ∨ (word = TOKEN_IP ∧ Ipaddr.Valid inet arg)

-- The arguments are those of the command text, one for each of its words. The first one is its word with the blanks
-- before it, and so it is all of a text that has no word.
def Stems (inet : Inet) (id str : CString) (argv : List (Option CString)) : Prop :=
  ∃ args ts, argv = (args :: ts).map some ++ [none] ∧
    args = str.takeWhile isblank ++ (words isblank str).headD [] ∧
    List.Forall₂ (Fills inet id) (words isblank str).tail ts

def Cfg.commands (cfg : Cfg) : List CString :=
  cfg.start ++ cfg.stop ++ cfg.ban ++ cfg.unban ++ cfg.check

def keys : List CString :=
  ["start".toList, "stop".toList, "ban".toList, "unban".toList, "check".toList]

end Definitions

section Stems

variable {inet : Inet} {cfg : Cfg} {ip : Option CString} {str : CString}

theorem stems_fill (cfg : Cfg) (str : CString) (hv : ∀ a ∈ ip, Ipaddr.Valid inet a) :
    Stems inet cfg.name str ((cmdFromStr str).fill cfg ip) := by
  obtain ⟨ha, hp, hd⟩ := foldl_add (cmdStart str) _ rfl rfl rfl (words isblank str).tail
  obtain ⟨ts, hf, hl, ht⟩ := fill_spec cfg ip ha
  refine ⟨_, ts, hf, ?_, List.forall₂_iff_get.mpr ⟨hl.symm, fun i hi hi' => ?_⟩⟩
  case refine_1 => exact congrArg (str.takeWhile isblank ++ ·) (Words.headD_words isblank str).symm
  case refine_2 =>
    have hi : (words isblank str).tail[i]? = some ((words isblank str).tail.get ⟨i, hi⟩) := List.getElem?_eq_getElem hi
    generalize (words isblank str).tail.get ⟨i, _⟩ = t at hi
    have hg := ht i t hi
    have hi' : ts[i]? = some (ts.get ⟨i, hi'⟩) := List.getElem?_eq_getElem hi'
    rw [hi', Option.some.injEq] at hg
    rw [hg]
    split_ifs with h₁ h₂
    case pos => exact .inr (.inl ⟨eq_token hd h₁ hi, rfl⟩)
    case pos =>
      cases ip
      case none   => exact .inl rfl
      case some a => exact .inr (.inr ⟨eq_token hp h₂ hi, hv a rfl⟩)
    case neg => exact .inl rfl

end Stems

section Runs

variable {inet : Inet} {cfg : Cfg} {r : Runner} {ip : Option CString} {list : List CString}

theorem mem_of_mem_ran {sys : Pid → Nat → Calls} {pid : Pid} {i : Nat} {status : Status} {cmds : List Cmd}
    {e : Cmd × Status} (h : e ∈ (runList sys pid i status cmds).ran) : e.1 ∈ cmds := by
  induction cmds generalizing pid i status
  case nil            => simp [runList, ret] at h
  case cons cmd cmds hi =>
    rw [runList] at h
    simp only at h
    split at h
    case isFalse => simp [ret] at h
    case isTrue  =>
      obtain h | h := List.mem_append.mp h
      case inl =>
        split at h
        case isTrue  => exact List.mem_singleton.mp h ▸ List.mem_cons_self
        case isFalse => exact List.mem_cons_of_mem _ (hi h)
      case inr =>
        generalize (if (sys pid i).waits then (sys pid i).status else status) = status at h
        split at h
        case isTrue  => exact List.mem_cons_of_mem _ (hi h)
        case isFalse => simp [ret] at h

-- The configuration is as it was, and all that has been executed stems from it.
structure Kept (inet : Inet) (cfg : Cfg) (r : Runner) : Prop where
  same  : r.cfg = cfg
  execs : ∀ argv ∈ r.execs, ∃ str ∈ cfg.commands, Stems inet cfg.name str argv

theorem Kept.exec (h : Kept inet cfg r) (hl : list ⊆ cfg.commands) (hv : ∀ a ∈ ip, Ipaddr.Valid inet a) :
    Kept inet cfg (r.exec list ip).2 := by
  refine ⟨h.same, fun argv ha => ?_⟩
  obtain ha | ha := List.mem_append.mp ha
  case inl => exact h.execs argv ha
  case inr =>
    obtain ⟨e, he, rfl⟩ := List.mem_map.mp ha
    obtain ⟨str, hs, he⟩ := List.mem_map.mp (mem_of_mem_ran he)
    rw [← he, h.same]
    exact ⟨str, hl hs, stems_fill cfg str hv⟩

theorem Kept.ids (h : Kept inet cfg r) (ids : List CfgId) : Kept inet cfg { r with ids } :=
  ⟨h.same, h.execs⟩

theorem Kept.start (h : Kept inet cfg r) : Kept inet cfg r.start.2 := by
  have hl : r.cfg.start ⊆ cfg.commands := by
    rw [h.same]
    simp only [Cfg.commands, List.append_assoc]
    exact List.subset_append_left ..
  simp only [Runner.start]
  split_ifs
  case pos => exact h
  case pos => exact h.ids _
  case neg => exact (h.ids _).exec hl (by simp)
  case neg => exact h.exec hl (by simp)

theorem Kept.stop (h : Kept inet cfg r) : Kept inet cfg r.stop.2 := by
  have hl : r.cfg.stop ⊆ cfg.commands := by
    rw [h.same]
    intro c hc
    simp [Cfg.commands, hc]
  simp only [Runner.stop]
  split_ifs
  case pos => exact h
  case pos => exact h.ids _
  case neg => exact (h.ids _).exec hl (by simp)
  case neg => exact h.exec hl (by simp)

theorem keeps_kept (inet : Inet) (cfg : Cfg) : Backend.Keeps (Ipaddr.Valid inet) (Kept inet cfg) where
  ping  := fun _ h => h
  check := by
    intro ip r hv h
    have hl : r.cfg.check ⊆ cfg.commands := by
      rw [h.same]
      intro c hc
      simp [Cfg.commands, hc]
    simp only [Backend.check]
    split_ifs
    case pos => exact h
    case neg => exact h.exec hl (by simpa using hv)
  ban   := by
    intro ip r hv h
    refine h.exec (fun c hc => ?_) (by simpa using hv)
    rw [h.same] at hc
    simp [Cfg.commands, hc]
  unban := by
    intro ip r hv h
    refine h.exec (fun c hc => ?_) (by simpa using hv)
    rw [h.same] at hc
    simp [Cfg.commands, hc]
  stop  := fun _ h => h.stop

theorem commands_config (cfg : Cfg) (key value : CString) :
    (config cfg key value).2.name = cfg.name ∧
    ∀ str ∈ (config cfg key value).2.commands, str ∈ cfg.commands ∨ (key ∈ keys ∧ str = value) := by
  simp only [config]
  split_ifs
  all_goals
    refine ⟨rfl, fun str hs => ?_⟩
    simp only [Cfg.commands, keys, List.mem_append, List.mem_cons] at hs ⊢
    grind

theorem commands_create {id str : CString} {params : List Config.Param} {ids : List CfgId} {answers : List Answer}
    (h : str ∈ (Runner.create id params ids answers).cfg.commands) :
    ∃ p ∈ params, p.name ∈ keys ∧ p.value = str := by
  have hf : ∀ cfg : Cfg, str ∈ (params.foldl (fun cfg p => (config cfg p.name p.value).2) cfg).commands →
      str ∈ cfg.commands ∨ ∃ p ∈ params, p.name ∈ keys ∧ p.value = str := by
    clear h
    induction params
    case nil          => exact fun _ h => .inl h
    case cons p ps hi =>
      intro cfg h
      obtain h | ⟨q, hq, hk⟩ := hi _ h
      case inr => exact .inr ⟨q, List.mem_cons_of_mem _ hq, hk⟩
      case inl =>
        obtain h | ⟨hk, rfl⟩ := (commands_config cfg p.name p.value).2 str h
        case inl => exact .inl h
        case inr => exact .inr ⟨p, List.mem_cons_self, hk, rfl⟩
  obtain h | h := hf _ h
  case inl => simp [Exec.create, Cfg.commands] at h
  case inr => exact h

theorem name_create (id : CString) (params : List Config.Param) (ids : List CfgId) (answers : List Answer) :
    (Runner.create id params ids answers).cfg.name = id.strlcpy (ID_MAX + 1) := by
  have hf : ∀ cfg : Cfg, (params.foldl (fun cfg p => (config cfg p.name p.value).2) cfg).name = cfg.name := by
    induction params
    case nil          => exact fun _ => rfl
    case cons p ps hi => exact fun cfg => (hi _).trans (commands_config cfg p.name p.value).1
  exact hf _

-- In every run of a jail all that is executed is a command of the backend's section, with an argument for each of
-- its words: the word, the id for '<ID>' or a valid address for '<IP>'.
theorem no_injection {env : Env} {id : CString} {params : List Config.Param} {ids : List CfgId}
    {answers : List Answer} {s : System Runner}
    (h : Transition.Reachable (fun s : System Runner => s.up = false ∧
      s.world.backend = (Runner.create id params ids answers).start.2) (System.Step env) s) :
    ∀ argv ∈ s.world.backend.execs, ∃ p ∈ params, p.name ∈ keys ∧
      Stems env.inet (id.strlcpy (ID_MAX + 1)) p.value argv := by
  have hc : Kept env.inet (Runner.create id params ids answers).cfg (Runner.create id params ids answers) :=
    ⟨rfl, by simp [Runner.create]⟩
  have hk : Kept env.inet (Runner.create id params ids answers).cfg s.world.backend := by
    refine System.keeps_of_reachable (keeps_kept ..) (fun s hs => ⟨hs.1, ?_⟩) h
    rw [hs.2]
    exact hc.start
  intro argv ha
  obtain ⟨str, hs, hst⟩ := hk.execs argv ha
  obtain ⟨p, hp, hn, rfl⟩ := commands_create hs
  exact ⟨p, hp, hn, name_create id params ids answers ▸ hst⟩

end Runs

section Example

open F2b.System (quadEnv sshParams)

def ipset : List Config.Param := [
  ⟨"load".toList, "exec.so".toList⟩, ⟨"ban".toList, "/sbin/ipset add <ID> <IP>".toList⟩]

def sshNew : System Runner :=
  .new "ssh".toList ⟨(Runner.create "banned".toList ipset [] []).start.2, [], fun _ => none⟩

-- A ban of a host and a command that names no valid address.
theorem no_injection_ssh :
    ∃ s, Transition.replay (System.step quadEnv) sshNew [.start sshParams 1000, .ip 1001 1 "192.0.2.7".toList,
      .ip 1002 1 "192.0.2.7;reboot".toList] = some s ∧
    s.world.backend.execs = [[some "/sbin/ipset".toList, some "add".toList, some "banned".toList,
      some "192.0.2.7".toList, none]] ∧
    ∀ argv ∈ s.world.backend.execs, ∃ p ∈ ipset, p.name ∈ keys ∧
      Stems quadEnv.inet (CString.strlcpy "banned".toList (ID_MAX + 1)) p.value argv := by
  let s := (Transition.replay (System.step quadEnv) sshNew [.start sshParams 1000, .ip 1001 1 "192.0.2.7".toList,
    .ip 1002 1 "192.0.2.7;reboot".toList]).get (by decide)
  have hs : Transition.replay (System.step quadEnv) sshNew [.start sshParams 1000, .ip 1001 1 "192.0.2.7".toList,
    .ip 1002 1 "192.0.2.7;reboot".toList] = some s := (Option.some_get _).symm
  exact ⟨s, hs, by decide, no_injection ⟨sshNew, _, ⟨rfl, rfl⟩, .of_replay hs⟩⟩

end Example
end F2b.Exec
