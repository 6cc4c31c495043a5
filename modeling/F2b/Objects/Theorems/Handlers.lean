import F2b.Lib.Overwrite
import F2b.Objects.Handlers

-- Each option of a module, other than those that add to a list, overwrites what it has set before and
-- nothing else.

namespace F2b

open Overwrite

abbrev Setters (α : Type) := List (CString × (CString → α → α))

def apply {α : Type} (config : α → CString → CString → Bool × α) (cfg : α) (p : Config.Param) : α :=
  (config cfg p.name p.value).2

variable {α : Type}

theorem single_of_setters {config : α → CString → CString → Bool × α} {t : Setters α} {o : CString}
    (he : ∀ cfg key v, (config cfg key v).2 = setNamed t key v cfg) (hi : Independent t)
    (ho : ∀ e ∈ t, e.1 = o → ∀ v w cfg, e.2 v (e.2 w cfg) = e.2 v cfg) :
    Single (apply config) (·.name = o) := by
  have ha : apply config = fun cfg p => setNamed t p.name p.value cfg := by
    funext cfg p
    exact he cfg p.name p.value
  exact ha ▸ hi.single _ _ ho

theorem single_of_overwriting {config : α → CString → CString → Bool × α} {t : Setters α}
    (he : ∀ cfg key v, (config cfg key v).2 = setNamed t key v cfg) (hi : Independent t)
    (ho : ∀ e ∈ t, ∀ v w cfg, e.2 v (e.2 w cfg) = e.2 v cfg) (o : CString) :
    Single (apply config) (·.name = o) :=
  single_of_setters he hi fun e hm _ => ho e hm

namespace RedisSource

def setters : Setters RedisSource := [
  ("timeout".toList, fun v cfg => { cfg with timeout := v.atoi }),
  ("host".toList, fun v cfg => { cfg with host := v.strlcpy 32 }),
  ("port".toList, fun v cfg => { cfg with port := toUInt16 v.atoi }),
  ("database".toList, fun v cfg => { cfg with database := toUInt8 v.atoi }),
  ("password".toList, fun v cfg => { cfg with password := v.strlcpy 32 })]

theorem config_eq (cfg : RedisSource) (key v : CString) :
    (cfg.config key v).2 = setNamed setters key v cfg := by
  simp only [config, apply_ite Prod.snd]
  rfl

theorem single (o : CString) : Single (apply config) (·.name = o) :=
  single_of_overwriting config_eq (by simp [Independent, setters]) (by simp [setters]) o

end RedisSource

namespace Portknock

variable (parse : CString → Option (CString × CString))

theorem single {o : CString} (ho : o ≠ "listen".toList) : Single (apply (config parse)) (·.name = o) := by
  have hs : ∀ cfg key v, key ≠ "listen".toList → (config parse cfg key v).2 = cfg := fun _ _ _ hk => by
    rw [config, if_neg hk]
  constructor
  case absorb =>
    intro cfg p p' hp _
    have hn : p.name ≠ "listen".toList := of_decide_eq_true hp ▸ ho
    exact congrArg (apply (config parse) · p') (hs cfg p.name p.value hn)
  case comm =>
    intro cfg p p' hp hp'
    have hn : p.name ≠ "listen".toList := of_decide_eq_true hp ▸ ho
    have ha : ∀ cfg, apply (config parse) cfg p = cfg := fun cfg => hs cfg p.name p.value hn
    rw [ha, ha]

end Portknock

namespace Preg

def setters : Setters Preg := [
  ("icase".toList, fun v cfg => { cfg with icase := Config.yes v }),
  ("defscore".toList, fun v cfg => { cfg with defscore := toShort v.atoi })]

theorem config_eq (cfg : Preg) (key v : CString) : (cfg.config key v).2 = setNamed setters key v cfg := by
  simp only [config, apply_ite Prod.snd]
  rfl

theorem single (o : CString) : Single (apply config) (·.name = o) :=
  single_of_overwriting config_eq (by simp [Independent, setters]) (by simp [setters]) o

end Preg

namespace Pcre

variable (jit : Bool)

def setters : Setters Pcre := [
  ("icase".toList, fun v cfg => { cfg with icase := Config.yes v }),
  ("study".toList, fun v cfg => { cfg with study := Config.yes v }),
  ("usejit".toList, fun v cfg => { cfg with usejit := jit && Config.yes v }),
  ("defscore".toList, fun v cfg => { cfg with defscore := toShort v.atoi })]

theorem config_eq (cfg : Pcre) (key v : CString) :
    (config jit cfg key v).2 = setNamed (setters jit) key v cfg := by
  simp only [config, apply_ite Prod.snd]
  rfl

theorem single (o : CString) : Single (apply (config jit)) (·.name = o) :=
  single_of_overwriting (config_eq jit) (by simp [Independent, setters]) (by simp [setters]) o

end Pcre

namespace ExecOptions

def lists : List CString :=
  ["start".toList, "stop".toList, "ban".toList, "unban".toList, "check".toList]

def setters : Setters ExecOptions := [
  ("timeout".toList, fun v o => { o with timeout := v.atoi }),
  ("shared".toList, fun v o => { o with cfg.shared := v = "yes".toList }),
  ("start".toList, fun v o => { o with cfg.start := o.cfg.start ++ [v] }),
  ("stop".toList, fun v o => { o with cfg.stop := o.cfg.stop ++ [v] }),
  ("ban".toList, fun v o => { o with cfg.ban := o.cfg.ban ++ [v] }),
  ("unban".toList, fun v o => { o with cfg.unban := o.cfg.unban ++ [v] }),
  ("check".toList, fun v o => { o with cfg.check := o.cfg.check ++ [v] })]

theorem config_eq (o : ExecOptions) (key v : CString) : (o.config key v).2 = setNamed setters key v o := by
  by_cases ht : key = "timeout".toList
  case pos => subst ht; rfl
  case neg =>
    have hr : setNamed setters key v o = setNamed setters.tail key v o := if_neg ht
    simp only [hr, config, Exec.config, if_neg ht, apply_ite Prod.snd]
    simp only [apply_ite fun cfg => (⟨cfg, o.timeout⟩ : ExecOptions)]
    rfl

theorem single {name : CString} (hn : name ∉ lists) : Single (apply config) (·.name = name) := by
  refine single_of_setters config_eq ?_ fun e he hk => ?_
  case refine_1 => simp [Independent, setters]
  case refine_2 =>
    subst hk
    simp only [setters, List.mem_cons, List.not_mem_nil, or_false] at he
    obtain rfl | rfl | rfl | rfl | rfl | rfl | rfl := he
    case inl     => exact fun _ _ _ => rfl
    case inr.inl => exact fun _ _ _ => rfl
    all_goals exact absurd (by decide) hn

end ExecOptions

namespace RedisBackend

def setters : Setters RedisBackend := [
  ("timeout".toList, fun v cfg => { cfg with timeout := v.atoi }),
  ("shared".toList, fun v cfg => { cfg with shared := Config.yes v }),
  ("host".toList, fun v cfg => { cfg with host := v.strlcpy 32, ready := true }),
  ("port".toList, fun v cfg => { cfg with port := toUInt16 v.atoi }),
  ("ping".toList, fun v cfg => { cfg with pingMax := toUInt8 v.atoi }),
  ("database".toList, fun v cfg => { cfg with database := toUInt8 v.atoi }),
  ("password".toList, fun v cfg => { cfg with password := v.strlcpy 32 })]

theorem config_eq (cfg : RedisBackend) (key v : CString) :
    (cfg.config key v).2 = setNamed setters key v cfg := by
  simp only [config, apply_ite Prod.snd]
  rfl

theorem single (o : CString) : Single (apply config) (·.name = o) :=
  single_of_overwriting config_eq (by simp [Independent, setters]) (by simp [setters]) o

end RedisBackend

namespace Module.Driver

def repeatable : Driver → List CString
  | portknock _ => ["listen".toList]
  | exec        => ExecOptions.lists
  | _           => []

theorem single_config (d : Driver) {o : CString} (ho : o ∉ d.repeatable) :
    Single (apply d.config) (·.name = o) := by
  cases d
  case files           => exact ⟨fun _ _ _ _ _ => rfl, fun _ _ _ _ _ => rfl⟩
  case ipset           => exact ⟨fun _ _ _ _ _ => rfl, fun _ _ _ _ _ => rfl⟩
  case portknock parse => exact Portknock.single parse (by simpa [repeatable] using ho)
  case redisSource     => exact RedisSource.single o
  case preg            => exact Preg.single o
  case pcre jit        => exact Pcre.single jit o
  case exec            => exact ExecOptions.single ho
  case redisBackend    => exact RedisBackend.single o

end Module.Driver
end F2b
