import F2b.Daemon.Jails
import F2b.Jail.Theorems.Settings

-- Reloading a config, compared with starting from it.

namespace F2b

namespace Jail.Settings

variable (atof : CString → Rat)

-- All that options can write.
def fields : List (Σ α : Type, Overwrite.Field (applyParam atof) α) := [
  ⟨_, enabledField atof⟩, ⟨_, hasStateField atof⟩, ⟨_, hasSourceField atof⟩,
  ⟨_, hasFilterField atof⟩, ⟨_, hasBackendField atof⟩, ⟨_, banscoreField atof⟩,
  ⟨_, findtimeField atof⟩, ⟨_, bantimeField atof⟩, ⟨_, expiretimeField atof⟩,
  ⟨_, findtimeExtendField atof⟩, ⟨_, bantimeExtendField atof⟩, ⟨_, expiretimeExtendField atof⟩,
  ⟨_, sourceNameField atof⟩, ⟨_, sourceInitField atof⟩, ⟨_, filterNameField atof⟩,
  ⟨_, filterInitField atof⟩, ⟨_, backendNameField atof⟩, ⟨_, backendInitField atof⟩]

theorem eq_iff_fields {s₁ s₂ : Settings} (h : s₁.flags.configured = s₂.flags.configured) :
    s₁ = s₂ ↔ ∀ f ∈ fields atof, f.2.get s₁ = f.2.get s₂ := by
  refine ⟨fun h _ _ => h ▸ rfl, fun hf => ?_⟩
  obtain ⟨⟨_, _, _, _, _, _⟩, _, _, _, _, _, _, _, _, _, _, _, _, _⟩ := s₁
  obtain ⟨⟨_, _, _, _, _, _⟩, _, _, _, _, _, _, _, _, _, _, _, _, _⟩ := s₂
  simp only [fields, List.forall_mem_cons] at hf
  obtain ⟨⟨⟩, ⟨⟩, ⟨⟩, ⟨⟩, ⟨⟩, ⟨⟩, ⟨⟩, ⟨⟩, ⟨⟩, ⟨⟩, ⟨⟩, ⟨⟩, ⟨⟩, ⟨⟩, ⟨⟩, ⟨⟩, ⟨⟩, ⟨⟩, _⟩ := hf
  obtain rfl := h
  rfl

theorem configured_foldl (s : Settings) (ps : List Config.Param) :
    (ps.foldl (applyParam atof) s).flags.configured = s.flags.configured := by
  induction ps generalizing s
  case nil          => rfl
  case cons p ps hi =>
    rw [List.foldl_cons, hi]
    obtain ⟨k, _, hk⟩ | ⟨_, hk⟩ := applyParam_cases atof s p <;> rw [hk]
    cases k <;> rfl

end Jail.Settings

namespace Daemon

variable (atof : CString → Rat) (ready : Config → Jail → Bool)

def settings (d : Daemon) (sec : Config.Section) : Jail.Settings :=
  (Jail.create atof d.defaults sec).settings

-- Reloading `c₂` after a start with `c₁` gives each jail of `c₂` the settings of a start with `c₂`.
def SameSettings (c₁ c₂ : Config) : Prop :=
  ∀ sec ∈ c₂.jails, settings atof (reload atof ready c₂ (boot atof ready c₁)) sec =
    settings atof (boot atof ready c₂) sec

theorem setDefaults_defaults (config : Config) (d : Daemon) :
    (setDefaults atof config d).defaults =
    config.defaultParams.foldl (Jail.Settings.applyParam atof) d.defaults := by
  cases hd : config.defaults <;> simp [setDefaults, Config.defaultParams, hd, Jail.Settings.applyConfig]

theorem setDefaults_jails (config : Config) (d : Daemon) :
    (setDefaults atof config d).jails = d.jails := by
  cases hd : config.defaults <;> simp [setDefaults, hd]

-- The jail that a section leads to, if it is one that starts.
def started (config : Config) (defaults : Jail.Settings) (sec : Config.Section) : Option Jail :=
  let jail := Jail.create atof defaults sec
  if jail.settings.flags.enabled then initJail ready config jail else none

-- Starting jails leaves the defaults alone, and puts the new jails before the others, last first.
theorem jailsStart_eq (config : Config) (secs : List Config.Section) (d : Daemon) :
    jailsStart atof ready config secs d =
    { d with jails := (secs.filterMap (started atof ready config d.defaults)).reverse ++ d.jails } := by
  induction secs generalizing d
  case nil => simp [jailsStart]
  case cons sec secs hi =>
    cases he : (Jail.create atof d.defaults sec).settings.flags.enabled
    case false => simp [jailsStart, started, he, hi]
    case true  =>
      cases hr : initJail ready config (Jail.create atof d.defaults sec) <;>
        simp [jailsStart, started, he, hr, hi]

theorem jails_boot (c : Config) : (boot atof ready c).jails =
    (c.jails.filterMap (started atof ready c (boot atof ready c).defaults)).reverse := by
  simp [boot, jailsStart_eq, setDefaults_jails, init]

theorem jails_reload (c : Config) (d : Daemon) : (reload atof ready c d).jails =
    (c.jails.filterMap (started atof ready c (reload atof ready c d).defaults)).reverse := by
  simp [reload, jailsStart_eq, setDefaults_jails]

theorem settings_boot (c : Config) (sec : Config.Section) :
    settings atof (boot atof ready c) sec =
    (c.defaultParams ++ sec.param).foldl (Jail.Settings.applyParam atof) .builtin := by
  simp only [settings, Jail.create, Jail.Settings.applyConfig, boot, jailsStart_eq,
    setDefaults_defaults, List.foldl_append]
  rfl

theorem settings_reload (c₁ c₂ : Config) (sec : Config.Section) :
    settings atof (reload atof ready c₂ (boot atof ready c₁)) sec =
    (c₂.defaultParams ++ sec.param).foldl (Jail.Settings.applyParam atof)
      (c₁.defaultParams.foldl (Jail.Settings.applyParam atof) .builtin) := by
  simp only [settings, Jail.create, Jail.Settings.applyConfig, reload, boot, jailsStart_eq,
    setDefaults_defaults, List.foldl_append]
  rfl

-- The settings of the jails are those of a fresh start in exactly the case that each field which the
-- options of the old defaults change is written by the new defaults or the section of the jail.
theorem same_settings_iff (c₁ c₂ : Config) :
    SameSettings atof ready c₁ c₂ ↔
    ∀ sec ∈ c₂.jails, ∀ f ∈ Jail.Settings.fields atof,
      f.2.Settled .builtin c₁.defaultParams (c₂.defaultParams ++ sec.param) := by
  refine forall₂_congr fun sec _ => ?_
  rw [settings_reload, settings_boot, Jail.Settings.eq_iff_fields atof <| by
    simp only [Jail.Settings.configured_foldl]]
  exact forall₂_congr fun f _ => f.2.get_foldl_foldl_eq_iff ..

theorem jails_reload_of_same {c₁ c₂ : Config} (h : SameSettings atof ready c₁ c₂) :
    (reload atof ready c₂ (boot atof ready c₁)).jails = (boot atof ready c₂).jails := by
  have ha : ∀ sec ∈ c₂.jails,
      started atof ready c₂ (reload atof ready c₂ (boot atof ready c₁)).defaults sec =
      started atof ready c₂ (boot atof ready c₂).defaults sec := fun sec hs => by
    have hc : Jail.create atof (reload atof ready c₂ (boot atof ready c₁)).defaults sec =
        Jail.create atof (boot atof ready c₂).defaults sec :=
      congrArg (fun settings => (⟨_, settings, _, _, _⟩ : Jail)) (h sec hs)
    simp only [started, hc]
  rw [jails_reload, jails_boot, List.filterMap_congr ha]

section Example

def sshSection : Config.Section :=
  ⟨"ssh".toList, .jail, [⟨"enabled".toList, "yes".toList⟩]⟩

-- The ban time of the first config stays in force under the second one, which has none.
theorem not_same_settings :
    ¬SameSettings (fun _ => 0) (fun _ _ => true)
      ⟨none, none, some ⟨[], .defaults, [⟨"bantime".toList, "7200".toList⟩]⟩, [], [], [], [sshSection]⟩
      ⟨none, none, none, [], [], [], [sshSection]⟩ := by
  intro h
  have := h sshSection List.mem_cons_self
  revert this
  decide

end Example
end Daemon
end F2b
