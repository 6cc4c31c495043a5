import F2b.Jail.Modules
import F2b.Jail.Theorems.Settings

-- The options that name a module and give its init string, set over inherited ones.

namespace F2b.Jail.Settings

open F2b.Module (Kind)

section Definitions

def optionName : Kind → CString
  | .source  => "source".toList
  | .filter  => "filter".toList
  | .backend => "backend".toList

def moduleInit (s : Settings) : Kind → CString
  | .source  => s.sourceInit
  | .filter  => s.filterInit
  | .backend => s.backendInit

def setModule (s : Settings) (name init : CString) : Kind → Settings
  | .source  => { s with sourceName := name, sourceInit := init, flags.hasSource := true }
  | .filter  => { s with filterName := name, filterInit := init, flags.hasFilter := true }
  | .backend => { s with backendName := name, backendInit := init, flags.hasBackend := true }

def parts (value : CString) : CString × CString :=
  match value.strchr ':' with
  | none     => (value, [])
  | some len => (value.take len, value.drop (len + 1))

def Fits (value : CString) : Prop :=
  (parts value).1.length < CONFIG_KEY_MAX ∧ (parts value).2.length < CONFIG_VAL_MAX

instance (value : CString) : Decidable (Fits value) :=
  inferInstanceAs (Decidable (_ ∧ _))

-- A value that fits says all there is to know of a module, and another one changes nothing.
def Overrides (atof : CString → Rat) (s : Settings) (kind : Kind) (value : CString) : Prop :=
  let s' := applyParam atof s ⟨optionName kind, value⟩
  if Fits value then (s'.moduleName kind, s'.moduleInit kind) = parts value ∧ s'.has kind
  else s' = s

-- The truncated parts of a value that does not fit are those of the module already. Of a name that is
-- too long and has an init string, nothing is written.
def Truncated (s : Settings) (kind : Kind) (value : CString) : Prop :=
  match value.strchr ':' with
  | none     => s.moduleName kind = value.take (CONFIG_KEY_MAX - 1)
  | some len => len < CONFIG_KEY_MAX →
      s.moduleName kind = value.take len ∧
      s.moduleInit kind = (value.drop (len + 1)).take (CONFIG_VAL_MAX - 1)

end Definitions

variable {s : Settings} {kind : Kind} {value name init : CString}

theorem applyParam_module (atof : CString → Rat) (s : Settings) (kind : Kind) (value : CString) :
    applyParam atof s ⟨optionName kind, value⟩ =
    s.setModule ((compoundName value).getD (s.moduleName kind)) ((compoundInit value).getD (s.moduleInit kind))
      kind := by
  cases kind
  case source  => rw [show optionName .source = Key.source.name from rfl, applyParam_key, Key.set,
    parseCompoundValue_eq]; rfl
  case filter  => rw [show optionName .filter = Key.filter.name from rfl, applyParam_key, Key.set,
    parseCompoundValue_eq]; rfl
  case backend => rw [show optionName .backend = Key.backend.name from rfl, applyParam_key, Key.set,
    parseCompoundValue_eq]; rfl

@[simp]
theorem moduleName_setModule : (s.setModule name init kind).moduleName kind = name := by
  cases kind <;> rfl

@[simp]
theorem moduleInit_setModule : (s.setModule name init kind).moduleInit kind = init := by
  cases kind <;> rfl

@[simp]
theorem has_setModule : (s.setModule name init kind).has kind = true := by
  cases kind <;> rfl

theorem setModule_self (h : s.has kind) : s.setModule (s.moduleName kind) (s.moduleInit kind) kind = s := by
  obtain ⟨flags⟩ := s
  obtain ⟨_, _, _, _, _, _⟩ := flags
  cases kind <;> cases h <;> rfl

theorem setModule_eq_iff :
    s.setModule name init kind = s ↔ s.has kind ∧ s.moduleName kind = name ∧ s.moduleInit kind = init := by
  constructor
  case mp  =>
    intro h
    refine ⟨?_, ?_, ?_⟩ <;> rw [← h] <;> simp
  case mpr =>
    rintro ⟨h, rfl, rfl⟩
    exact setModule_self h

theorem mem_iff_strchr : ':' ∈ value ↔ ∃ len, value.strchr ':' = some len := by
  rw [← Option.isSome_iff_exists, Option.isSome_iff_ne_none, ne_eq, CString.strchr_eq_none_iff, not_not]

theorem compound_of_fits (h : Fits value) :
    compoundName value = some (parts value).1 ∧
    compoundInit value = if ':' ∈ value then some (parts value).2 else none := by
  obtain ⟨hn, hi⟩ := h
  cases hc : value.strchr ':'
  case none =>
    have hm : ':' ∉ value := by simp [mem_iff_strchr, hc]
    simp only [parts, hc] at hn
    simp [compoundName, compoundInit, parts, hc, hm, CString.strlcpy_of_lt hn]
  case some len =>
    have hm : ':' ∈ value := by simp [mem_iff_strchr, hc]
    obtain ⟨hl, _⟩ := List.findIdx?_eq_some_iff_getElem.mp hc
    simp only [parts, hc, List.length_take, Nat.min_eq_left (Nat.le_of_lt hl)] at hn hi
    rw [compoundInit, hc]
    simp [compoundName, parts, hc, hm, Nat.not_le.mpr hn, CString.strlcpy_of_lt hi]
    rfl

theorem overrides_of_fits (h : Fits value) (atof : CString → Rat) (s : Settings) (kind : Kind) :
    Overrides atof s kind value ↔ ':' ∈ value ∨ s.moduleInit kind = [] := by
  have ⟨hn, hi⟩ := compound_of_fits h
  rw [Overrides, if_pos h, applyParam_module, hn, hi]
  simp only [moduleName_setModule, moduleInit_setModule, has_setModule, Option.getD_some, and_true]
  by_cases hm : ':' ∈ value
  case pos => simp [hm]
  case neg =>
    have hp : (parts value).2 = [] := by
      cases hc : value.strchr ':'
      case none     => simp [parts, hc]
      case some len => exact absurd (mem_iff_strchr.mpr ⟨len, hc⟩) hm
    simp [hm, Prod.ext_iff, hp]

theorem overrides_of_not_fits (h : ¬Fits value) (atof : CString → Rat) (s : Settings) (kind : Kind) :
    Overrides atof s kind value ↔ s.has kind ∧ Truncated s kind value := by
  rw [Overrides, if_neg h, applyParam_module, setModule_eq_iff, Truncated]
  cases hc : value.strchr ':'
  case none     => simp [compoundName, compoundInit, hc, CString.strlcpy]
  case some len =>
    by_cases hl : len < CONFIG_KEY_MAX
    case pos => simp [compoundName, compoundInit, hc, hl, Nat.not_le.mpr hl, CString.strlcpy]
    case neg => simp [compoundName, compoundInit, hc, hl, Nat.not_lt.mp hl]

-- An option overrides what has been inherited if its value has an init string or none is inherited. One
-- that does not fit is not rejected, it marks the module as configured.
theorem overrides_iff (atof : CString → Rat) (s : Settings) (kind : Kind) (value : CString) :
    Overrides atof s kind value ↔
    if Fits value then ':' ∈ value ∨ s.moduleInit kind = []
    else s.has kind ∧ Truncated s kind value := by
  by_cases h : Fits value
  case pos => rw [if_pos h, overrides_of_fits h]
  case neg => rw [if_neg h, overrides_of_not_fits h]

-- A jail without an init string for its filter gets the one of the defaults.
theorem not_overrides :
    ¬∀ atof s kind value, Overrides atof s kind value := by
  intro h
  let inherited : Settings := { builtin with filterName := "preg".toList, filterInit := "ssh.preg".toList }
  have := (overrides_of_fits (by decide) ..).mp (h (fun _ => 0) inherited .filter "pcre".toList)
  revert this
  decide

end F2b.Jail.Settings
