import F2b.Jail.Settings
import F2b.Lib.Overwrite

namespace F2b.Jail.Settings

variable (atof : CString → Rat)

-- The options that config sections can set. The names in `deprecated` and all others set nothing.
inductive Key
  | state | source | filter | backend
  | enabled | bantime | findtime | expiretime | banscore
  | bantimeExtend | findtimeExtend | expiretimeExtend
  deriving DecidableEq

namespace Key

def name : Key → CString
  | state            => "state".toList
  | source           => "source".toList
  | filter           => "filter".toList
  | backend          => "backend".toList
  | enabled          => "enabled".toList
  | bantime          => "bantime".toList
  | findtime         => "findtime".toList
  | expiretime       => "expiretime".toList
  | banscore         => "banscore".toList
  | bantimeExtend    => "bantime_extend".toList
  | findtimeExtend   => "findtime_extend".toList
  | expiretimeExtend => "expiretime_extend".toList

def set (s : Settings) (value : CString) : Key → Settings
  | state => { s with flags.hasState := true }
  | source =>
    let (name, init) := parseCompoundValue value s.sourceName s.sourceInit
    { s with sourceName := name, sourceInit := init, flags.hasSource := true }
  | filter =>
    let (name, init) := parseCompoundValue value s.filterName s.filterInit
    { s with filterName := name, filterInit := init, flags.hasFilter := true }
  | backend =>
    let (name, init) := parseCompoundValue value s.backendName s.backendInit
    { s with backendName := name, backendInit := init, flags.hasBackend := true }
  | enabled          => { s with flags.enabled := yes value }
  | bantime          => { s with bantime := positive value DEFAULT_BANTIME }
  | findtime         => { s with findtime := positive value DEFAULT_FINDTIME }
  | expiretime       => { s with expiretime := positive value DEFAULT_EXPIRETIME }
  | banscore         => { s with banscore := score value }
  | bantimeExtend    => { s with bantimeExtend := atof value }
  | findtimeExtend   => { s with findtimeExtend := atof value }
  | expiretimeExtend => { s with expiretimeExtend := atof value }

def all : List Key := [
  state, source, filter, backend, enabled, bantime, findtime, expiretime, banscore, bantimeExtend,
  findtimeExtend, expiretimeExtend]

theorem find?_name (k : Key) : all.find? (·.name = k.name) = some k := by
  cases k <;> decide

theorem name_injective {k₁ k₂ : Key} (h : k₁.name = k₂.name) : k₁ = k₂ := by
  have h₁ := find?_name k₁
  rw [h, find?_name k₂] at h₁
  exact (Option.some.inj h₁).symm

end Key

theorem applyParam_key (s : Settings) (k : Key) (value : CString) :
    applyParam atof s ⟨k.name, value⟩ = k.set atof s value := by
  cases k <;> rfl

theorem setParam_other (s : Settings) (name value : CString) (h : ∀ k : Key, name ≠ k.name) :
    (s.setParam atof name value).getD s = s := by
  rw [setParam, if_neg (show name ≠ "enabled".toList from h .enabled),
    if_neg (show name ≠ "bantime".toList from h .bantime), if_neg (show name ≠ "findtime".toList from h .findtime),
    if_neg (show name ≠ "expiretime".toList from h .expiretime),
    if_neg (show name ≠ "banscore".toList from h .banscore),
    if_neg (show name ≠ "bantime_extend".toList from h .bantimeExtend),
    if_neg (show name ≠ "findtime_extend".toList from h .findtimeExtend),
    if_neg (show name ≠ "expiretime_extend".toList from h .expiretimeExtend)]
  by_cases hd : name ∈ deprecated
  case pos => rw [if_pos hd]; rfl
  case neg => rw [if_neg hd]; rfl

theorem applyParam_other (s : Settings) (p : Config.Param) (h : ∀ k : Key, p.name ≠ k.name) :
    applyParam atof s p = s := by
  rw [applyParam, if_neg (show p.name ≠ "state".toList from h .state),
    if_neg (show p.name ≠ "source".toList from h .source), if_neg (show p.name ≠ "filter".toList from h .filter),
    if_neg (show p.name ≠ "backend".toList from h .backend)]
  exact setParam_other atof s p.name p.value h

theorem applyParam_cases (s : Settings) (p : Config.Param) :
    (∃ k : Key, p.name = k.name ∧ applyParam atof s p = k.set atof s p.value) ∨
    ((∀ k : Key, p.name ≠ k.name) ∧ applyParam atof s p = s) := by
  by_cases h : ∃ k : Key, p.name = k.name
  case pos =>
    have ⟨k, hk⟩ := h
    exact .inl ⟨k, hk, by rw [← applyParam_key, ← hk]⟩
  case neg =>
    push Not at h
    exact .inr ⟨h, applyParam_other atof s p h⟩

-- A field that only the option `k` writes. A value of it may write nothing (`value v = none`).
def keyField {α : Type} (k : Key) (get : Settings → α) (value : CString → Option α)
    (hk : ∀ s v, get (k.set atof s v) = (value v).getD (get s) := by intro _ _; rfl)
    (ho : ∀ k', k' ≠ k → ∀ s v, get (k'.set atof s v) = get s := by
      intro k _ _ _; cases k <;> first | rfl | contradiction) :
    Overwrite.Field (applyParam atof) α where
  get   := get
  write := fun p => if p.name = k.name then value p.value else none
  law s p := by
    obtain ⟨k', hn, hs⟩ | ⟨hn, hs⟩ := applyParam_cases atof s p <;> rw [hs]
    case inr => simp [hn k]
    case inl =>
      by_cases h : k' = k
      case pos => subst h; simp [hn, hk]
      case neg =>
        have hne : p.name ≠ k.name := fun he => h (Key.name_injective (hn.symm.trans he))
        simp [hne, ho k' h]

-- The parts of a `name:init_string` value that it writes, if any.
def compoundName (value : CString) : Option CString :=
  match value.strchr ':' with
  | none     => some (value.strlcpy CONFIG_KEY_MAX)
  | some len => if len ≥ CONFIG_KEY_MAX then none else some (value.strlcpy (len + 1))

def compoundInit (value : CString) : Option CString :=
  match value.strchr ':' with
  | none     => none
  | some len =>
    if len ≥ CONFIG_KEY_MAX then none
    else some (CString.strlcpy (value.drop (len + 1)) CONFIG_VAL_MAX)

theorem parseCompoundValue_eq (value name init : CString) :
    parseCompoundValue value name init =
    ((compoundName value).getD name, (compoundInit value).getD init) := by
  cases h : value.strchr ':'
  case none     => simp [parseCompoundValue, compoundName, compoundInit, h]
  case some len =>
    simp only [parseCompoundValue, compoundName, compoundInit, h]
    split <;> rfl

section Fields

open Overwrite

def enabledField : Field (applyParam atof) Bool :=
  keyField atof .enabled (·.flags.enabled) (some <| yes ·)

def hasStateField : Field (applyParam atof) Bool :=
  keyField atof .state (·.flags.hasState) (fun _ => some true)

def hasSourceField : Field (applyParam atof) Bool :=
  keyField atof .source (·.flags.hasSource) (fun _ => some true)

def hasFilterField : Field (applyParam atof) Bool :=
  keyField atof .filter (·.flags.hasFilter) (fun _ => some true)

def hasBackendField : Field (applyParam atof) Bool :=
  keyField atof .backend (·.flags.hasBackend) (fun _ => some true)

def banscoreField : Field (applyParam atof) Int :=
  keyField atof .banscore (·.banscore) (some <| score ·)

def findtimeField : Field (applyParam atof) Int :=
  keyField atof .findtime (·.findtime) (some <| positive · DEFAULT_FINDTIME)

def bantimeField : Field (applyParam atof) Int :=
  keyField atof .bantime (·.bantime) (some <| positive · DEFAULT_BANTIME)

def expiretimeField : Field (applyParam atof) Int :=
  keyField atof .expiretime (·.expiretime) (some <| positive · DEFAULT_EXPIRETIME)

def findtimeExtendField : Field (applyParam atof) Rat :=
  keyField atof .findtimeExtend (·.findtimeExtend) (some <| atof ·)

def bantimeExtendField : Field (applyParam atof) Rat :=
  keyField atof .bantimeExtend (·.bantimeExtend) (some <| atof ·)

def expiretimeExtendField : Field (applyParam atof) Rat :=
  keyField atof .expiretimeExtend (·.expiretimeExtend) (some <| atof ·)

def sourceNameField : Field (applyParam atof) CString :=
  keyField atof .source (·.sourceName) compoundName (by simp [Key.set, parseCompoundValue_eq])

def sourceInitField : Field (applyParam atof) CString :=
  keyField atof .source (·.sourceInit) compoundInit (by simp [Key.set, parseCompoundValue_eq])

def filterNameField : Field (applyParam atof) CString :=
  keyField atof .filter (·.filterName) compoundName (by simp [Key.set, parseCompoundValue_eq])

def filterInitField : Field (applyParam atof) CString :=
  keyField atof .filter (·.filterInit) compoundInit (by simp [Key.set, parseCompoundValue_eq])

def backendNameField : Field (applyParam atof) CString :=
  keyField atof .backend (·.backendName) compoundName (by simp [Key.set, parseCompoundValue_eq])

def backendInitField : Field (applyParam atof) CString :=
  keyField atof .backend (·.backendInit) compoundInit (by simp [Key.set, parseCompoundValue_eq])

end Fields
end F2b.Jail.Settings
