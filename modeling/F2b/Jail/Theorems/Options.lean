import F2b.Jail.Theorems.System
import F2b.Lib.Decimal

-- The thresholds and the flags of a jail after the options that set them.

namespace F2b

namespace Config

def lastValue (name : CString) (ps : List Param) : Option CString :=
  (ps.filter (·.name = name)).getLast?.map (·.value)

end Config

namespace Jail.Settings

section Flags

variable (atof : CString → Rat)

theorem lastWrite_key {α : Type} (k : Key) (value : CString → α) (ps : List Config.Param) :
    (ps.filterMap fun p => if p.name = k.name then some (value p.value) else none).getLast? =
    (Config.lastValue k.name ps).map value := by
  have hf : (ps.filterMap fun p => if p.name = k.name then some (value p.value) else none) =
      (ps.filter (·.name = k.name)).map (value ·.value) := by
    rw [← List.filterMap_eq_map, List.filterMap_filter]
    simp
  rw [hf, List.getLast?_map, Config.lastValue, Option.map_map]
  rfl

-- The settings of a jail that has been created from its section on top of those of `[defaults]`.
theorem settings_create (defaults sec : Config.Section) :
    (create atof (builtin.applyConfig atof defaults) sec).settings =
    (defaults.param ++ sec.param).foldl (applyParam atof) builtin := by
  rw [List.foldl_append]
  rfl

-- The flags are those that the last occurrences ask for.
structure FollowsLast (flags : Flags) (ps : List Config.Param) : Prop where
  enabled  : flags.enabled ↔ Config.lastValue "enabled".toList ps = some "yes".toList
  hasState : flags.hasState ↔ Config.lastValue "state".toList ps = some "yes".toList

theorem enabled_eq (ps : List Config.Param) :
    (ps.foldl (applyParam atof) builtin).flags.enabled = (Config.lastValue "enabled".toList ps).any yes := by
  have hw : (enabledField atof).lastWrite ps = _ := lastWrite_key .enabled yes ps
  refine ((enabledField atof).get_foldl builtin ps).trans ?_
  rw [hw, show Key.enabled.name = "enabled".toList from rfl]
  cases Config.lastValue _ ps <;> rfl

theorem hasState_eq (ps : List Config.Param) :
    (ps.foldl (applyParam atof) builtin).flags.hasState = (Config.lastValue "state".toList ps).isSome := by
  have hw : (hasStateField atof).lastWrite ps = _ := lastWrite_key .state (fun _ => true) ps
  refine ((hasStateField atof).get_foldl builtin ps).trans ?_
  rw [hw, show Key.state.name = "state".toList from rfl]
  cases Config.lastValue _ ps <;> rfl

theorem any_yes_iff (v : Option CString) : v.any yes ↔ v = some "yes".toList := by
  cases v <;> simp [yes]

theorem isSome_iff_yes (v : Option CString) :
    (v.isSome ↔ v = some "yes".toList) ↔ ∀ value, v = some value → yes value := by
  cases v <;> simp [yes]

-- The flags follow the last occurrences if and only if the last 'state', where there is one, is 'yes'.
theorem followsLast_iff (defaults sec : Config.Section) :
    FollowsLast (create atof (builtin.applyConfig atof defaults) sec).settings.flags
      (defaults.param ++ sec.param) ↔
    ∀ v, Config.lastValue "state".toList (defaults.param ++ sec.param) = some v → yes v := by
  rw [settings_create, ← isSome_iff_yes, ← hasState_eq atof]
  constructor
  case mp  => exact FollowsLast.hasState
  case mpr => exact fun h => ⟨enabled_eq atof _ ▸ any_yes_iff _, h⟩

-- `state = no` in a jail does not turn off the `state = yes` of the defaults.
theorem state_not_followed :
    let ps : List Config.Param := [⟨"state".toList, "yes".toList⟩]
    let qs : List Config.Param := [⟨"state".toList, "no".toList⟩]
    ¬FollowsLast (create (fun _ => 0) (builtin.applyConfig (fun _ => 0) ⟨[], .defaults, ps⟩)
      ⟨"ssh".toList, .jail, qs⟩).settings.flags (ps ++ qs) :=
  fun h => absurd (h.hasState.mp (by decide)) (by decide)

end Flags

-- The numbers that the ban decision and the maintenance of hosts rely on.
inductive Threshold
  | bantime | findtime | expiretime | banscore
  deriving DecidableEq

namespace Threshold

def key : Threshold → Key
  | bantime    => .bantime
  | findtime   => .findtime
  | expiretime => .expiretime
  | banscore   => .banscore

def get (s : Settings) : Threshold → Int
  | bantime    => s.bantime
  | findtime   => s.findtime
  | expiretime => s.expiretime
  | banscore   => s.banscore

def default : Threshold → Int
  | bantime    => DEFAULT_BANTIME
  | findtime   => DEFAULT_FINDTIME
  | expiretime => DEFAULT_EXPIRETIME
  | banscore   => DEFAULT_BANSCORE

def max : Threshold → Int
  | banscore => 2 ^ 15 - 1
  | _        => 2 ^ 63 - 1

-- A value that is not positive or does not fit the field is to be replaced by the default.
def wanted (t : Threshold) (v : Int) : Int :=
  if 0 < v ∧ v ≤ t.max then v else t.default

def stored (v : Int) : Threshold → Int
  | banscore => if toShort v = 0 then DEFAULT_BANSCORE else toShort v
  | t        => if v ≤ 0 then t.default else v

theorem wanted_pos (t : Threshold) (v : Int) : 0 < t.wanted v := by
  simp only [wanted]
  split
  case isTrue h => exact h.1
  case isFalse  => cases t <;> decide

-- The value of `banscore` is kept, or it is replaced by the default.
def Exact (v : Int) : Prop :=
  (0 ≤ v ∧ v < 2 ^ 15) ∨ v % 2 ^ 16 = 0 ∨ v % 2 ^ 16 = DEFAULT_BANSCORE

theorem stored_eq_wanted_iff (t : Threshold) {v : Int} (h : v < 2 ^ 31) :
    t.stored v = t.wanted v ↔ (t = banscore → Exact v) := by
  cases t
  case banscore => grind [stored, wanted, max, default, toShort, Exact, DEFAULT_BANSCORE]
  all_goals
    have hm : v ≤ 2 ^ 63 - 1 := by omega
    refine iff_of_true ?_ (by simp)
    by_cases hv : v ≤ 0
    case pos => exact (if_pos hv).trans (if_neg fun h => by omega).symm
    case neg => exact (if_neg hv).trans (if_pos ⟨by omega, hm⟩).symm

end Threshold

structure Call where
  param : CString
  value : CString.Decimal

section Calls

variable (atof : CString → Rat)

def call (s : Settings) (c : Call) : Settings :=
  (s.setParam atof c.param c.value.text).getD s

theorem get_call (s : Settings) (c : Call) (t : Threshold) :
    t.get (s.call atof c) = if c.param = t.key.name then t.stored c.value.val else t.get s := by
  obtain ⟨param, value⟩ := c
  split
  case isTrue h =>
    obtain rfl : param = t.key.name := h
    have ha := value.atoi_text
    cases t
    case banscore => exact (congrArg (fun v => if toShort v = 0 then _ else toShort v) ha :)
    all_goals exact (congrArg (fun v => if v ≤ 0 then _ else v) ha :)
  case isFalse h =>
    simp only [call]
    cases hs : s.setParam atof param value.text
    case none   => rfl
    case some r =>
      rw [Option.getD_some, ← applyParam_of_setParam hs]
      obtain ⟨k, hk, he⟩ | ⟨_, he⟩ := applyParam_cases atof s ⟨param, value.text⟩ <;> rw [he]
      case inl =>
        have hn : k ≠ t.key := fun hn => h (hk.trans (hn ▸ rfl))
        cases t <;> cases k <;> first | rfl | exact absurd rfl hn

-- What is to hold after a call.
structure Sound (c : Call) (s : Settings) : Prop where
  positive : ∀ t : Threshold, 0 < t.get s
  given    : ∀ t : Threshold, c.param = t.key.name → t.get s = t.wanted c.value.val

def Call.Exact (c : Call) : Prop :=
  c.param = "banscore".toList → Threshold.Exact c.value.val

variable {atof} {s : Settings} {c : Call} {calls : List Call}

theorem given_iff (s : Settings) (c : Call) :
    (∀ t : Threshold, c.param = t.key.name → t.get (s.call atof c) = t.wanted c.value.val) ↔ c.Exact := by
  have hl : c.value.val < 2 ^ 31 := c.value.lt
  constructor
  case mp =>
    intro h hc
    have hb := h .banscore hc
    rw [get_call, if_pos (show c.param = Threshold.banscore.key.name from hc)] at hb
    exact (Threshold.stored_eq_wanted_iff .banscore hl).mp hb rfl
  case mpr =>
    intro h t ht
    rw [get_call, if_pos ht, Threshold.stored_eq_wanted_iff t hl]
    rintro rfl
    exact h ht

theorem positive_call (hc : c.Exact) {t : Threshold} (h : 0 < t.get s) : 0 < t.get (s.call atof c) := by
  by_cases ht : c.param = t.key.name
  case pos => exact (given_iff s c).mpr hc t ht ▸ t.wanted_pos _
  case neg => rwa [get_call, if_neg ht]

theorem positive_calls (hc : ∀ c ∈ calls, c.Exact) {t : Threshold} (h : 0 < t.get s) :
    0 < t.get (calls.foldl (call atof) s) := by
  induction calls generalizing s
  case nil            => exact h
  case cons c cs hi =>
    have ⟨hc, hcs⟩ := List.forall_mem_cons.mp hc
    exact hi hcs (positive_call hc h)

-- Every call of a sequence leaves positive thresholds, and the one it sets as it should be, if and only if
-- no value of `banscore` is stored as another one.
theorem sound_calls_iff (h : ∀ t : Threshold, 0 < t.get s) :
    (∀ old c new, calls = old ++ c :: new → Sound c ((old ++ [c]).foldl (call atof) s)) ↔
    ∀ c ∈ calls, c.Exact := by
  constructor
  case mp =>
    intro hs c hc
    obtain ⟨old, new, rfl⟩ := List.append_of_mem hc
    have hg := (hs old c new rfl).given
    rw [List.foldl_append] at hg
    exact (given_iff _ c).mp hg
  case mpr =>
    rintro hc old c new rfl
    have hl : ∀ d ∈ old ++ [c], d.Exact := fun d hd =>
      hc d (List.append_cons old c new ▸ List.mem_append_left new hd)
    refine ⟨fun t => positive_calls hl (h t), ?_⟩
    rw [List.foldl_append]
    exact (given_iff _ c).mpr (hl c (List.mem_append_right _ List.mem_cons_self))

end Calls

section Example

def hundred : Call where
  param := "banscore".toList
  value := ⟨.absent, "100".toList, by decide, CString.forall_of_all (by decide), by decide, by decide⟩

def fortyThousand : Call where
  param := "banscore".toList
  value := ⟨.absent, "40000".toList, by decide, CString.forall_of_all (by decide), by decide, by decide⟩

theorem sound_hundred : Sound hundred (builtin.call (fun _ => 0) hundred) := by
  have hp : ∀ t : Threshold, 0 < t.get builtin := fun t => by cases t <;> decide
  have hc : ∀ c ∈ [hundred], c.Exact := fun c hc => by
    obtain rfl := List.mem_singleton.mp hc
    exact fun _ => .inl (by decide)
  have hs : ∀ old c new, [hundred] = old ++ c :: new →
      Sound c ((old ++ [c]).foldl (call fun _ => 0) builtin) :=
    (sound_calls_iff hp).mpr hc
  exact hs [] hundred [] rfl

-- A limit of 40000 becomes -25536, which every match reaches.
theorem wrapped_banscore :
    (builtin.call (fun _ => 0) fortyThousand).banscore = -25536 ∧
    ¬Sound fortyThousand (builtin.call (fun _ => 0) fortyThousand) := by
  have hb : (builtin.call (fun _ => 0) fortyThousand).banscore = -25536 := by decide
  exact ⟨hb, fun h => absurd (h.positive .banscore) (by rw [Threshold.get, hb]; decide)⟩

end Example
end Jail.Settings
end F2b
