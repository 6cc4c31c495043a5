import F2b.Jail.Theorems.Lines
import F2b.Jail.Theorems.Pass

-- A running jail that is disabled through the control socket.

namespace F2b

variable {β : Type} [Backend β]

namespace Jail

variable {inet : Inet} {jail jail' : Jail} {w w' : World β}

-- The first call of `f2b_source_next` in a pass gives no line.
def Silent (jail : Jail) (feed : List (UInt32 × CString)) : Prop :=
  jail.settings.flags.hasSource → ∀ l ∈ feed.head?, l.1 = 0

theorem handed_eq_nil_iff {feed : List (UInt32 × CString)} : handed jail feed = [] ↔ Silent jail feed := by
  cases hs : jail.settings.flags.hasSource
  case false => simp [handed, Silent, hs]
  case true  =>
    cases feed
    case nil         => simp [handed, Silent]
    case cons l feed => simp [handed, Silent, hs, List.takeWhile_cons]

theorem gather_of_silent {feed : List (UInt32 × CString)} (filter : Filter) (now : Int) (w : World β)
    (h : Silent jail feed) : gather inet filter now feed jail w = .ok (jail, (w.call Backend.ping).2) := by
  simp only [gather]
  split
  case isFalse   => rfl
  case isTrue hs =>
    cases feed
    case nil         => rfl
    case cons l feed =>
      have hl : l.1 = 0 := h hs l rfl
      simp [poll, hl]

-- A pass that only looks after the bans there are.
structure Undisturbed (now : Int) (feed : List (UInt32 × CString)) (jail : Jail) (w : World β)
    (jail' : Jail) (w' : World β) : Prop where
  lines    : handed jail feed = []
  found    : jail'.stats.found = jail.stats.found
  bans     : jail'.stats.bans = jail.stats.bans
  hosts    : jail'.ipaddrs = (jail.ipaddrs.map (eased now)).filter (!jail.expired now ·)
  released : ∀ a ∈ jail'.ipaddrs, a.banned → now ≤ a.releaseAt
  calls    : w'.backend = releaseDue now jail.ipaddrs (Backend.ping w.backend).2

theorem undisturbed_iff_silent {filter : Filter} {now : Int} {feed : List (UInt32 × CString)}
    {fate : SaveFate} (h : process inet filter now feed fate jail w = .ok (jail', w')) :
    Undisturbed now feed jail w jail' w' ↔ Silent jail feed := by
  constructor
  case mp  => exact fun hu => handed_eq_nil_iff.mp hu.lines
  case mpr =>
    intro hs
    obtain ⟨jail₁, w₁, hg, hr⟩ := process_ok h
    obtain ⟨rfl, rfl⟩ := Prod.mk.inj (Except.ok.inj ((gather_of_silent filter now w hs).symm.trans hg))
    obtain ⟨hm, hc⟩ := maintain_eq jail now jail.ipaddrs (w.call Backend.ping).2
    let t := tidy now jail (w.call Backend.ping).2
    have hv := save_view fate t.1 t.2
    have hst : (save fate t.1 t.2).1.stats = t.1.stats := by
      simp only [save]
      split <;> rfl
    rw [← hr] at hv hst
    have hh : jail'.ipaddrs = (jail.ipaddrs.map (eased now)).filter (!jail.expired now ·) :=
      (congrArg Prod.fst hv).trans hm
    refine ⟨handed_eq_nil_iff.mpr hs, ?_, ?_, hh, ?_, (congrArg Prod.snd hv).trans hc⟩
    case refine_1 => exact (congrArg Stats.found hst :)
    case refine_2 => exact (congrArg Stats.bans hst :)
    case refine_3 =>
      intro a ha hb
      obtain ⟨ha, _⟩ := List.mem_filter.mp (hh ▸ ha)
      obtain ⟨b, _, rfl⟩ := List.mem_map.mp ha
      have hn := not_due_release jail now b w
      rw [release_fst] at hn
      exact hn hb

end Jail

namespace System

variable {env : Env} {s₀ s₁ s s' : System β} {op : Op} {ops : List Op}

-- What can happen before the jail is enabled again, or started anew.
def StaysOff : Op → Prop
  | .process ..      => True
  | .ip ..           => True
  | .set param value => ¬(param = "enabled".toList ∧ Jail.Settings.yes value)
  | .start ..        => False
  | .stop _          => False

theorem enabled_of_setParam {atof : CString → Rat} {s s' : Jail.Settings} {param value : CString}
    (h : s.setParam atof param value = some s') :
    s'.flags.enabled = if param = "enabled".toList then Jail.Settings.yes value else s.flags.enabled := by
  have hp := Jail.Settings.applyParam_of_setParam h
  obtain ⟨k, hk, he⟩ | ⟨hk, he⟩ := Jail.Settings.applyParam_cases atof s ⟨param, value⟩ <;> rw [← hp, he]
  case inl =>
    obtain rfl : param = _ := hk
    cases k <;> rfl
  case inr => rw [if_neg (show param ≠ "enabled".toList from hk .enabled)]

theorem enabled_of_set {param value : CString} (h : s.Step env (.set param value) s') :
    s'.jail.settings.flags.enabled =
      if param = "enabled".toList then Jail.Settings.yes value else s.jail.settings.flags.enabled := by
  simp only [Step, step] at h
  split at h
  case isFalse => cases h
  case isTrue  =>
    obtain rfl := Option.some.inj h
    simp only [Jail.cmdSet]
    cases hs : s.jail.settings.setParam env.atof param value
    case some settings => exact enabled_of_setParam hs
    case none          =>
      have hn : param ≠ "enabled".toList := by
        rintro rfl
        cases hs
      exact (if_neg hn).symm

theorem off_of_staysOff (h : s.Step env op s') (ho : StaysOff op)
    (hs : s.jail.settings.flags.enabled = false) : s'.jail.settings.flags.enabled = false := by
  cases op
  case start => exact ho.elim
  case stop  => exact ho.elim
  case process =>
    have ⟨_, _, _, hp⟩ := process_eq h
    rw [Jail.process_settings hp, hs]
  case ip now o ip =>
    have ⟨_, _, _, _, hp⟩ := ip_eq h
    have hc := Jail.cmdIp_settings env.inet env.status env.ressize o now ip s.jail s.world
    rw [hp] at hc
    rw [hc, hs]
  case set param value =>
    rw [enabled_of_set h]
    split
    case isTrue hp => exact Bool.eq_false_iff.mpr fun hv => ho ⟨hp, hv⟩
    case isFalse   => exact hs

-- After a jail has been disabled, and until it is enabled again or started anew, a pass only looks after
-- the bans there are if and only if the source has no line for it: the flag is not looked at.
theorem undisturbed_iff (h : s₀.Step env (.set "enabled".toList "no".toList) s₁)
    (e : Transition.Steps (Transition.Guarded (Step env) fun _ op => StaysOff op) s₁ ops s) :
    s.jail.settings.flags.enabled = false ∧
    ∀ filter now feed fate s', s.Step env (.process filter now feed fate) s' →
      (Jail.Undisturbed now feed s.jail s.world s'.jail s'.world ↔ Jail.Silent s.jail feed) := by
  have h₁ : s₁.jail.settings.flags.enabled = false := enabled_of_set h
  refine ⟨e.invariant (fun _ _ _ hs => off_of_staysOff hs.1 hs.2) h₁, fun _ _ _ _ _ hs => ?_⟩
  exact Jail.undisturbed_iff_silent (process_eq hs).2.2.2

section Example

def disabled : System Blocklist :=
  (Jail.sshStarted.step quadEnv (.set "enabled".toList "no".toList)).get (by decide)

def attack : List (UInt32 × CString) :=
  List.replicate 5 (7, "from 192.0.2.7".toList)

def attacked (feed : List (UInt32 × CString)) : Option (System Blocklist) :=
  disabled.step quadEnv (.process Jail.sshFilter 1001 feed .complete)

theorem undisturbed_disabled :
    ∃ s, attacked [] = some s ∧ Jail.Undisturbed 1001 [] disabled.jail disabled.world s.jail s.world := by
  have hs := (Option.some_get (show (attacked []).isSome by decide)).symm
  have h₁ : Jail.sshStarted.Step quadEnv (.set "enabled".toList "no".toList) disabled :=
    (Option.some_get _).symm
  exact ⟨_, hs, ((undisturbed_iff h₁ .refl).2 _ _ _ _ _ hs).mpr (by simp [Jail.Silent])⟩

-- The disabled jail bans the host.
theorem not_undisturbed :
    Jail.sshStarted.Step quadEnv (.set "enabled".toList "no".toList) disabled ∧
    ∃ s, attacked attack = some s ∧ ¬s.jail.settings.flags.enabled ∧
    "192.0.2.7".toList ∈ s.world.backend.blocked ∧
    ¬Jail.Undisturbed 1001 attack disabled.jail disabled.world s.jail s.world := by
  have hs := (Option.some_get (show (attacked attack).isSome by decide +kernel)).symm
  refine ⟨(Option.some_get _).symm, _, hs, by decide +kernel, by decide +kernel, fun h => ?_⟩
  exact absurd h.bans (by decide +kernel)

end Example
end System
end F2b
