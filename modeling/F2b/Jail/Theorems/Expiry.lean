import F2b.Jail.Theorems.Lines
import F2b.Jail.Theorems.Pass

-- How long a host is remembered after its ban.

namespace F2b.Jail

variable {β : Type}

-- A pass with all that it reads, the world among it: other jails may have worked on it before.
structure Pass (β : Type) where
  filter : Filter
  now    : Int
  feed   : List (UInt32 × CString)
  fate   : SaveFate
  world  : World β

def Passed [Backend β] (inet : Inet) (jail : Jail) (c : Pass β) (jail' : Jail) : Prop :=
  ∃ w', process inet c.filter c.now c.feed c.fate jail c.world = .ok (jail', w')

-- No line of the pass makes a match of the host.
def Inactive (a : Ipaddr) (jail : Jail) (c : Pass β) : Prop :=
  ¬Captured c.filter c.feed jail a.text

-- The list still has the record of the ban, or what its release leaves of it.
def Remembered (a : Ipaddr) (jail : Jail) : Prop :=
  a ∈ jail.ipaddrs ∨ released a ∈ jail.ipaddrs

-- A pass after the ban was over.
def Over (a : Ipaddr) (passes : List (Pass β)) : Prop :=
  ∃ c ∈ passes, a.releaseAt < c.now

variable {inet : Inet} {a : Ipaddr} {jail₀ jail jail' : Jail} {passes : List (Pass β)} {c : Pass β}

theorem eased_released (now : Int) (a : Ipaddr) : eased now (released a) = released a :=
  if_neg (by simp [released])

theorem eased_of_le {now : Int} (h : now ≤ a.releaseAt) : eased now a = a :=
  if_neg (by simp [h])

theorem eased_of_lt {now : Int} (hb : a.banned) (h : a.releaseAt < now) : eased now a = released a :=
  if_pos (by simp [hb, h])

theorem over_concat : Over a (passes ++ [c]) ↔ Over a passes ∨ a.releaseAt < c.now := by
  simp [Over, or_and_right, exists_or]

-- The record of the ban is there up to the first pass after it, and in no pass from there on.
structure Lingers (a : Ipaddr) (expiretime : Int) (passes : List (Pass β)) (jail : Jail) : Prop where
  expiretime : jail.settings.expiretime = expiretime
  before     : ¬Over a passes → a ∈ jail.ipaddrs
  after      : Over a passes → a ∉ jail.ipaddrs

variable [Backend β] {expiretime : Int}

theorem Lingers.step (h : Lingers a expiretime passes jail) (hb : a.banned) (hl : a.text.length < IPADDR_MAX)
    (he : 0 ≤ expiretime) (hs : Transition.Guarded (Passed inet) (Inactive a) jail c jail') :
    Lingers a expiretime (passes ++ [c]) jail' := by
  have ⟨⟨_, hp⟩, hi⟩ := hs
  have hm := mem_process_iff hl hi hp
  refine ⟨(congrArg Settings.expiretime (process_settings hp)).trans h.expiretime, fun hn => ?_, fun ho ha => ?_⟩
  case refine_1 =>
    have ⟨hn, hc⟩ := not_or.mp (over_concat.not.mp hn)
    have hc := Int.not_lt.mp hc
    refine hm.mpr ⟨⟨a, h.before hn, eased_of_le hc⟩, fun hx => ?_⟩
    have := le_of_expired hx
    have := h.expiretime
    omega
  case refine_2 =>
    obtain ⟨⟨b, hb', hba⟩, _⟩ := hm.mp ha
    obtain ⟨rfl, hle⟩ := released_of_eased hb hba
    obtain ho | hc := over_concat.mp ho
    case inl => exact h.after ho hb'
    case inr => omega

theorem Lingers.stays_iff (h : Lingers a expiretime passes jail) (hb : a.banned)
    (hl : a.text.length < IPADDR_MAX) (he : 0 ≤ expiretime)
    (hs : Transition.Guarded (Passed inet) (Inactive a) jail c jail') (hr : Remembered a jail)
    (ho : Over a (passes ++ [c])) : Remembered a jail' ↔ c.now ≤ max a.lastseen 0 + expiretime := by
  have hn := (h.step hb hl he hs).after ho
  have ⟨⟨_, hp⟩, hi⟩ := hs
  have hm : released a ∈ jail'.ipaddrs ↔ _ := mem_process_iff (a := released a) hl hi hp
  have hk : ∃ b ∈ jail.ipaddrs, eased c.now b = released a := by
    obtain ha | ha := hr
    case inr => exact ⟨_, ha, eased_released ..⟩
    case inl =>
      obtain ho | hc := over_concat.mp ho
      case inl => exact absurd ha (h.after ho)
      case inr => exact ⟨a, ha, eased_of_lt hb hc⟩
  have hx : jail.expired c.now (released a) ↔ _ := expired_iff ..
  rw [h.expiretime] at hx
  rw [Remembered, or_iff_right hn, hm, and_iff_right hk, hx, Int.not_lt]
  rfl

-- A host that has been banned and that matches no more is not forgotten in a pass before the end of
-- the period after its release if and only if the ban is not over yet, or the pass is early enough
-- for the time that the host was last seen.
theorem remembered_iff (ha : a ∈ jail₀.ipaddrs) (hb : a.banned) (hl : a.text.length < IPADDR_MAX)
    (he : 0 ≤ jail₀.settings.expiretime)
    (e : Transition.Steps (Transition.Guarded (Passed inet) (Inactive a)) jail₀ passes jail)
    (hr : Remembered a jail) (hs : Transition.Guarded (Passed inet) (Inactive a) jail c jail') :
    (c.now ≤ a.releaseAt + jail₀.settings.expiretime → Remembered a jail') ↔
    (Over a (passes ++ [c]) → c.now ≤ a.releaseAt + jail₀.settings.expiretime →
      c.now ≤ max a.lastseen 0 + jail₀.settings.expiretime) := by
  have h₀ : Lingers a jail₀.settings.expiretime ([] : List (Pass β)) jail₀ :=
    ⟨rfl, fun _ => ha, fun ho => by simp [Over] at ho⟩
  have h := e.history (fun _ _ _ _ hs h => h.step hb hl he hs) h₀
  rw [List.nil_append] at h
  by_cases ho : Over a (passes ++ [c])
  case pos => rw [h.stays_iff hb hl he hs hr ho, forall_prop_of_true ho]
  case neg => exact iff_of_true (fun _ => .inl ((h.step hb hl he hs).before ho)) fun h => absurd h ho

section Example

def banning : System Blocklist :=
  (sshStarted.step System.quadEnv (.ip 1001 1 "192.0.2.7".toList)).get (by decide)

theorem banning_reachable :
    Transition.Reachable (fun s : System Blocklist => s.up = false) (System.Step System.quadEnv) banning :=
  have ⟨_, _, hi, e⟩ := sshStarted_reachable
  ⟨_, _, hi, e.append (.step (Option.some_get _).symm .refl)⟩

def host : Ipaddr :=
  banning.jail.ipaddrs.head (by decide)

def quiet (now : Int) : Pass Blocklist :=
  ⟨sshFilter, now, [], .complete, banning.world⟩

def quietPass (now : Int) (jail : Jail) : Option Jail :=
  (process System.quadEnv.inet sshFilter now [] .complete jail banning.world).toOption.map (·.1)

theorem passed_quiet {now : Int} {jail jail' : Jail} (h : quietPass now jail = some jail') :
    Transition.Guarded (Passed System.quadEnv.inet) (Inactive host) jail (quiet now) jail' := by
  have ⟨⟨_, w'⟩, hp, he⟩ := Option.map_eq_some_iff.mp h
  subst he
  refine ⟨⟨w', ?_⟩, fun ⟨_, hl, _⟩ => by simp [quiet, handed] at hl⟩
  cases hr : process System.quadEnv.inet sshFilter now [] .complete jail banning.world
  case error => simp [hr, Except.toOption] at hp
  case ok r  =>
    simp only [hr, Except.toOption, Option.some.injEq] at hp
    exact hp ▸ hr

def eased₁ : Jail :=
  (quietPass 4602 banning.jail).get (by decide)

theorem remembered_host :
    ∃ jail, quietPass 15401 eased₁ = some jail ∧ Remembered host jail := by
  have h := (Option.some_get (show (quietPass 15401 eased₁).isSome by decide)).symm
  have h₁ : Transition.Guarded (Passed System.quadEnv.inet) (Inactive host) banning.jail (quiet 4602) eased₁ :=
    passed_quiet (Option.some_get (by decide)).symm
  refine ⟨_, h, ?_⟩
  exact (remembered_iff (List.head_mem _) (by decide) (by decide) (by decide) (.step h₁ .refl)
    (.inr (by decide)) (passed_quiet h)).mpr (fun _ _ => by decide) (by decide)

-- The host is forgotten an hour too early.
theorem not_remembered :
    Transition.Reachable (fun s : System Blocklist => s.up = false) (System.Step System.quadEnv) banning ∧
    host ∈ banning.jail.ipaddrs ∧ host.banned ∧ Remembered host eased₁ ∧
    Transition.Guarded (Passed System.quadEnv.inet) (Inactive host) banning.jail (quiet 4602) eased₁ ∧
    ∃ jail, Transition.Guarded (Passed System.quadEnv.inet) (Inactive host) eased₁ (quiet 15402) jail ∧
    15402 ≤ host.releaseAt + banning.jail.settings.expiretime ∧ ¬Remembered host jail := by
  have h := (Option.some_get (show (quietPass 15402 eased₁).isSome by decide)).symm
  refine ⟨banning_reachable, List.head_mem _, by decide, .inr (by decide),
    passed_quiet (Option.some_get (by decide)).symm, _, passed_quiet h, by decide, ?_⟩
  rintro (hm | hm) <;> revert hm <;> decide

end Example

end F2b.Jail
