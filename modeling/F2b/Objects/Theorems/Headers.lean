import F2b.Objects.Theorems.Loader

-- Section headers, compared with the sections that they lead to.

namespace F2b.Config

open Section (Id)

theorem startsWith_iff {line name : CString} : startsWith line name ↔ name <+: line := by
  rw [startsWith, CString.strncmpEq, beq_iff_eq, List.take_length, List.prefix_iff_eq_take, eq_comm]

namespace Header

-- The words that are a header on their own, and those that a name follows.
def alone : List (CString × SectionType) := [
  ("main".toList, .main), ("csocket".toList, .csocket), ("defaults".toList, .defaults)]

def named : List (CString × SectionType) := [
  ("source:".toList, .source), ("backend:".toList, .backend), ("filter:".toList, .filter),
  ("jail:".toList, .jail)]

def title (h : CString) : Option CString :=
  (CString.strchr (h.drop 1) ']').map ((h.drop 1).take ·)

-- The section that a title names.
def meaning (title : CString) : Option Id :=
  match alone.find? (·.1 = title) with
  | some (_, t) => some (t, [])
  | none        => (named.find? (startsWith title ·.1)).map fun w => (w.2, title.drop w.1.length)

def spec (h : CString) : Option Id :=
  (title h).bind meaning

def made (title : CString) : Option Section :=
  match alone.find? (startsWith title ·.1) with
  | some (_, t) => some ⟨[], t, []⟩
  | none        => (named.find? (startsWith title ·.1)).map fun w =>
      ⟨CString.strlcpy (title.drop w.1.length) CONFIG_KEY_MAX, w.2, []⟩

end Header

open Header

theorem sectionOf_eq (line : CString) :
    sectionOf line = ((line.strchr ']').map (line.take ·)).bind made := by
  cases hl : line.strchr ']'
  case none     => simp [sectionOf, hl]
  case some len =>
    simp only [sectionOf, hl, made, alone, named, List.find?, Option.map_some, Option.bind_some]
    repeat' split
    all_goals simp_all

namespace Header

theorem eq_of_startsWith {t : CString} {v w : CString × SectionType} (hv : v ∈ alone ++ named)
    (hw : w ∈ alone ++ named) (h₁ : startsWith t v.1) (h₂ : startsWith t w.1) : v = w := by
  have hd : ∀ v ∈ alone ++ named, ∀ w ∈ alone ++ named, v.1.isPrefixOf w.1 → v = w := by decide
  obtain h | h := List.prefix_or_prefix_of_prefix (startsWith_iff.mp h₁) (startsWith_iff.mp h₂)
  case inl => exact hd v hv w hw (List.isPrefixOf_iff_prefix.mpr h)
  case inr => exact (hd w hw v hv (List.isPrefixOf_iff_prefix.mpr h)).symm

theorem startsWith_self (t : CString) : startsWith t t :=
  startsWith_iff.mpr (List.prefix_refl t)

theorem find?_eq_some {α : Type} {l : List α} {q : α → Bool} {a : α} (ha : a ∈ l) (hq : q a)
    (hu : ∀ b ∈ l, q b → b = a) : l.find? q = some a := by
  cases hf : l.find? q
  case none   => exact absurd hq (List.find?_eq_none.mp hf a ha)
  case some b => rw [hu b (List.mem_of_find?_eq_some hf) (List.find?_some hf)]

variable {h t : CString} {w : CString × SectionType}

theorem made_alone (hw : w ∈ alone) (hs : startsWith t w.1) : made t = some ⟨[], w.2, []⟩ := by
  have hf : alone.find? (startsWith t ·.1) = some w :=
    find?_eq_some hw hs fun v hv hs' =>
      eq_of_startsWith (List.mem_append_left _ hv) (List.mem_append_left _ hw) hs' hs
  simp only [made, hf]

theorem meaning_alone (hw : w ∈ alone) (hs : startsWith t w.1) :
    meaning t = if t = w.1 then some (w.2, []) else none := by
  have hd : ∀ v ∈ alone, v ∉ named := by decide
  have hu : ∀ v ∈ alone, t = v.1 → v = w := fun v hv he =>
    eq_of_startsWith (List.mem_append_left _ hv) (List.mem_append_left _ hw) (he ▸ startsWith_self t) hs
  split
  case isTrue he  =>
    have hf : alone.find? (·.1 = t) = some w :=
      find?_eq_some hw (by simpa using he.symm) fun v hv h => hu v hv (of_decide_eq_true h).symm
    simp only [meaning, hf]
  case isFalse he =>
    have ha : alone.find? (·.1 = t) = none := List.find?_eq_none.mpr fun v hv h =>
      he (hu v hv (of_decide_eq_true h).symm ▸ (of_decide_eq_true h).symm)
    have hn : named.find? (startsWith t ·.1) = none := List.find?_eq_none.mpr fun v hv hs' => by
      obtain rfl := eq_of_startsWith (List.mem_append_right _ hv) (List.mem_append_left _ hw) hs' hs
      exact hd v hw hv
    simp only [meaning, ha, hn]
    rfl

theorem made_other (hn : ∀ w ∈ alone, ¬startsWith t w.1) :
    made t = (meaning t).map fun id => ⟨CString.strlcpy id.2 CONFIG_KEY_MAX, id.1, []⟩ := by
  have h₁ : alone.find? (startsWith t ·.1) = none := List.find?_eq_none.mpr hn
  have h₂ : alone.find? (·.1 = t) = none := List.find?_eq_none.mpr fun w hw h =>
    hn w hw (of_decide_eq_true h ▸ startsWith_self t)
  simp only [made, meaning, h₁, h₂, Option.map_map]
  rfl

end Header

theorem sectionCreate_eq (h : CString) :
    sectionCreate h = (title h).bind fun t => if t.length < CONFIG_LINE_MAX - 1 then made t else none := by
  rw [sectionCreate, sectionOf_eq, title]
  generalize h.drop 1 = s
  have hs : CString.strchr (CString.strlcpy s CONFIG_LINE_MAX) ']' =
      (CString.strchr s ']').bind (Option.guard (· < CONFIG_LINE_MAX - 1)) := List.findIdx?_take
  cases hc : CString.strchr s ']'
  case none     => rw [hs, hc]; rfl
  case some len =>
    have ⟨hl, _⟩ := List.findIdx?_eq_some_iff_getElem.mp hc
    have hl : (s.take len).length = len := List.length_take_of_le (Nat.le_of_lt hl)
    rw [hs, hc, Option.map_some, Option.bind_some, Option.bind_some, hl]
    by_cases h : len < CONFIG_LINE_MAX - 1
    case pos =>
      have ht : (CString.strlcpy s CONFIG_LINE_MAX).take len = s.take len := by
        rw [CString.strlcpy, List.take_take, Nat.min_eq_left (Nat.le_of_lt h)]
      simp [Option.guard, h, ht]
    case neg => simp [Option.guard, h]

-- The header is within reach of the buffer and a word on its own is all of its title, or it is rejected
-- with good reason.
def Recognised (h : CString) : Prop :=
  ∀ t, title h = some t →
    if t.length < CONFIG_LINE_MAX - 1 then ∀ w ∈ alone, startsWith t w.1 → t = w.1 else meaning t = none

instance (h : CString) : Decidable (Recognised h) :=
  inferInstanceAs <| Decidable <| ∀ t ∈ title h,
    if t.length < CONFIG_LINE_MAX - 1 then ∀ w ∈ alone, startsWith t w.1 → t = w.1 else meaning t = none

theorem sectionCreate_of_recognised {h : CString} (hr : Recognised h) :
    sectionCreate h = (spec h).map fun id => ⟨CString.strlcpy id.2 CONFIG_KEY_MAX, id.1, []⟩ := by
  rw [sectionCreate_eq, spec]
  cases ht : title h
  case none   => rfl
  case some t =>
    have hr := hr t ht
    simp only [Option.bind_some]
    split_ifs at hr ⊢
    case neg => rw [hr]; rfl
    case pos =>
      by_cases ha : ∃ w ∈ alone, startsWith t w.1
      case pos =>
        have ⟨w, hw, hs⟩ := ha
        rw [made_alone hw hs, meaning_alone hw hs, if_pos (hr w hw hs)]
        rfl
      case neg => exact made_other fun w hw hs => ha ⟨w, hw, hs⟩

theorem recognised_iff (h : CString) : ((sectionCreate h).isSome ↔ (spec h).isSome) ↔ Recognised h := by
  constructor
  case mp  =>
    intro hi t ht
    rw [sectionCreate_eq, spec, ht, Option.bind_some, Option.bind_some] at hi
    split
    case isTrue hl =>
      intro w hw hs
      rw [if_pos hl, made_alone hw hs, meaning_alone hw hs] at hi
      by_contra hn
      rw [if_neg hn] at hi
      exact absurd (hi.mp rfl) (by decide)
    case isFalse hl =>
      rw [if_neg hl] at hi
      exact Option.isNone_iff_eq_none.mp (by simpa using hi)
  case mpr =>
    intro hr
    rw [sectionCreate_of_recognised hr, Option.isSome_map]

def IsHeader (line : CString) : Prop :=
  (strip line).head? = some '['

theorem classify_header {line : CString} (h : IsHeader line) :
    classify line = some (.header (sectionCreate (strip line))) := by
  cases hs : strip line
  case nil      => simp [IsHeader, hs] at h
  case cons c s =>
    obtain rfl : c = '[' := by simpa [IsHeader, hs] using h
    simp [classify, hs, itemOf]

namespace Loader

def after (es : List (Option CString)) (line : CString) (st : Loader) : Loader :=
  (es.foldl step st).read line

-- Two headers, with other files and lines before the first one and between them.
structure SameSections (before between : List (Option CString)) (line₁ line₂ : CString) : Prop where
  known₁ : (after before line₁ ⟨empty, none⟩).current.isSome ↔ (spec (strip line₁)).isSome
  known₂ : (after between line₂ (after before line₁ ⟨empty, none⟩)).current.isSome ↔
    (spec (strip line₂)).isSome
  same   : ∀ r₁ r₂, (after before line₁ ⟨empty, none⟩).current = some r₁ →
    (after between line₂ (after before line₁ ⟨empty, none⟩)).current = some r₂ →
    (r₁ = r₂ ↔ spec (strip line₁) = spec (strip line₂))

def Apart (h₁ h₂ : CString) : Prop :=
  ∀ t n₁ n₂, spec h₁ = some (t, n₁) → spec h₂ = some (t, n₂) →
    CString.strlcpy n₁ CONFIG_KEY_MAX = CString.strlcpy n₂ CONFIG_KEY_MAX → n₁ = n₂

variable {st : Loader} {cur : Option Id} {before between : List (Option CString)}
variable {line line₁ line₂ : CString}

theorem current_after (es : List (Option CString)) (hg : Good st cur) (hl : IsHeader line) :
    Good (after es line st) ((sectionCreate (strip line)).map Section.id) := by
  have hc := classify_header hl
  have := good_act (good_steps hg es) (item_fresh hc)
  rwa [after, read, hc]

theorem isSome_after (es : List (Option CString)) (hg : Good st cur) (hl : IsHeader line) :
    (after es line st).current.isSome ↔ (sectionCreate (strip line)).isSome := by
  have hr := (current_after es hg hl).current
  generalize (after es line st).current = r at hr
  cases hs : sectionCreate (strip line) <;> rw [hs] at hr <;> cases hr <;> simp

theorem same_iff (hg : Good st cur) {sec₁ sec₂ : Section} {r₁ r₂ : Ref} (hl₁ : IsHeader line₁)
    (hl₂ : IsHeader line₂) (hs₁ : sectionCreate (strip line₁) = some sec₁)
    (hs₂ : sectionCreate (strip line₂) = some sec₂)
    (hr₁ : (after before line₁ st).current = some r₁)
    (hr₂ : (after between line₂ (after before line₁ st)).current = some r₂) :
    r₁ = r₂ ↔ sec₁.id = sec₂.id := by
  have hg₁ := current_after before hg hl₁
  have hg₂ := current_after between hg₁ hl₂
  have h₁ := hg₁.current
  have h₂ := hg₂.current
  rw [hr₁, hs₁, Option.map_some, Option.rel_some_some] at h₁
  rw [hr₂, hs₂, Option.map_some, Option.rel_some_some] at h₂
  have hc := classify_header hl₂
  have h₁ : (after between line₂ (after before line₁ st)).config.ref sec₁.id = some r₁ := by
    rw [after, read, hc]
    exact ref_act (good_steps hg₁ between) (item_fresh hc) (ref_steps hg₁ between h₁)
  constructor
  case mp  => rintro rfl; exact ref_inj h₁ h₂
  case mpr => exact fun he => Option.some.inj (h₁.symm.trans (he ▸ h₂))

-- Headers lead to the same section if and only if they name the same one, provided that they are recognised
-- as they should be and that the names do not differ after the bytes that are kept only.
theorem sameSections_iff (h₁ : IsHeader line₁) (h₂ : IsHeader line₂) :
    SameSections before between line₁ line₂ ↔
    Recognised (strip line₁) ∧ Recognised (strip line₂) ∧ Apart (strip line₁) (strip line₂) := by
  have hg₀ : Good ⟨empty, none⟩ none := good_none valid_empty
  have hg₁ := current_after before hg₀ h₁
  have hr : ∀ {h id}, Recognised h → spec h = some id →
      sectionCreate h = some ⟨CString.strlcpy id.2 CONFIG_KEY_MAX, id.1, []⟩ := fun hr hs => by
    rw [sectionCreate_of_recognised hr, hs, Option.map_some]
  constructor
  case mp  =>
    intro ⟨hk₁, hk₂, hs⟩
    rw [isSome_after before hg₀ h₁, recognised_iff] at hk₁
    rw [isSome_after between hg₁ h₂, recognised_iff] at hk₂
    refine ⟨hk₁, hk₂, fun t n₁ n₂ hn₁ hn₂ he => ?_⟩
    have hs₁ := hr hk₁ hn₁
    have hs₂ := hr hk₂ hn₂
    obtain ⟨r₁, hr₁⟩ := Option.isSome_iff_exists.mp ((isSome_after before hg₀ h₁).mpr (by simp [hs₁]))
    obtain ⟨r₂, hr₂⟩ := Option.isSome_iff_exists.mp ((isSome_after between hg₁ h₂).mpr (by simp [hs₂]))
    have hi := (same_iff hg₀ h₁ h₂ hs₁ hs₂ hr₁ hr₂).mpr (Prod.ext rfl he)
    have := (hs r₁ r₂ hr₁ hr₂).mp hi
    rw [hn₁, hn₂] at this
    exact (Prod.mk.inj (Option.some.inj this)).2
  case mpr =>
    intro ⟨hk₁, hk₂, ha⟩
    refine ⟨?_, ?_, fun r₁ r₂ hr₁ hr₂ => ?_⟩
    case refine_1 => rwa [isSome_after before hg₀ h₁, recognised_iff]
    case refine_2 => rwa [isSome_after between hg₁ h₂, recognised_iff]
    case refine_3 =>
      have hi₁ := (isSome_after before hg₀ h₁).mp (by simp [hr₁])
      have hi₂ := (isSome_after between hg₁ h₂).mp (by simp [hr₂])
      obtain ⟨⟨t₁, n₁⟩, hn₁⟩ := Option.isSome_iff_exists.mp (((recognised_iff _).mpr hk₁).mp hi₁)
      obtain ⟨⟨t₂, n₂⟩, hn₂⟩ := Option.isSome_iff_exists.mp (((recognised_iff _).mpr hk₂).mp hi₂)
      rw [same_iff hg₀ h₁ h₂ (hr hk₁ hn₁) (hr hk₂ hn₂) hr₁ hr₂, hn₁, hn₂, Option.some_inj]
      constructor
      case mp  =>
        intro he
        obtain ⟨rfl, he⟩ := Prod.mk.inj he
        rw [ha t₁ n₁ n₂ hn₁ hn₂ he]
      case mpr =>
        intro he
        obtain ⟨rfl, rfl⟩ := Prod.mk.inj he
        rfl

section Example

theorem sameSections_jails :
    SameSections [none] [some "enabled = yes".toList] "[jail:ssh]".toList "[jail:sshd] # web".toList := by
  have h₁ : IsHeader "[jail:ssh]".toList := rfl
  have h₂ : IsHeader "[jail:sshd] # web".toList := rfl
  refine (sameSections_iff h₁ h₂).mpr ⟨by decide, by decide, fun t n₁ n₂ h₁ h₂ => ?_⟩
  obtain ⟨rfl, rfl⟩ := Prod.mk.inj (Option.some.inj h₁)
  obtain ⟨_, rfl⟩ := Prod.mk.inj (Option.some.inj h₂)
  decide

-- `[mainframe]` is read as `[main]`, and two jails whose names agree in 31 bytes are one.
theorem not_sameSections :
    ¬SameSections [none] [] "[mainframe]".toList "[main]".toList ∧
    ¬SameSections [none] [] "[jail:abcdefghijklmnopqrstuvwxyz012345]".toList
      "[jail:abcdefghijklmnopqrstuvwxyz012346]".toList := by
  constructor
  case left  => exact fun h => absurd (h.known₁.mp (by decide)) (by decide)
  case right => exact fun h => absurd ((h.same ⟨.jail, 0⟩ ⟨.jail, 0⟩ (by decide) (by decide)).mp rfl) (by decide)

end Example
end Loader
end F2b.Config
