import F2b.Lib.Words
import F2b.Objects.Theorems.Definitions
import F2b.Objects.Theorems.Params

-- What the values of the options of a loaded config have in common.

namespace F2b.Config

open CString Words

-- A value is part of a line, and no blank begins or ends it.
structure IsValue (v : CString) : Prop where
  nonempty : v ≠ []
  short    : v.length < CONFIG_VAL_MAX
  head     : ∀ c ∈ v.head?, isblank c = false
  last     : ∀ c ∈ v.getLast?, isblank c = false
  line     : ∀ c ∈ v, c ≠ nul ∧ c ≠ '\n' ∧ c ≠ '\r'

variable {line rest v : CString} {p : Param}

theorem head_valueIn (rest : CString) : ∀ c ∈ (valueIn rest).head?, isblank c = false := by
  intro c hc
  obtain ⟨t, ht⟩ := valueIn_prefix rest
  refine head_dropWhile isblank rest c ?_
  rw [← ht, List.head?_append, hc]
  rfl

theorem last_valueIn (rest : CString) : ∀ c ∈ (valueIn rest).getLast?, isblank c = false := by
  have hh := head_valueIn rest
  rw [valueIn] at hh ⊢
  cases hs : cutComment (rest.dropWhile isblank)
  case nil      => simp [stripSpaces]
  case cons a s =>
    rw [hs] at hh
    intro c hc
    rw [stripSpaces] at hc hh
    by_cases hd : s.rdropWhile isspace = []
    case pos =>
      rw [hd] at hc
      obtain rfl := Option.some.inj hc
      exact hh a rfl
    case neg =>
      rw [List.getLast?_cons_of_ne_nil hd, List.getLast?_eq_some_getLast hd] at hc
      obtain rfl := Option.some.inj hc
      have := List.rdropWhile_last_not isspace s hd
      simp only [isspace, Bool.or_eq_true, not_or] at this
      simpa using this.1.1.1.1

theorem value_of_paramOf (h : paramOf line = some p) :
    ∃ rest, rest ⊆ line ∧ p.value = valueIn rest ∧ 1 ≤ p.value.length ∧ p.value.length < CONFIG_VAL_MAX := by
  cases hs : strchr line '='
  case none    => simp [paramOf, hs] at h
  case some eq =>
    obtain ⟨head, rest, rfl, hn, rfl⟩ := strchr_eq_some_iff.mp hs
    rw [paramOf_split hn] at h
    simp only [] at h
    split_ifs at h with _ hv
    obtain rfl := Option.some.inj h
    obtain ⟨h₁, h₂⟩ := not_or.mp hv
    exact ⟨rest, by simp, rfl, Nat.le_of_not_lt h₁, Nat.lt_of_not_le h₂⟩

theorem mem_strip {c : Char} (h : c ∈ strip line) : c ∈ line ∧ c ≠ '\n' ∧ c ≠ '\r' := by
  have hd := (List.dropWhile_sublist _).subset h
  have ht := (List.takeWhile_prefix _).subset hd
  have hn := List.mem_takeWhile_imp hd
  have hr := List.mem_takeWhile_imp ht
  exact ⟨(List.takeWhile_prefix _).subset ht, by simpa using hn, by simpa using hr⟩

theorem paramOf_of_classify (h : classify line = some (.pair p)) :
    paramOf (strlcpy (strip line) CONFIG_LINE_MAX) = some p := by
  rw [classify] at h
  cases hs : strip line
  case nil      => rw [hs] at h; cases h
  case cons c s =>
    rw [hs, itemOf] at h
    split_ifs at h
    · cases h
    · obtain ⟨q, hq, he⟩ := Option.map_eq_some_iff.mp h
      exact Item.pair.inj he ▸ hq

theorem isValue_of_classify (h0 : nul ∉ line) (h : classify line = some (.pair p)) : IsValue p.value := by
  obtain ⟨rest, hs, hv, hn, hl⟩ := value_of_paramOf (paramOf_of_classify h)
  refine ⟨List.ne_nil_of_length_pos hn, hl, hv ▸ head_valueIn rest, hv ▸ last_valueIn rest, fun c hc => ?_⟩
  have hp := valueIn_prefix rest
  have hr : c ∈ rest := (List.dropWhile_sublist _).subset (hp.subset (hv ▸ hc))
  have ⟨hm, hnl, hcr⟩ := mem_strip ((List.take_sublist ..).subset (hs hr))
  exact ⟨fun he => h0 (he ▸ hm), hnl, hcr⟩

theorem classify_of_mem_defs {id : Section.Id} {cur : Option Section.Id} {es : List (Option CString)}
    (h : p ∈ Loader.defs id cur es) : ∃ line, some line ∈ es ∧ classify line = some (.pair p) := by
  induction es generalizing cur
  case nil          => cases h
  case cons e es hi =>
    rw [Loader.defs, List.mem_append] at h
    obtain h | h := h
    case inr =>
      obtain ⟨line, hm, hc⟩ := hi h
      exact ⟨line, List.mem_cons_of_mem _ hm, hc⟩
    case inl =>
      cases e
      case none      => cases h
      case some line =>
        refine ⟨line, List.mem_cons_self, ?_⟩
        rw [Loader.defAt] at h
        split at h
        case h_1 q hc =>
          split_ifs at h
          · simpa [hc, eq_comm] using h
          · cases h
        case h_2 => cases h

theorem nul_not_mem_of_mem_events {texts : List CString} (h : some line ∈ events texts) : nul ∉ line := by
  obtain ⟨text, _, hm⟩ := List.mem_flatMap.mp h
  simp only [fgets, List.mem_cons, reduceCtorEq, List.mem_map, Option.some.injEq, exists_eq_right, false_or] at hm
  obtain ⟨chunk, _, rfl⟩ := hm
  exact nul_not_mem_ofBuffer chunk

theorem isValue_of_load {fs : Fs} {path : CString} {sec : Section} (h : (load fs .empty path).2.csocket = some sec)
    (hm : p ∈ sec.param) : IsValue p.value := by
  obtain ⟨texts, ht⟩ := load_eq_foldl fs .empty path
  rw [ht] at h
  have hf : (texts.foldl loadText empty).find (.csocket, sec.name) = some sec := by
    simp [find, sections, h, Registry.find]
  have he := find_loaded hf
  rw [collect_append rfl] at he
  rw [he] at hm
  obtain ⟨line, hl, hc⟩ := classify_of_mem_defs hm
  exact isValue_of_classify (nul_not_mem_of_mem_events hl) hc

end F2b.Config
