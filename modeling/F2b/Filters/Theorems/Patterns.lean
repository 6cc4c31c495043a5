import F2b.Filters.Theorems.Load
import F2b.Lib.Lines
import F2b.Objects.Theorems.Params
import Mathlib.Data.List.Infix

-- The lines of a pattern file, compared with what is passed to `append`.

namespace F2b.Filters

open CString Trim

section Definitions

def textOf : Line → Option CString
  | .option _  => none
  | .pattern t => some t

def patternOf (line : CString) : Option CString :=
  (classify line).bind textOf

-- What is passed to `append` while a file is read, and while one of its lines is read.
def calls (text : CString) : List CString :=
  (linesOf text).filterMap textOf

def chunks (l : CString) : List CString :=
  fgetsLoop REGEX_LINE_MAX [] (REGEX_LINE_MAX - 1) l

def passed (l : CString) : List CString :=
  ((chunks l).map ofBuffer).filterMap patternOf

def wanted (l : CString) : Option CString :=
  let t := trim isblank isspace l
  if t = [] ∨ t.head? = some ';' ∨ t.head? = some '#' then none
  else if HOST_TOKEN <:+: t then some t
  else none

structure LineByLine (text : CString) : Prop where
  lines : ∀ l ∈ physical text, passed l = (wanted l).toList
  calls : calls text = (physical text).filterMap wanted

-- No part of a line without a pattern looks like one. A pattern is read in one piece, it has no terminator
-- in it, and what is read behind it has one or is nothing.
def Clean (l : CString) : Prop :=
  match wanted l with
  | none   => ∀ chunk ∈ chunks l, patternOf (ofBuffer chunk) = none
  | some t => nul ∉ t ∧ '\r' ∉ t ∧
    ∃ chunk ∈ chunks l, ∃ pre post, chunk = pre ++ t ++ post ∧ (post = [] ∨ '\r' ∈ post ∨ '\n' ∈ post)

end Definitions

section Strip

variable {line chunk pre post t p : CString}

theorem calls_eq (text : CString) : calls text = (physical text).flatMap passed := by
  rw [calls, linesOf, fgets, fgetsLoop_physical, List.map_flatMap, List.filterMap_flatMap, List.filterMap_flatMap]
  refine List.flatMap_congr fun l _ => ?_
  rw [List.filterMap_filterMap]
  rfl

theorem exists_terminator {q : Nat} (h : (strchr p '\r').or (strchr p '\n') = some q) :
    ∃ u c v, p = u ++ c :: v ∧ '\r' ∉ u ∧ u.length = q ∧ (c = '\r' ∨ c = '\n') := by
  obtain h | ⟨hr, h⟩ := Option.or_eq_some_iff.mp h <;> obtain ⟨u, v, rfl, hu, hl⟩ := strchr_eq_some_iff.mp h
  case inl => exact ⟨u, '\r', v, rfl, hu, hl, .inl rfl⟩
  case inr =>
    have hr := strchr_eq_none_iff.mp hr
    exact ⟨u, '\n', v, rfl, fun h => hr (List.mem_append_left _ h), hl, .inr rfl⟩

theorem stripLine_cases (hp : p = line.dropWhile isblank) :
    '\r' ∉ p ∧ '\n' ∉ p ∧ stripLine line = p ∨
    ∃ u c v, p = u ++ c :: v ∧ '\r' ∉ u ∧ (c = '\r' ∨ c = '\n') ∧
      stripLine line = if u = [] then p else Config.stripSpaces u := by
  rw [stripLine, ← hp]
  cases hq : (strchr p '\r').or (strchr p '\n')
  case none   =>
    obtain ⟨hr, hn⟩ := Option.or_eq_none_iff.mp hq
    exact .inl ⟨strchr_eq_none_iff.mp hr, strchr_eq_none_iff.mp hn, rfl⟩
  case some q =>
    obtain ⟨u, c, v, he, hu, rfl, hc⟩ := exists_terminator hq
    refine .inr ⟨u, c, v, he, hu, hc, ?_⟩
    cases u
    case nil  => rfl
    case cons a u =>
      have ht : List.take (a :: u).length (a :: u ++ c :: v) = a :: u := List.take_left
      rw [he]
      exact congrArg Config.stripSpaces ht

-- A pattern is an entire part of a line, up to a terminator if there is one.
theorem stripLine_spec (hr : (stripLine line).head? ≠ some '\r') (hn : (stripLine line).head? ≠ some '\n') :
    '\r' ∉ stripLine line ∧
    ∃ pre post, line = pre ++ stripLine line ++ post ∧ (post = [] ∨ '\r' ∈ post ∨ '\n' ∈ post) := by
  have hl : line = line.takeWhile isblank ++ line.dropWhile isblank := List.takeWhile_append_dropWhile.symm
  obtain ⟨h, _, hs⟩ | ⟨u, c, v, he, hu, hc, hs⟩ := stripLine_cases rfl
  case inl => exact ⟨hs ▸ h, line.takeWhile isblank, [], by rw [hs, List.append_nil, ← hl], .inl rfl⟩
  case inr =>
    by_cases h0 : u = []
    case pos =>
      rw [hs, if_pos h0, he, h0] at hr hn
      obtain rfl | rfl := hc
      case inl => exact absurd rfl hr
      case inr => exact absurd rfl hn
    case neg =>
      rw [if_neg h0] at hs
      have ⟨w, hw⟩ := Config.stripSpaces_prefix_self u
      rw [hs]
      refine ⟨fun h => hu (hw ▸ List.mem_append_left _ h), line.takeWhile isblank, w ++ c :: v, ?_, .inr ?_⟩
      case refine_1 =>
        rw [List.append_assoc, ← List.append_assoc (Config.stripSpaces u), hw, ← he]
        exact hl
      case refine_2 => obtain rfl | rfl := hc <;> simp

theorem bind_lineOf_cons {c : Char} {s : CString} :
    (lineOf (c :: s)).bind textOf =
    if c = '\r' ∨ c = '\n' ∨ c = ';' ∨ c = '#' then none
    else if HOST_TOKEN <:+: c :: s then some (c :: s)
    else none := by
  rw [lineOf]
  by_cases h₁ : c = '\r' ∨ c = '\n'
  case pos => obtain rfl | rfl := h₁ <;> rfl
  case neg =>
    have h₁' := not_or.mp h₁
    rw [if_neg h₁]
    by_cases h₂ : c = ';' ∨ c = '#'
    case pos =>
      rw [if_pos h₂, if_pos (.inr (.inr h₂))]
      cases CString.strstr "set: ".toList (c :: s)
      case none   => rfl
      case some p =>
        simp only
        cases Config.paramCreate (List.drop (p + 5) (c :: s)) <;> rfl
    case neg =>
      have h : ¬(c = '\r' ∨ c = '\n' ∨ c = ';' ∨ c = '#') := by
        rintro (h | h | h)
        case inl     => exact h₁'.1 h
        case inr.inl => exact h₁'.2 h
        case inr.inr => exact h₂ h
      rw [if_neg h₂, if_neg h]
      by_cases hh : HOST_TOKEN <:+: c :: s
      case pos =>
        rw [if_pos hh, if_neg (fun h => strstr_eq_none_iff.mp h hh)]
        rfl
      case neg =>
        rw [if_neg hh, if_pos (strstr_eq_none_iff.mpr hh)]
        rfl

theorem patternOf_eq_some_iff :
    patternOf line = some t ↔
    t = stripLine line ∧ t ≠ [] ∧ t.head? ≠ some '\r' ∧ t.head? ≠ some '\n' ∧ t.head? ≠ some ';' ∧
      t.head? ≠ some '#' ∧ HOST_TOKEN <:+: t := by
  rw [patternOf, classify]
  cases stripLine line
  case nil      => simp +contextual [lineOf]
  case cons c s =>
    rw [bind_lineOf_cons]
    constructor
    case mp  =>
      intro h
      split_ifs at h with hc hh
      obtain rfl := Option.some.inj h
      simp only [not_or] at hc
      obtain ⟨h₁, h₂, h₃, h₄⟩ := hc
      simpa using ⟨h₁, h₂, h₃, h₄, hh⟩
    case mpr =>
      rintro ⟨rfl, _, h₁, h₂, h₃, h₄, hh⟩
      simp only [List.head?_cons, ne_eq, Option.some.injEq] at h₁ h₂ h₃ h₄
      rw [if_neg (by simp [h₁, h₂, h₃, h₄]), if_pos hh]

theorem patternOf_spec (h : patternOf (ofBuffer chunk) = some t) :
    nul ∉ t ∧ '\r' ∉ t ∧ HOST_TOKEN <:+: t ∧
    ∃ pre post, chunk = pre ++ t ++ post ∧ (post = [] ∨ nul ∈ post ∨ '\r' ∈ post ∨ '\n' ∈ post) := by
  obtain ⟨ht, _, hr, hn, _, _, hh⟩ := patternOf_eq_some_iff.mp h
  have ⟨hc, pre, post, he, hp⟩ := stripLine_spec (ht ▸ hr) (ht ▸ hn)
  rw [← ht] at hc he
  have h0 : nul ∉ t := fun h0 =>
    nul_not_mem_ofBuffer chunk (he ▸ List.mem_append_left _ (List.mem_append_right _ h0))
  obtain hb | ⟨rest, hb⟩ := ofBuffer_cases chunk
  case inl => exact ⟨h0, hc, hh, pre, post, hb ▸ he, hp.imp_right .inr⟩
  case inr =>
    refine ⟨h0, hc, hh, pre, post ++ nul :: rest, ?_, .inr (.inl (by simp))⟩
    rw [← List.append_assoc, ← he]
    exact hb

theorem patternOf_eq (hpre : ∀ c ∈ pre, isblank c) (hpost : ∀ c ∈ post, isspace c) (ht : Trimmed isblank isspace t)
    (hc : t.head? ≠ some ';') (hc' : t.head? ≠ some '#') (hh : HOST_TOKEN <:+: t) (h0 : nul ∉ t) (hr : '\r' ∉ t)
    (hn : '\n' ∉ t) (h : post = [] ∨ '\r' ∈ post ∨ '\n' ∈ post) : patternOf (ofBuffer (pre ++ t ++ post)) = some t := by
  obtain ⟨a, s, rfl⟩ := List.exists_cons_of_ne_nil ht.ne_nil
  have ha : isblank a = false := ht.head
  have hz : nul ∉ pre ++ (a :: s) ++ post := by
    simp only [List.mem_append, not_or]
    exact ⟨⟨fun hm => absurd (hpre _ hm) (by decide), h0⟩, fun hm => absurd (hpost _ hm) (by decide)⟩
  have hp : a :: s ++ post = (pre ++ (a :: s) ++ post).dropWhile isblank := by
    rw [List.append_assoc, List.dropWhile_append_of_pos hpre, List.cons_append,
      List.dropWhile_cons_of_neg (by simp [ha])]
  rw [ofBuffer_eq_self hz, patternOf_eq_some_iff]
  refine ⟨?_, ht.ne_nil, fun he => hr ?_, fun he => hn ?_, hc, hc', hh⟩
  case refine_2 => rw [← Option.some.inj he]; exact List.mem_cons_self
  case refine_3 => rw [← Option.some.inj he]; exact List.mem_cons_self
  case refine_1 =>
    obtain ⟨hr', hn', hs⟩ | ⟨u, c, v, he, hu, hc, hs⟩ := stripLine_cases hp <;> rw [hs]
    case inl =>
      have h0 : post = [] := h.resolve_right fun h =>
        h.elim (fun h => hr' (List.mem_append_right _ h)) fun h => hn' (List.mem_append_right _ h)
      rw [h0, List.append_nil]
    case inr =>
      -- The terminator is not in the pattern, so that what is stripped are spaces behind it.
      have ⟨w, hu⟩ : ∃ w, u = a :: s ++ w := by
        rw [List.append_eq_append_iff] at he
        obtain ⟨w, hu, _⟩ | ⟨w, hs, hw⟩ := he
        case inl => exact ⟨w, hu⟩
        case inr =>
          cases w
          case nil => exact ⟨[], by rw [hs]; simp⟩
          case cons d w =>
            obtain ⟨rfl, _⟩ := List.cons.inj hw
            have hm : c ∈ a :: s := by rw [hs]; simp
            obtain rfl | rfl := hc
            case inl => exact absurd hm hr
            case inr => exact absurd hm hn
      subst hu
      have hw : ∀ c ∈ w, isspace c := by
        rw [List.append_assoc] at he
        intro c hc
        exact hpost c (List.append_cancel_left he ▸ List.mem_append_left _ hc)
      rw [if_neg (by simp), Config.stripSpaces_append ht.ne_nil ht.last hw]

theorem patternOf_of_isspace (h : ∀ c ∈ chunk, isspace c) : patternOf (ofBuffer chunk) = none := by
  rw [Option.eq_none_iff_forall_ne_some]
  intro t ht
  have ⟨_, _, hh, pre, post, he, _⟩ := patternOf_spec ht
  have hm : '<' ∈ t := hh.subset (by decide)
  exact absurd (h '<' (he ▸ List.mem_append_left _ (List.mem_append_right _ hm))) (by decide)

end Strip

section Lines

variable {l t b w : CString}

theorem wanted_eq_some_iff :
    wanted l = some t ↔
    trim isblank isspace l = t ∧ t ≠ [] ∧ t.head? ≠ some ';' ∧ t.head? ≠ some '#' ∧ HOST_TOKEN <:+: t := by
  simp only [wanted]
  split_ifs with h hh
  case pos =>
    refine iff_of_false (by simp) ?_
    rintro ⟨rfl, h₁, h₂, h₃, _⟩
    exact h.elim h₁ fun h => h.elim h₂ h₃
  case pos =>
    rw [Option.some.injEq]
    refine ⟨?_, fun h => h.1⟩
    rintro rfl
    simp only [not_or] at h
    exact ⟨rfl, h.1, h.2.1, h.2.2, hh⟩
  case neg =>
    refine iff_of_false (by simp) ?_
    rintro ⟨rfl, _, _, _, h⟩
    exact hh h

theorem exists_of_wanted (h : wanted l = some t) :
    ∃ b w, l = b ++ t ++ w ∧ (∀ c ∈ b, isblank c) ∧ (∀ c ∈ w, isspace c) ∧ Trimmed isblank isspace t := by
  obtain ⟨rfl, hn, _⟩ := wanted_eq_some_iff.mp h
  exact trim_spec hn

theorem newline_not_mem (hl : '\n' ∉ (b ++ t ++ w).dropLast) (ht : Trimmed isblank isspace t) : '\n' ∉ t := by
  intro hm
  refine hl ?_
  have he : t = t.dropLast ++ [t.getLast ht.ne_nil] := (List.dropLast_append_getLast ht.ne_nil).symm
  have hd : '\n' ∈ t.dropLast := by
    rw [he, List.mem_append, List.mem_singleton] at hm
    exact hm.resolve_right fun h => ht.last (h ▸ by decide)
  rw [he, List.append_assoc, List.append_assoc, List.dropLast_append_of_ne_nil (by simp)]
  exact List.mem_append_right _ (by
    rw [List.dropLast_append_of_ne_nil (by simp)]
    exact List.mem_append_left _ hd)

theorem passed_append {chunk : CString} {cs₁ cs₂ : List CString} (hc : chunks l = cs₁ ++ chunk :: cs₂) :
    passed l = (cs₁.map ofBuffer).filterMap patternOf ++ (patternOf (ofBuffer chunk)).toList ++
      (cs₂.map ofBuffer).filterMap patternOf := by
  rw [passed, hc, List.map_append, List.filterMap_append, List.map_cons, List.filterMap_cons]
  cases patternOf (ofBuffer chunk) <;> simp

theorem filterMap_of_isspace {cs : List CString} (h : ∀ c ∈ cs.flatten, isspace c) :
    (cs.map ofBuffer).filterMap patternOf = [] := by
  rw [List.filterMap_eq_nil_iff]
  intro s hs
  obtain ⟨chunk, hc, rfl⟩ := List.mem_map.mp hs
  exact patternOf_of_isspace fun c hm => h c (List.mem_flatten.mpr ⟨chunk, hc, hm⟩)

theorem isspace_of_isblank {c : Char} (h : isblank c) : isspace c := by
  simp [isspace, h]

theorem exists_of_chunk {chunk pre post : CString} (hl : l = b ++ t ++ w) (hb : ∀ c ∈ b, isblank c)
    (hw : ∀ c ∈ w, isspace c) (ht : Trimmed isblank isspace t) (hm : chunk ∈ chunks l)
    (hc : chunk = pre ++ t ++ post) :
    ∃ cs₁ cs₂, chunks l = cs₁ ++ chunk :: cs₂ ∧ b = cs₁.flatten ++ pre ∧ w = post ++ cs₂.flatten := by
  have ⟨cs₁, cs₂, hs⟩ := List.append_of_mem hm
  have hf : (chunks l).flatten = l := flatten_fgetsLoop ..
  have he : b ++ t ++ w = (cs₁.flatten ++ pre) ++ t ++ (post ++ cs₂.flatten) := by
    rw [← hl, ← hf, hs, hc]
    simp
  have ⟨hb, hw⟩ := ht.unique hb hw he
  exact ⟨cs₁, cs₂, hs, hb, hw⟩

theorem passed_eq_iff (hn : '\n' ∉ l.dropLast) : passed l = (wanted l).toList ↔ Clean l := by
  rw [Clean]
  cases hw : wanted l
  case none   =>
    simp only [passed, Option.toList_none, List.filterMap_eq_nil_iff, List.mem_map, forall_exists_index, and_imp,
      forall_apply_eq_imp_iff₂]
  case some t =>
    obtain ⟨b, w, hl, hb, hs, ht⟩ := exists_of_wanted hw
    have ⟨_, _, h₁, h₂, hh⟩ := wanted_eq_some_iff.mp hw
    simp only [Option.toList_some]
    constructor
    case mp  =>
      intro hp
      have ⟨line, hs', hc⟩ := List.mem_filterMap.mp (show t ∈ passed l from hp ▸ List.mem_singleton_self t)
      obtain ⟨chunk, hm, rfl⟩ := List.mem_map.mp hs'
      have ⟨h0, hr, _, pre, post, he, hp⟩ := patternOf_spec hc
      have ⟨_, _, _, _, hw⟩ := exists_of_chunk hl hb hs ht hm he
      have hz : nul ∉ post := fun hz => absurd (hs nul (hw ▸ List.mem_append_left _ hz)) (by decide)
      exact ⟨h0, hr, chunk, hm, pre, post, he, hp.imp_right (·.resolve_left hz)⟩
    case mpr =>
      rintro ⟨h0, hr, chunk, hm, pre, post, he, hp⟩
      obtain ⟨cs₁, cs₂, hc, rfl, rfl⟩ := exists_of_chunk hl hb hs ht hm he
      have ⟨hb₁, hb₂⟩ := List.forall_mem_append.mp hb
      have ⟨hs₁, hs₂⟩ := List.forall_mem_append.mp hs
      have hn : '\n' ∉ t := newline_not_mem (hl ▸ hn) ht
      rw [passed_append hc, filterMap_of_isspace fun c hc => isspace_of_isblank (hb₁ c hc), filterMap_of_isspace hs₂,
        he, patternOf_eq hb₂ hs₁ ht h₁ h₂ hh h0 hr hn hp]
      rfl

-- The patterns of a file are passed whole and nothing else is, if and only if all lines are clean.
theorem lineByLine_iff_clean (text : CString) : LineByLine text ↔ ∀ l ∈ physical text, Clean l := by
  constructor
  case mp  => exact fun h l hl => (passed_eq_iff (physical_spec hl).2).mp (h.lines l hl)
  case mpr =>
    intro h
    have hp : ∀ l ∈ physical text, passed l = (wanted l).toList := fun l hl =>
      (passed_eq_iff (physical_spec hl).2).mpr (h l hl)
    refine ⟨hp, ?_⟩
    rw [calls_eq, List.filterMap_eq_flatMap_toList]
    exact List.flatMap_congr hp

section Example

-- The end of a long comment is passed as a pattern.
def longComment : CString :=
  "#".toList ++ List.replicate 254 '-' ++ "from <HOST>\n".toList

theorem not_lineByLine_comment : ¬LineByLine longComment := by
  intro h
  exact absurd h.calls (by decide +kernel)

end Example
end Lines
end F2b.Filters
