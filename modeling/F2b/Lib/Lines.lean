import F2b.Lib.Stdio

-- Texts as lines that end in a newline, and what comes after the last newline.

namespace CString

def split : CString → List CString × CString
  | []     => ([], [])
  | c :: s =>
    if c = '\n' then ([] :: (split s).1, (split s).2)
    else match split s with
    | ([],      tail) => ([], c :: tail)
    | (l :: ls, tail) => ((c :: l) :: ls, tail)

def join (ls : List CString) (tail : CString) : CString :=
  ls.flatMap (· ++ ['\n']) ++ tail

theorem join_nil (tail : CString) : join [] tail = tail :=
  rfl

theorem join_cons (l : CString) (ls : List CString) (tail : CString) :
    join (l :: ls) tail = l ++ '\n' :: join ls tail := by
  simp [join]

theorem join_append (ls ls' : List CString) (tail : CString) :
    join (ls ++ ls') tail = join ls (join ls' tail) := by
  simp [join]

theorem takeWhile_line {l : CString} (s : CString) (h : '\n' ∉ l) :
    (l ++ '\n' :: s).takeWhile (· ≠ '\n') = l := by
  rw [List.takeWhile_append_of_pos (by grind)]
  simp

theorem split_of_not_mem {s : CString} (h : '\n' ∉ s) : split s = ([], s) := by
  induction s
  case nil         => rfl
  case cons c s hi =>
    simp only [List.mem_cons, not_or] at h
    simp [split, hi h.2, Ne.symm h.1]

theorem split_line {l : CString} (s : CString) (h : '\n' ∉ l) :
    split (l ++ '\n' :: s) = (l :: (split s).1, (split s).2) := by
  induction l
  case nil         => simp [split]
  case cons c l hi =>
    simp only [List.mem_cons, not_or] at h
    simp [split, hi h.2, Ne.symm h.1]

theorem split_lines {ls : List CString} (tail : CString) (h : ∀ l ∈ ls, '\n' ∉ l) :
    split (join ls tail) = (ls ++ (split tail).1, (split tail).2) := by
  induction ls
  case nil          => rfl
  case cons l ls hi =>
    have ⟨hl, h⟩ := List.forall_mem_cons.mp h
    rw [join_cons, split_line _ hl, hi h, List.cons_append]

theorem split_join {ls : List CString} {tail : CString} (h : ∀ l ∈ ls, '\n' ∉ l) (ht : '\n' ∉ tail) :
    split (join ls tail) = (ls, tail) := by
  rw [split_lines tail h, split_of_not_mem ht, List.append_nil]

theorem split_spec (s : CString) :
    (∀ l ∈ (split s).1, '\n' ∉ l) ∧ '\n' ∉ (split s).2 ∧ join (split s).1 (split s).2 = s := by
  induction s
  case nil         => simp [split, join]
  case cons c s hi =>
    obtain ⟨hl, ht, hj⟩ := hi
    by_cases hc : c = '\n'
    case pos => simpa [split, hc, join_cons, ht, hj] using hl
    case neg =>
      generalize hs : split s = r at hl ht hj
      obtain ⟨_ | ⟨l, ls⟩, tail⟩ := r <;> simp_all [split, join, Ne.symm hc]

theorem split_append (s t : CString) :
    split (s ++ t) = ((split s).1 ++ (split ((split s).2 ++ t)).1, (split ((split s).2 ++ t)).2) := by
  have ⟨hl, _, hj⟩ := split_spec s
  have ⟨hl', ht', hj'⟩ := split_spec ((split s).2 ++ t)
  have he : s ++ t = join ((split s).1 ++ (split ((split s).2 ++ t)).1) (split ((split s).2 ++ t)).2 := by
    rw [join_append, hj', join, ← List.append_assoc, ← join, hj]
  rw [he, split_join (List.forall_mem_append.mpr ⟨hl, hl'⟩) ht']

-- The lines of a beginning of a text are a beginning of its lines, and what comes after the last newline is
-- a beginning of the next line.
theorem split_of_prefix {s t : CString} (h : s <+: t) (ht : (split t).2 = []) :
    (split s).1 <+: (split t).1 ∧ ((split s).2 = [] ∨ ∃ l ∈ (split t).1, (split s).2 <+: l) := by
  obtain ⟨u, rfl⟩ := h
  rw [split_append] at ht ⊢
  refine ⟨List.prefix_append .., ?_⟩
  have ⟨_, hn, _⟩ := split_spec s
  by_cases hu : '\n' ∈ u
  case pos =>
    obtain ⟨l, r, rfl, hl⟩ := List.eq_append_cons_of_mem hu
    have hm : '\n' ∉ (split s).2 ++ l := by simp [hn, hl]
    rw [← List.append_assoc, split_line _ hm]
    exact .inr ⟨_, List.mem_append_right _ List.mem_cons_self, List.prefix_append ..⟩
  case neg =>
    have hm : '\n' ∉ (split s).2 ++ u := by simp [hn, hu]
    rw [split_of_not_mem hm] at ht
    exact .inl (List.append_eq_nil_iff.mp ht).1

-- The lines as they stand in the text, each with its newline, and the rest if there is one.
def physical (s : CString) : List CString :=
  (split s).1.map (· ++ ['\n']) ++ [(split s).2].filter (· ≠ [])

theorem physical_spec {s l : CString} (h : l ∈ physical s) : l ≠ [] ∧ '\n' ∉ l.dropLast := by
  have ⟨hl, ht, _⟩ := split_spec s
  obtain h | h := List.mem_append.mp h
  case inl =>
    obtain ⟨l, hm, rfl⟩ := List.mem_map.mp h
    simpa using hl l hm
  case inr =>
    obtain ⟨h, hn⟩ := List.mem_filter.mp h
    obtain rfl := List.mem_singleton.mp h
    exact ⟨of_decide_eq_true hn, fun hm => ht (List.dropLast_subset _ hm)⟩

theorem flatten_physical (s : CString) : (physical s).flatten = s := by
  have hj := (split_spec s).2.2
  have ht : ([(split s).2].filter (· ≠ [])).flatten = (split s).2 := by
    by_cases ht : (split s).2 = [] <;> simp [ht]
  rw [physical, List.flatten_append, ht, ← List.flatMap_def]
  exact hj

-- Reading a text with a buffer is reading each line with it.
theorem fgetsLoop_physical (size : Nat) (s : CString) :
    fgetsLoop size [] (size - 1) s = (physical s).flatMap (fgetsLoop size [] (size - 1)) := by
  have hp : ∀ (ls : List CString) (tail : CString), fgetsLoop size [] (size - 1) (join ls tail) =
      (ls.map (· ++ ['\n']) ++ [tail].filter (· ≠ [])).flatMap (fgetsLoop size [] (size - 1)) := by
    intro ls tail
    induction ls
    case nil          => by_cases ht : tail = [] <;> simp [join, ht, fgetsLoop]
    case cons l ls hi =>
      rw [join_cons, fgetsLoop_newline, hi, List.map_cons, List.cons_append, List.flatMap_cons]
  have hj := (split_spec s).2.2
  calc fgetsLoop size [] (size - 1) s
    _ = fgetsLoop size [] (size - 1) (join (split s).1 (split s).2) := by rw [hj]
    _ = (physical s).flatMap (fgetsLoop size [] (size - 1)) := hp ..

end CString
