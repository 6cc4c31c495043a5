import Mathlib.Data.List.Basic

-- The position of the last element of a list that is like a given one, as a loop over the list remembers it.

namespace Marks

variable {α : Type} {a b c : α} {l : List α} {k : Nat}

-- One more than the position, or 0 if there is no such element.
def Last (a : α) (l : List α) (k : Nat) : Prop :=
  (k = 0 ∧ a ∉ l) ∨ ∃ u v, l = u ++ a :: v ∧ a ∉ v ∧ k = u.length + 1

theorem last_nil (a : α) : Last a [] 0 :=
  .inl ⟨rfl, List.not_mem_nil⟩

theorem Last.concat [DecidableEq α] (h : Last a l k) (b : α) :
    Last a (l ++ [b]) (if b = a then l.length + 1 else k) := by
  by_cases hb : b = a
  case pos =>
    subst hb
    exact .inr ⟨l, [], rfl, List.not_mem_nil, if_pos rfl⟩
  case neg =>
    rw [if_neg hb]
    obtain ⟨rfl, hn⟩ | ⟨u, v, rfl, hn, rfl⟩ := h
    case inl => exact .inl ⟨rfl, by simp [hn, Ne.symm hb]⟩
    case inr => exact .inr ⟨u, v ++ [b], by simp, by simp [hn, Ne.symm hb], rfl⟩

theorem Last.ne_zero_iff (h : Last a l k) : k ≠ 0 ↔ a ∈ l := by
  obtain ⟨rfl, hn⟩ | ⟨u, v, rfl, _, rfl⟩ := h
  case inl => simp [hn]
  case inr => simp

theorem Last.getElem? (h : Last a l k) (hk : k ≠ 0) : l[k - 1]? = some a := by
  obtain ⟨rfl, _⟩ | ⟨u, v, rfl, _, rfl⟩ := h
  case inl => exact absurd rfl hk
  case inr => simp

theorem Last.forall_iff [BEq α] [LawfulBEq α] (h : Last a l k) :
    (∀ i, l[i]? = some a → k = i + 1) ↔ l.count a ≤ 1 := by
  obtain ⟨rfl, hn⟩ | ⟨u, v, rfl, hn, rfl⟩ := h
  case inl =>
    have hi : ∀ i, l[i]? ≠ some a := fun i hi => hn (List.mem_of_getElem? hi)
    simp [hi, List.count_eq_zero.mpr hn]
  case inr =>
    have hc : (u ++ a :: v).count a = u.count a + 1 := by simp [List.count_eq_zero.mpr hn]
    rw [hc]
    constructor
    case mp  =>
      intro h
      by_cases hu : a ∈ u
      case pos =>
        have ⟨i, hi⟩ := List.mem_iff_getElem?.mp hu
        have hl : i < u.length := (List.getElem?_eq_some_iff.mp hi).1
        have := h i (by rw [List.getElem?_append_left hl, hi])
        omega
      case neg => simp [List.count_eq_zero.mpr hu]
    case mpr =>
      intro h i hi
      have hu : a ∉ u := List.count_eq_zero.mp (by omega)
      obtain hl | hl := Nat.lt_or_ge i u.length
      case inl =>
        rw [List.getElem?_append_left hl] at hi
        exact absurd (List.mem_of_getElem? hi) hu
      case inr =>
        rw [List.getElem?_append_right hl] at hi
        cases hk : i - u.length
        case zero   => omega
        case succ j =>
          rw [hk] at hi
          exact absurd (List.mem_of_getElem? (List.getElem?_cons_succ ▸ hi)) hn

end Marks
