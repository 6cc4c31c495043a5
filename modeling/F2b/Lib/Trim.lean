import Mathlib.Data.List.DropRight
import Mathlib.Data.List.TakeWhile

-- Lists without the elements of one kind at their start and of another kind at their end.

namespace Trim

variable {α : Type*} {p q : α → Bool} {l t b b' w w' : List α}

def trim (p q : α → Bool) (l : List α) : List α :=
  (l.dropWhile p).rdropWhile q

structure Trimmed (p q : α → Bool) (t : List α) : Prop where
  ne_nil : t ≠ []
  head   : p (t.head ne_nil) = false
  last   : ¬q (t.getLast ne_nil)

theorem rdropWhile_append (hw : ∀ c ∈ w, q c) : (t ++ w).rdropWhile q = t.rdropWhile q := by
  rw [List.rdropWhile, List.reverse_append, List.dropWhile_append_of_pos (by simpa using hw)]
  rfl

theorem trim_spec (h : trim p q l ≠ []) :
    ∃ b w, l = b ++ trim p q l ++ w ∧ (∀ c ∈ b, p c) ∧ (∀ c ∈ w, q c) ∧ Trimmed p q (trim p q l) := by
  have hd : l.dropWhile p ≠ [] := fun hd => h (by rw [trim, hd]; rfl)
  have hp : trim p q l <+: l.dropWhile p := List.rdropWhile_prefix _ _
  refine ⟨l.takeWhile p, (l.dropWhile p).rtakeWhile q, ?_, fun c hc => List.mem_takeWhile_imp hc,
    fun c hc => List.mem_rtakeWhile_imp hc, h, ?_, List.rdropWhile_last_not _ _ h⟩
  case refine_1 => rw [List.append_assoc, trim, List.rdropWhile_append_rtakeWhile, List.takeWhile_append_dropWhile]
  case refine_2 => rw [hp.head h]; exact List.head_dropWhile_not p hd

theorem trim_self_eq_nil_iff : trim p p l = [] ↔ ∀ c ∈ l, p c := by
  rw [trim, List.rdropWhile_eq_nil_iff]
  constructor
  case mp  =>
    intro h c hc
    rw [← List.takeWhile_append_dropWhile (p := p) (l := l), List.mem_append] at hc
    exact hc.elim List.mem_takeWhile_imp (h c)
  case mpr => exact fun h c hc => h c ((List.dropWhile_sublist _).subset hc)

theorem Trimmed.rdropWhile_append (ht : Trimmed p q t) (b : List α) (hw : ∀ c ∈ w, q c) :
    (b ++ t ++ w).rdropWhile q = b ++ t := by
  rw [Trim.rdropWhile_append hw]
  refine List.rdropWhile_eq_self_iff.mpr fun h => ?_
  rw [List.getLast_append_of_ne_nil h ht.ne_nil]
  exact ht.last

-- There is one place for what is left: it does not start before, where the elements are taken away, and
-- it does not end behind.
theorem Trimmed.unique (ht : Trimmed p q t) (hb : ∀ c ∈ b, p c) (hw : ∀ c ∈ w, q c)
    (h : b ++ t ++ w = b' ++ t ++ w') : b = b' ∧ w = w' := by
  have hbb : b = b' := by
    rw [List.append_assoc, List.append_assoc, List.append_eq_append_iff] at h
    obtain ⟨a, rfl, h⟩ | ⟨a, rfl, h⟩ := h <;> cases a
    case inl.nil      => rw [List.append_nil]
    case inr.nil      => rw [List.append_nil]
    case inr.cons c a =>
      obtain ⟨d, s, rfl⟩ := List.exists_cons_of_ne_nil ht.ne_nil
      obtain ⟨rfl, _⟩ := List.cons.inj h
      have hd : p d = false := ht.head
      exact absurd (hb d (List.mem_append_right _ List.mem_cons_self)) (by simp [hd])
    case inl.cons c a =>
      rw [← List.append_assoc, List.append_eq_append_iff] at h
      obtain ⟨u, hu, rfl⟩ | ⟨u, hu, _⟩ := h
      case inr =>
        have := congrArg List.length hu
        simp only [List.length_append, List.length_cons] at this
        omega
      case inl =>
        have hn : u ≠ [] := by
          rintro rfl
          have := congrArg List.length hu
          simp only [List.length_append, List.length_cons, List.length_nil] at this
          omega
        have hl : u.getLast hn = t.getLast ht.ne_nil := by
          rw [(List.suffix_append t u).getLast hn, (List.suffix_append (c :: a) t).getLast ht.ne_nil]
          simp only [hu]
        exact absurd (hw _ (List.mem_append_left _ (List.getLast_mem hn))) (hl ▸ ht.last)
  subst hbb
  exact ⟨rfl, List.append_cancel_left h⟩

end Trim
