import Mathlib.Logic.Function.Basic
import Mathlib.Data.List.Basic
import Mathlib.Tactic.SplitIfs

-- Memory of which some places are allocated. Reading or writing any other place is a fault.

abbrev Cells (α : Type*) :=
  Nat → Option α

namespace Cells

variable {α : Type*} {m m' : Cells α} {p q n : Nat} {a : α} {l r : List α}

def store (m : Cells α) (p : Nat) (a : α) : Option (Cells α) :=
  if (m p).isSome then some (Function.update m p (some a)) else none

def fill (m : Cells α) (p : Nat) (l : List α) : Cells α :=
  fun q => if p ≤ q ∧ q < p + l.length then l[q - p]? else m q

def Holds (m : Cells α) (p : Nat) (l : List α) : Prop :=
  ∀ i < l.length, m (p + i) = l[i]?

def Allocated (m : Cells α) (p n : Nat) : Prop :=
  ∀ i < n, (m (p + i)).isSome

theorem store_eq (h : (m p).isSome) (a : α) : m.store p a = some (Function.update m p (some a)) :=
  if_pos h

theorem fill_nil (m : Cells α) (p : Nat) : m.fill p [] = m := by
  funext q
  exact if_neg (by rw [List.length_nil]; omega)

theorem fill_cons (m : Cells α) (p : Nat) (a : α) (l : List α) :
    m.fill p (a :: l) = fill (Function.update m p (some a)) (p + 1) l := by
  funext q
  simp only [fill, List.length_cons, Function.update_apply]
  obtain hq | rfl | hq := Nat.lt_trichotomy q p
  case inl => rw [if_neg (by omega), if_neg (by omega), if_neg (by omega)]
  case inr.inl => rw [if_pos (by omega), if_neg (by omega), if_pos rfl, Nat.sub_self, List.getElem?_cons_zero]
  case inr.inr =>
    obtain ⟨i, rfl⟩ := Nat.exists_eq_add_of_lt hq
    rw [show p + i + 1 - p = i + 1 by omega, show p + i + 1 - (p + 1) = i by omega, List.getElem?_cons_succ]
    exact if_congr (by omega) rfl (if_neg (by omega)).symm

theorem fill_of_not (h : ¬(p ≤ q ∧ q < p + l.length)) : m.fill p l q = m q :=
  if_neg h

theorem fill_add {i : Nat} (h : i < l.length) : m.fill p l (p + i) = l[i]? := by
  rw [fill, if_pos (by omega), Nat.add_sub_cancel_left]

theorem holds_fill (m : Cells α) (p : Nat) (l : List α) : Holds (m.fill p l) p l :=
  fun _ => fill_add

theorem fill_fill (h : l.length ≤ r.length) {s : List α} :
    fill (m.fill p (s ++ l)) (p + s.length) r = m.fill p (s ++ r) := by
  funext q
  simp only [fill, List.length_append, List.getElem?_append]
  by_cases hq : p + s.length ≤ q ∧ q < p + s.length + r.length
  case pos =>
    rw [if_pos hq, if_pos (by omega), if_neg (by omega)]
    congr 1
    omega
  case neg =>
    rw [if_neg hq]
    by_cases hs : p ≤ q ∧ q < p + s.length
    case pos => rw [if_pos (by omega), if_pos (by omega), if_pos (by omega), if_pos (by omega)]
    case neg => rw [if_neg (by omega), if_neg (by omega)]

theorem update_fill (m : Cells α) (p : Nat) (l : List α) (a : α) :
    Function.update (m.fill p l) (p + l.length) (some a) = m.fill p (l ++ [a]) := by
  have hl : ([] : List α).length ≤ [a].length := Nat.zero_le _
  rw [← fill_fill hl, List.append_nil, fill_cons, fill_nil]

theorem Holds.fill_eq (h : m.Holds p l) : m.fill p l = m := by
  funext q
  rw [fill]
  split_ifs with hq
  case pos => rw [← h (q - p) (by omega), Nat.add_sub_cancel' hq.1]
  case neg => rfl

theorem Holds.head (h : m.Holds p (a :: l)) : m p = some a := by
  simpa using h 0 (by simp)

theorem Holds.tail (h : m.Holds p (a :: l)) : m.Holds (p + 1) l := by
  intro i hi
  rw [Nat.add_assoc, Nat.add_comm 1, h (i + 1) (by simpa), List.getElem?_cons_succ]

theorem Holds.congr (h : m.Holds p l) (hm : ∀ q, p ≤ q → q < p + l.length → m' q = m q) : m'.Holds p l :=
  fun i hi => (hm (p + i) (by omega) (by omega)).trans (h i hi)

theorem Allocated.mono (h : m.Allocated p n) (hm : ∀ q, (m q).isSome → (m' q).isSome) : m'.Allocated p n :=
  fun i hi => hm _ (h i hi)

theorem Allocated.tail (h : m.Allocated p (n + 1)) : m.Allocated (p + 1) n := by
  intro i hi
  rw [Nat.add_assoc, Nat.add_comm 1]
  exact h (i + 1) (by omega)

theorem Allocated.drop {k : Nat} (h : m.Allocated p n) (hk : k ≤ n) : m.Allocated (p + k) (n - k) := by
  intro i hi
  rw [Nat.add_assoc]
  exact h (k + i) (by omega)

theorem Allocated.take {k : Nat} (h : m.Allocated p n) (hk : k ≤ n) : m.Allocated p k :=
  fun i hi => h i (by omega)

theorem isSome_update (h : (m q).isSome) : (Function.update m p (some a) q).isSome := by
  rw [Function.update_apply]
  split_ifs
  case pos => rfl
  case neg => exact h

theorem isSome_fill (h : (m q).isSome) : (m.fill p l q).isSome := by
  rw [fill]
  split_ifs with hq
  case pos => rw [List.getElem?_eq_getElem (by omega)]; rfl
  case neg => exact h

end Cells
