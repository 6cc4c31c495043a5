import Mathlib.Data.List.Basic

-- A machine that takes its input in blocks of one length, and the rest of the input that waits for more.

namespace Blocks

variable {σ α : Type*} {size : Nat} {step : σ → List α → σ} {s : σ} {l : List α}

-- The complete blocks are worked on in turn. What is left is not one.
def run (size : Nat) (step : σ → List α → σ) (s : σ) (l : List α) : σ × List α :=
  if 0 < size ∧ size ≤ l.length then run size step (step s (l.take size)) (l.drop size) else (s, l)
termination_by l.length
decreasing_by simp; omega

theorem run_short (h : l.length < size) : run size step s l = (s, l) := by
  rw [run, if_neg (by omega)]

theorem run_block (h : 0 < size) (hl : l.length = size) (r : List α) :
    run size step s (l ++ r) = run size step (step s l) r := by
  have hs : size ≤ (l ++ r).length := by simp [hl]
  rw [run, if_pos ⟨h, hs⟩, ← hl, List.take_left, List.drop_left]

theorem run_induction {P : σ → List α → Prop} (step : σ → List α → σ) (h : 0 < size)
    (short : ∀ s l, l.length < size → P s l)
    (block : ∀ s l r, l.length = size → P (step s l) r → P s (l ++ r)) : P s l := by
  induction hn : l.length using Nat.strongRecOn generalizing s l
  case ind n hi =>
    by_cases hl : l.length < size
    case pos => exact short s l hl
    case neg =>
      have ht : (l.take size).length = size := by rw [List.length_take]; omega
      have hd : (l.drop size).length < n := by rw [List.length_drop]; omega
      rw [← List.take_append_drop size l]
      exact block s _ _ ht (hi _ hd rfl)

theorem run_append (h : 0 < size) (s : σ) (l r : List α) : run size step s (l ++ r) =
    run size step (run size step s l).1 ((run size step s l).2 ++ r) := by
  induction s, l using run_induction step h
  case short s l hl        => rw [run_short hl]
  case block s l t hl hi => rw [List.append_assoc, run_block h hl, run_block h hl, hi]

theorem length_run (h : 0 < size) (s : σ) (l : List α) : (run size step s l).2.length = l.length % size := by
  induction s, l using run_induction step h
  case short s l hl      => rw [run_short hl, Nat.mod_eq_of_lt hl]
  case block s l r hl hi => rw [run_block h hl, hi, List.length_append, hl, Nat.add_mod_left]

end Blocks
