import F2b.Lib.Transition
import Mathlib.Data.List.Infix

-- A queue of bounded size between messages that are put into it and a reader that takes what is there in
-- pieces of any length.

structure Outbox (α : Type*) where
  waiting   : List α
  delivered : List α

namespace Outbox

variable {α : Type*}

inductive Op (α : Type*)
  | put (m : List α)
  | take (n : Nat)

def Op.messages : Op α → List (List α)
  | put m  => [m]
  | take _ => []

-- What does not fit of a message is cut off.
def step (size : Nat) (b : Outbox α) : Op α → Outbox α
  | .put m  => { b with waiting := b.waiting ++ m.take (size - b.waiting.length) }
  | .take n => ⟨b.waiting.drop n, b.delivered ++ b.waiting.take n⟩

def Step (size : Nat) (b : Outbox α) (op : Op α) (b' : Outbox α) : Prop :=
  b' = b.step size op

def Fits (size : Nat) (b : Outbox α) (op : Op α) : Prop :=
  ∀ m ∈ op.messages, b.waiting.length + m.length ≤ size ∨ size ≤ b.waiting.length

-- The reader has some of the messages in their order, and the last one of them perhaps not completely.
def Whole (messages : List (List α)) (delivered : List α) : Prop :=
  ∃ sent : List (List α), sent.Sublist messages ∧ delivered <+: sent.flatten

-- With what is still waiting, it has complete messages only.
def Intact (messages : List (List α)) (b : Outbox α) : Prop :=
  ∃ sent : List (List α), sent.Sublist messages ∧ b.delivered ++ b.waiting = sent.flatten

variable {size : Nat} {messages : List (List α)} {b b' : Outbox α} {op : Op α} {ops : List (Op α)}

theorem intact_empty : Intact [] (⟨[], []⟩ : Outbox α) :=
  ⟨[], .slnil, rfl⟩

theorem Intact.whole (h : Intact messages b) : Whole messages b.delivered :=
  have ⟨sent, hs, hb⟩ := h
  ⟨sent, hs, b.waiting, hb⟩

theorem Intact.step (h : Intact messages b) (hf : Fits size b op) :
    Intact (messages ++ op.messages) (b.step size op) := by
  obtain ⟨sent, hs, hb⟩ := h
  cases op
  case take n =>
    refine ⟨sent, hs.trans (List.sublist_append_left ..), ?_⟩
    rw [Outbox.step, List.append_assoc, List.take_append_drop, hb]
  case put m  =>
    obtain hm | hm := hf m List.mem_cons_self
    case inl =>
      refine ⟨sent ++ [m], hs.append (.refl _), ?_⟩
      rw [Outbox.step, List.take_of_length_le (by omega), ← List.append_assoc, hb, List.flatten_append,
        List.flatten_singleton]
    case inr =>
      refine ⟨sent, hs.trans (List.sublist_append_left ..), ?_⟩
      rw [Outbox.step, Nat.sub_eq_zero_of_le hm, List.take_zero, List.append_nil, hb]

theorem Intact.run (e : Transition.Steps (Transition.Guarded (Step size) (Fits size)) b ops b')
    (h : Intact messages b) : Intact (messages ++ ops.flatMap Op.messages) b' := by
  induction e generalizing messages
  case refl           => simpa using h
  case step hs _ hi =>
    obtain ⟨rfl, hf⟩ := hs
    simpa using hi (h.step hf)

end Outbox
