import Mathlib.Data.List.Nodup
import Mathlib.Logic.Function.Basic

-- Singly linked lists in a heap: the cells that a chain of pointers visits, and what a loop does to them
-- that walks along with the pointer to the node before.

variable {ι α : Type*}

namespace Linked

-- A pointer is `none` if it is NULL.
structure Node (ι α : Type*) where
  data : α
  next : Option ι
  deriving DecidableEq

-- An address that holds no node is not allocated.
abbrev Heap (ι α : Type*) := ι → Option (Node ι α)

namespace Heap

variable [DecidableEq ι] (h : Heap ι α) (a : ι)

def store (n : Node ι α) : Heap ι α :=
  Function.update h a (some n)

def free : Heap ι α :=
  Function.update h a none

variable {h a} {b : ι}

@[simp]
theorem store_self (n : Node ι α) : h.store a n a = some n :=
  Function.update_self ..

theorem store_of_ne (n : Node ι α) (hb : b ≠ a) : h.store a n b = h b :=
  Function.update_of_ne hb ..

@[simp]
theorem free_self : h.free a a = none :=
  Function.update_self ..

theorem free_of_ne (hb : b ≠ a) : h.free a b = h b :=
  Function.update_of_ne hb ..

end Heap

inductive Seg (h : Heap ι α) : Option ι → List (ι × α) → Option ι → Prop
  | nil {p}              : Seg h p [] p
  | cons {a x next cs q} : h a = some ⟨x, next⟩ → Seg h next cs q → Seg h (some a) ((a, x) :: cs) q

namespace Seg

variable {h h' : Heap ι α} {p q : Option ι} {cs ds : List (ι × α)} {a : ι} {x : α}

theorem nil_iff : Seg h p [] q ↔ p = q := by
  constructor
  case mp  => rintro ⟨⟩; rfl
  case mpr => rintro rfl; exact .nil

theorem cons_iff : Seg h p ((a, x) :: cs) q ↔ p = some a ∧ ∃ next, h a = some ⟨x, next⟩ ∧ Seg h next cs q := by
  constructor
  case mp  => rintro (_ | ⟨hn, hs⟩); exact ⟨rfl, _, hn, hs⟩
  case mpr => rintro ⟨rfl, _, hn, hs⟩; exact .cons hn hs

theorem append_iff : Seg h p (cs ++ ds) q ↔ ∃ m, Seg h p cs m ∧ Seg h m ds q := by
  induction cs generalizing p
  case nil          => simp [nil_iff]
  case cons c cs hi =>
    obtain ⟨a, x⟩ := c
    simp only [List.cons_append, cons_iff, hi]
    grind

theorem concat_iff : Seg h p (cs ++ [(a, x)]) q ↔ Seg h p cs (some a) ∧ h a = some ⟨x, q⟩ := by
  simp only [append_iff, cons_iff, nil_iff]
  grind

theorem congr (hs : Seg h p cs q) (hc : ∀ b ∈ cs.map Prod.fst, h' b = h b) : Seg h' p cs q := by
  induction hs
  case nil            => exact .nil
  case cons hn _ hi =>
    have ⟨hb, hc⟩ := List.forall_mem_cons.mp hc
    exact .cons (hb.trans hn) (hi hc)

variable [DecidableEq ι]

theorem store (hs : Seg h p cs q) (ha : a ∉ cs.map Prod.fst) (n : Node ι α) : Seg (h.store a n) p cs q :=
  hs.congr fun _ hb => Heap.store_of_ne n fun he => ha (he ▸ hb)

theorem free (hs : Seg h p cs q) (ha : a ∉ cs.map Prod.fst) : Seg (h.free a) p cs q :=
  hs.congr fun _ hb => Heap.free_of_ne fun he => ha (he ▸ hb)

end Seg

-- A whole list, each node of it once.
structure Chain (h : Heap ι α) (head : Option ι) (cs : List (ι × α)) : Prop where
  seg   : Seg h head cs none
  nodup : (cs.map Prod.fst).Nodup

-- The state of a loop that has passed the cells `old` and comes to `addr`, the first of `rest`.
structure Walked (h : Heap ι α) (head prev addr : Option ι) (old rest : List (ι × α)) : Prop where
  passed : Seg h head old addr
  ahead  : Seg h addr rest none
  last   : prev = old.getLast?.map Prod.fst
  nodup  : ((old ++ rest).map Prod.fst).Nodup

namespace Walked

variable {h : Heap ι α} {head prev addr next : Option ι} {old rest : List (ι × α)} {a b : ι} {x y : α}

theorem start (hc : Chain h head rest) : Walked h head none head [] rest :=
  ⟨.nil, hc.seg, rfl, hc.nodup⟩

theorem finish (hw : Walked h head prev addr old []) : Chain h head old := by
  have ha := Seg.nil_iff.mp hw.ahead
  exact ⟨ha ▸ hw.passed, by simpa using hw.nodup⟩

theorem addr_eq (hw : Walked h head prev addr old ((a, x) :: rest)) :
    addr = some a ∧ ∃ next, h a = some ⟨x, next⟩ := by
  have ⟨ha, next, hn, _⟩ := Seg.cons_iff.mp hw.ahead
  exact ⟨ha, next, hn⟩

theorem not_mem (hw : Walked h head prev addr old ((a, x) :: rest)) :
    a ∉ (old ++ rest).map Prod.fst := by
  have hn := hw.nodup
  rw [List.map_append, List.map_cons, List.nodup_middle, List.nodup_cons] at hn
  rw [List.map_append]
  exact hn.1

theorem nodup_rest (hw : Walked h head prev addr old ((a, x) :: rest)) :
    ((old ++ rest).map Prod.fst).Nodup := by
  have hn := hw.nodup
  rw [List.map_append, List.map_cons, List.nodup_middle, List.nodup_cons] at hn
  rw [List.map_append]
  exact hn.2

theorem advance (hw : Walked h head prev addr old ((a, x) :: rest)) (hn : h a = some ⟨x, next⟩) :
    Walked h head (some a) next (old ++ [(a, x)]) rest := by
  have ⟨ha, m, hm, hs⟩ := Seg.cons_iff.mp hw.ahead
  obtain rfl : next = m := (Node.mk.inj (Option.some.inj (hn.symm.trans hm))).2
  exact ⟨Seg.concat_iff.mpr ⟨ha ▸ hw.passed, hn⟩, hs, by simp, by simpa using hw.nodup⟩

variable [DecidableEq ι]

theorem write (hw : Walked h head prev addr old ((a, x) :: rest)) (hn : h a = some ⟨x, next⟩) (y : α) :
    Walked (h.store a ⟨y, next⟩) head prev addr old ((a, y) :: rest) := by
  have ⟨ha, m, hm, hs⟩ := Seg.cons_iff.mp hw.ahead
  obtain rfl : next = m := (Node.mk.inj (Option.some.inj (hn.symm.trans hm))).2
  have ⟨ho, hr⟩ : a ∉ old.map Prod.fst ∧ a ∉ rest.map Prod.fst := by
    simpa [not_or] using hw.not_mem
  refine ⟨hw.passed.store ho _, ?_, hw.last, by simpa using hw.nodup⟩
  exact Seg.cons_iff.mpr ⟨ha, next, Heap.store_self _, hs.store hr _⟩

theorem drop_first (hw : Walked h head none addr old ((a, x) :: rest)) (hn : h a = some ⟨x, next⟩) :
    Walked (h.free a) next none next [] rest ∧ old = [] := by
  have ⟨ha, m, hm, hs⟩ := Seg.cons_iff.mp hw.ahead
  obtain rfl : next = m := (Node.mk.inj (Option.some.inj (hn.symm.trans hm))).2
  obtain rfl : old = [] := by simpa using hw.last.symm
  exact ⟨⟨.nil, hs.free hw.not_mem, rfl, hw.nodup_rest⟩, rfl⟩

theorem drop_next (hw : Walked h head (some b) addr old ((a, x) :: rest)) (hn : h a = some ⟨x, next⟩) :
    ∃ y, h b = some ⟨y, some a⟩ ∧ b ∈ old.map Prod.fst ∧
    Walked ((h.store b ⟨y, next⟩).free a) head (some b) next old rest := by
  have ⟨ha, m, hm, hs⟩ := Seg.cons_iff.mp hw.ahead
  obtain rfl : next = m := (Node.mk.inj (Option.some.inj (hn.symm.trans hm))).2
  obtain ⟨⟨b', y⟩, hl, rfl⟩ := Option.map_eq_some_iff.mp hw.last.symm
  obtain ⟨old, rfl⟩ := List.getLast?_eq_some_iff.mp hl
  have ⟨ho, hb⟩ := Seg.concat_iff.mp hw.passed
  have hd := hw.nodup_rest
  have hm := hw.not_mem
  simp only [List.map_append, List.map_cons, List.append_assoc, List.singleton_append,
    List.nodup_middle, List.nodup_cons, List.mem_append, List.mem_cons, not_or] at hd hm
  have hba : b' ≠ a := fun he => hm.2.1 he.symm
  refine ⟨y, ha ▸ hb, by simp, ?_, (hs.store hd.1.2 _).free hm.2.2, hw.last, hw.nodup_rest⟩
  refine Seg.concat_iff.mpr ⟨(ho.store hd.1.1 _).free hm.1, ?_⟩
  rw [Heap.free_of_ne hba, Heap.store_self]

end Walked
end Linked
