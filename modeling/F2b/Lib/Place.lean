import Mathlib.Data.List.Basic

-- A node of a linked list, reached through a pointer: the list around it stays where it is while
-- the node is read and written.

@[ext]
structure Place (α : Type*) where
  before : List α
  here   : α
  after  : List α

namespace Place

variable {α : Type*}

def list (p : Place α) : List α :=
  p.before ++ p.here :: p.after

def set (p : Place α) (a : α) : Place α :=
  { p with here := a }

def find? (q : α → Bool) : List α → Option (Place α)
  | []      => none
  | a :: as =>
    if q a then some ⟨[], a, as⟩
    else (find? q as).map fun p => { p with before := a :: p.before }

@[simp]
theorem list_set (p : Place α) (a : α) : (p.set a).list = p.before ++ a :: p.after :=
  rfl

@[simp]
theorem before_set (p : Place α) (a : α) : (p.set a).before = p.before :=
  rfl

@[simp]
theorem after_set (p : Place α) (a : α) : (p.set a).after = p.after :=
  rfl

@[simp]
theorem here_set (p : Place α) (a : α) : (p.set a).here = a :=
  rfl

theorem here_mem (p : Place α) : p.here ∈ p.list := by
  simp [list]

theorem mem_list_iff {a : α} (p : Place α) : a ∈ p.list ↔ a = p.here ∨ a ∈ p.before ++ p.after := by
  simp only [list, List.mem_append, List.mem_cons]
  exact or_left_comm

theorem forall_mem_iff {P : α → Prop} (p : Place α) :
    (∀ a ∈ p.list, P a) ↔ P p.here ∧ ∀ a ∈ p.before ++ p.after, P a := by
  simp only [mem_list_iff, forall_eq_or_imp]

theorem exists_mem_iff {P : α → Prop} (p : Place α) :
    (∃ a ∈ p.list, P a) ↔ P p.here ∨ ∃ a ∈ p.before ++ p.after, P a := by
  simp only [mem_list_iff, exists_eq_or_imp]

variable {q : α → Bool} {l : List α} {p : Place α}

theorem find?_cons_eq_some {a : α} (h : find? q (a :: l) = some p) :
    (q a ∧ p = ⟨[], a, l⟩) ∨
    (¬q a ∧ ∃ p', find? q l = some p' ∧ p = { p' with before := a :: p'.before }) := by
  by_cases hq : q a
  case pos => simp [find?, hq] at h; exact .inl ⟨hq, h.symm⟩
  case neg =>
    simp only [find?, hq] at h
    have ⟨p', h', he⟩ := Option.map_eq_some_iff.mp h
    exact .inr ⟨hq, p', h', he.symm⟩

theorem find?_list (h : find? q l = some p) : p.list = l := by
  induction l generalizing p
  case nil          => cases h
  case cons a as hi =>
    obtain ⟨_, rfl⟩ | ⟨_, p', h', rfl⟩ := find?_cons_eq_some h
    case inl => rfl
    case inr => simp [← hi h', list]

theorem find?_here (h : find? q l = some p) : q p.here := by
  induction l generalizing p
  case nil          => cases h
  case cons a as hi =>
    obtain ⟨hq, rfl⟩ | ⟨_, p', h', rfl⟩ := find?_cons_eq_some h
    case inl => exact hq
    case inr => exact show q p'.here from hi h'

theorem find?_eq_none_iff : find? q l = none ↔ ∀ a ∈ l, ¬q a := by
  induction l
  case nil          => simp [find?]
  case cons a as hi => by_cases hq : q a <;> simp [find?, hq, hi]

theorem map_here_find? (q : α → Bool) (l : List α) : (find? q l).map (·.here) = l.find? q := by
  induction l
  case nil          => rfl
  case cons a as hi => by_cases hq : q a <;> simp [find?, hq, ← hi, Function.comp_def]

theorem find?_set {a : α} (h : find? q l = some p) (ha : q a) : find? q (p.set a).list = some (p.set a) := by
  induction l generalizing p
  case nil          => cases h
  case cons b bs hi =>
    obtain ⟨_, rfl⟩ | ⟨hb, p', h', rfl⟩ := find?_cons_eq_some h
    case inl => simp [set, list, find?, ha]
    case inr =>
      have hi : find? q (p'.before ++ a :: p'.after) = some (p'.set a) := hi h'
      simp [set, list, find?, hb, hi]

theorem find?_set_of_not {a : α} (hp : ¬q p.here) (ha : ¬q a) :
    (find? q (p.set a).list).map (·.here) = (find? q p.list).map (·.here) := by
  obtain ⟨before, here, after⟩ := p
  replace hp : ¬q here := hp
  simp only [list, set]
  induction before
  case nil          => simp_all [find?, Function.comp_def]
  case cons b bs hi =>
    by_cases hb : q b
    case pos => simp [find?, hb]
    case neg => simpa [find?, hb, Function.comp_def] using hi

theorem sublist_list (p : Place α) : (p.before ++ p.after).Sublist p.list :=
  (List.Sublist.refl _).append (List.sublist_cons_self _ _)

theorem map_list_set {β : Type*} {f : α → β} {a : α} (h : f a = f p.here) :
    (p.set a).list.map f = p.list.map f := by
  simp [list, set, h]

end Place
