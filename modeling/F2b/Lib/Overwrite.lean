import Mathlib.Data.List.Basic
import Mathlib.Data.List.Pairwise

-- Records that are filled from a list of items, each of which overwrites some of their fields:
-- after the whole list a field holds the last value written to it.

namespace Overwrite

variable {σ π α : Type*}

-- The list without the items of one kind, but for the last of them.
def dropEarlier (q : π → Bool) : List π → List π
  | []      => []
  | p :: ps => if q p && ps.any q then dropEarlier q ps else p :: dropEarlier q ps

section DropEarlier

variable {q : π → Bool}

theorem filter_dropEarlier {r : π → Bool} (h : ∀ p, r p → ¬q p) (ps : List π) :
    (dropEarlier q ps).filter r = ps.filter r := by
  induction ps
  case nil          => rfl
  case cons p ps hi =>
    by_cases hd : q p && ps.any q
    case pos =>
      have hq : q p := (Bool.and_eq_true_iff.mp hd).1
      have hr : ¬r p := fun hr => h p hr hq
      rw [dropEarlier, if_pos hd, hi, List.filter_cons_of_neg hr]
    case neg => rw [dropEarlier, if_neg hd, List.filter_cons, List.filter_cons, hi]

theorem filter_dropEarlier_self (ps : List π) :
    (dropEarlier q ps).filter q = (ps.filter q).getLast?.toList := by
  induction ps
  case nil          => rfl
  case cons p ps hi =>
    by_cases hq : q p
    case neg => simp [dropEarlier, hq, hi]
    case pos =>
      by_cases ha : ps.any q
      case pos =>
        obtain ⟨a, as, hf⟩ : ∃ a as, ps.filter q = a :: as := by
          obtain ⟨a, ha, hqa⟩ := List.any_eq_true.mp ha
          exact List.exists_cons_of_ne_nil (List.ne_nil_of_mem (List.mem_filter.mpr ⟨ha, hqa⟩))
        simp [dropEarlier, hq, ha, hi, hf]
      case neg =>
        have hf : ps.filter q = [] := by simpa using ha
        simp [dropEarlier, hq, ha, hi, hf]

theorem dropEarlier_filter {r : π → Bool} (h : ∀ p, q p → r p) (ps : List π) :
    dropEarlier q (ps.filter r) = (dropEarlier q ps).filter r := by
  have ha : ∀ ps : List π, (ps.filter r).any q = ps.any q := fun ps => by
    rw [List.any_filter]
    congr
    funext p
    cases hq : q p
    case false => exact Bool.and_false _
    case true  => rw [h p hq]; rfl
  induction ps
  case nil          => rfl
  case cons p ps hi =>
    by_cases hr : r p
    case pos =>
      rw [List.filter_cons_of_pos hr, dropEarlier, dropEarlier, ha, hi]
      split
      case isTrue  => rfl
      case isFalse => rw [List.filter_cons_of_pos hr]
    case neg =>
      have hq : ¬q p := fun hq => hr (h p hq)
      rw [List.filter_cons_of_neg hr, hi, dropEarlier, if_neg (by simp [hq]), List.filter_cons_of_neg hr]

-- Items of the kind overwrite what others of the kind have done, and nothing else.
structure Single (apply : σ → π → σ) (q : π → Bool) : Prop where
  absorb : ∀ s p p', q p → q p' → apply (apply s p) p' = apply s p'
  comm   : ∀ s p p', q p → ¬q p' → apply (apply s p) p' = apply (apply s p') p

theorem Single.foldl_apply {apply : σ → π → σ} (h : Single apply q) {ps : List π} (ha : ps.any q) (s : σ)
    {p : π} (hp : q p) : ps.foldl apply (apply s p) = ps.foldl apply s := by
  induction ps generalizing s
  case nil           => simp at ha
  case cons p' ps hi =>
    rw [List.foldl_cons, List.foldl_cons]
    by_cases hq : q p'
    case pos => rw [h.absorb s p p' hp hq]
    case neg =>
      rw [h.comm s p p' hp hq]
      exact hi (by simpa [hq] using ha) (apply s p')

theorem Single.foldl_dropEarlier {apply : σ → π → σ} (h : Single apply q) (ps : List π) (s : σ) :
    (dropEarlier q ps).foldl apply s = ps.foldl apply s := by
  induction ps generalizing s
  case nil          => rfl
  case cons p ps hi =>
    by_cases hd : q p && ps.any q
    case pos =>
      have ⟨hp, ha⟩ := Bool.and_eq_true_iff.mp hd
      rw [dropEarlier, if_pos hd, hi, List.foldl_cons, h.foldl_apply ha s hp]
    case neg => rw [dropEarlier, if_neg hd, List.foldl_cons, List.foldl_cons, hi]

end DropEarlier

section Table

variable {κ ν : Type*} [DecidableEq κ] {t : List (κ × (ν → σ → σ))} {k k' : κ} {v w : ν} {s : σ}

def setNamed : List (κ × (ν → σ → σ)) → κ → ν → σ → σ
  | [],     _, _, s => s
  | e :: t, k, v, s => if k = e.1 then e.2 v s else setNamed t k v s

-- Settings do not interfere with each other.
def Independent (t : List (κ × (ν → σ → σ))) : Prop :=
  t.Pairwise fun a b => ∀ v w s, a.2 v (b.2 w s) = b.2 w (a.2 v s)

theorem setNamed_cases (t : List (κ × (ν → σ → σ))) (k : κ) :
    (∃ e ∈ t, e.1 = k ∧ ∀ v s, setNamed t k v s = e.2 v s) ∨ ∀ v s, setNamed t k v s = s := by
  induction t
  case nil         => exact .inr fun _ _ => rfl
  case cons e t hi =>
    by_cases hk : k = e.1
    case pos => exact .inl ⟨e, List.mem_cons_self, hk.symm, fun v s => if_pos hk⟩
    case neg =>
      have hs : ∀ v s, setNamed (e :: t) k v s = setNamed t k v s := fun v s => if_neg hk
      simp only [hs]
      obtain ⟨e', he, hk⟩ | h := hi
      case inl => exact .inl ⟨e', List.mem_cons_of_mem _ he, hk⟩
      case inr => exact .inr h

theorem Independent.setNamed_comm (h : Independent t) (hk : k ≠ k') :
    setNamed t k v (setNamed t k' w s) = setNamed t k' w (setNamed t k v s) := by
  obtain ⟨e, he, rfl, hs⟩ | hs := setNamed_cases t k
  case inr => rw [hs, hs]
  case inl =>
    obtain ⟨e', he', rfl, hs'⟩ | hs' := setNamed_cases t k'
    case inr => rw [hs', hs']
    case inl =>
      rw [hs, hs, hs', hs']
      have : Std.Symm fun a b : κ × (ν → σ → σ) => ∀ v w s, a.2 v (b.2 w s) = b.2 w (a.2 v s) :=
        ⟨fun _ _ h v w s => (h w v s).symm⟩
      exact List.Pairwise.forall h he he' (fun h => hk (h ▸ rfl)) v w s

theorem Independent.single (h : Independent t) (name : π → κ) (value : π → ν)
    (ho : ∀ e ∈ t, e.1 = k → ∀ v w s, e.2 v (e.2 w s) = e.2 v s) :
    Single (fun s p => setNamed t (name p) (value p) s) (name · = k) where
  absorb s p p' hp hp' := by
    simp only [of_decide_eq_true hp, of_decide_eq_true hp']
    obtain ⟨e, he, hk, hs⟩ | hs := setNamed_cases t k
    case inl => rw [hs, hs, hs, ho e he hk]
    case inr => rw [hs, hs, hs]
  comm s p p' hp hp' := by
    simp only [of_decide_eq_true hp]
    exact h.setNamed_comm (by simpa using hp')

end Table

-- A field of the records that `apply` fills. The item `p` writes `write p` to it, or leaves it.
structure Field (apply : σ → π → σ) (α : Type*) where
  get   : σ → α
  write : π → Option α
  law   : ∀ s p, get (apply s p) = (write p).getD (get s)

namespace Field

variable {apply : σ → π → σ} (f : Field apply α)

def lastWrite (ps : List π) : Option α :=
  (ps.filterMap f.write).getLast?

theorem lastWrite_nil : f.lastWrite [] = none :=
  rfl

theorem lastWrite_cons (p : π) (ps : List π) :
    f.lastWrite (p :: ps) = (f.lastWrite ps).or (f.write p) := by
  simp only [lastWrite, List.filterMap_cons]
  cases hw : f.write p
  case none   => simp
  case some v => cases h : ps.filterMap f.write <;> simp [List.getLast?_cons]

theorem lastWrite_isSome_iff (ps : List π) :
    (f.lastWrite ps).isSome ↔ ∃ p ∈ ps, (f.write p).isSome := by
  induction ps
  case nil          => simp [lastWrite_nil]
  case cons p ps hi => simp [lastWrite_cons, hi, or_comm]

theorem get_foldl (s : σ) (ps : List π) :
    f.get (ps.foldl apply s) = (f.lastWrite ps).getD (f.get s) := by
  induction ps generalizing s
  case nil          => rfl
  case cons p ps hi =>
    rw [List.foldl_cons, hi, f.law, lastWrite_cons]
    cases f.lastWrite ps <;> simp

-- A fill with `old` leaves nothing in a record that is filled with `new` then: `new` writes the field,
-- or `old` does not change what the record starts with.
def Settled (s : σ) (old new : List π) : Prop :=
  (∃ p ∈ new, (f.write p).isSome) ∨ ∀ v, f.lastWrite old = some v → v = f.get s

theorem get_foldl_foldl_eq_iff (s : σ) (old new : List π) :
    f.get (new.foldl apply (old.foldl apply s)) = f.get (new.foldl apply s) ↔ f.Settled s old new := by
  rw [Settled, ← lastWrite_isSome_iff, get_foldl, get_foldl, get_foldl]
  cases f.lastWrite new
  case some => simp
  case none => cases f.lastWrite old <;> simp

theorem lastWrite_filter {r : π → Bool} (h : ∀ p, ¬r p → f.write p = none) (ps : List π) :
    f.lastWrite (ps.filter r) = f.lastWrite ps := by
  rw [lastWrite, lastWrite, List.filterMap_filter]
  congr 1
  refine List.filterMap_congr fun p _ => ?_
  by_cases hr : r p
  case pos => simp [hr]
  case neg => simp [hr, h p hr]

-- The last item of a kind writes the field, or none of the kind changes what the record starts with.
def Renewed (s : σ) (q : π → Bool) (ps : List π) : Prop :=
  (∀ p, (ps.filter q).getLast? = some p → (f.write p).isSome) ∨ ∀ v, f.lastWrite ps = some v → v = f.get s

variable {q : π → Bool}

theorem get_dropEarlier (h : ∀ p, q p → f.write p = none) (s : σ) (ps : List π) :
    f.get ((dropEarlier q ps).foldl apply s) = f.get (ps.foldl apply s) := by
  have hr : ∀ p, ¬(!q p) = true → f.write p = none := fun p hp => h p (by simpa using hp)
  rw [get_foldl, get_foldl, ← f.lastWrite_filter hr, ← f.lastWrite_filter hr ps,
    filter_dropEarlier fun p hp => by simpa using hp]

theorem get_dropEarlier_iff (h : ∀ p, ¬q p → f.write p = none) (s : σ) (ps : List π) :
    f.get (ps.foldl apply s) = f.get ((dropEarlier q ps).foldl apply s) ↔ f.Renewed s q ps := by
  have hd : f.lastWrite (dropEarlier q ps) = (ps.filter q).getLast?.bind f.write := by
    rw [← f.lastWrite_filter h, filter_dropEarlier_self]
    cases (ps.filter q).getLast?
    case none   => rfl
    case some p => cases hw : f.write p <;> simp [lastWrite, hw]
  have hl : ∀ p v, (ps.filter q).getLast? = some p → f.write p = some v → f.lastWrite ps = some v :=
    fun p v hp hv => by
      obtain ⟨old, ho⟩ := List.getLast?_eq_some_iff.mp hp
      rw [← f.lastWrite_filter h, ho, lastWrite, List.filterMap_append]
      simp [hv]
  have hn : (ps.filter q).getLast? = none → f.lastWrite ps = none := fun hp => by
    rw [← f.lastWrite_filter h, List.getLast?_eq_none_iff.mp hp]
    rfl
  rw [get_foldl, get_foldl, hd, Renewed]
  cases hp : (ps.filter q).getLast?
  case none   => simp [hn hp]
  case some p =>
    cases hw : f.write p
    case some v => simp [hl p v hp hw, hw]
    case none   => cases hv : f.lastWrite ps <;> simp [hw]

end Field
end Overwrite
