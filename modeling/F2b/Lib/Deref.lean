import Mathlib.Data.List.Basic

-- Programs that read slots, some of which may be empty. Reading an empty one is a fault. The slots that have
-- been read are known at the end.

abbrev Deref (α : Type) := StateT (List Nat) Option α

namespace Deref

variable {α δ σ : Type}

def read (slots : Nat → Option σ) (i : Nat) : Deref σ :=
  fun log => (slots i).map (·, log ++ [i])

def follow (p : Option α) : Deref α :=
  fun log => p.map (·, log)

-- There is no fault, all slots that are read have a property, and so has the result.
def Safe (P : Nat → Prop) (m : Deref α) (Q : α → Prop) : Prop :=
  ∃ a new, (∀ log, m.run log = some (a, log ++ new)) ∧ (∀ i ∈ new, P i) ∧ Q a

def value (m : Deref α) (default : α) : α :=
  (m.run []).elim default Prod.fst

section Rules

variable {P P' : Nat → Prop} {Q Q' : α → Prop} {R : δ → Prop} {m : Deref α} {a : α}

theorem safe_pure (h : Q a) : Safe P (pure a) Q :=
  ⟨a, [], fun log => by rw [List.append_nil]; rfl, List.forall_mem_nil _, h⟩

theorem safe_read {slots : Nat → Option σ} {i : Nat} {t : σ} {Q : σ → Prop} (hs : slots i = some t) (hi : P i)
    (ht : Q t) : Safe P (read slots i) Q :=
  ⟨t, [i], fun log => by simp [read, StateT.run, hs], List.forall_mem_singleton.mpr hi, ht⟩

theorem Safe.bind (h : Safe P m Q) {f : α → Deref δ} (hf : ∀ a, Q a → Safe P (f a) R) : Safe P (m >>= f) R := by
  have ⟨a, new, hm, hn, ha⟩ := h
  have ⟨d, new', hd, hn', hr⟩ := hf a ha
  refine ⟨d, new ++ new', fun log => ?_, List.forall_mem_append.mpr ⟨hn, hn'⟩, hr⟩
  rw [StateT.run_bind, hm, ← List.append_assoc]
  exact hd (log ++ new)

theorem Safe.bind_eq (h : Safe P m (· = a)) {f : α → Deref δ} (hf : Safe P (f a) R) : Safe P (m >>= f) R := by
  refine h.bind ?_
  rintro _ rfl
  exact hf

theorem safe_ite {c : Prop} [Decidable c] {m' : Deref α} (h : c → Safe P m Q) (h' : ¬c → Safe P m' Q) :
    Safe P (if c then m else m') Q := by
  split
  case isTrue hc  => exact h hc
  case isFalse hc => exact h' hc

theorem safe_follow {p : Option α} (hp : p.isSome) {f : α → Deref δ} (hf : ∀ a, Safe P (f a) R) :
    Safe P (follow p >>= f) R := by
  obtain ⟨a, rfl⟩ := Option.isSome_iff_exists.mp hp
  have h : Safe P (follow (some a)) fun _ => True :=
    ⟨a, [], fun log => by rw [List.append_nil]; rfl, List.forall_mem_nil _, trivial⟩
  exact h.bind fun a _ => hf a

theorem Safe.mono (h : Safe P m Q) (hp : ∀ i, P i → P' i) (hq : ∀ a, Q a → Q' a) : Safe P' m Q' := by
  have ⟨a, new, hm, hn, ha⟩ := h
  exact ⟨a, new, hm, fun i hi => hp i (hn i hi), hq a ha⟩

theorem Safe.value (h : Safe P m Q) (default : α) : Safe P m (· = m.value default) := by
  have ⟨a, new, hm, hn, _⟩ := h
  exact ⟨a, new, hm, hn, by rw [Deref.value, hm]; rfl⟩

theorem run_read_bind {slots : Nat → Option σ} {i : Nat} {f : σ → Deref δ} {log : List Nat} {r : δ × List Nat}
    (h : (read slots i >>= f).run log = some r) : ∃ t, slots i = some t ∧ (f t).run (log ++ [i]) = some r := by
  rw [StateT.run_bind] at h
  simp only [read, StateT.run] at h
  cases hs : slots i
  case none   => simp [hs] at h
  case some t =>
    simp only [hs] at h
    exact ⟨t, rfl, h⟩

theorem run_follow_bind {p : Option α} {f : α → Deref δ} {log : List Nat} {r : δ × List Nat}
    (h : (follow p >>= f).run log = some r) :
    ∃ a, p = some a ∧ (f a).run log = some r := by
  rw [StateT.run_bind] at h
  simp only [follow, StateT.run] at h
  cases p
  case none   => simp at h
  case some a => exact ⟨a, rfl, h⟩

end Rules
end Deref
