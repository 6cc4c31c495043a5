import F2b.Lib.Transition

-- What the steps of a run bring into it, and states that hold nothing else.

variable {σ ι τ : Type*}

namespace Transition

-- A step of the run has brought `t` in: one whose state before and label name it.
def Brought (R : σ → ι → σ → Prop) (N : σ → ι → τ → Prop) (s₀ : σ) (is : List ι) (t : τ) : Prop :=
  ∃ pre i post s, is = pre ++ i :: post ∧ Steps R s₀ pre s ∧ N s i t

variable {R : σ → ι → σ → Prop} {N : σ → ι → τ → Prop} {s₀ s : σ} {is js : List ι} {i : ι} {t : τ}

theorem Brought.append (h : Brought R N s₀ is t) (js : List ι) : Brought R N s₀ (is ++ js) t :=
  have ⟨pre, i, post, s, he, e, hn⟩ := h
  ⟨pre, i, post ++ js, s, by rw [he, List.append_assoc, List.cons_append], e, hn⟩

theorem Steps.brought_snoc (e : Steps R s₀ is s) (h : N s i t) : Brought R N s₀ (is ++ [i]) t :=
  ⟨is, i, [], s, rfl, e, h⟩

theorem Steps.snoc {s' : σ} (e : Steps R s₀ is s) (h : R s i s') : Steps R s₀ (is ++ [i]) s' :=
  e.append (.step h .refl)

-- A state is confined to some things by `P`. If a step needs only those that it brings in besides, then all that a
-- run needs is what was there and what its steps have brought in.
theorem Steps.confined {P : (τ → Prop) → σ → Prop} {A : τ → Prop} (e : Steps R s₀ is s)
    (hm : ∀ {A A' s}, (∀ t, A t → A' t) → P A s → P A' s)
    (hs : ∀ {A s i s'}, R s i s' → P A s → P (fun t => A t ∨ N s i t) s') (h₀ : P A s₀) :
    P (fun t => A t ∨ Brought R N s₀ is t) s := by
  have hh : Steps R s₀ ([] ++ is) s ∧ P (fun t => A t ∨ Brought R N s₀ ([] ++ is) t) s := by
    refine e.history (P := fun is s => Steps R s₀ is s ∧ P (fun t => A t ∨ Brought R N s₀ is t) s) ?_
      ⟨.refl, hm (fun _ => .inl) h₀⟩
    intro is s i s' h ⟨e, hp⟩
    refine ⟨e.snoc h, hm (fun t => ?_) (hs h hp)⟩
    rintro ((ha | hb) | hn)
    · exact .inl ha
    · exact .inr (hb.append [i])
    · exact .inr (e.brought_snoc hn)
  exact hh.2

end Transition
