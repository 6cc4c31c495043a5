import Mathlib.Data.List.Basic

-- Labelled transition relations, their runs and their invariants.

variable {σ : Type*} {ι : Type*}

namespace Transition

inductive Steps (R : σ → ι → σ → Prop) : σ → List ι → σ → Prop
  | refl {s}                 : Steps R s [] s
  | step {s₁ s₂ s₃ i is} : R s₁ i s₂ → Steps R s₂ is s₃ → Steps R s₁ (i :: is) s₃

-- The runs of `R` all of whose steps meet a condition on the state before and the label.
def Guarded (R : σ → ι → σ → Prop) (G : σ → ι → Prop) : σ → ι → σ → Prop :=
  fun s i s' => R s i s' ∧ G s i

def Preserves (R : σ → ι → σ → Prop) (P : σ → Prop) : Prop :=
  ∀ s i s', R s i s' → P s → P s'

def Deterministic (R : σ → ι → σ → Prop) : Prop :=
  ∀ s i s₁ s₂, R s i s₁ → R s i s₂ → s₁ = s₂

def Reachable (init : σ → Prop) (R : σ → ι → σ → Prop) (s : σ) : Prop :=
  ∃ s₀ is, init s₀ ∧ Steps R s₀ is s

def replay (step : σ → ι → Option σ) (s : σ) (is : List ι) : Option σ :=
  is.foldlM step s

namespace Steps

variable {R R' : σ → ι → σ → Prop} {P : σ → Prop} {s s₁ s₂ s₃ : σ} {i : ι} {is js : List ι}

theorem invariant (e : Steps R s₁ is s₂) (hp : Preserves R P) (h : P s₁) : P s₂ := by
  induction e
  case refl           => exact h
  case step hs _ hi => exact hi (hp _ _ _ hs h)

theorem mono (e : Steps R s₁ is s₂) (h : ∀ s i s', R s i s' → R' s i s') : Steps R' s₁ is s₂ := by
  induction e
  case refl           => exact .refl
  case step hs _ hi => exact .step (h _ _ _ hs) hi

theorem guard {G : σ → ι → Prop} (e : Steps R s₁ is s₂) (h : ∀ i ∈ is, ∀ s, G s i) :
    Steps (Guarded R G) s₁ is s₂ := by
  induction e
  case refl           => exact .refl
  case step hs _ hi =>
    have ⟨h, ht⟩ := List.forall_mem_cons.mp h
    exact .step ⟨hs, h _⟩ (hi ht)

-- What a step makes of the labels so far and the state, a run does.
theorem history {P : List ι → σ → Prop} {hist : List ι} (e : Steps R s₁ is s₂)
    (hp : ∀ hist s i s', R s i s' → P hist s → P (hist ++ [i]) s') (h : P hist s₁) :
    P (hist ++ is) s₂ := by
  induction e generalizing hist
  case refl           => simpa using h
  case step hs _ hi => simpa using hi (hp _ _ _ _ hs h)

theorem with_invariant (e : Steps R s₁ is s₂) (hp : Preserves R P) (h : P s₁) :
    Steps (fun s i s' => R s i s' ∧ P s) s₁ is s₂ := by
  induction e
  case refl           => exact .refl
  case step hs _ hi => exact .step ⟨hs, h⟩ (hi (hp _ _ _ hs h))

theorem append (e₁ : Steps R s₁ is s₂) (e₂ : Steps R s₂ js s₃) : Steps R s₁ (is ++ js) s₃ := by
  induction e₁
  case refl           => exact e₂
  case step hs _ hi => exact .step hs (hi e₂)

theorem of_replay {step : σ → ι → Option σ} (h : replay step s₁ is = some s₂) :
    Steps (fun s i s' => step s i = some s') s₁ is s₂ := by
  induction is generalizing s₁
  case nil          => obtain rfl := Option.some.inj h; exact .refl
  case cons i is hi =>
    have ⟨_, hs, h⟩ := Option.bind_eq_some_iff.mp h
    exact .step hs (hi h)

theorem of_replay_guarded {step : σ → ι → Option σ} {G : σ → ι → Prop} [∀ s i, Decidable (G s i)]
    (h : replay (fun s i => if G s i then step s i else none) s₁ is = some s₂) :
    Steps (Guarded (fun s i s' => step s i = some s') G) s₁ is s₂ :=
  (of_replay h).mono fun _ _ _ hs => by
    split at hs
    case isTrue hg => exact ⟨hs, hg⟩
    case isFalse   => cases hs

theorem deterministic (hd : Deterministic R) {s s₁ s₂ : σ} {is : List ι} :
    Steps R s is s₁ → Steps R s is s₂ → s₁ = s₂
  | .refl,       .refl       => rfl
  | .step h₁ e₁, .step h₂ e₂ => e₁.deterministic hd (hd _ _ _ _ h₁ h₂ ▸ e₂)

-- Labels whose steps leave the state alone can be dropped from a run.
theorem drop_silent {silent : ι → Bool} (e : Steps R s₁ is s₂)
    (h : ∀ s i s', silent i → R s i s' → s' = s) : Steps R s₁ (is.filter (!silent ·)) s₂ := by
  induction e
  case refl => exact .refl
  case step i _ hs _ hi =>
    cases hq : silent i
    case false => simpa [hq] using .step hs hi
    case true  => simpa [hq] using h _ _ _ hq hs ▸ hi

end Steps

theorem Reachable.invariant {init : σ → Prop} {R : σ → ι → σ → Prop} {P : σ → Prop} {s : σ}
    (h : Reachable init R s) (h₀ : ∀ s, init s → P s) (hp : Preserves R P) : P s :=
  have ⟨_, _, hi, e⟩ := h
  e.invariant hp (h₀ _ hi)

theorem Reachable.mono {init init' : σ → Prop} {R R' : σ → ι → σ → Prop} {s : σ} (h : Reachable init R s)
    (hi : ∀ s, init s → init' s) (hR : ∀ s i s', R s i s' → R' s i s') : Reachable init' R' s :=
  have ⟨s₀, is, h₀, e⟩ := h
  ⟨s₀, is, hi s₀ h₀, e.mono hR⟩

end Transition
