import F2b.Lib.Origins
import Mathlib.Logic.Function.Basic

-- A network of nodes that work on their own. What one of them sends is heard by all, in the order in which it is
-- sent, and so is what is said from outside.

structure Broadcast (κ ν α μ : Type*) where
  act  : κ → ν → α → Option (ν × List μ)
  hear : κ → List μ → ν → ν

namespace Broadcast

open Transition (Steps Brought)

variable {κ ν α μ τ : Type*} [DecidableEq κ] (B : Broadcast κ ν α μ)

inductive Event (κ α μ : Type*)
  | act (k : κ) (a : α)
  | say (m : μ)

-- The node has acted when it hears what it has sent itself.
def step (net : κ → ν) : Event κ α μ → Option (κ → ν)
  | .act k a => (B.act k (net k) a).map fun (node, sent) j => B.hear j sent (Function.update net k node j)
  | .say m   => some fun j => B.hear j [m] (net j)

def Step (net : κ → ν) (e : Event κ α μ) (net' : κ → ν) : Prop :=
  B.step net e = some net'

-- What the nodes of a network do, and what is said to them, brings in.
def Names (N : κ → ν → α → τ → Prop) (M : μ → τ → Prop) (net : κ → ν) : Event κ α μ → τ → Prop
  | .act k a, t => N k (net k) a t
  | .say m,   t => M m t

def acts (k : κ) (es : List (Event κ α μ)) : List α :=
  es.filterMap fun
    | .act j a => if j = k then some a else none
    | .say _   => none

variable {B} {net net' : κ → ν} {e : Event κ α μ} {es : List (Event κ α μ)} {k : κ}

theorem acts_append (k : κ) (es es' : List (Event κ α μ)) : acts k (es ++ es') = acts k es ++ acts k es' :=
  List.filterMap_append ..

theorem acts_act (j k : κ) (a : α) : acts k [(.act j a : Event κ α μ)] = if j = k then [a] else [] := by
  by_cases hj : j = k <;> simp [acts, hj]

theorem acts_say (k : κ) (m : μ) : acts k [(.say m : Event κ α μ)] = [] :=
  rfl

theorem step_act {a : α} (h : B.Step net (.act k a) net') :
    ∃ node sent, B.act k (net k) a = some (node, sent) ∧
    net' = fun j => B.hear j sent (Function.update net k node j) := by
  obtain ⟨⟨node, sent⟩, ha, rfl⟩ := Option.map_eq_some_iff.mp h
  exact ⟨node, sent, ha, rfl⟩

-- A property of a node and of what it has done: it is kept by hearing, and each act does its part.
theorem Step.each {P : List α → ν → Prop} {hist : List (Event κ α μ)} (k : κ)
    (ha : ∀ hist node a node' sent, B.act k node a = some (node', sent) → P hist node → P (hist ++ [a]) node')
    (hh : ∀ hist node sent, P hist node → P hist (B.hear k sent node))
    (h : B.Step net e net') (hp : P (acts k hist) (net k)) : P (acts k (hist ++ [e])) (net' k) := by
  cases e
  case say m   =>
    obtain rfl := Option.some.inj h
    rw [acts_append, acts_say, List.append_nil]
    exact hh _ _ _ hp
  case act j a =>
    obtain ⟨node, sent, hact, rfl⟩ := step_act h
    rw [acts_append, acts_act]
    refine hh _ _ _ ?_
    by_cases hj : j = k
    case pos =>
      subst hj
      rw [if_pos rfl, Function.update_self]
      exact ha _ _ _ _ _ hact hp
    case neg =>
      rw [if_neg hj, List.append_nil, Function.update_of_ne (Ne.symm hj)]
      exact hp

theorem each_of_steps {P : List α → ν → Prop} (k : κ)
    (ha : ∀ hist node a node' sent, B.act k node a = some (node', sent) → P hist node → P (hist ++ [a]) node')
    (hh : ∀ hist node sent, P hist node → P hist (B.hear k sent node))
    (r : Steps B.Step net es net') (hp : P [] (net k)) : P (acts k es) (net' k) := by
  have hr := r.history (P := fun es net => P (acts k es) (net k)) (fun _ _ _ _ => Step.each k ha hh)
    (show P (acts k []) (net k) from hp)
  exact hr

-- Nodes that are confined to some things, as is what they send: in a run of the network they need no more than the
-- nodes had, what their acts bring in and what is brought in from outside.
theorem confined {P : κ → (τ → Prop) → ν → Prop} {Q : (τ → Prop) → μ → Prop} {N : κ → ν → α → τ → Prop}
    {M : μ → τ → Prop} {A : τ → Prop}
    (hp : ∀ {k A A' node}, (∀ t, A t → A' t) → P k A node → P k A' node)
    (ha : ∀ {k A node a node' sent}, B.act k node a = some (node', sent) → P k A node →
      P k (fun t => A t ∨ N k node a t) node' ∧ ∀ m ∈ sent, Q (fun t => A t ∨ N k node a t) m)
    (hh : ∀ {k A node sent}, (∀ m ∈ sent, Q A m) → P k A node → P k A (B.hear k sent node))
    (hm : ∀ m, Q (M m) m) (hq : ∀ {A A' m}, (∀ t, A t → A' t) → Q A m → Q A' m)
    (r : Steps B.Step net es net') (h₀ : ∀ k, P k A (net k)) :
    ∀ k, P k (fun t => A t ∨ Brought B.Step (Names N M) net es t) (net' k) := by
  refine r.confined (N := Names N M) (P := fun A net => ∀ k, P k A (net k)) (fun h hk k => hp h (hk k)) ?_ h₀
  intro A net e net' h hk
  cases e
  case say m   =>
    obtain rfl := Option.some.inj h
    intro k
    refine hh (fun m' hm' => ?_) (hp (fun _ => .inl) (hk k))
    obtain rfl := List.mem_singleton.mp hm'
    exact hq (fun _ => .inr) (hm m')
  case act j a =>
    obtain ⟨node, sent, hact, rfl⟩ := step_act h
    have ⟨hn, hs⟩ := ha hact (hk j)
    intro k
    refine hh hs ?_
    by_cases hj : k = j
    case pos =>
      subst hj
      rw [Function.update_self]
      exact hn
    case neg =>
      rw [Function.update_of_ne hj]
      exact hp (fun _ => .inl) (hk k)

end Broadcast
