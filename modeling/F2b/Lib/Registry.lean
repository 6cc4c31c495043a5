import Mathlib.Data.List.Basic

-- Lists of named objects that grow at their head. Counted from the end, an object keeps its number.

namespace Registry

variable {α κ : Type*} [DecidableEq κ] (key : α → κ)

def find (l : List α) (k : κ) : Option α :=
  l.find? (key · = k)

def serial (l : List α) (k : κ) : Option Nat :=
  (l.findIdx? (key · = k)).map (l.length - 1 - ·)

variable {key} {l l' : List α} {k k' : κ} {n : Nat} {a : α} {f : α → α}

theorem serial_congr (h : l.map key = l'.map key) : serial key l k = serial key l' k := by
  have hm : ∀ l : List α, l.findIdx? (key · = k) = (l.map key).findIdx? (· = k) := fun l => by
    rw [List.findIdx?_map]
    rfl
  have hl : l.length = l'.length := by simpa using congrArg List.length h
  rw [serial, serial, hm, hm, h, hl]

theorem serial_eq_none_iff : serial key l k = none ↔ ∀ a ∈ l, key a ≠ k := by
  simp [serial, List.findIdx?_eq_none_iff]

theorem find_eq_none_iff : find key l k = none ↔ ∀ a ∈ l, key a ≠ k := by
  simp [find]

theorem serial_cons_self : serial key (a :: l) (key a) = some l.length := by
  simp [serial, List.findIdx?_cons]

theorem lt_of_serial (h : serial key l k = some n) : n < l.length := by
  obtain ⟨i, hi, rfl⟩ := Option.map_eq_some_iff.mp h
  have ⟨hl, _⟩ := List.findIdx?_eq_some_iff_getElem.mp hi
  omega

theorem serial_cons_of_ne (h : key a ≠ k) : serial key (a :: l) k = serial key l k := by
  rw [serial, List.findIdx?_cons, if_neg (by simpa using h), Option.map_map]
  refine Option.map_congr fun i hi => ?_
  have ⟨hl, _⟩ := List.findIdx?_eq_some_iff_getElem.mp hi
  simp only [Function.comp_apply, List.length_cons]
  omega

theorem serial_cons (h : serial key l k = some n) (ha : serial key l (key a) = none) :
    serial key (a :: l) k = some n := by
  have hn : key a ≠ k := fun he => by simp [he, h] at ha
  rwa [serial_cons_of_ne hn]

theorem serial_inj (h : serial key l k = some n) (h' : serial key l k' = some n) : k = k' := by
  obtain ⟨i, hi, hn⟩ := Option.map_eq_some_iff.mp h
  obtain ⟨j, hj, rfl⟩ := Option.map_eq_some_iff.mp h'
  have ⟨hil, hik, _⟩ := List.findIdx?_eq_some_iff_getElem.mp hi
  have ⟨hjl, hjk, _⟩ := List.findIdx?_eq_some_iff_getElem.mp hj
  obtain rfl : i = j := by omega
  exact (of_decide_eq_true hik).symm.trans (of_decide_eq_true hjk)

omit [DecidableEq κ] in
theorem map_key_modify (hf : ∀ a, key (f a) = key a) (i : Nat) : (l.modify i f).map key = l.map key := by
  induction l generalizing i
  case nil          => simp
  case cons a as hi => cases i <;> simp [hf, hi]

theorem find_modify (h : serial key l k = some n) (hf : ∀ a, key (f a) = key a) :
    find key (l.modify (l.length - 1 - n) f) k' =
    if k' = k then (find key l k).map f else find key l k' := by
  induction l
  case nil          => simp [serial] at h
  case cons a as hi =>
    by_cases ha : key a = k
    case pos =>
      obtain rfl : as.length = n := by
        subst ha
        exact Option.some.inj (serial_cons_self.symm.trans h)
      by_cases hk : k' = k
      case pos => simp [find, hf, ha, hk]
      case neg => simp [find, hf, ha, hk, show ¬k = k' from Ne.symm hk]
    case neg =>
      rw [serial_cons_of_ne ha] at h
      have hl := lt_of_serial h
      have hs : (a :: as).length - 1 - n = as.length - 1 - n + 1 := by
        rw [List.length_cons]
        omega
      have hi := hi h
      simp only [find] at hi ⊢
      rw [hs, List.modify_succ_cons, List.find?_cons, List.find?_cons, List.find?_cons, hi]
      by_cases hk : k' = k
      case pos => simp [hk, ha]
      case neg => by_cases ha' : key a = k' <;> simp [hk, ha']

theorem find_cons : find key (a :: l) k = if key a = k then some a else find key l k := by
  by_cases h : key a = k <;> simp [find, h]

end Registry
