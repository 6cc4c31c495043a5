import F2b.Objects.Strlcpy

-- The string functions put strings together as far as there is room, and touch nothing else.

namespace F2b.Strlcpy

open CString (nul)

structure IsString (m : Cells Char) (p : Nat) (s : CString) : Prop where
  holds : m.Holds p (s ++ [nul])
  text  : nul ∉ s

structure Source (m : Cells Char) (dst size src : Nat) (s : CString) : Prop extends IsString m src s where
  apart : dst + size ≤ src ∨ src + s.length + 1 ≤ dst

variable {m m' : Cells Char} {dst src size n turns : Nat} {s t : CString} {c : Char}

theorem IsString.nil (h : IsString m src []) : m src = some nul :=
  h.holds.head

theorem IsString.head (h : IsString m src (c :: s)) : m src = some c ∧ c ≠ nul :=
  ⟨h.holds.head, fun he => h.text (he ▸ List.mem_cons_self)⟩

theorem IsString.tail (h : IsString m src (c :: s)) : IsString m (src + 1) s :=
  ⟨h.holds.tail, fun hm => h.text (List.mem_cons_of_mem _ hm)⟩

theorem IsString.drop (h : IsString m src s) (hn : n ≤ s.length) : IsString m (src + n) (s.drop n) := by
  induction n generalizing src s
  case zero      => exact h
  case succ n hi =>
    cases s
    case nil       => cases hn
    case cons c s =>
      rw [List.drop_succ_cons, Nat.add_comm n, ← Nat.add_assoc]
      exact hi h.tail (Nat.le_of_succ_le_succ hn)

theorem Source.congr (h : Source m dst size src s) (hm : ∀ q, ¬(dst ≤ q ∧ q < dst + size) → m' q = m q) :
    Source m' dst size src s := by
  refine ⟨⟨h.holds.congr fun q hq hl => hm q ?_, h.text⟩, h.apart⟩
  have := h.apart
  rw [List.length_append, List.length_singleton] at hl
  omega

theorem Source.mono (h : Source m dst size src s) (hn : n ≤ size) : Source m dst n src s :=
  ⟨h.toIsString, by have := h.apart; omega⟩

theorem Source.update (h : Source m dst (size + 1) src (c :: s)) :
    Source (Function.update m dst (some c)) (dst + 1) size (src + 1) s := by
  have ha := h.apart
  rw [List.length_cons] at ha
  have hs : Source m dst 1 (src + 1) s := ⟨h.tail, by omega⟩
  have hs' : Source (Function.update m dst (some c)) dst 1 (src + 1) s :=
    hs.congr fun q hq => Function.update_of_ne (by omega) ..
  exact ⟨hs'.toIsString, by omega⟩

theorem allocated_update (h : m.Allocated dst (size + 1)) (c : Char) :
    Cells.Allocated (Function.update m dst (some c)) (dst + 1) size :=
  h.tail.mono fun _ => Cells.isSome_update

theorem copyLoop_eq (hs : Source m dst n src s) (hd : m.Allocated dst n) :
    copyLoop n dst src m =
    if s.length < n then some (n - s.length, dst + s.length + 1, src + s.length + 1, m.fill dst (s ++ [nul]))
    else some (0, dst + n, src + n, m.fill dst (s.take n)) := by
  induction n generalizing dst src s m
  case zero      => rw [if_neg (Nat.not_lt_zero _), List.take_zero, Cells.fill_nil]; rfl
  case succ n hi =>
    have hst (c : Char) : m.store dst c = some (Function.update m dst (some c)) :=
      Cells.store_eq (hd 0 (by omega)) c
    cases s
    case nil      =>
      rw [if_pos (by simp), copyLoop, hs.nil, List.nil_append, Cells.fill_cons, Cells.fill_nil]
      simp [hst]
    case cons c s =>
      have ⟨hc, hn⟩ := hs.head
      rw [copyLoop, hc, List.cons_append, Cells.fill_cons, List.take_succ_cons, Cells.fill_cons]
      simp only [hst, Option.bind_eq_bind, Option.bind_some, hn, if_false, hi hs.update (allocated_update hd c),
        List.length_cons, Nat.add_lt_add_iff_right]
      simp only [Nat.add_sub_add_right, Nat.add_assoc, Nat.add_comm 1]

theorem skipLoop_eq (hs : IsString m src s) (ht : s.length < turns) :
    skipLoop turns src m = some (src + s.length + 1) := by
  induction turns generalizing src s
  case zero          => cases ht
  case succ turns hi =>
    cases s
    case nil      => simp [skipLoop, hs.nil]
    case cons c s =>
      have ⟨hc, hn⟩ := hs.head
      rw [skipLoop, hc, Option.bind_eq_bind, Option.bind_some, if_neg hn, hi hs.tail (Nat.lt_of_succ_lt_succ ht),
        List.length_cons]
      congr 1
      omega

theorem strlcpy_eq (hs : Source m dst size src s) (hd : m.Allocated dst size) (ht : s.length < turns) (h0 : 0 < size) :
    strlcpy turns m dst src size = some (s.length, m.fill dst (s.strlcpy size ++ [nul])) := by
  obtain ⟨k, rfl⟩ := Nat.exists_eq_add_one.mpr h0
  have hc := copyLoop_eq (hs.mono (Nat.le_succ k)) (hd.take (Nat.le_succ k))
  rw [strlcpy, if_pos (Nat.succ_ne_zero k), Nat.add_sub_cancel, hc]
  by_cases hl : s.length < k
  case pos =>
    have hn : k - s.length ≠ 0 := by omega
    have hr : src + s.length + 1 - src - 1 = s.length := by omega
    rw [CString.strlcpy_of_lt (Nat.lt_succ_of_lt hl)]
    simp only [if_pos hl, Option.bind_eq_bind, Option.bind_some, hn, if_false, hr]
  case neg =>
    have hk : k ≤ s.length := Nat.le_of_not_lt hl
    have hlen : (s.take k).length = k := List.length_take_of_le hk
    have hst := Cells.store_eq (Cells.isSome_fill (p := dst) (l := s.take k) (hd k (Nat.lt_succ_self k))) nul
    have hu := Cells.update_fill m dst (s.take k) nul
    rw [hlen] at hu
    have hs' : Source (m.fill dst (s.take k ++ [nul])) dst (k + 1) src s := by
      refine hs.congr fun q hq => Cells.fill_of_not ?_
      rwa [List.length_append, hlen]
    have hskip := skipLoop_eq (hs'.toIsString.drop hk) (show (s.drop k).length < turns by rw [List.length_drop]; omega)
    have hr : src + k + (s.drop k).length + 1 - src - 1 = s.length := by
      rw [List.length_drop]
      omega
    simp only [if_neg hl, Option.bind_eq_bind, Option.bind_some, if_true, ne_eq, Nat.succ_ne_zero, not_false_eq_true,
      hst, hu, hskip, hr]
    rfl

theorem endLoop_eq (h : IsString m dst t) : endLoop n dst m = some (dst + min n t.length) := by
  induction n generalizing dst t
  case zero      => simp [endLoop]
  case succ n hi =>
    cases t
    case nil      => simp [endLoop, h.nil]
    case cons c t =>
      have ⟨hc, hn⟩ := h.head
      rw [endLoop, hc, Option.bind_eq_bind, Option.bind_some, if_pos hn, hi h.tail, List.length_cons]
      congr 1
      omega

theorem catLoop_eq (hs : Source m dst n src s) (hd : m.Allocated dst n) (ht : s.length < turns) :
    catLoop turns n dst src m = some (dst + min n s.length, src + s.length, m.fill dst (s.take n)) := by
  induction turns generalizing n dst src s m
  case zero          => cases ht
  case succ turns hi =>
    cases s
    case nil      => simp [catLoop, hs.nil, Cells.fill_nil]
    case cons c s =>
      have ⟨hc, hn⟩ := hs.head
      have ht := Nat.lt_of_succ_lt_succ ht
      have hr : src + 1 + s.length = src + (s.length + 1) := by omega
      rw [catLoop, hc, Option.bind_eq_bind, Option.bind_some, if_neg hn, List.length_cons]
      cases n
      case zero   =>
        have ha : Source m dst 0 (src + 1) s := ⟨hs.tail, by have := hs.apart; rw [List.length_cons] at this; omega⟩
        rw [if_neg (not_not_intro rfl), hi ha (fun i hi => absurd hi (Nat.not_lt_zero i)) ht, hr]
        simp
      case succ n =>
        have hm : dst + 1 + min n s.length = dst + min (n + 1) (s.length + 1) := by omega
        have hst : m.store dst c = some (Function.update m dst (some c)) := Cells.store_eq (hd 0 (Nat.succ_pos n)) c
        rw [if_pos (Nat.succ_ne_zero n), hst, Option.bind_eq_bind, Option.bind_some, Nat.add_sub_cancel,
          hi hs.update (allocated_update hd c) ht, hr, hm, List.take_succ_cons, Cells.fill_cons]

theorem strlcat_eq (hs : Source m dst size src s) (hd : m.Allocated dst size) (ht : s.length < turns)
    (h : IsString m dst t) (hl : t.length < size) :
    strlcat turns m dst src size = some (t.length + s.length, m.fill dst ((t ++ s).strlcpy size ++ [nul])) := by
  have hmin : min size t.length = t.length := Nat.min_eq_right (Nat.le_of_lt hl)
  have hdl : dst + t.length - dst = t.length := Nat.add_sub_cancel_left ..
  have hn : size - t.length ≠ 0 := by omega
  have hd' := hd.drop (Nat.le_of_lt hl)
  have hs' : Source m (dst + t.length) (size - t.length - 1) src s := ⟨hs.toIsString, by have := hs.apart; omega⟩
  have hc := catLoop_eq hs' (hd'.take (Nat.sub_le ..)) ht
  have hlen : (s.take (size - t.length - 1)).length = min (size - t.length - 1) s.length := List.length_take
  have hst := Cells.store_eq (a := nul) (Cells.isSome_fill (p := dst + t.length) (l := s.take (size - t.length - 1))
    (hd' (min (size - t.length - 1) s.length) (by omega)))
  have hu := Cells.update_fill m (dst + t.length) (s.take (size - t.length - 1)) nul
  rw [hlen] at hu
  have hf : m.fill (dst + t.length) (s.take (size - t.length - 1) ++ [nul]) =
      m.fill dst ((t ++ s).strlcpy size ++ [nul]) := by
    calc m.fill (dst + t.length) (s.take (size - t.length - 1) ++ [nul])
      _ = (m.fill dst (t ++ [nul])).fill (dst + t.length) (s.take (size - t.length - 1) ++ [nul]) := by
        rw [h.holds.fill_eq]
      _ = m.fill dst (t ++ (s.take (size - t.length - 1) ++ [nul])) := Cells.fill_fill (by simp)
      _ = _ := by
        rw [CString.strlcpy, List.take_append, List.take_of_length_le (show t.length ≤ size - 1 by omega),
          List.append_assoc, Nat.sub_right_comm]
  rw [strlcat, endLoop_eq h, hmin]
  simp only [Option.bind_eq_bind, Option.bind_some, hdl, hn, if_false, hc, hst, hu, hf, Nat.add_sub_cancel_left]

section Build

variable {srcs : List Nat} {strs : List CString}

-- Calls of `strlcat` one after the other, with what they return.
def strlcats (turns dst size : Nat) : List Nat → Cells Char → Option (List Nat × Cells Char)
  | [],          m => some ([], m)
  | src :: srcs, m => do
    let (n, m) ← strlcat turns m dst src size
    let (ns, m) ← strlcats turns dst size srcs m
    some (n :: ns, m)

def build (turns dst size src : Nat) (srcs : List Nat) (m : Cells Char) : Option (List Nat × Cells Char) := do
  let (n, m) ← strlcpy turns m dst src size
  let (ns, m) ← strlcats turns dst size srcs m
  some (n :: ns, m)

theorem strlcpy_append (t s : CString) (size : Nat) : (t.strlcpy size ++ s).strlcpy size = (t ++ s).strlcpy size := by
  simp only [CString.strlcpy, List.take_append, List.take_take, Nat.min_self, List.length_take]
  congr 2
  omega

theorem length_strlcpy_le (t s : CString) (size : Nat) :
    (t.strlcpy size ++ [nul]).length ≤ ((t ++ s).strlcpy size ++ [nul]).length := by
  simp only [CString.strlcpy, List.length_append, List.length_take]
  omega

-- What stands in the buffer is all that has been added, as far as there is room.
theorem strlcats_eq (h0 : 0 < size) (hd : m.Allocated dst size) (hn : nul ∉ t)
    (hs : List.Forall₂ (fun src s => Source m dst size src s ∧ s.length < turns) srcs strs) :
    ∃ ns, strlcats turns dst size srcs (m.fill dst (t.strlcpy size ++ [nul])) =
      some (ns, m.fill dst (CString.strlcpy (t ++ strs.flatten) size ++ [nul])) ∧
    (t.length < size → ((∀ n ∈ ns, n < size) ↔ (t ++ strs.flatten).length < size)) := by
  induction hs generalizing t
  case nil => exact ⟨[], by simp [strlcats], fun h => by simp [h]⟩
  case cons src s srcs strs hsrc _ hi =>
    obtain ⟨hsrc, ht⟩ := hsrc
    have hlt := CString.length_strlcpy_lt t h0
    have hsrc' : Source (m.fill dst (t.strlcpy size ++ [nul])) dst size src s := by
      refine hsrc.congr fun q hq => Cells.fill_of_not ?_
      rw [List.length_append, List.length_singleton]
      omega
    have hstr : IsString (m.fill dst (t.strlcpy size ++ [nul])) dst (t.strlcpy size) :=
      ⟨Cells.holds_fill m dst _, fun hm => hn (List.mem_of_mem_take hm)⟩
    have hcat := strlcat_eq hsrc' (hd.mono fun _ => Cells.isSome_fill) ht hstr hlt
    have hf := Cells.fill_fill (m := m) (p := dst) (s := []) (length_strlcpy_le t s size)
    rw [List.nil_append, List.nil_append, List.length_nil, Nat.add_zero] at hf
    rw [strlcpy_append, hf] at hcat
    obtain ⟨ns, hrun, hns⟩ := hi (t := t ++ s) (by simp [hn, hsrc.text])
    refine ⟨((t.strlcpy size).length + s.length) :: ns, ?_, fun hl => ?_⟩
    case refine_1 =>
      simp only [strlcats, hcat, Option.bind_eq_bind, Option.bind_some, hrun, List.flatten_cons, List.append_assoc]
    case refine_2 =>
      rw [CString.strlcpy_of_lt hl, List.forall_mem_cons, List.flatten_cons, ← List.append_assoc]
      by_cases hc : (t ++ s).length < size
      case pos => rw [hns hc, ← List.length_append]; exact and_iff_right hc
      case neg =>
        rw [List.length_append] at hc
        refine iff_of_false (fun h => hc h.1) fun h => hc ?_
        simp only [List.length_append] at h
        omega

-- A text that is put together from strings is their concatenation as far as it fits the buffer, with its
-- terminator. No other memory is touched, and what the calls return tells whether something is missing.
theorem build_eq (h0 : 0 < size) (hd : m.Allocated dst size)
    (hs : List.Forall₂ (fun src s => Source m dst size src s ∧ s.length < turns) (src :: srcs) strs) :
    ∃ ns, build turns dst size src srcs m = some (ns, m.fill dst (CString.strlcpy strs.flatten size ++ [nul])) ∧
    ((∀ n ∈ ns, n < size) ↔ strs.flatten.length < size) := by
  cases hs
  case cons s strs hsrc hss =>
    obtain ⟨hsrc, ht⟩ := hsrc
    obtain ⟨ns, hrun, hns⟩ := strlcats_eq h0 hd hsrc.text hss
    refine ⟨s.length :: ns, ?_, ?_⟩
    case refine_1 =>
      simp only [build, strlcpy_eq hsrc hd ht h0, Option.bind_eq_bind, Option.bind_some, hrun, List.flatten_cons]
    case refine_2 =>
      rw [List.forall_mem_cons, List.flatten_cons]
      by_cases hc : s.length < size
      case pos => rw [hns hc]; exact and_iff_right hc
      case neg =>
        refine iff_of_false (fun h => hc h.1) fun h => hc ?_
        rw [List.length_append] at h
        omega

def memory : Cells Char :=
  Cells.fill (Cells.fill (Cells.fill (fun _ => none) 0 ['?', '?', '?', '?']) 10 ['a', 'b', nul]) 20 ['c', 'd', nul]

theorem isString_memory : IsString memory 10 ['a', 'b'] ∧ IsString memory 20 ['c', 'd'] := by
  refine ⟨⟨?_, by decide⟩, ⟨?_, by decide⟩⟩
  all_goals
    intro i hi
    match i, hi with
    | 0, _ | 1, _ | 2, _ => decide

theorem build_eq_memory :
    ∃ ns, build 3 0 4 10 [20] memory = some (ns, memory.fill 0 (CString.strlcpy ['a', 'b', 'c', 'd'] 4 ++ [nul])) ∧
    ((∀ n ∈ ns, n < 4) ↔ 4 < 4) := by
  have hd : memory.Allocated 0 4 := by
    intro i hi
    match i, hi with
    | 0, _ | 1, _ | 2, _ | 3, _ => decide
  have hs : List.Forall₂ (fun src s => Source memory 0 4 src s ∧ s.length < 3) [10, 20] [['a', 'b'], ['c', 'd']] :=
    .cons ⟨⟨isString_memory.1, by decide⟩, by decide⟩ (.cons ⟨⟨isString_memory.2, by decide⟩, by decide⟩ .nil)
  exact build_eq (by decide) hd hs

end Build
end F2b.Strlcpy
