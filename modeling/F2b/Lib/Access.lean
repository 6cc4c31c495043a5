import F2b.Lib.CString
import Mathlib.Data.List.DropRight
import Mathlib.Tactic.SplitIfs

-- Byte buffers with the positions that are read and written, and the loops of C string functions on them.

namespace CString

-- The loops go over the bytes from the position `p` on. Past the end of the buffer, they read once more
-- and stop.
section Loops

-- `while (q(*p)) p++`
def skip (q : Char → Bool) : List Char → Int → Int × List Int
  | [],     p => (p, [p])
  | c :: s, p => if q c then ((skip q s (p + 1)).1, p :: (skip q s (p + 1)).2) else (p, [p])

def text : List Char → Int → CString × List Int
  | [],     p => ([], [p])
  | c :: s, p => if c = nul then ([], [p]) else (c :: (text s (p + 1)).1, p :: (text s (p + 1)).2)

-- `strchr(p, a)`, with the position that is found.
def findChar (a : Char) : List Char → Int → Option Int × List Int
  | [],     p => (none, [p])
  | c :: s, p =>
    if c = a then (some p, [p])
    else if c = nul then (none, [p])
    else ((findChar a s (p + 1)).1, p :: (findChar a s (p + 1)).2)

def compare : CString → List Char → Int → Bool × List Int
  | [],       _,      _ => (true, [])
  | _ :: _,   [],     p => (false, [p])
  | a :: pat, c :: s, p => if c = a then ((compare pat s (p + 1)).1, p :: (compare pat s (p + 1)).2) else (false, [p])

def findStr (pat : CString) : List Char → Int → Option Int × List Int
  | [],     p => (none, [p])
  | c :: s, p =>
    if (compare pat (c :: s) p).1 then (some p, (compare pat (c :: s) p).2)
    else if c = nul then (none, (compare pat (c :: s) p).2 ++ [p])
    else ((findStr pat s (p + 1)).1, (compare pat (c :: s) p).2 ++ p :: (findStr pat s (p + 1)).2)

end Loops

structure Buffer where
  bytes : List Char
  log   : List Int

namespace Buffer

-- A write that is not in the buffer has no effect on it.
def write (b : Buffer) (p : Int) (c : Char) : Buffer where
  bytes := if 0 ≤ p then b.bytes.set p.toNat c else b.bytes
  log   := b.log ++ [p]

def scan {α : Type} (b : Buffer) (loop : List Char → Int → α × List Int) (p : Int) : α × Buffer :=
  ((loop (b.bytes.drop p.toNat) p).1, { b with log := b.log ++ (loop (b.bytes.drop p.toNat) p).2 })

-- `while (p > low && q(*p)) p--`, with `n` for the distance between them.
def backLoop (q : Char → Bool) (bytes : List Char) : Nat → Int → Int × List Int
  | 0,     p => (p, [])
  | n + 1, p =>
    if q (bytes.getD p.toNat nul) then ((backLoop q bytes n (p - 1)).1, p :: (backLoop q bytes n (p - 1)).2)
    else (p, [p])

def back (b : Buffer) (q : Char → Bool) (low p : Int) : Int × Buffer :=
  ((backLoop q b.bytes (p - low).toNat p).1,
    { b with log := b.log ++ (backLoop q b.bytes (p - low).toNat p).2 })

def InRange (b : Buffer) : Prop :=
  ∀ p ∈ b.log, 0 ≤ p ∧ p < b.bytes.length

end Buffer

section Bounds

variable {p : Int} {s : List Char} {pat : CString} {i : Int}

def Inside (p : Int) (s : List Char) (log : List Int) : Prop :=
  ∀ i ∈ log, p ≤ i ∧ i < p + s.length

theorem inside_cons {c : Char} {log : List Int} (h : Inside (p + 1) s log) : Inside p (c :: s) (p :: log) := by
  intro i hi
  rw [List.length_cons]
  obtain rfl | hi := List.mem_cons.mp hi
  case inl => omega
  case inr =>
    have := h i hi
    omega

theorem inside_singleton (p : Int) (c : Char) (s : List Char) : Inside p (c :: s) [p] :=
  inside_cons fun _ hi => absurd hi List.not_mem_nil

theorem skip_inside {q : Char → Bool} (hq : ¬q nul) (h : nul ∈ s) (p : Int) : Inside p s (skip q s p).2 := by
  induction s generalizing p
  case nil         => cases h
  case cons c s hi =>
    rw [skip]
    split
    case isFalse   => exact inside_singleton p c s
    case isTrue hc =>
      have hm : nul ∈ s := (List.mem_cons.mp h).resolve_left fun he => hq (he ▸ hc)
      exact inside_cons (hi hm (p + 1))

theorem text_inside (h : nul ∈ s) (p : Int) : Inside p s (text s p).2 := by
  induction s generalizing p
  case nil         => cases h
  case cons c s hi =>
    rw [text]
    split
    case isTrue     => exact inside_singleton p c s
    case isFalse hc => exact inside_cons (hi ((List.mem_cons.mp h).resolve_left (Ne.symm hc)) (p + 1))

theorem findChar_inside (a : Char) (h : nul ∈ s) (p : Int) : Inside p s (findChar a s p).2 := by
  induction s generalizing p
  case nil         => cases h
  case cons c s hi =>
    rw [findChar]
    split_ifs with _ hc
    case pos => exact inside_singleton p c s
    case pos => exact inside_singleton p c s
    case neg => exact inside_cons (hi ((List.mem_cons.mp h).resolve_left (Ne.symm hc)) (p + 1))

theorem compare_inside (hp : nul ∉ pat) (h : nul ∈ s) (p : Int) : Inside p s (compare pat s p).2 := by
  induction pat generalizing s p
  case nil           => exact fun _ hi => absurd hi List.not_mem_nil
  case cons a pat hi =>
    cases s
    case nil      => cases h
    case cons c s =>
      rw [compare]
      split
      case isFalse   => exact inside_singleton p c s
      case isTrue hc =>
        have hm : nul ∈ s := (List.mem_cons.mp h).resolve_left fun he => hp (by simp [he, hc])
        exact inside_cons (hi (fun h => hp (List.mem_cons_of_mem _ h)) hm (p + 1))

theorem findStr_inside (hp : nul ∉ pat) (h : nul ∈ s) (p : Int) : Inside p s (findStr pat s p).2 := by
  induction s generalizing p
  case nil         => cases h
  case cons c s hi =>
    have hc := compare_inside hp h p
    rw [findStr]
    split_ifs with _ hn
    case pos => exact hc
    case pos => exact List.forall_mem_append.mpr ⟨hc, inside_singleton p c s⟩
    case neg =>
      have hm : nul ∈ s := (List.mem_cons.mp h).resolve_left (Ne.symm hn)
      exact List.forall_mem_append.mpr ⟨hc, inside_cons (hi hm (p + 1))⟩

theorem backLoop_bounds {q : Char → Bool} (bytes : List Char) (n : Nat) (p : Int)
    (hi : i ∈ (Buffer.backLoop q bytes n p).2) : p - n < i ∧ i ≤ p := by
  induction n generalizing p
  case zero      => cases hi
  case succ n ih =>
    rw [Buffer.backLoop] at hi
    split at hi
    case isTrue  =>
      obtain rfl | hi := List.mem_cons.mp hi
      case inl => omega
      case inr =>
        have := ih (p - 1) hi
        omega
    case isFalse =>
      obtain rfl := List.mem_singleton.mp hi
      omega

end Bounds

namespace Buffer

variable {b : Buffer} {p : Int} {low : Int} {c : Char}

@[simp]
theorem scan_bytes {α : Type} (b : Buffer) (loop : List Char → Int → α × List Int) (p : Int) :
    (b.scan loop p).2.bytes = b.bytes :=
  rfl

theorem bytes_of_scan {α : Type} {b b₁ : Buffer} {loop : List Char → Int → α × List Int} {p : Int} {a : α}
    (h : b.scan loop p = (a, b₁)) : b₁.bytes = b.bytes :=
  (congrArg (fun r => r.2.bytes) h).symm

@[simp]
theorem back_bytes (b : Buffer) (q : Char → Bool) (low p : Int) : (b.back q low p).2.bytes = b.bytes :=
  rfl

@[simp]
theorem length_write (b : Buffer) (p : Int) (c : Char) : (b.write p c).bytes.length = b.bytes.length := by
  rw [write]
  split <;> simp

theorem write_bytes {n : Nat} (hp : p = n) (b : Buffer) (c : Char) : (b.write p c).bytes = b.bytes.set n c := by
  simp [write, hp]

theorem InRange.scan {α : Type} {loop : List Char → Int → α × List Int} {n : Nat} (h : b.InRange) (hp : p = n)
    (hn : n ≤ b.bytes.length) (hi : Inside p (b.bytes.drop n) (loop (b.bytes.drop n) p).2) :
    (b.scan loop p).2.InRange := by
  subst hp
  refine List.forall_mem_append.mpr ⟨h, fun i hm => ?_⟩
  have := hi i hm
  rw [List.length_drop] at this
  rw [scan_bytes]
  omega

theorem inRange_text_iff {n : Nat} (hn : nul ∈ b.bytes.drop n) : (b.scan text n).2.InRange ↔ b.InRange := by
  constructor
  case mp  => exact fun h => (List.forall_mem_append.mp h).1
  case mpr =>
    intro h
    have hl : n < b.bytes.length := by
      have := List.length_pos_of_mem hn
      rw [List.length_drop] at this
      omega
    exact h.scan rfl (Nat.le_of_lt hl) (text_inside hn n)

theorem InRange.back (h : b.InRange) (q : Char → Bool) (hl : 0 ≤ low) (hp : p < b.bytes.length) :
    (b.back q low p).2.InRange := by
  refine List.forall_mem_append.mpr ⟨h, fun i hm => ?_⟩
  have := backLoop_bounds _ _ _ hm
  rw [back_bytes]
  omega

theorem inRange_write_iff : (b.write p c).InRange ↔ b.InRange ∧ 0 ≤ p ∧ p < b.bytes.length := by
  rw [InRange, length_write]
  exact List.forall_mem_append.trans (and_congr_right' (by simp))

end Buffer

section Results

variable {p : Int} {q : Char → Bool} {s t u v : List Char} {a c : Char} {pat : CString}

theorem skip_eq (hn : nul ∈ s) (hq : ¬q nul) (p : Int) : (skip q s p).1 = p + (s.takeWhile q).length := by
  induction s generalizing p
  case nil         => cases hn
  case cons c s hi =>
    rw [skip, List.takeWhile_cons]
    split
    case isFalse   => simp
    case isTrue hc =>
      have hm : nul ∈ s := (List.mem_cons.mp hn).resolve_left fun he => hq (he ▸ hc)
      rw [hi hm, List.length_cons]
      omega

theorem text_eq (s : List Char) (p : Int) : (text s p).1 = ofBuffer s := by
  induction s generalizing p
  case nil         => rfl
  case cons c s hi =>
    rw [text]
    split
    case isTrue hc  => simp [ofBuffer, hc]
    case isFalse hc =>
      have ho : ofBuffer (c :: s) = c :: ofBuffer s := by simp [ofBuffer, hc]
      rw [hi, ho]

theorem findChar_eq_some (ha : a ∉ u) (hu : nul ∉ u) (v : List Char) (p : Int) :
    (findChar a (u ++ a :: v) p).1 = some (p + u.length) := by
  induction u generalizing p
  case nil         => simp [findChar]
  case cons c u hi =>
    simp only [List.mem_cons, not_or] at ha hu
    rw [List.cons_append, findChar, if_neg (Ne.symm ha.1), if_neg (Ne.symm hu.1), hi ha.2 hu.2, List.length_cons]
    congr 1
    omega

theorem findChar_eq_none (ha : a ∉ u) (hn : a ≠ nul) (v : List Char) (p : Int) :
    (findChar a (u ++ nul :: v) p).1 = none := by
  induction u generalizing p
  case nil         => simp [findChar, Ne.symm hn]
  case cons c u hi =>
    simp only [List.mem_cons, not_or] at ha
    rw [List.cons_append, findChar, if_neg (Ne.symm ha.1)]
    split
    case isTrue  => rfl
    case isFalse => exact hi ha.2 (p + 1)

theorem compare_eq (hp : nul ∉ pat) (v : List Char) (p : Int) :
    (compare pat (t ++ nul :: v) p).1 = pat.isPrefixOf t := by
  induction pat generalizing t p
  case nil           => simp [compare]
  case cons a pat hi =>
    simp only [List.mem_cons, not_or] at hp
    cases t
    case nil      => simp [compare, hp.1]
    case cons c t =>
      rw [List.cons_append, compare]
      by_cases hc : c = a
      case pos => simp [hc, hi hp.2]
      case neg => simp [hc, List.isPrefixOf, Ne.symm hc]

theorem findStr_eq (hp : nul ∉ pat) (hn : pat ≠ []) (ht : nul ∉ t) (v : List Char) (p : Int) :
    (findStr pat (t ++ nul :: v) p).1 = (strstr pat t).map fun i : Nat => p + i := by
  induction t generalizing p
  case nil         =>
    have hc := compare_eq hp v p (t := [])
    rw [List.nil_append] at hc
    have h0 : pat.isPrefixOf [] = false := by cases pat <;> [contradiction; rfl]
    simp [findStr, hc, h0, strstr, hn]
  case cons c t hi =>
    simp only [List.mem_cons, not_or] at ht
    have hc := compare_eq hp v p (t := c :: t)
    rw [List.cons_append] at hc
    rw [List.cons_append, findStr, hc, if_neg (Ne.symm ht.1), strstr]
    split
    case isTrue  => simp
    case isFalse =>
      rw [hi ht.2, Option.map_map]
      congr 1
      funext i
      simp only [Function.comp_apply, Nat.cast_add, Nat.cast_one]
      omega

theorem backLoop_eq (q : Char → Bool) (u s v : List Char) :
    (Buffer.backLoop q (u ++ s ++ v) s.length (u.length + s.length - 1)).1 =
    u.length + (s.rdropWhile q).length - 1 := by
  induction s using List.reverseRecOn generalizing v
  case nil              => simp [Buffer.backLoop]
  case append_singleton s c hi =>
    have hl : (s ++ [c]).length = s.length + 1 := List.length_append
    have hp : ((u.length : Int) + (s.length + 1 : Nat) - 1).toNat = u.length + s.length := by omega
    have hg : (u ++ (s ++ [c]) ++ v).getD (u.length + s.length) nul = c := by simp [List.getD_eq_getElem?_getD]
    rw [hl, Buffer.backLoop, hp, hg, List.rdropWhile_concat]
    split
    case isFalse => rw [hl]
    case isTrue  =>
      have he : (u.length : Int) + (s.length + 1 : Nat) - 1 - 1 = u.length + s.length - 1 := by omega
      have hb : u ++ (s ++ [c]) ++ v = u ++ s ++ (c :: v) := by simp
      rw [he, hb, hi]

theorem Buffer.back_eq {b : Buffer} (q : Char → Bool) (low p : Int) (hb : b.bytes = u ++ s ++ v)
    (hl : low + 1 = u.length) (hp : p + 1 = u.length + s.length) :
    (b.back q low p).1 + 1 = (u.length + (s.rdropWhile q).length : Nat) := by
  have hn : (p - low).toNat = s.length := by omega
  have he : p = u.length + s.length - 1 := by omega
  rw [back, hn, hb, he, backLoop_eq]
  omega

end Results
end CString
