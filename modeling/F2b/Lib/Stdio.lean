import F2b.Lib.CString

-- Formatted input and output of C streams.

namespace CString

-- The chunks that `fgets` makes of a text: it stops after a newline or when the buffer is full.
def fgetsLoop (size : Nat) : CString → Nat → CString → List CString
  | buf, _,    []     => if buf = [] then [] else [buf]
  | buf, room, c :: s =>
    if c = '\n' ∨ room ≤ 1 then (buf ++ [c]) :: fgetsLoop size [] (size - 1) s
    else fgetsLoop size (buf ++ [c]) (room - 1) s

-- The strings that successive calls `fgets(buf, size, f)` leave in `buf`.
def fgets (size : Nat) (text : CString) : List CString :=
  (fgetsLoop size [] (size - 1) text).map ofBuffer

-- The conversion `%<width>s`, with the text after it.
def scanStr (width : Nat) (s : CString) : Option (CString × CString) :=
  let s := s.dropWhile isspace
  let word := (s.takeWhile (!isspace ·)).take width
  if word = [] then none else some (word, s.drop word.length)

-- `strtoul` saturates at the end of a 64-bit `unsigned long`, and negates modulo its range.
def strtoul (neg : Bool) (digits : CString) : Nat :=
  let n := ofDigits digits
  if n ≥ 2 ^ 64 then 2 ^ 64 - 1 else if neg then (2 ^ 64 - n) % 2 ^ 64 else n

-- The conversion `%u` into an `unsigned int`.
def scanU (s : CString) : Option (Nat × CString) :=
  let (neg, s) := signed s
  let digits := s.takeWhile isdigit
  if digits = [] then none else some (strtoul neg digits % 2 ^ 32, s.drop digits.length)

-- The conversion `%lu` of a signed 64-bit value.
def printLu (n : Int) : CString :=
  ofNat (n % 2 ^ 64).toNat

theorem isdigit_of_mem_ofNat {n : Nat} {c : Char} (h : c ∈ ofNat n) : isdigit c :=
  Nat.isDigit_of_mem_toDigits (by decide) (by decide) h

theorem ofNat_ne_nil (n : Nat) : ofNat n ≠ [] :=
  Nat.toDigits_ne_nil

theorem ofDigits_ofNat (n : Nat) : ofDigits (ofNat n) = n :=
  Nat.ofDigitChars_ten_toDigits

theorem length_ofNat_le {n k : Nat} (h : 0 < k) (hn : n < 10 ^ k) : (ofNat n).length ≤ k :=
  (Nat.length_toDigits_le_iff (by decide) h).mpr hn

theorem fgetsLoop_cons {size room : Nat} {c : Char} (hc : c ≠ '\n') (hr : 1 < room) (buf s : CString) :
    fgetsLoop size buf room (c :: s) = fgetsLoop size (buf ++ [c]) (room - 1) s :=
  if_neg (not_or.mpr ⟨hc, Nat.not_le.mpr hr⟩)

theorem fgetsLoop_line {size room : Nat} {buf l s : CString} (hn : '\n' ∉ l) (hr : l.length < room) :
    fgetsLoop size buf room (l ++ '\n' :: s) =
    (buf ++ l ++ ['\n']) :: fgetsLoop size [] (size - 1) s := by
  induction l generalizing buf room
  case nil          => simp [fgetsLoop]
  case cons c l hi =>
    simp only [List.mem_cons, not_or, List.length_cons] at hn hr
    rw [List.cons_append, fgetsLoop_cons (Ne.symm hn.1) (by omega), hi hn.2 (by omega)]
    simp

theorem fgetsLoop_tail {size room : Nat} {buf l : CString} (hn : '\n' ∉ l) (hr : l.length < room) :
    fgetsLoop size buf room l = [buf ++ l].filter (· ≠ []) := by
  induction l generalizing buf room
  case nil          => by_cases hb : buf = [] <;> simp [fgetsLoop, hb]
  case cons c l hi =>
    simp only [List.mem_cons, not_or, List.length_cons] at hn hr
    rw [fgetsLoop_cons (Ne.symm hn.1) (by omega), hi hn.2 (by omega)]
    simp

theorem fgetsLoop_fits {size room : Nat} {buf l : CString} (hn : '\n' ∉ l.dropLast) (hr : l.length ≤ room)
    (hl : l ≠ []) : fgetsLoop size buf room l = [buf ++ l] := by
  induction l generalizing buf room
  case nil          => contradiction
  case cons c l hi =>
    rw [List.length_cons] at hr
    by_cases he : l = []
    case pos => by_cases hc : c = '\n' ∨ room ≤ 1 <;> simp [fgetsLoop, he, hc]
    case neg =>
      rw [List.dropLast_cons_of_ne_nil he, List.mem_cons, not_or] at hn
      have hlen := List.length_pos_of_ne_nil he
      rw [fgetsLoop_cons (Ne.symm hn.1) (by omega), hi hn.2 (by omega) he]
      simp

theorem fgetsLoop_newline (size room : Nat) (buf l s : CString) :
    fgetsLoop size buf room (l ++ '\n' :: s) =
    fgetsLoop size buf room (l ++ ['\n']) ++ fgetsLoop size [] (size - 1) s := by
  induction l generalizing buf room
  case nil          => simp [fgetsLoop]
  case cons c l hi => by_cases hc : c = '\n' ∨ room ≤ 1 <;> simp [fgetsLoop, hc, hi]

theorem flatten_fgetsLoop (size room : Nat) (buf s : CString) :
    (fgetsLoop size buf room s).flatten = buf ++ s := by
  induction s generalizing buf room
  case nil          => by_cases hb : buf = [] <;> simp [fgetsLoop, hb]
  case cons c s hi => by_cases hc : c = '\n' ∨ room ≤ 1 <;> simp [fgetsLoop, hc, hi]

theorem length_lt_of_mem_fgetsLoop {size room : Nat} {buf s chunk : CString} (hr : 0 < room)
    (hb : buf.length + room < size) (h : chunk ∈ fgetsLoop size buf room s) : chunk.length < size := by
  induction s generalizing buf room
  case nil          =>
    by_cases hn : buf = []
    case pos => simp [fgetsLoop, hn] at h
    case neg =>
      obtain rfl : chunk = buf := by simpa [fgetsLoop, hn] using h
      omega
  case cons c s hi =>
    by_cases hc : c = '\n' ∨ room ≤ 1
    case pos =>
      rw [fgetsLoop, if_pos hc, List.mem_cons] at h
      obtain rfl | h := h
      case inl =>
        rw [List.length_append, List.length_singleton]
        omega
      case inr =>
        exact hi (show 0 < size - 1 by omega) (by simp; omega) h
    case neg =>
      rw [fgetsLoop, if_neg hc] at h
      have := not_or.mp hc
      refine hi (show 0 < room - 1 by omega) ?_ h
      rw [List.length_append, List.length_singleton]
      omega

theorem newline_last_of_mem_fgetsLoop {size room : Nat} {buf s chunk : CString} (hb : '\n' ∉ buf)
    (h : chunk ∈ fgetsLoop size buf room s) : '\n' ∉ chunk.dropLast := by
  induction s generalizing buf room
  case nil          =>
    by_cases hn : buf = []
    case pos => simp [fgetsLoop, hn] at h
    case neg =>
      obtain rfl : chunk = buf := by simpa [fgetsLoop, hn] using h
      exact fun hm => hb (List.dropLast_subset _ hm)
  case cons c s hi =>
    by_cases hc : c = '\n' ∨ room ≤ 1
    case pos =>
      rw [fgetsLoop, if_pos hc, List.mem_cons] at h
      obtain rfl | h := h
      case inl => rwa [List.dropLast_concat]
      case inr => exact hi List.not_mem_nil h
    case neg =>
      rw [fgetsLoop, if_neg hc] at h
      have hc := (not_or.mp hc).1
      exact hi (by simp [hb, Ne.symm hc]) h

theorem head?_fgetsLoop {size room : Nat} {buf s : CString} (hn : '\n' ∉ s.take room) (hr : 0 < room)
    (hs : s ≠ []) : (fgetsLoop size buf room s).head? = some (buf ++ s.take room) := by
  induction s generalizing buf room
  case nil          => exact absurd rfl hs
  case cons c s hi =>
    obtain ⟨room, rfl⟩ := Nat.exists_eq_succ_of_ne_zero (Nat.ne_of_gt hr)
    simp only [List.take_succ_cons, List.mem_cons, not_or] at hn
    by_cases h0 : room = 0
    case pos => simp [fgetsLoop, h0]
    case neg =>
      rw [fgetsLoop_cons (Ne.symm hn.1) (by omega), Nat.succ_sub_one, List.take_succ_cons]
      by_cases he : s = []
      case pos => simp [he, fgetsLoop]
      case neg => rw [hi hn.2 (Nat.pos_of_ne_zero h0) he, List.append_assoc, List.singleton_append]

-- Lines that fit the buffer are read back as they were written, and so is what stands after them.
theorem fgets_lines_append {size : Nat} {ls : List CString} {tail : CString}
    (h : ∀ l ∈ ls, '\n' ∉ l ∧ nul ∉ l ∧ l.length + 1 < size)
    (ht : '\n' ∉ tail ∧ nul ∉ tail ∧ tail.length + 1 < size) :
    fgets size (ls.flatMap (· ++ ['\n']) ++ tail) =
    ls.map (· ++ ['\n']) ++ [tail].filter (· ≠ []) := by
  induction ls
  case nil          =>
    have ⟨hn, h0, ht⟩ := ht
    have hl : tail.length < size - 1 := by omega
    have : fgetsLoop size [] (size - 1) tail = _ := fgetsLoop_tail hn hl
    by_cases he : tail = [] <;> simp_all [fgets, ofBuffer_eq_self h0]
  case cons l ls hi =>
    have ⟨⟨hn, h0, hl⟩, h⟩ := List.forall_mem_cons.mp h
    have hb : ofBuffer (l ++ ['\n']) = l ++ ['\n'] := by
      apply ofBuffer_eq_self
      simpa [h0] using by decide
    have hi := hi h
    simp only [fgets] at hi ⊢
    simp [List.append_assoc, fgetsLoop_line hn (show l.length < size - 1 by omega), hb, hi]

theorem take_lines (ls : List CString) (n : Nat) :
    (ls.flatMap (· ++ ['\n'])).length ≤ n ∨
    ∃ pre l post tail, ls = pre ++ l :: post ∧ tail <+: l ∧
      (ls.flatMap (· ++ ['\n'])).take n = pre.flatMap (· ++ ['\n']) ++ tail := by
  induction ls generalizing n
  case nil          => exact .inl (Nat.zero_le _)
  case cons l ls hi =>
    by_cases hl : n ≤ l.length
    case pos =>
      refine .inr ⟨[], l, ls, l.take n, rfl, List.take_prefix .., ?_⟩
      simp [List.take_append_of_le_length hl]
    case neg =>
      have hl : n = (l ++ ['\n']).length + (n - (l.length + 1)) := by
        simp only [List.length_append, List.length_singleton]
        omega
      obtain h | ⟨pre, l', post, tail, rfl, hp, ht⟩ := hi (n - (l.length + 1))
      case inl =>
        apply Or.inl
        simp only [List.flatMap_cons, List.length_append] at h hl ⊢
        omega
      case inr =>
        refine .inr ⟨l :: pre, l', post, tail, rfl, hp, ?_⟩
        rw [List.flatMap_cons, hl, List.take_length_add_append, ht, List.flatMap_cons,
          List.append_assoc _ _ tail]

theorem scanStr_word {width : Nat} {w s : CString} {c : Char} (hw : w ≠ []) (hc : isspace c)
    (hs : ∀ c ∈ w, ¬isspace c) (hl : w.length ≤ width) :
    scanStr width (w ++ c :: s) = some (w, c :: s) := by
  have hd : (w ++ c :: s).dropWhile isspace = w ++ c :: s := by
    cases w
    case nil      => contradiction
    case cons a w => simp [hs a List.mem_cons_self]
  have ht : (w ++ c :: s).takeWhile (!isspace ·) = w := by
    rw [List.takeWhile_append_of_pos (by simpa using hs)]
    simp [hc]
  simp only [scanStr, hd, ht, List.take_of_length_le hl, hw, if_false, List.drop_left]

theorem scanU_digits {ds s : CString} {b : Char} (hd : ∀ c ∈ ds, isdigit c) (hn : ds ≠ [])
    (hv : ofDigits ds < 2 ^ 64) (hb : isspace b) (hs : ∀ c ∈ s.head?, ¬isdigit c) :
    scanU (b :: (ds ++ s)) = some (ofDigits ds % 2 ^ 32, s) := by
  have hg : signed (b :: (ds ++ s)) = (false, ds ++ s) := by
    cases ds
    case nil       => exact absurd rfl hn
    case cons d ds =>
      have hd : isdigit d := hd d List.mem_cons_self
      have hm : d ≠ '-' := by rintro rfl; revert hd; decide
      have hp : d ≠ '+' := by rintro rfl; revert hd; decide
      simp only [signed, List.dropWhile_cons, hb, if_true, List.cons_append,
        not_isspace_of_isdigit hd]
      split <;> simp_all
  have ht : (ds ++ s).takeWhile isdigit = ds := by
    rw [List.takeWhile_append_of_pos hd]
    cases s <;> simp_all
  have hm : strtoul false ds % 2 ^ 32 = ofDigits ds % 2 ^ 32 := by
    simp only [strtoul]
    split
    case isTrue  => simp; omega
    case isFalse => simp
  simp only [scanU, hg, ht, hm, hn, if_false, List.drop_left]

theorem scanU_ofNat {n : Nat} {s : CString} {b : Char} (hn : n < 2 ^ 64) (hb : isspace b)
    (hs : ∀ c ∈ s.head?, ¬isdigit c) : scanU (b :: (ofNat n ++ s)) = some (n % 2 ^ 32, s) := by
  have h := scanU_digits (fun _ => isdigit_of_mem_ofNat) (ofNat_ne_nil n)
    ((ofDigits_ofNat n).symm ▸ hn) hb hs
  rwa [ofDigits_ofNat] at h

theorem scanU_blank {b : Char} (hb : isspace b) : scanU [b] = none := by
  simp [scanU, signed, hb]

theorem ofDigits_append (ds ds' : CString) :
    ofDigits (ds ++ ds') = 10 ^ ds'.length * ofDigits ds + ofDigits ds' := by
  rw [ofDigits, Nat.ofDigitChars_append, Nat.ofDigitChars_eq_ofDigitChars_zero]
  rfl

theorem ofDigits_lt {n : Nat} {ds ds' : CString} (h : ofNat n = ds ++ ds') (hn : ds ≠ [])
    (hn' : ds' ≠ []) : ofDigits ds < n := by
  have he : n = 10 ^ ds'.length * ofDigits ds + ofDigits ds' := by
    rw [← ofDigits_append, ← h, ofDigits_ofNat]
  have hl : 10 ≤ 10 ^ ds'.length := by
    have := List.length_pos_of_ne_nil hn'
    calc 10 = 10 ^ 1 := rfl
      _ ≤ 10 ^ ds'.length := Nat.pow_le_pow_right (by decide) this
  by_contra hc
  have h0 : ofDigits ds = 0 := by
    have := Nat.mul_le_mul_right (ofDigits ds) hl
    omega
  obtain rfl : n = 0 := by omega
  have := congrArg List.length h
  have := List.length_pos_of_ne_nil hn
  have := List.length_pos_of_ne_nil hn'
  simp [ofNat] at *
  omega

theorem scanU_cut {n : Nat} {ds ds' : CString} {b : Char} (h : ofNat n = ds ++ ds') (hn : n < 2 ^ 64)
    (hb : isspace b) :
    scanU (b :: ds) = none ∨
    ∃ v, scanU (b :: ds) = some (v % 2 ^ 32, []) ∧ (ds' ≠ [] → v < n) := by
  have hd : ∀ c ∈ ds, isdigit c := fun c hc =>
    isdigit_of_mem_ofNat (h ▸ List.mem_append_left _ hc)
  by_cases h0 : ds = []
  case pos => exact .inl (h0 ▸ scanU_blank hb)
  case neg =>
    have hl : ofDigits ds ≤ n := by
      by_cases h' : ds' = []
      case pos => rw [← ofDigits_ofNat n, h, h', List.append_nil]
      case neg => exact Nat.le_of_lt (ofDigits_lt h h0 h')
    have hs := scanU_digits (s := []) hd h0 (Nat.lt_of_le_of_lt hl hn) hb (by simp)
    rw [List.append_nil] at hs
    exact .inr ⟨_, hs, ofDigits_lt h h0⟩

end CString
