import Mathlib.Algebra.Ring.Int.Defs
import Mathlib.Algebra.Ring.Nat
import Mathlib.Data.List.Basic
import Mathlib.Data.List.TakeWhile

-- C strings as the list of bytes before the terminating NUL, and the library functions on them.
-- A byte is a `Char`, so that literals stay readable.

abbrev CString := List Char

instance : LawfulBEq CString :=
  inferInstanceAs (LawfulBEq (List Char))

namespace CString

def nul : Char := '\x00'

-- The string a buffer holds: what stands before its first NUL.
def ofBuffer (bytes : List Char) : CString :=
  bytes.takeWhile (· ≠ nul)

-- `strncmp(a, b, n) == 0` on strings without a NUL inside.
def strncmpEq (a b : CString) (n : Nat) : Bool :=
  a.take n == b.take n

-- What `strlcpy(dst, src, size)` leaves in `dst`.
def strlcpy (src : CString) (size : Nat) : CString :=
  src.take (size - 1)

-- The offset of the first `c`, `none` for a NULL result.
def strchr (s : CString) (c : Char) : Option Nat :=
  s.findIdx? (· == c)

-- The offset of the first occurrence of `pat`, `none` for a NULL result.
def strstr (pat : CString) : CString → Option Nat
  | []     => if pat = [] then some 0 else none
  | c :: s => if pat.isPrefixOf (c :: s) then some 0 else (strstr pat s).map (· + 1)

def isblank (c : Char) : Bool :=
  c = ' ' || c = '\t'

def isspace (c : Char) : Bool :=
  isblank c || c = '\n' || c = '\r' || c = '\x0b' || c = '\x0c'

def isgraph (c : Char) : Bool :=
  0x21 ≤ c.toNat && c.toNat ≤ 0x7e

def isdigit (c : Char) : Bool :=
  c.isDigit

theorem ofBuffer_eq_self {s : CString} (h : nul ∉ s) : ofBuffer s = s := by
  apply List.takeWhile_eq_self_iff.mpr
  intro c hc
  have : c ≠ nul := fun he => h (he ▸ hc)
  simpa

theorem ofBuffer_append_nul (s t : List Char) : ofBuffer (s ++ nul :: t) = ofBuffer s := by
  induction s
  case nil         => simp [ofBuffer]
  case cons c s hi =>
    by_cases hc : c = nul
    case pos => simp [ofBuffer, hc]
    case neg => simpa [ofBuffer, hc] using hi

theorem ofBuffer_prefix (bytes : List Char) : ofBuffer bytes <+: bytes :=
  List.takeWhile_prefix _

theorem nul_not_mem_ofBuffer (bytes : List Char) : nul ∉ ofBuffer bytes := by
  intro h
  simpa using List.mem_takeWhile_imp h

theorem ofBuffer_cases (bytes : List Char) :
    ofBuffer bytes = bytes ∨ ∃ rest, bytes = ofBuffer bytes ++ nul :: rest := by
  induction bytes
  case nil             => exact .inl rfl
  case cons c bytes hi =>
    by_cases hc : c = nul
    case pos => exact .inr ⟨bytes, by simp [ofBuffer, hc]⟩
    case neg =>
      have ho : ofBuffer (c :: bytes) = c :: ofBuffer bytes := by simp [ofBuffer, hc]
      rw [ho]
      obtain h | ⟨rest, h⟩ := hi
      case inl => exact .inl (congrArg (c :: ·) h)
      case inr => exact .inr ⟨rest, congrArg (c :: ·) h⟩

theorem strchr_eq_none_iff {s : CString} {c : Char} : s.strchr c = none ↔ c ∉ s := by
  simp only [strchr, List.findIdx?_eq_none_iff, beq_eq_false_iff_ne]
  exact ⟨fun h hc => h c hc rfl, fun h a ha he => h (he ▸ ha)⟩

theorem strchr_eq_some_iff {s : CString} {c : Char} {i : Nat} :
    s.strchr c = some i ↔ ∃ u v, s = u ++ c :: v ∧ c ∉ u ∧ u.length = i := by
  induction s generalizing i
  case nil         => simp [strchr]
  case cons a s hi =>
    by_cases ha : a = c
    case pos =>
      subst ha
      have hs : strchr (a :: s) a = some 0 := by simp [strchr, List.findIdx?_cons]
      rw [hs]
      constructor
      case mp  =>
        intro h
        exact ⟨[], s, rfl, List.not_mem_nil, Option.some.inj h⟩
      case mpr =>
        rintro ⟨_ | ⟨b, u⟩, v, he, hu, rfl⟩
        case nil  => rfl
        case cons => exact absurd (List.cons.inj he).1 (fun he => hu (he ▸ List.mem_cons_self))
    case neg =>
      have hs : strchr (a :: s) c = (strchr s c).map (· + 1) := by simp [strchr, List.findIdx?_cons, ha]
      rw [hs, Option.map_eq_some_iff]
      constructor
      case mp  =>
        rintro ⟨j, hj, rfl⟩
        obtain ⟨u, v, rfl, hu, rfl⟩ := hi.mp hj
        exact ⟨a :: u, v, rfl, by simp [hu, Ne.symm ha], rfl⟩
      case mpr =>
        rintro ⟨_ | ⟨b, u⟩, v, he, hu, rfl⟩
        case nil  => exact absurd (List.cons.inj he).1 ha
        case cons =>
          exact ⟨u.length, hi.mpr ⟨u, v, (List.cons.inj he).2, fun h => hu (List.mem_cons_of_mem _ h), rfl⟩, rfl⟩

theorem strstr_eq_none_iff {pat s : CString} : strstr pat s = none ↔ ¬pat <:+: s := by
  induction s
  case nil         => by_cases hp : pat = [] <;> simp [strstr, hp]
  case cons c s hi =>
    rw [strstr, List.infix_cons_iff, not_or, ← hi, ← List.isPrefixOf_iff_prefix]
    cases pat.isPrefixOf (c :: s) <;> simp

theorem strstr_singleton (a : Char) (s : CString) : strstr [a] s = strchr s a := by
  induction s
  case nil         => rfl
  case cons c s hi =>
    rw [strstr, hi, strchr, strchr, List.findIdx?_cons]
    by_cases hc : c = a
    case pos => simp [hc]
    case neg => simp [hc, List.isPrefixOf, Ne.symm hc]

theorem eq_of_strstr {pat s : CString} {i : Nat} (h : strstr pat s = some i) :
    ∃ u v, s = u ++ pat ++ v ∧ u.length = i := by
  induction s generalizing i
  case nil         =>
    rw [strstr] at h
    split at h
    case isTrue hp => exact ⟨[], [], by simp [hp], Option.some.inj h⟩
    case isFalse   => cases h
  case cons c s hi =>
    rw [strstr] at h
    split at h
    case isTrue hp =>
      have ⟨v, hv⟩ := List.isPrefixOf_iff_prefix.mp hp
      exact ⟨[], v, hv.symm, Option.some.inj h⟩
    case isFalse   =>
      obtain ⟨j, hj, rfl⟩ := Option.map_eq_some_iff.mp h
      obtain ⟨u, v, rfl, rfl⟩ := hi hj
      exact ⟨c :: u, v, rfl, rfl⟩

theorem length_le_of_strstr {pat s : CString} {i : Nat} (h : strstr pat s = some i) : i ≤ s.length := by
  obtain ⟨u, v, rfl, rfl⟩ := eq_of_strstr h
  simp only [List.length_append]
  omega

theorem strncmpEq_self (a : CString) (n : Nat) : strncmpEq a a n := by
  simp [strncmpEq]

theorem eq_of_strncmpEq {a b : CString} {n : Nat} (h : strncmpEq a b n) (ha : a.length < n) :
    a = b := by
  simp only [strncmpEq, beq_iff_eq, List.take_of_length_le (Nat.le_of_lt ha)] at h
  have hb : b.length < n := by
    have := congrArg List.length h
    simp only [List.length_take] at this
    omega
  rwa [List.take_of_length_le (Nat.le_of_lt hb)] at h

theorem not_isspace_of_isdigit {c : Char} (h : isdigit c) : ¬isspace c := by
  intro hs
  simp only [isspace, isblank, Bool.or_eq_true, decide_eq_true_eq] at hs
  obtain ((((rfl | rfl) | rfl) | rfl) | rfl) | rfl := hs <;> revert h <;> decide

theorem forall_of_all {P : Char → Prop} [DecidablePred P] {s : CString} (h : s.all (P ·)) : ∀ c ∈ s, P c := by
  simpa using h

theorem strlcpy_of_lt {src : CString} {size : Nat} (h : src.length < size) :
    strlcpy src size = src :=
  List.take_of_length_le (by omega)

theorem length_strlcpy_lt (src : CString) {size : Nat} (h : 0 < size) :
    (strlcpy src size).length < size := by
  simp only [strlcpy, List.length_take]
  omega

-- The value of decimal digits, most significant first.
def ofDigits (ds : CString) : Nat :=
  Nat.ofDigitChars 10 ds 0

-- `printf("%u")` of a natural number.
def ofNat (n : Nat) : CString :=
  Nat.toDigits 10 n

-- The value of a number after its leading blanks, with its optional sign, and what follows it.
def signed (s : CString) : Bool × CString :=
  match s.dropWhile isspace with
  | '-' :: rest => (true, rest)
  | '+' :: rest => (false, rest)
  | rest        => (false, rest)

-- `strtol(s, NULL, 10)` saturates at the ends of a 64-bit `long`.
def strtol (s : CString) : Int :=
  let (neg, rest) := signed s
  let n : Int := ofDigits (rest.takeWhile isdigit)
  if neg then max (-2 ^ 63) (-n) else min (2 ^ 63 - 1) n

end CString

-- Conversions to a narrower signed type keep the low bits.
def toInt32 (n : Int) : Int :=
  (n + 2 ^ 31) % 2 ^ 32 - 2 ^ 31

def toShort (n : Int) : Int :=
  (n + 2 ^ 15) % 2 ^ 16 - 2 ^ 15

theorem toShort_eq_self {n : Int} (h₁ : -2 ^ 15 ≤ n) (h₂ : n < 2 ^ 15) : toShort n = n := by
  simp only [toShort]
  omega

-- `atoi` is `(int) strtol(s, NULL, 10)`.
def CString.atoi (s : CString) : Int :=
  toInt32 s.strtol

example : CString.atoi " -86400x".toList = -86400 := by decide
