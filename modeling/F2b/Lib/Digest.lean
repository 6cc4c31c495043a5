import F2b.Lib.Blocks
import Mathlib.Algebra.Ring.Nat

-- The MD5 digest of a message as a whole. The message is padded to blocks of 64 bytes, each of which changes
-- four words in 64 rounds.

namespace Digest

structure State where
  a : BitVec 32
  b : BitVec 32
  c : BitVec 32
  d : BitVec 32
  deriving DecidableEq

def mix (i : Nat) (b c d : BitVec 32) : BitVec 32 :=
  match i / 16 with
  | 0 => (b &&& c) ||| (~~~b &&& d)
  | 1 => (d &&& b) ||| (~~~d &&& c)
  | 2 => b ^^^ c ^^^ d
  | _ => c ^^^ (b ||| ~~~d)

def index (i : Nat) : Nat :=
  match i / 16 with
  | 0 => i % 16
  | 1 => (5 * i + 1) % 16
  | 2 => (3 * i + 5) % 16
  | _ => 7 * i % 16

def shift (i : Nat) : Nat :=
  match i / 16 with
  | 0 => [7, 12, 17, 22].getD (i % 4) 0
  | 1 => [5,  9, 14, 20].getD (i % 4) 0
  | 2 => [4, 11, 16, 23].getD (i % 4) 0
  | _ => [6, 10, 15, 21].getD (i % 4) 0

-- The first 32 binary digits behind the point of `|sin (i + 1)|`.
def sines : List Nat := [
  0xd76aa478, 0xe8c7b756, 0x242070db, 0xc1bdceee, 0xf57c0faf, 0x4787c62a, 0xa8304613, 0xfd469501,
  0x698098d8, 0x8b44f7af, 0xffff5bb1, 0x895cd7be, 0x6b901122, 0xfd987193, 0xa679438e, 0x49b40821,
  0xf61e2562, 0xc040b340, 0x265e5a51, 0xe9b6c7aa, 0xd62f105d, 0x02441453, 0xd8a1e681, 0xe7d3fbc8,
  0x21e1cde6, 0xc33707d6, 0xf4d50d87, 0x455a14ed, 0xa9e3e905, 0xfcefa3f8, 0x676f02d9, 0x8d2a4c8a,
  0xfffa3942, 0x8771f681, 0x6d9d6122, 0xfde5380c, 0xa4beea44, 0x4bdecfa9, 0xf6bb4b60, 0xbebfbc70,
  0x289b7ec6, 0xeaa127fa, 0xd4ef3085, 0x04881d05, 0xd9d4d039, 0xe6db99e5, 0x1fa27cf8, 0xc4ac5665,
  0xf4292244, 0x432aff97, 0xab9423a7, 0xfc93a039, 0x655b59c3, 0x8f0ccc92, 0xffeff47d, 0x85845dd1,
  0x6fa87e4f, 0xfe2ce6e0, 0xa3014314, 0x4e0811a1, 0xf7537e82, 0xbd3af235, 0x2ad7d2bb, 0xeb86d391]

def round (input : Nat → BitVec 32) (v : State) (i : Nat) : State where
  a := v.d
  b := v.b + (v.a + mix i v.b v.c v.d + input (index i) + BitVec.ofNat 32 (sines.getD i 0)).rotateLeft (shift i)
  c := v.b
  d := v.c

def fromBytes (l : List UInt8) : Nat :=
  l.foldr (fun b n => b.toNat + 256 * n) 0

def toBytes : Nat → Nat → List UInt8
  | 0,     _ => []
  | k + 1, n => UInt8.ofNat n :: toBytes k (n / 256)

def word (block : List UInt8) (i : Nat) : BitVec 32 :=
  BitVec.ofNat 32 (fromBytes ((block.drop (4 * i)).take 4))

def compress (v : State) (block : List UInt8) : State :=
  let u := (List.range 64).foldl (round (word block)) v
  ⟨v.a + u.a, v.b + u.b, v.c + u.c, v.d + u.d⟩

def start : State :=
  ⟨0x67452301, 0xefcdab89, 0x98badcfe, 0x10325476⟩

-- A bit, as few zeros as it takes, and the number of bits of the message.
def padding (length : Nat) : List UInt8 :=
  0x80 :: List.replicate ((119 - length % 64) % 64) 0 ++ toBytes 8 (8 * length)

def absorb (s : State) (l : List UInt8) : State × List UInt8 :=
  Blocks.run 64 compress s l

section Absorb

variable {s : State} {l : List UInt8}

theorem absorb_short (h : l.length < 64) : absorb s l = (s, l) :=
  Blocks.run_short h

theorem absorb_block (hl : l.length = 64) (r : List UInt8) : absorb s (l ++ r) = absorb (compress s l) r :=
  Blocks.run_block (by decide) hl r

theorem absorb_last (hl : l.length = 64) : absorb s l = (compress s l, []) := by
  rw [← List.append_nil l, absorb_block hl, absorb_short (by decide), List.append_nil]

theorem absorb_append (s : State) (l r : List UInt8) :
    absorb s (l ++ r) = absorb (absorb s l).1 ((absorb s l).2 ++ r) :=
  Blocks.run_append (by decide) s l r

theorem length_absorb (s : State) (l : List UInt8) : (absorb s l).2.length = l.length % 64 :=
  Blocks.length_run (by decide) s l

end Absorb

def ofState (s : State) : List UInt8 :=
  [s.a, s.b, s.c, s.d].flatMap fun x => toBytes 4 x.toNat

def md5 (message : List UInt8) : List UInt8 :=
  ofState (absorb start (message ++ padding message.length)).1

def digits : List Char :=
  "0123456789abcdef".toList

def hex (l : List UInt8) : List Char :=
  l.flatMap fun b => [digits.getD (b.toNat / 16) '0', digits.getD (b.toNat % 16) '0']

theorem length_toBytes (k n : Nat) : (toBytes k n).length = k := by
  induction k generalizing n
  case zero      => rfl
  case succ k hi => rw [toBytes, List.length_cons, hi]

theorem toBytes_add (j k n : Nat) : toBytes (j + k) n = toBytes j n ++ toBytes k (n / 256 ^ j) := by
  induction j generalizing n
  case zero      => rw [Nat.zero_add, Nat.pow_zero, Nat.div_one]; rfl
  case succ j hi => rw [Nat.succ_add, toBytes, toBytes, hi, Nat.div_div_eq_div_mul, Nat.pow_succ', List.cons_append]

theorem toBytes_mod (k n : Nat) : toBytes k (n % 256 ^ k) = toBytes k n := by
  induction k generalizing n
  case zero      => rfl
  case succ k hi =>
    have hd : n % 256 ^ (k + 1) / 256 = n / 256 % 256 ^ k := by
      rw [Nat.pow_succ', Nat.mod_mul_right_div_self]
    have hm : UInt8.ofNat (n % 256 ^ (k + 1)) = UInt8.ofNat n := by
      rw [← UInt8.ofNat_mod_size, ← UInt8.ofNat_mod_size (x := n), Nat.mod_mod_of_dvd]
      exact ⟨256 ^ k, Nat.pow_succ'⟩
    rw [toBytes, toBytes, hd, hi, hm]

theorem mem_digits (b : UInt8) :
    ∀ c ∈ [digits.getD (b.toNat / 16) '0', digits.getD (b.toNat % 16) '0'], c ∈ digits := by
  have hd : ∀ n < 16, digits.getD n '0' ∈ digits := by decide
  have hb := b.toNat_lt
  intro c hc
  obtain rfl | rfl : c = digits.getD (b.toNat / 16) '0' ∨ c = digits.getD (b.toNat % 16) '0' := by simpa using hc
  all_goals exact hd _ (by omega)

theorem length_hex (l : List UInt8) : (hex l).length = 2 * l.length := by
  simp [hex, Nat.mul_comm]

end Digest
