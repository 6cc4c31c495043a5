import F2b.Lib.CString

-- The MD5 digest, with which clients of the control socket prove that they know the password (md5.c).

namespace F2b.Md5

-- The type `uint32` has `w` bits, which may be more than 32.
variable {w : Nat}

def getu32 (addr : List UInt8) : BitVec w :=
  let byte (i : Nat) := BitVec.ofNat w (addr.getD i 0).toNat
  ((((byte 3 <<< 8) ||| byte 2) <<< 8) ||| byte 1) <<< 8 ||| byte 0

def putu32 (data : BitVec w) : List UInt8 :=
  [data, data >>> 8, data >>> 16, data >>> 24].map fun x => UInt8.ofNat x.toNat

-- `memcpy`, and `memset` with a list of one byte.
def memcpy (dst : List UInt8) (p : Nat) (src : List UInt8) : List UInt8 :=
  dst.take p ++ src ++ dst.drop (p + src.length)

-- The array `buf[4]`, or the registers of `MD5Transform`.
structure Words (w : Nat) where
  a : BitVec w
  b : BitVec w
  c : BitVec w
  d : BitVec w

inductive Reg
  | a | b | c | d
  deriving DecidableEq

namespace Words

def get (v : Words w) : Reg → BitVec w
  | .a => v.a
  | .b => v.b
  | .c => v.c
  | .d => v.d

def set (v : Words w) (r : Reg) (x : BitVec w) : Words w :=
  match r with
  | .a => { v with a := x }
  | .b => { v with b := x }
  | .c => { v with c := x }
  | .d => { v with d := x }

end Words

inductive Fn
  | f1 | f2 | f3 | f4
  deriving DecidableEq

def select (x y z : BitVec w) : BitVec w :=
  z ^^^ (x &&& (y ^^^ z))

def Fn.apply : Fn → BitVec w → BitVec w → BitVec w → BitVec w
  | f1, x, y, z => select x y z
  | f2, x, y, z => select z x y
  | f3, x, y, z => x ^^^ y ^^^ z
  | f4, x, y, z => y ^^^ (x ||| ~~~z)

-- `MD5STEP(f, w, x, y, z, in[k] + t, s)`
structure Step where
  f : Fn
  w : Reg
  x : Reg
  y : Reg
  z : Reg
  k : Nat
  t : Nat
  s : Nat
  deriving DecidableEq

def mask : BitVec w :=
  BitVec.ofNat w 0xffffffff

def Step.run (input : Nat → BitVec w) (v : Words w) (p : Step) : Words w :=
  let x := (v.get p.w + (p.f.apply (v.get p.x) (v.get p.y) (v.get p.z) + (input p.k + BitVec.ofNat w p.t))) &&& mask
  v.set p.w ((x <<< p.s ||| x >>> (32 - p.s)) + v.get p.x)

def steps : List Step := [
  ⟨.f1, .a, .b, .c, .d,  0, 0xd76aa478,  7⟩,
  ⟨.f1, .d, .a, .b, .c,  1, 0xe8c7b756, 12⟩,
  ⟨.f1, .c, .d, .a, .b,  2, 0x242070db, 17⟩,
  ⟨.f1, .b, .c, .d, .a,  3, 0xc1bdceee, 22⟩,
  ⟨.f1, .a, .b, .c, .d,  4, 0xf57c0faf,  7⟩,
  ⟨.f1, .d, .a, .b, .c,  5, 0x4787c62a, 12⟩,
  ⟨.f1, .c, .d, .a, .b,  6, 0xa8304613, 17⟩,
  ⟨.f1, .b, .c, .d, .a,  7, 0xfd469501, 22⟩,
  ⟨.f1, .a, .b, .c, .d,  8, 0x698098d8,  7⟩,
  ⟨.f1, .d, .a, .b, .c,  9, 0x8b44f7af, 12⟩,
  ⟨.f1, .c, .d, .a, .b, 10, 0xffff5bb1, 17⟩,
  ⟨.f1, .b, .c, .d, .a, 11, 0x895cd7be, 22⟩,
  ⟨.f1, .a, .b, .c, .d, 12, 0x6b901122,  7⟩,
  ⟨.f1, .d, .a, .b, .c, 13, 0xfd987193, 12⟩,
  ⟨.f1, .c, .d, .a, .b, 14, 0xa679438e, 17⟩,
  ⟨.f1, .b, .c, .d, .a, 15, 0x49b40821, 22⟩,
  ⟨.f2, .a, .b, .c, .d,  1, 0xf61e2562,  5⟩,
  ⟨.f2, .d, .a, .b, .c,  6, 0xc040b340,  9⟩,
  ⟨.f2, .c, .d, .a, .b, 11, 0x265e5a51, 14⟩,
  ⟨.f2, .b, .c, .d, .a,  0, 0xe9b6c7aa, 20⟩,
  ⟨.f2, .a, .b, .c, .d,  5, 0xd62f105d,  5⟩,
  ⟨.f2, .d, .a, .b, .c, 10, 0x02441453,  9⟩,
  ⟨.f2, .c, .d, .a, .b, 15, 0xd8a1e681, 14⟩,
  ⟨.f2, .b, .c, .d, .a,  4, 0xe7d3fbc8, 20⟩,
  ⟨.f2, .a, .b, .c, .d,  9, 0x21e1cde6,  5⟩,
  ⟨.f2, .d, .a, .b, .c, 14, 0xc33707d6,  9⟩,
  ⟨.f2, .c, .d, .a, .b,  3, 0xf4d50d87, 14⟩,
  ⟨.f2, .b, .c, .d, .a,  8, 0x455a14ed, 20⟩,
  ⟨.f2, .a, .b, .c, .d, 13, 0xa9e3e905,  5⟩,
  ⟨.f2, .d, .a, .b, .c,  2, 0xfcefa3f8,  9⟩,
  ⟨.f2, .c, .d, .a, .b,  7, 0x676f02d9, 14⟩,
  ⟨.f2, .b, .c, .d, .a, 12, 0x8d2a4c8a, 20⟩,
  ⟨.f3, .a, .b, .c, .d,  5, 0xfffa3942,  4⟩,
  ⟨.f3, .d, .a, .b, .c,  8, 0x8771f681, 11⟩,
  ⟨.f3, .c, .d, .a, .b, 11, 0x6d9d6122, 16⟩,
  ⟨.f3, .b, .c, .d, .a, 14, 0xfde5380c, 23⟩,
  ⟨.f3, .a, .b, .c, .d,  1, 0xa4beea44,  4⟩,
  ⟨.f3, .d, .a, .b, .c,  4, 0x4bdecfa9, 11⟩,
  ⟨.f3, .c, .d, .a, .b,  7, 0xf6bb4b60, 16⟩,
  ⟨.f3, .b, .c, .d, .a, 10, 0xbebfbc70, 23⟩,
  ⟨.f3, .a, .b, .c, .d, 13, 0x289b7ec6,  4⟩,
  ⟨.f3, .d, .a, .b, .c,  0, 0xeaa127fa, 11⟩,
  ⟨.f3, .c, .d, .a, .b,  3, 0xd4ef3085, 16⟩,
  ⟨.f3, .b, .c, .d, .a,  6, 0x04881d05, 23⟩,
  ⟨.f3, .a, .b, .c, .d,  9, 0xd9d4d039,  4⟩,
  ⟨.f3, .d, .a, .b, .c, 12, 0xe6db99e5, 11⟩,
  ⟨.f3, .c, .d, .a, .b, 15, 0x1fa27cf8, 16⟩,
  ⟨.f3, .b, .c, .d, .a,  2, 0xc4ac5665, 23⟩,
  ⟨.f4, .a, .b, .c, .d,  0, 0xf4292244,  6⟩,
  ⟨.f4, .d, .a, .b, .c,  7, 0x432aff97, 10⟩,
  ⟨.f4, .c, .d, .a, .b, 14, 0xab9423a7, 15⟩,
  ⟨.f4, .b, .c, .d, .a,  5, 0xfc93a039, 21⟩,
  ⟨.f4, .a, .b, .c, .d, 12, 0x655b59c3,  6⟩,
  ⟨.f4, .d, .a, .b, .c,  3, 0x8f0ccc92, 10⟩,
  ⟨.f4, .c, .d, .a, .b, 10, 0xffeff47d, 15⟩,
  ⟨.f4, .b, .c, .d, .a,  1, 0x85845dd1, 21⟩,
  ⟨.f4, .a, .b, .c, .d,  8, 0x6fa87e4f,  6⟩,
  ⟨.f4, .d, .a, .b, .c, 15, 0xfe2ce6e0, 10⟩,
  ⟨.f4, .c, .d, .a, .b,  6, 0xa3014314, 15⟩,
  ⟨.f4, .b, .c, .d, .a, 13, 0x4e0811a1, 21⟩,
  ⟨.f4, .a, .b, .c, .d,  4, 0xf7537e82,  6⟩,
  ⟨.f4, .d, .a, .b, .c, 11, 0xbd3af235, 10⟩,
  ⟨.f4, .c, .d, .a, .b,  2, 0x2ad7d2bb, 15⟩,
  ⟨.f4, .b, .c, .d, .a,  9, 0xeb86d391, 21⟩]

def transform (buf : Words w) (inraw : List UInt8) : Words w :=
  let v := steps.foldl (Step.run fun i => getu32 (inraw.drop (4 * i))) buf
  ⟨buf.a + v.a, buf.b + v.b, buf.c + v.c, buf.d + v.d⟩

-- `bits[2]` are `low` and `high`, and `in[64]` is `input`.
structure Context (w : Nat) where
  buf       : Words w
  low       : BitVec w
  high      : BitVec w
  input     : List UInt8
  digest    : List UInt8
  hexdigest : CString

def init : Context w where
  buf       := ⟨0x67452301, 0xefcdab89, 0x98badcfe, 0x10325476⟩
  low       := 0
  high      := 0
  input     := List.replicate 64 0
  digest    := List.replicate 16 0
  hexdigest := []

-- `MD5Transform(ctx->buf, ctx->in)` once `src` has been copied to `in + p`.
def Context.fill (ctx : Context w) (p : Nat) (src : List UInt8) : Context w :=
  let input := memcpy ctx.input p src
  { ctx with buf := transform ctx.buf input, input }

-- The loop over the blocks and the copy of what remains. Each turn takes 64 bytes, which bounds their
-- number.
def blocks : Nat → List UInt8 → Context w → Context w
  | 0,         buf, ctx => { ctx with input := memcpy ctx.input 0 buf }
  | turns + 1, buf, ctx =>
    if buf.length ≥ 64 then blocks turns (buf.drop 64) (ctx.fill 0 (buf.take 64))
    else { ctx with input := memcpy ctx.input 0 buf }

-- What `MD5Update` does with the bytes, of which there are `t` in the buffer already.
def feed (t : Nat) (buf : List UInt8) (ctx : Context w) : Context w :=
  if t = 0 then
    blocks buf.length buf ctx
  else if buf.length < 64 - t then
    { ctx with input := memcpy ctx.input t buf }
  else
    blocks buf.length (buf.drop (64 - t)) (ctx.fill t (buf.take (64 - t)))

-- The number of bits, with the carry from low to high.
def Context.count (ctx : Context w) (len : Nat) : Context w :=
  let low  := (ctx.low + (BitVec.ofNat w len <<< 3)) &&& mask
  let high := if low < ctx.low then ctx.high + 1 else ctx.high
  { ctx with low, high := high + BitVec.ofNat w (len >>> 29) }

-- `MD5Update`, where `len` is the length of `buf`, an `unsigned`.
def update (ctx : Context w) (buf : List UInt8) : Context w :=
  feed ((ctx.low >>> 3) &&& 0x3f).toNat buf (ctx.count buf.length)

def hexByte (b : UInt8) : CString :=
  let digits := Nat.toDigits 16 b.toNat
  List.replicate (2 - digits.length) '0' ++ digits

-- The zeros of the padding, up to the last 8 bytes of a block. There is room for `left` bytes from `p` on.
def zeros (p left : Nat) (ctx : Context w) : Context w :=
  if left < 8 then
    let ctx := ctx.fill p (List.replicate left 0)
    { ctx with input := memcpy ctx.input 0 (List.replicate 56 0) }
  else
    { ctx with input := memcpy ctx.input p (List.replicate (left - 8) 0) }

-- `MD5Final` up to the length in bits.
def pad (ctx : Context w) : Context w :=
  let count := ((ctx.low >>> 3) &&& 0x3f).toNat
  zeros (count + 1) (64 - 1 - count) { ctx with input := memcpy ctx.input count [0x80] }

def final (ctx : Context w) : Context w :=
  let ctx := pad ctx
  let ctx := { ctx with input := memcpy ctx.input 56 (putu32 ctx.low) }
  let ctx := ctx.fill 60 (putu32 ctx.high)
  let digest := putu32 ctx.buf.a ++ putu32 ctx.buf.b ++ putu32 ctx.buf.c ++ putu32 ctx.buf.d
  { ctx with digest, hexdigest := digest.flatMap hexByte }

def bytes (s : CString) : List UInt8 :=
  s.map fun c => UInt8.ofNat c.toNat

-- The digest of some strings one after the other, on a system with `unsigned long` of 64 bits.
def hexdigest (strs : List CString) : CString :=
  (final (strs.foldl (fun ctx s => update ctx (bytes s)) (init : Context 64))).hexdigest

end F2b.Md5
