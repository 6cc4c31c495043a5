import F2b.Csocket.Md5
import F2b.Csocket.Theorems.Password
import F2b.Lib.Digest

-- The code computes the MD5 digest of all that it is given, in however many pieces, with words of any size.

namespace F2b.Md5

variable {w : Nat}

def lo (x : BitVec w) : BitVec 32 :=
  x.setWidth 32

section Words

variable {x y z : BitVec w} {s : Nat} (h : 32 ≤ w)

include h

theorem toNat_mask : (mask : BitVec w).toNat = 2 ^ 32 - 1 := by
  have : 2 ^ 32 ≤ 2 ^ w := Nat.pow_le_pow_right (by decide) h
  rw [mask, BitVec.toNat_ofNat, Nat.mod_eq_of_lt (by omega)]
  rfl

theorem toNat_and_mask (x : BitVec w) : (x &&& mask).toNat = (lo x).toNat := by
  rw [BitVec.toNat_and, toNat_mask h, Nat.and_two_pow_sub_one_eq_mod, lo, BitVec.toNat_setWidth]

theorem lo_and_mask (x : BitVec w) : lo (x &&& mask) = lo x := by
  apply BitVec.eq_of_toNat_eq
  rw [lo, BitVec.toNat_setWidth, toNat_and_mask h, Nat.mod_eq_of_lt (BitVec.isLt _)]

theorem lo_add (x y : BitVec w) : lo (x + y) = lo x + lo y :=
  BitVec.setWidth_add x y h

theorem lo_ofNat (n : Nat) : lo (BitVec.ofNat w n) = BitVec.ofNat 32 n :=
  BitVec.setWidth_ofNat_of_le h n

theorem lo_rotate (hs : s < 32) (hx : x.toNat < 2 ^ 32) :
    lo (x <<< s ||| x >>> (32 - s)) = (lo x).rotateLeft s := by
  have hr : lo (x >>> (32 - s)) = lo x >>> (32 - s) := by
    apply BitVec.eq_of_toNat_eq
    have hl : x.toNat >>> (32 - s) < 2 ^ 32 := Nat.lt_of_le_of_lt (Nat.shiftRight_le ..) hx
    simp only [lo, BitVec.toNat_setWidth, BitVec.toNat_ushiftRight, Nat.mod_eq_of_lt hx, Nat.mod_eq_of_lt hl]
  have hl : lo (x <<< s) = lo x <<< s := BitVec.setWidth_shiftLeft_of_le h
  calc lo (x <<< s ||| x >>> (32 - s))
    _ = lo (x <<< s) ||| lo (x >>> (32 - s)) := BitVec.setWidth_or
    _ = _ := by rw [hl, hr, BitVec.rotateLeft_def, Nat.mod_eq_of_lt hs]

omit h in
theorem lo_select (x y z : BitVec w) : lo (select x y z) = (lo x &&& lo y) ||| (~~~lo x &&& lo z) := by
  have hb (a b c : Bool) : (c ^^ (a && (b ^^ c))) = (a && b || !a && c) := by
    revert a b c
    decide
  simp only [lo, select, BitVec.setWidth_xor, BitVec.setWidth_and]
  refine BitVec.eq_of_getLsbD_eq fun i hi => ?_
  simp only [BitVec.getLsbD_xor, BitVec.getLsbD_and, BitVec.getLsbD_or, BitVec.getLsbD_not, hi, decide_true,
    Bool.true_and, hb]

end Words

section Transform

-- The registers in the order in which the `i`-th step takes them.
def roles (i : Nat) : Reg × Reg × Reg × Reg :=
  match i % 4 with
  | 0 => (.a, .b, .c, .d)
  | 1 => (.d, .a, .b, .c)
  | 2 => (.c, .d, .a, .b)
  | _ => (.b, .c, .d, .a)

def fnOf (i : Nat) : Fn :=
  match i / 16 with
  | 0 => .f1
  | 1 => .f2
  | 2 => .f3
  | _ => .f4

def stepOf (i : Nat) : Step where
  f := fnOf i
  w := (roles i).1
  x := (roles i).2.1
  y := (roles i).2.2.1
  z := (roles i).2.2.2
  k := Digest.index i
  t := Digest.sines.getD i 0
  s := Digest.shift i

theorem steps_eq : steps = (List.range 64).map stepOf := by
  decide +kernel

-- What the registers stand for before the `i`-th step.
def view (i : Nat) (v : Words w) : Digest.State where
  a := lo (v.get (roles i).1)
  b := lo (v.get (roles i).2.1)
  c := lo (v.get (roles i).2.2.1)
  d := lo (v.get (roles i).2.2.2)

theorem lo_apply (h : 32 ≤ w) (i : Nat) (x y z : BitVec w) :
    lo ((fnOf i).apply x y z) = Digest.mix i (lo x) (lo y) (lo z) := by
  simp only [fnOf, Digest.mix]
  obtain _ | _ | _ | n := i / 16
  · exact lo_select x y z
  · exact lo_select z x y
  · simp only [Fn.apply, lo, BitVec.setWidth_xor]
  · simp only [Fn.apply, lo, BitVec.setWidth_xor, BitVec.setWidth_or, BitVec.setWidth_not h]

theorem shift_lt (i : Nat) : Digest.shift i < 32 := by
  have hm : i % 4 < 4 := Nat.mod_lt _ (by decide)
  simp only [Digest.shift]
  generalize i % 4 = j at hm
  split <;> (revert j; decide)

theorem view_set (i : Nat) (v : Words w) (x : BitVec w) :
    view (i + 1) (v.set (roles i).1 x) = ⟨(view i v).d, lo x, (view i v).b, (view i v).c⟩ := by
  obtain h | h | h | h : i % 4 = 0 ∨ i % 4 = 1 ∨ i % 4 = 2 ∨ i % 4 = 3 := by omega
  all_goals
    have h' : (i + 1) % 4 = (i % 4 + 1) % 4 := by omega
    simp [view, roles, h, h', Words.get, Words.set]

theorem view_run (h : 32 ≤ w) (input : Nat → BitVec w) (i : Nat) (v : Words w) :
    view (i + 1) ((stepOf i).run input v) = Digest.round (fun k => lo (input k)) (view i v) i := by
  have hx (x : BitVec w) : (x &&& mask).toNat < 2 ^ 32 := by
    rw [toNat_and_mask h]
    exact BitVec.isLt _
  rw [Step.run, stepOf, view_set]
  simp only [Digest.round, lo_add h, lo_rotate h (shift_lt i) (hx _), lo_and_mask h, lo_ofNat h, lo_apply h]
  rw [BitVec.add_comm (BitVec.rotateLeft _ _)]
  simp only [view, BitVec.add_assoc]

-- The steps do what the rounds do.
theorem view_foldl (h : 32 ≤ w) (input : Nat → BitVec w) (v : Words w) (n : Nat) :
    view n (((List.range n).map stepOf).foldl (Step.run input) v) =
    (List.range n).foldl (Digest.round fun k => lo (input k)) (view 0 v) := by
  induction n
  case zero      => rfl
  case succ n hi => simp only [List.range_succ, List.map_append, List.foldl_append, List.map_cons,
    List.map_nil, List.foldl_cons, List.foldl_nil, view_run h, hi]

theorem shift_or (n : Nat) {b : Nat} (hb : b < 2 ^ 8) :
    (BitVec.ofNat 32 n <<< 8) ||| BitVec.ofNat 32 b = BitVec.ofNat 32 (b + 256 * n) := by
  apply BitVec.eq_of_toNat_eq
  have hn : (n % 2 ^ 32) <<< 8 % 2 ^ 32 = (n % 2 ^ 24) <<< 8 := by
    simp only [Nat.shiftLeft_eq]
    omega
  simp only [BitVec.toNat_or, BitVec.toNat_shiftLeft, BitVec.toNat_ofNat, hn]
  rw [Nat.mod_eq_of_lt (show b < 2 ^ 32 by omega), ← Nat.shiftLeft_add_eq_or_of_lt hb, Nat.shiftLeft_eq]
  omega

theorem fromBytes_take (l : List UInt8) : Digest.fromBytes (l.take 4) =
    (l.getD 0 0).toNat + 256 * ((l.getD 1 0).toNat + 256 * ((l.getD 2 0).toNat + 256 * (l.getD 3 0).toNat)) := by
  match l with
  | []                  => rfl
  | [_]                 => rfl
  | [_, _]              => rfl
  | [_, _, _]           => rfl
  | _ :: _ :: _ :: _ :: _ => rfl

theorem lo_getu32 (h : 32 ≤ w) (block : List UInt8) (i : Nat) :
    lo (getu32 (w := w) (block.drop (4 * i))) = Digest.word block i := by
  have hs (x : BitVec w) (k : Nat) : (x <<< k).setWidth 32 = x.setWidth 32 <<< k := BitVec.setWidth_shiftLeft_of_le h
  have hb (b : UInt8) : b.toNat < 2 ^ 8 := b.toNat_lt
  simp only [getu32, Digest.word, fromBytes_take, lo, BitVec.setWidth_or, hs, BitVec.setWidth_ofNat_of_le h,
    shift_or _ (hb _)]

def Words.lo (v : Words w) : Digest.State :=
  ⟨Md5.lo v.a, Md5.lo v.b, Md5.lo v.c, Md5.lo v.d⟩

theorem transform_eq (h : 32 ≤ w) (buf : Words w) (block : List UInt8) :
    (transform buf block).lo = Digest.compress buf.lo block := by
  have hv := view_foldl h (fun i => getu32 (block.drop (4 * i))) buf 64
  simp only [lo_getu32 h, ← steps_eq] at hv
  simp only [transform, Words.lo, lo_add h, Digest.compress]
  rw [show Digest.word block = fun k => Digest.word block k from rfl]
  change _ = _
  rw [show (⟨lo buf.a, lo buf.b, lo buf.c, lo buf.d⟩ : Digest.State) = view 0 buf from rfl, ← hv]
  rfl

end Transform

section Context

variable {ctx : Context w} {msg buf : List UInt8}

structure Holds (ctx : Context w) (msg : List UInt8) : Prop where
  state : ctx.buf.lo = (Digest.absorb Digest.start msg).1
  low   : ctx.low.toNat = 8 * msg.length % 2 ^ 32
  high  : (lo ctx.high).toNat = 8 * msg.length / 2 ^ 32 % 2 ^ 32
  size  : ctx.input.length = 64
  input : ctx.input.take (msg.length % 64) = (Digest.absorb Digest.start msg).2

theorem length_memcpy {dst src : List UInt8} {p : Nat} (h : p + src.length ≤ dst.length) :
    (memcpy dst p src).length = dst.length := by
  simp only [memcpy, List.length_append, List.length_take, List.length_drop]
  omega

theorem take_memcpy {dst src : List UInt8} {p : Nat} (h : p + src.length ≤ dst.length) :
    (memcpy dst p src).take (p + src.length) = dst.take p ++ src := by
  rw [memcpy, List.take_append_of_le_length, List.take_of_length_le]
  all_goals
    rw [List.length_append, List.length_take]
    omega

theorem count_eq (h : 32 ≤ w) (x : BitVec w) : ((x >>> 3) &&& 0x3f).toNat = x.toNat / 8 % 64 := by
  have hw : 2 ^ 32 ≤ 2 ^ w := Nat.pow_le_pow_right (by decide) h
  have hm : (BitVec.ofNat w 0x3f).toNat = 2 ^ 6 - 1 := by
    rw [BitVec.toNat_ofNat, Nat.mod_eq_of_lt (by omega)]
    rfl
  have hs : (x >>> 3).toNat = x.toNat / 2 ^ 3 := by
    rw [BitVec.toNat_ushiftRight, Nat.shiftRight_eq_div_pow]
  calc ((x >>> 3) &&& 0x3f).toNat = (x >>> 3).toNat &&& (BitVec.ofNat w 0x3f).toNat := BitVec.toNat_and ..
    _ = x.toNat / 2 ^ 3 &&& (2 ^ 6 - 1) := by rw [hs, hm]
    _ = x.toNat / 8 % 64 := Nat.and_two_pow_sub_one_eq_mod ..

theorem Holds.used (h : 32 ≤ w) (hc : Holds ctx msg) : ((ctx.low >>> 3) &&& 0x3f).toNat = msg.length % 64 := by
  rw [count_eq h, hc.low]
  omega

theorem fill_eq (h : 32 ≤ w) (ctx : Context w) (p : Nat) (src : List UInt8) (hp : p + src.length = 64)
    (hl : ctx.input.length = 64) :
    (ctx.fill p src).buf.lo = Digest.compress ctx.buf.lo (ctx.input.take p ++ src) ∧
    (ctx.fill p src).low = ctx.low ∧ (ctx.fill p src).high = ctx.high ∧ (ctx.fill p src).input.length = 64 := by
  have hm : memcpy ctx.input p src = ctx.input.take p ++ src := by
    rw [memcpy, hp, ← hl, List.drop_length, List.append_nil]
  have hs := transform_eq h ctx.buf (ctx.input.take p ++ src)
  rw [Context.fill, hm]
  exact ⟨hs, rfl, rfl, by rw [← hm, length_memcpy (by omega), hl]⟩

-- What the loop makes of a context: the state after all complete blocks, and the rest at the start of the
-- buffer.
structure Reads (ctx ctx' : Context w) (s : Digest.State) (buf : List UInt8) : Prop where
  state : ctx'.buf.lo = (Digest.absorb s buf).1
  low   : ctx'.low = ctx.low
  high  : ctx'.high = ctx.high
  size  : ctx'.input.length = 64
  input : ctx'.input.take (buf.length % 64) = (Digest.absorb s buf).2

theorem reads_short (hl : ctx.input.length = 64) (hb : buf.length < 64) :
    Reads ctx { ctx with input := memcpy ctx.input 0 buf } ctx.buf.lo buf := by
  have hs : Digest.absorb ctx.buf.lo buf = (ctx.buf.lo, buf) := Digest.absorb_short hb
  have hm : 0 + buf.length ≤ ctx.input.length := by omega
  refine ⟨by rw [hs], rfl, rfl, (length_memcpy hm).trans hl, ?_⟩
  rw [hs, Nat.mod_eq_of_lt hb, ← Nat.zero_add buf.length]
  exact take_memcpy hm

theorem reads_blocks (h : 32 ≤ w) (turns : Nat) (buf : List UInt8) (hl : ctx.input.length = 64)
    (ht : buf.length / 64 ≤ turns) :
    Reads ctx (blocks turns buf ctx) ctx.buf.lo buf := by
  induction turns generalizing ctx buf
  case zero          => exact reads_short hl (by omega)
  case succ turns hi =>
    rw [blocks]
    split
    case isFalse hb => exact reads_short hl (by omega)
    case isTrue hb  =>
      have hk : (buf.take 64).length = 64 := List.length_take_of_le hb
      obtain ⟨hf, hl', hh', hs⟩ := fill_eq h ctx 0 (buf.take 64) ((Nat.zero_add _).trans hk) hl
      have hd : (buf.drop 64).length = buf.length - 64 := List.length_drop
      obtain ⟨hbuf, hlow, hhigh, hsize, hinput⟩ := hi _ hs (show (buf.drop 64).length / 64 ≤ turns by omega)
      have he : Digest.absorb ctx.buf.lo buf = Digest.absorb (ctx.fill 0 (buf.take 64)).buf.lo (buf.drop 64) := by
        rw [hf, List.take_zero, List.nil_append, ← Digest.absorb_block hk, List.take_append_drop]
      rw [hd, show (buf.length - 64) % 64 = buf.length % 64 by omega] at hinput
      rw [← he] at hbuf hinput
      exact ⟨hbuf, hlow.trans hl', hhigh.trans hh', hsize, hinput⟩

theorem reads_feed (h : 32 ≤ w) (ctx : Context w) {t : Nat} (ht : t < 64) (buf : List UInt8)
    (hl : ctx.input.length = 64) :
    Reads ctx (feed t buf ctx) ctx.buf.lo (ctx.input.take t ++ buf) := by
  have hk : (ctx.input.take t).length = t := List.length_take_of_le (by omega)
  rw [feed]
  split
  case isTrue h0 =>
    rw [h0, List.take_zero, List.nil_append]
    exact reads_blocks h _ buf hl (Nat.div_le_self ..)
  case isFalse h0 =>
    split
    case isTrue hb  =>
      have hm : t + buf.length ≤ ctx.input.length := by omega
      have hs : (ctx.input.take t ++ buf).length < 64 := by
        rw [List.length_append, hk]
        omega
      refine ⟨by rw [Digest.absorb_short hs], rfl, rfl, (length_memcpy hm).trans hl, ?_⟩
      rw [Digest.absorb_short hs, Nat.mod_eq_of_lt hs, List.length_append, hk]
      exact take_memcpy hm
    case isFalse hb =>
      have hf : (buf.take (64 - t)).length = 64 - t := List.length_take_of_le (by omega)
      have hb : (ctx.input.take t ++ buf.take (64 - t)).length = 64 := by
        rw [List.length_append, hk, hf]
        omega
      obtain ⟨hs, hl', hh', hz⟩ := fill_eq h ctx t (buf.take (64 - t)) (by omega) hl
      have he : Digest.absorb ctx.buf.lo (ctx.input.take t ++ buf) =
          Digest.absorb (ctx.fill t (buf.take (64 - t))).buf.lo (buf.drop (64 - t)) := by
        rw [hs, ← Digest.absorb_block hb, List.append_assoc, List.take_append_drop]
      have hd : (buf.drop (64 - t)).length = buf.length - (64 - t) := List.length_drop
      have ⟨hbuf, hlow, hhigh, hsize, hinput⟩ :=
        reads_blocks h buf.length (buf.drop (64 - t)) hz (by omega)
      rw [← he] at hbuf hinput
      refine ⟨hbuf, hlow.trans hl', hhigh.trans hh', hsize, ?_⟩
      rw [← hinput, hd, List.length_append, hk]
      congr 1
      omega

theorem holds_init (h : 32 ≤ w) : Holds (init : Context w) [] where
  state := by
    have hl (n : Nat) : lo (BitVec.ofNat w n) = BitVec.ofNat 32 n := lo_ofNat h n
    rw [Digest.absorb_short (by decide)]
    exact (Digest.State.mk.injEq ..).mpr ⟨hl 0x67452301, hl 0xefcdab89, hl 0x98badcfe, hl 0x10325476⟩
  low   := by simp [init]
  high  := by simp [init, lo]
  size  := by simp [init]
  input := by rw [Digest.absorb_short (by decide)]; rfl

theorem low_count (h : 32 ≤ w) (hc : Holds ctx msg) (n : Nat) :
    (ctx.count n).low.toNat = 8 * (msg.length + n) % 2 ^ 32 := by
  have hl : (lo ctx.low).toNat = 8 * msg.length % 2 ^ 32 := by
    rw [lo, BitVec.toNat_setWidth, hc.low, Nat.mod_mod]
  have hs : lo (BitVec.ofNat w n <<< 3) = BitVec.ofNat 32 n <<< 3 := by
    rw [← lo_ofNat h]
    exact BitVec.setWidth_shiftLeft_of_le h
  rw [Context.count, toNat_and_mask h, lo_add h, BitVec.toNat_add, hl, hs, BitVec.toNat_shiftLeft,
    BitVec.toNat_ofNat, Nat.shiftLeft_eq]
  omega

theorem high_count (h : 32 ≤ w) (hc : Holds ctx msg) {n : Nat} (hn : n < 2 ^ 32) :
    (lo (ctx.count n).high).toNat = 8 * (msg.length + n) / 2 ^ 32 % 2 ^ 32 := by
  have hh := hc.high
  have h1 : lo (1 : BitVec w) = 1#32 := lo_ofNat h 1
  have hl := low_count h hc n
  rw [Context.count] at hl ⊢
  rw [lo_add h, BitVec.toNat_add, lo_ofNat h, BitVec.toNat_ofNat, Nat.shiftRight_eq_div_pow]
  split
  all_goals
    case' _ hlt => rw [BitVec.lt_def, hl, hc.low] at hlt
  case isTrue  => rw [lo_add h, BitVec.toNat_add, hh, h1, BitVec.toNat_ofNat]; omega
  case isFalse => rw [hh]; omega

theorem Holds.update (h : 32 ≤ w) (hc : Holds ctx msg) (hn : buf.length < 2 ^ 32) :
    Holds (update ctx buf) (msg ++ buf) := by
  have hlow := low_count h hc buf.length
  have hhigh := high_count h hc hn
  have ha := Digest.absorb_append Digest.start msg buf
  rw [← List.length_append] at hlow hhigh
  rw [← hc.state, ← hc.input] at ha
  have ⟨hs, hl, hh, hz, hi⟩ :=
    reads_feed h (ctx.count buf.length) (Nat.mod_lt msg.length (by decide)) buf hc.size
  rw [Md5.update, hc.used h]
  refine ⟨ha ▸ hs, hl ▸ hlow, hh ▸ hhigh, hz, ?_⟩
  have hk : (ctx.input.take (msg.length % 64)).length = msg.length % 64 := by
    rw [hc.input, Digest.length_absorb]
  rw [ha, show Digest.absorb ctx.buf.lo _ = _ from rfl]
  refine Eq.trans ?_ hi
  simp only [Context.count, List.length_append, hk]
  congr 1
  omega

theorem holds_foldl (h : 32 ≤ w) {chunks : List (List UInt8)} (hc : Holds ctx msg)
    (hn : ∀ c ∈ chunks, c.length < 2 ^ 32) : Holds (chunks.foldl Md5.update ctx) (msg ++ chunks.flatten) := by
  induction chunks generalizing ctx msg
  case nil          => simpa using hc
  case cons c cs hi =>
    have ⟨hb, hn⟩ := List.forall_mem_cons.mp hn
    simpa using hi (hc.update h hb) hn

theorem putu32_eq (x : BitVec w) : putu32 x = Digest.toBytes 4 (lo x).toNat := by
  have hm : (lo x).toNat = x.toNat % 256 ^ 4 := BitVec.toNat_setWidth ..
  rw [hm, Digest.toBytes_mod]
  simp [putu32, Digest.toBytes, Nat.shiftRight_eq_div_pow, Nat.div_div_eq_div_mul]

-- All that is missing to a block then is the number of bits.
structure Padded (ctx ctx' : Context w) (bytes : List UInt8) : Prop where
  state : ∀ bits : List UInt8, bits.length = 8 → Digest.absorb ctx.buf.lo (bytes ++ bits) =
    (Digest.compress ctx'.buf.lo (ctx'.input.take 56 ++ bits), [])
  low   : ctx'.low = ctx.low
  high  : ctx'.high = ctx.high
  size  : ctx'.input.length = 64

theorem padded_zeros (h : 32 ≤ w) (ctx : Context w) {p left : Nat} (hp : p + left = 64)
    (hl : ctx.input.length = 64) :
    Padded ctx (zeros p left ctx) (ctx.input.take p ++ List.replicate ((left + 56) % 64) 0) := by
  have hk : (ctx.input.take p).length = p := List.length_take_of_le (by omega)
  rw [zeros]
  split
  case isTrue hc =>
    have hz : List.replicate ((left + 56) % 64) (0 : UInt8) = List.replicate left 0 ++ List.replicate 56 0 := by
      rw [← List.replicate_add, Nat.mod_eq_of_lt (by omega)]
    have ⟨hs, hlow, hhigh, hsize⟩ := fill_eq h ctx p (List.replicate left 0)
      (by rw [List.length_replicate, hp]) hl
    generalize ctx.fill p (List.replicate left 0) = ctx₁ at hs hlow hhigh hsize
    have hm : 0 + (List.replicate 56 (0 : UInt8)).length ≤ ctx₁.input.length := by
      rw [hsize]
      decide
    have ht := take_memcpy hm
    rw [Nat.zero_add, List.length_replicate, List.take_zero, List.nil_append] at ht
    refine ⟨fun bits hb => ?_, hlow, hhigh, (length_memcpy hm).trans hsize⟩
    have h₁ : (ctx.input.take p ++ List.replicate left 0).length = 64 := by
      rw [List.length_append, hk, List.length_replicate, hp]
    have h₂ : (List.replicate 56 (0 : UInt8) ++ bits).length = 64 := by
      rw [List.length_append, List.length_replicate, hb]
    rw [hz, ← List.append_assoc, List.append_assoc, Digest.absorb_block h₁, Digest.absorb_last h₂, ht, hs]
  case isFalse hc =>
    have hz : (left + 56) % 64 = left - 8 := by omega
    have hm : p + (List.replicate (left - 8) (0 : UInt8)).length ≤ ctx.input.length := by
      rw [List.length_replicate]
      omega
    have ht := take_memcpy hm
    rw [List.length_replicate, show p + (left - 8) = 56 by omega] at ht
    refine ⟨fun bits hb => ?_, rfl, rfl, (length_memcpy hm).trans hl⟩
    rw [hz, ht]
    apply Digest.absorb_last
    simp only [List.length_append, hk, List.length_replicate, hb]
    omega

theorem padded_pad (h : 32 ≤ w) (hc : Holds ctx msg) : Padded ctx (pad ctx)
    (ctx.input.take (msg.length % 64) ++ 0x80 :: List.replicate ((119 - msg.length % 64) % 64) 0) := by
  have hn : msg.length % 64 < 64 := Nat.mod_lt _ (by decide)
  rw [pad, hc.used h]
  generalize msg.length % 64 = n at hn
  have hm : n + [(0x80 : UInt8)].length ≤ ctx.input.length := hc.size ▸ hn
  have ht : (memcpy ctx.input n [0x80]).take (n + 1) = ctx.input.take n ++ [0x80] := take_memcpy hm
  have ⟨hs, hlow, hhigh, hsize⟩ := padded_zeros h { ctx with input := memcpy ctx.input n [0x80] }
    (show n + 1 + (64 - 1 - n) = 64 by omega) ((length_memcpy hm).trans hc.size)
  refine ⟨fun bits hb => ?_, hlow, hhigh, hsize⟩
  have hs := hs bits hb
  rwa [ht, List.append_assoc (List.take n ctx.input), List.singleton_append,
    show 64 - 1 - n + 56 = 119 - n by omega] at hs

theorem toBytes_bits (hc : Holds ctx msg) :
    Digest.toBytes 8 (8 * msg.length) = putu32 ctx.low ++ putu32 ctx.high := by
  have hl : (lo ctx.low).toNat = 8 * msg.length % 256 ^ 4 := by
    rw [lo, BitVec.toNat_setWidth, hc.low, Nat.mod_mod]
    rfl
  have hh : (lo ctx.high).toNat = 8 * msg.length / 256 ^ 4 % 256 ^ 4 := hc.high
  rw [putu32_eq, putu32_eq, hl, hh, Digest.toBytes_mod, Digest.toBytes_mod]
  exact Digest.toBytes_add 4 4 _

theorem final_buf (h : 32 ≤ w) (hc : Holds ctx msg) :
    (final ctx).buf.lo = (Digest.absorb Digest.start (msg ++ Digest.padding msg.length)).1 := by
  have ⟨hs, hlow, hhigh, hsize⟩ := padded_pad h hc
  have hm : 56 + (putu32 (pad ctx).low).length ≤ (pad ctx).input.length := by
    rw [hsize]
    exact Nat.le_of_ble_eq_true rfl
  have ht : (memcpy (pad ctx).input 56 (putu32 (pad ctx).low)).take 60 =
      (pad ctx).input.take 56 ++ putu32 (pad ctx).low := take_memcpy hm
  have hf := (fill_eq h { pad ctx with input := memcpy (pad ctx).input 56 (putu32 (pad ctx).low) } 60
    (putu32 (pad ctx).high) rfl ((length_memcpy hm).trans hsize)).1
  have hb : Digest.toBytes 8 (8 * msg.length) = putu32 (pad ctx).low ++ putu32 (pad ctx).high := by
    rw [toBytes_bits hc, hlow, hhigh]
  have hs := congrArg (·.1) (hs _ (Digest.length_toBytes 8 (8 * msg.length)))
  calc (final ctx).buf.lo
    _ = _ := hf
    _ = _ := by rw [ht, List.append_assoc, ← hb]
    _ = _ := hs.symm
    _ = _ := by
      rw [Digest.absorb_append Digest.start msg, ← hc.state, ← hc.input, Digest.padding, List.append_assoc]

theorem final_digest (h : 32 ≤ w) (hc : Holds ctx msg) : (final ctx).digest = Digest.md5 msg := by
  calc (final ctx).digest
    _ = Digest.ofState (final ctx).buf.lo := by
      simp only [final, Digest.ofState, Words.lo, List.flatMap_cons, List.flatMap_nil, putu32_eq,
        List.append_assoc, List.append_nil]
    _ = _ := by rw [final_buf h hc, Digest.md5]

theorem hexByte_eq (b : UInt8) :
    hexByte b = [Digest.digits.getD (b.toNat / 16) '0', Digest.digits.getD (b.toNat % 16) '0'] := by
  have hd : ∀ n < 256, hexByte (UInt8.ofNat n) =
      [Digest.digits.getD (n / 16) '0', Digest.digits.getD (n % 16) '0'] := by decide +kernel
  have := hd b.toNat b.toNat_lt
  rwa [UInt8.ofNat_toNat] at this

theorem final_hexdigest (ctx : Context w) : (final ctx).hexdigest = Digest.hex (final ctx).digest := by
  simp only [final, Digest.hex, ← hexByte_eq]

end Context

-- The digest is that of all the bytes, whatever pieces they come in.
theorem digest_eq (h : 32 ≤ w) (chunks : List (List UInt8)) (hn : ∀ c ∈ chunks, c.length < 2 ^ 32) :
    (final (chunks.foldl update (init : Context w))).digest = Digest.md5 chunks.flatten ∧
    (final (chunks.foldl update (init : Context w))).hexdigest = Digest.hex (Digest.md5 chunks.flatten) := by
  have hd := final_digest h (holds_foldl h (holds_init h) hn)
  exact ⟨hd, by rw [final_hexdigest, hd, List.nil_append]⟩

-- Two pieces in one block.
theorem digest_eq_test :
    (final ([bytes ['t', 'e'], bytes ['s', 't']].foldl update (init : Context 64))).digest =
      Digest.md5 [bytes ['t', 'e'], bytes ['s', 't']].flatten ∧
    (final ([bytes ['t', 'e'], bytes ['s', 't']].foldl update (init : Context 64))).hexdigest =
      Digest.hex (Digest.md5 [bytes ['t', 'e'], bytes ['s', 't']].flatten) :=
  digest_eq (by decide) [bytes ['t', 'e'], bytes ['s', 't']] (by decide)

set_option maxRecDepth 1000000 in
example : hexdigest ["test".toList] = "098f6bcd4621d373cade4e832627b4f6".toList := by
  decide +kernel

section Hexdigest

variable {strs : List CString}

theorem length_bytes (s : CString) : (bytes s).length = s.length :=
  List.length_map ..

theorem hexdigest_eq (hn : ∀ s ∈ strs, s.length < 2 ^ 32) :
    hexdigest strs = Digest.hex (Digest.md5 (bytes strs.flatten)) := by
  have hn : ∀ c ∈ strs.map bytes, c.length < 2 ^ 32 := by
    intro c hc
    obtain ⟨s, hs, rfl⟩ := List.mem_map.mp hc
    exact length_bytes s ▸ hn s hs
  have hc := holds_foldl (w := 64) (by decide) (holds_init (by decide)) hn
  rw [List.nil_append] at hc
  have hb : (strs.map bytes).flatten = bytes strs.flatten := List.map_flatten.symm
  rw [hexdigest, ← List.foldl_map, final_hexdigest, final_digest (by decide) hc, hb]

-- The challenge and the password are hashed one after the other, as one text.
theorem hexdigest_pair {s t : CString} (hn : s.length + t.length < 2 ^ 32) :
    hexdigest [s, t] = hexdigest [s ++ t] := by
  have hs : ∀ u ∈ [s, t], u.length < 2 ^ 32 := by
    simp
    omega
  have hp : ∀ u ∈ [s ++ t], u.length < 2 ^ 32 := by
    simpa
  rw [hexdigest_eq hs, hexdigest_eq hp]
  simp

theorem isHexdigest_hexdigest : Password.IsHexdigest fun s => hexdigest [s] := by
  intro s
  generalize hc : [s].foldl (fun ctx s => update ctx (bytes s)) (init : Context 64) = ctx
  have hd : (final ctx).digest.length = 16 := by simp [final, putu32]
  have he : hexdigest [s] = Digest.hex (final ctx).digest := by rw [hexdigest, hc, final_hexdigest]
  beta_reduce
  rw [he]
  refine ⟨by rw [Digest.length_hex, hd], fun c hc => ?_⟩
  obtain ⟨b, -, hc⟩ := List.mem_flatMap.mp hc
  exact Digest.mem_digits b c hc

end Hexdigest

end F2b.Md5
