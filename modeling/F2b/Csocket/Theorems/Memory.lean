import F2b.Csocket.Memory

-- The writes to the buffers of the connections.

namespace F2b.RawBuf

open CString

section Bounds

variable {b : RawBuf} {str : List Char} {delim : CString} {len p n : Nat} {byte : Nat → Char} {op : Op} {ops : List Op}

def InRange (b : RawBuf) : Prop :=
  ∀ i ∈ b.log, i < b.size

-- There is room for what is appended and for the terminator behind it.
def Room (b : RawBuf) : Op → Prop
  | .append str len => b.used + count str len < b.size
  | .extract _      => True
  | .splice _       => True

def AllRoom : RawBuf → List Op → Prop
  | _, []        => True
  | b, op :: ops => b.Room op ∧ AllRoom (b.step op) ops

@[simp]
theorem write_used (b : RawBuf) (p n : Nat) (byte : Nat → Char) : (b.write p n byte).used = b.used :=
  rfl

@[simp]
theorem write_size (b : RawBuf) (p n : Nat) (byte : Nat → Char) : (b.write p n byte).size = b.size :=
  rfl

theorem inRange_write_iff : (b.write p n byte).InRange ↔ b.InRange ∧ (n = 0 ∨ p + n ≤ b.size) := by
  rw [InRange, write, List.forall_mem_append]
  refine and_congr_right' ?_
  simp only [List.mem_range'_1]
  constructor
  case mp  =>
    intro h
    by_contra hn
    have := h (p + n - 1) (by omega)
    omega
  case mpr =>
    intro h i hi
    omega

theorem append_spec (hu : b.used ≤ b.size) (str : List Char) (len : Nat) :
    (b.append str len).2.size = b.size ∧ (b.append str len).2.used = min b.size (b.used + count str len) ∧
    ((b.append str len).2.InRange ↔ b.InRange ∧ b.used + count str len < b.size) := by
  rw [append]
  generalize count str len = n
  have hm : b.used + (if b.used + n > b.size then b.size - b.used else n) = min b.size (b.used + n) := by
    split <;> omega
  generalize (if b.used + n > b.size then b.size - b.used else n) = m at hm
  have h₁ : (b.write b.used m (str.getD · nul)).InRange ↔ b.InRange ∧ (m = 0 ∨ b.used + m ≤ b.size) :=
    inRange_write_iff
  refine ⟨rfl, hm, inRange_write_iff.trans ((and_congr_left' h₁).trans ?_)⟩
  rw [and_assoc]
  refine and_congr_right' ?_
  simp only [write_size, write_used]
  omega

theorem splice_spec (hs : 0 < b.size) (hu : b.used ≤ b.size) (len : Nat) :
    (b.splice len).2.size = b.size ∧ (b.splice len).2.used = b.used - len ∧
    ((b.splice len).2.InRange ↔ b.InRange) := by
  rw [splice]
  by_cases h0 : len = 0
  case pos => rw [if_pos h0, h0]; exact ⟨rfl, rfl, Iff.rfl⟩
  case neg =>
    rw [if_neg h0]
    have hm : b.used - (if b.used ≤ len then b.used else len) = b.used - len := by
      split <;> omega
    generalize (if b.used ≤ len then b.used else len) = m at hm
    have h₁ : (({ b with used := b.used - m } : RawBuf).write 0 (b.used - m) fun i => b.data (m + i)).InRange ↔
        b.InRange ∧ (b.used - m = 0 ∨ 0 + (b.used - m) ≤ b.size) :=
      inRange_write_iff
    refine ⟨rfl, hm, inRange_write_iff.trans ((and_congr_left' h₁).trans ?_)⟩
    rw [and_assoc]
    refine and_iff_left ?_
    simp only [write_size, write_used]
    omega

theorem extract_spec (hs : 0 < b.size) (hu : b.used ≤ b.size) (delim : CString) :
    (b.extract delim).2.size = b.size ∧ (b.extract delim).2.used ≤ b.used ∧
    ((b.extract delim).2.InRange ↔ b.InRange) := by
  rw [extract]
  split
  case isTrue  => exact ⟨rfl, Nat.le_refl _, Iff.rfl⟩
  case isFalse =>
    split
    case h_1       => exact ⟨rfl, Nat.le_refl _, Iff.rfl⟩
    case h_2 len _ =>
      have ⟨h₁, h₂, h₃⟩ := splice_spec hs hu (len + delim.length)
      exact ⟨h₁, h₂ ▸ Nat.sub_le .., h₃⟩

theorem step_spec (hs : 0 < b.size) (hu : b.used ≤ b.size) (op : Op) :
    (b.step op).size = b.size ∧ (b.step op).used ≤ b.size ∧ ((b.step op).InRange ↔ b.InRange ∧ b.Room op) := by
  cases op
  case append str len =>
    obtain ⟨h₁, h₂, h₃⟩ := append_spec hu str len
    exact ⟨h₁, h₂ ▸ Nat.min_le_left .., h₃⟩
  case extract delim  =>
    obtain ⟨h₁, h₂, h₃⟩ := extract_spec hs hu delim
    exact ⟨h₁, h₂.trans hu, by rw [step, h₃, Room, and_true]⟩
  case splice len     =>
    obtain ⟨h₁, h₂, h₃⟩ := splice_spec hs hu len
    exact ⟨h₁, by rw [step, h₂]; omega, by rw [step, h₃, Room, and_true]⟩

theorem run_spec (hs : 0 < b.size) (hu : b.used ≤ b.size) (ops : List Op) :
    (b.run ops).size = b.size ∧ (b.run ops).used ≤ b.size ∧ ((b.run ops).InRange ↔ b.InRange ∧ AllRoom b ops) := by
  induction ops generalizing b
  case nil            => exact ⟨rfl, hu, by rw [AllRoom, and_true]; rfl⟩
  case cons op ops hi =>
    have ⟨h₁, h₂, h₃⟩ := step_spec hs hu op
    have ⟨h₄, h₅, h₆⟩ := hi (b := b.step op) (by omega) (by omega)
    have hr : b.run (op :: ops) = (b.step op).run ops := rfl
    rw [hr, h₄, h₁, h₆, h₃, AllRoom, and_assoc]
    exact ⟨rfl, by omega, Iff.rfl⟩

theorem allRoom_iff : AllRoom b ops ↔ ∀ pre op post, ops = pre ++ op :: post → (b.run pre).Room op := by
  induction ops generalizing b
  case nil            => exact iff_of_true trivial fun pre op post h => by simp at h
  case cons op ops hi =>
    rw [AllRoom, hi]
    constructor
    case mp  =>
      rintro ⟨hr, hrs⟩ pre op' post h
      cases pre
      case nil           => obtain ⟨rfl, rfl⟩ := List.cons.inj h; exact hr
      case cons op'' pre => obtain ⟨rfl, rfl⟩ := List.cons.inj h; exact hrs pre op' post rfl
    case mpr =>
      intro h
      exact ⟨h [] op ops rfl, fun pre op' post he => h (op :: pre) op' post (he ▸ rfl)⟩

theorem size_receive (b : RawBuf) (bytes : List Char) : (b.receive bytes).1.size = RBUF_SIZE := by
  rw [receive]
  simp only []
  split_ifs <;> rfl

-- The terminator is behind the temporary buffer if and only if the chunk fills an empty receive buffer.
theorem receive_inRange_iff (hs : b.size = RBUF_SIZE) (hu : b.used ≤ b.size) (bytes : List Char) :
    (b.receive bytes).1.InRange ↔ b.used ≠ 0 ∨ bytes.length < RBUF_SIZE := by
  have hl : (bytes.take (b.size - b.used)).length = min (RBUF_SIZE - b.used) bytes.length := by
    rw [List.length_take, hs]
  have hz : 0 < RBUF_SIZE := by decide
  rw [receive]
  simp only []
  generalize (bytes.take (b.size - b.used)).length = read at hl
  have h₁ : ((alloc RBUF_SIZE fun _ => nul).write 0 read (bytes.getD · nul)).InRange :=
    inRange_write_iff.mpr ⟨List.forall_mem_nil _, .inr (show 0 + read ≤ RBUF_SIZE by omega)⟩
  have h₂ : (((alloc RBUF_SIZE fun _ => nul).write 0 read (bytes.getD · nul)).write read 1 fun _ => nul).InRange ↔
      b.used ≠ 0 ∨ bytes.length < RBUF_SIZE := by
    rw [inRange_write_iff, and_iff_right h₁]
    show _ ∨ read + 1 ≤ RBUF_SIZE ↔ _
    omega
  split
  case isTrue  => exact iff_of_true h₁ (by omega)
  case isFalse =>
    split
    case isTrue  => exact h₂
    case isFalse => exact h₂

end Bounds

section Buffers

structure Represents (b : RawBuf) (buf : Buf) : Prop where
  size : b.size = buf.size
  data : (List.range b.used).map b.data = buf.data
  stop : b.used ≠ 0 → b.data b.used = nul

variable {b : RawBuf} {buf : Buf} {str : List Char} {len p n : Nat} {byte : Nat → Char}

theorem data_write (b : RawBuf) (p n : Nat) (byte : Nat → Char) (i : Nat) :
    (b.write p n byte).data i = if p ≤ i ∧ i < p + n then byte (i - p) else b.data i :=
  rfl

theorem map_before (b : RawBuf) (p n : Nat) (byte : Nat → Char) :
    (List.range p).map (b.write p n byte).data = (List.range p).map b.data := by
  refine List.map_congr_left fun i hi => ?_
  have := List.mem_range.mp hi
  rw [data_write, if_neg (by omega)]

theorem map_write (b : RawBuf) (p n : Nat) (byte : Nat → Char) :
    (List.range (p + n)).map (b.write p n byte).data = (List.range p).map b.data ++ (List.range n).map byte := by
  rw [List.range_add, List.map_append, List.map_map, map_before]
  congr 1
  refine List.map_congr_left fun i hi => ?_
  have := List.mem_range.mp hi
  simp [data_write, this]

theorem write_stop (b : RawBuf) (p : Nat) : (b.write p 1 fun _ => nul).data p = nul := by
  simp [data_write]

theorem Represents.used (h : Represents b buf) : b.used = buf.data.length := by
  rw [← h.data, List.length_map, List.length_range]

theorem represents_alloc (size : Nat) (mem : Nat → Char) : Represents (alloc size mem) (Buf.alloc size) :=
  ⟨rfl, rfl, fun h => absurd rfl h⟩

theorem map_getD (s : List Char) (hn : n ≤ s.length) : (List.range n).map (s.getD · nul) = s.take n := by
  refine List.ext_getElem (by simp [hn]) fun i hi hi' => ?_
  rw [List.length_map, List.length_range] at hi
  simp [List.getElem?_eq_getElem (hi.trans_le hn)]

theorem Represents.append (h : Represents b buf) (hl : count str len ≤ str.length) :
    Represents (b.append str len).2 (buf.append (str.take (count str len))) := by
  rw [RawBuf.append]
  generalize count str len = n at *
  have hm : (if b.used + n > b.size then b.size - b.used else n) = min (b.size - b.used) n := by
    split <;> omega
  simp only [hm]
  refine ⟨h.size, ?_, fun _ => write_stop ..⟩
  have := map_write b b.used (min (b.size - b.used) n) (str.getD · nul)
  refine (map_before ..).trans (this.trans ?_)
  rw [Buf.append, List.take_take, h.data, map_getD _ (by omega), ← h.used, ← h.size]

theorem Represents.splice (h : Represents b buf) (len : Nat) : Represents (b.splice len).2 (buf.splice len) := by
  rw [RawBuf.splice, Buf.splice]
  by_cases h0 : len = 0
  case pos => rw [if_pos h0, h0]; exact h
  case neg =>
    have hm : (if b.used ≤ len then b.used else len) = min b.used len := by
      split <;> omega
    rw [if_neg h0]
    simp only [hm]
    refine ⟨h.size, ?_, fun _ => write_stop ..⟩
    refine (map_before ..).trans ?_
    have := map_write { b with used := b.used - min b.used len } 0 (b.used - min b.used len)
      fun i => b.data (min b.used len + i)
    rw [Nat.zero_add] at this
    refine this.trans ?_
    rw [← h.data]
    refine List.ext_getElem (by simp; omega) fun i hi hi' => ?_
    simp at hi ⊢
    congr 1
    omega

theorem Represents.text (h : Represents b buf) (hu : b.used ≠ 0) : b.text = ofBuffer buf.data := by
  rw [RawBuf.text, List.range_succ, List.map_append, h.data, List.map_singleton, h.stop hu, ofBuffer_append_nul]

theorem Represents.extract (h : Represents b buf) :
    (b.extract ['\n']).1 = buf.extract.map Prod.fst ∧
    Represents (b.extract ['\n']).2 (buf.extract.elim buf Prod.snd) := by
  rw [RawBuf.extract, Buf.extract]
  by_cases hu : b.used = 0
  case pos =>
    have hd : buf.data = [] := List.length_eq_zero_iff.mp (h.used ▸ hu)
    rw [if_pos hu, hd]
    exact ⟨rfl, h⟩
  case neg =>
    rw [if_neg hu, h.text hu, strstr_singleton]
    cases hc : (ofBuffer buf.data).strchr '\n'
    case none     => exact ⟨rfl, h⟩
    case some len =>
      have hl : len ≤ (ofBuffer buf.data).length := length_le_of_strstr ((strstr_singleton '\n' _).trans hc)
      refine ⟨?_, h.splice (len + 1)⟩
      have ht : (ofBuffer buf.data).take len = buf.data.take len := by
        obtain ⟨t, ht⟩ := ofBuffer_prefix buf.data
        conv_rhs => rw [← ht, List.take_append_of_le_length hl]
      exact congrArg some ht

-- The calls for a connection: a length is at most that of the text in memory, and lines end with newlines.
def OfConn : Op → Prop
  | .append str len => count str len ≤ str.length
  | .extract delim  => delim = ['\n']
  | .splice _       => True

def act (buf : Buf) : Op → Buf
  | .append str len => buf.append (str.take (count str len))
  | .extract _      => buf.extract.elim buf Prod.snd
  | .splice len     => buf.splice len

theorem Represents.step {op : Op} (h : Represents b buf) (ho : OfConn op) : Represents (b.step op) (act buf op) := by
  cases op
  case append str len => exact h.append ho
  case extract delim  =>
    obtain rfl := ho
    exact h.extract.2
  case splice len     => exact h.splice len

theorem Represents.run {ops : List Op} (h : Represents b buf) (ho : ∀ op ∈ ops, OfConn op) :
    Represents (b.run ops) (ops.foldl act buf) := by
  induction ops generalizing b buf
  case nil            => exact h
  case cons op ops hi =>
    have ⟨ho, hos⟩ := List.forall_mem_cons.mp ho
    exact hi (h.step ho) hos

theorem represents_run (size : Nat) (mem : Nat → Char) {ops : List Op} (ho : ∀ op ∈ ops, OfConn op) :
    Represents ((alloc size mem).run ops) (ops.foldl act (Buf.alloc size)) :=
  (represents_alloc size mem).run ho

theorem Represents.receive {conn : Conn} (h : Represents b conn.recv) (bytes : List Char) :
    let read := bytes.take (conn.recv.size - conn.recv.data.length)
    Represents (b.receive bytes).2 (
      if read = [] then conn.recv
      else if ¬(ofBuffer read).all fun c => isgraph c || isspace c then conn.recv
      else conn.recv.append read) := by
  intro read
  have hr : bytes.take (b.size - b.used) = read := by rw [h.size, h.used]
  have hs : (List.range (read.length + 1)).map
      (((alloc RBUF_SIZE fun _ => nul).write 0 read.length (bytes.getD · nul)).write read.length 1 fun _ => nul).data =
      read ++ [nul] := by
    have := map_write (alloc RBUF_SIZE fun _ => nul) 0 read.length (bytes.getD · nul)
    rw [Nat.zero_add, List.range_zero, List.map_nil, List.nil_append] at this
    rw [List.range_succ, List.map_append, map_before, this, map_getD _ (List.length_take_le' ..), List.map_singleton,
      write_stop]
    congr 1
    rw [List.length_take, ← List.take_eq_take_min]
  rw [RawBuf.receive]
  simp only [hr, hs, ofBuffer_append_nul, List.length_eq_zero_iff]
  by_cases h0 : read = []
  case pos => rw [if_pos h0, if_pos h0]; exact h
  case neg =>
    rw [if_neg h0, if_neg h0]
    split
    case isTrue  => exact h
    case isFalse =>
      have hc : count (read ++ [nul]) read.length = read.length := if_neg (by simpa using h0)
      have ha : Represents (b.append (read ++ [nul]) read.length).2
          (conn.recv.append ((read ++ [nul]).take (count (read ++ [nul]) read.length))) :=
        h.append (by rw [hc]; simp)
      rwa [hc, List.take_left] at ha

end Buffers

-- The buffers of a connection: what is used of them fits always. All bytes are written in the buffer if and
-- only if there is room for the terminator whenever something is appended, and in the temporary buffer if and
-- only if the chunk does not fill an empty receive buffer.
theorem inRange_iff (mem : Nat → Char) (ops : List Op) :
    (∀ size, 0 < size →
      ((alloc size mem).run ops).used ≤ size ∧
      ((∀ i ∈ ((alloc size mem).run ops).log, i < size) ↔
        ∀ pre op post, ops = pre ++ op :: post → ((alloc size mem).run pre).Room op)) ∧
    ∀ bytes,
      let recv := (alloc RBUF_SIZE mem).run ops
      (∀ i ∈ (recv.receive bytes).1.log, i < RBUF_SIZE) ↔ recv.used ≠ 0 ∨ bytes.length < RBUF_SIZE := by
  constructor
  case left  =>
    intro size hs
    have ⟨h₁, h₂, h₃⟩ := run_spec (b := alloc size mem) hs (Nat.zero_le _) ops
    rw [InRange, h₁, allRoom_iff] at h₃
    exact ⟨h₂, h₃.trans (and_iff_right (List.forall_mem_nil _))⟩
  case right =>
    intro bytes
    have ⟨h₁, h₂, _⟩ := run_spec (b := alloc RBUF_SIZE mem) (show 0 < RBUF_SIZE by decide) (Nat.zero_le _) ops
    have := receive_inRange_iff (b := (alloc RBUF_SIZE mem).run ops) h₁ (h₁ ▸ h₂) bytes
    rwa [InRange, size_receive] at this

-- Four bytes fill a buffer of four bytes, and 256 bytes the temporary one.
theorem not_inRange :
    (¬∀ size mem ops, 0 < size → ∀ i ∈ ((alloc size mem).run ops).log, i < size) ∧
    ¬∀ mem ops bytes, ∀ i ∈ (((alloc RBUF_SIZE mem).run ops).receive bytes).1.log, i < RBUF_SIZE := by
  constructor
  case left  =>
    intro h
    exact absurd (h 4 (fun _ => nul) [.append "abcd".toList 0] (by decide) 4 (by decide)) (by decide)
  case right =>
    intro h
    have hc := h (fun _ => nul) [] (List.replicate RBUF_SIZE 'a')
    rw [run, List.foldl_nil] at hc
    have := receive_inRange_iff (b := alloc RBUF_SIZE fun _ => nul) rfl (Nat.zero_le _) (List.replicate RBUF_SIZE 'a')
    rw [InRange, size_receive] at this
    obtain hu | hl := this.mp hc
    case inl => exact hu rfl
    case inr =>
      rw [List.length_replicate] at hl
      exact absurd hl (Nat.lt_irrefl _)

end F2b.RawBuf
