import F2b.Csocket.Conn

-- The buffers of the connections in memory, with the indices that are written (buf.c, csocket.c).

namespace F2b

-- `data` is the memory from the pointer `data` on, of which `size` bytes are allocated.
structure RawBuf where
  used : Nat
  size : Nat
  data : Nat → Char
  log  : List Nat

namespace RawBuf

def write (b : RawBuf) (p n : Nat) (byte : Nat → Char) : RawBuf :=
  { b with
    data := fun i => if p ≤ i ∧ i < p + n then byte (i - p) else b.data i
    log  := b.log ++ List.range' p n }

-- `mem` is what `malloc` leaves in the memory.
def alloc (size : Nat) (mem : Nat → Char) : RawBuf where
  used := 0
  size := size
  data := mem
  log  := []

-- The number of bytes that a call of `f2b_buf_append` gives.
def count (str : List Char) (len : Nat) : Nat :=
  if len = 0 then (CString.ofBuffer str).length else len

def append (b : RawBuf) (str : List Char) (len : Nat) : Nat × RawBuf :=
  let len := count str len
  let len := if b.used + len > b.size then b.size - b.used else len
  let b := b.write b.used len (str.getD · CString.nul)
  let b := { b with used := b.used + len }
  (len, b.write b.used 1 fun _ => CString.nul)

def splice (b : RawBuf) (len : Nat) : Nat × RawBuf :=
  if len = 0 then (len, b)
  else
    let len := if b.used ≤ len then b.used else len
    let b := { b with used := b.used - len }
    let b := b.write 0 b.used fun i => b.data (len + i)
    (len, b.write b.used 1 fun _ => CString.nul)

-- The string at `data`: all that has been used is followed by a NUL.
def text (b : RawBuf) : CString :=
  CString.ofBuffer ((List.range (b.used + 1)).map b.data)

def extract (b : RawBuf) (delim : CString) : Option CString × RawBuf :=
  if b.used = 0 then (none, b)
  else match CString.strstr delim b.text with
  | none     => (none, b)
  | some len => (some (b.text.take len), (b.splice (len + delim.length)).2)

inductive Op
  | append (str : List Char) (len : Nat)
  | extract (delim : CString)
  | splice (len : Nat)
  deriving DecidableEq

def step (b : RawBuf) : Op → RawBuf
  | .append str len => (b.append str len).2
  | .extract delim  => (b.extract delim).2
  | .splice len     => (b.splice len).2

def run (b : RawBuf) (ops : List Op) : RawBuf :=
  ops.foldl step b

-- `f2b_conn_process` up to the first call of `f2b_buf_extract`, with its buffer `tmp`. `bytes` are those
-- that wait. Without a byte, or with one that cannot be printed, it returns.
def receive (recv : RawBuf) (bytes : List Char) : RawBuf × RawBuf :=
  let tmp := alloc RBUF_SIZE fun _ => CString.nul
  let avail := recv.size - recv.used
  let read := (bytes.take avail).length
  let tmp := tmp.write 0 read (bytes.getD · CString.nul)
  if read = 0 then (tmp, recv)
  else
    let tmp := tmp.write read 1 fun _ => CString.nul
    let str := (List.range (read + 1)).map tmp.data
    if ¬(CString.ofBuffer str).all fun c => CString.isgraph c || CString.isspace c then (tmp, recv)
    else (tmp, (recv.append str read).2)

end RawBuf
end F2b
