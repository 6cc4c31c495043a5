import F2b.Objects.Statefile

-- The source 'files', which reads what is appended to log files (sources/files.c).

namespace F2b

def FNV1_32A_INIT : UInt32 := 0x811c9dc5

def fnv32aStr (str : CString) (hval : UInt32) : UInt32 :=
  str.foldl (fun hval s =>
    let hval := hval ^^^ s.toNat.toUInt32
    hval + ((hval <<< 1) + (hval <<< 4) + (hval <<< 7) + (hval <<< 8) + (hval <<< 24))) hval

-- The file system as one call finds it.
inductive Inode.Mode
  | reg | fifo | other
  deriving DecidableEq

structure Inode where
  mode     : Inode.Mode
  data     : CString
  -- whether `fopen`, `fseek` and reading fail
  locked   : Bool
  unseek   : Bool
  damaged  : Bool
  deriving DecidableEq

structure Ino where
  dev : Nat
  ino : Nat
  deriving DecidableEq

structure Fs where
  inode  : Ino → Inode
  lookup : CString → Option Ino
  glob   : CString → Option (List CString)

structure Stat where
  ino  : Ino
  size : Nat
  deriving DecidableEq

-- A `FILE`, which reads the inode that was opened, whatever its path names later.
structure Stream where
  ino : Ino
  pos : Nat
  eof : Bool
  deriving DecidableEq

-- What `fgets` makes of a size, which it takes as an `int`. A negative one is as good as none.
def intSize (size : Nat) : Nat :=
  if size % 2 ^ 32 < 2 ^ 31 then size % 2 ^ 32 else 0

namespace Fs

variable (fs : Fs)

-- No file has the empty path.
def find (path : CString) : Option Ino :=
  if path = [] then none else fs.lookup path

def stat (path : CString) : Option Stat :=
  (fs.find path).map fun ino =>
    { ino, size := if (fs.inode ino).mode = .reg then (fs.inode ino).data.length else 0 }

def fopen (path : CString) : Option Stream := do
  let ino ← fs.find path
  if (fs.inode ino).locked then none else some { ino, pos := 0, eof := false }

def fseekEnd (fd : Stream) : Option Stream :=
  if (fs.inode fd.ino).unseek then none
  else some { fd with pos := (fs.inode fd.ino).data.length, eof := false }

-- One call of `fgets`, `none` for a NULL result. The end-of-file indicator stays set until
-- `clearerr`.
def fgets (size : Nat) (fd : Stream) : Option CString × Stream :=
  if size = 0 then
    (none, fd)
  else if size = 1 then
    (some [], fd)
  else if fd.eof || (fs.inode fd.ino).damaged then
    (none, fd)
  else
    let text := (fs.inode fd.ino).data.drop fd.pos
    match (CString.fgetsLoop size [] (size - 1) text).head? with
    | none       => (none, { fd with eof := true })
    | some chunk =>
      (some (CString.ofBuffer chunk),
        { fd with
          pos := fd.pos + chunk.length
          eof := chunk.length < size - 1 && chunk.getLast? ≠ some '\n' })

end Fs

def clearerr (fd : Stream) : Stream :=
  { fd with eof := false }

namespace Files

-- `f2b_file_t`, the links aside.
structure File where
  lines : UInt32
  stag  : UInt32
  fd    : Option Stream
  path  : CString
  st    : Stat
  deriving DecidableEq

def File.zero : File where
  lines := 0
  stag  := 0
  fd    := none
  path  := []
  st    := ⟨⟨0, 0⟩, 0⟩

-- `current` is the place of a node in the list.
structure Config where
  files   : List File
  current : Option Nat
  path    : CString
  deriving DecidableEq

variable (fs : Fs)

def opened (buf : CString) : Option File := do
  let st ← fs.stat buf
  let mode := (fs.inode st.ino).mode
  if mode = .other then none else
  let fd ← fs.fopen buf
  let fd ← (if mode = .reg then fs.fseekEnd fd else some fd)
  some {
    lines := 0
    stag  := fnv32aStr buf FNV1_32A_INIT
    fd    := some fd
    path  := CString.strlcpy buf PATH_MAX
    st    := st }

-- `file_open` clears the node before it looks at the file: with the path, which only stays in `buf`,
-- and with the link to the next node.
def fileOpen (file : File) (path : Option CString) : Except Fault (Bool × File) :=
  if path = none ∧ file.path = [] then .error .assertFailed
  else
    let buf := CString.strlcpy (path.getD file.path) PATH_MAX
    match opened fs buf with
    | none      => .ok (false, .zero)
    | some file => .ok (true, file)

def fileClose (file : File) : File :=
  if file.fd = none then file
  else { file with fd := none, lines := 0, st := File.zero.st }

def fileRotated (file : File) : Bool × File :=
  if file.fd = none then (true, file)
  else
    match fs.stat file.path with
    | none    => (true, file)
    | some st =>
      if file.st.ino ≠ st.ino ∨ file.st.size > st.size then (true, file)
      else if file.st.size < st.size then (false, { file with st })
      else (false, file)

-- Without a stream the call of `fgets` is undefined.
def fileGetline (bufsize : Nat) (file : File) : Option CString × File :=
  match file.fd with
  | none    => (none, file)
  | some fd =>
    match fs.fgets (intSize bufsize) fd with
    | (some buf, fd) =>
      (some (buf.takeWhile (· ≠ '\n')), { file with lines := file.lines + 1, fd := some fd })
    | (none, fd)     => (none, { file with fd := some (clearerr fd) })

def create (init : CString) : Config where
  files   := []
  current := none
  path    := CString.strlcpy init 256

-- The loop of `start` over the paths that `glob` finds.
def openAll (cfg : Config) : List CString → Except Fault Config
  | []            => .ok cfg
  | path :: paths => do
    match ← fileOpen fs .zero (some path) with
    | (false, _)   => openAll cfg paths
    | (true, file) =>
      openAll { cfg with files := file :: cfg.files, current := cfg.current.map (· + 1) } paths

def start (cfg : Config) : Except Fault (Bool × Config) :=
  match fs.glob cfg.path with
  | none       => .ok (false, cfg)
  | some paths => (openAll fs cfg paths).map (true, ·)

-- The loop of `next`: the line with the tag of its file, `none` for the result 0 at the end of the
-- list, and the nodes that are linked afterwards. After `fileOpen` no node follows.
def walk (bufsize : Nat) : List File → Except Fault (Option (UInt32 × CString) × List File)
  | []            => .ok (none, [])
  | file :: files => do
    let (rotated, file) := fileRotated fs file
    let file := if rotated then fileClose file else file
    if file.fd = none then
      let (_, file) ← fileOpen fs file none
      return (none, [file])
    else
      match fileGetline fs bufsize file with
      | (some line, file) => return (some (file.stag, line), file :: files)
      | (none, file)      =>
        let (line, files) ← walk bufsize files
        return (line, file :: files)

def next (bufsize : Nat) (reset : Bool) (cfg : Config) :
    Except Fault (Option (UInt32 × CString) × Config) := do
  if bufsize = 0 then throw .assertFailed
  let current :=
    if reset ∨ cfg.current = none then (if cfg.files = [] then none else some 0) else cfg.current
  let (line, files) ← walk fs bufsize (current.elim [] cfg.files.drop)
  return (line, { cfg with files := cfg.files.take (current.getD 0) ++ files, current })

end Files
end F2b
