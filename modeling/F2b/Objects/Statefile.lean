import F2b.Objects.Ipaddr
import F2b.Lib.Stdio
import Mathlib.Logic.Function.Basic

-- The file that keeps the bans of a jail while the daemon is down (statefile.c).

namespace F2b

def PATH_MAX : Nat := 4096

-- The files of the state directory that the daemon can read, with their contents. They are told apart by the texts of
-- their paths.
abbrev Disk := CString → Option CString

structure Statefile where
  path     : CString
  needSave : Bool
  deriving DecidableEq

-- What the system does with a new state file: it may not open it, keep only the first bytes of what
-- is printed to it, or not rename it.
structure SaveFate where
  opens   : Bool
  written : Option Nat
  renames : Bool
  deriving DecidableEq

namespace SaveFate

def keep (fate : SaveFate) (text : CString) : CString :=
  match fate.written with
  | none   => text
  | some n => text.take n

def complete : SaveFate where
  opens   := true
  written := none
  renames := true

end SaveFate

namespace Statefile

-- `statefile_create` makes an empty file if there is none.
def create (statedir jailname : CString) (disk : Disk) : Statefile × Disk :=
  let path := CString.strlcpy (statedir ++ '/' :: jailname ++ ".state".toList) PATH_MAX
  (⟨path, false⟩, Function.update disk path (some ((disk path).getD [])))

variable (inet : Inet)

-- The record of one line, `none` for a comment and for a line that is ignored.
def parse (buf : CString) : Option Ipaddr := do
  let p := buf.dropWhile CString.isspace
  if p.head? = some '#' then none else
  let (addr, p)      ← CString.scanStr IPADDR_MAX p
  let (bannedAt, p)  ← CString.scanU p
  let (releaseAt, _) ← CString.scanU p
  let ipaddr ← Ipaddr.create inet addr
  some { ipaddr with banned := true, bannedAt, releaseAt }

def loadText (text : CString) : List Ipaddr :=
  ((CString.fgets 256 text).filterMap (parse inet)).reverse

def load (sf : Statefile) (disk : Disk) : List Ipaddr :=
  (disk sf.path).elim [] (loadText inet)

def header : CString :=
  "# address\tbanned_at\trelease_at\n".toList

def entry (ipaddr : Ipaddr) : CString :=
  ipaddr.text ++ '\t' :: CString.printLu ipaddr.bannedAt ++
    '\t' :: CString.printLu ipaddr.releaseAt ++ ['\n']

def print (addrlist : List Ipaddr) : CString :=
  header ++ (addrlist.filter (·.banned)).flatMap entry

-- An empty list is not written. The results of `fprintf` and `fclose` are not looked at.
def save (sf : Statefile) (addrlist : List Ipaddr) (fate : SaveFate) (disk : Disk) :
    Bool × Statefile × Disk :=
  let path := CString.strlcpy (sf.path ++ ".new".toList) PATH_MAX
  let text := fate.keep (print addrlist)
  if addrlist = [] then
    (true, sf, disk)
  else if !fate.opens then
    (false, sf, disk)
  else if !fate.renames then
    (false, sf, Function.update disk path (some text))
  else
    (true, { sf with needSave := false },
      Function.update (Function.update disk path none) sf.path (some text))

-- What arrives in the file of all that is printed to it: by the number of the call of `fprintf`, and what is
-- still there after `fclose`. `none` stands for everything, a number for so many bytes.
structure Writes where
  opens   : Bool
  prints  : Nat → Option Nat
  closes  : Option Nat
  renames : Bool

def keep (count : Option Nat) (text : CString) : CString :=
  count.elim text text.take

def pieces (addrlist : List Ipaddr) : List CString :=
  header :: (addrlist.filter (·.banned)).map entry

def arrived (prints : Nat → Option Nat) : Nat → List CString → CString
  | _, []      => []
  | i, s :: ss => keep (prints i) s ++ arrived prints (i + 1) ss

-- `save` with a result for every call.
def saveBy (sf : Statefile) (addrlist : List Ipaddr) (writes : Writes) (disk : Disk) :
    Bool × Statefile × Disk :=
  let path := CString.strlcpy (sf.path ++ ".new".toList) PATH_MAX
  let text := keep writes.closes (arrived writes.prints 0 (pieces addrlist))
  if addrlist = [] then
    (true, sf, disk)
  else if !writes.opens then
    (false, sf, disk)
  else if !writes.renames then
    (false, sf, Function.update disk path (some text))
  else
    (true, { sf with needSave := false },
      Function.update (Function.update disk path none) sf.path (some text))

end Statefile
end F2b
