import F2b.Objects.Config
import F2b.Lib.Place
import F2b.Lib.Stdio
import Mathlib.Data.List.DropRight

-- Reading config files (config.c).

namespace F2b

def CONFIG_LINE_MAX : Nat := 256

namespace Config

-- What stays of a string that is cut where `strstr` finds `pat`.
def cut (pat : CString) : CString → CString
  | []     => []
  | c :: s => if pat.isPrefixOf (c :: s) then [] else c :: cut pat s

def stripComment (value : CString) : CString :=
  [" #".toList, "\t#".toList, " ;".toList, "\t;".toList].foldl (fun value pat => cut pat value) value

-- The loop that strips trailing spaces stops at the first byte.
def stripSpaces : CString → CString
  | []     => []
  | c :: s => c :: s.rdropWhile CString.isspace

-- `f2b_config_param_create` on its copy of the line. The key is stripped at its end in place, down to
-- the first byte of the line. With nothing but blanks before it, the sign '=' is a part of the key.
def paramOf (line : CString) : Option Param :=
  match line.strchr '=' with
  | none    => none
  | some eq =>
    let blanks := (line.takeWhile CString.isblank).length
    let start  := eq + 1 + ((line.drop (eq + 1)).takeWhile CString.isblank).length
    let value  := stripSpaces (stripComment (line.drop start))
    let stop   := max ((line.take eq).rdropWhile CString.isblank).length (min 1 eq)
    let buf    := (line.take (start + value.length)).set stop CString.nul
    let key    := CString.ofBuffer (buf.drop blanks)
    if key.length < 1 ∨ key.length ≥ CONFIG_KEY_MAX then none
    else if value.length < 1 ∨ value.length ≥ CONFIG_VAL_MAX then none
    else some ⟨key, value⟩

def paramCreate (src : CString) : Option Param :=
  paramOf (src.strlcpy CONFIG_LINE_MAX)

def paramFind (list : List Param) (name : CString) : Option Param :=
  list.find? (·.name = name)

def paramAppend (list : List Param) (param : Param) (replace : Bool) : List Param :=
  match if replace then Place.find? (·.name = param.name) list else none with
  | some p => (p.set { p.here with value := param.value }).list
  | none   => list ++ [param]

def startsWith (line name : CString) : Bool :=
  line.strncmpEq name name.length

-- `f2b_config_section_create` on its copy of the line.
def sectionOf (line : CString) : Option Section :=
  match line.strchr ']' with
  | none     => none
  | some len =>
    let line := line.take len
    let named (type : SectionType) (name : CString) : Section :=
      ⟨CString.strlcpy (line.drop name.length) CONFIG_KEY_MAX, type, []⟩
    if startsWith line "main".toList then some ⟨[], .main, []⟩
    else if startsWith line "csocket".toList then some ⟨[], .csocket, []⟩
    else if startsWith line "defaults".toList then some ⟨[], .defaults, []⟩
    else if startsWith line "source:".toList then some (named .source "source:".toList)
    else if startsWith line "backend:".toList then some (named .backend "backend:".toList)
    else if startsWith line "filter:".toList then some (named .filter "filter:".toList)
    else if startsWith line "jail:".toList then some (named .jail "jail:".toList)
    else none

def sectionCreate (src : CString) : Option Section :=
  sectionOf (CString.strlcpy (src.drop 1) CONFIG_LINE_MAX)

def empty : Config where
  main     := none
  csocket  := none
  defaults := none
  sources  := []
  filters  := []
  backends := []
  jails    := []

def sections (c : Config) : SectionType → List Section
  | .unknown  => []
  | .main     => c.main.toList
  | .csocket  => c.csocket.toList
  | .defaults => c.defaults.toList
  | .source   => c.sources
  | .filter   => c.filters
  | .backend  => c.backends
  | .jail     => c.jails

def setSections (c : Config) (secs : List Section) : SectionType → Config
  | .unknown  => c
  | .main     => { c with main := secs.head? }
  | .csocket  => { c with csocket := secs.head? }
  | .defaults => { c with defaults := secs.head? }
  | .source   => { c with sources := secs }
  | .filter   => { c with filters := secs }
  | .backend  => { c with backends := secs }
  | .jail     => { c with jails := secs }

-- A pointer to a section of a config: sections are put before the others of their type, so that
-- counting from the end of the list gives each one a number of its own.
structure Ref where
  type   : SectionType
  serial : Nat
  deriving DecidableEq

def sectionAppend (c : Config) (sec : Section) : Config × Ref :=
  let secs := c.sections sec.type
  match secs.findIdx? (·.name = sec.name) with
  | some prev => (c, ⟨sec.type, secs.length - 1 - prev⟩)
  | none      => (c.setSections (sec :: secs) sec.type, ⟨sec.type, secs.length⟩)

def modify (c : Config) (r : Ref) (f : Section → Section) : Config :=
  let secs := c.sections r.type
  c.setSections (secs.modify (secs.length - 1 - r.serial) f) r.type

-- What a line is taken for, unless it is empty, a comment or not understood: the header of a section,
-- which may be unknown, or an option.
inductive Item
  | header (sec : Option Section)
  | pair (param : Param)
  deriving DecidableEq

-- What is looked at of a line, up to its end and from its first byte that is not blank.
def strip (line : CString) : CString :=
  ((line.takeWhile (· ≠ '\r')).takeWhile (· ≠ '\n')).dropWhile CString.isblank

-- The classification of what is left, by what makes a section and an option of it.
def itemOf (header : CString → Option Section) (param : CString → Option Param) : CString → Option Item
  | []     => none
  | c :: s =>
    if c = ';' ∨ c = '#' then none
    else if c = '[' then some (.header (header (c :: s)))
    else (param (c :: s)).map .pair

def classify (line : CString) : Option Item :=
  itemOf sectionCreate paramCreate (strip line)

-- The variables of the loop in `f2b_config_load`. Without a current section, options are skipped.
structure Loader where
  config  : Config
  current : Option Ref
  deriving DecidableEq

namespace Loader

def replaces (type : SectionType) : Bool :=
  type = .main || type = .defaults

def act (st : Loader) : Item → Loader
  | .header none       => { st with current := none }
  | .header (some sec) =>
    let (config, r) := st.config.sectionAppend sec
    { config, current := some r }
  | .pair param        =>
    match st.current with
    | none   => st
    | some r => { st with
        config := st.config.modify r fun sec =>
          { sec with param := paramAppend sec.param param (replaces sec.type) } }

def read (st : Loader) (line : CString) : Loader :=
  (classify line).elim st st.act

end Loader

def loadText (c : Config) (text : CString) : Config :=
  ((CString.fgets CONFIG_LINE_MAX text).foldl Loader.read ⟨c, none⟩).config

def yes (value : CString) : Bool :=
  value = "yes".toList

-- What the file system has: the text of a file that can be opened, the directories, and the paths that
-- match a pattern unless `glob` fails.
structure Fs where
  open?  : CString → Option CString
  isDir  : CString → Bool
  glob   : CString → Option (List CString)

-- `f2b_config_load` with `recursion` off.
def loadPart (fs : Fs) (c : Config) (path : CString) : Bool × Config :=
  match fs.open? path with
  | none      => (false, c)
  | some text => (true, c.loadText text)

def includes (c : Config) : Option CString :=
  (c.main.bind fun sec => paramFind sec.param "includes".toList).map (·.value)

-- `f2b_config_load` with `recursion` on. Whether a part can be read does not matter.
def load (fs : Fs) (c : Config) (path : CString) : Bool × Config :=
  let (ok, c) := loadPart fs c path
  if !ok then (false, c)
  else match c.includes with
  | none     => (true, c)
  | some dir =>
    if !fs.isDir dir then (true, c)
    else match fs.glob (dir ++ "/*.conf".toList) with
    | none       => (false, c)
    | some parts => (true, parts.foldl (fun c path => (loadPart fs c path).2) c)

end Config
end F2b
