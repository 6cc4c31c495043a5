import F2b.Filters.Match
import F2b.Jail.Process
import F2b.Objects.Handlers
import F2b.Sources.Files

-- Filters and their patterns (filter.c), with the functions of the modules that keep the patterns
-- (filters/preg.c, filters/pcre.c).

namespace F2b.Filters

def REGEX_LINE_MAX : Nat := 256
def PATTERN_MAX    : Nat := 256

def HOST_TOKEN : CString :=
  "<HOST>".toList

-- What the modules differ in, with `Opts` for the options in their `cfg_t`. The regular expression
-- libraries are parameters: `compile` tells whether a text can be compiled, by the case flag, and `learn`
-- whether what has been compiled can be studied.
structure Engine (Opts : Type) where
  hostRegex : CString
  create    : Opts
  config    : Opts → CString → CString → Bool × Opts
  icase     : Opts → Bool
  study     : Opts → Bool
  defscore  : Opts → Int
  reset     : Opts → Opts
  compile   : CString → Bool → Bool
  learn     : CString → Bool → Bool

-- filters/preg.c. There is nothing to be studied.
def pregEngine (regcomp : CString → Bool → Bool) : Engine Preg where
  hostRegex := "([0-9]\x7b1,3\x7d\\.[0-9]\x7b1,3\x7d\\.[0-9]\x7b1,3\x7d\\.[0-9]\x7b1,3\x7d)".toList
  create    := ⟨false, MATCH_DEFSCORE⟩
  config    := Preg.config
  icase     := Preg.icase
  study _   := false
  defscore  := Preg.defscore
  reset o   := { o with defscore := MATCH_DEFSCORE }
  compile   := regcomp
  learn _ _ := true

-- filters/pcre.c.
def pcreEngine (jit : Bool) (compile study : CString → Bool → Bool) : Engine Pcre where
  hostRegex := "(?<host>[0-9]\x7b1,3\x7d\\.[0-9]\x7b1,3\x7d\\.[0-9]\x7b1,3\x7d\\.[0-9]\x7b1,3\x7d)".toList
  create    := ⟨false, false, false, MATCH_DEFSCORE⟩
  config    := Pcre.config jit
  icase     := Pcre.icase
  study     := Pcre.study
  defscore  := Pcre.defscore
  reset o   := { o with defscore := MATCH_DEFSCORE }
  compile   := compile
  learn     := study

variable {σ : Type}

-- `cfg_t` of a module: its options, its patterns in the order of the list, and the bit MOD_IS_READY.
structure Cfg (Opts : Type) where
  opts    : Opts
  regexps : List Regexp
  ready   : Bool

namespace Engine

variable (m : Engine σ)

-- The text that is compiled: the first token is replaced.
def expand (pattern : CString) : Option CString :=
  (CString.strstr HOST_TOKEN pattern).map fun token =>
    pattern.take token ++ m.hostRegex ++ pattern.drop (token + HOST_TOKEN.length)

-- The pattern that is added to the list, if it can be used.
def regexp (o : σ) (pattern : CString) : Option Regexp :=
  match m.expand pattern with
  | none      => none
  | some text =>
    if !m.compile text (m.icase o) then none
    else if m.study o && !m.learn text (m.icase o) then none
    else some {
      pattern := pattern.strlcpy PATTERN_MAX
      ftag    := fnv32aStr pattern FNV1_32A_INIT
      score   := m.defscore o
      icase   := m.icase o }

def append (cfg : Cfg σ) (pattern : CString) : Bool × Cfg σ :=
  match m.regexp cfg.opts pattern with
  | none   => (false, cfg)
  | some r => (true, { cfg with regexps := cfg.regexps ++ [r], ready := true })

def flush (cfg : Cfg σ) : Cfg σ :=
  { cfg with regexps := [], opts := m.reset cfg.opts }

end Engine

inductive Library
  | preg (regcomp : CString → Bool → Bool) (regexec : CString → Bool → CString → Option (Int × Int))
  | pcre (jit : Bool) (compile study : CString → Bool → Bool) (exec : CString → Bool → CString → Option CString)

namespace Library

def Opts : Library → Type
  | preg .. => Preg
  | pcre .. => Pcre

def engine : (lib : Library) → Engine lib.Opts
  | preg regcomp _           => pregEngine regcomp
  | pcre jit compile study _ => pcreEngine jit compile study

def filter (lib : Library) (bufSize : Nat) : List Regexp → Filter :=
  match lib with
  | preg _ regexec  => Filters.preg regexec bufSize
  | pcre _ _ _ exec => Filters.pcre exec bufSize

end Library

namespace Preg

variable (regcomp : CString → Bool → Bool)

def append := (pregEngine regcomp).append
def flush  := (pregEngine regcomp).flush

end Preg

namespace Pcre

variable (jit : Bool) (compile study : CString → Bool → Bool)

def append := (pcreEngine jit compile study).append
def flush  := (pcreEngine jit compile study).flush

end Pcre

-- What is looked at of a line. Spaces at its end are stripped only where a terminator is found, and down
-- to the first byte.
def stripLine (line : CString) : CString :=
  let p := line.dropWhile CString.isblank
  match (CString.strchr p '\r').or (CString.strchr p '\n') with
  | none   => p
  | some 0 => p
  | some q => Config.stripSpaces (p.take q)

-- What a line is taken for, unless it is empty, a comment or without the marker.
inductive Line
  | option (param : Config.Param)
  | pattern (text : CString)
  deriving DecidableEq

def lineOf : CString → Option Line
  | []     => none
  | c :: s =>
    if c = '\r' ∨ c = '\n' then none
    else if c = ';' ∨ c = '#' then
      match CString.strstr "set: ".toList (c :: s) with
      | none   => none
      | some p => (Config.paramCreate ((c :: s).drop (p + 5))).map .option
    else if CString.strstr HOST_TOKEN (c :: s) = none then none
    else some (.pattern (c :: s))

def classify (line : CString) : Option Line :=
  lineOf (stripLine line)

section Load

variable (m : Engine σ)

-- The number of patterns loaded so far, and the module.
def act (st : Nat × Cfg σ) : Line → Nat × Cfg σ
  | .option param => (st.1, { st.2 with opts := (m.config st.2.opts param.name param.value).2 })
  | .pattern text =>
    match m.append st.2 text with
    | (false, cfg) => (st.1, cfg)
    | (true, cfg)  => (st.1 + 1, cfg)

def readLine (st : Nat × Cfg σ) (line : CString) : Nat × Cfg σ :=
  (classify line).elim st (act m st)

def loadFile (cfg : Cfg σ) (file : Option CString) : Nat × Cfg σ :=
  match file with
  | none      => (0, cfg)
  | some text => (CString.fgets REGEX_LINE_MAX text).foldl (readLine m) (0, m.flush cfg)

-- `f2b_filter_init` from the call of `create` on.
def init (sec : Config.Section) (file : Option CString) : Option (Cfg σ) :=
  let opts := (sec.param.filter (·.name ≠ Module.LIBRARY_PARAM)).foldl
    (fun opts p => (m.config opts p.name p.value).2) m.create
  let (loaded, cfg) := loadFile m ⟨opts, [], false⟩ file
  if loaded = 0 then none
  else if cfg.ready then some cfg
  else none

def cmdReload (cfg : Cfg σ) (file : Option CString) : CString × Cfg σ :=
  let (c, cfg) := loadFile m (m.flush cfg) file
  if c > 0 then ("+loaded ".toList ++ CString.ofNat c ++ " regexps\n".toList, cfg)
  else ("-can't reload filter\n".toList, cfg)

end Load
end F2b.Filters
