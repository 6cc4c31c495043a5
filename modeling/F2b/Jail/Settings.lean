import F2b.Objects.Config
import Mathlib.Algebra.Order.Ring.Unbundled.Rat

-- The options of a jail: their built-in values, and how config sections and the control socket set
-- them (jail.c). `atof` is a parameter, with exact rationals for its floating point results.

namespace F2b.Jail

def DEFAULT_BANTIME    : Int := 3600
def DEFAULT_FINDTIME   : Int := 300
def DEFAULT_EXPIRETIME : Int := 14400
def DEFAULT_BANSCORE   : Int := 50

@[ext]
structure Flags where
  configured : Bool
  enabled    : Bool
  hasState   : Bool
  hasSource  : Bool
  hasFilter  : Bool
  hasBackend : Bool
  deriving DecidableEq

@[ext]
structure Settings where
  flags            : Flags
  banscore         : Int
  findtime         : Int
  bantime          : Int
  expiretime       : Int
  findtimeExtend   : Rat
  bantimeExtend    : Rat
  expiretimeExtend : Rat
  sourceName       : CString
  sourceInit       : CString
  filterName       : CString
  filterInit       : CString
  backendName      : CString
  backendInit      : CString
  deriving DecidableEq

namespace Settings

-- The initial value of the static record `defaults`.
def builtin : Settings where
  flags            := ⟨false, false, false, false, false, false⟩
  banscore         := DEFAULT_BANSCORE
  findtime         := DEFAULT_FINDTIME
  bantime          := DEFAULT_BANTIME
  expiretime       := DEFAULT_EXPIRETIME
  findtimeExtend   := 0
  bantimeExtend    := 0
  expiretimeExtend := 0
  sourceName       := []
  sourceInit       := []
  filterName       := []
  filterInit       := []
  backendName      := []
  backendInit      := []

-- A `name:init_string` value. Without a colon the init string stays as it was, and a name that does
-- not fit leaves both as they were.
def parseCompoundValue (value : CString) (name init : CString) : CString × CString :=
  match value.strchr ':' with
  | none => (value.strlcpy CONFIG_KEY_MAX, init)
  | some len =>
    if len ≥ CONFIG_KEY_MAX then
      (name, init)
    else
      (value.strlcpy (len + 1), CString.strlcpy (value.drop (len + 1)) CONFIG_VAL_MAX)

def yes (value : CString) : Bool :=
  value = "yes".toList

def positive (value : CString) (default : Int) : Int :=
  if value.atoi ≤ 0 then default else value.atoi

-- `banscore` is a `short`, and only zero is replaced.
def score (value : CString) : Int :=
  if toShort value.atoi = 0 then DEFAULT_BANSCORE else toShort value.atoi

def deprecated : List CString :=
  ["incr_bantime".toList, "incr_findtime".toList, "maxretry".toList]

variable (atof : CString → Rat)

-- `none` is the result `false`. A deprecated option is only reported.
def setParam (s : Settings) (param value : CString) : Option Settings :=
  if param = "enabled".toList then
    some { s with flags.enabled := yes value }
  else if param = "bantime".toList then
    some { s with bantime := positive value DEFAULT_BANTIME }
  else if param = "findtime".toList then
    some { s with findtime := positive value DEFAULT_FINDTIME }
  else if param = "expiretime".toList then
    some { s with expiretime := positive value DEFAULT_EXPIRETIME }
  else if param = "banscore".toList then
    some { s with banscore := score value }
  else if param = "bantime_extend".toList then
    some { s with bantimeExtend := atof value }
  else if param = "findtime_extend".toList then
    some { s with findtimeExtend := atof value }
  else if param = "expiretime_extend".toList then
    some { s with expiretimeExtend := atof value }
  else if param ∈ deprecated then
    some s
  else
    none

def applyParam (s : Settings) (p : Config.Param) : Settings :=
  if p.name = "state".toList then
    { s with flags.hasState := true }
  else if p.name = "source".toList then
    let (name, init) := parseCompoundValue p.value s.sourceName s.sourceInit
    { s with sourceName := name, sourceInit := init, flags.hasSource := true }
  else if p.name = "filter".toList then
    let (name, init) := parseCompoundValue p.value s.filterName s.filterInit
    { s with filterName := name, filterInit := init, flags.hasFilter := true }
  else if p.name = "backend".toList then
    let (name, init) := parseCompoundValue p.value s.backendName s.backendInit
    { s with backendName := name, backendInit := init, flags.hasBackend := true }
  else
    (s.setParam atof p.name p.value).getD s

def applyConfig (s : Settings) (sec : Config.Section) : Settings :=
  sec.param.foldl (applyParam atof) s

end Settings
end F2b.Jail
