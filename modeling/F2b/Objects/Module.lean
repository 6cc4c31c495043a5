import F2b.Objects.Config

-- Loadable modules, and the calls that are made of them while they are loaded and configured
-- (source.c, filter.c, backend.c, mod-defs.h).

namespace F2b

def MOD_IS_READY     : BitVec 32 := 1
def MOD_WRONG_API    : BitVec 32 := 2
def MOD_NEED_FILTER  : BitVec 32 := 8
def MOD_TYPE_SOURCE  : BitVec 32 := 1024
def MOD_TYPE_FILTER  : BitVec 32 := 2048
def MOD_TYPE_BACKEND : BitVec 32 := 4096

namespace Module

inductive Kind
  | source
  | filter
  | backend
  deriving DecidableEq

namespace Kind

def type : Kind → BitVec 32
  | source  => MOD_TYPE_SOURCE
  | filter  => MOD_TYPE_FILTER
  | backend => MOD_TYPE_BACKEND

def handlers : Kind → List CString
  | source  => [
    "create".toList, "config".toList, "state".toList, "logcb".toList, "start".toList, "next".toList,
    "stats".toList, "stop".toList, "destroy".toList]
  | filter  => [
    "create".toList, "config".toList, "append".toList, "logcb".toList, "state".toList, "flush".toList,
    "stats".toList, "match".toList, "destroy".toList]
  | backend => [
    "create".toList, "config".toList, "state".toList, "logcb".toList, "start".toList, "stop".toList,
    "ping".toList, "ban".toList, "check".toList, "unban".toList, "destroy".toList]

end Kind

-- A call of a module. `use` stands for the calls of a module at work: `next` and `stats` of a source,
-- `ping`, `check`, `ban` and `unban` of a backend, and all calls of a filter that has been configured.
inductive Call
  | create (ok : Bool)
  | state
  | logcb
  | config (param : Config.Param)
  | loadFile
  | start (ok : Bool)
  | use
  | stop (ok : Bool)
  | destroy
  deriving DecidableEq

-- What `dlopen` finds in a library, and what the calls of its module return: `state` is called before
-- and after the configuration. `regexps` tells whether the file of a filter has a usable pattern.
structure Library where
  symbols : List CString
  creates : Bool
  state₁  : BitVec 32
  regexps : Bool
  state₂  : BitVec 32
  starts  : Bool
  stops   : Bool
  deriving DecidableEq

end Module

-- `f2b_source_t`, `f2b_filter_t` and `f2b_backend_t`: whether `h` and `cfg` are set, and the flags.
structure Module where
  h     : Bool
  cfg   : Bool
  flags : BitVec 32
  deriving DecidableEq

namespace Module

def LIBRARY_PARAM : CString :=
  "load".toList

def alloc : Module where
  h     := false
  cfg   := false
  flags := 0

-- The label `cleanup`, after the calls so far.
def cleanup (m : Module) (calls : List Call) : Bool × Module × List Call :=
  if m.h then
    (false, { m with h := false, cfg := false }, if m.cfg then calls ++ [.destroy] else calls)
  else
    (false, m, calls)

def configCalls (config : Config.Section) : List Call :=
  (config.param.filter (·.name ≠ LIBRARY_PARAM)).map .config

-- A filter reads its patterns after its options.
def loadFile (kind : Kind) (lib : Library) : Bool × List Call :=
  if kind = .filter then (lib.regexps, [.loadFile]) else (true, [])

def load (kind : Kind) (lib : Library) (config : Config.Section) (m : Module) : Bool × Module × List Call :=
  let m := { m with h := true }
  if !kind.handlers.all (lib.symbols.contains ·) then cleanup m []
  else if !lib.creates then cleanup m [.create false]
  else
    let m := { m with cfg := true }
    let calls := [.create true, .state]
    if lib.state₁ &&& kind.type = 0 then cleanup m calls
    else
      let file := loadFile kind lib
      let calls := calls ++ .logcb :: configCalls config ++ file.2
      if !file.1 then cleanup m calls
      else
        let m := { m with flags := lib.state₂ }
        let calls := calls ++ [.state]
        if m.flags.msb then cleanup m calls
        else if m.flags &&& MOD_WRONG_API ≠ 0 then cleanup m calls
        else if m.flags &&& MOD_IS_READY ≠ 0 then (true, m, calls)
        else cleanup m calls

-- `dlopen` maps a path to a library.
def init (kind : Kind) (dlopen : CString → Option Library) (config : Config.Section) (m : Module) :
    Bool × Module × List Call :=
  match config.param.find? (·.name = LIBRARY_PARAM) with
  | none       => (false, m, [])
  | some param =>
    match dlopen param.value with
    | none     => cleanup { m with h := false } []
    | some lib => load kind lib config m

-- `f2b_source_destroy`, `f2b_filter_destroy` and `f2b_backend_destroy`.
def destroy (m : Module) : List Call :=
  if m.h && m.cfg then [.destroy] else []

end Module

-- `f2b_source_init`, `f2b_filter_init` and `f2b_backend_init`.
def sourceInit  := Module.init .source
def filterInit  := Module.init .filter
def backendInit := Module.init .backend

end F2b
