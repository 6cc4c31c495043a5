import F2b.Jail.Basic
import F2b.Objects.Module

-- The modules of a jail: how `f2b_jail_init` brings them up and `f2b_jail_stop` takes them down.

namespace F2b.Jail

open F2b.Module (Kind Call Library)

namespace Settings

def has (s : Settings) : Kind → Bool
  | .source  => s.flags.hasSource
  | .filter  => s.flags.hasFilter
  | .backend => s.flags.hasBackend

def moduleName (s : Settings) : Kind → CString
  | .source  => s.sourceName
  | .filter  => s.filterName
  | .backend => s.backendName

end Settings

def sections (config : Config) : Kind → List Config.Section
  | .source  => config.sources
  | .filter  => config.filters
  | .backend => config.backends

-- The modules of a jail, and the calls that have been made of them.
structure Modules where
  slot : Kind → Option Module
  log  : List (Kind × Call)

namespace Modules

def create (s : Settings) : Modules where
  slot kind := if s.has kind then some .alloc else none
  log       := []

def record (ms : Modules) (kind : Kind) (calls : List Call) : Modules :=
  { ms with log := ms.log ++ calls.map (kind, ·) }

def set (ms : Modules) (kind : Kind) (m : Option Module) : Modules :=
  { ms with slot := fun k => if k = kind then m else ms.slot k }

def destroy (ms : Modules) (kind : Kind) : Modules :=
  match ms.slot kind with
  | none   => ms
  | some m => (ms.record kind m.destroy).set kind none

end Modules

structure Setup where
  config    : Config
  statefile : Bool
  dlopen    : Kind → CString → Option Library

inductive Label
  | cleanup0
  | cleanup1
  | cleanup2
  | cleanup3
  deriving DecidableEq

def Label.cleanup (ms : Modules) : Label → Modules
  | cleanup0 => ms
  | cleanup1 => ms.destroy .source
  | cleanup2 => (ms.destroy .filter).destroy .source
  | cleanup3 => ((ms.destroy .backend).destroy .filter).destroy .source

variable (e : Setup) (s : Settings)

def findSection (kind : Kind) : Option Config.Section :=
  (sections e.config kind).find? (·.name = s.moduleName kind)

def library (kind : Kind) : Option Library := do
  let config ← findSection e s kind
  let param ← config.param.find? (·.name = Module.LIBRARY_PARAM)
  e.dlopen kind param.value

def initModule (kind : Kind)
    (init : (CString → Option Library) → Config.Section → Module → Bool × Module × List Call)
    (label : Label) (ms : Modules) : Except (Label × Modules) Modules :=
  match findSection e s kind with
  | none        => .error (label, ms)
  | some config =>
    let (ok, m, calls) := init (e.dlopen kind) config ((ms.slot kind).getD .alloc)
    let ms := (ms.record kind calls).set kind (some m)
    if ok then .ok ms else .error (label, ms)

def startModule (kind : Kind) (ms : Modules) : Except (Label × Modules) Modules :=
  let ok := (library e s kind).any (·.starts)
  let ms := ms.record kind [.start ok]
  if ok then .ok ms else .error (.cleanup3, ms)

def initSource (ms : Modules) : Except (Label × Modules) Modules :=
  if s.has .source then initModule e s .source sourceInit .cleanup1 ms else .ok ms

-- Without a filter, the source must not need one.
def initFilter (ms : Modules) : Except (Label × Modules) Modules :=
  if s.has .filter then initModule e s .filter filterInit .cleanup2 ms
  else if (ms.slot .source).any (·.flags &&& MOD_NEED_FILTER ≠ 0) then .error (.cleanup1, ms)
  else .ok ms

def initBackend (ms : Modules) : Except (Label × Modules) Modules :=
  if s.has .backend then initModule e s .backend backendInit .cleanup3 ms else .error (.cleanup3, ms)

def startSource (ms : Modules) : Except (Label × Modules) Modules :=
  if s.has .source then startModule e s .source ms else .ok ms

def initModules (ms : Modules) : Except (Label × Modules) Modules := do
  if s.flags.hasState && !e.statefile then
    throw (.cleanup0, ms)
  let ms ← initSource e s ms
  let ms ← initFilter e s ms
  let ms ← initBackend e s ms
  let ms ← startSource e s ms
  startModule e s .backend ms

def initJail : Bool × Modules :=
  if !(s.flags.hasSource || s.flags.hasBackend) then
    (false, .create s)
  else match initModules e s (.create s) with
  | .ok ms             => (true, ms)
  | .error (label, ms) => (false, label.cleanup ms)

-- The calls of `f2b_jail_stop`, with the list of hosts.
def stopModules (ipaddrs : List Ipaddr) (ms : Modules) : Modules :=
  let stops (kind : Kind) := (library e s kind).any (·.stops)
  let ms := if s.has .source then (ms.record .source [.stop (stops .source)]).destroy .source else ms
  let ms := if s.has .filter then ms.destroy .filter else ms
  if s.has .backend then
    let unbans := (ipaddrs.filter (·.banned)).map fun _ => Call.use
    (ms.record .backend (unbans ++ [.stop (stops .backend)])).destroy .backend
  else
    ms

def useModules (uses : List Kind) (ms : Modules) : Modules :=
  (uses.filter (s.has ·)).foldl (fun ms kind => ms.record kind [.use]) ms

def life (uses : List Kind) (ipaddrs : List Ipaddr) : Modules :=
  let (ok, ms) := initJail e s
  if ok then stopModules e s ipaddrs (useModules s uses ms) else ms

end F2b.Jail
