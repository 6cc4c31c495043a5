import F2b.Lib.CString
import F2b.Lib.Place
import F2b.Lib.Transition

-- The backend that runs commands, and the usage counts that its instances share (exec.c, backend.c).

namespace F2b

def ID_MAX : Nat := 32

namespace Exec

structure CfgId where
  name  : CString
  count : Nat
  deriving DecidableEq

-- The handle of an instance. A list without commands is the NULL pointer.
structure Cfg where
  name   : CString
  shared : Bool
  start  : List CString
  stop   : List CString
  ban    : List CString
  unban  : List CString
  check  : List CString
  fits   : name.length ≤ ID_MAX
  deriving DecidableEq

def create (id : CString) : Cfg where
  name   := id.strlcpy (ID_MAX + 1)
  shared := false
  start  := []
  stop   := []
  ban    := []
  unban  := []
  check  := []
  fits   := Nat.le_of_lt_succ (CString.length_strlcpy_lt id (Nat.succ_pos ID_MAX))

-- `false` is an option that is not known. The timeout of the commands is left out.
def config (cfg : Cfg) (key value : CString) : Bool × Cfg :=
  if key = "timeout".toList then (true, cfg)
  else if key = "shared".toList then (true, { cfg with shared := value = "yes".toList })
  else if key = "start".toList then (true, { cfg with start := cfg.start ++ [value] })
  else if key = "stop".toList then (true, { cfg with stop := cfg.stop ++ [value] })
  else if key = "ban".toList then (true, { cfg with ban := cfg.ban ++ [value] })
  else if key = "unban".toList then (true, { cfg with unban := cfg.unban ++ [value] })
  else if key = "check".toList then (true, { cfg with check := cfg.check ++ [value] })
  else (false, cfg)

def usageInc (ids : List CfgId) (id : CString) : Nat × List CfgId :=
  match Place.find? (·.name = id) ids with
  | some e => (e.here.count + 1, (e.set { e.here with count := e.here.count + 1 }).list)
  | none   => (1, ⟨id.strlcpy (ID_MAX + 1), 1⟩ :: ids)

-- A count does not fall below zero.
def usageDec (ids : List CfgId) (id : CString) : Nat × List CfgId :=
  match Place.find? (·.name = id) ids with
  | some e => (e.here.count - 1, (e.set { e.here with count := e.here.count - 1 }).list)
  | none   => (0, ids)

-- Whether all commands exit with success, next to the commands that are run. `exits` tells which of
-- them do.
def cmdListExec : List CString → List Bool → Bool × List CString
  | [],          _     => (true, [])
  | cmd :: list, exits =>
    if exits.headD true then
      let (ok, ran) := cmdListExec list exits.tail
      (ok, cmd :: ran)
    else
      (false, [cmd])

def start (cfg : Cfg) (exits : List Bool) (ids : List CfgId) : (Bool × List CString) × List CfgId :=
  if cfg.start = [] then ((true, []), ids)
  else if cfg.shared then
    let (n, ids) := usageInc ids cfg.name
    if n > 1 then ((true, []), ids) else (cmdListExec cfg.start exits, ids)
  else
    (cmdListExec cfg.start exits, ids)

def stop (cfg : Cfg) (exits : List Bool) (ids : List CfgId) : (Bool × List CString) × List CfgId :=
  if cfg.stop = [] then ((true, []), ids)
  else if cfg.shared then
    let (n, ids) := usageDec ids cfg.name
    if n > 0 then ((true, []), ids) else (cmdListExec cfg.stop exits, ids)
  else
    (cmdListExec cfg.stop exits, ids)

end Exec

-- The instances of a daemon: the counts, the instances that have been started and not stopped since,
-- and the configurations whose start commands have succeeded and that have not been stopped since.
structure Execs (ι : Type) where
  ids     : List Exec.CfgId
  started : List ι
  up      : List Exec.Cfg

namespace Execs

inductive Act (ι : Type)
  | start (i : ι) (exits : List Bool)
  | stop (i : ι) (exits : List Bool)

variable {ι : Type} [DecidableEq ι] (cfg : ι → Exec.Cfg)

def init : Execs ι where
  ids     := []
  started := []
  up      := []

def members (s : Execs ι) (group : Exec.Cfg) : List ι :=
  s.started.filter (cfg · = group)

def outcome (s : Execs ι) : Act ι → Bool × List CString
  | .start i exits => (Exec.start (cfg i) exits s.ids).1
  | .stop i exits  => (Exec.stop (cfg i) exits s.ids).1

-- An instance is started only if it is not, and stopped only if it is. One whose start has failed does
-- not count as started.
def step (s : Execs ι) : Act ι → Option (Execs ι)
  | .start i exits =>
    if i ∈ s.started then none
    else
      let ((ok, ran), ids) := Exec.start (cfg i) exits s.ids
      some {
        ids
        started := if ok then i :: s.started else s.started
        up      := if ok ∧ ran ≠ [] then cfg i :: s.up else s.up
      }
  | .stop i exits =>
    if i ∈ s.started then
      let ((_, ran), ids) := Exec.stop (cfg i) exits s.ids
      some {
        ids
        started := s.started.erase i
        up      := if ran ≠ [] ∨ s.members cfg (cfg i) = [i] then s.up.filter (· ≠ cfg i) else s.up
      }
    else none

def Step (s : Execs ι) (act : Act ι) (s' : Execs ι) : Prop :=
  s.step cfg act = some s'

end Execs
end F2b
