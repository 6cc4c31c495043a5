import F2b.Jail.Control
import F2b.Lib.Transition

-- The life of one jail: it is created and started, works on passes and commands in any order, and
-- is stopped, after which a new one may take its place.

namespace F2b

-- What a jail takes from its surroundings: `inet_pton`, `atof`, the text of a host's status, the
-- size of the reply buffer and the state directory.
structure Env where
  inet     : Inet
  atof     : CString → Rat
  status   : Ipaddr → CString
  ressize  : Nat
  statedir : CString

inductive Op
  | start (params : List Config.Param) (now : Int)
  | process (filter : Filter) (now : Int) (feed : List (UInt32 × CString)) (fate : SaveFate)
  | ip (now : Int) (op : Int) (ip : CString)
  | set (param value : CString)
  | stop (sourceStops : Bool)

-- `clock` is the time of the last start or pass.
structure System (β : Type) where
  up    : Bool
  clock : Int
  jail  : Jail
  world : World β

namespace System

def new {β : Type} (name : CString) (world : World β) : System β where
  up    := false
  clock := 0
  jail  := Jail.create (fun _ => 0) .builtin ⟨name, .jail, []⟩
  world := world

variable {β : Type} [Backend β] (env : Env)

-- The new jail of `jails_start`, with the options of `[defaults]` and of its section.
def boot (params : List Config.Param) (s : System β) : Jail × World β :=
  let jail := Jail.create env.atof .builtin ⟨s.jail.name, .jail, params⟩
  let jail := { jail with settings.flags.configured := true }
  if jail.settings.flags.hasState then
    let (sfile, disk) := Statefile.create env.statedir jail.name s.world.disk
    ({ jail with sfile }, { s.world with disk })
  else
    (jail, s.world)

-- An operation of a jail that is not up, or one that ends the program, has no successor.
def step (s : System β) : Op → Option (System β)
  | .start params now =>
    let (jail, world) := s.boot env params
    if !s.up && jail.settings.flags.enabled && jail.settings.flags.hasBackend then
      let (jail, world) := jail.start env.inet now world
      some { up := true, clock := now, jail, world }
    else
      none
  | .process filter now feed fate =>
    if s.up then
      match s.jail.process env.inet filter now feed fate s.world with
      | .ok (jail, world) => some { s with clock := now, jail, world }
      | .error _          => none
    else
      none
  | .ip now op ip =>
    if s.up then
      let (_, jail, world) := s.jail.cmdIp env.inet env.status env.ressize op now ip s.world
      some { s with jail, world }
    else
      none
  | .set param value =>
    if s.up then some { s with jail := (s.jail.cmdSet env.atof env.ressize param value).2 } else none
  | .stop sourceStops =>
    if s.up then
      let (_, jail, world) := s.jail.stop sourceStops s.world
      some { s with up := false, jail, world }
    else
      none

def Step (s : System β) (op : Op) (s' : System β) : Prop :=
  s.step env op = some s'

end System
end F2b
