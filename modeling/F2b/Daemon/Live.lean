import F2b.Daemon.Control
import F2b.Daemon.Jails
import F2b.Lib.Transition

-- The daemon at run time: what the parts of `main` do with the jails (daemon.c). Each jail has a backend of its own.

namespace F2b

-- The backends of the jails, by the names of these. A call goes to that of the jail which is at work.
structure Backends (γ : Type) where
  current : CString
  of      : CString → γ

namespace Backends

variable {γ : Type}

def call (f : γ → Bool × γ) (b : Backends γ) : Bool × Backends γ :=
  ((f (b.of b.current)).1, { b with of := Function.update b.of b.current (f (b.of b.current)).2 })

instance [Backend γ] : Backend (Backends γ) where
  ping     := call Backend.ping
  check ip := call (Backend.check ip)
  ban ip   := call (Backend.ban ip)
  unban ip := call (Backend.unban ip)
  stop     := call Backend.stop

end Backends

def World.on {γ : Type} (name : CString) (w : World (Backends γ)) : World (Backends γ) :=
  { w with backend.current := name }

structure Pass where
  filter : Filter
  now    : Int
  feed   : List (UInt32 × CString)
  fate   : SaveFate

def Pass.run {β : Type} [Backend β] (env : Env) (pass : Pass) (jail : Jail) (w : World β) :
    Except Fault (Jail × World β) :=
  jail.process env.inet pass.filter pass.now pass.feed pass.fate w

-- What it meets when it is brought up: whether its state file can be made and its modules come up, and the time.
structure Setup where
  statefile : Bool
  modules   : Bool
  now       : Int

-- `defaults` is the static record of jail.c.
structure Live (γ μ : Type) where
  defaults : Jail.Settings
  control  : Control (Backends γ) μ

namespace Live

variable {γ μ : Type} [Backend γ]

section Jails

variable (env : Env)

-- A loop over the jails, each of which does its work with its own backend.
def loop (work : Jail → World (Backends γ) → Except Fault (Jail × World (Backends γ))) :
    List Jail → World (Backends γ) → Except Fault (List Jail × World (Backends γ))
  | [],            w => .ok ([], w)
  | jail :: jails, w => do
    let (jail, w) ← work jail (w.on jail.name)
    let (jails, w) ← loop work jails w
    return (jail :: jails, w)

def passAll (passes : CString → Pass) :
    List Jail → World (Backends γ) → Except Fault (List Jail × World (Backends γ)) :=
  loop fun jail => (passes jail.name).run env jail

-- `jails_stop`, with the results of the source modules.
def stopAll (stops : CString → Bool) : List Jail → World (Backends γ) → World (Backends γ)
  | [],            w => w
  | jail :: jails, w => stopAll stops jails (jail.stop (stops jail.name) (w.on jail.name)).2.2

-- `f2b_jail_init`. A jail without a backend does not come up.
def initJail {β : Type} (setup : Setup) (jail : Jail) (w : World β) : Option Jail × World β :=
  if !(jail.settings.flags.hasSource || jail.settings.flags.hasBackend) then (none, w)
  else if jail.settings.flags.hasState && !setup.statefile then (none, w)
  else
    let (jail, w) :=
      if jail.settings.flags.hasState then
        let (sfile, disk) := Statefile.create env.statedir jail.name w.disk
        ({ jail with sfile }, { w with disk })
      else
        (jail, w)
    if setup.modules && jail.settings.flags.hasBackend then
      (some { jail with settings.flags.configured := true }, w)
    else
      (none, w)

-- One turn of the loop in `jails_start`.
def startOne (setups : CString → Setup) (defaults : Jail.Settings) (sec : Config.Section)
    (x : List Jail × World (Backends γ)) : List Jail × World (Backends γ) :=
  let jail := Jail.create env.atof defaults sec
  if !jail.settings.flags.enabled then x
  else match initJail env (setups jail.name) jail x.2 with
  | (none, w)      => (x.1, w)
  | (some jail, w) =>
    let (jail, w) := jail.start env.inet (setups jail.name).now (w.on jail.name)
    (jail :: x.1, w)

def startAll (setups : CString → Setup) (defaults : Jail.Settings) :
    List Config.Section → List Jail × World (Backends γ) → List Jail × World (Backends γ)
  | [],          x => x
  | sec :: secs, x => startAll setups defaults secs (startOne env setups defaults sec x)

end Jails

-- The parts of `main`. A config is loaded at the start and for each reload, and at the end the jails are stopped.
inductive Act
  | pass (passes : CString → Pass)
  | command (now : Int) (cmd : Cmd)
  | load (fs : Config.Fs) (path : CString) (setups : CString → Setup) (stops : CString → Bool)
  | exit (stops : CString → Bool)

section Main

variable (env : Env) (replies : Replies μ)

-- `f2b_csocket_cmd_process`, as it is called while the control socket is polled.
def command (now : Int) (cmd : Cmd) (l : Live γ μ) : Option (Live γ μ) :=
  let c := { l.control with world := l.control.world.on (cmd.args.getD 1 []) }
  ((Control.cmdProcess env replies now cmd c).run []).map fun r => { l with control := r.1.2 }

-- A config that cannot be loaded changes nothing.
def load (fs : Config.Fs) (path : CString) (setups : CString → Setup) (stops : CString → Bool) (l : Live γ μ) :
    Live γ μ :=
  let (ok, config) := Config.load fs .empty path
  if ok then
    let world := stopAll stops l.control.jails l.control.world
    let defaults := config.defaults.elim l.defaults (l.defaults.applyConfig env.atof)
    let (jails, world) := startAll env setups defaults config.jails ([], world)
    { l with defaults, control := { l.control with state := .run, jails, world } }
  else
    { l with control.state := .run }

-- A fault ends the program.
def step (l : Live γ μ) : Act → Option (Live γ μ)
  | .pass passes =>
    match passAll env passes l.control.jails l.control.world with
    | .ok (jails, world) => some { l with control := { l.control with jails, world } }
    | .error _           => none
  | .command now cmd              => l.command env replies now cmd
  | .load fs path setups stops    => some (l.load env fs path setups stops)
  | .exit stops                   =>
    let world := stopAll stops l.control.jails l.control.world
    some { l with control := { l.control with jails := [], world } }

def Step (l : Live γ μ) (a : Act) (l' : Live γ μ) : Prop :=
  l.step env replies a = some l'

end Main
end Live

-- One jail by itself, with all the options of `[defaults]` that have been read so far.
structure Solo (γ : Type) where
  system   : System γ
  defaults : List Config.Param

namespace Solo

-- What the daemon does that has to do with a jail. With a config comes its section, if there is one.
inductive Act
  | pass (pass : Pass)
  | op (op : Op)
  | load (defaults : List Config.Param) (params : Option (List Config.Param)) (setup : Setup) (stops : Bool)
  | exit (stops : Bool)

variable {γ : Type} [Backend γ] (env : Env)

def start (setup : Setup) (params : List Config.Param) (s : System γ) : System γ :=
  let hasState := (s.boot env params).1.settings.flags.hasState
  if setup.modules && (!hasState || setup.statefile) then (s.step env (.start params setup.now)).getD s else s

def operate (op : Op) (s : System γ) : Option (System γ) :=
  if s.up then s.step env op else some s

def stop (stops : Bool) (s : System γ) : Option (System γ) :=
  operate env (.stop stops) s

def step (t : Solo γ) : Act → Option (Solo γ)
  | .pass pass => (operate env (.process pass.filter pass.now pass.feed pass.fate) t.system).map fun system =>
    { t with system }
  | .op op     => (operate env op t.system).map fun system => { t with system }
  | .load defaults params setup stops => (stop env stops t.system).map fun system =>
    let defaults := t.defaults ++ defaults
    { system := params.elim system fun ps => start env setup (defaults ++ ps) system, defaults }
  | .exit stops => (stop env stops t.system).map fun system => { t with system }

def Step (t : Solo γ) (a : Act) (t' : Solo γ) : Prop :=
  t.step env a = some t'

end Solo

namespace Live

-- The operation of a command on the jail that it names.
def operation (now : Int) (cmd : Cmd) : Option Op :=
  match cmd.type with
  | .jailSet       => some (.set (cmd.args.getD 3 []) (cmd.args.getD 4 []))
  | .jailIpStatus  => some (.ip now 0 (cmd.args.getD 4 []))
  | .jailIpBan     => some (.ip now 1 (cmd.args.getD 4 []))
  | .jailIpRelease => some (.ip now (-1) (cmd.args.getD 4 []))
  | _              => none

-- What a jail gets to see of the work of the daemon.
def Act.view (name : CString) : Act → Option Solo.Act
  | .pass passes               => some (.pass (passes name))
  | .command now cmd           => if cmd.args[1]? = some name then (operation now cmd).map .op else none
  | .load fs path setups stops =>
    let (ok, config) := Config.load fs .empty path
    if ok then
      some (.load config.defaultParams ((config.jails.find? (·.name = name)).map (·.param)) (setups name) (stops name))
    else none
  | .exit stops                => some (.exit (stops name))

end Live
end F2b
