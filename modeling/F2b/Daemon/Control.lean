import F2b.Csocket.Slots
import F2b.Daemon.Appconfig
import F2b.Daemon.Main
import F2b.Jail.System

-- The commands of the control socket (daemon.c).

namespace F2b

namespace Cmd.CmdType

def num : CmdType → Nat
  | auth             => 1
  | help             => 2
  | status           => 3
  | reload           => 4
  | shutdown         => 5
  | logRotate        => 6
  | logLevel         => 7
  | logEvents        => 8
  | jailStatus       => 9
  | jailSet          => 10
  | jailIpStatus     => 11
  | jailIpBan        => 12
  | jailIpRelease    => 13
  | jailSourceStats  => 14
  | jailFilterStats  => 15
  | jailFilterReload => 16

-- The test before the jail is looked up.
def hasJail (type : CmdType) : Bool :=
  jailStatus.num ≤ type.num ∧ type.num ≤ jailFilterReload.num

end Cmd.CmdType

-- What the commands read and write. The modules of the jails have a state of their own.
structure Control (β μ : Type) where
  state     : State
  appconfig : Appconfig
  jails     : List Jail
  world     : World β
  modules   : μ

-- The texts that are not modelled, and the commands of the modules.
structure Replies (μ : Type) where
  uptime       : CString
  pid          : Nat
  jailStatus   : Jail → CString
  sourceStats  : Jail → μ → CString
  filterStats  : Jail → μ → CString
  filterReload : Jail → μ → CString × μ

namespace Control

variable {β μ : Type} [Backend β] (env : Env) (replies : Replies μ) (now : Int)

def status (c : Control β μ) : CString :=
  "uptime: ".toList ++ replies.uptime ++
  "\npid: ".toList ++ CString.ofNat replies.pid ++ "\npidfile: ".toList ++ c.appconfig.pidfilePath ++
  "\nstatedir: ".toList ++ c.appconfig.statedirPath ++
  "\njails:\n".toList ++ c.jails.flatMap fun jail => "- ".toList ++ jail.name ++ "\n".toList

def ipXxx (c : Control β μ) (p : Place Jail) (op : Int) (ip : CString) : CString × Control β μ :=
  let (reply, jail, world) := p.here.cmdIp env.inet env.status env.ressize op now ip c.world
  (reply, { c with jails := (p.set jail).list, world })

-- The pointer to the jail is NULL without a lookup.
def dispatch (cmd : Cmd) (jail : Option (Place Jail)) (c : Control β μ) : Deref (CString × Control β μ) :=
  match cmd.type with
  | .reload    => return ("+ok\n".toList, { c with state := .reconfig })
  | .logRotate => return ("+ok\n".toList, { c with state := .logrotate })
  | .logLevel  => do
    let level ← cmd.arg 2
    return ("+ok\n".toList, { c with appconfig := c.appconfig.setLevel level })
  | .shutdown  => return ("+ok\n".toList, { c with state := .stop })
  | .status    => return (c.status replies, c)
  | .jailStatus => do
    let p ← Deref.follow jail
    return (replies.jailStatus p.here, c)
  | .jailSet => do
    let p ← Deref.follow jail
    let param ← cmd.arg 3
    let value ← cmd.arg 4
    let (reply, jail) := p.here.cmdSet env.atof env.ressize param value
    return (reply, { c with jails := (p.set jail).list })
  | .jailIpStatus => do
    let p ← Deref.follow jail
    return c.ipXxx env now p 0 (← cmd.arg 4)
  | .jailIpBan => do
    let p ← Deref.follow jail
    return c.ipXxx env now p 1 (← cmd.arg 4)
  | .jailIpRelease => do
    let p ← Deref.follow jail
    return c.ipXxx env now p (-1) (← cmd.arg 4)
  | .jailSourceStats => do
    let p ← Deref.follow jail
    if p.here.settings.flags.hasSource then return (replies.sourceStats p.here c.modules, c)
    else return ("-this jail has no source\n".toList, c)
  | .jailFilterStats => do
    let p ← Deref.follow jail
    if p.here.settings.flags.hasFilter then return (replies.filterStats p.here c.modules, c)
    else return ("-this jail has no filter\n".toList, c)
  | .jailFilterReload => do
    let p ← Deref.follow jail
    if p.here.settings.flags.hasFilter then
      let (reply, modules) := replies.filterReload p.here c.modules
      return (reply, { c with modules })
    else
      return ("-this jail has no filter\n".toList, c)
  | .auth | .help | .logEvents => return ("-error: unknown command\n".toList, c)

-- `f2b_csocket_cmd_process`. Commands that have been parsed are never of the type `CMD_UNKNOWN`.
def cmdProcess (cmd : Cmd) (c : Control β μ) : Deref (CString × Control β μ) :=
  if cmd.type = .help then
    return (Cmd.help, c)
  else if cmd.type.hasJail then do
    let name ← cmd.arg 1
    match Place.find? (·.name = name) c.jails with
    | none   => return ("-can't find jail '".toList ++ name ++ "'\n".toList, c)
    | some p => dispatch env replies now cmd (some p) c
  else
    dispatch env replies now cmd none c

end Control
end F2b
