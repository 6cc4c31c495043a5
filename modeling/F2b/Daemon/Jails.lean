import F2b.Jail.Basic

-- The jails that the daemon starts from a config (daemon.c).

namespace F2b

-- `defaults` is the static record of jail.c, which lives as long as the program.
structure Daemon where
  defaults : Jail.Settings
  jails    : List Jail

namespace Daemon

def init : Daemon where
  defaults := .builtin
  jails    := []

section Start

-- `ready` tells whether the state file and the modules of a jail come up with a config.
variable (atof : CString → Rat) (ready : Config → Jail → Bool)

def setDefaults (config : Config) (d : Daemon) : Daemon :=
  match config.defaults with
  | none     => d
  | some sec => { d with defaults := d.defaults.applyConfig atof sec }

def initJail (config : Config) (jail : Jail) : Option Jail :=
  if !(jail.settings.flags.hasSource || jail.settings.flags.hasBackend) then none
  else if ready config jail then some { jail with settings.flags.configured := true }
  else none

-- The loop of `jails_start`. That each jail starts with the hosts of its state file is left out.
def jailsStart (config : Config) : List Config.Section → Daemon → Daemon
  | [],          d => d
  | sec :: secs, d =>
    let jail := Jail.create atof d.defaults sec
    if !jail.settings.flags.enabled then
      jailsStart config secs d
    else match initJail ready config jail with
    | none      => jailsStart config secs d
    | some jail => jailsStart config secs { d with jails := jail :: d.jails }

def boot (config : Config) : Daemon :=
  jailsStart atof ready config config.jails (setDefaults atof config init)

-- What it does when a config has been reloaded: the old jails are stopped.
def reload (config : Config) (d : Daemon) : Daemon :=
  jailsStart atof ready config config.jails (setDefaults atof config { d with jails := [] })

end Start
end Daemon
end F2b
