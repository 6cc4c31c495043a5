import F2b.Objects.ConfigFile
import F2b.Objects.Statefile

-- The settings of the daemon itself (appconfig.c, log.c).

namespace F2b

inductive LogLevel
  | debug | info | note | warn | error | fatal
  deriving DecidableEq

inductive LogDest
  | stderr
  | stdout
  | file (path : CString)
  | syslog
  deriving DecidableEq

namespace LogLevel

def names : List (CString × LogLevel) := [
  ("debug".toList, debug), ("info".toList, info), ("notice".toList, note), ("warn".toList, warn),
  ("error".toList, error), ("fatal".toList, fatal)]

end LogLevel

structure Appconfig where
  coredumps    : Bool
  daemon       : Bool
  uid          : Nat
  gid          : Nat
  nice         : Int
  logdest      : CString
  logfilePath  : CString
  pidfilePath  : CString
  statedirPath : CString
  minlevel     : LogLevel
  dest         : LogDest
  deriving DecidableEq

namespace Appconfig

open Config (yes)

def init : Appconfig where
  coredumps    := false
  daemon       := false
  uid          := 0
  gid          := 0
  nice         := 0
  logdest      := "file".toList
  logfilePath  := "/var/log/f2b.log".toList
  pidfilePath  := "/var/run/f2b.pid".toList
  statedirPath := "/var/db/f2b".toList
  minlevel     := .info
  dest         := .stderr

-- What the system knows: users with their group, groups, and the files that can be opened for writing.
structure Sys where
  getpwnam : CString → Option (Nat × Nat)
  getgrnam : CString → Option Nat
  fopen    : CString → Bool

def setLevel (a : Appconfig) (level : CString) : Appconfig :=
  match LogLevel.names.find? (·.1 = level) with
  | some (_, l) => { a with minlevel := l }
  | none        => a

def logToFile (sys : Sys) (a : Appconfig) (path : CString) : Appconfig :=
  if path = [] then a
  else if sys.fopen path then { a with dest := .file path }
  else a

def updateLog (sys : Sys) (find : CString → Option CString) (a : Appconfig) : Appconfig :=
  match find "logdest".toList with
  | none    => a
  | some pa =>
    let a := { a with logdest := pa.strlcpy CONFIG_KEY_MAX }
    if !a.daemon ∧ pa = "stderr".toList then { a with dest := .stderr }
    else if pa = "file".toList then
      match find "logfile".toList with
      | some (c :: pb) =>
        let a := { a with logfilePath := CString.strlcpy (c :: pb) PATH_MAX }
        a.logToFile sys a.logfilePath
      | _              => { a with dest := .syslog }
    else { a with dest := .syslog }

-- Each option is looked up in the section, in this order.
def updateFrom (sys : Sys) (find : CString → Option CString) (a : Appconfig) : Appconfig :=
  let a := match (find "user".toList).bind sys.getpwnam with
    | some (uid, gid) => { a with uid, gid }
    | none            => a
  let a := match (find "group".toList).bind sys.getgrnam with
    | some gid => { a with gid }
    | none     => a
  let a := (find "nice".toList).elim a fun v => { a with nice := v.atoi }
  let a := (find "daemon".toList).elim a fun v => { a with daemon := yes v }
  let a := (find "coredumps".toList).elim a fun v => { a with coredumps := yes v }
  let a := (find "pidfile".toList).elim a fun v => { a with pidfilePath := v.strlcpy PATH_MAX }
  let a := (find "statedir".toList).elim a fun v => { a with statedirPath := v.strlcpy PATH_MAX }
  let a := (find "loglevel".toList).elim a a.setLevel
  updateLog sys find a

def update (sys : Sys) (sec : Option Config.Section) (a : Appconfig) : Appconfig :=
  match sec with
  | none     => a
  | some sec => updateFrom sys (fun name => (Config.paramFind sec.param name).map (·.value)) a

end Appconfig
end F2b
