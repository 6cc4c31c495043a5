import F2b.Backends.Exec
import F2b.Lib.Words

-- The commands of the backend 'exec': what becomes of their texts, and the processes that run them (exec.c).

namespace F2b.Exec

def TOKEN_ID : CString := "<ID>".toList
def TOKEN_IP : CString := "<IP>".toList

-- `cmd_t`, the link aside. `argv` is without the NULL at its end, and `argc` is its length.
structure Cmd where
  orig  : CString
  args  : CString
  argv  : List CString
  posIp : Nat
  posId : Nat
  deriving DecidableEq

def Cmd.add (cmd : Cmd) (token : CString) : Cmd :=
  { cmd with
    posId := if token = TOKEN_ID then cmd.argv.length else cmd.posId
    posIp := if token = TOKEN_IP then cmd.argv.length else cmd.posIp
    argv  := cmd.argv ++ [token] }

-- The calls of `strtok_r` give the words of the text, one after the other. The first call ends the first one
-- with a NUL, and `args` is the text up to it.
def cmdStart (str : CString) : Cmd :=
  let args := str.takeWhile CString.isblank ++ (str.dropWhile CString.isblank).takeWhile (!CString.isblank ·)
  { orig  := str
    args  := args
    argv  := [args]
    posIp := 0
    posId := 0 }

def cmdFromStr (str : CString) : Cmd :=
  (Words.words CString.isblank str).tail.foldl Cmd.add (cmdStart str)

def Cmd.fill (cmd : Cmd) (cfg : Cfg) (ip : Option CString) : List (Option CString) :=
  let argv := if cmd.posIp ≠ 0 then ip.elim cmd.argv (cmd.argv.set cmd.posIp) else cmd.argv
  let argv := if cmd.posId ≠ 0 then argv.set cmd.posId cfg.name else argv
  argv.map some ++ [none]

inductive Status
  | exited (code : UInt8)
  | signaled (sig : Nat)
  deriving DecidableEq

def Status.success : Status :=
  .exited 0

-- What comes of the calls for one command: whether `fork` gives a process, whether `execv` replaces it, how
-- it ends, and whether `waitpid` tells. Else `status` stays as it was.
structure Calls where
  forks  : Bool
  execs  : Bool
  status : Status
  waits  : Bool

-- A process, by the positions of the commands at which it and its parents have been forked.
abbrev Pid := List Nat

-- The processes that return from the function, with their results, and the commands that have been executed.
structure Outcome where
  returned : List (Pid × Bool)
  ran      : List (Cmd × Status)
  deriving DecidableEq

def Outcome.join (o o' : Outcome) : Outcome where
  returned := o.returned ++ o'.returned
  ran      := o.ran ++ o'.ran

def ret (pid : Pid) (ok : Bool) : Outcome where
  returned := [(pid, ok)]
  ran      := []

-- `cmd_list_exec` in the process `pid`, from the command at the position `i` on. A process whose `execv` has
-- failed goes on with the next command.
def runList (sys : Pid → Nat → Calls) (pid : Pid) (i : Nat) (status : Status) : List Cmd → Outcome
  | []          => ret pid true
  | cmd :: list =>
    let calls := sys pid i
    if calls.forks then
      let child :=
        if calls.execs then { returned := [], ran := [(cmd, calls.status)] }
        else runList sys (i :: pid) (i + 1) status list
      let status := if calls.waits then calls.status else status
      child.join (if status = .success then runList sys pid (i + 1) status list else ret pid false)
    else
      ret pid false

end F2b.Exec
