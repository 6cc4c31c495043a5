import F2b.Csocket.Buf

-- Control commands (commands.c).

namespace F2b

def CMD_TOKENS_MAXCOUNT : Nat := 6

namespace Cmd

inductive CmdType
  | auth | help | status | reload | shutdown
  | logRotate | logLevel | logEvents
  | jailStatus | jailSet | jailIpStatus | jailIpBan | jailIpRelease
  | jailSourceStats | jailFilterStats | jailFilterReload
  deriving DecidableEq

end Cmd

structure Cmd where
  type : Cmd.CmdType
  args : List CString
  deriving DecidableEq

namespace Cmd

structure Desc where
  type   : CmdType
  tokens : List CString
  help   : CString

def commands : List Desc :=
  [{ type   := .help
     tokens := ["help".toList]
     help   := "Show available commands".toList },
   { type   := .auth
     tokens := ["auth".toList, "<type>".toList, "<password>".toList]
     help   := "Check authorization (available types is: plain, challenge)".toList },
   { type   := .status
     tokens := ["status".toList]
     help   := "Show general stats and jails list".toList },
   { type   := .reload
     tokens := ["reload".toList]
     help   := "Reload own config, all jails will be reset.".toList },
   { type   := .shutdown
     tokens := ["shutdown".toList]
     help   := "Gracefully terminate f2b daemon".toList },
   { type   := .logRotate
     tokens := ["log".toList, "rotate".toList]
     help   := "Reopen daemon's own log file".toList },
   { type   := .logLevel
     tokens := ["log".toList, "level".toList, "<level>".toList]
     help   := "Change maximum level of logged messages".toList },
   { type   := .logEvents
     tokens := ["log".toList, "events".toList, "<bool>".toList]
     help   := "Enable/disable sending events to connected client".toList },
   { type   := .jailStatus
     tokens := ["jail".toList, "<jailname>".toList, "status".toList]
     help   := "Show status and stats of given jail".toList },
   { type   := .jailSet
     tokens := ["jail".toList, "<jailname>".toList, "set".toList, "<param>".toList, "<value>".toList]
     help   := "Set parameter of given jail".toList },
   { type   := .jailIpStatus
     tokens := ["jail".toList, "<jailname>".toList, "ip".toList, "status".toList, "<ip>".toList]
     help   := "Show ip status in given jail".toList },
   { type   := .jailIpBan
     tokens := ["jail".toList, "<jailname>".toList, "ip".toList, "ban".toList, "<ip>".toList]
     help   := "Forcefully ban some ip in given jail".toList },
   { type   := .jailIpRelease
     tokens := ["jail".toList, "<jailname>".toList, "ip".toList, "release".toList, "<ip>".toList]
     help   := "Forcefully release some ip in given jail".toList },
   { type   := .jailSourceStats
     tokens := ["jail".toList, "<jailname>".toList, "source".toList, "stats".toList]
     help   := "Show source stats for jail".toList },
   { type   := .jailFilterStats
     tokens := ["jail".toList, "<jailname>".toList, "filter".toList, "stats".toList]
     help   := "Show matches stats for jail regexps".toList },
   { type   := .jailFilterReload
     tokens := ["jail".toList, "<jailname>".toList, "filter".toList, "reload".toList]
     help   := "Reload regexps for given jail".toList }]

def help : CString :=
  let buf := commands.foldl (fun buf cmd =>
    let buf := cmd.tokens.foldl (fun buf token => (buf.append token).append " ".toList) buf
    ((buf.append "\n\t".toList).append cmd.help).append "\n\n".toList)
    ((Buf.alloc 8192).append "Available commands:\n\n".toList)
  CString.ofBuffer buf.data

-- The tokens that calls of `strtok_r` with the delimiters `" \t"` cut off.
def tokens (s : CString) : List CString :=
  (s.splitOnP CString.isblank).filter (· ≠ [])

-- The type of a command by its tokens, none if there is no such command.
def typeOf (args : List CString) : Option CmdType :=
  let argc := args.length
  let arg (i : Nat) : CString := args.getD i []
  if arg 0 = "jail".toList ∧ argc > 1 then
    if argc = 3 ∧ arg 2 = "status".toList then some .jailStatus
    else if argc = 5 ∧ arg 2 = "set".toList then some .jailSet
    else if argc = 5 ∧ arg 2 = "ip".toList ∧ arg 3 = "status".toList then some .jailIpStatus
    else if argc = 5 ∧ arg 2 = "ip".toList ∧ arg 3 = "ban".toList then some .jailIpBan
    else if argc = 5 ∧ arg 2 = "ip".toList ∧ arg 3 = "release".toList then some .jailIpRelease
    else if argc = 4 ∧ arg 2 = "source".toList ∧ arg 3 = "stats".toList then some .jailSourceStats
    else if argc = 4 ∧ arg 2 = "filter".toList ∧ arg 3 = "stats".toList then some .jailFilterStats
    else if argc = 4 ∧ arg 2 = "filter".toList ∧ arg 3 = "reload".toList then some .jailFilterReload
    else none
  else if arg 0 = "auth".toList ∧ argc > 1 then
    if argc = 3 ∧ arg 1 = "plain".toList then some .auth
    else if argc = 3 ∧ arg 1 = "challenge".toList then some .auth
    else none
  else if arg 0 = "log".toList ∧ argc > 1 then
    if argc = 2 ∧ arg 1 = "rotate".toList then some .logRotate
    else if argc = 3 ∧ arg 1 = "level".toList then some .logLevel
    else if argc = 3 ∧ arg 1 = "events".toList then some .logEvents
    else none
  else
    none

def parse (src : CString) : Option Cmd :=
  let src := src.dropWhile CString.isblank
  if src = [] then none
  else if src = "help".toList then some ⟨.help, [src]⟩
  else if src = "status".toList then some ⟨.status, [src]⟩
  else if src = "reload".toList then some ⟨.reload, [src]⟩
  else if src = "shutdown".toList then some ⟨.shutdown, [src]⟩
  else
    let args := (tokens src).take CMD_TOKENS_MAXCOUNT
    (typeOf args).map (⟨·, args⟩)

def create (line : CString) : Option Cmd :=
  let line := line.dropWhile CString.isspace
  if line = [] then none else parse line

example :
    (create "jail test set bantime 7200".toList).map (fun cmd => (cmd.type, cmd.args.length)) =
      some (.jailSet, 5) ∧
    create "jail test".toList = none ∧ create "\n\r\n".toList = none ∧ create "test".toList = none := by
  decide

end Cmd
end F2b
