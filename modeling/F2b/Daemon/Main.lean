import F2b.Csocket.Commands

-- The main loop of the daemon (daemon.c), with the variable `state` that signal handlers and control
-- commands write, and that the loop tests and resets.

namespace F2b

inductive State
  | stop | run | reconfig | logrotate | test
  deriving DecidableEq

inductive Signal
  | sigusr1 | sigterm | sigint | sighup
  deriving DecidableEq

def Signal.state : Signal → State
  | sigusr1 => .logrotate
  | sigterm => .stop
  | sigint  => .stop
  | sighup  => .reconfig

-- What `f2b_csocket_cmd_process` writes to `state`, if anything.
def Cmd.CmdType.state? : Cmd.CmdType → Option State
  | reload    => some .reconfig
  | logRotate => some .logrotate
  | shutdown  => some .stop
  | _         => none

inductive Request
  | signal (signum : Signal)
  | cmd (type : Cmd.CmdType) (h : type.state?.isSome)

def Request.state : Request → State
  | signal signum => signum.state
  | cmd type h    => type.state?.get h

-- The requests of one turn of the loop, by the part of its body that they arrive in: `rotateTest` and `reloadTest`
-- between a test of `state` and `state = run`, `rotate` and `reload` from there to the action, `rotated` and
-- `reloaded` before what is tested next. Commands are only taken while the control socket is polled, so all but
-- the first part bring signals only.
structure Arrivals where
  pass       : List Request
  rotateTest : List Signal
  rotate     : List Signal
  rotated    : List Signal
  reloadTest : List Signal
  reload     : List Signal
  reloaded   : List Signal

inductive Event
  | request (state : State)
  | reopen
  | load
  deriving DecidableEq

-- The variable `state`, and what has happened, the newest event last.
structure Loop where
  state  : State
  events : List Event
  deriving DecidableEq

namespace Loop

def arrive (l : Loop) (states : List State) : Loop :=
  states.foldl (fun l state => ⟨state, l.events ++ [.request state]⟩) l

def write (l : Loop) (state : State) : Loop :=
  { l with state }

def act (l : Loop) (e : Event) : Loop :=
  { l with events := l.events ++ [e] }

def rotateLog (logdest : CString) (a : Arrivals) (l : Loop) : Loop :=
  if l.state = .logrotate ∧ logdest = "file".toList then
    let l := l.arrive (a.rotateTest.map Signal.state)
    let l := l.write .run
    let l := l.arrive (a.rotate.map Signal.state)
    l.act .reopen
  else
    l.arrive ((a.rotateTest ++ a.rotate).map Signal.state)

-- Whether the config loads, and what the jails do then, does not matter to `state`.
def reloadConfig (a : Arrivals) (l : Loop) : Loop :=
  if l.state = .reconfig then
    let l := l.arrive (a.reloadTest.map Signal.state)
    let l := l.write .run
    let l := l.arrive (a.reload.map Signal.state)
    l.act .load
  else
    l.arrive ((a.reloadTest ++ a.reload).map Signal.state)

def body (logdest : CString) (a : Arrivals) (l : Loop) : Loop :=
  let l := l.arrive (a.pass.map Request.state)
  let l := l.rotateLog logdest a
  let l := l.arrive (a.rotated.map Signal.state)
  let l := l.reloadConfig a
  l.arrive (a.reloaded.map Signal.state)

def main (logdest : CString) : List Arrivals → Loop → Loop
  | [],      l => l
  | a :: as, l => if l.state = .stop then l else main logdest as (l.body logdest a)

end Loop
end F2b
