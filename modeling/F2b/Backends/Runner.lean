import F2b.Backends.Cmd
import F2b.Jail.Basic

-- The backend 'exec' as the module that a jail uses (exec.c).

namespace F2b.Exec

-- What the system does in a call of `cmd_list_exec`. The process that is looked at after it is one of those that
-- return.
structure Answer where
  sys    : Pid → Nat → Calls
  follow : Nat

def Answer.success : Answer where
  sys    := fun _ _ => ⟨true, true, .success, true⟩
  follow := 0

-- `answers` is for the calls to come, which succeed once it is empty, and `execs` holds all that has been executed.
structure Runner where
  cfg     : Cfg
  ids     : List CfgId
  answers : List Answer
  execs   : List (List (Option CString))

namespace Runner

def create (id : CString) (params : List Config.Param) (ids : List CfgId) (answers : List Answer) : Runner where
  cfg     := params.foldl (fun cfg p => (config cfg p.name p.value).2) (Exec.create id)
  ids     := ids
  answers := answers
  execs   := []

def exec (r : Runner) (list : List CString) (ip : Option CString) : Bool × Runner :=
  let answer := r.answers.headD .success
  let o := runList answer.sys [] 0 .success (list.map cmdFromStr)
  ((o.returned.map (·.2)).getD answer.follow false, { r with
    answers := r.answers.tail
    execs   := r.execs ++ o.ran.map fun e => e.1.fill r.cfg ip })

def start (r : Runner) : Bool × Runner :=
  if r.cfg.start = [] then (true, r)
  else if r.cfg.shared then
    let (n, ids) := usageInc r.ids r.cfg.name
    if n > 1 then (true, { r with ids }) else { r with ids }.exec r.cfg.start none
  else
    r.exec r.cfg.start none

def stop (r : Runner) : Bool × Runner :=
  if r.cfg.stop = [] then (true, r)
  else if r.cfg.shared then
    let (n, ids) := usageDec r.ids r.cfg.name
    if n > 0 then (true, { r with ids }) else { r with ids }.exec r.cfg.stop none
  else
    r.exec r.cfg.stop none

instance : Backend Runner where
  ping r     := (true, r)
  check ip r := if r.cfg.check = [] then (false, r) else r.exec r.cfg.check (some ip)
  ban ip r   := r.exec r.cfg.ban (some ip)
  unban ip r := r.exec r.cfg.unban (some ip)
  stop r     := r.stop

end Runner
end F2b.Exec
