import F2b.Jail.Process

-- Start, stop and the control commands of a jail.

namespace F2b.Jail

variable {β : Type} [Backend β] (inet : Inet)

-- A ban of the state file that has run out in the meantime.
def lapse (now : Int) (addr : Ipaddr) : Ipaddr :=
  if addr.banned && now ≥ addr.releaseAt then { addr with banned := false } else addr

def readd (addr : Ipaddr) (w : World β) : World β :=
  let (known, w) := w.call (Backend.check addr.text)
  if known then w else (w.call (Backend.ban addr.text)).2

def restore : List Ipaddr → World β → World β
  | [],         w => w
  | addr :: as, w => restore as (if addr.banned then readd addr w else w)

def start (now : Int) (jail : Jail) (w : World β) : Jail × World β :=
  let ipaddrs := if jail.settings.flags.hasState then jail.sfile.load inet w.disk else jail.ipaddrs
  let ipaddrs := ipaddrs.map (lapse now)
  let w := if jail.settings.flags.hasBackend then restore ipaddrs w else w
  ({ jail with ipaddrs, stats.hosts := ipaddrs.length }, w)

def unbanAll (jail : Jail) : List Ipaddr → Bool → World β → Bool × World β
  | [],         errors, w => (errors, w)
  | addr :: as, errors, w =>
    if addr.banned then
      let (ok, _, w) := jail.unban addr w
      unbanAll jail as (errors || !ok) w
    else
      unbanAll jail as errors w

-- The result is the flag `errors`. `sourceStops` is what the source module returns.
def stop (sourceStops : Bool) (jail : Jail) (w : World β) : Bool × Jail × World β :=
  let errors := jail.settings.flags.hasSource && !sourceStops
  let stopped := { jail with ipaddrs := [], settings.flags.configured := false }
  if jail.settings.flags.hasBackend then
    let (errors, w) := unbanAll jail jail.ipaddrs errors w
    let (ok, w) := w.call Backend.stop
    (errors || !ok, stopped, w)
  else
    (errors, stopped, w)

def cmdSet (atof : CString → Rat) (ressize : Nat) (param value : CString) (jail : Jail) :
    CString × Jail :=
  match jail.settings.setParam atof param value with
  | some settings => (CString.strlcpy "+ok\n".toList ressize, { jail with settings })
  | none =>
    (CString.strlcpy ("-parameter not found: ".toList ++ param ++ ['\n']) ressize, jail)

-- The record that 'ip ban' makes of an address it does not know: its first match is flushed.
def fresh (now : Int) (addr : Ipaddr) : Ipaddr :=
  { addr with lastseen := now, history := .flush }

section Commands

variable (status : Ipaddr → CString) (ressize : Nat) (op : Int)

-- `op` is positive for a ban, negative for a release and zero for the status, whose text `status`
-- gives.
def operate (jail : Jail) (p : Place Ipaddr) (w : World β) : CString × Jail × World β :=
  if op = 0 then
    ((status p.here).strlcpy ressize, jail, w)
  else if op > 0 then
    let (ok, jail, addr, w) := jail.ban p.here w
    (answer ok, { jail with ipaddrs := (p.set addr).list }, w)
  else
    let (ok, addr, w) := jail.unban p.here w
    (answer ok, { jail with ipaddrs := (p.set addr).list }, w)
where
  answer (ok : Bool) := CString.strlcpy (if ok then "+ok\n".toList else "-error\n".toList) ressize

def cmdIp (now : Int) (ip : CString) (jail : Jail) (w : World β) : CString × Jail × World β :=
  if !jail.settings.flags.hasBackend && op ≠ 0 then
    (CString.strlcpy "-jail has no configured backend\n".toList ressize, jail, w)
  else match Addrlist.lookup jail.ipaddrs ip with
  | some p => operate status ressize op jail p w
  | none   =>
    if op > 0 then
      match Ipaddr.create inet ip with
      | none =>
        (CString.strlcpy ("-can't parse ip address: ".toList ++ ip ++ ['\n']) ressize, jail, w)
      | some addr =>
        let needSave := jail.settings.flags.hasState || jail.sfile.needSave
        let stats := { jail.stats with hosts := jail.stats.hosts + 1 }
        let jail := { jail with stats, sfile.needSave := needSave }
        operate status ressize op jail ⟨[], fresh now addr, jail.ipaddrs⟩ w
    else
      (CString.strlcpy ("-can't find ip '".toList ++ ip ++ "' in jail '".toList ++ jail.name ++
        "'\n".toList) ressize, jail, w)

end Commands
end F2b.Jail
