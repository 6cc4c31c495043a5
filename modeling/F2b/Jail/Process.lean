import F2b.Jail.Basic

-- The maintenance pass of a jail, `f2b_jail_process`.

namespace F2b

def MATCH_DEFSCORE : Int := 10

namespace Jail

variable {β : Type} [Backend β] (inet : Inet)

-- What the match buffer holds after a line, none if the filter does not match. Without a filter
-- the buffer takes the first bytes of the line, and its terminator only if the line is short.
def capture (jail : Jail) (filter : Filter) (line : CString) : Except Fault (Option Hit) :=
  if jail.settings.flags.hasFilter then
    (filter line).map fun hit => hit.filter (·.ftag ≠ 0)
  else
    .ok (some ⟨0, line.take IPADDR_MAX, MATCH_DEFSCORE⟩)

-- Find or create the matched address. Creation reads the buffer as a string.
def track (ipaddrs : List Ipaddr) (matchbuf : CString) : Except Fault (Place Ipaddr) :=
  match Addrlist.lookup ipaddrs matchbuf with
  | some p => .ok p
  | none   =>
    if matchbuf.length < IPADDR_MAX then
      Addrlist.append ipaddrs (Ipaddr.create inet matchbuf)
    else
      .error .overread

def seen (addr : Ipaddr) (m : Match) : Ipaddr :=
  { addr with lastseen := m.time, history := addr.history.prepend m }

def expireMatches (s : Settings) (now : Int) (addr : Ipaddr) : Ipaddr :=
  { addr with history := addr.history.expire (now - s.findtimeEff addr.bancount - 600) }

-- The result is stored in a `short int`.
def score (s : Settings) (addr : Ipaddr) : Int :=
  toShort (Matches.score (s.findtimeEff addr.bancount) addr.history.list)

-- The new match of the host at `p`, and its ban if the score reaches the limit.
def observe (jail : Jail) (p : Place Ipaddr) (now : Int) (stag : UInt32) (hit : Hit) (w : World β) :
    Jail × World β :=
  let m : Match := { time := now, stag, ftag := hit.ftag, score := hit.score }
  let addr := seen p.here m
  let jail := { jail with stats.found := jail.stats.found + 1 }
  let w := w.send (evtMatch jail.name addr m)
  if addr.banned then
    ({ jail with ipaddrs := (p.set addr).list }, w)
  else
    let addr := expireMatches jail.settings now addr
    if score jail.settings addr < jail.settings.banscore then
      ({ jail with ipaddrs := (p.set addr).list }, w)
    else
      let (_, jail, addr, w) := jail.ban addr w
      let needSave := jail.settings.flags.hasState || jail.sfile.needSave
      ({ jail with ipaddrs := (p.set addr).list, sfile.needSave := needSave }, w)

-- One turn of the reading loop after `f2b_source_next` has returned `line` under the tag `stag`.
def consume (filter : Filter) (now : Int) (stag : UInt32) (line : CString) (jail : Jail)
    (w : World β) : Except Fault (Jail × World β) := do
  match ← jail.capture filter line with
  | none     => return (jail, w)
  | some hit =>
    let p ← track inet jail.ipaddrs hit.text
    return jail.observe p now stag hit w

-- `feed` holds what the calls of `f2b_source_next` return in this pass. The tag 0 means no more
-- data, as does the end of the feed.
def poll (filter : Filter) (now : Int) : List (UInt32 × CString) → Jail → World β →
    Except Fault (Jail × World β)
  | [],                   jail, w => .ok (jail, w)
  | (stag, line) :: feed, jail, w =>
    if stag = 0 then .ok (jail, w)
    else do
      let (jail, w) ← jail.consume inet filter now stag line w
      poll filter now feed jail w

def release (jail : Jail) (now : Int) (addr : Ipaddr) (w : World β) : Ipaddr × World β :=
  if addr.banned && now > addr.releaseAt then (jail.unban addr w).2 else (addr, w)

def expired (jail : Jail) (now : Int) (addr : Ipaddr) : Bool :=
  let expiretime := if addr.lastseen ≥ addr.releaseAt then addr.lastseen else addr.releaseAt
  now > expiretime + jail.settings.expiretime

def maintain (jail : Jail) (now : Int) : List Ipaddr → World β → List Ipaddr × World β
  | [],         w => ([], w)
  | addr :: as, w =>
    let (addr, w) := jail.release now addr w
    let (as, w) := maintain jail now as w
    if jail.expired now addr then (as, w) else (addr :: as, w)

-- The first half of a pass reads the source, the second half releases and forgets hosts.
def gather (filter : Filter) (now : Int) (feed : List (UInt32 × CString)) (jail : Jail)
    (w : World β) : Except Fault (Jail × World β) :=
  let (_, w) := w.call Backend.ping
  if jail.settings.flags.hasSource then poll inet filter now feed jail w else .ok (jail, w)

def tidy (now : Int) (jail : Jail) (w : World β) : Jail × World β :=
  let (ipaddrs, w) := maintain jail now jail.ipaddrs w
  ({ jail with ipaddrs, stats.hosts := ipaddrs.length }, w)

def save (fate : SaveFate) (jail : Jail) (w : World β) : Jail × World β :=
  if jail.settings.flags.hasState && jail.sfile.needSave then
    let (_, sfile, disk) := jail.sfile.save jail.ipaddrs fate w.disk
    ({ jail with sfile := { sfile with needSave := false } }, { w with disk })
  else
    (jail, w)

def process (filter : Filter) (now : Int) (feed : List (UInt32 × CString)) (fate : SaveFate)
    (jail : Jail) (w : World β) : Except Fault (Jail × World β) := do
  let (jail, w) ← gather inet filter now feed jail w
  let (jail, w) := tidy now jail w
  return save fate jail w

end Jail
end F2b
