import F2b.Jail.Settings
import F2b.Objects.Statefile

-- A jail at run time, and what it acts on (jail.h, backend.h, event.h).

namespace F2b

-- The calls of a backend module that a running jail makes.
class Backend (β : Type) where
  ping  : β → Bool × β
  check : CString → β → Bool × β
  ban   : CString → β → Bool × β
  unban : CString → β → Bool × β
  stop  : β → Bool × β

-- What jails act on: the backend, the events they have sent and the files of the state directory.
structure World (β : Type) where
  backend : β
  events  : List CString
  disk    : Disk

namespace World

variable {β : Type}

def call (w : World β) (f : β → Bool × β) : Bool × World β :=
  ((f w.backend).1, { w with backend := (f w.backend).2 })

def send (w : World β) (evt : CString) : World β :=
  { w with events := w.events ++ [evt] }

end World

-- What a filter finds in a line. The text is what it leaves in the match buffer.
structure Hit where
  ftag  : UInt32
  text  : CString
  score : Int
  deriving DecidableEq

abbrev Filter := CString → Except Fault (Option Hit)

namespace Jail

structure Stats where
  hosts : Nat
  bans  : Nat
  found : Nat
  deriving DecidableEq

end Jail

structure Jail where
  name     : CString
  settings : Jail.Settings
  stats    : Jail.Stats
  sfile    : Statefile
  ipaddrs  : List Ipaddr

namespace Jail

-- `f2b_jail_create`: the section is applied on top of the defaults.
def create (atof : CString → Rat) (defaults : Settings) (sec : Config.Section) : Jail where
  name     := sec.name.strlcpy CONFIG_KEY_MAX
  settings := defaults.applyConfig atof sec
  stats    := ⟨0, 0, 0⟩
  sfile    := ⟨[], false⟩
  ipaddrs  := []

def truncate (q : Rat) : Int :=
  q.num.tdiv q.den

-- A value that does not fit an `int` becomes the smallest one.
def castInt (q : Rat) : Int :=
  if -2 ^ 31 ≤ truncate q ∧ truncate q < 2 ^ 31 then truncate q else -2 ^ 31

namespace Settings

def banLength (s : Settings) (bancount : Nat) : Int :=
  if s.bantimeExtend > 0 then s.bantime + castInt (bancount * (s.bantime * s.bantimeExtend))
  else s.bantime

def findtimeEff (s : Settings) (bancount : Nat) : Int :=
  truncate (s.findtime + s.findtime * (s.findtimeExtend * bancount))

end Settings

def EVENT_MAX : Nat := 256

def hex (n : UInt32) : CString :=
  let digits := (Nat.toDigits 16 n.toNat).map Char.toUpper
  List.replicate (8 - digits.length) '0' ++ digits

def printInt (n : Int) : CString :=
  if n < 0 then '-' :: CString.ofNat n.natAbs else CString.ofNat n.natAbs

def evtMatch (jail : CString) (addr : Ipaddr) (m : Match) : CString :=
  CString.strlcpy ("event=match jail=".toList ++ jail ++ " addr=".toList ++ addr.text ++
    " stag=".toList ++ hex m.stag ++ " ftag=".toList ++ hex m.ftag ++
    " score=".toList ++ printInt m.score) EVENT_MAX

def evtBan (jail : CString) (addr : Ipaddr) (bantime : Int) : CString :=
  CString.strlcpy ("event=ban jail=".toList ++ jail ++ " addr=".toList ++ addr.text ++
    " bantime=".toList ++ CString.ofNat (bantime % 2 ^ 32).toNat ++
    " count=".toList ++ CString.ofNat addr.bancount) EVENT_MAX

def evtRelease (jail : CString) (addr : Ipaddr) : CString :=
  CString.strlcpy ("event=release jail=".toList ++ jail ++ " addr=".toList ++ addr.text) EVENT_MAX

section Ban

variable {β : Type} [Backend β]

def banned (s : Settings) (addr : Ipaddr) : Ipaddr :=
  { addr with
    history   := .flush
    banned    := true
    bannedAt  := addr.lastseen
    bancount  := addr.bancount + 1
    releaseAt := addr.lastseen + s.banLength addr.bancount }

-- The record is written first, whatever the backend answers then.
def ban (jail : Jail) (addr : Ipaddr) (w : World β) : Bool × Jail × Ipaddr × World β :=
  let bantime := jail.settings.banLength addr.bancount
  let addr := banned jail.settings addr
  let jail := { jail with stats.bans := jail.stats.bans + 1 }
  let (known, w) := w.call (Backend.check addr.text)
  if known then
    (true, jail, addr, w)
  else
    let (ok, w) := w.call (Backend.ban addr.text)
    if ok then (true, jail, addr, w.send (evtBan jail.name addr bantime)) else (false, jail, addr, w)

def released (addr : Ipaddr) : Ipaddr :=
  { addr with banned := false, bannedAt := 0, releaseAt := 0 }

def unban (jail : Jail) (addr : Ipaddr) (w : World β) : Bool × Ipaddr × World β :=
  let addr := released addr
  let (ok, w) := w.call (Backend.unban addr.text)
  if ok then (true, addr, w.send (evtRelease jail.name addr)) else (false, addr, w)

end Ban
end Jail
end F2b
