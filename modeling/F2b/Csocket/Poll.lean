import F2b.Csocket.Conn
import F2b.Objects.Config
import Mathlib.Logic.Function.Basic

-- The control socket with its clients (csocket.c).

namespace F2b

def CSOCKET_MAX_LISTEN  : Nat := 3
def CSOCKET_MAX_CLIENTS : Nat := 10

abbrev Slot := Fin CSOCKET_MAX_CLIENTS

-- `listen` holds the types of the listening sockets. `sockets` are those that the daemon has accepted
-- and not shut down.
structure Csock where
  listen   : List Conn.SockType
  clients  : Slot → Option Conn
  password : CString
  sockets  : List Nat

namespace Csock

section Create

-- `f2b_sock_create` on the value of an option 'listen', and the text that the random numbers give.
variable (sockCreate : CString → Option Conn.SockType) (random : CString)

def empty : Csock where
  listen   := []
  clients  := fun _ => none
  password := []
  sockets  := []

-- The variables of the loop in `f2b_csocket_create`, with the second one `need_pass`.
def createParam (st : Csock × Bool) (p : Config.Param) : Csock × Bool :=
  let (csock, needPass) := st
  if p.name = "listen".toList then
    if csock.listen.length ≥ CSOCKET_MAX_LISTEN then st
    else match sockCreate p.value with
    | none      => st
    | some type =>
      ({ csock with listen := csock.listen ++ [type] }, needPass || p.value.strncmpEq "inet:".toList 5)
  else if p.name = "password".toList then
    ({ csock with password := p.value.strlcpy 32 }, needPass)
  else st

def create (sec : Config.Section) : Bool × Csock :=
  let (csock, needPass) := sec.param.foldl (createParam sockCreate) (empty, false)
  if csock.listen = [] then (false, empty)
  else if needPass ∧ csock.password = [] then (true, { csock with password := random.strlcpy 32 })
  else (true, csock)

end Create

inductive Incoming
  | quiet
  | error
  | conn (sock : Nat) (nonce : CString)
  deriving DecidableEq

-- All that a call of `f2b_csocket_poll` gets from the system: whether `select` finds anything, what
-- each listening socket has, and by the socket of a client what it has sent and takes.
structure Poll where
  ready    : Bool
  incoming : List Incoming
  recv     : Nat → Option Conn.Recv
  nonces   : Nat → Nat → CString
  sent     : Nat → Conn.Sent

variable (md5 : CString → CString)

-- A new connection. The loop that looks for a free slot counts in a variable of its own, and leaves
-- the outer `cnum` as it is.
def accept (c : Csock) (listener : Conn.SockType) : Incoming → Csock
  | .quiet           => c
  | .error           => c
  | .conn sock nonce =>
    let cnum : Nat := 0
    if h : cnum < CSOCKET_MAX_CLIENTS then
      let conn := Conn.accept md5 listener sock c.password nonce
      { c with
        clients := Function.update c.clients ⟨cnum, h⟩ (some conn)
        sockets := sock :: c.sockets }
    else
      c

def acceptAll (c : Csock) (incoming : List (Conn.SockType × Incoming)) : Csock :=
  incoming.foldl (fun c i => c.accept md5 i.1 i.2) c

variable {δ : Type} (cb : Cmd → δ → CString × δ)

-- The client in one slot. `watched` holds the sockets that were given to `select`.
def serve (p : Poll) (watched : List Nat) (c : Csock) (d : δ) (cnum : Slot) : Csock × δ :=
  match c.clients cnum with
  | none      => (c, d)
  | some conn =>
    let incoming := if conn.sock ∈ watched then p.recv conn.sock else none
    let (failed, conn, d) :=
      conn.process md5 cb incoming (p.nonces conn.sock) (p.sent conn.sock) d
    if failed then
      ({ c with
        clients := Function.update c.clients cnum none
        sockets := c.sockets.erase conn.sock }, d)
    else
      ({ c with clients := Function.update c.clients cnum (some conn) }, d)

def serveAll (p : Poll) (watched : List Nat) (slots : List Slot) (c : Csock) (d : δ) : Csock × δ :=
  slots.foldl (fun s cnum => serve md5 cb p watched s.1 s.2 cnum) (c, d)

def watched (c : Csock) : List Nat :=
  (List.finRange CSOCKET_MAX_CLIENTS).filterMap fun cnum => (c.clients cnum).map (·.sock)

def poll (p : Poll) (c : Csock) (d : δ) : Csock × δ :=
  if p.ready then
    serveAll md5 cb p c.watched (List.finRange CSOCKET_MAX_CLIENTS)
      (c.acceptAll md5 (c.listen.zip p.incoming)) d
  else
    (c, d)

def eventBroadcast (evt : CString) (c : Csock) : Csock :=
  { c with clients := fun cnum => (c.clients cnum).map (·.event evt) }

end Csock
end F2b
