import F2b.Csocket.Buf
import F2b.Csocket.Commands

-- Connections to the control socket (csocket.c).

namespace F2b

def RBUF_SIZE : Nat := 256

def WBUF_SIZE : Nat := 32768

-- The flags `CSOCKET_CONN_TYPE_UNIX` and `CSOCKET_CONN_TYPE_INET`, of which a socket has one.
inductive Conn.SockType
  | unix
  | inet
  deriving DecidableEq

structure Conn.Flags where
  type   : Conn.SockType
  authOk : Bool
  events : Bool
  deriving DecidableEq

structure Conn where
  recv      : Buf
  send      : Buf
  sock      : Nat
  flags     : Conn.Flags
  password  : CString
  challenge : CString
  deriving DecidableEq

namespace Conn

def append (conn : Conn) (str : CString) : Conn :=
  { conn with send := conn.send.append str }

def sendUnauth (conn : Conn) : Conn :=
  ((conn.append "-unauthorized: ".toList).append conn.challenge).append "\n".toList

-- The reply to 'log events', which turns the events on or off.
def logEvents (conn : Conn) (cmd : Cmd) : Conn :=
  let arg := cmd.args.getD 2 []
  if arg = "on".toList ∨ arg = "yes".toList ∨ arg = "true".toList then
    { conn with flags.events := true }.append "+events on\n".toList
  else
    { conn with flags.events := false }.append "+events off\n".toList

-- The part of `f2b_csocket_event_broadcast` for one client.
def event (conn : Conn) (evt : CString) : Conn :=
  if conn.flags.events then ((conn.append "!".toList).append evt).append "\n".toList else conn

variable (md5 : CString → CString)

def updateChallenge (conn : Conn) (nonce : CString) : Conn :=
  { conn with challenge := (md5 nonce).strlcpy 40 }

-- A connection that a listening socket has accepted. Local ones need no password.
def accept (type : SockType) (sock : Nat) (password nonce : CString) : Conn :=
  updateChallenge md5 {
    recv      := .alloc RBUF_SIZE
    send      := .alloc WBUF_SIZE
    sock      := sock
    flags     := { type, authOk := type = .unix, events := false }
    password  := password
    challenge := []
  } nonce

-- The password, or the digest of the challenge with the password.
def credentials (conn : Conn) (cmd : Cmd) : Bool :=
  let arg i := cmd.args.getD i []
  if arg 1 = "plain".toList then arg 2 = conn.password
  else if arg 1 = "challenge".toList then arg 2 = md5 (conn.challenge ++ conn.password)
  else false

def checkAuth (conn : Conn) (cmd : Cmd) (nonce : CString) : Conn :=
  if conn.flags.authOk then
    conn.append "+already authorized\n".toList
  else if conn.credentials md5 cmd then
    { conn with flags.authOk := true }.append "+ok\n".toList
  else
    (conn.updateChallenge md5 nonce).sendUnauth

-- The callback runs a command and gives the text of the reply.
variable {δ : Type} (cb : Cmd → δ → CString × δ)

-- One line from the client. `nonce` is used if a new challenge is needed.
def handle (conn : Conn) (line nonce : CString) (d : δ) : Conn × δ :=
  match Cmd.create line with
  | some cmd =>
    if cmd.type = .auth then
      (conn.checkAuth md5 cmd nonce, d)
    else if cmd.type = .logEvents then
      (conn.logEvents cmd, d)
    else if conn.flags.authOk then
      let (reply, d) := cb cmd d
      (conn.append reply, d)
    else
      (conn.sendUnauth, d)
  | none =>
    if conn.flags.authOk then (conn.append "-unknown command, try 'help'\n".toList, d)
    else (conn.sendUnauth, d)

def stripCr (line : CString) : CString :=
  if line.getLast? = some '\r' then line.dropLast else line

-- The loop over the lines in the receive buffer. Each turn takes some bytes from the buffer, which
-- bounds their number.
def messages (nonces : Nat → CString) : Nat → Conn → δ → Conn × δ
  | 0,        conn, d => (conn, d)
  | turns + 1, conn, d =>
    match conn.recv.extract with
    | none              => (conn, d)
    | some (line, recv) =>
      let conn := { conn with recv }
      if line = [] then
        messages nonces turns conn d
      else
        let (conn, d) := conn.handle md5 cb (stripCr line) (nonces turns) d
        messages nonces turns conn d

inductive Recv
  | data (bytes : List Char)
  | error
  deriving DecidableEq

-- The first result is true for the return value -1.
def receive (conn : Conn) (nonces : Nat → CString) (d : δ) : Recv → Bool × Conn × δ
  | .error      => (true, conn, d)
  | .data bytes =>
    let avail := conn.recv.size - conn.recv.data.length
    let read := bytes.take avail
    if read = [] then
      (true, conn, d)
    else if ¬(CString.ofBuffer read).all fun c => CString.isgraph c || CString.isspace c then
      (true, conn, d)
    else
      let conn := { conn with recv := conn.recv.append read }
      let (conn, d) := messages md5 cb nonces conn.recv.data.length conn d
      (conn.recv.data.length ≥ conn.recv.size, conn, d)

-- What `send` gives: the number of bytes it takes, no more bytes for now, or an error.
inductive Sent
  | sent (n : Nat)
  | again
  | error
  deriving DecidableEq

def transmit (conn : Conn) (sent : Sent) : Bool × Conn :=
  if conn.send.data = [] then (false, conn)
  else match sent with
  | .sent n => (false, { conn with send := conn.send.splice n })
  | .again  => (false, conn)
  | .error  => (true, conn)

-- `f2b_conn_process`: `incoming` is none if there is nothing to read.
def process (conn : Conn) (incoming : Option Recv) (nonces : Nat → CString) (sent : Sent) (d : δ) :
    Bool × Conn × δ :=
  let (failed, conn, d) := match incoming with
    | some r => conn.receive md5 cb nonces d r
    | none   => (false, conn, d)
  if failed then
    (true, conn, d)
  else
    let (failed, conn) := conn.transmit sent
    (failed, conn, d)

end Conn
end F2b
