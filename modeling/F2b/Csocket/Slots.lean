import F2b.Csocket.Conn
import F2b.Lib.Deref

-- The handlers of a connection with their reads of `args[]`, where the slots behind the tokens are NULL (csocket.c).

namespace F2b

def Cmd.arg (cmd : Cmd) (i : Nat) : Deref CString :=
  Deref.read (cmd.args[·]?) i

namespace Conn.Slots

variable (md5 : CString → CString)

def credentials (conn : Conn) (cmd : Cmd) : Deref Bool := do
  if (← cmd.arg 1) = "plain".toList then
    return (← cmd.arg 2) = conn.password
  else if (← cmd.arg 1) = "challenge".toList then
    return (← cmd.arg 2) = md5 (conn.challenge ++ conn.password)
  else
    return false

def checkAuth (conn : Conn) (cmd : Cmd) (nonce : CString) : Deref Conn := do
  if conn.flags.authOk then
    return conn.append "+already authorized\n".toList
  else if ← credentials md5 conn cmd then
    return { conn with flags.authOk := true }.append "+ok\n".toList
  else
    return (conn.updateChallenge md5 nonce).sendUnauth

def logEvents (conn : Conn) (cmd : Cmd) : Deref Conn := do
  let arg ← cmd.arg 2
  if arg = "on".toList ∨ arg = "yes".toList ∨ arg = "true".toList then
    return { conn with flags.events := true }.append "+events on\n".toList
  else
    return { conn with flags.events := false }.append "+events off\n".toList

variable {δ : Type} (cb : Cmd → δ → Deref (CString × δ))

def handle (conn : Conn) (line nonce : CString) (d : δ) : Deref (Conn × δ) :=
  match Cmd.create line with
  | some cmd =>
    if cmd.type = .auth then do
      return (← checkAuth md5 conn cmd nonce, d)
    else if cmd.type = .logEvents then do
      return (← logEvents conn cmd, d)
    else if conn.flags.authOk then do
      let (reply, d) ← cb cmd d
      return (conn.append reply, d)
    else
      return (conn.sendUnauth, d)
  | none =>
    if conn.flags.authOk then return (conn.append "-unknown command, try 'help'\n".toList, d)
    else return (conn.sendUnauth, d)

end Conn.Slots
end F2b
