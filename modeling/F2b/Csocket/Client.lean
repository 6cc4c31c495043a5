import F2b.Csocket.Conn
import F2b.Lib.Stdio

-- The client of the control socket (client.c).

namespace F2b.Client

-- What `snprintf` makes of a command in the buffer of `handle_cmd`.
def buffer (line : CString) : CString :=
  (line ++ ['\n']).strlcpy WBUF_SIZE

-- A turn of the loop in `handle_cmd`: the bytes that `send` takes and those that are left. Without a result
-- the client exits.
def turn (p : CString) : Conn.Sent → Option (CString × CString)
  | .sent n => some (p.take n, p.drop n)
  | .again  => some ([], p)
  | .error  => none

-- How `handle_cmd` ends, or that it waits for the next result of `send`.
inductive Outcome
  | returned
  | exited
  | waiting
  deriving DecidableEq

-- How far it gets: all bytes that have been taken, and those that are left.
structure Sending where
  taken   : CString
  left    : CString
  outcome : Outcome
  deriving DecidableEq

def sendLoop : CString → List Conn.Sent → Sending
  | [], _      => ⟨[], [], .returned⟩
  | p,  []     => ⟨[], p, .waiting⟩
  | p,  r :: rs =>
    match turn p r with
    | none            => ⟨[], p, .exited⟩
    | some (taken, p) => { sendLoop p rs with taken := taken ++ (sendLoop p rs).taken }

def handleCmd (line : CString) (results : List Conn.Sent) : Sending :=
  sendLoop (buffer line) results

-- The lines that successive calls of the function `readline` give that stands in for the library.
def readlines (input : CString) : List CString :=
  ((CString.fgets RBUF_SIZE input).map (·.dropWhile CString.isspace)).filter (· ≠ [])

-- The argument of the option '-c', which `strndup` copies.
def oneshot (arg : CString) : CString :=
  arg.take RBUF_SIZE

inductive Mode
  | interactive (input : CString)
  | oneshot (arg : CString)
  deriving DecidableEq

def commands : Mode → List CString
  | .interactive input => readlines input
  | .oneshot arg       => [oneshot arg]

end F2b.Client
