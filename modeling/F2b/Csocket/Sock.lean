import F2b.Csocket.Conn

-- Listening sockets (csocket.c).

namespace F2b

def CSOCKET_DEFAULT_PORT : CString :=
  "3370".toList

def SOCK_HOST_SIZE : Nat := 128

structure Sock where
  sock : Nat
  spec : CString
  type : Conn.SockType
  deriving DecidableEq

namespace Sock

-- The host and the port that `f2b_sock_create_inet` hands to `getaddrinfo`. A port is cut off in place.
def hostPort (addr : CString) : CString × CString :=
  let host := addr.strlcpy SOCK_HOST_SIZE
  match CString.strstr "]:".toList host with
  | some port => (host.take port, host.drop (port + 2))
  | none      =>
    if host.head? = some '[' then (host, CSOCKET_DEFAULT_PORT)
    else if CString.strstr "::".toList host ≠ none then (host, CSOCKET_DEFAULT_PORT)
    else match CString.strstr ":".toList host with
    | some port => (host.take port, host.drop (port + 1))
    | none      => (host, CSOCKET_DEFAULT_PORT)

-- `getaddrinfo` gives the first result, and `bindTo` the socket that could be created and bound to it.
variable {α : Type} (getaddrinfo : CString → CString → Option α) (bindTo : α → Option Nat)

def createInet (addr : CString) : Option Nat :=
  (getaddrinfo (hostPort addr).1 (hostPort addr).2).bind bindTo

def create (createUnix : CString → Option Nat) (listen : Nat → Bool) (spec : CString) : Option Sock := do
  let (sock, type) ←
    if CString.strncmpEq spec "unix:".toList 5 then
      (createUnix (spec.drop 5)).map (·, .unix)
    else if CString.strncmpEq spec "inet:".toList 5 then
      (createInet getaddrinfo bindTo (spec.drop 5)).map (·, .inet)
    else
      none
  if listen sock then some { sock, spec, type } else none

end Sock
end F2b
