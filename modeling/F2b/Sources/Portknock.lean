import F2b.Objects.Ipaddr
import F2b.Sources.Files

-- The options of the source 'portknock', which reports hosts that connect to a port (sources/portknock.c).

namespace F2b.Sources.Portknock

def HOST_MAX : Nat := 48
def PORT_MAX : Nat := 6

-- `f2b_port_t`, the link aside.
structure Port where
  accepts : UInt32
  stag    : UInt32
  sock    : Int
  host    : CString
  port    : CString
  deriving DecidableEq

def Port.zero : Port where
  accepts := 0
  stag    := 0
  sock    := 0
  host    := []
  port    := []

-- `ready` is the flag `MOD_IS_READY`.
structure Config where
  ports : List Port
  ready : Bool
  name  : CString
  deriving DecidableEq

def create (init : CString) : Config where
  ports := []
  ready := false
  name  := init.strlcpy 32

-- There is no result if the NULL that `strstr` has returned is written to.
def tryParseListenOpt (port : Port) (value : CString) : Option (Bool × Port) :=
  let buf := value.strlcpy 256
  if buf.head? = some '[' then
    match CString.strstr "]:".toList buf with
    | none   => none
    | some _ => some (false, port)
  else match buf.strchr ':' with
  | some p =>
    some (true, { port with
      port := CString.strlcpy (buf.drop (p + 1)) PORT_MAX
      host := CString.strlcpy (buf.take p) HOST_MAX })
  | none   =>
    if buf.head?.any CString.isdigit ∧ buf.length ≤ 5 then
      some (true, { port with
        host := CString.strlcpy "0.0.0.0".toList HOST_MAX
        port := buf.strlcpy PORT_MAX })
    else
      some (false, port)

def config (cfg : Config) (key value : CString) : Option (Bool × Config) :=
  if key = "listen".toList then
    match tryParseListenOpt .zero value with
    | none               => none
    | some (false, _)    => some (false, cfg)
    | some (true,  port) =>
      let port := { port with stag := fnv32aStr port.port FNV1_32A_INIT }
      some (true, { cfg with ports := port :: cfg.ports, ready := true })
  else
    some (false, cfg)

end F2b.Sources.Portknock
