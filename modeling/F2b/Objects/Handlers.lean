import F2b.Backends.Exec
import F2b.Objects.ConfigFile
import F2b.Objects.Module

-- What the modules make of the options of their sections: their functions `config`, which tell
-- whether they know an option.

namespace F2b

open Config (yes)

-- Conversions to unsigned types of 8 and 16 bits.
def toUInt8 (n : Int) : Nat :=
  (n % 2 ^ 8).toNat

def toUInt16 (n : Int) : Nat :=
  (n % 2 ^ 16).toNat

structure RedisSource where
  timeout  : Int
  host     : CString
  port     : Nat
  database : Nat
  password : CString
  deriving DecidableEq

def RedisSource.config (cfg : RedisSource) (key value : CString) : Bool × RedisSource :=
  if key = "timeout".toList then (true, { cfg with timeout := value.atoi })
  else if key = "host".toList then (true, { cfg with host := value.strlcpy 32 })
  else if key = "port".toList then (true, { cfg with port := toUInt16 value.atoi })
  else if key = "database".toList then (true, { cfg with database := toUInt8 value.atoi })
  else if key = "password".toList then (true, { cfg with password := value.strlcpy 32 })
  else (false, cfg)

structure Portknock where
  ports : List (CString × CString)
  ready : Bool
  deriving DecidableEq

-- The text of an option 'listen' is read by a parameter.
def Portknock.config (parse : CString → Option (CString × CString)) (cfg : Portknock) (key value : CString) :
    Bool × Portknock :=
  if key = "listen".toList then
    match parse value with
    | none      => (false, cfg)
    | some port => (true, { ports := port :: cfg.ports, ready := true })
  else (false, cfg)

structure Preg where
  icase    : Bool
  defscore : Int
  deriving DecidableEq

def Preg.config (cfg : Preg) (key value : CString) : Bool × Preg :=
  if key = "icase".toList then (true, { cfg with icase := yes value })
  else if key = "defscore".toList then (true, { cfg with defscore := toShort value.atoi })
  else (false, cfg)

structure Pcre where
  icase    : Bool
  study    : Bool
  usejit   : Bool
  defscore : Int
  deriving DecidableEq

-- `jit` tells whether the library is built with a compiler.
def Pcre.config (jit : Bool) (cfg : Pcre) (key value : CString) : Bool × Pcre :=
  if key = "icase".toList then (true, { cfg with icase := yes value })
  else if key = "study".toList then (true, { cfg with study := yes value })
  else if key = "usejit".toList then (jit || !yes value, { cfg with usejit := jit && yes value })
  else if key = "defscore".toList then (true, { cfg with defscore := toShort value.atoi })
  else (false, cfg)

structure ExecOptions where
  cfg     : Exec.Cfg
  timeout : Int
  deriving DecidableEq

def ExecOptions.config (o : ExecOptions) (key value : CString) : Bool × ExecOptions :=
  let (known, cfg) := Exec.config o.cfg key value
  (known, { cfg, timeout := if key = "timeout".toList then value.atoi else o.timeout })

structure RedisBackend where
  timeout  : Int
  shared   : Bool
  host     : CString
  ready    : Bool
  port     : Nat
  pingMax  : Nat
  database : Nat
  password : CString
  deriving DecidableEq

def RedisBackend.config (cfg : RedisBackend) (key value : CString) : Bool × RedisBackend :=
  if key = "timeout".toList then (true, { cfg with timeout := value.atoi })
  else if key = "shared".toList then (true, { cfg with shared := yes value })
  else if key = "host".toList then (true, { cfg with host := value.strlcpy 32, ready := true })
  else if key = "port".toList then (true, { cfg with port := toUInt16 value.atoi })
  else if key = "ping".toList then (true, { cfg with pingMax := toUInt8 value.atoi })
  else if key = "database".toList then (true, { cfg with database := toUInt8 value.atoi })
  else if key = "password".toList then (true, { cfg with password := value.strlcpy 32 })
  else (false, cfg)

namespace Module

-- sources/files.c, backends/ipset6.c and backends/ipset7.c have no options.
inductive Driver
  | files
  | portknock (parse : CString → Option (CString × CString))
  | redisSource
  | preg
  | pcre (jit : Bool)
  | exec
  | ipset
  | redisBackend

namespace Driver

def kind : Driver → Kind
  | files | portknock _ | redisSource => .source
  | preg | pcre _                     => .filter
  | exec | ipset | redisBackend       => .backend

def Cfg : Driver → Type
  | files | ipset => Unit
  | portknock _   => Portknock
  | redisSource   => RedisSource
  | preg          => Preg
  | pcre _        => Pcre
  | exec          => ExecOptions
  | redisBackend  => RedisBackend

def config : (d : Driver) → d.Cfg → CString → CString → Bool × d.Cfg
  | files           => fun cfg _ _ => (false, cfg)
  | ipset           => fun cfg _ _ => (false, cfg)
  | portknock parse => Portknock.config parse
  | redisSource     => RedisSource.config
  | preg            => Preg.config
  | pcre jit        => Pcre.config jit
  | exec            => ExecOptions.config
  | redisBackend    => RedisBackend.config

-- The loop that gives a module the options of its section.
def configure (d : Driver) (cfg : d.Cfg) (sec : Config.Section) : d.Cfg :=
  (sec.param.filter (·.name ≠ LIBRARY_PARAM)).foldl (fun cfg p => (d.config cfg p.name p.value).2) cfg

end Driver
end Module
end F2b
