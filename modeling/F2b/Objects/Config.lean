import F2b.Lib.CString

-- The parsed configuration file (config.h).

namespace F2b

def CONFIG_KEY_MAX : Nat := 32
def CONFIG_VAL_MAX : Nat := 192

inductive SectionType
  | unknown | main | csocket | defaults | source | filter | backend | jail
  deriving DecidableEq

namespace Config

structure Param where
  name  : CString
  value : CString
  deriving DecidableEq

structure Section where
  name  : CString
  type  : SectionType
  param : List Param
  deriving DecidableEq

end Config

-- The sections `[main]`, `[csocket]` and `[defaults]` have no name, so there is one of each.
structure Config where
  main     : Option Config.Section
  csocket  : Option Config.Section
  defaults : Option Config.Section
  sources  : List Config.Section
  filters  : List Config.Section
  backends : List Config.Section
  jails    : List Config.Section
  deriving DecidableEq

namespace Config

def defaultParams (c : Config) : List Param :=
  c.defaults.elim [] (·.param)

end Config
end F2b
