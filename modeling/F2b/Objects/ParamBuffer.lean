import F2b.Lib.Access
import F2b.Objects.ConfigFile

-- `f2b_config_param_create` on its buffer `line`, with the positions that it reads and writes (config.c).

namespace F2b.Config

open CString

def lineBuffer (src : CString) : Buffer where
  bytes := src.strlcpy CONFIG_LINE_MAX ++
    List.replicate (CONFIG_LINE_MAX - (src.strlcpy CONFIG_LINE_MAX).length) nul
  log   := []

def stripKey (b : Buffer) (value : Int) : Buffer :=
  let (p, b) := b.back isblank 0 (value - 1)
  b.write (p + 1) nul

def cutAt (value : Int) (b : Buffer) (pat : CString) : Buffer :=
  match b.scan (findStr pat) value with
  | (none, b)   => b
  | (some p, b) => b.write p nul

def stripValue (b : Buffer) (value : Int) : Buffer :=
  let (s, b) := b.scan text value
  let p := value + s.length
  let p := if p > value then p - 1 else p
  let (p, b) := b.back isspace value p
  b.write (p + 1) nul

-- The lengths are checked before the strings are copied. Both read the same bytes.
def makeParam (b : Buffer) (key value : Int) : Option Param × Buffer :=
  let (k, b) := b.scan text key
  if k.length < 1 ∨ k.length ≥ CONFIG_KEY_MAX then (none, b)
  else
    let (v, b) := b.scan text value
    if v.length < 1 ∨ v.length ≥ CONFIG_VAL_MAX then (none, b)
    else (some ⟨k, v⟩, b)

def paramCreateAt (src : CString) : Option Param × Buffer :=
  let (key, b) := (lineBuffer src).scan (skip isblank) 0
  match b.scan (findChar '=') key with
  | (none, b)       => (none, b)
  | (some value, b) =>
    let b := stripKey b value
    let (value, b) := b.scan (skip isblank) (value + 1)
    let b := [" #".toList, "\t#".toList, " ;".toList, "\t;".toList].foldl (cutAt value) b
    let b := stripValue b value
    makeParam b key value

end F2b.Config
