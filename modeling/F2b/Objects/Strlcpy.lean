import F2b.Lib.CString
import F2b.Lib.Cells

-- String functions that take the size of the destination (strlcpy.c).

namespace F2b.Strlcpy

open CString (nul)

-- The loop that copies, from the decrement of `nleft` on. `n` is its value then, and the first result is its
-- value at the end.
def copyLoop : Nat → Nat → Nat → Cells Char → Option (Nat × Nat × Nat × Cells Char)
  | 0,     dst, src, m => some (0, dst, src, m)
  | n + 1, dst, src, m => do
    let c ← m src
    let m ← m.store dst c
    if c = nul then some (n + 1, dst + 1, src + 1, m) else copyLoop n (dst + 1) (src + 1) m

-- `while (*src++)`, with a bound for the number of turns.
def skipLoop : Nat → Nat → Cells Char → Option Nat
  | 0,         _,   _ => none
  | turns + 1, src, m => do
    let c ← m src
    if c = nul then some (src + 1) else skipLoop turns (src + 1) m

def strlcpy (turns : Nat) (m : Cells Char) (dst src dsize : Nat) : Option (Nat × Cells Char) := do
  let (nleft, dst, src', m) ← if dsize ≠ 0 then copyLoop (dsize - 1) dst src m else some (0, dst, src, m)
  if nleft = 0 then
    let m ← if dsize ≠ 0 then m.store dst nul else some m
    let src' ← skipLoop turns src' m
    some (src' - src - 1, m)
  else
    some (src' - src - 1, m)

def endLoop : Nat → Nat → Cells Char → Option Nat
  | 0,     dst, _ => some dst
  | n + 1, dst, m => do
    let c ← m dst
    if c ≠ nul then endLoop n (dst + 1) m else some dst

def catLoop : Nat → Nat → Nat → Nat → Cells Char → Option (Nat × Nat × Cells Char)
  | 0,         _, _,   _,   _ => none
  | turns + 1, n, dst, src, m => do
    let c ← m src
    if c = nul then some (dst, src, m)
    else if n ≠ 0 then
      let m ← m.store dst c
      catLoop turns (n - 1) (dst + 1) (src + 1) m
    else
      catLoop turns n dst (src + 1) m

def strlcat (turns : Nat) (m : Cells Char) (dst src dsize : Nat) : Option (Nat × Cells Char) := do
  let dst' ← endLoop dsize dst m
  let dlen := dst' - dst
  let n := dsize - dlen
  if n = 0 then
    let src' ← skipLoop turns src m
    some (dlen + (src' - src - 1), m)
  else
    let (dst', src', m) ← catLoop turns (n - 1) dst' src m
    let m ← m.store dst' nul
    some (dlen + (src' - src), m)

end F2b.Strlcpy
