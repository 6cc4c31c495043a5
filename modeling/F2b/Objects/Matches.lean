import F2b.Lib.CString

-- The recent matches of a host, newest first (matches.c).

namespace F2b

structure Match where
  time  : Int
  stag  : UInt32
  ftag  : UInt32
  score : Int
  deriving DecidableEq

def Match.create (t : Int) : Match where
  time  := t
  stag  := 0
  ftag  := 0
  score := 0

structure Matches where
  count : Nat
  last  : Int
  list  : List Match
  deriving DecidableEq

namespace Matches

def flush : Matches where
  count := 0
  last  := 0
  list  := []

def prepend (ms : Matches) (m : Match) : Matches where
  count := ms.count + 1
  last  := if m.time > ms.last then m.time else ms.last
  list  := m :: ms.list

-- The loop of `f2b_matches_expire`: the nodes that stay, and `count` after the others are freed.
def unlink (before : Int) : List Match → Nat → List Match × Nat
  | [],         count => ([], count)
  | node :: ns, count =>
    if node.time > before then
      let (kept, count) := unlink before ns count
      (node :: kept, count)
    else
      unlink before ns (count - 1)

def expire (ms : Matches) (before : Int) : Matches :=
  if ms.list = [] then
    ms
  else
    let (list, count) := unlink before ms.list ms.count
    { count, list, last := list.head?.elim 0 (·.time) }

-- The list is taken to be sorted, so the sum stops at the first older match.
def score (after : Int) : List Match → Int
  | []      => 0
  | m :: ms => if after > m.time then 0 else m.score + score after ms

-- The same in an `int`, which wraps around.
def scoreInt (after : Int) : Int → List Match → Int
  | score, []      => score
  | score, m :: ms => if after > m.time then score else scoreInt after (toInt32 (score + m.score)) ms

theorem unlink_fst (before : Int) (ns : List Match) (count : Nat) :
    (unlink before ns count).fst = ns.filter (before < ·.time) := by
  induction ns generalizing count
  case nil          => rfl
  case cons n ns hi => by_cases h : before < n.time <;> simp [unlink, h, hi]

theorem list_expire (ms : Matches) (before : Int) :
    (ms.expire before).list = ms.list.filter (before < ·.time) := by
  by_cases h : ms.list = []
  case pos => simp [expire, h]
  case neg => simp [expire, h, unlink_fst]

theorem score_eq_sum (after : Int) (ms : List Match) :
    score after ms = ((ms.takeWhile (after ≤ ·.time)).map (·.score)).sum := by
  induction ms
  case nil          => rfl
  case cons m ms hi => by_cases h : after ≤ m.time <;> simp [score, h, Int.not_lt.mpr, Int.not_le.mp, hi]

end Matches
end F2b
