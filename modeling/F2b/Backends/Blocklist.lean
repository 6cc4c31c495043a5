import F2b.Jail.Basic

-- A backend seen as the set of addresses it blocks. Calls may fail, and then change nothing.

namespace F2b

inductive Blocklist.Kind
  | ban
  | unban
  deriving DecidableEq

-- A call that changes the set, with what was the case before it and whether it succeeded.
structure Blocklist.Call where
  kind  : Kind
  ip    : CString
  known : Bool
  ok    : Bool
  deriving DecidableEq

-- `answers` holds the results of the calls to come, which succeed once it is empty.
structure Blocklist where
  blocked : List CString
  answers : List Bool
  calls   : List Blocklist.Call
  deriving DecidableEq

namespace Blocklist

def answer (b : Blocklist) : Bool :=
  b.answers.headD true

def act (kind : Kind) (ip : CString) (write : List CString → List CString) (b : Blocklist) :
    Bool × Blocklist :=
  (b.answer, {
    blocked := if b.answer then write b.blocked else b.blocked
    answers := b.answers.tail
    calls   := b.calls ++ [⟨kind, ip, ip ∈ b.blocked, b.answer⟩]
  })

instance : Backend Blocklist where
  ping b     := (true, b)
  check ip b := (ip ∈ b.blocked, b)
  ban ip     := act .ban ip (ip :: ·)
  unban ip   := act .unban ip (·.filter (· ≠ ip))
  stop b     := (true, b)

end Blocklist
end F2b
