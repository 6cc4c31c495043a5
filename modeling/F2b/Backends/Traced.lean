import F2b.Jail.Basic

-- A backend that notes the addresses it is asked to block or to release, and those it says it knows.

namespace F2b

inductive Traced.Kind
  | known
  | ban
  | unban
  deriving DecidableEq

structure Traced (β : Type) where
  inner : β
  calls : List (Traced.Kind × CString)

namespace Traced

variable {β : Type}

def pass (b : Traced β) (r : Bool × β) : Bool × Traced β :=
  (r.1, { b with inner := r.2 })

def note (b : Traced β) (kind : Kind) (ip : CString) : Traced β :=
  { b with calls := b.calls ++ [(kind, ip)] }

instance [Backend β] : Backend (Traced β) where
  ping b     := b.pass (Backend.ping b.inner)
  check ip b :=
    let r := Backend.check ip b.inner
    (if r.1 then b.note .known ip else b).pass r
  ban ip b   := (b.note .ban ip).pass (Backend.ban ip b.inner)
  unban ip b := (b.note .unban ip).pass (Backend.unban ip b.inner)
  stop b     := b.pass (Backend.stop b.inner)

end Traced
end F2b
