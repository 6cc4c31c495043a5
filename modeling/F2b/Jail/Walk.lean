import F2b.Jail.Process
import F2b.Lib.Linked

-- The maintenance loop of `f2b_jail_process` on the nodes of the list, with the pointers of the source.

namespace F2b.Jail

open Linked

variable {ι : Type} [DecidableEq ι] {β : Type} [Backend β]

-- The variables of the loop. `ipaddrs` is the head of the list.
structure Walk (ι β : Type) where
  heap    : Heap ι Ipaddr
  ipaddrs : Option ι
  prev    : Option ι
  addr    : Option ι
  hostc   : Nat
  world   : World β

namespace Walk

def start (heap : Heap ι Ipaddr) (ipaddrs : Option ι) (w : World β) : Walk ι β where
  heap
  ipaddrs
  prev  := none
  addr  := ipaddrs
  hostc := 0
  world := w

-- One turn at the node `a`. There is no result if a pointer leads to memory that is not allocated.
def turn (jail : Jail) (now : Int) (st : Walk ι β) (a : ι) : Option (Walk ι β) := do
  let node ← st.heap a
  let (addr, world) := jail.release now node.data st.world
  let heap := st.heap.store a { node with data := addr }
  if !jail.expired now addr then
    return { st with heap, world, prev := some a, addr := node.next, hostc := st.hostc + 1 }
  else match st.prev with
  | none   => return { st with heap := heap.free a, world, ipaddrs := node.next, addr := node.next }
  | some b =>
    let prev ← heap b
    return { st with heap := (heap.store b { prev with next := node.next }).free a, world, addr := node.next }

-- As many turns as are allowed. There is no result if the loop is not over then.
def run (jail : Jail) (now : Int) : Nat → Walk ι β → Option (Walk ι β)
  | 0,     st => if st.addr = none then some st else none
  | n + 1, st =>
    match st.addr with
    | none   => some st
    | some a => (st.turn jail now a).bind (run jail now n)

end Walk
end F2b.Jail
