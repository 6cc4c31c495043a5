import F2b.Backends.Traced
import F2b.Jail.System
import F2b.Lib.Broadcast
import F2b.Sources.Redis

-- Jails on several hosts that share a server: some publish the hosts that they ban, and others ban what is published.

namespace F2b

def LOGLINE_MAX : Nat := 1024

-- A backend of one of two kinds.
instance {α β : Type} [Backend α] [Backend β] : Backend (α ⊕ β) where
  ping
    | .inl a => ((Backend.ping a).1, .inl (Backend.ping a).2)
    | .inr b => ((Backend.ping b).1, .inr (Backend.ping b).2)
  check ip
    | .inl a => ((Backend.check ip a).1, .inl (Backend.check ip a).2)
    | .inr b => ((Backend.check ip b).1, .inr (Backend.check ip b).2)
  ban ip
    | .inl a => ((Backend.ban ip a).1, .inl (Backend.ban ip a).2)
    | .inr b => ((Backend.ban ip b).1, .inr (Backend.ban ip b).2)
  unban ip
    | .inl a => ((Backend.unban ip a).1, .inl (Backend.unban ip a).2)
    | .inr b => ((Backend.unban ip b).1, .inr (Backend.unban ip b).2)
  stop
    | .inl a => ((Backend.stop a).1, .inl (Backend.stop a).2)
    | .inr b => ((Backend.stop b).1, .inr (Backend.stop b).2)

open Redis (Publisher Subscriber Message)

def Traced.messages {β : Type} (b : Traced (Publisher ⊕ β)) : List Message :=
  match b.inner with
  | .inl publisher => Redis.published publisher.executed
  | .inr _         => []

-- Where a jail is in a pass: not in one, in its loop over the lines, or past it.
inductive Phase
  | rest
  | reading (filter : Filter) (now : Int)
  | finishing (now : Int)

-- A jail whose backend is 'redis' or another one. Its source is 'redis', or another one whose lines are given.
structure Node (β : Type) where
  system : System (Traced (Publisher ⊕ β))
  source : Option Subscriber
  phase  : Phase

-- A pass over the lines of the source 'redis' goes step by step, since its own bans may come back to it. The
-- connection of the source may be lost at any time.
inductive Act
  | operate (op : Op)
  | begin (filter : Filter) (now : Int)
  | next
  | finish (fate : SaveFate)
  | cut (n : Nat)

namespace Node

variable {β : Type} [Backend β]

def sent (n : Node β) : List Message :=
  n.system.world.backend.messages

def done (n n' : Node β) : Node β × List Message :=
  (n', n'.sent.drop n.sent.length)

def load (n : Node β) : Node β where
  system := { n.system with world.backend.inner := n.system.world.backend.inner.map Publisher.restart id }
  source := n.source.map Subscriber.restart
  phase  := n.phase

def unload (n : Node β) : Node β :=
  { n with source := n.source.map Subscriber.disconnect }

-- A jail with the source 'redis' makes its passes step by step.
def operate (env : Env) (n : Node β) (op : Op) : Option (Node β) :=
  match op, n.source with
  | .process .., some _ => none
  | .start .., _        => (n.load.system.step env op).map fun system => { n.load with system }
  | .stop .., _         => (n.system.step env op).map fun system => { n.unload with system }
  | _, _                => (n.system.step env op).map fun system => { n with system }

-- `f2b_jail_process` as far as its loop, one turn of the loop, and the rest.
def begin (filter : Filter) (now : Int) (n : Node β) : Node β :=
  let (_, world) := n.system.world.call Backend.ping
  { n with
    system := { n.system with world }
    phase  := if n.system.jail.settings.flags.hasSource then .reading filter now else .finishing now }

def next (env : Env) (filter : Filter) (now : Int) (source : Subscriber) (n : Node β) : Option (Node β) :=
  let ((stag, line), source) := source.next LOGLINE_MAX
  if stag = 0 then some { n with source := some source, phase := .finishing now }
  else match n.system.jail.consume env.inet filter now stag line n.system.world with
    | .ok (jail, world) => some { n with system := { n.system with jail, world }, source := some source }
    | .error _          => none

def finish (now : Int) (fate : SaveFate) (n : Node β) : Node β :=
  let (jail, world) := Jail.tidy now n.system.jail n.system.world
  let (jail, world) := Jail.save fate jail world
  { n with system := { n.system with clock := now, jail, world }, phase := .rest }

def act (env : Env) (n : Node β) (a : Act) : Option (Node β) :=
  match a, n.phase, n.source with
  | .operate op, .rest, _                        => n.operate env op
  | .begin filter now, .rest, some _             => if n.system.up then some (n.begin filter now) else none
  | .next, .reading filter now, some source      => n.next env filter now source
  | .finish fate, .finishing now, _              => some (n.finish now fate)
  | .cut k, _, some source                       => some { n with source := some (source.cut k) }
  | _, _, _                                      => none

def hear (messages : List Message) (n : Node β) : Node β :=
  { n with source := n.source.map (·.deliver messages) }

end Node

-- The hosts have their own files and settings, and publish on one server. Messages may also be published by hand.
def network {κ β : Type} [Backend β] (env : κ → Env) : Broadcast κ (Node β) Act Message where
  act k n a := (n.act (env k) a).map n.done
  hear _    := Node.hear

end F2b
