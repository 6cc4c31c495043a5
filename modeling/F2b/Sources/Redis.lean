import F2b.Backends.Redis

-- The source 'redis': it hands over what is published on its channel (sources/redis.c).

namespace F2b.Redis

-- What the library reads from a connection. The array is given by its first three elements.
inductive Push
  | array (kind channel text : CString)
  | other
  deriving DecidableEq

-- `conn` and `replies` are those of the backend. `live` tells whether the server still sends on the connection, and
-- `inbox` holds what has been sent on it and not been read.
structure Subscriber where
  name     : CString
  hash     : CString
  options  : RedisSource
  conn     : Option Bool
  received : Nat
  replies  : List Reply
  live     : Bool
  inbox    : List Push

namespace Subscriber

def create (init : CString) (params : List Config.Param) (replies : List Reply) : Subscriber where
  name     := init.strlcpy (ID_MAX + 1)
  hash     := channel init
  options  := params.foldl (fun cfg p => (cfg.config p.name p.value).2) ⟨0, [], 0, 0, []⟩
  conn     := none
  received := 0
  replies  := replies
  live     := false
  inbox    := []

def call (s : Subscriber) : Bool × Subscriber :=
  (s.replies.headD .ok = .ok, { s with replies := s.replies.tail })

def auth (s : Subscriber) : Bool × Subscriber :=
  if s.options.password = [] then (true, s) else s.call

def select (s : Subscriber) : Bool × Subscriber :=
  if s.options.database = 0 then (true, s) else s.call

-- `redis_connect`: `redisConnectWithTimeout`, the commands `AUTH`, `SELECT` and `SUBSCRIBE`, and `redisSetTimeout`. The
-- connection before is freed.
def connect (s : Subscriber) : Bool × Subscriber :=
  if s.conn = some false then (true, s)
  else andThen s.call fun s => andThen s.auth fun s => andThen s.select fun s => andThen s.call fun s =>
    andThen s.call fun s => (true, { s with conn := some false, live := true, inbox := [] })

def disconnect (s : Subscriber) : Subscriber :=
  { s with conn := none, live := false, inbox := [] }

-- The module is loaded anew with each start of a jail. It may fail to connect.
def restart (s : Subscriber) : Subscriber :=
  { s.disconnect with received := 0 }.connect.2

-- With nothing to read, the call runs into its timeout, or into the end of the connection. The tag 0 leaves the
-- buffer as it was.
def read (bufsize : Nat) (s : Subscriber) : (UInt32 × CString) × Subscriber :=
  match s.inbox with
  | []            => ((0, []), if s.live then s else { s with conn := some true })
  | push :: inbox =>
    let s := { s with inbox, received := (s.received + 1) % 2 ^ 32 }
    match push with
    | .array kind channel text =>
      if kind = "message".toList ∨ channel = s.hash then ((0xFFFFFFFF, text.strlcpy bufsize), s) else ((0, []), s)
    | .other => ((0, []), s)

def next (bufsize : Nat) (s : Subscriber) : (UInt32 × CString) × Subscriber :=
  match s.connect with
  | (true, s)  => s.read bufsize
  | (false, s) => ((0, []), s)

-- The server sends what is published on the channel as long as it is connected.
def deliver (messages : List Message) (s : Subscriber) : Subscriber :=
  if s.live then
    { s with inbox := s.inbox ++ (messages.filter (·.channel = s.hash)).map fun m =>
        .array "message".toList m.channel m.text }
  else s

-- The connection is lost, and of what was on its way only the first part arrives.
def cut (n : Nat) (s : Subscriber) : Subscriber :=
  { s with live := false, inbox := s.inbox.take n }

end Subscriber
end F2b.Redis
