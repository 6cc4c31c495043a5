import F2b.Jail.Basic
import F2b.Objects.Handlers

-- The backend 'redis' as the module that a jail uses: it counts the bans and publishes them (backends/redis.c).

namespace F2b.Redis

-- What comes of a call of the library. A command whose reply is lost may have been executed all the same, and the
-- connection has failed then.
inductive Reply
  | ok
  | error
  | lost (executed : Bool)
  deriving DecidableEq

def andThen {σ : Type} (x : Bool × σ) (f : σ → Bool × σ) : Bool × σ :=
  if x.1 then f x.2 else x

def channel (id : CString) : CString :=
  CString.strlcpy ("f2b-banned-".toList ++ id) (ID_MAX * 2)

structure Message where
  channel : CString
  text    : CString
  deriving DecidableEq

def published (commands : List (List CString)) : List Message :=
  commands.filterMap fun
    | [name, channel, text] => if name = "PUBLISH".toList then some ⟨channel, text⟩ else none
    | _                     => none

-- `conn` tells whether the connection has failed, if there is one. `replies` is for the calls to come, which succeed
-- once it is empty, and `executed` holds the commands that the server has executed.
structure Publisher where
  name     : CString
  hash     : CString
  options  : RedisBackend
  ids      : List Exec.CfgId
  conn     : Option Bool
  pingNum  : Nat
  replies  : List Reply
  executed : List (List CString)

namespace Publisher

def create (id : CString) (params : List Config.Param) (ids : List Exec.CfgId) (replies : List Reply) : Publisher where
  name     := id.strlcpy (ID_MAX + 1)
  hash     := channel id
  options  := params.foldl (fun cfg p => (cfg.config p.name p.value).2) ⟨0, false, [], false, 0, 0, 0, []⟩
  ids      := ids
  conn     := none
  pingNum  := 0
  replies  := replies
  executed := []

def answer (r : Publisher) : Reply × Publisher :=
  (r.replies.headD .ok, { r with replies := r.replies.tail })

-- `redisConnectWithTimeout`
def reach (r : Publisher) : Bool × Publisher :=
  (r.answer.1 = .ok, r.answer.2)

-- A command on a connection that is not the one of the instance yet.
def command (args : List CString) (r : Publisher) : Bool × Publisher :=
  match r.answer with
  | (.ok, r)         => (true, { r with executed := r.executed ++ [args] })
  | (.error, r)      => (false, r)
  | (.lost false, r) => (false, r)
  | (.lost true, r)  => (false, { r with executed := r.executed ++ [args] })

-- `redisCommand` on the connection of the instance.
def send (args : List CString) (r : Publisher) : Bool × Publisher :=
  let (ok, r') := r.command args
  (ok, if ok ∨ r.answer.1 = .error then r' else { r' with conn := some true })

def auth (r : Publisher) : Bool × Publisher :=
  if r.options.password = [] then (true, r) else r.command ["AUTH".toList, r.options.password]

def select (r : Publisher) : Bool × Publisher :=
  if r.options.database = 0 then (true, r) else r.command ["SELECT".toList, CString.ofNat r.options.database]

-- `redis_connect`. If it fails, the instance has no connection that is in order.
def connect (r : Publisher) : Bool × Publisher :=
  if r.conn = some false then (true, r)
  else andThen r.reach fun r => andThen r.auth fun r => andThen r.select fun r => (true, { r with conn := some false })

def disconnect (r : Publisher) : Publisher :=
  { r with conn := none }

-- It may fail to connect.
def start (r : Publisher) : Publisher :=
  let r := if r.options.shared then { r with ids := (Exec.usageInc r.ids r.name).2 } else r
  r.connect.2

def stop (r : Publisher) : Bool × Publisher :=
  if r.options.shared then
    let (n, ids) := Exec.usageDec r.ids r.name
    (true, if n > 0 then { r with ids } else { r with ids }.disconnect)
  else
    (true, r.disconnect)

def ban (ip : CString) (r : Publisher) : Bool × Publisher :=
  andThen r.connect fun r =>
  andThen (r.send ["HINCRBY".toList, r.hash, ip, "1".toList]) fun r =>
  r.send ["PUBLISH".toList, r.hash, ip]

-- Only some of the calls reach the server.
def ping (r : Publisher) : Bool × Publisher :=
  andThen r.connect fun r =>
  let pingNum := (r.pingNum + 1) % 2 ^ 8
  if pingNum < r.options.pingMax then (true, { r with pingNum })
  else { r with pingNum := 0 }.send ["PING".toList]

instance : Backend Publisher where
  ping       := ping
  check _ r  := (false, r)
  ban        := ban
  unban _ r  := (true, r)
  stop       := stop

-- The module is loaded anew with each start of a jail.
def restart (r : Publisher) : Publisher :=
  { r with conn := none, pingNum := 0 }.start

end Publisher
end F2b.Redis
