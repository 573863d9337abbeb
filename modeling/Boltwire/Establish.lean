import Boltwire.Handshake
import Boltwire.Readiness
import Boltwire.Uri

namespace Boltwire
open Future Server BoltConnection

def DEFAULT_USER_AGENT : String := "boltwire/0.3.0 (Rust)"

/-- `BoltConnection` with the fields that are written while it is set up. -/
structure Setup where
  conn : BoltConnection
  version : Version
  serverAgent : Option String
  connectionId : Option String
  /-- The bytes of the handshake that have been delivered. -/
  greeting : List UInt8

namespace Setup

abbrev Op := Future Setup BoltError

def opened (sched : List Choice) : Setup :=
  ⟨⟨⟨sched, [], [], []⟩, false, 0, false, []⟩, ⟨0, 0⟩, none, none, []⟩

def onConn {α : Type} (f : BoltConnection.Op α) : Op α :=
  Future.zoom conn (fun c s => { s with conn := c }) f

def withSched (sched : List Choice) (s : Setup) : Setup :=
  { s with conn := { s.conn with stream := { s.conn.stream with sched } } }

/-- Bytes of the handshake reach the server, which replies to the last of them. -/
def greet (negotiate : List UInt8 → List UInt8) (bytes : List UInt8) (s : Setup) : Setup :=
  let greeting := s.greeting ++ bytes
  let reply := if s.greeting.length < 20 ∧ 20 ≤ greeting.length then negotiate greeting else []
  { s with
    greeting
    conn :=
      { s.conn with stream := { s.conn.stream with inbound := s.conn.stream.inbound ++ reply } } }

section
variable (negotiate : List UInt8 → List UInt8)

def writeAll (bytes : List UInt8) : Op Unit := fun s =>
  match s.conn.stream.sched with
  | [] => (.dropped, s)
  | choice :: sched =>
    let s := s.withSched sched
    match choice with
    | .ready _ => (.ok (), s.greet negotiate bytes)
    | .fail k kind => (.err (.io kind), s.greet negotiate (bytes.take k))
    | .drop k => (.dropped, s.greet negotiate (bytes.take k))
    | _ => (.dropped, s)

def writeBytes (bytes : List UInt8) : Op Unit := do
  onConn (setBroken true)
  writeAll negotiate bytes
  onConn flush
  onConn (setBroken false)

def versionRound : Unit → Op (Unit ⊕ Unit) := fun _ => do
  let s ← Future.get
  if s.conn.rbuf.length < 4 then do
    onConn fill
    return .inl ()
  else return .inr ()

def takeVersion : Op Version := do
  let s ← Future.get
  Future.modify fun s => { s with conn := { s.conn with rbuf := s.conn.rbuf.drop 4 } }
  return Version.decode (s.conn.rbuf.take 4)

def acceptVersion (version : Version) : Op Unit :=
  if version.isZero || !supported version then
    Future.throw (.version (toString version) SUPPORTED_RANGE)
  else Future.modify fun s => { s with version }

def handshake : Op Unit := do
  writeBytes negotiate clientHello
  Future.loop (fun s => s.conn.stream.sched.length) versionRound ()
  let version ← takeVersion
  acceptVersion version

end

section
variable (peer : Peer)

def demand (req : Request) (ctx : String) : Op Meta := do
  onConn (writeMessage peer req)
  let response ← onConn readMessage
  Future.ofExcept (expectSuccess response ctx)

def hello : Op Unit := do
  let metadata ← demand peer (Request.hello DEFAULT_USER_AGENT) "HELLO"
  Future.modify fun s => { s with
    serverAgent := metaStr metadata "server"
    connectionId := metaStr metadata "connection_id" }

end
end Setup

/-- The request that hands over the credentials, or says that there are none. -/
def Request.logon : Option Auth → Request
  | some a => logonBasic a.principal a.credentials
  | none => logonNone

/-- A server waiting for connections: how it answers the handshake, and then the
requests. Until it is asked something it says no more than the version. -/
structure Listener extends Server where
  negotiate : List UInt8 → List UInt8
  quiet : ∀ hello, dropNoops ((negotiate hello).drop 4) = []

namespace Setup
variable (negotiate : List UInt8 → List UInt8) (peer : Peer)

def establish (auth : Option Auth) : Op Unit := do
  handshake negotiate
  hello peer
  let _ ← demand peer (.logon auth) "LOGON"

/-- `tokio::time::timeout`: dropped with its time up, the future ends in an error. -/
def deadline {α : Type} (what : String) (passed : Bool) (f : Op α) : Op α := fun s =>
  match f s with
  | (.dropped, s') => (if passed then .err (.timeout what) else .dropped, s')
  | r => r

/-- `connect` and `connect_tls`: dialling the address and, with TLS, the handshake
of the provider come before the exchange of Bolt. -/
def connect (dialled : Except BoltError Unit) (auth : Option Auth) (passed : Bool) : Op Unit :=
  deadline "connect" passed (do
    Future.ofExcept dialled
    establish negotiate peer auth)

end Setup
end Boltwire
