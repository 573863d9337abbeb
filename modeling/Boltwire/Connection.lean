import Boltwire.Lib.Future
import Boltwire.Framing
import Boltwire.Routing

namespace Boltwire
open Incremental

abbrev Body := List UInt8

/-- The reply to a request, given the requests before it. -/
abbrev Peer := List Body → Body → List UInt8

/-- What the environment does at one await. -/
inductive Choice
  /-- The IO completes; a read gets `n + 1` bytes, or all there are. -/
  | ready (n : ℕ)
  /-- The transport fails, after `k` bytes of a write went out. -/
  | fail (k : ℕ) (kind : ErrorKind)
  /-- The future is dropped, after `k` bytes of a write went out. -/
  | drop (k : ℕ)
  /-- The read deadline passes. -/
  | timeout
  /-- The peer has closed the connection. -/
  | eof
  deriving Repr, DecidableEq

/-- The transport. `sched` says what the environment does at each coming await, `sent`
is what has been delivered to the peer, and `inbound` what the peer has sent and the
client has not read. The peer gets a request when the last byte of its frame is
delivered. -/
structure Stream where
  sched : List Choice
  sent : List UInt8
  inbound : List UInt8
  /-- Ghost: the requests of every buffer handed to the transport. -/
  offered : List (List Request)
  deriving Repr

def received (sent : List UInt8) : List Body := ((messageCutter none).drain sent).items

def Peer.replies (peer : Peer) : List Body → List Body → List UInt8
  | _, [] => []
  | before, body :: bodies => peer before body ++ peer.replies (before ++ [body]) bodies

/-- Bytes reach the peer, which answers every request they complete. -/
def Stream.deliver (peer : Peer) (bytes : List UInt8) (st : Stream) : Stream :=
  let before := received st.sent
  let completed := (received (st.sent ++ bytes)).drop before.length
  { st with sent := st.sent ++ bytes, inbound := st.inbound ++ peer.replies before completed }

structure BoltConnection where
  stream : Stream
  /-- The session may not be READY. -/
  needsReset : Bool
  /-- Requests sent whose summary is still unread. -/
  pending : ℕ
  /-- Framing lost; nothing more may be sent or read. -/
  broken : Bool
  /-- Received bytes not yet consumed as a whole message. -/
  rbuf : List UInt8
  deriving Repr

structure QueryResult where
  columns : List String
  records : List (List BoltValue)
  deriving Repr

def metaStr (metadata : Meta) (key : String) : Option String :=
  (metadata.get key).bind BoltValue.asStr

def extractColumns (metadata : Meta) : List String :=
  ((metadata.get "fields").map BoltValue.asStrings).getD []

def expectSuccess (response : Response) (ctx : String) : Except BoltError Meta :=
  match response with
  | .success metadata => .ok metadata
  | .failure code message => .error (.failure code message)
  | other => .error (.protocol (.unexpectedResponse ctx other))

def validateBatch (batch : Int64) : Except BoltError Unit :=
  if batch = 0 ∨ batch.toInt < -1 then .error (.protocol (.invalidBatch batch)) else .ok ()

namespace BoltConnection

/-- An async method. It ends with an error of `?`, or by being dropped at an await, with
the connection left as it then stands. -/
abbrev Op := Future BoltConnection BoltError

variable (peer : Peer)

/-- The log of requests the peer has received on this connection. -/
def log (c : BoltConnection) : List Body := received c.stream.sent

def budget (c : BoltConnection) : ℕ :=
  c.stream.sched.length + c.rbuf.length + c.stream.inbound.length

def isReady (c : BoltConnection) : Bool := !c.broken && !c.needsReset && c.pending == 0

def isReusable (c : BoltConnection) : Bool := !c.broken && c.pending == 0

def setNeedsReset (b : Bool) : Op Unit := Future.modify fun c => { c with needsReset := b }

def setBroken (b : Bool) : Op Unit := Future.modify fun c => { c with broken := b }

def checkIntact : Op Unit := do
  let c ← Future.get
  if c.broken then
    Future.throw (.closed
      "connection is broken (an exchange was cut off mid-frame or the transport failed)")

def writeAll (bytes : List UInt8) : Op Unit := fun c =>
  match c.stream.sched with
  | [] => (.dropped, c)
  | choice :: sched =>
    let st := { c.stream with sched }
    match choice with
    | .ready _ => (.ok (), { c with stream := st.deliver peer bytes })
    | .fail k kind => (.err (.io kind), { c with stream := st.deliver peer (bytes.take k) })
    | .drop k => (.dropped, { c with stream := st.deliver peer (bytes.take k) })
    | _ => (.dropped, { c with stream := st })

/-- `stream.flush()`, and likewise `stream.shutdown()` -/
def flush : Op Unit := fun c =>
  match c.stream.sched with
  | [] => (.dropped, c)
  | choice :: sched =>
    let c := { c with stream := { c.stream with sched } }
    match choice with
    | .ready _ => (.ok (), c)
    | .fail _ kind => (.err (.io kind), c)
    | _ => (.dropped, c)

/-- Append whatever the socket has to the read buffer. A read with nothing to
read stays pending, so it can only be dropped, time out or fail. -/
def fill : Op Unit := fun c =>
  match c.stream.sched with
  | [] => (.dropped, c)
  | choice :: sched =>
    let st := { c.stream with sched }
    match choice with
    | .ready n =>
      if st.inbound = [] then (.dropped, { c with stream := st })
      else (.ok (), { c with
        stream := { st with inbound := st.inbound.drop (n + 1) }
        rbuf := c.rbuf ++ st.inbound.take (n + 1) })
    | .timeout => (.err (.timeout "read"), { c with stream := st })
    | .eof => (.err (.closed (if c.rbuf = [] then "connection closed by server"
        else "connection closed mid-message")), { c with stream := st, broken := true })
    | .fail _ kind => (.err (.io kind), { c with stream := st, broken := true })
    | .drop _ => (.dropped, { c with stream := st })

def writeBytes (bytes : List UInt8) : Op Unit := do
  setBroken true
  writeAll peer bytes
  flush
  setBroken false

def encodeAll : List Request → List UInt8 → Except BoltError (List UInt8)
  | [], out => .ok out
  | req :: reqs, out => do encodeAll reqs (← encode req out)

/-- Ghost: note the requests about to be written. -/
def offer (reqs : List Request) : Op Unit := Future.modify fun c =>
  { c with stream := { c.stream with offered := c.stream.offered ++ [reqs] } }

def writeMessages (reqs : List Request) : Op Unit := do
  checkIntact
  let out ← Future.ofExcept (encodeAll reqs [])
  offer reqs
  writeBytes peer out
  Future.modify fun c =>
    { c with pending := c.pending + (reqs.filter fun r => r.signature ≠ GOODBYE).length }

def writeMessage (req : Request) : Op Unit := writeMessages peer [req]

def takeMessage : Op (Option Body) := fun c =>
  match Boltwire.takeMessage c.rbuf with
  | .more rbuf => (.ok none, { c with rbuf })
  | .item body rbuf => (.ok (some body), { c with rbuf })
  | .fail e rbuf => (.err e, { c with rbuf, broken := true })

def readRound : Unit → Op (Unit ⊕ Body) := fun _ => do
  match ← takeMessage with
  | some body => return .inr body
  | none => do
    fill
    return .inl ()

def readBody : Op Body := Future.loop (fun c => c.stream.sched.length) readRound ()

/-- What `read_message` does with a body: an undecodable one breaks the
connection, a summary settles one reply owed. -/
def acceptBody (body : Body) : Op Response :=
  match decode body with
  | .error e => do
    setBroken true
    Future.throw e
  | .ok response => do
    if response.isSummary then Future.modify fun c => { c with pending := c.pending - 1 }
    return response

def readMessage : Op Response := do
  checkIntact
  let body ← readBody
  acceptBody body

/-- One round of `reset`: replies still owed to earlier requests are drained. -/
def resetRound : Unit → Op (Unit ⊕ Unit) := fun _ => do
  let response ← readMessage
  let c ← Future.get
  if 0 < c.pending then return .inl ()
  else match response with
    | .success _ => do
      setNeedsReset false
      return .inr ()
    | .failure code message => Future.throw (.failure code message)
    | other => Future.throw (.protocol (.unexpectedResponse "RESET" other))

def reset : Op Unit := do
  writeMessage peer Request.reset
  Future.loop budget resetRound ()

def ensureClean : Op Unit := do
  checkIntact
  let c ← Future.get
  if c.needsReset ∨ 0 < c.pending then reset peer

def failReset (code message : String) : Op BoltError := do
  let _ ← Future.attempt (reset peer)
  return .failure code message

def sendRunPull (query : String) (parameters extra : Meta) (n : Int64) :
    Op (List String × Option Int64) := do
  writeMessages peer [Request.run query parameters extra, Request.pull n none]
  match ← readMessage with
  | .success metadata => return (extractColumns metadata, (metadata.get "qid").bind BoltValue.asInt)
  | .failure code message => do Future.throw (← failReset peer code message)
  | other => Future.throw (.protocol (.unexpectedResponse "RUN" other))

def recordRound (records : List (List BoltValue)) :
    Op (List (List BoltValue) ⊕ List (List BoltValue)) := do
  match ← readMessage with
  | .record values => return .inl (records ++ [values])
  | .success _ => return .inr records
  | .failure code message => do Future.throw (← failReset peer code message)
  | .ignored => Future.throw (.protocol (.ignoredByServer "PULL"))

def runInner (query : String) (parameters extra : Meta) : Op QueryResult := do
  let (columns, _) ← sendRunPull peer query parameters extra (-1)
  let records ← Future.loop budget (recordRound peer) []
  return { columns, records }

def runWith (query : String) (parameters extra : Meta) : Op QueryResult := do
  ensureClean peer
  setNeedsReset true
  match ← Future.attempt (runInner peer query parameters extra) with
  | .ok result => do
    setNeedsReset false
    return result
  | .error e => Future.throw e

def run (query : String) (parameters : Meta) : Op QueryResult := runWith peer query parameters []

end BoltConnection

/-- The fields of `RecordStream` beside the connection it borrows. -/
structure StreamState where
  columns : List String
  qid : Option Int64
  batch : Int64
  buffer : List (List BoltValue)
  hasMore : Bool
  /-- A PULL was sent and its summary is unread. -/
  pullInFlight : Bool
  done : Bool
  summary : Option Meta
  deriving Repr

/-- A stream whose first batch is on its way, pipelined with RUN. -/
def StreamState.opened (columns : List String) (qid : Option Int64) (batch : Int64) : StreamState :=
  { columns, qid, batch, buffer := [], hasMore := true, pullInFlight := true, done := false,
    summary := none }

structure TxOptions where
  db : Option String
  readOnly : Bool
  timeoutMs : Option Int64
  bookmarks : List String
  metadata : Meta

def TxOptions.default : TxOptions := ⟨none, false, none, [], []⟩

def TxOptions.intoMeta (opts : TxOptions) : Meta :=
  let m : Meta := []
  let m := match opts.db with
    | some db => m.insert "db" (.string db)
    | none => m
  let m := if opts.readOnly then m.insert "mode" (.string "r") else m
  let m := match opts.timeoutMs with
    | some ms => m.insert "tx_timeout" (.int ms)
    | none => m
  let m := if opts.bookmarks ≠ [] then
      m.insert "bookmarks" (.list (opts.bookmarks.map BoltValue.string)) else m
  if opts.metadata ≠ [] then m.insert "tx_metadata" (.map opts.metadata) else m

namespace BoltConnection
variable (peer : Peer)

def runStreamWith (query : String) (parameters extra : Meta) (batch : Int64) : Op StreamState := do
  Future.ofExcept (validateBatch batch)
  ensureClean peer
  -- stays set while the stream is open; cleared once it is drained
  setNeedsReset true
  let (columns, qid) ← sendRunPull peer query parameters extra batch
  return .opened columns qid batch

def beginWith (opts : TxOptions) : Op Unit := do
  ensureClean peer
  setNeedsReset true
  writeMessage peer (Request.begin opts.intoMeta)
  let response ← readMessage
  let _ ← Future.ofExcept (expectSuccess response "BEGIN")
  setNeedsReset false

def route (context : Meta) (db : Option String) : Op RoutingTable := do
  ensureClean peer
  setNeedsReset true
  writeMessage peer (Request.route context db)
  match ← readMessage with
  | .success metadata => do
    setNeedsReset false
    Future.ofExcept (RoutingTable.fromMeta metadata)
  | .failure code message => do Future.throw (← failReset peer code message)
  | other => Future.throw (.protocol (.unexpectedResponse "ROUTE" other))

/-- Send GOODBYE, unless the connection is broken, and close the socket. -/
def close : Op Unit := do
  let c ← Future.get
  if !c.broken then writeMessage peer Request.goodbye
  flush

end BoltConnection

structure Transaction where
  conn : BoltConnection
  done : Bool

namespace Transaction
open BoltConnection

abbrev Op := Future Transaction BoltError

variable (peer : Peer)

def onConn {α : Type} (f : BoltConnection.Op α) : Op α :=
  Future.zoom conn (fun c t => { t with conn := c }) f

def setDone : Op Unit := Future.modify fun t => { t with done := true }

/-- An unfinished transaction is aborted by the next operation's RESET. -/
def drop (t : Transaction) : Transaction :=
  if t.done then t else { t with conn := { t.conn with needsReset := true } }

def guardOpen : Op Unit := do
  onConn checkIntact
  let t ← Future.get
  if t.conn.needsReset then do
    setDone
    Future.throw (.protocol .statementUnfinished)
  else if t.done then Future.throw (.protocol .transactionClosed)

def run (query : String) (parameters : Meta) : Op QueryResult := do
  guardOpen
  onConn (setNeedsReset true)
  match ← Future.attempt (onConn (runInner peer query parameters [])) with
  | .ok result => do
    onConn (setNeedsReset false)
    return result
  | .error e => do
    setDone
    Future.throw e

def runStream (query : String) (parameters : Meta) (batch : Int64) : Op StreamState := do
  Future.ofExcept (validateBatch batch)
  guardOpen
  onConn (setNeedsReset true)
  match ← Future.attempt (onConn (sendRunPull peer query parameters [] batch)) with
  | .ok (columns, qid) => return .opened columns qid batch
  | .error e => do
    setDone
    Future.throw e

def finishEnd (ctx : String) : Op Meta := do
  match ← onConn readMessage with
  | .success metadata => return metadata
  | .failure code message => do Future.throw (← onConn (failReset peer code message))
  | other => Future.throw (.protocol (.unexpectedResponse ctx other))

def commit : Op (Option String) :=
  Future.dropping (do
    guardOpen
    setDone
    onConn (setNeedsReset true)
    onConn (writeMessage peer Request.commit)
    let metadata ← finishEnd peer "COMMIT"
    onConn (setNeedsReset false)
    return metaStr metadata "bookmark") drop

/-- ROLLBACK. No-op if the transaction already died to a failed statement. -/
def rollback : Op Unit :=
  Future.dropping (do
    let t ← Future.get
    if t.done then return ()
    setDone
    onConn (setNeedsReset true)
    onConn (writeMessage peer Request.rollback)
    let _ ← finishEnd peer "ROLLBACK"
    onConn (setNeedsReset false)) drop

end Transaction

structure RecordStream extends StreamState where
  conn : BoltConnection

namespace RecordStream
open BoltConnection

abbrev Op := Future RecordStream BoltError

variable (peer : Peer)

def onConn {α : Type} (f : BoltConnection.Op α) : Op α :=
  Future.zoom conn (fun c s => { s with conn := c }) f

def setDone : Op Unit := Future.modify fun s => { s with done := true }

/-- A stream dropped before its end is recovered by the next operation's RESET. -/
def drop (s : RecordStream) : RecordStream :=
  if s.done then s else { s with conn := { s.conn with needsReset := true } }

def hasMoreOf (metadata : Meta) : Bool :=
  ((metadata.get "has_more").bind BoltValue.asBool).getD false

def fetchRound : Unit → Op (Unit ⊕ Unit) := fun _ => do
  match ← onConn readMessage with
  | .record values => do
    Future.modify fun s => { s with buffer := s.buffer ++ [values] }
    return .inl ()
  | .success metadata => do
    Future.modify fun s => { s with pullInFlight := false, hasMore := hasMoreOf metadata }
    if !hasMoreOf metadata then do
      Future.modify fun s => { s with summary := some metadata }
      onConn (setNeedsReset false)
    return .inr ()
  | .failure code message => do
    setDone
    Future.throw (← onConn (failReset peer code message))
  | .ignored => do
    setDone
    Future.throw (.protocol (.ignoredByServer "PULL"))

def fetchBatch : Op Unit := do
  let s ← Future.get
  if !s.pullInFlight then do
    onConn (writeMessage peer (Request.pull s.batch s.qid))
    Future.modify fun s => { s with pullInFlight := true }
  Future.loop (fun s => s.conn.budget) (fetchRound peer) ()

def nextRound : Unit → Op (Unit ⊕ Option (List BoltValue)) := fun _ => do
  let s ← Future.get
  match s.buffer with
  | row :: buffer => do
    Future.modify fun s => { s with buffer }
    return .inr (some row)
  | [] =>
    if s.done ∨ !s.hasMore then do
      setDone
      return .inr none
    else do
      fetchBatch peer
      return .inl ()

/-- Next record, fetching the next batch when the buffer runs dry. Every round
but the first awaits a write, which bounds the rounds. -/
def next : Op (Option (List BoltValue)) :=
  Future.loop (fun s => s.conn.stream.sched.length + 1) (nextRound peer) ()

def discardRound : Unit → Op (Unit ⊕ Meta) := fun _ => do
  match ← onConn readMessage with
  | .success metadata => do
    onConn (setNeedsReset false)
    return .inr metadata
  | .record _ => return .inl ()
  | .failure code message => do Future.throw (← onConn (failReset peer code message))
  | .ignored => Future.throw (.protocol (.ignoredByServer "DISCARD"))

/-- `finish` once no summary is there and no batch is in flight. -/
def discardRest : Op Meta := do
  setDone
  let s ← Future.get
  onConn (writeMessage peer (Request.discard (-1) s.qid))
  Future.loop (fun s => s.conn.budget) (discardRound peer) ()

/-- `self.summary.take()`, marking the stream done if there was one. -/
def takeSummary : Op (Option Meta) := do
  let s ← Future.get
  if s.summary.isSome then
    Future.modify fun s => { s with summary := none, done := true }
  return s.summary

def finish : Op Meta :=
  Future.dropping (do
    match ← takeSummary with
    | some summary => return summary
    | none => do
      let s ← Future.get
      if s.done then return []
      else if s.pullInFlight then do
        fetchBatch peer
        Future.modify fun s => { s with buffer := [] }
        match ← takeSummary with
        | some summary => return summary
        | none => discardRest peer
      else discardRest peer) drop

end RecordStream
end Boltwire
