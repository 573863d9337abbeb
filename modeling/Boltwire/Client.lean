import Boltwire.Connection

namespace Boltwire

/-- A connection as `connect` leaves it, with bytes received after the handshake. -/
def BoltConnection.connected (inbound rbuf : List UInt8) : BoltConnection :=
  ⟨⟨[], [], inbound, []⟩, false, 0, false, rbuf⟩

inductive Call
  | runWith (query : String) (parameters extra : Meta)
  | runStreamWith (query : String) (parameters extra : Meta) (batch : Int64)
  | beginWith (opts : TxOptions)
  | route (context : Meta) (db : Option String)
  | reset
  | close
  | next
  | finish
  | dropStream
  | txRun (query : String) (parameters : Meta)
  | txRunStream (query : String) (parameters : Meta) (batch : Int64)
  | commit
  | rollback
  | dropTx
  /-- `PooledConnection::drop`, with the pool closed or not. -/
  | release (poolClosed : Bool)
  /-- `Pool::get` pops this connection, expired or not. -/
  | checkout (expired : Bool)

inductive Reply
  | unit
  | result (result : QueryResult)
  | columns (columns : List String)
  | row (row : Option (List BoltValue))
  | metadata (metadata : Meta)
  | table (table : RoutingTable)
  | bookmark (bookmark : Option String)

/-- Ghost: what is remembered about a transaction. -/
structure TxHistory where
  /-- How many requests the server had received when BEGIN succeeded, with BEGIN. -/
  begun : ℕ
  /-- One of its streams ended in a FAILURE, and the RESET sent for it succeeded. -/
  recovered : Bool
  deriving Repr, DecidableEq

/-- Ghost: note how a call of one of the transaction's streams ended. -/
def TxHistory.after {α : Type} (h : TxHistory) (o : Outcome BoltError α) (c : BoltConnection) :
    TxHistory :=
  match o with
  | .err (.failure _ _) => { h with recovered := h.recovered || !c.needsReset }
  | _ => h

/-- Who holds the connection. A free one is owned, or checked out of a pool. -/
inductive Client
  | free (c : BoltConnection)
  | idle (c : BoltConnection)
  | gone (c : BoltConnection)
  /-- Ghost: `start` requests had been received when `run_stream` was called. -/
  | streaming (start : ℕ) (s : RecordStream)
  | inTx (h : TxHistory) (t : Transaction)
  | txStreaming (h : TxHistory) (done : Bool) (start : ℕ) (s : RecordStream)

namespace Client
open BoltConnection

def conn : Client → BoltConnection
  | free c | idle c | gone c => c
  | streaming _ s => s.conn
  | inTx _ t => t.conn
  | txStreaming _ _ _ s => s.conn

def mapConn (f : BoltConnection → BoltConnection) : Client → Client
  | free c => free (f c)
  | idle c => idle (f c)
  | gone c => gone (f c)
  | streaming start s => streaming start { s with conn := f s.conn }
  | inTx h t => inTx h { t with conn := f t.conn }
  | txStreaming h done start s => txStreaming h done start { s with conn := f s.conn }

/-- A connection just set up; NOOPs may have arrived, cut anywhere. -/
def fresh (noops cut : ℕ) : Client :=
  let arrived := List.replicate (2 * noops) 0
  .free (connected (arrived.drop cut) (arrived.take cut))

def free? : Client → Option BoltConnection
  | free c => some c
  | _ => none

def tx? : Client → Option (TxHistory × Transaction)
  | inTx h t => some (h, t)
  | _ => none

theorem free?_eq_some {client : Client} {c : BoltConnection} :
    client.free? = some c ↔ client = .free c := by
  cases client <;> simp [free?]

theorem tx?_eq_some {client : Client} {h : TxHistory} {t : Transaction} :
    client.tx? = some (h, t) ↔ client = .inTx h t := by
  cases client <;> simp [tx?]

def withSched (sched : List Choice) : Client → Client :=
  mapConn fun c => { c with stream := { c.stream with sched } }

variable (peer : Peer)

def onFree {α : Type} (op : BoltConnection.Op α) (reply : α → Reply) (c : BoltConnection) :
    Outcome BoltError Reply × Client :=
  ((op c).1.map reply, .free (op c).2)

def exec : Call → Client → Option (Outcome BoltError Reply × Client)
  | .runWith query parameters extra, .free c =>
    some (onFree (runWith peer query parameters extra) .result c)
  | .runStreamWith query parameters extra batch, .free c =>
    match runStreamWith peer query parameters extra batch c with
    | (.ok s, c') => some (.ok (.columns s.columns), .streaming c.log.length ⟨s, c'⟩)
    | (.err e, c') => some (.err e, .free c')
    | (.dropped, c') => some (.dropped, .free c')
  | .beginWith opts, .free c =>
    match beginWith peer opts c with
    | (.ok _, c') => some (.ok .unit, .inTx ⟨c'.log.length, false⟩ ⟨c', false⟩)
    | (.err e, c') => some (.err e, .free c')
    | (.dropped, c') => some (.dropped, .free c')
  | .route context db, .free c => some (onFree (route peer context db) .table c)
  | .reset, .free c => some (onFree (reset peer) (fun _ => .unit) c)
  | .close, .free c | .close, .idle c =>
    some ((close peer c).1.map fun _ => .unit, .gone (close peer c).2)
  | .next, .streaming start s =>
    some ((RecordStream.next peer s).1.map .row, .streaming start (RecordStream.next peer s).2)
  | .finish, .streaming _ s =>
    some ((RecordStream.finish peer s).1.map .metadata, .free (RecordStream.finish peer s).2.conn)
  | .dropStream, .streaming _ s => some (.ok .unit, .free s.drop.conn)
  | .txRun query parameters, .inTx h t =>
    some ((Transaction.run peer query parameters t).1.map .result,
      .inTx h (Transaction.run peer query parameters t).2)
  | .txRunStream query parameters batch, .inTx h t =>
    match Transaction.runStream peer query parameters batch t with
    | (.ok s, t') =>
      some (.ok (.columns s.columns), .txStreaming h t'.done t.conn.log.length ⟨s, t'.conn⟩)
    | (.err e, t') => some (.err e, .inTx h t')
    | (.dropped, t') => some (.dropped, .inTx h t')
  | .commit, .inTx _ t =>
    some ((Transaction.commit peer t).1.map .bookmark, .free (Transaction.commit peer t).2.conn)
  | .rollback, .inTx _ t =>
    some ((Transaction.rollback peer t).1.map fun _ => .unit,
      .free (Transaction.rollback peer t).2.conn)
  | .dropTx, .inTx _ t => some (.ok .unit, .free t.drop.conn)
  | .next, .txStreaming h done start s =>
    let (o, s') := RecordStream.next peer s
    some (o.map .row, .txStreaming (h.after o s'.conn) done start s')
  | .finish, .txStreaming h done _ s =>
    let (o, s') := RecordStream.finish peer s
    some (o.map .metadata, .inTx (h.after o s'.conn) ⟨s'.conn, done⟩)
  | .dropStream, .txStreaming h done _ s => some (.ok .unit, .inTx h ⟨s.drop.conn, done⟩)
  | .release poolClosed, .free c =>
    some (.ok .unit, if c.isReusable && !poolClosed then .idle c else .gone c)
  | .checkout expired, .idle c =>
    if expired || !c.isReusable then some (.dropped, .gone c)
    else match reset peer c with
      | (.ok _, c') => some (.ok .unit, .free c')
      | (_, c') => some (.dropped, .gone c')
  | _, _ => none

inductive Effect : Call → Client → Outcome BoltError Reply → Client → Prop
  | runWith {query : String} {parameters extra : Meta} {c c' : BoltConnection}
      {o : Outcome BoltError QueryResult} : runWith peer query parameters extra c = (o, c') →
    Effect (.runWith query parameters extra) (.free c) (o.map .result) (.free c')
  | opened {query : String} {parameters extra : Meta} {batch : Int64} {c c' : BoltConnection}
      {s : StreamState} : runStreamWith peer query parameters extra batch c = (.ok s, c') →
    Effect (.runStreamWith query parameters extra batch) (.free c) (.ok (.columns s.columns))
      (.streaming c.log.length ⟨s, c'⟩)
  | unopened {query : String} {parameters extra : Meta} {batch : Int64} {c c' : BoltConnection}
      {o : Outcome BoltError StreamState} :
    runStreamWith peer query parameters extra batch c = (o, c') → (∀ s, o ≠ .ok s) →
    Effect (.runStreamWith query parameters extra batch) (.free c)
      (o.map fun s => .columns s.columns) (.free c')
  | begun {opts : TxOptions} {c c' : BoltConnection} : beginWith peer opts c = (.ok (), c') →
    Effect (.beginWith opts) (.free c) (.ok .unit)
    (.inTx ⟨c'.log.length, false⟩ ⟨c', false⟩)
  | unbegun {opts : TxOptions} {c c' : BoltConnection} {o : Outcome BoltError Unit} :
    beginWith peer opts c = (o, c') → o ≠ .ok () →
    Effect (.beginWith opts) (.free c) (o.map fun _ => .unit) (.free c')
  | route {context : Meta} {db : Option String} {c c' : BoltConnection}
      {o : Outcome BoltError RoutingTable} : route peer context db c = (o, c') →
    Effect (.route context db) (.free c) (o.map .table) (.free c')
  | reset {c c' : BoltConnection} {o : Outcome BoltError Unit} : reset peer c = (o, c') →
    Effect .reset (.free c) (o.map fun _ => .unit) (.free c')
  | close {client : Client} {c c' : BoltConnection} {o : Outcome BoltError Unit} :
    client = .free c ∨ client = .idle c → close peer c = (o, c') →
    Effect .close client (o.map fun _ => .unit) (.gone c')
  | next {start : ℕ} {s s' : RecordStream} {o : Outcome BoltError (Option (List BoltValue))} :
    RecordStream.next peer s = (o, s') →
    Effect .next (.streaming start s) (o.map .row) (.streaming start s')
  | finish {start : ℕ} {s s' : RecordStream} {o : Outcome BoltError Meta} :
    RecordStream.finish peer s = (o, s') →
    Effect .finish (.streaming start s) (o.map .metadata) (.free s'.conn)
  | dropStream {start : ℕ} {s : RecordStream} :
    Effect .dropStream (.streaming start s) (.ok .unit) (.free s.drop.conn)
  | txRun {query : String} {parameters : Meta} {h : TxHistory} {t t' : Transaction}
      {o : Outcome BoltError QueryResult} : Transaction.run peer query parameters t = (o, t') →
    Effect (.txRun query parameters) (.inTx h t) (o.map .result) (.inTx h t')
  | txOpened {query : String} {parameters : Meta} {batch : Int64} {h : TxHistory}
      {t t' : Transaction} {s : StreamState} :
    Transaction.runStream peer query parameters batch t = (.ok s, t') →
    Effect (.txRunStream query parameters batch) (.inTx h t) (.ok (.columns s.columns))
      (.txStreaming h t'.done t.conn.log.length ⟨s, t'.conn⟩)
  | txUnopened {query : String} {parameters : Meta} {batch : Int64} {h : TxHistory}
      {t t' : Transaction} {o : Outcome BoltError StreamState} :
    Transaction.runStream peer query parameters batch t = (o, t') → (∀ s, o ≠ .ok s) →
    Effect (.txRunStream query parameters batch) (.inTx h t) (o.map fun s => .columns s.columns)
      (.inTx h t')
  | commit {h : TxHistory} {t t' : Transaction} {o : Outcome BoltError (Option String)} :
    Transaction.commit peer t = (o, t') →
    Effect .commit (.inTx h t) (o.map .bookmark) (.free t'.conn)
  | rollback {h : TxHistory} {t t' : Transaction} {o : Outcome BoltError Unit} :
    Transaction.rollback peer t = (o, t') →
    Effect .rollback (.inTx h t) (o.map fun _ => .unit) (.free t'.conn)
  | dropTx {h : TxHistory} {t : Transaction} :
    Effect .dropTx (.inTx h t) (.ok .unit) (.free t.drop.conn)
  | txNext {h : TxHistory} {done : Bool} {start : ℕ} {s s' : RecordStream}
      {o : Outcome BoltError (Option (List BoltValue))} : RecordStream.next peer s = (o, s') →
    Effect .next (.txStreaming h done start s) (o.map .row)
      (.txStreaming (h.after o s'.conn) done start s')
  | txFinish {h : TxHistory} {done : Bool} {start : ℕ} {s s' : RecordStream}
      {o : Outcome BoltError Meta} : RecordStream.finish peer s = (o, s') →
    Effect .finish (.txStreaming h done start s) (o.map .metadata)
      (.inTx (h.after o s'.conn) ⟨s'.conn, done⟩)
  | txDropStream {h : TxHistory} {done : Bool} {start : ℕ} {s : RecordStream} :
    Effect .dropStream (.txStreaming h done start s) (.ok .unit) (.inTx h ⟨s.drop.conn, done⟩)
  | released {poolClosed : Bool} {c : BoltConnection} : c.isReusable = true →
    Effect (.release poolClosed) (.free c) (.ok .unit) (.idle c)
  | discarded {poolClosed : Bool} {c : BoltConnection} :
    Effect (.release poolClosed) (.free c) (.ok .unit) (.gone c)
  | checkedOut {expired : Bool} {c c' : BoltConnection} : c.isReusable = true →
    BoltConnection.reset peer c = (.ok (), c') →
    Effect (.checkout expired) (.idle c) (.ok .unit) (.free c')
  | expired {expired : Bool} {c c' : BoltConnection} :
    c' = c ∨ c' = (BoltConnection.reset peer c).2 →
    Effect (.checkout expired) (.idle c) .dropped (.gone c')

variable {peer} in
theorem exec_effect {call : Call} {client client' : Client} {o : Outcome BoltError Reply}
    (h : exec peer call client = some (o, client')) : Effect peer call client o client' := by
  unfold exec at h
  split at h
  case h_2 =>
    split at h <;> rename_i hr <;> cases h
    · exact .opened hr
    · exact .unopened hr (by simp)
    · exact .unopened hr (by simp)
  case h_3 =>
    split at h <;> rename_i hr <;> cases h
    · exact .begun hr
    · exact .unbegun hr (by simp)
    · exact .unbegun hr (by simp)
  case h_12 =>
    split at h <;> rename_i hr <;> cases h
    · exact .txOpened hr
    · exact .txUnopened hr (by simp)
    · exact .txUnopened hr (by simp)
  case h_19 c =>
    cases h
    split_ifs with hc
    · exact .released (by simp_all)
    · exact .discarded
  case h_20 c =>
    split_ifs at h with hc
    · cases h
      exact .expired (.inl rfl)
    · split at h <;> rename_i hr <;> cases h
      · exact .checkedOut (by simp_all) hr
      · exact .expired (.inr (by rw [hr]))
  case h_21 => cases h
  all_goals cases h
  · exact .runWith rfl
  · exact .route rfl
  · exact .reset rfl
  · exact .close (.inl rfl) rfl
  · exact .close (.inr rfl) rfl
  · exact .next rfl
  · exact .finish rfl
  · exact .dropStream
  · exact .txRun rfl
  · exact .commit rfl
  · exact .rollback rfl
  · exact .dropTx
  · exact .txNext rfl
  · exact .txFinish rfl
  · exact .txDropStream

def Step (call : Call) (client : Client) (o : Outcome BoltError Reply) (client' : Client) : Prop :=
  ∃ sched, exec peer call (client.withSched sched) = some (o, client')

/-- A history, every call of which meets `ok` where it is made. -/
inductive Run (ok : Call → Client → Prop) : Client → Client → Prop
  | refl (client : Client) : Run ok client client
  | step {client₀ client client' : Client} {call : Call} {o : Outcome BoltError Reply} :
    Run ok client₀ client → ok call client → Step peer call client o client' →
    Run ok client₀ client'

abbrev History : Client → Client → Prop := Run peer fun _ _ => True

def play (client : Client) : List (Call × List Choice) → Option Client
  | [] => some client
  | (call, sched) :: calls =>
    match exec peer call (client.withSched sched) with
    | some (_, client') => play client' calls
    | none => none

def observe (client : Client) (calls : List (Call × List Choice)) (call : Call)
    (sched : List Choice)
    (look : Client → Outcome BoltError Reply → Client → Bool) : Option Bool :=
  match play peer client calls with
  | some client₁ => (exec peer call (client₁.withSched sched)).map fun r =>
      look client₁ r.1 r.2
  | none => none

variable {peer} {ok : Call → Client → Prop}

theorem play_run {client client' : Client} {calls : List (Call × List Choice)}
    (hok : ∀ c ∈ calls, ∀ client, ok c.1 client) (h : play peer client calls = some client') :
    Run peer ok client client' := by
  suffices hplay : ∀ client₀, Run peer ok client₀ client →
      Run peer ok client₀ client' from
    hplay client (.refl client)
  induction calls generalizing client with
  | nil =>
    cases h
    exact fun _ => id
  | cons first calls ih =>
    obtain ⟨call, sched⟩ := first
    intro client₀ hrun
    cases he : exec peer call (client.withSched sched) with
    | none => simp [play, he] at h
    | some r =>
      simp only [play, he] at h
      have hstep : Step peer call client r.1 r.2 := ⟨sched, he⟩
      refine ih (fun c hc => hok c (List.mem_cons_of_mem _ hc)) h client₀ ?_
      exact hrun.step (hok _ (List.mem_cons_self ..) client) hstep

theorem observe_step {client : Client} {calls : List (Call × List Choice)} {call : Call}
    {sched : List Choice} {look : Client → Outcome BoltError Reply → Client → Bool}
    (hok : ∀ c ∈ calls, ∀ client, ok c.1 client)
    (h : observe peer client calls call sched look = some true) :
    ∃ client₁ o client₂, Run peer ok client client₁ ∧
      Step peer call client₁ o client₂ ∧ look client₁ o client₂ = true := by
  unfold observe at h
  split at h
  case h_2 => cases h
  case h_1 client₁ hplay =>
    cases he : exec peer call (client₁.withSched sched) with
    | none => simp [he] at h
    | some r =>
      rw [he, Option.map_some, Option.some.injEq] at h
      exact ⟨client₁, r.1, r.2, play_run hok hplay, ⟨sched, he⟩, h⟩

theorem observe_history {client : Client} {calls : List (Call × List Choice)} {call : Call}
    {sched : List Choice} {look : Client → Outcome BoltError Reply → Client → Bool}
    (h : observe peer client calls call sched look = some true) :
    ∃ client₁ o client₂, History peer client client₁ ∧
      Step peer call client₁ o client₂ ∧ look client₁ o client₂ = true :=
  observe_step (fun _ _ _ => trivial) h

end Client
end Boltwire
