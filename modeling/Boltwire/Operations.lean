import Boltwire.Client
import Boltwire.Session

namespace Boltwire
open Future

/-- The primitives of the connection stay within `R`. -/
structure Primitive (peer : Peer) (R : BoltConnection → BoltConnection → Prop) : Prop where
  needsReset : ∀ c b, R c { c with needsReset := b }
  write : ∀ reqs, Keeps R (BoltConnection.writeMessages peer reqs)
  read : Keeps R BoltConnection.readMessage
  flush : Keeps R BoltConnection.flush
  sched : ∀ c sched, R c { c with stream := { c.stream with sched } }

/-- The same before the GOODBYE. -/
structure OpenPrimitive (peer : Peer) (R : BoltConnection → BoltConnection → Prop) : Prop where
  needsReset : ∀ c b, R c { c with needsReset := b }
  write : ∀ reqs, (∀ req ∈ reqs, BoltConnection.Plain req) →
    Keeps R (BoltConnection.writeMessages peer reqs)
  read : Keeps R BoltConnection.readMessage
  sched : ∀ c sched, R c { c with stream := { c.stream with sched } }

variable {peer : Peer} {R : BoltConnection → BoltConnection → Prop}

theorem Primitive.opened (hR : Primitive peer R) : OpenPrimitive peer R :=
  ⟨hR.needsReset, fun reqs _ => hR.write reqs, hR.read, hR.sched⟩

theorem OpenPrimitive.writeMessage (hR : OpenPrimitive peer R) {req : Request}
    (hreq : BoltConnection.Plain req) : Keeps R (BoltConnection.writeMessage peer req) :=
  hR.write [req] (by simpa using hreq)

namespace Transaction

abbrev Rel (R : BoltConnection → BoltConnection → Prop) : Transaction →
    Transaction → Prop :=
  Order.Preimage conn R

theorem keeps_onConn {α : Type} {f : BoltConnection.Op α} (h : Keeps R f) :
    Keeps (Rel R) (onConn f) :=
  h.zoom fun _ _ hs => hs

end Transaction

namespace RecordStream

abbrev Rel (R : BoltConnection → BoltConnection → Prop) : RecordStream →
    RecordStream → Prop :=
  Order.Preimage conn R

theorem keeps_onConn {α : Type} {f : BoltConnection.Op α} (h : Keeps R f) :
    Keeps (Rel R) (onConn f) :=
  h.zoom fun _ _ hs => hs

end RecordStream

variable [IsPreorder BoltConnection R]

theorem BoltConnection.keeps_checkIntact : Keeps R checkIntact := by
  refine Keeps.get.bind fun c => ?_
  split_ifs
  · exact Keeps.throw _
  · exact Keeps.pure _

namespace Transaction

theorem keeps_setDone : Keeps (Rel R) setDone := Keeps.modify fun t => refl_of R t.conn

theorem keeps_guardOpen : Keeps (Rel R) guardOpen := by
  refine (keeps_onConn BoltConnection.keeps_checkIntact).bind fun _ => Keeps.get.bind fun t => ?_
  split_ifs
  · exact keeps_setDone.bind fun _ => Keeps.throw _
  · exact Keeps.throw _
  · exact Keeps.pure _

end Transaction

namespace RecordStream

/-- Assignments to the stream's own fields. -/
theorem keeps_fields {f : RecordStream → RecordStream} (h : ∀ s, (f s).conn = s.conn) :
    Keeps (Rel R) (modify f : Op Unit) := by
  refine Keeps.modify fun s => ?_
  change R s.conn (f s).conn
  rw [h s]
  exact refl_of R s.conn

theorem keeps_takeSummary : Keeps (Rel R) takeSummary := by
  refine Keeps.get.bind fun s => ?_
  split_ifs
  · exact (keeps_fields (by intro s; rfl)).bind fun _ => Keeps.pure _
  · exact Keeps.pure _

end RecordStream

variable (hR : OpenPrimitive peer R)
include hR

namespace BoltConnection

omit [IsPreorder BoltConnection R] in
theorem keeps_setNeedsReset (b : Bool) : Keeps R (setNeedsReset b) :=
  Keeps.modify fun c => hR.needsReset c b

theorem keeps_resetRound : Keeps R (resetRound ()) := by
  refine hR.read.bind fun response => Keeps.get.bind fun c => ?_
  split_ifs
  · exact Keeps.pure _
  · cases response with
    | success m => exact (keeps_setNeedsReset hR false).bind fun _ => Keeps.pure _
    | record v => exact Keeps.throw _
    | failure code message => exact Keeps.throw _
    | ignored => exact Keeps.throw _

theorem keeps_reset : Keeps R (reset peer) :=
  (hR.write _ plain_reset).bind fun _ => Keeps.loop (fun _ => keeps_resetRound hR) ()

theorem keeps_ensureClean : Keeps R (ensureClean peer) := by
  refine keeps_checkIntact.bind fun _ => Keeps.get.bind fun c => ?_
  split_ifs
  · exact keeps_reset hR
  · exact Keeps.pure _

theorem keeps_failReset (code message : String) : Keeps R (failReset peer code message) :=
  (keeps_reset hR).attempt.bind fun _ => Keeps.pure _

theorem keeps_sendRunPull (query : String) (parameters extra : Meta) (n : Int64) :
    Keeps R (sendRunPull peer query parameters extra n) := by
  refine (hR.write _ (plain_runPull _ _ _ _)).bind fun _ => hR.read.bind fun response => ?_
  cases response with
  | success m => exact Keeps.pure _
  | failure code message => exact (keeps_failReset hR code message).bind fun _ => Keeps.throw _
  | record v => exact Keeps.throw _
  | ignored => exact Keeps.throw _

theorem keeps_recordRound (records : List (List BoltValue)) :
    Keeps R (recordRound peer records) := by
  refine hR.read.bind fun response => ?_
  cases response with
  | record v => exact Keeps.pure _
  | success m => exact Keeps.pure _
  | failure code message => exact (keeps_failReset hR code message).bind fun _ => Keeps.throw _
  | ignored => exact Keeps.throw _

theorem keeps_runInner (query : String) (parameters extra : Meta) :
    Keeps R (runInner peer query parameters extra) := by
  refine (keeps_sendRunPull hR query parameters extra (-1)).bind fun _ => ?_
  exact (Keeps.loop (keeps_recordRound hR) []).bind fun _ => Keeps.pure _

theorem keeps_runWith (query : String) (parameters extra : Meta) :
    Keeps R (runWith peer query parameters extra) := by
  refine (keeps_ensureClean hR).bind fun _ => (keeps_setNeedsReset hR true).bind fun _ => ?_
  refine (keeps_runInner hR query parameters extra).attempt.bind fun result => ?_
  cases result with
  | ok result => exact (keeps_setNeedsReset hR false).bind fun _ => Keeps.pure _
  | error e => exact Keeps.throw _

theorem keeps_runStreamWith (query : String) (parameters extra : Meta) (batch : Int64) :
    Keeps R (runStreamWith peer query parameters extra batch) := by
  refine (Keeps.ofExcept _).bind fun _ => (keeps_ensureClean hR).bind fun _ => ?_
  refine (keeps_setNeedsReset hR true).bind fun _ => ?_
  exact (keeps_sendRunPull hR query parameters extra batch).bind fun _ => Keeps.pure _

theorem keeps_beginWith (opts : TxOptions) : Keeps R (beginWith peer opts) := by
  refine (keeps_ensureClean hR).bind fun _ => (keeps_setNeedsReset hR true).bind fun _ => ?_
  refine (hR.writeMessage (plain_begin _)).bind fun _ => hR.read.bind fun response => ?_
  exact (Keeps.ofExcept _).bind fun _ => keeps_setNeedsReset hR false

theorem keeps_route (context : Meta) (db : Option String) : Keeps R (route peer context db) := by
  refine (keeps_ensureClean hR).bind fun _ => (keeps_setNeedsReset hR true).bind fun _ => ?_
  refine (hR.writeMessage (plain_route _ _)).bind fun _ => hR.read.bind fun response => ?_
  cases response with
  | success m => exact (keeps_setNeedsReset hR false).bind fun _ => Keeps.ofExcept _
  | failure code message => exact (keeps_failReset hR code message).bind fun _ => Keeps.throw _
  | record v => exact Keeps.throw _
  | ignored => exact Keeps.throw _

end BoltConnection

namespace Transaction

theorem rel_drop (t : Transaction) : Rel R t t.drop := by
  unfold drop
  split_ifs
  · exact refl_of R t.conn
  · exact hR.needsReset t.conn true

theorem keeps_run (query : String) (parameters : Meta) :
    Keeps (Rel R) (run peer query parameters) := by
  refine keeps_guardOpen.bind fun _ => ?_
  refine (keeps_onConn (BoltConnection.keeps_setNeedsReset hR true)).bind fun _ => ?_
  refine (keeps_onConn (BoltConnection.keeps_runInner hR query parameters [])).attempt.bind
    fun r => ?_
  cases r with
  | ok r =>
    exact (keeps_onConn (BoltConnection.keeps_setNeedsReset hR false)).bind fun _ => Keeps.pure _
  | error e => exact keeps_setDone.bind fun _ => Keeps.throw _

theorem keeps_runStream (query : String) (parameters : Meta) (batch : Int64) :
    Keeps (Rel R) (runStream peer query parameters batch) := by
  refine (Keeps.ofExcept _).bind fun _ => keeps_guardOpen.bind fun _ => ?_
  refine (keeps_onConn (BoltConnection.keeps_setNeedsReset hR true)).bind fun _ => ?_
  refine (keeps_onConn (BoltConnection.keeps_sendRunPull hR query parameters [] batch)).attempt.bind
    fun r => ?_
  cases r with
  | ok r => exact Keeps.pure _
  | error e => exact keeps_setDone.bind fun _ => Keeps.throw _

theorem keeps_finishEnd (ctx : String) : Keeps (Rel R) (finishEnd peer ctx) := by
  refine (keeps_onConn hR.read).bind fun response => ?_
  cases response with
  | success m => exact Keeps.pure _
  | failure code message =>
    exact (keeps_onConn (BoltConnection.keeps_failReset hR code message)).bind fun _ =>
      Keeps.throw _
  | record v => exact Keeps.throw _
  | ignored => exact Keeps.throw _

theorem keeps_commit : Keeps (Rel R) (commit peer) := by
  refine Keeps.dropping ?_ (rel_drop hR)
  refine keeps_guardOpen.bind fun _ => keeps_setDone.bind fun _ => ?_
  refine (keeps_onConn (BoltConnection.keeps_setNeedsReset hR true)).bind fun _ => ?_
  refine (keeps_onConn (hR.writeMessage BoltConnection.plain_commit)).bind fun _ =>
    (keeps_finishEnd hR _).bind fun _ => ?_
  exact (keeps_onConn (BoltConnection.keeps_setNeedsReset hR false)).bind fun _ => Keeps.pure _

theorem keeps_rollback : Keeps (Rel R) (rollback peer) := by
  refine Keeps.dropping ?_ (rel_drop hR)
  refine Keeps.get.bind fun t => ?_
  split_ifs
  · exact Keeps.pure _
  · refine keeps_setDone.bind fun _ => ?_
    refine (keeps_onConn (BoltConnection.keeps_setNeedsReset hR true)).bind fun _ => ?_
    refine (keeps_onConn (hR.writeMessage BoltConnection.plain_rollback)).bind fun _ =>
      (keeps_finishEnd hR _).bind fun _ => ?_
    exact keeps_onConn (BoltConnection.keeps_setNeedsReset hR false)

end Transaction

namespace RecordStream

theorem rel_drop (s : RecordStream) : Rel R s s.drop := by
  unfold drop
  split_ifs
  · exact refl_of R s.conn
  · exact hR.needsReset s.conn true

theorem keeps_failReset (code message : String) {α : Type} :
    Keeps (Rel R) (do throw (← onConn (BoltConnection.failReset peer code message)) : Op α) :=
  (keeps_onConn (BoltConnection.keeps_failReset hR code message)).bind fun _ => Keeps.throw _

theorem keeps_fetchRound : Keeps (Rel R) (fetchRound peer ()) := by
  refine (keeps_onConn hR.read).bind fun response => ?_
  cases response with
  | record v => exact (keeps_fields (by intro s; rfl)).bind fun _ => Keeps.pure _
  | success m =>
    refine (keeps_fields (by intro s; rfl)).bind fun _ => ?_
    split_ifs
    · refine (keeps_fields (by intro s; rfl)).bind fun _ => ?_
      exact (keeps_onConn (BoltConnection.keeps_setNeedsReset hR false)).bind fun _ => Keeps.pure _
    · exact Keeps.pure _
  | failure code message =>
    exact (keeps_fields (by intro s; rfl)).bind fun _ => keeps_failReset hR _ _
  | ignored => exact (keeps_fields (by intro s; rfl)).bind fun _ => Keeps.throw _

theorem keeps_fetchBatch : Keeps (Rel R) (fetchBatch peer) := by
  refine Keeps.get.bind fun s => ?_
  split_ifs
  · refine (keeps_onConn (hR.writeMessage (BoltConnection.plain_pull _ _))).bind fun _ =>
      (keeps_fields (by intro s; rfl)).bind fun _ => ?_
    exact Keeps.loop (fun _ => keeps_fetchRound hR) ()
  · exact (Keeps.pure _).bind fun _ => Keeps.loop (fun _ => keeps_fetchRound hR) ()

theorem keeps_nextRound : Keeps (Rel R) (nextRound peer ()) := by
  refine Keeps.get.bind fun s => ?_
  split
  · exact (keeps_fields (by intro s; rfl)).bind fun _ => Keeps.pure _
  · split_ifs
    · exact (keeps_fields (by intro s; rfl)).bind fun _ => Keeps.pure _
    · exact (keeps_fetchBatch hR).bind fun _ => Keeps.pure _

theorem keeps_next : Keeps (Rel R) (next peer) := Keeps.loop (fun _ => keeps_nextRound hR) ()

theorem keeps_discardRound : Keeps (Rel R) (discardRound peer ()) := by
  refine (keeps_onConn hR.read).bind fun response => ?_
  cases response with
  | success m =>
    exact (keeps_onConn (BoltConnection.keeps_setNeedsReset hR false)).bind fun _ => Keeps.pure _
  | record v => exact Keeps.pure _
  | failure code message => exact keeps_failReset hR _ _
  | ignored => exact Keeps.throw _

theorem keeps_discardRest : Keeps (Rel R) (discardRest peer) := by
  refine (keeps_fields (by intro s; rfl)).bind fun _ => Keeps.get.bind fun s => ?_
  exact (keeps_onConn (hR.writeMessage (BoltConnection.plain_discard _ _))).bind fun _ =>
    Keeps.loop (fun _ => keeps_discardRound hR) ()

theorem keeps_finish : Keeps (Rel R) (finish peer) := by
  refine Keeps.dropping ?_ (rel_drop hR)
  refine keeps_takeSummary.bind fun summary => ?_
  cases summary with
  | some m => exact Keeps.pure _
  | none =>
    refine Keeps.get.bind fun s => ?_
    split_ifs
    · exact Keeps.pure _
    · refine (keeps_fetchBatch hR).bind fun _ => (keeps_fields (by intro s; rfl)).bind fun _ => ?_
      refine keeps_takeSummary.bind fun summary => ?_
      cases summary with
      | some m => exact Keeps.pure _
      | none => exact keeps_discardRest hR
    · exact keeps_discardRest hR

end RecordStream

namespace Client

omit [IsPreorder BoltConnection R] in
theorem rel_withSched (client : Client) (sched : List Choice) :
    R client.conn (client.withSched sched).conn := by
  cases client <;> exact hR.sched _ sched

/-- A call stays within `R`, or is the one that closes the connection. -/
theorem rel_or_closed {call : Call} {client client' : Client} {o : Outcome BoltError Reply}
    (h : Effect peer call client o client') : R client.conn client'.conn ∨
      ∃ o, BoltConnection.close peer client.conn = (o, client'.conn) ∧
      client' = .gone client'.conn := by
  cases h with
  | runWith h => exact .inl (Keeps.of_eq (BoltConnection.keeps_runWith hR _ _ _) h)
  | opened h => exact .inl (Keeps.of_eq (BoltConnection.keeps_runStreamWith hR _ _ _ _) h)
  | unopened h => exact .inl (Keeps.of_eq (BoltConnection.keeps_runStreamWith hR _ _ _ _) h)
  | begun h => exact .inl (Keeps.of_eq (BoltConnection.keeps_beginWith hR _) h)
  | unbegun h => exact .inl (Keeps.of_eq (BoltConnection.keeps_beginWith hR _) h)
  | route h => exact .inl (Keeps.of_eq (BoltConnection.keeps_route hR _ _) h)
  | reset h => exact .inl (Keeps.of_eq (BoltConnection.keeps_reset hR) h)
  | close hc h =>
    rcases hc with rfl | rfl
    · exact .inr ⟨_, h, rfl⟩
    · exact .inr ⟨_, h, rfl⟩
  | next h => exact .inl (Keeps.of_eq (RecordStream.keeps_next hR) h)
  | finish h => exact .inl (Keeps.of_eq (RecordStream.keeps_finish hR) h)
  | dropStream => exact .inl (RecordStream.rel_drop hR _)
  | txRun h => exact .inl (Keeps.of_eq (Transaction.keeps_run hR _ _) h)
  | txOpened h => exact .inl (Keeps.of_eq (Transaction.keeps_runStream hR _ _ _) h)
  | txUnopened h => exact .inl (Keeps.of_eq (Transaction.keeps_runStream hR _ _ _) h)
  | commit h => exact .inl (Keeps.of_eq (Transaction.keeps_commit hR) h)
  | rollback h => exact .inl (Keeps.of_eq (Transaction.keeps_rollback hR) h)
  | dropTx => exact .inl (Transaction.rel_drop hR _)
  | txNext h => exact .inl (Keeps.of_eq (RecordStream.keeps_next hR) h)
  | txFinish h => exact .inl (Keeps.of_eq (RecordStream.keeps_finish hR) h)
  | txDropStream => exact .inl (RecordStream.rel_drop hR _)
  | released => exact .inl (refl_of R _)
  | discarded => exact .inl (refl_of R _)
  | checkedOut _ h => exact .inl (Keeps.of_eq (BoltConnection.keeps_reset hR) h)
  | expired h =>
    rcases h with rfl | rfl
    · exact .inl (refl_of R _)
    · exact .inl (BoltConnection.keeps_reset hR _)

end Client

omit hR
variable (hP : Primitive peer R)
include hP

theorem BoltConnection.keeps_close : Keeps R (BoltConnection.close peer) := by
  refine Keeps.get.bind fun c => ?_
  split_ifs
  · exact (hP.write _).bind fun _ => hP.flush
  · exact hP.flush

namespace Client

theorem rel_effect {call : Call} {client client' : Client} {o : Outcome BoltError Reply}
    (h : Effect peer call client o client') : R client.conn client'.conn := by
  rcases rel_or_closed hP.opened h with h | ⟨o, h, -⟩
  · exact h
  · exact Keeps.of_eq (BoltConnection.keeps_close hP) h

/-- A call stays within `R`. -/
theorem Step.rel {call : Call} {client client' : Client} {o : Outcome BoltError Reply}
    (h : Step peer call client o client') : R client.conn client'.conn := by
  obtain ⟨sched, h⟩ := h
  exact trans_of R (rel_withSched hP.opened client sched) (rel_effect hP (exec_effect h))

/-- So does a history. -/
theorem Run.rel {ok : Call → Client → Prop} {client client' : Client}
    (h : Run peer ok client client') : R client.conn client'.conn := by
  induction h with
  | refl => exact refl_of R _
  | step _ _ hstep ih => exact trans_of R ih (hstep.rel hP)

end Client
end Boltwire
