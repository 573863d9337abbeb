import Boltwire.Answering
import Boltwire.Statements

namespace Boltwire
open Future Incremental Server BoltConnection

/-- Records are fetched or discarded, or the session is reset. -/
def isAuxiliary (body : Body) : Prop :=
  signature body = PULL ∨ signature body = DISCARD ∨ signature body = RESET

instance (body : Body) : Decidable (isAuxiliary body) := by
  unfold isAuxiliary
  infer_instance

theorem admits_isAuxiliary : Admits isAuxiliary where
  reset := by decide
  pull hb := .inl (hb.signature (plain_pull _ _).2)
  discard hb := .inr (.inl (hb.signature (plain_discard _ _).2))

/-- A request that a call is made for. -/
def leads (body : Body) : Bool := !decide (isAuxiliary body)

def Request.leads (req : Request) : Bool :=
  !decide (req.signature = PULL ∨ req.signature = DISCARD ∨ req.signature = RESET)

theorem Packed.leads {req : Request} {b : Body} (h : Packed req b) (hlen : req.fields.length < 16) :
    req.leads = Boltwire.leads b := by
  simp only [Request.leads, Boltwire.leads, isAuxiliary, h.signature hlen]

/-- The peer has received requests for all of `lo` since, for nothing outside of `hi`, and
auxiliary ones. -/
def Conveyed (lo hi : List Request) (c c' : BoltConnection) : Prop :=
  Framed c → Framed c' ∧ ∃ bodies reqs, c'.log = c.log ++ bodies ∧ lo.Sublist reqs ∧
    reqs.Sublist hi ∧ List.Forall₂ Packed reqs (bodies.filter leads)

theorem tally_conveyed : Tally Conveyed where
  refl c hf := ⟨hf, [], [], (List.append_nil _).symm, .refl _, .refl _, .nil⟩
  trans := by
    intro lo hi lo' hi' c₁ c₂ c₃ h h' hf
    obtain ⟨hf₂, bodies, reqs, hlog, hlo, hhi, hp⟩ := h hf
    obtain ⟨hf₃, bodies', reqs', hlog', hlo', hhi', hp'⟩ := h' hf₂
    refine ⟨hf₃, bodies ++ bodies', reqs ++ reqs', ?_, hlo.append hlo', hhi.append hhi', ?_⟩
    · rw [hlog', hlog, List.append_assoc]
    · rw [List.filter_append]
      exact List.rel_append hp hp'
  weaken := by
    intro lo hi lo' hi' c c' h hlo hhi hf
    obtain ⟨hf', bodies, reqs, hlog, hlo', hhi', hp⟩ := h hf
    exact ⟨hf', bodies, reqs, hlog, hlo.trans hlo', hhi'.trans hhi, hp⟩

theorem conveyed_of_stated {c c' : BoltConnection} (h : Stated isAuxiliary c c') :
    Conveyed [] [] c c' := by
  intro hf
  obtain ⟨hf', bodies, hlog, hb⟩ := h hf
  have hnone : bodies.filter leads = [] := by
    apply List.filter_eq_nil_iff.mpr
    intro b hmem
    simp [leads, hb b hmem]
  refine ⟨hf', bodies, [], hlog, .refl _, .refl _, ?_⟩
  rw [hnone]
  exact .nil

namespace BoltConnection
variable {peer : Peer} {α : Type}

/-- No request of a call is sent. -/
theorem quiet {f : Op α} (h : Keeps (Stated isAuxiliary) f) : Tallies Conveyed [] [] f :=
  .of_keeps fun c => conveyed_of_stated (h c)

theorem forall₂_leads {reqs : List Request} {bodies : List Body}
    (h : List.Forall₂ Packed reqs bodies) (hlen : ∀ req ∈ reqs, req.fields.length < 16) :
    List.Forall₂ Packed (reqs.filter Request.leads) (bodies.filter leads) := by
  induction h with
  | nil => exact .nil
  | @cons req b reqs bodies hp _ ih =>
    have ih' := ih fun req hreq => hlen req (List.mem_cons_of_mem _ hreq)
    have hleads := hp.leads (hlen req (List.mem_cons_self ..))
    rw [List.filter_cons, List.filter_cons, hleads]
    split_ifs
    · exact .cons hp ih'
    · exact ih'

/-- What is written is received whole, or a part of it is. -/
theorem tallies_write (reqs : List Request) (hlen : ∀ req ∈ reqs, req.fields.length < 16) :
    Tallies Conveyed (reqs.filter Request.leads) (reqs.filter Request.leads)
      (writeMessages peer reqs) := by
  intro c
  refine wp_mono (wp_writeMessages reqs c) ?_
  intro o c' hw
  have hnone : Conveyed [] (reqs.filter Request.leads) c c :=
    tally_conveyed.weaken (tally_conveyed.refl c) (.refl _) (List.nil_sublist _)
  cases hw with
  | refused => exact hnone
  | unencodable => exact hnone
  | @whole out sched hb he =>
    intro hf
    obtain ⟨fs, hfs, rfl, -⟩ := encodeAll_eq_ok he
    obtain ⟨fs₀, hfs₀⟩ := hf.resolve_left (by simp [hb])
    rw [List.nil_append]
    refine ⟨.inr ⟨fs₀ ++ fs, ?_⟩, fs.map Frame.body, reqs.filter Request.leads, ?_,
      .refl _, .refl _, forall₂_leads (packed_map hfs) hlen⟩
    · rw [List.flatMap_append, ← hfs₀]
      rfl
    · change received (c.stream.sent ++ fs.flatMap Frame.bytes) = _
      rw [received_append hfs₀, received_flatMap, log]
  | @cut out sched k o hb he ho =>
    have hcut : Conveyed [] (reqs.filter Request.leads) c { c with
        stream := { c.stream.deliver peer (out.take k) with
          sched, offered := c.stream.offered ++ [reqs] }
        broken := true } := by
      intro hf
      obtain ⟨fs, hfs, rfl, -⟩ := encodeAll_eq_ok he
      obtain ⟨fs₀, hfs₀⟩ := hf.resolve_left (by simp [hb])
      rw [List.nil_append]
      obtain ⟨n, hn⟩ := received_cut hfs₀ fs k
      refine ⟨.inl rfl, (fs.map Frame.body).take n, (reqs.take n).filter Request.leads, hn,
        List.nil_sublist _, (List.take_sublist n reqs).filter _, ?_⟩
      apply forall₂_leads (List.forall₂_take n (packed_map hfs))
      intro req hreq
      exact hlen req (List.mem_of_mem_take hreq)
    rcases ho with rfl | ⟨kind, rfl⟩
    · exact hcut
    · exact hcut

theorem quiet_read : Tallies Conveyed [] [] readMessage := quiet stated_read

theorem quiet_setNeedsReset (b : Bool) : Tallies Conveyed [] [] (setNeedsReset b) :=
  quiet (stated_setNeedsReset b)

theorem quiet_ofExcept (x : Except BoltError α) :
    Tallies Conveyed [] [] (Future.ofExcept x : Op α) :=
  quiet (Keeps.ofExcept x)

theorem stated_ensureClean : Keeps (Stated isAuxiliary) (ensureClean peer) := by
  refine keeps_checkIntact.bind fun _ => Keeps.get.bind fun c => ?_
  split_ifs
  · exact stated_reset admits_isAuxiliary
  · exact Keeps.pure _

/-- The end of a call to which FAILURE was replied. -/
theorem quiet_failure (code message : String) :
    Tallies Conveyed [] [] (do Future.throw (← failReset peer code message) : Op α) :=
  quiet ((stated_failReset admits_isAuxiliary code message).bind fun _ => Keeps.throw _)

theorem quiet_throw (e : BoltError) : Tallies Conveyed [] [] (Future.throw e : Op α) :=
  quiet (Keeps.throw e)

theorem tallies_sendRunPull (query : String) (parameters extra : Meta) (n : Int64) :
    Tallies Conveyed [Request.run query parameters extra] [Request.run query parameters extra]
      (sendRunPull peer query parameters extra n) := by
  refine (tallies_write [Request.run query parameters extra, Request.pull n none] ?_).bind_nil
    tally_conveyed fun _ => quiet_read.nil_bind tally_conveyed fun response => ?_
  · intro req hreq
    exact (plain_runPull query parameters extra n req hreq).2
  · cases response with
    | success m => exact quiet (Keeps.pure _)
    | failure code message => exact quiet_failure code message
    | record v => exact quiet_throw _
    | ignored => exact quiet_throw _

theorem stated_recordRound (records : List (List BoltValue)) :
    Keeps (Stated isAuxiliary) (recordRound peer records) := by
  refine stated_read.bind fun response => ?_
  cases response with
  | record v => exact Keeps.pure _
  | success m => exact Keeps.pure _
  | failure code message =>
    exact (stated_failReset admits_isAuxiliary code message).bind fun _ => Keeps.throw _
  | ignored => exact Keeps.throw _

theorem tallies_runInner (query : String) (parameters extra : Meta) :
    Tallies Conveyed [Request.run query parameters extra] [Request.run query parameters extra]
      (runInner peer query parameters extra) := by
  apply (tallies_sendRunPull query parameters extra (-1)).bind_nil tally_conveyed
  intro sent
  exact quiet ((Keeps.loop stated_recordRound []).bind fun _ => Keeps.pure _)

theorem tallies_runWith (query : String) (parameters extra : Meta) :
    Tallies Conveyed [Request.run query parameters extra] [Request.run query parameters extra]
      (runWith peer query parameters extra) := by
  refine (quiet stated_ensureClean).nil_bind tally_conveyed fun _ =>
    (quiet_setNeedsReset true).nil_bind tally_conveyed fun _ => ?_
  apply (tallies_runInner query parameters extra).attempt tally_conveyed
  · intro result
    exact (quiet_setNeedsReset false).nil_bind tally_conveyed fun _ => quiet (Keeps.pure _)
  · intro e c
    exact tally_conveyed.refl c

theorem tallies_runStreamWith (query : String) (parameters extra : Meta) (batch : Int64) :
    Tallies Conveyed [Request.run query parameters extra] [Request.run query parameters extra]
      (runStreamWith peer query parameters extra batch) := by
  refine (quiet_ofExcept _).nil_bind tally_conveyed fun _ =>
    (quiet stated_ensureClean).nil_bind tally_conveyed fun _ =>
    (quiet_setNeedsReset true).nil_bind tally_conveyed fun _ => ?_
  apply (tallies_sendRunPull query parameters extra batch).bind_nil tally_conveyed
  intro sent
  exact quiet (Keeps.pure _)

/-- One request by itself. -/
theorem tallies_writeMessage {req : Request} (hreq : Plain req) (hleads : req.leads = true) :
    Tallies Conveyed [req] [req] (writeMessage peer req) := by
  have h : Tallies Conveyed _ _ (writeMessage peer req) := tallies_write [req] ?_
  · rwa [List.filter_cons, hleads, if_pos rfl, List.filter_nil] at h
  · intro req' hreq'
    rw [List.mem_singleton.mp hreq']
    exact hreq.2

theorem tallies_beginWith (opts : TxOptions) :
    Tallies Conveyed [Request.begin opts.intoMeta] [Request.begin opts.intoMeta]
      (beginWith peer opts) := by
  refine (quiet stated_ensureClean).nil_bind tally_conveyed fun _ =>
    (quiet_setNeedsReset true).nil_bind tally_conveyed fun _ => ?_
  refine (tallies_writeMessage (plain_begin _) rfl).bind_nil tally_conveyed fun _ =>
    quiet_read.nil_bind tally_conveyed fun response =>
    (quiet_ofExcept _).nil_bind tally_conveyed fun _ => quiet_setNeedsReset false

theorem tallies_route (context : Meta) (db : Option String) :
    Tallies Conveyed [Request.route context db] [Request.route context db]
      (route peer context db) := by
  refine (quiet stated_ensureClean).nil_bind tally_conveyed fun _ =>
    (quiet_setNeedsReset true).nil_bind tally_conveyed fun _ => ?_
  refine (tallies_writeMessage (plain_route _ _) rfl).bind_nil tally_conveyed fun _ =>
    quiet_read.nil_bind tally_conveyed fun response => ?_
  cases response with
  | success m =>
    exact (quiet_setNeedsReset false).nil_bind tally_conveyed fun _ => quiet_ofExcept _
  | failure code message => exact quiet_failure code message
  | record v => exact quiet_throw _
  | ignored => exact quiet_throw _

theorem stated_flush : Keeps (Stated isAuxiliary) flush := by
  intro c
  obtain ⟨-, sched, hc⟩ := wp_flush c
  rw [hc]
  exact stated_of_sent rfl (.inr (.inr rfl))

/-- Nothing is sent on a broken connection. -/
theorem tallies_close : Tallies Conveyed [] [Request.goodbye] (close peer) := by
  refine (quiet Keeps.get).nil_bind tally_conveyed fun c => ?_
  split_ifs
  · apply Tallies.bind_nil tally_conveyed
    · apply (tallies_write [Request.goodbye] ?_).weaken tally_conveyed (List.nil_sublist _)
      · exact .refl _
      · decide
    · exact fun _ => quiet stated_flush
  · apply (quiet ((Keeps.pure ()).bind fun _ => stated_flush)).weaken tally_conveyed
    · exact .refl _
    · exact List.nil_sublist _

end BoltConnection

namespace Transaction
variable {peer : Peer} {α : Type}

abbrev Conveyed (lo hi : List Request) : Transaction → Transaction → Prop :=
  Rel (Boltwire.Conveyed lo hi)

theorem tally_conveyed : Tally Conveyed := Boltwire.tally_conveyed.preimage conn

theorem quiet {f : Op α} (h : Keeps (Rel (BoltConnection.Stated isAuxiliary)) f) :
    Tallies Conveyed [] [] f :=
  .of_keeps fun t => conveyed_of_stated (h t)

theorem tallies_onConn {lo hi : List Request} {f : BoltConnection.Op α}
    (h : Tallies Boltwire.Conveyed lo hi f) : Tallies Conveyed lo hi (onConn f) :=
  h.zoom fun hs => hs

theorem quiet_setDone : Tallies Conveyed [] [] setDone := quiet keeps_setDone

theorem quiet_guardOpen : Tallies Conveyed [] [] guardOpen := quiet keeps_guardOpen

theorem quiet_setNeedsReset (b : Bool) :
    Tallies Conveyed [] [] (onConn (BoltConnection.setNeedsReset b)) :=
  tallies_onConn (BoltConnection.quiet_setNeedsReset b)

/-- A call of a transaction, on its connection. -/
theorem post_conn {lo hi : List Request} {t t' : Transaction} {o : Outcome BoltError α}
    (h : post (fun _ => Conveyed lo hi t) (fun _ => Conveyed [] hi t) o t') :
    post (fun _ => Boltwire.Conveyed lo hi t.conn) (fun _ => Boltwire.Conveyed [] hi t.conn) o
      t'.conn := by
  cases o <;> exact h

theorem tallies_run (query : String) (parameters : Meta) :
    Tallies Conveyed [Request.run query parameters []] [Request.run query parameters []]
      (run peer query parameters) := by
  refine quiet_guardOpen.nil_bind tally_conveyed fun _ =>
    (quiet_setNeedsReset true).nil_bind tally_conveyed fun _ => ?_
  apply (tallies_onConn (BoltConnection.tallies_runInner query parameters [])).attempt
    tally_conveyed
  · intro result
    exact (quiet_setNeedsReset false).nil_bind tally_conveyed fun _ => quiet (Keeps.pure _)
  · intro e t
    exact tally_conveyed.refl t

theorem tallies_runStream (query : String) (parameters : Meta) (batch : Int64) :
    Tallies Conveyed [Request.run query parameters []] [Request.run query parameters []]
      (runStream peer query parameters batch) := by
  refine (quiet (Keeps.ofExcept _)).nil_bind tally_conveyed fun _ =>
    quiet_guardOpen.nil_bind tally_conveyed fun _ =>
    (quiet_setNeedsReset true).nil_bind tally_conveyed fun _ => ?_
  apply (tallies_onConn (BoltConnection.tallies_sendRunPull query parameters [] batch)).attempt
    tally_conveyed
  · intro sent
    exact quiet (Keeps.pure _)
  · intro e t
    exact tally_conveyed.refl t

theorem quiet_finishEnd (ctx : String) : Tallies Conveyed [] [] (finishEnd peer ctx) := by
  refine (tallies_onConn BoltConnection.quiet_read).nil_bind tally_conveyed fun response => ?_
  cases response with
  | success m => exact quiet (Keeps.pure _)
  | failure code message =>
    refine quiet ((keeps_onConn ?_).bind fun _ => Keeps.throw _)
    exact BoltConnection.stated_failReset admits_isAuxiliary code message
  | record v => exact quiet (Keeps.throw _)
  | ignored => exact quiet (Keeps.throw _)

/-- COMMIT or ROLLBACK, and its reply. -/
theorem tallies_end {req : Request} (hreq : BoltConnection.Plain req) (hleads : req.leads = true)
    (ctx : String) {rest : Meta → Op α} (hrest : ∀ m, Tallies Conveyed [] [] (rest m)) :
    Tallies Conveyed [req] [req] (do
      setDone
      onConn (BoltConnection.setNeedsReset true)
      onConn (BoltConnection.writeMessage peer req)
      let m ← finishEnd peer ctx
      rest m) := by
  refine quiet_setDone.nil_bind tally_conveyed fun _ =>
    (quiet_setNeedsReset true).nil_bind tally_conveyed fun _ => ?_
  apply (tallies_onConn (BoltConnection.tallies_writeMessage hreq hleads)).bind_nil tally_conveyed
  exact fun _ => (quiet_finishEnd ctx).nil_bind tally_conveyed hrest

theorem tallies_commit : Tallies Conveyed [Request.commit] [Request.commit] (commit peer) := by
  apply Tallies.dropping tally_conveyed
  · apply quiet_guardOpen.nil_bind tally_conveyed
    intro _
    apply tallies_end BoltConnection.plain_commit rfl "COMMIT"
    intro m
    exact (quiet_setNeedsReset false).nil_bind tally_conveyed fun _ => quiet (Keeps.pure _)
  · exact fun t => conveyed_of_stated (stated_drop t)

/-- Nothing is sent for a transaction that is over already. -/
theorem tallies_rollback : Tallies Conveyed [] [Request.rollback] (rollback peer) := by
  apply Tallies.dropping tally_conveyed
  · refine (quiet Keeps.get).nil_bind tally_conveyed fun t => ?_
    split_ifs
    · exact (quiet (Keeps.pure ())).weaken tally_conveyed (.refl _) (List.nil_sublist _)
    · refine (tallies_end BoltConnection.plain_rollback rfl "ROLLBACK" ?_).weaken tally_conveyed
        (List.nil_sublist _) (.refl _)
      exact fun _ => quiet_setNeedsReset false
  · exact fun t => conveyed_of_stated (stated_drop t)

end Transaction

def Call.asks : Call → List Request
  | .runWith query parameters extra => [Request.run query parameters extra]
  | .runStreamWith query parameters extra _ => [Request.run query parameters extra]
  | .beginWith opts => [Request.begin opts.intoMeta]
  | .route context db => [Request.route context db]
  | .txRun query parameters => [Request.run query parameters []]
  | .txRunStream query parameters _ => [Request.run query parameters []]
  | .commit => [Request.commit]
  | .rollback => [Request.rollback]
  | .close => [Request.goodbye]
  | _ => []

/-- The request a call has sent if it ended in `o`. A finished transaction rolls back
and a broken connection closes without one. -/
def Call.assures (call : Call) (o : Outcome BoltError Reply) : List Request :=
  match call with
  | .rollback | .close => []
  | call => if o.isOk then call.asks else []

/-- The calls made from `client₀`, and how each ended. -/
inductive Client.Recorded (peer : Peer) (client₀ : Client) :
    List (Call × Outcome BoltError Reply) → Client → Prop
  | refl : Recorded peer client₀ [] client₀
  | step {calls : List (Call × Outcome BoltError Reply)} {client client' : Client} {call : Call}
      {o : Outcome BoltError Reply} : Recorded peer client₀ calls client →
    Step peer call client o client' → Recorded peer client₀ (calls ++ [(call, o)]) client'

namespace Client
variable (peer : Peer)

def perform (client : Client) :
    List (Call × List Choice) → Option (List (Call × Outcome BoltError Reply) × Client)
  | [] => some ([], client)
  | (call, sched) :: calls =>
    match exec peer call (client.withSched sched) with
    | some (o, client') =>
      (perform client' calls).map fun rest => ((call, o) :: rest.1, rest.2)
    | none => none

variable {peer} in
theorem Recorded.perform {client₀ client client' : Client}
    {before calls' : List (Call × Outcome BoltError Reply)}
    (h : Recorded peer client₀ before client) {calls : List (Call × List Choice)}
    (hcalls : perform peer client calls = some (calls', client')) :
    Recorded peer client₀ (before ++ calls') client' := by
  induction calls generalizing before client calls' with
  | nil =>
    cases hcalls
    rwa [List.append_nil]
  | cons first calls ih =>
    obtain ⟨call, sched⟩ := first
    cases he : exec peer call (client.withSched sched) with
    | none => simp [Client.perform, he] at hcalls
    | some r =>
      simp only [Client.perform, he, Option.map_eq_some_iff] at hcalls
      obtain ⟨rest, hrest, hr⟩ := hcalls
      cases hr
      have h' := ih (h.step ⟨sched, he⟩) hrest
      rwa [List.append_assoc] at h'

end Client

section Calls
open Client
variable {peer : Peer}

theorem conveyed_of_post {α : Type} {lo hi : List Request} {c c' : BoltConnection}
    {o : Outcome BoltError α} (f : α → Reply)
    (h : post (fun _ => Conveyed lo hi c) (fun _ => Conveyed [] hi c) o c') :
    Conveyed (if (o.map f).isOk then lo else []) hi c c' := by
  cases o <;> exact h

/-- A call and what the peer receives for it. -/
theorem Client.Effect.conveyed {call : Call} {client client' : Client}
    {o : Outcome BoltError Reply} (h : Effect peer call client o client') :
    Conveyed (call.assures o) call.asks client.conn client'.conn := by
  have hquiet : ∀ {c c' : BoltConnection} {b : Bool}, BoltConnection.Stated isAuxiliary c c' →
      Conveyed (if b then [] else []) [] c c' := by
    intro c c' b hs
    rw [ite_self]
    exact conveyed_of_stated hs
  cases h with
  | runWith h => exact conveyed_of_post _ ((BoltConnection.tallies_runWith _ _ _).of_eq h)
  | opened h => exact (BoltConnection.tallies_runStreamWith _ _ _ _).of_eq h
  | unopened h => exact conveyed_of_post _ ((BoltConnection.tallies_runStreamWith _ _ _ _).of_eq h)
  | begun h => exact (BoltConnection.tallies_beginWith _).of_eq h
  | unbegun h => exact conveyed_of_post _ ((BoltConnection.tallies_beginWith _).of_eq h)
  | route h => exact conveyed_of_post _ ((BoltConnection.tallies_route _ _).of_eq h)
  | reset h => exact hquiet (Keeps.of_eq (BoltConnection.stated_reset admits_isAuxiliary) h)
  | close hc h =>
    have hclose := BoltConnection.tallies_close.of_eq h
    rcases hc with rfl | rfl
    · exact post_const hclose
    · exact post_const hclose
  | next h => exact hquiet (Keeps.of_eq (RecordStream.stated_next admits_isAuxiliary) h)
  | finish h => exact hquiet (Keeps.of_eq (RecordStream.stated_finish admits_isAuxiliary) h)
  | dropStream => exact conveyed_of_stated (RecordStream.stated_drop _)
  | txRun h =>
    exact conveyed_of_post _ (Transaction.post_conn ((Transaction.tallies_run _ _).of_eq h))
  | txOpened h => exact (Transaction.tallies_runStream _ _ _).of_eq h
  | txUnopened h =>
    exact conveyed_of_post _ (Transaction.post_conn ((Transaction.tallies_runStream _ _ _).of_eq h))
  | commit h =>
    exact conveyed_of_post _ (Transaction.post_conn (Transaction.tallies_commit.of_eq h))
  | rollback h => exact post_const (Transaction.post_conn (Transaction.tallies_rollback.of_eq h))
  | dropTx => exact conveyed_of_stated (Transaction.stated_drop _)
  | txNext h => exact hquiet (Keeps.of_eq (RecordStream.stated_next admits_isAuxiliary) h)
  | txFinish h => exact hquiet (Keeps.of_eq (RecordStream.stated_finish admits_isAuxiliary) h)
  | txDropStream => exact conveyed_of_stated (RecordStream.stated_drop _)
  | released => exact conveyed_of_stated (refl_of (BoltConnection.Stated isAuxiliary) _)
  | discarded => exact conveyed_of_stated (refl_of (BoltConnection.Stated isAuxiliary) _)
  | checkedOut _ h =>
    exact conveyed_of_stated (Keeps.of_eq (BoltConnection.stated_reset admits_isAuxiliary) h)
  | expired h =>
    rcases h with rfl | rfl
    · exact conveyed_of_stated (refl_of (BoltConnection.Stated isAuxiliary) _)
    · exact conveyed_of_stated (BoltConnection.stated_reset admits_isAuxiliary _)

theorem conveyed_withSched (client : Client) (sched : List Choice) :
    Conveyed [] [] client.conn (client.withSched sched).conn := by
  apply conveyed_of_stated
  cases client <;> exact BoltConnection.stated_of_sent rfl (.inr (.inr rfl))

/-- What the peer receives over the calls, in their order. -/
theorem Client.Recorded.conveyed {client₀ client : Client}
    {calls : List (Call × Outcome BoltError Reply)} (h : Recorded peer client₀ calls client) :
    Conveyed (calls.flatMap fun c => c.1.assures c.2) (calls.flatMap fun c => c.1.asks)
      client₀.conn client.conn := by
  induction h with
  | refl => exact tally_conveyed.refl client₀.conn
  | @step calls client client' call o _ hstep ih =>
    obtain ⟨sched, hexec⟩ := hstep
    have hcall := tally_conveyed.trans (conveyed_withSched client sched)
      (exec_effect hexec).conveyed
    have h := tally_conveyed.trans ih hcall
    simpa using h

end Calls
end Boltwire
