import Boltwire.Answering
import Boltwire.Invariant

namespace Boltwire
open Future Server BoltConnection
variable {S : Server}

def Call.inTransaction : Call → Bool
  | .txRun .. | .txRunStream .. | .commit => true
  | _ => false

/-- RUN and COMMIT of this call are received in its transaction, and once a
statement has failed not a byte is sent. -/
def StaysInside (S : Server) (h : TxHistory) (c : BoltConnection) (o : Outcome BoltError Reply)
    (c' : BoltConnection) : Prop :=
  (∀ before body after, c'.log = before ++ body :: after → c.log.length ≤ before.length →
    signature body = RUN ∨ signature body = COMMIT → S.openTx before = some h.begun) ∧
  ((∃ code message, .failure code message ∈ S.since h.begun c.log) →
    c'.stream.sent = c.stream.sent ∧ ∃ e, o = .err e)

/-- The call is not made on a transaction that could still send, after a FAILURE
of one of its streams was followed by a successful RESET. A call that `run_stream`
refuses for its batch size counts too, though it would send nothing. -/
def Unrecovered (call : Call) (client : Client) : Prop :=
  ∀ h t, client = .inTx h t → call.inTransaction = true → t.Startable → h.recovered = false

def transacts (body : Body) : Prop := signature body = RUN ∨ signature body = COMMIT

theorem not_transacts_reset : ¬ transacts resetBody := by
  unfold transacts
  decide

theorem not_transacts_pull {n : Int64} {qid : Option Int64} {b : Body}
    (h : Packed (Request.pull n qid) b) : ¬ transacts b := by
  rw [transacts, h.signature (plain_pull _ _).2]
  simp [Request.pull, Request.withN, Request.withMeta, PULL, RUN, COMMIT]

section
variable {h : TxHistory} {t t' : Transaction} {o : Outcome BoltError Reply}

/-- The call was turned away. -/
theorem StaysInside.of_turnedAway {c c' : BoltConnection} (hsent : c'.stream.sent = c.stream.sent)
    (he : ∃ e, o = .err e) : StaysInside S h c o c' := by
  refine ⟨?_, fun _ => ⟨hsent, he⟩⟩
  rw [log, hsent]
  exact finds_self _

/-- The call was let through: the transaction is open, and nothing has failed. -/
theorem StaysInside.of_contained {c c' : BoltConnection} (hc : Contained S h.begun c.log)
    (hfinds : Finds transacts (fun log => S.openTx log = some h.begun) c.log.length c'.log) :
    StaysInside S h c o c' := by
  refine ⟨hfinds, ?_⟩
  rintro ⟨code, message, hmem⟩
  exact absurd hmem (hc.unfailed code message)

/-- A RUN with its PULL, or a COMMIT, all of which went out. -/
theorem finds_sent {req : Request} {pulls : List Request} {bodies : List Body} {k : ℕ}
    {log : List Body} (hlog : S.openTx log = some k)
    (hpulls : ∀ r ∈ pulls, ∃ n qid, r = Request.pull n qid)
    (hpart : List.Forall₂ Packed (req :: pulls) bodies) :
    Finds transacts (fun log => S.openTx log = some k) log.length (log ++ bodies) := by
  refine (finds_self _).partly hlog (fun r hr b hb => ?_) (.all hpart)
  obtain ⟨n, qid, rfl⟩ := hpulls r hr
  exact not_transacts_pull hb

theorem finds_ended {req : Request} {pulls : List Request} {k : ℕ} {c c' : BoltConnection}
    (hlog : S.openTx c.log = some k) (hpulls : ∀ r ∈ pulls, ∃ n qid, r = Request.pull n qid)
    (hend : Ended S (req :: pulls) c.armed c') :
    Finds transacts (fun log => S.openTx log = some k) c.log.length c'.log := by
  refine Finds.ended (c := c.armed) (finds_self _) hlog (fun r hr b hb => ?_)
    not_transacts_reset hend
  obtain ⟨n, qid, rfl⟩ := hpulls r hr
  exact not_transacts_pull hb

theorem Transaction.TurnedAway.sent {e : Option BoltError} (ht : TurnedAway t e t') :
    t'.conn.stream.sent = t.conn.stream.sent := by
  rcases ht.2 with rfl | ⟨-, rfl⟩
  · rfl
  · rfl

theorem Transaction.TurnedAway.log {e : Option BoltError} (ht : TurnedAway t e t') :
    t'.conn.log = t.conn.log := by
  rw [BoltConnection.log, ht.sent]
  rfl

theorem Transaction.TurnedAway.err {α : Type} {o : Outcome BoltError α} {f : α → Reply}
    (ht : TurnedAway t o.error t') : ∃ e, o.map f = .err e := by
  obtain ⟨x, hx, -⟩ := ht.1
  exact ⟨x, by rw [Outcome.eq_err hx]; rfl⟩

theorem Transaction.Abandoned.staysInside {α : Type} {o : Outcome BoltError α} {f : α → Reply}
    {req : Request} {pulls : List Request} (ha : Abandoned S (req :: pulls) t o.error t')
    (hpulls : ∀ r ∈ pulls, ∃ n qid, r = Request.pull n qid)
    (hc : t.Startable → Contained S h.begun t.conn.log) :
    StaysInside S h t.conn (o.map f) t'.conn := by
  have hstop : ∀ {e : Option BoltError} {c' : BoltConnection}, t.Startable →
      Stop S (req :: pulls) t.conn.armed e c' → StaysInside S h t.conn (o.map f) c' :=
    fun hs hstop => .of_contained (hc hs) (finds_ended (hc hs).openTx hpulls hstop.ended)
  generalize he : o.error = e at ha
  cases ha with
  | turnedAway ht =>
    subst he
    exact .of_turnedAway ht.sent ht.err
  | failed hs h => exact hstop hs h
  | dropped hs h => exact hstop hs h

/-- A statement or COMMIT of a transaction that was not recovered. -/
theorem Client.Effect.staysInside {call : Call} {client' : Client}
    (he : Effect S.peer call (.inTx h t) o client') (hi : TxInv S.law h t)
    (hok : t.Startable → h.recovered = false) (hcall : call.inTransaction = true) :
    StaysInside S h t.conn o client'.conn := by
  have hlive : t.Startable → Live S t.conn [] := fun hs => (hi.opened hs).1
  have hc : t.Startable → Contained S h.begun t.conn.log := fun hs => (hi.opened hs).2.2 (hok hs)
  have hpull : ∀ n qid, ∀ r ∈ [Request.pull n qid], ∃ n qid, r = Request.pull n qid := by
    intro n qid r hr
    exact ⟨n, qid, List.mem_singleton.mp hr⟩
  cases he with
  | @txRun query parameters _ _ t' o hf =>
    rcases post_elim (wp_of_eq (Transaction.post_run hlive query parameters) hf) with
      ⟨_, -, hs, -, -, m, m', b₁, b₂, -, hran⟩ | ⟨-, ha⟩
    · refine .of_contained (hc hs) ?_
      change Finds _ _ _ t'.conn.armed.log
      rw [hran.log]
      exact finds_sent (hc hs).openTx (hpull (-1) none) (.cons hran.run (.cons hran.pull .nil))
    · exact ha.staysInside (hpull _ _) hc
  | @txOpened query parameters batch _ _ t' s hf =>
    obtain ⟨hs, -, m, b₁, b₂, -, hpipe⟩ :=
      wp_of_eq (Transaction.post_runStream hlive query parameters batch) hf
    refine .of_contained (hc hs) ?_
    change Finds _ _ _ t'.conn.log
    rw [hpipe.log]
    exact finds_sent (hc hs).openTx (hpull batch none) (.cons hpipe.run (.cons hpipe.pull .nil))
  | @txUnopened query parameters batch _ _ t' o hf hne =>
    rcases post_elim (wp_of_eq (Transaction.post_runStream hlive query parameters batch) hf) with
      ⟨s, rfl, -⟩ | ⟨-, ha⟩
    · exact absurd rfl (hne s)
    · exact ha.staysInside (hpull _ _) hc
  | @commit _ _ t' o hf =>
    rcases post_elim (wp_of_eq (Transaction.post_commit hlive) hf) with
      ⟨_, -, hs, -, m, b, -, ha⟩ | ⟨-, ⟨t₁, hturn, rfl⟩ | ⟨hs, hu⟩⟩
    · refine .of_contained (hc hs) ?_
      change Finds _ _ _ t'.conn.armed.log
      rw [ha.log]
      exact finds_sent (hc hs).openTx (by simp) (.cons ha.packed .nil)
    · refine .of_turnedAway ?_ hturn.err
      change t₁.drop.conn.stream.sent = _
      rw [Transaction.drop_sent]
      exact hturn.sent
    · exact .of_contained (hc hs) (finds_ended (hc hs).openTx (by simp) hu.ended)
  -- the other calls are not statements of a transaction
  | _ => cases hcall

end

/-- In every history whose calls all meet `Unrecovered`. -/
theorem statements_stay_inside (S : Server) (noops cut : ℕ) {h : TxHistory} {t : Transaction}
    {call : Call} {o : Outcome BoltError Reply} {client' : Client}
    (hrun : Client.Run S.peer Unrecovered (.fresh noops cut) (.inTx h t))
    (hok : Unrecovered call (.inTx h t)) (hcall : call.inTransaction = true)
    (hstep : Client.Step S.peer call (.inTx h t) o client') :
    StaysInside S h t.conn o client'.conn := by
  obtain ⟨sched, hexec⟩ := hstep
  have hi : TxInv S.law h _ := inv_withSched sched hrun.inv_of_fresh
  refine (Client.exec_effect hexec).staysInside hi (fun hs => ?_) hcall
  exact hok h t rfl hcall ⟨hs.intact, hs.needsReset, hs.done⟩

/-- A transaction that runs a statement. -/
theorem statements_stay_inside_begun : ∃ h t o client',
    (Client.Run obliging.peer Unrecovered (.fresh 0 0) (.inTx h t) ∧
      Unrecovered (.txRun "a" []) (.inTx h t) ∧
      Client.Step obliging.peer (.txRun "a" []) (.inTx h t) o client') ∧
    (o.isOk = true ∧ t.conn.log.length < client'.conn.log.length) ∧
    StaysInside obliging h t.conn o client'.conn := by
  have hplay : Client.observe obliging.peer (.fresh 0 0) [(.beginWith .default, smooth)]
      (.txRun "a" []) smooth (fun client o client' => client.tx?.any fun p =>
        !p.1.recovered && (o.isOk && p.2.conn.log.length < client'.conn.log.length)) =
      some true := by
    decide +kernel
  have hok : ∀ c ∈ [(Call.beginWith .default, smooth)], ∀ client, Unrecovered c.1 client := by
    rintro c hc client h t - hcall
    cases List.mem_singleton.mp hc
    cases hcall
  obtain ⟨client, o, client', hrun, hstep, hlook⟩ := Client.observe_step hok hplay
  obtain ⟨⟨h, t⟩, htx, hseen⟩ := (Option.any_eq_true _ _).mp hlook
  cases Client.tx?_eq_some.mp htx
  obtain ⟨hr, hsent⟩ : h.recovered = false ∧ o.isOk = true ∧
    t.conn.log.length < client'.conn.log.length := by simpa using hseen
  have hun : Unrecovered (.txRun "a" []) (.inTx h t) := by
    rintro h' t' heq - -
    cases heq
    exact hr
  exact ⟨h, t, o, client', ⟨hrun, hun, hstep⟩, hsent,
    statements_stay_inside obliging 0 0 hrun hun rfl hstep⟩

def pullsFail : Server := .terse fun _ body => signature body = PULL

/-- A stream of the transaction ends in a FAILURE and is dropped; the next
statement is sent all the same, after the RESET that closed the transaction. -/
theorem statement_outside_its_transaction : ¬ ∀ (S : Server) (noops cut : ℕ) (h : TxHistory)
    (t : Transaction) (call : Call) (o : Outcome BoltError Reply) (client' : Client),
    Client.History S.peer (.fresh noops cut) (.inTx h t) → call.inTransaction = true →
    Client.Step S.peer call (.inTx h t) o client' →
    StaysInside S h t.conn o client'.conn := by
  intro hall
  have hplay : Client.observe pullsFail.peer (.fresh 0 0)
      [(.beginWith .default, smooth), (.txRunStream "a" [] 5, smooth), (.next, smooth),
        (.dropStream, [])] (.txRun "b" []) smooth (fun client _ client' => client.tx?.any fun p =>
        decide (client'.conn.log.take p.2.conn.log.length = p.2.conn.log ∧
          (client'.conn.log.drop p.2.conn.log.length).head?.map signature = some RUN ∧
          pullsFail.openTx p.2.conn.log ≠ some p.1.begun)) = some true := by
    decide +kernel
  obtain ⟨client, o, client', hrun, hstep, hlook⟩ := Client.observe_history hplay
  obtain ⟨⟨h, t⟩, htx, hseen⟩ := (Option.any_eq_true _ _).mp hlook
  cases Client.tx?_eq_some.mp htx
  obtain ⟨htake, hhead, hopen⟩ := of_decide_eq_true hseen
  obtain ⟨body, hbody, hsig⟩ := Option.map_eq_some_iff.mp hhead
  obtain ⟨after, hafter⟩ := List.head?_eq_some_iff.mp hbody
  have hlog : client'.conn.log = t.conn.log ++ body :: after := by
    have hsplit := List.take_append_drop t.conn.log.length client'.conn.log
    rw [htake, hafter] at hsplit
    exact hsplit.symm
  have hinside := hall pullsFail 0 0 h t _ o client' hrun rfl hstep
  exact hopen (hinside.1 _ body after hlog (Nat.le_refl _) (.inl hsig))

end Boltwire
