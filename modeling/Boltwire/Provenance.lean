import Boltwire.Answering
import Boltwire.Invariant

namespace Boltwire
open Future Server BoltConnection RecordStream
variable {S : Server}

/-- The number of requests sent before those of this call, or of this stream. -/
def Client.origin : Call → Client → ℕ
  | .next, .streaming start _ | .next, .txStreaming _ _ start _ => start
  | .finish, .streaming start _ | .finish, .txStreaming _ _ start _ => start
  | _, client => client.conn.log.length

theorem Client.origin_withSched (sched : List Choice) (call : Call) (client : Client) :
    (client.withSched sched).origin call = client.origin call := by
  cases client <;> cases call <;> rfl

/-- What a call returns is among `replies`. -/
def Provenance (replies : List Response) : Call → Outcome BoltError Reply → Prop
  | _, .err (.failure code message) => .failure code message ∈ replies
  | _, .ok (.result r) => ∃ m, r.columns = extractColumns m ∧
      (.success m :: r.records.map .record).Sublist replies
  | _, .ok (.columns columns) => ∃ m, columns = extractColumns m ∧ .success m ∈ replies
  | _, .ok (.row (some row)) => .record row ∈ replies
  | _, .ok (.metadata m) => m = [] ∨ .success m ∈ replies
  | _, .ok (.table table) => ∃ m, RoutingTable.fromMeta m = .ok table ∧ .success m ∈ replies
  | _, .ok (.bookmark bookmark) => ∃ m, bookmark = metaStr m "bookmark" ∧ .success m ∈ replies
  | .beginWith _, .ok .unit | .reset, .ok .unit => ∃ m, .success m ∈ replies
  | _, _ => True

/-- A call that returned no value: only a FAILURE has a source. -/
theorem provenance_error {α : Type} {call : Call} {o : Outcome BoltError α} {f : α → Reply}
    {replies : List Response} (hne : ∀ a, o ≠ .ok a) (h : ∀ code message,
      o.error = some (.failure code message) → .failure code message ∈ replies) :
    Provenance replies call (o.map f) := by
  cases o with
  | ok a => exact absurd rfl (hne a)
  | err e =>
    cases e with
    | failure code message => exact h code message rfl
    | _ => trivial
  | dropped => trivial

/-- RUN's columns and PULL's records, as they stand in the replies. -/
theorem sublist_replies {log : List Body} {b₁ : Body} {m : Meta} (hb : signature b₁ = RUN)
    (h : (S.answer log b₁).summary = .success m) (b₂ : Body) :
    (.success m :: (S.answer (log ++ [b₁]) b₂).records.map Response.record).Sublist
      (S.replies log [b₁, b₂]) := by
  have hreplies : S.replies log [b₁, b₂] =
      .success m :: (S.answer (log ++ [b₁]) b₂).responses := by
    simp [replies, responses_of_signature hb (by decide) (by decide), h]
  rw [hreplies, Answer.responses]
  exact (List.sublist_append_left _ _).cons_cons _

namespace BoltConnection

theorem Ran.provenance {run pull : Request} {c c' : BoltConnection} {m m' : Meta} {b₁ b₂ : Body}
    {k : ℕ} {call : Call} (h : Ran S run pull c m m' b₁ b₂ c') (hrun : run.signature = RUN)
    (hplain : Plain run) (hk : k ≤ c.log.length) :
    Provenance (S.since k c'.log) call (.ok (.result (resultOf S c.log m b₁ b₂))) := by
  have hsub := sublist_replies ((h.run.signature hplain.2).trans hrun) h.success b₂
  rw [← since_append, ← h.log] at hsub
  exact ⟨m, rfl, hsub.trans (since_isSuffix hk _).sublist⟩

theorem Pipelined.success_mem {run pull : Request} {c c' : BoltConnection} {m : Meta}
    {b₁ b₂ : Body}
    {k : ℕ} (h : Pipelined S run pull c m b₁ b₂ c') (hk : k ≤ c.log.length) :
    .success m ∈ S.since k c'.log := by
  refine (since_isSuffix hk _).subset ?_
  rw [h.log, since_append]
  simp [replies, Answer.responses, h.success]

theorem Answered.mem_since {req : Request} {c c' : BoltConnection} {b : Body}
    {r : Response} {k : ℕ}
    (h : Answered S req c b r c') (hk : k ≤ c.log.length) : r ∈ S.since k c'.log := by
  refine (since_isSuffix hk _).subset ?_
  rw [h.log, since_append]
  exact h.mem_replies

end BoltConnection

/-- GOODBYE is not answered, so `close` has no FAILURE to report. -/
theorem close_local (c : BoltConnection) :
    wp (close S.peer) (post (fun _ _ => True) fun e _ => ∀ x, e = some x → Local x) c := by
  have hflush :
      ∀ c, wp flush (post (fun _ _ => True) fun e _ => ∀ x, e = some x → Local x) c := by
    intro c
    refine wp_mono (wp_flush c) ?_
    rintro _ c' ⟨rfl | rfl | ⟨kind, rfl⟩, -⟩
    · trivial
    · rintro x ⟨⟩
    · rintro x ⟨⟩
      simp
  rw [close, Future.wp_bind, Future.wp_get, Future.andThen]
  split_ifs with hb
  · refine post_bind (Q := fun _ _ => True) ?_ fun _ c' _ => hflush c'
    refine wp_mono (wp_writeMessages [Request.goodbye] c) ?_
    intro o c' hw
    cases hw with
    | refused m _ =>
      rintro x ⟨⟩
      simp
    | unencodable _ he =>
      rintro x ⟨⟩
      exact encodeAll_local he
    | whole _ _ => trivial
    | cut _ _ ho =>
      rcases ho with rfl | ⟨kind, rfl⟩
      · rintro x ⟨⟩
      · rintro x ⟨⟩
        simp
  · exact hflush c

theorem Transaction.Uncommitted.surfaced {t t' : Transaction} {e : Option BoltError}
    (h : Uncommitted S t e t') : Surfaced S t.conn e t'.conn := by
  rcases h with ⟨t₁, hturn, rfl⟩ | ⟨-, hu⟩
  · obtain ⟨x, rfl, hx⟩ := hturn.1
    exact .err hx
  · exact hu.surfaced rfl

theorem Transaction.Abandoned.surfaced {reqs : List Request} {t t' : Transaction}
    {e : Option BoltError} (h : Abandoned S reqs t e t') : Surfaced S t.conn e t'.conn := by
  cases h with
  | turnedAway hturn =>
    obtain ⟨x, rfl, hx⟩ := hturn.1
    exact .err hx
  | failed _ hstop => exact hstop.surfaced
  | dropped _ hstop => exact hstop.surfaced

theorem Client.Effect.provenance {call : Call} {client client' : Client}
    {o : Outcome BoltError Reply} (he : Effect S.peer call client o client') (hi : Inv S.law client)
    (hcall : call ≠ .rollback) :
    Provenance (S.since (client.origin call) client'.conn.log) call o := by
  cases he with
  | @runWith query parameters extra c c' o hf =>
    rcases post_elim (wp_of_eq (post_runWith hi.tracked query parameters extra) hf) with
      ⟨_, rfl, -, c₁, m, m', b₁, b₂, hclean, rfl, hran⟩ | ⟨hne, h⟩
    · exact hran.provenance rfl (plain_run ..) hclean.length_le
    · exact provenance_error hne h.2
  | @opened query parameters extra batch c c' s hf =>
    obtain ⟨c₁, m, b₁, b₂, hclean, rfl, hpipe⟩ :=
      wp_of_eq (post_runStreamWith hi.tracked query parameters extra batch) hf
    exact ⟨m, rfl, hpipe.success_mem hclean.length_le⟩
  | @unopened query parameters extra batch c c' o hf hne =>
    rcases post_elim (wp_of_eq (post_runStreamWith hi.tracked query parameters extra batch) hf) with
      ⟨s, rfl, -⟩ | ⟨-, h⟩
    · exact absurd rfl (hne s)
    · exact provenance_error hne h.2
  | @begun opts c c' hf =>
    obtain ⟨-, c₁, m, b, hclean, ha⟩ := wp_of_eq (post_beginWith hi.tracked opts) hf
    exact ⟨m, ha.mem_since hclean.length_le⟩
  | @unbegun opts c c' o hf hne =>
    rcases post_elim (wp_of_eq (post_beginWith hi.tracked opts) hf)
      with ⟨s, rfl, -⟩ | ⟨hne, h⟩
    · exact absurd rfl hne
    · exact provenance_error hne h.2
  | @route context db c c' o hf =>
    rcases post_elim (wp_of_eq (post_route hi.tracked context db) hf) with
      ⟨table, rfl, -, c₁, m, b, hclean, htable, ha⟩ | ⟨hne, h | ⟨-, h, -⟩⟩
    · exact ⟨m, htable, ha.mem_since hclean.length_le⟩
    · exact provenance_error hne h.2
    · exact provenance_error hne h
  | @reset c c' o hf =>
    rcases post_elim (wp_of_eq (post_reset hi.tracked) hf) with ⟨_, rfl, hr⟩ | ⟨hne, h⟩
    · obtain ⟨m, hm⟩ := hr.success
      refine ⟨m, ?_⟩
      change _ ∈ S.since c.log.length c'.log
      rw [hr.log, since_append, replies_singleton, Answer.responses, hm]
      simp
    · exact provenance_error hne h.2
  | @close client c c' o _ hf =>
    rcases post_elim (wp_of_eq (close_local c) hf) with ⟨_, rfl, -⟩ | ⟨hne, h⟩
    · trivial
    · exact provenance_error hne fun code message he => absurd rfl (h _ he code message)
  | @next start s s' o hf =>
    rcases post_elim (wp_of_eq (post_next course_streaming hi) hf) with
      ⟨row, rfl, -, hrow⟩ | ⟨hne, h⟩
    · cases row with
      | none => trivial
      | some row => exact hrow row rfl
    · exact provenance_error hne h.2
  | @finish start s s' o hf =>
    rcases post_elim (wp_of_eq (post_finish course_streaming hi) hf) with
      ⟨m, rfl, hm, -⟩ | ⟨hne, h⟩
    · exact hm.summarized
    · exact provenance_error hne h.2
  | dropStream => trivial
  | @txRun query parameters h t t' o hf =>
    rcases post_elim (wp_of_eq
        (Transaction.post_run (fun hs => (hi.opened hs).1) query parameters) hf) with
      ⟨r, rfl, hs, -, -, m, m', b₁, b₂, rfl, hran⟩ | ⟨hne, h⟩
    · exact hran.provenance rfl (plain_run ..) (Nat.le_refl _)
    · exact provenance_error hne h.surfaced
  | @txOpened query parameters batch h t t' s hf =>
    obtain ⟨-, -, m, b₁, b₂, rfl, hpipe⟩ := wp_of_eq
      (Transaction.post_runStream (fun hs => (hi.opened hs).1) query parameters batch) hf
    exact ⟨m, rfl, hpipe.success_mem (Nat.le_refl _)⟩
  | @txUnopened query parameters batch h t t' o hf hne =>
    rcases post_elim (wp_of_eq
        (Transaction.post_runStream (fun hs => (hi.opened hs).1) query parameters batch) hf) with
      ⟨s, rfl, -⟩ | ⟨-, h⟩
    · exact absurd rfl (hne s)
    · exact provenance_error hne h.surfaced
  | @commit h t t' o hf =>
    rcases post_elim (wp_of_eq (Transaction.post_commit fun hs => (hi.opened hs).1) hf) with
      ⟨_, rfl, -, -, m, b, rfl, ha⟩ | ⟨hne, h⟩
    · exact ⟨m, rfl, ha.mem_since (Nat.le_refl _)⟩
    · exact provenance_error hne h.surfaced
  -- the one call that may read a reply to an earlier request
  | rollback => exact absurd rfl hcall
  | dropTx => trivial
  | @txNext h done start s s' o hf =>
    obtain ⟨rfl, hk, hflow⟩ := hi
    rcases post_elim (wp_of_eq (post_next course_within hflow) hf) with
      ⟨row, rfl, -, hrow⟩ | ⟨hne, h⟩
    · cases row with
      | none => trivial
      | some row => exact hrow row rfl
    · exact provenance_error hne h.2
  | @txFinish h done start s s' o hf =>
    obtain ⟨rfl, hk, hflow⟩ := hi
    rcases post_elim (wp_of_eq (post_finish course_within hflow) hf) with
      ⟨m, rfl, hm, -⟩ | ⟨hne, h⟩
    · exact hm.summarized
    · exact provenance_error hne h.2
  | txDropStream => trivial
  | released _ => trivial
  | discarded => trivial
  | checkedOut _ _ => trivial
  | expired _ => trivial

/-- In every history, whatever a call but ROLLBACK returns comes from the replies
to its own requests, or to those of its stream. -/
theorem replies_never_mixed (S : Server) (noops cut : ℕ) {client client' : Client} {call : Call}
    {o : Outcome BoltError Reply} (hrun : Client.History S.peer (.fresh noops cut) client)
    (hstep : Client.Step S.peer call client o client') (hcall : call ≠ .rollback) :
    Provenance (S.since (client.origin call) client'.conn.log) call o := by
  obtain ⟨sched, hexec⟩ := hstep
  have hi := inv_withSched sched hrun.inv_of_fresh
  have h := (Client.exec_effect hexec).provenance hi hcall
  rwa [Client.origin_withSched] at h

/-- A query dropped with both its replies owed, and one more after it. -/
theorem replies_never_mixed_dropped : ∃ client o client',
    Client.History obliging.peer (.fresh 0 0) client ∧
    Client.Step obliging.peer (.runWith "b" [] []) client o client' ∧
    (client.conn.pending = 2 ∧ o.isOk = true) ∧
    Provenance (obliging.since client.conn.log.length client'.conn.log) (.runWith "b" [] []) o := by
  have hplay : Client.observe obliging.peer (.fresh 0 0)
      [(.runWith "a" [] [], [.ready 0, .ready 0, .ready 2, .drop 0])] (.runWith "b" [] []) smooth
      (fun client o _ => client.conn.pending = 2 && o.isOk) = some true := by
    decide +kernel
  obtain ⟨client, o, client', hrun, hstep, hlook⟩ := Client.observe_history hplay
  have h := replies_never_mixed obliging 0 0 hrun hstep (by simp)
  refine ⟨client, o, client', hrun, hstep, by simpa using hlook, ?_⟩
  cases client <;> exact h

end Boltwire
