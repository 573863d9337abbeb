import Boltwire.Answering
import Boltwire.Invariant

namespace Boltwire
open Future Server BoltConnection
variable {S : Server}

/-- The calls on the connection itself that send RUN, BEGIN or ROUTE. -/
def Call.opening : Call → Bool
  | .runWith .. | .runStreamWith .. | .beginWith _ | .route .. => true
  | _ => false

def opens (body : Body) : Prop :=
  signature body = RUN ∨ signature body = BEGIN ∨ signature body = ROUTE

/-- Past the first `k` requests of the log, whatever opens something found the
session READY. -/
abbrev FindsReady (S : Server) : ℕ → List Body → Prop :=
  Finds opens fun log => S.phase log = .ready

theorem not_opens_reset : ¬ opens resetBody := by
  unfold opens
  decide

theorem not_opens_pull {n : Int64} {qid : Option Int64} {b : Body}
    (h : Packed (Request.pull n qid) b) : ¬ opens b := by
  rw [opens, h.signature (plain_pull _ _).2]
  simp [Request.pull, Request.withN, Request.withMeta, PULL, RUN, BEGIN, ROUTE]

namespace BoltConnection

/-- `ensure_clean` sends nothing but RESET. -/
theorem Cleaned.findsReady {c c₁ : BoltConnection} (h : Cleaned S c c₁) :
    FindsReady S c.log.length c₁.log := by
  rcases h with ⟨rfl, -, -⟩ | h
  · exact finds_self _
  · rw [h.log]
    exact Finds.concat (finds_self _) fun ho => absurd ho not_opens_reset

theorem NotReset.findsReady {c c' : BoltConnection} (h : NotReset S c c') :
    FindsReady S c.log.length c'.log := by
  rcases h.log with ⟨hl, -⟩ | hl
  · rw [hl]
    exact finds_self _
  · rw [hl]
    exact Finds.concat (finds_self _) fun ho => absurd ho not_opens_reset

/-- After `ensure_clean`, a request that opens something and perhaps a PULL. -/
theorem Cleaned.sent {c c₁ c' : BoltConnection} {req : Request} {pulls : List Request}
    {bodies : List Body} (h : Cleaned S c c₁) (hc : FreeInv S.law c) (hl : S.Lawful)
    (hpulls : ∀ r ∈ pulls, ∃ n qid, r = Request.pull n qid)
    (hpart : List.Forall₂ Packed (req :: pulls) bodies) (hlog : c'.log = c₁.log ++ bodies) :
    FindsReady S c.log.length c'.log := by
  rw [hlog]
  refine h.findsReady.partly (h.ready hc hl) (fun r hr b hb => ?_) (.all hpart)
  obtain ⟨n, qid, rfl⟩ := hpulls r hr
  exact not_opens_pull hb

theorem Failed.findsReady {c c' : BoltConnection} {req : Request} {pulls : List Request}
    {e : Option BoltError} (h : Failed S (req :: pulls) c e c') (hc : FreeInv S.law c)
    (hl : S.Lawful) (hpulls : ∀ r ∈ pulls, ∃ n qid, r = Request.pull n qid) :
    FindsReady S c.log.length c'.log := by
  rcases h.1 with h | ⟨c₁, hclean, hend⟩
  · exact h.findsReady
  · refine Finds.ended (c := c₁.armed) hclean.findsReady (hclean.ready hc hl)
      (fun r hr b hb => ?_) not_opens_reset hend
    obtain ⟨n, qid, rfl⟩ := hpulls r hr
    exact not_opens_pull hb

end BoltConnection

theorem Client.Effect.findsReady {call : Call} {client client' : Client}
    {o : Outcome BoltError Reply} (he : Effect S.peer call client o client') (hi : Inv S.law client)
    (hl : S.Lawful) (hcall : call.opening = true) :
    FindsReady S client.conn.log.length client'.conn.log := by
  have hpull : ∀ n qid, ∀ r ∈ [Request.pull n qid], ∃ n qid, r = Request.pull n qid := by
    intro n qid r hr
    exact ⟨n, qid, List.mem_singleton.mp hr⟩
  cases he with
  | @runWith query parameters extra c c' o hf =>
    rcases post_elim (wp_of_eq (post_runWith hi.tracked query parameters extra) hf) with
      ⟨_, -, -, c₁, m, m', b₁, b₂, hclean, -, hran⟩ | ⟨-, h⟩
    · exact hclean.sent hi hl (hpull (-1) none) (.cons hran.run (.cons hran.pull .nil)) hran.log
    · exact h.findsReady hi hl (hpull _ _)
  | @opened query parameters extra batch c c' s hf =>
    obtain ⟨c₁, m, b₁, b₂, hclean, -, hpipe⟩ :=
      wp_of_eq (post_runStreamWith hi.tracked query parameters extra batch) hf
    exact hclean.sent hi hl (hpull batch none) (.cons hpipe.run (.cons hpipe.pull .nil)) hpipe.log
  | @unopened query parameters extra batch c c' o hf hne =>
    rcases post_elim (wp_of_eq (post_runStreamWith hi.tracked query parameters extra batch) hf) with
      ⟨s, rfl, -⟩ | ⟨-, h⟩
    · exact absurd rfl (hne s)
    · exact h.findsReady hi hl (hpull _ _)
  | @begun opts c c' hf =>
    obtain ⟨-, c₁, m, b, hclean, ha⟩ := wp_of_eq (post_beginWith hi.tracked opts) hf
    exact hclean.sent hi hl (by simp) (.cons ha.packed .nil) ha.log
  | @unbegun opts c c' o hf hne =>
    rcases post_elim (wp_of_eq (post_beginWith hi.tracked opts) hf)
      with ⟨_, rfl, -⟩ | ⟨-, h⟩
    · exact absurd rfl hne
    · exact h.findsReady hi hl (by simp)
  | @route context db c c' o hf =>
    have hanswered : ∀ {c₁ : BoltConnection} {m : Meta} {b : Body}, Cleaned S c c₁ →
        Answered S (Request.route context db) c₁.armed b (.success m) c'.armed →
        FindsReady S c.log.length c'.log := by
      intro c₁ m b hclean ha
      exact hclean.sent hi hl (by simp) (.cons ha.packed .nil) ha.log
    rcases post_elim (wp_of_eq (post_route hi.tracked context db) hf) with
      ⟨table, -, -, c₁, m, b, hclean, -, ha⟩ | ⟨-, h | ⟨-, -, c₁, m, b, hclean, ha⟩⟩
    · exact hanswered hclean ha
    · exact h.findsReady hi hl (by simp)
    · exact hanswered hclean ha
  -- the other calls send nothing that a READY session is needed for
  | _ => cases hcall

theorem Client.log_withSched (sched : List Choice) (client : Client) :
    (client.withSched sched).conn.log = client.conn.log := by
  cases client <;> rfl

/-- In every history, RUN of an auto-commit query, BEGIN and ROUTE are received
in state READY. -/
theorem opening_requests_find_ready (S : Server) (hl : S.Lawful) (noops cut : ℕ)
    {client client' : Client} {call : Call} {o : Outcome BoltError Reply}
    (hrun : Client.History S.peer (.fresh noops cut) client)
    (hstep : Client.Step S.peer call client o client') (hcall : call.opening = true)
    {before after : List Body} {body : Body} (hlog : client'.conn.log = before ++ body :: after)
    (hnew : client.conn.log.length ≤ before.length)
    (hopens : signature body = RUN ∨ signature body = BEGIN ∨ signature body = ROUTE) :
    S.phase before = .ready := by
  obtain ⟨sched, hexec⟩ := hstep
  have hi := inv_withSched sched hrun.inv_of_fresh
  have h := (Client.exec_effect hexec).findsReady hi hl hcall
  rw [Client.log_withSched] at h
  exact h before body after hlog hnew hopens

/-- SUCCESS does not lead to FAILED. -/
theorem phase_next_success {p : Phase} (hp : p ≠ .failed) (sig : UInt8) (m : Meta) :
    p.next sig (.success m) ≠ .failed := by
  cases p with
  | failed => exact absurd rfl hp
  | ready => simp only [Phase.next]; split_ifs <;> simp
  | streaming => simp only [Phase.next]; split_ifs <;> simp
  | txReady => simp only [Phase.next]; split_ifs <;> simp
  | txStreaming => simp only [Phase.next]; split_ifs <;> simp

theorem phase_obliging (log : List Body) : obliging.phase log ≠ .failed := by
  induction log using List.reverseRecOn with
  | nil => exact Phase.noConfusion
  | append_singleton log b ih =>
    rw [phase_concat]
    exact phase_next_success ih (signature b) []

theorem lawful_obliging : obliging.Lawful where
  reset _ _ _ := ⟨[], rfl⟩
  ignores before _ h := absurd h (phase_obliging before)
  complete _ _ _ _ m hm := by
    cases hm
    rfl

/-- A transaction whose statement was dropped is dropped too; the query after it
still finds the session READY. -/
theorem opening_requests_find_ready_after_drop : ∃ client o client',
    Client.History obliging.peer (.fresh 0 0) client ∧
    Client.Step obliging.peer (.runWith "b" [] []) client o client' ∧
    ∃ before body after, client'.conn.log = before ++ body :: after ∧
      (client.conn.log.length ≤ before.length ∧ signature body = RUN) ∧
      obliging.phase before = .ready := by
  have hplay : Client.observe obliging.peer (.fresh 0 0)
      [(.beginWith .default, smooth), (.txRun "a" [], [.ready 0, .ready 0, .drop 0]),
        (.dropTx, [])] (.runWith "b" [] []) smooth
      (fun client _ client' => decide (client'.conn.log.length = client.conn.log.length + 3 ∧
        (client'.conn.log.drop (client.conn.log.length + 1)).head?.map signature = some RUN)) =
      some true := by
    decide +kernel
  obtain ⟨client, o, client', hrun, hstep, hlook⟩ := Client.observe_history hplay
  obtain ⟨hlen, hhead⟩ := of_decide_eq_true hlook
  obtain ⟨body, hbody, hsig⟩ := Option.map_eq_some_iff.mp hhead
  obtain ⟨after, hafter⟩ := List.head?_eq_some_iff.mp hbody
  have hlog : client'.conn.log = client'.conn.log.take (client.conn.log.length + 1) ++
      body :: after := by rw [← hafter, List.take_append_drop]
  have hnew : client.conn.log.length ≤
      (client'.conn.log.take (client.conn.log.length + 1)).length := by
    rw [List.length_take]
    omega
  refine ⟨client, o, client', hrun, hstep, _, body, after, hlog, ⟨hnew, hsig⟩, ?_⟩
  exact opening_requests_find_ready obliging lawful_obliging 0 0 hrun hstep rfl hlog hnew
    (.inl hsig)

end Boltwire
