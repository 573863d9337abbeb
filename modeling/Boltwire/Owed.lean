import Boltwire.Operations
import Boltwire.Session
import Boltwire.Answering

namespace Boltwire
open Incremental Server Future

/-- The complete requests are answered in order, each with some records and then one summary.
GOODBYE is not answered. -/
def AnswersInOrder (peer : Peer) : Prop := ∀ before body, signature body ≠ GOODBYE →
  ∃ (rows : List (List BoltValue)) (summary : Response), summary.isSummary = true ∧
    Carries (rows.map Response.record ++ [summary]) (peer before body)

theorem Server.answersInOrder (S : Server) : AnswersInOrder S.peer :=
  fun before body h => ⟨_, _, S.isSummary before body, S.wire before body h⟩

def EndsInSummary (rs : List Response) : Prop := ∀ r ∈ rs.getLast?, r.isSummary = true

namespace EndsInSummary
variable {rs rs' : List Response}

theorem concat (rs : List Response) {r : Response} (h : r.isSummary = true) :
    EndsInSummary (rs ++ [r]) := by
  intro r' hr'
  rw [List.getLast?_concat] at hr'
  cases hr'
  exact h

theorem append (h : EndsInSummary rs) (h' : EndsInSummary rs') : EndsInSummary (rs ++ rs') := by
  intro r hr
  rw [List.getLast?_append] at hr
  cases hlast : rs'.getLast? with
  | none =>
    rw [hlast] at hr
    exact h r hr
  | some last =>
    rw [hlast] at hr
    cases hr
    exact h' r hlast

theorem tail {r : Response} (h : EndsInSummary (r :: rs)) : EndsInSummary rs := by
  intro last hlast
  apply h
  rw [List.getLast?_cons, Option.mem_def.mp hlast]
  rfl

/-- Without a summary nothing is left. -/
theorem eq_nil (h : EndsInSummary rs) (h0 : summaries rs = 0) : rs = [] := by
  rcases List.eq_nil_or_concat rs with rfl | ⟨init, last, rfl⟩
  · rfl
  · have hlast := h last (by simp)
    rw [List.concat_eq_append, summaries_append, summaries_cons, if_pos hlast] at h0
    omega

end EndsInSummary

theorem AnswersInOrder.replies {peer : Peer} (h : AnswersInOrder peer) (before : List Body)
    {bodies : List Body} (hb : ∀ b ∈ bodies, signature b ≠ GOODBYE) :
    ∃ rs, Carries rs (peer.replies before bodies) ∧ summaries rs = bodies.length ∧
      EndsInSummary rs := by
  induction bodies generalizing before with
  | nil => exact ⟨[], .nil rfl, rfl, by simp [EndsInSummary]⟩
  | cons body bodies ih =>
    obtain ⟨rows, summary, hsummary, hwire⟩ := h before body (hb body (List.mem_cons_self ..))
    obtain ⟨rs, hcarries, hcount, hends⟩ :=
      ih (before ++ [body]) fun b hmem => hb b (List.mem_cons_of_mem _ hmem)
    refine ⟨rows.map .record ++ [summary] ++ rs, hwire.append hcarries, ?_,
      (EndsInSummary.concat _ hsummary).append hends⟩
    rw [summaries_append, summaries_append, summaries_records, summaries_cons, if_pos hsummary,
      hcount, List.length_cons]
    simp [summaries]
    omega

/-- How many requests of a log are to be answered. -/
def due (log : List Body) : ℕ := (log.filter fun b => signature b ≠ GOODBYE).length

theorem due_append_plain {log bodies : List Body} (h : ∀ b ∈ bodies, signature b ≠ GOODBYE) :
    due (log ++ bodies) = due log + bodies.length := by
  have hall : bodies.filter (fun b => signature b ≠ GOODBYE) = bodies :=
    List.filter_eq_self.mpr fun b hb => by simpa using h b hb
  rw [due, List.filter_append, hall, List.length_append, due]

namespace BoltConnection

def returned : Outcome BoltError Response → List Response
  | .ok r => [r]
  | _ => []

/-- Reads and writes of an open connection, and the responses returned. Any of them may be cut off
at an await. -/
inductive Trace (peer : Peer) (c : BoltConnection) : List Response → BoltConnection → Prop
  | refl : Trace peer c [] c
  | write {read : List Response} {reqs : List Request} {c₁ c₂ : BoltConnection}
      {o : Outcome BoltError Unit} : Trace peer c read c₁ → (∀ req ∈ reqs, Plain req) →
    writeMessages peer reqs c₁ = (o, c₂) → Trace peer c read c₂
  | read {read : List Response} {c₁ c₂ : BoltConnection} {o : Outcome BoltError Response} :
    Trace peer c read c₁ → readMessage c₁ = (o, c₂) →
    Trace peer c (read ++ returned o) c₂
  | needsReset {read : List Response} {c₁ : BoltConnection} (b : Bool) :
      Trace peer c read c₁ → Trace peer c read { c₁ with needsReset := b }
  | sched {read : List Response} {c₁ : BoltConnection} (sched : List Choice) :
    Trace peer c read c₁ → Trace peer c read { c₁ with stream := { c₁.stream with sched } }

/-- A trace up to the close of the connection, after which nothing is read. -/
inductive Lifetime (peer : Peer) (c : BoltConnection) : List Response → BoltConnection → Prop
  | opened {read : List Response} {c₁ : BoltConnection} : Trace peer c read c₁ →
    Lifetime peer c read c₁
  | closed {read : List Response} {c₁ c₂ : BoltConnection} {o : Outcome BoltError Unit} :
    Trace peer c read c₁ → close peer c₁ = (o, c₂) → Lifetime peer c read c₂

variable {peer : Peer}

theorem Trace.trans {c c₁ c₂ : BoltConnection} {read read' : List Response}
    (h : Trace peer c read c₁) (h' : Trace peer c₁ read' c₂) :
    Trace peer c (read ++ read') c₂ := by
  induction h' with
  | refl =>
    rw [List.append_nil]
    exact h
  | write _ hreqs hw ih => exact ih.write hreqs hw
  | read _ hr ih =>
    rw [← List.append_assoc]
    exact ih.read hr
  | needsReset b _ ih => exact ih.needsReset b
  | sched sched _ ih => exact ih.sched sched

def Traced (peer : Peer) (c c' : BoltConnection) : Prop := ∃ read, Trace peer c read c'

instance : IsPreorder BoltConnection (Traced peer) where
  refl c := ⟨[], .refl⟩
  trans c₁ c₂ c₃ h h' := by
    obtain ⟨read, h⟩ := h
    obtain ⟨read', h'⟩ := h'
    exact ⟨_, h.trans h'⟩

theorem traced_primitive : OpenPrimitive peer (Traced peer) where
  needsReset _ b := ⟨[], Trace.refl.needsReset b⟩
  write _ hreqs _ := ⟨[], Trace.refl.write hreqs rfl⟩
  read _ := ⟨_, Trace.refl.read rfl⟩
  sched _ sched := ⟨[], Trace.refl.sched sched⟩

/-- An intact connection at a frame boundary, with the responses on their way to it. -/
structure Owing (c : BoltConnection) (rs : List Response) : Prop where
  intact : c.broken = false
  framed : ∃ fs : List Frame, c.stream.sent = fs.flatMap Frame.bytes
  carries : Carries rs c.unread
  owed : c.pending = summaries rs
  ends : EndsInSummary rs

/-- After the responses `read`, the connection is broken, or `pending` is what is still owed. -/
def Balanced (read : List Response) (c : BoltConnection) : Prop :=
  c.broken = true ∨ c.pending + summaries read = due c.log ∧ ∃ rs, Owing c rs

theorem Balanced.intact {read : List Response} {c : BoltConnection} (h : Balanced read c)
    (hb : c.broken = false) : c.pending + summaries read = due c.log ∧ ∃ rs, Owing c rs := by
  rcases h with h | h
  · rw [hb] at h
    cases h
  · exact h

/-- Flags other than `broken` and `pending` do not matter. -/
theorem Balanced.congr {read : List Response} {c c' : BoltConnection} (h : Balanced read c)
    (hsent : c'.stream.sent = c.stream.sent) (hin : c'.unread = c.unread)
    (hp : c'.pending = c.pending) (hb : c'.broken = c.broken) : Balanced read c' := by
  rcases h with h | ⟨hcount, rs, ho⟩
  · exact .inl (hb.trans h)
  · have hlog : c'.log = c.log := by rw [log, log, hsent]
    refine .inr ⟨by rw [hp, hlog, hcount], rs, hb.trans ho.intact, ?_, ?_,
      hp.trans ho.owed, ho.ends⟩
    · rw [hsent]
      exact ho.framed
    · rw [hin]
      exact ho.carries

/-- Requests that go out whole are owed from then on. -/
theorem Balanced.write (hpeer : AnswersInOrder peer) {read : List Response} {c c' : BoltConnection}
    {reqs : List Request} {o : Outcome BoltError Unit} (h : Balanced read c)
    (hreqs : ∀ req ∈ reqs, Plain req) (hw : Wrote peer reqs c o c') : Balanced read c' := by
  cases hw with
  | refused m hb => exact h
  | unencodable hb he => exact h
  | cut hb he ho => exact .inl rfl
  | @whole out sched hb he =>
    obtain ⟨hcount, rs, ho⟩ := h.intact hb
    obtain ⟨fs₀, hfs₀⟩ := ho.framed
    obtain ⟨fs, hfs, rfl, -⟩ := encodeAll_eq_ok he
    have hpacked := packed_map hfs
    have hplain := signature_ne_goodbye hpacked hreqs
    have hlog : received (c.stream.sent ++ fs.flatMap Frame.bytes) = c.log ++
        fs.map Frame.body := by
      rw [received_append hfs₀, received_flatMap, log]
    obtain ⟨new, hcarries, hnew, hends⟩ := hpeer.replies c.log hplain
    rw [List.nil_append]
    right
    constructor
    · change c.pending + (reqs.filter fun r => r.signature ≠ GOODBYE).length + summaries read =
        due (received (c.stream.sent ++ fs.flatMap Frame.bytes))
      rw [hlog, due_append_plain hplain, length_filter_plain hreqs, hpacked.length_eq]
      omega
    · refine ⟨rs ++ new, hb, ⟨fs₀ ++ fs, ?_⟩, ?_, ?_, ho.ends.append hends⟩
      · change c.stream.sent ++ fs.flatMap Frame.bytes = _
        rw [hfs₀, List.flatMap_append]
      · change Carries _ (c.rbuf ++ (c.stream.deliver peer (fs.flatMap Frame.bytes)).inbound)
        rw [inbound_deliver peer hfs₀ fs, ← List.append_assoc]
        exact ho.carries.append hcarries
      · change c.pending + (reqs.filter fun r => r.signature ≠ GOODBYE).length = _
        rw [length_filter_plain hreqs, hpacked.length_eq, ho.owed, summaries_append, hnew]

/-- A summary that is read was owed, and is owed no more. -/
theorem Balanced.read {read : List Response} {c c' : BoltConnection}
    {o : Outcome BoltError Response} (h : Balanced read c) (hr : Read c o c') :
    Balanced (read ++ returned o) c' ∧ ∀ r, o = .ok r → r.isSummary = true →
      0 < c.pending := by
  cases hr with
  | refused m hb => exact ⟨.inl hb, by simp⟩
  | lost hb hne hb' => exact ⟨.inl hb', by simp⟩
  | @stopped _ o hb ho hsh =>
    obtain ⟨hcount, rs, how⟩ := h.intact hb
    have hlog : c'.log = c.log := by rw [log, log, hsh.sent]
    have hnone : returned o = [] ∧ ∀ r, o ≠ .ok r := by
      rcases ho with rfl | rfl
      · exact ⟨rfl, by simp⟩
      · exact ⟨rfl, by simp⟩
    rw [hnone.1, List.append_nil]
    refine ⟨.inr ⟨by rw [hsh.pending, hlog, hcount], rs, hsh.broken.trans hb, ?_, ?_,
      hsh.pending.trans how.owed, how.ends⟩, fun r hr => absurd hr (hnone.2 r)⟩
    · rw [hsh.sent]
      exact how.framed
    · obtain ⟨n, hn⟩ := hsh.noops
      exact how.carries.congr (by rw [hn, dropNoops_replicate])
  | @message _ body r hb hcut hd hs ho hn hb' hp =>
    obtain ⟨hcount, rs, how⟩ := h.intact hb
    have hlog : c'.log = c.log := by rw [log, log, hs]
    obtain ⟨r', rs', rfl, hd', hcarries⟩ := how.carries.takeMessage hcut
    cases hd.symm.trans hd'
    have howed := how.owed
    rw [summaries_cons] at howed
    have hread : summaries (read ++ returned (.ok r)) =
        summaries read + if r.isSummary then 1 else 0 := by
      rw [returned, summaries_append, summaries_cons]
      simp [summaries]
    refine ⟨.inr ⟨?_, rs', hb', ?_, hcarries, ?_, how.ends.tail⟩, ?_⟩
    · rw [hp, hlog, hread, ← hcount]
      split_ifs at howed ⊢ <;> omega
    · rw [hs]
      exact how.framed
    · rw [hp]
      split_ifs at howed ⊢ <;> omega
    · intro r₁ hr₁ hsummary
      cases hr₁
      rw [if_pos hsummary] at howed
      omega

/-- The count is right all along a trace. -/
theorem Trace.balanced (hpeer : AnswersInOrder peer) {c c' : BoltConnection} {read : List Response}
    (h : Trace peer c read c') (hstart : Balanced [] c) : Balanced read c' := by
  induction h with
  | refl => exact hstart
  | @write read reqs c₁ c₂ o _ hreqs hw ih =>
    have hwrote := Future.wp_of_eq (wp_writeMessages reqs c₁) hw
    exact ih.write hpeer hreqs hwrote
  | @read read c₁ c₂ o _ hr ih => exact (ih.read (Future.wp_of_eq (wp_readMessage c₁) hr)).1
  | needsReset b _ ih => exact ih.congr rfl rfl rfl rfl
  | sched sched _ ih => exact ih.congr rfl rfl rfl rfl

/-- GOODBYE is not owed an answer. -/
theorem Balanced.close {read : List Response} {c c' : BoltConnection} {o : Outcome BoltError Unit}
    (h : Balanced read c) (hc : close peer c = (o, c')) (hb : c'.broken = false) :
    c'.pending + summaries read = due c'.log := by
  suffices hwp : Future.wp (BoltConnection.close peer)
      (fun _ c' => c'.broken = false → c'.pending + summaries read = due c'.log) c from
    Future.wp_of_eq hwp hc hb
  rw [BoltConnection.close, Future.wp_bind, Future.wp_get, Future.andThen]
  cases hbroken : c.broken with
  | true =>
    refine Future.wp_mono (wp_flush c) ?_
    rintro o c₁ ⟨-, sched, rfl⟩ hb
    rw [hbroken] at hb
    contradiction
  | false =>
    change Future.wp (writeMessages peer [Request.goodbye] >>= fun _ => flush) _ c
    rw [Future.wp_bind]
    refine Future.wp_mono (wp_writeMessages [Request.goodbye] c) ?_
    intro o c₁ hw
    have hcount := (h.intact hbroken).1
    cases hw with
    | refused m hb => exact fun _ => hcount
    | unencodable hb he => exact fun _ => hcount
    | @cut out sched k o hb he ho =>
      rcases ho with rfl | ⟨kind, rfl⟩ <;> exact fun hb => absurd hb (by simp)
    | @whole out sched hb he =>
      obtain ⟨-, rs, ho⟩ := h.intact hb
      obtain ⟨fs₀, hfs₀⟩ := ho.framed
      obtain ⟨fs, hfs, rfl, -⟩ := encodeAll_eq_ok he
      have hpacked := packed_map hfs
      have hlog : received (c.stream.sent ++ fs.flatMap Frame.bytes) =
          c.log ++ fs.map Frame.body := by
        rw [received_append hfs₀, received_flatMap, log]
      have hdue : due (c.log ++ fs.map Frame.body) = due c.log := by
        obtain ⟨body, rest, hbody, hrest, hmap⟩ := List.forall₂_cons_left_iff.mp hpacked
        cases hrest
        have hsig : signature body = GOODBYE := hbody.signature (by decide)
        rw [hmap, due, List.filter_append, due]
        simp [hsig]
      rw [Future.andThen]
      refine Future.wp_mono (wp_flush _) ?_
      rintro o c₂ ⟨-, sched', rfl⟩ _
      change c.pending + 0 + summaries read = due (received (c.stream.sent ++ ([] ++ _)))
      rw [List.nil_append, hlog, hdue, Nat.add_zero, hcount]

theorem Lifetime.count (hpeer : AnswersInOrder peer) {c c' : BoltConnection} {read : List Response}
    (h : Lifetime peer c read c') (hstart : Balanced [] c) (hb : c'.broken = false) :
    c'.pending + summaries read = due c'.log := by
  cases h with
  | opened h => exact ((h.balanced hpeer hstart).intact hb).1
  | closed h hc => exact (h.balanced hpeer hstart).close hc hb

end BoltConnection

open BoltConnection

namespace Client
variable {peer : Peer}

def idle? : Client → Option BoltConnection
  | idle c => some c
  | _ => none

theorem idle?_eq_some {client : Client} {c : BoltConnection} :
    client.idle? = some c ↔ client = .idle c := by
  cases client <;> simp [idle?]

/-- Every history has a trace. A connection that is gone may have been closed. -/
theorem History.traced {client client' : Client} (h : History peer client client') :
    Traced peer client.conn client'.conn ∨
      ∃ c, client' = .gone c ∧ ∃ read, Lifetime peer client.conn read c := by
  induction h with
  | refl => exact .inl (refl_of (Traced peer) _)
  | @step client₁ client₂ call o hrun _ hstep ih =>
    obtain ⟨sched, hexec⟩ := hstep
    have heffect := exec_effect hexec
    rcases ih with htraced | ⟨c, rfl, -⟩
    · have hsched := trans_of (Traced peer) htraced
        (rel_withSched traced_primitive client₁ sched)
      rcases rel_or_closed traced_primitive heffect with hrel | ⟨o, hclose, hgone⟩
      · exact .inl (trans_of (Traced peer) hsched hrel)
      · obtain ⟨read, htrace⟩ := hsched
        exact .inr ⟨_, hgone, read, .closed htrace hclose⟩
    -- no call is made on a connection that is gone
    · change Effect _ _ (.gone _) _ _ at heffect
      cases heffect with
      | close hc => rcases hc with hc | hc <;> cases hc

/-- What is put into the idle list could be used again. -/
theorem History.idle {client client' : Client} (h : History peer client client')
    {c : BoltConnection}
    (hidle : client' = .idle c) : client = .idle c ∨ c.isReusable = true := by
  cases h with
  | refl => exact .inl hidle
  | @step client₁ _ call o hrun _ hstep =>
    obtain ⟨sched, hexec⟩ := hstep
    have heffect := exec_effect hexec
    rw [hidle] at heffect
    generalize client₁.withSched sched = client₁' at heffect
    cases heffect with
    | released hc => exact .inr hc

end Client

/-- `pending` is what is owed, in every state of every history at an await or after a call. -/
theorem pending_counts_replies_owed {peer : Peer} (hpeer : AnswersInOrder peer) (noops cut : ℕ) :
    (∀ client, Client.History peer (.fresh noops cut) client →
      ∃ read, Lifetime peer (Client.fresh noops cut).conn read client.conn) ∧
    (∀ read c, Lifetime peer (Client.fresh noops cut).conn read c → c.broken = false →
      c.pending + summaries read = due c.log) ∧
    (∀ read c r c', Trace peer (Client.fresh noops cut).conn read c →
      readMessage c = (.ok r, c') → r.isSummary = true → 0 < c.pending) ∧
    ∀ c, Client.History peer (.fresh noops cut) (.idle c) →
      c.pending = 0 ∧ Carries [] c.unread ∧
        ∃ fs : List Frame, c.stream.sent = fs.flatMap Frame.bytes := by
  have hstart : Balanced [] (Client.fresh noops cut).conn := by
    have hlog : (Client.fresh noops cut).conn.log = [] := received_nil
    refine .inr ⟨by rw [hlog]; rfl, [], rfl, ⟨[], rfl⟩, .nil ?_,
      rfl, by simp [EndsInSummary]⟩
    have hnoops := dropNoops_replicate noops []
    rw [List.append_nil] at hnoops
    change dropNoops (List.take cut _ ++ List.drop cut _) = []
    rw [List.take_append_drop, hnoops]
    rfl
  refine ⟨?_, ?_, ?_, ?_⟩
  · intro client h
    rcases Client.History.traced h with ⟨read, htrace⟩ | ⟨c, rfl, hlife⟩
    · exact ⟨read, .opened htrace⟩
    · exact hlife
  · intro read c h hb
    exact h.count hpeer hstart hb
  · intro read c r c' h hr hsummary
    have hread := Future.wp_of_eq (wp_readMessage c) hr
    exact ((h.balanced hpeer hstart).read hread).2 r rfl hsummary
  · intro c h
    have hreusable : c.isReusable = true := (Client.History.idle h rfl).resolve_left
      (by simp [Client.fresh])
    obtain ⟨hb, hp⟩ : c.broken = false ∧ c.pending = 0 := by
      simpa [isReusable] using hreusable
    rcases Client.History.traced h with ⟨read, htrace⟩ | ⟨c', hgone, -⟩
    · obtain ⟨-, rs, ho⟩ := (htrace.balanced hpeer hstart).intact hb
      have hnil := ho.ends.eq_nil (ho.owed.symm.trans hp)
      exact ⟨hp, hnil ▸ ho.carries, ho.framed⟩
    · cases hgone

/-- A connection that went into the idle list after a query. -/
theorem nothing_owed_after_query : ∃ c,
    Client.History obliging.peer (.fresh 0 0) (.idle c) ∧ c.log.length = 2 ∧
      c.pending = 0 ∧ Carries [] c.unread ∧
        ∃ fs : List Frame, c.stream.sent = fs.flatMap Frame.bytes := by
  have hplay : Client.observe obliging.peer (.fresh 0 0) [(.runWith "a" [] [], smooth)]
      (.release false) [] (fun _ _ client' => client'.idle?.any fun c => c.log.length == 2) =
      some true := by
    decide +kernel
  obtain ⟨client, o, client', hrun, hstep, hlook⟩ := Client.observe_history hplay
  obtain ⟨c, hidle, hlen⟩ := (Option.any_eq_true _ _).mp hlook
  cases Client.idle?_eq_some.mp hidle
  have hhistory := hrun.step trivial hstep
  exact ⟨c, hhistory, by simpa using hlen,
    (pending_counts_replies_owed obliging.answersInOrder 0 0).2.2.2 c hhistory⟩

end Boltwire
