import Boltwire.Answering
import Boltwire.Invariant

namespace Boltwire
open Future Server BoltConnection
variable {S : Server}

def OwesSuccess (S : Server) (c : BoltConnection) : Prop := ∃ m rs, Live S c (.success m :: rs)

/-- `log` was sent before this `rollback`, which leaves `c'`: Ok is returned if
this ROLLBACK succeeded and nothing is left unread, or a RESET has closed the
transaction, or is going to; and `needs_reset` stays set while replies are owed. -/
structure AnswersForItself (S : Server) (h : TxHistory) (log : List Body)
    (o : Outcome BoltError Reply) (c' : BoltConnection) : Prop where
  ok : o = .ok .unit →
    (∃ b m, c'.log = log ++ [b] ∧ Packed Request.rollback b ∧
      (S.answer log b).summary = .success m ∧ Live S c' []) ∨
    ResetSince S h.begun c'.log ∨ c'.needsReset = true
  owed : c'.needsReset = false → c'.pending = 0

theorem OwesSuccess.pending_pos {c : BoltConnection} (h : OwesSuccess S c) : 0 < c.pending := by
  obtain ⟨m, rs, hl⟩ := h
  rw [hl.owed, summaries_cons]
  simp [Response.isSummary]

theorem OwesSuccess.of_withSched {c : BoltConnection} (sched : List Choice)
    (h : OwesSuccess S { c with stream := { c.stream with sched } }) : OwesSuccess S c := by
  obtain ⟨m, rs, hl⟩ := h
  exact ⟨m, rs, hl.intact, hl.framed, hl.carries, hl.owed, hl.unanswered⟩

/-- An attempt that ended early is recovered, or still has to be. -/
theorem BoltConnection.Ended.owed {reqs : List Request} {c c' : BoltConnection}
    (h : Ended S reqs c.armed c') (hn : c'.needsReset = false) : c'.pending = 0 := by
  cases h with
  | dirty _ _ _ hn' _ =>
    have harmed : c'.needsReset = true := hn'
    rw [hn] at harmed
    cases harmed
  | settled _ _ _ _ hl => exact hl.owed

section
variable {h : TxHistory} {t t' : Transaction} {o : Outcome BoltError Unit}

/-- The transaction was over before. -/
theorem TxInv.answersForItself (hi : TxInv S.law h t) (hd : t.done = true)
    {o : Outcome BoltError Reply} : AnswersForItself S h t.conn.log o t.conn := by
  constructor
  · intro _
    by_cases hn : t.conn.needsReset = true
    · exact .inr (.inr hn)
    · obtain ⟨-, -, hreset⟩ := hi.ended hd (by simpa using hn)
      exact .inr (.inl hreset)
  · intro hn
    obtain ⟨hl, -, -⟩ := hi.ended hd hn
    exact hl.owed

/-- A SUCCESS was read, and none was owed before. -/
theorem answersForItself_closing {rs rs' : List Response} {b : Body} {m : Meta}
    (hown : ¬ OwesSuccess S t.conn) (hs : Sound S t.conn.armed rs)
    (hclose : Transaction.Closing S Request.rollback t.conn.armed rs b
      (.success m) rs' t'.conn.armed)
    {o : Outcome BoltError Reply} : AnswersForItself S h t.conn.log o t'.conn := by
  have hlive := hs.live hclose.intact
  have hnext := hclose.next
  cases rs with
  | cons r rs =>
    obtain ⟨rfl, -⟩ : r = .success m ∧ rs ++ _ = rs' := by simpa using hnext
    exact absurd ⟨m, rs, live_of_armed hlive⟩ hown
  | nil =>
    have ha := hclose.answered
    have hl : Live S t'.conn [] := live_of_armed ha.live
    constructor
    · intro _
      exact .inl ⟨b, m, ha.log, ha.packed, ha.summary, hl⟩
    · intro _
      exact hl.owed

/-- One call of `rollback`. -/
theorem TxInv.rollback (hi : TxInv S.law h t) (hown : t.done = true ∨ ¬ OwesSuccess S t.conn)
    (hf : Transaction.rollback S.peer t = (o, t')) :
    AnswersForItself S h t.conn.log (o.map fun _ => .unit) t'.conn := by
  obtain ⟨rs, hs⟩ := hi.tracked
  rcases post_elim (wp_of_eq (Transaction.post_rollback hs) hf) with
    ⟨_, rfl, ⟨hd, rfl⟩ | ⟨hd, -, m, b, rs', hclose⟩⟩ | ⟨hne, -, hu⟩
  · exact hi.answersForItself hd
  · have hown' : ¬ OwesSuccess S t.conn := hown.resolve_left (by simp [hd])
    exact answersForItself_closing hown' (Transaction.sound_armed hs) hclose
  · constructor
    · intro ho
      cases o with
      | ok a => exact absurd rfl (hne a)
      | err e => cases ho
      | dropped => cases ho
    · exact hu.ended.owed

end

/-- In every history: a `rollback` of a transaction that is over, or is not owed a
SUCCESS by an earlier statement, answers for itself. -/
theorem rollback_answers_for_itself (S : Server) (noops cut : ℕ) {h : TxHistory} {t : Transaction}
    {o : Outcome BoltError Reply} {client' : Client}
    (hrun : Client.History S.peer (.fresh noops cut) (.inTx h t))
    (hown : t.done = true ∨ ¬ OwesSuccess S t.conn)
    (hstep : Client.Step S.peer .rollback (.inTx h t) o client') :
    AnswersForItself S h t.conn.log o client'.conn := by
  obtain ⟨sched, hexec⟩ := hstep
  have hi : TxInv S.law h _ := inv_withSched sched hrun.inv_of_fresh
  have heffect := Client.exec_effect hexec
  cases heffect with
  | rollback hf =>
    apply hi.rollback ?_ hf
    exact hown.imp id fun hnot howes => hnot (howes.of_withSched sched)

/-- A transaction that has run a statement is rolled back. -/
theorem rollback_answers_for_itself_begun : ∃ h t o client',
    (Client.History obliging.peer (.fresh 0 0) (.inTx h t) ∧
      Client.Step obliging.peer .rollback (.inTx h t) o client') ∧
    (o.isOk = true ∧ client'.conn.needsReset = false) ∧
    AnswersForItself obliging h t.conn.log o client'.conn := by
  have hplay : Client.observe obliging.peer (.fresh 0 0)
      [(.beginWith .default, smooth), (.txRun "a" [], smooth)] .rollback smooth
      (fun client o client' => client.tx?.any fun p =>
        p.2.conn.pending == 0 && (o.isOk && !client'.conn.needsReset)) = some true := by
    decide +kernel
  obtain ⟨client, o, client', hrun, hstep, hlook⟩ := Client.observe_history hplay
  obtain ⟨⟨h, t⟩, htx, hseen⟩ := (Option.any_eq_true _ _).mp hlook
  cases Client.tx?_eq_some.mp htx
  obtain ⟨hp, hlook⟩ : t.conn.pending = 0 ∧ o.isOk = true ∧
      client'.conn.needsReset = false := by
    simpa using hseen
  have hown : ¬ OwesSuccess obliging t.conn := by
    intro howes
    have hpos := howes.pending_pos
    omega
  exact ⟨h, t, o, client', ⟨hrun, hstep⟩, hlook,
    rollback_answers_for_itself obliging 0 0 hrun (.inr hown) hstep⟩

/-- A statement is dropped once it is sent: `rollback` reads the SUCCESS of its
RUN, and clears `needs_reset` with two replies owed. -/
theorem rollback_reads_stale_reply : ¬ ∀ (S : Server) (noops cut : ℕ) (h : TxHistory)
    (t : Transaction) (o : Outcome BoltError Reply) (client' : Client),
    Client.History S.peer (.fresh noops cut) (.inTx h t) →
    Client.Step S.peer .rollback (.inTx h t) o client' →
    AnswersForItself S h t.conn.log o client'.conn := by
  intro hall
  have hplay : Client.observe obliging.peer (.fresh 0 0)
      [(.beginWith .default, smooth), (.txRun "a" [], [.ready 0, .ready 0, .drop 0])] .rollback
      smooth (fun client o client' => client.tx?.isSome && o.isOk &&
        !client'.conn.needsReset && client'.conn.pending == 2) = some true := by
    decide +kernel
  obtain ⟨client, o, client', hrun, hstep, hlook⟩ := Client.observe_history hplay
  obtain ⟨⟨⟨htx, -⟩, hn⟩, hp⟩ : ((client.tx?.isSome = true ∧ o.isOk = true) ∧
    client'.conn.needsReset = false) ∧ client'.conn.pending = 2 := by simpa using hlook
  obtain ⟨⟨h, t⟩, htx⟩ := Option.isSome_iff_exists.mp htx
  cases Client.tx?_eq_some.mp htx
  have howed := (hall obliging 0 0 h t o client' hrun hstep).owed hn
  omega

end Boltwire
