import Boltwire.Phases
import Boltwire.TxOps

namespace Boltwire
open Future Server BoltConnection RecordStream
variable {S : Server} {L : Law S}

/-- A connection that nothing borrows. Replies may be owed with `needs_reset`
unset; the next operation resets the session in that case too. -/
structure FreeInv (L : Law S) (c : BoltConnection) : Prop where
  tracked : Tracked S c
  ready : c.broken = false → c.needsReset = false → c.pending = 0 → Ready L c.log

def ResetSince (S : Server) (k : ℕ) (log : List Body) : Prop :=
  ∃ before after m, log = before ++ resetBody :: after ∧ k ≤ before.length ∧
    (S.answer before resetBody).summary = .success m

structure TxInv (L : Law S) (h : TxHistory) (t : Transaction) : Prop where
  tracked : Tracked S t.conn
  begun : h.begun ≤ t.conn.log.length
  opened : t.Startable → Live S t.conn [] ∧ Between L h t.conn.log
  ended : t.done = true → t.conn.needsReset = false →
    Live S t.conn [] ∧ Ready L t.conn.log ∧ ResetSince S h.begun t.conn.log

/-- Whoever holds the connection: which replies are still unread, and, when the flags say
that all is in order, in which state the session is. -/
def Inv (L : Law S) : Client → Prop
  | .free c | .idle c => FreeInv L c
  | .gone _ => True
  | .streaming k s => Flow S k (Streaming L) (Ready L) s
  | .inTx h t => TxInv L h t
  | .txStreaming h done k s => done = false ∧ h.begun ≤ k ∧
      Flow S k (Within L h) (Between L h) s

def ResetSucceeds (S : Server) (log : List Body) : Prop :=
  ∃ m, (S.answer log resetBody).summary = .success m

/-- The call sends RESET first, `needs_reset` or not. -/
def Call.resets (pending : ℕ) : Call → Bool
  | .reset => true
  | .runWith .. | .runStreamWith .. | .beginWith _ | .route .. => 0 < pending
  | _ => false

/-- If the call sends a RESET with `needs_reset` unset, the RESET would succeed, also where
its write is then cut off. -/
def Forewarned (S : Server) (call : Call) : Client → Prop
  | .free c => c.needsReset = false → call.resets c.pending = true → ResetSucceeds S c.log
  | _ => True

theorem Server.Lawful.forewarned (h : S.Lawful) (call : Call) (client : Client) :
    Forewarned S call client := by
  cases client with
  | free c => exact fun _ _ => h.reset c.log resetBody rfl
  | _ => trivial

section Free
variable {c c' : BoltConnection}

theorem FreeInv.of_live (h : Live S c []) (hr : Ready L c.log) : FreeInv L c :=
  ⟨⟨[], .inr h⟩, fun _ _ _ => hr⟩

theorem FreeInv.of_needsReset (h : Tracked S c) (hn : c.needsReset = true) : FreeInv L c := by
  refine ⟨h, fun _ hn' => ?_⟩
  rw [hn] at hn'
  cases hn'

theorem FreeInv.of_closed {k : ℕ} (h : Closed S k (Ready L) c) : FreeInv L c :=
  ⟨h.tracked, fun hb hn _ => (h.clean hb hn).2⟩

end Free

namespace BoltConnection
variable {c c' : BoltConnection}

theorem WasReset.freeInv (h : WasReset S c c') : FreeInv L c' := by
  obtain ⟨m, hm⟩ := h.success
  refine .of_live h.live ?_
  rw [h.log]
  exact ready_reset hm

/-- A RESET that did not succeed. It leaves `needs_reset` as it was, so where that
is unset the RESET has to be one that succeeds: it was not sent, or its reply is
still owed. -/
theorem NotReset.freeInv (h : NotReset S c c') (hc : FreeInv L c)
    (hw : L.holds → c.needsReset = false → ResetSucceeds S c.log) : FreeInv L c' := by
  refine ⟨h.tracked, fun hb hn hp => ?_⟩
  rcases h.log with ⟨-, rfl | hb'⟩ | hlog
  · exact hc.ready hb hn hp
  · rw [hb] at hb'
    cases hb'
  · intro hl
    obtain ⟨m, hm⟩ := hw hl (h.needsReset.symm.trans hn)
    rw [hlog]
    exact ready_reset hm hl

theorem Unclean.freeInv (h : Unclean S c c') (hc : FreeInv L c)
    (hw : L.holds → c.needsReset = false → 0 < c.pending → ResetSucceeds S c.log) :
    FreeInv L c' := by
  by_cases hp : 0 < c.pending
  · exact h.toNotReset.freeInv hc fun hl hn => hw hl hn hp
  by_cases hn : c.needsReset = true
  · exact .of_needsReset h.tracked (h.needsReset.trans hn)
  · rw [h.kept (by simpa using hn) (by omega)]
    exact hc

theorem Cleaned.ready (h : Cleaned S c c') (hc : FreeInv L c) : Ready L c'.log := by
  rcases h with ⟨rfl, hn, hl⟩ | h
  · exact hc.ready hl.intact hn hl.owed
  · exact h.freeInv.ready h.live.intact h.needsReset h.live.owed

theorem Ended.freeInv {reqs : List Request} (h : Ended S reqs c.armed c') : FreeInv L c' := by
  cases h with
  | dirty _ _ _ hn ht => exact .of_needsReset ht hn
  | @settled bodies m _ _ hlog hm _ hl =>
    refine .of_live hl ?_
    rw [hlog, ← List.append_assoc]
    exact ready_reset hm

theorem Failed.freeInv {reqs : List Request} {e : Option BoltError} (h : Failed S reqs c e c')
    (hc : FreeInv L c)
    (hw : L.holds → c.needsReset = false → 0 < c.pending → ResetSucceeds S c.log) :
    FreeInv L c' := by
  rcases h.1 with h | ⟨c₁, -, h⟩
  · exact h.freeInv hc hw
  · exact h.freeInv

/-- Unset `needs_reset` again: the connection is as live as before. -/
theorem live_of_armed {rs : List Response} (h : Live S c.armed rs) : Live S c rs :=
  h.congr rfl rfl rfl rfl

end BoltConnection

section FreeOps
variable {c : BoltConnection} (hc : FreeInv L c)
  (hw : L.holds → c.needsReset = false → 0 < c.pending → ResetSucceeds S c.log)
include hc hw

theorem inv_runWith (query : String) (parameters extra : Meta) :
    wp (runWith S.peer query parameters extra)
    (post (fun _ => FreeInv L) fun _ => FreeInv L) c := by
  refine post_mono (post_runWith hc.tracked query parameters extra) ?_ fun _ _ h => h.freeInv hc hw
  rintro r c' ⟨-, c₁, m, m', b₁, b₂, hclean, -, hran⟩
  have hready := (hclean.ready hc).query hran.success (hran.run.signature (plain_run ..).2)
    hran.success' hran.pull
  exact .of_live (live_of_armed hran.live) (hran.log ▸ hready)

theorem inv_runStreamWith (query : String) (parameters extra : Meta) (batch : Int64) :
    wp (runStreamWith S.peer query parameters extra batch)
      (post (fun s c' => Flow S c.log.length (Streaming L) (Ready L) ⟨s, c'⟩)
        fun _ => FreeInv L) c := by
  refine post_mono (post_runStreamWith hc.tracked query parameters extra batch) ?_
    fun _ _ h => h.freeInv hc hw
  rintro s c' ⟨c₁, m, b₁, b₂, hclean, rfl, hpipe⟩
  have hopen := (hclean.ready hc).run hpipe.success (hpipe.run.signature (plain_run ..).2)
  exact .opened hpipe hclean.length_le rfl hopen

theorem inv_beginWith (opts : TxOptions) : wp (beginWith S.peer opts)
    (post (fun _ c' => TxInv L ⟨c'.log.length, false⟩ ⟨c', false⟩) fun _ => FreeInv L)
    c := by
  refine post_mono (post_beginWith hc.tracked opts) ?_ fun _ _ h => h.freeInv hc hw
  rintro _ c' ⟨-, c₁, m, b, hclean, ha⟩
  have hbetween := (hclean.ready hc).begin ha.summary (ha.packed.signature (plain_begin _).2)
  have hlog : c'.log = c₁.log ++ [b] := ha.log
  have hl : Live S c' [] := live_of_armed ha.live
  rw [← hlog] at hbetween
  exact ⟨⟨[], .inr hl⟩, Nat.le_refl _, fun _ => ⟨hl, hbetween⟩, by simp⟩

theorem inv_route (context : Meta) (db : Option String) : wp (route S.peer context db)
    (post (fun _ => FreeInv L) fun _ => FreeInv L) c := by
  have hdone : ∀ {c₁ c' : BoltConnection} {m : Meta} {b : Body}, Cleaned S c c₁ →
      Answered S (Request.route context db) c₁.armed b (.success m) c'.armed →
      FreeInv L c' := by
    intro c₁ c' m b hclean ha
    have hready := (hclean.ready hc).route ha.summary (ha.packed.signature (plain_route _ _).2)
    exact .of_live (live_of_armed ha.live) (ha.log ▸ hready)
  refine post_mono (post_route hc.tracked context db) ?_ ?_
  · rintro _ c' ⟨-, c₁, m, b, hclean, -, ha⟩
    exact hdone hclean ha
  · rintro e c' (h | ⟨-, -, c₁, m, b, hclean, ha⟩)
    · exact h.freeInv hc hw
    · exact hdone hclean ha

omit hw in
theorem inv_reset (hw : L.holds → c.needsReset = false → ResetSucceeds S c.log) :
    wp (reset S.peer) (post (fun _ => FreeInv L) fun _ => FreeInv L) c :=
  post_mono (post_reset hc.tracked) (fun _ _ h => h.freeInv) fun _ _ h => h.1.freeInv hc hw

end FreeOps

section Tx
variable {h : TxHistory} {t t' : Transaction}

/-- A statement or COMMIT that was turned away. -/
theorem TxInv.turnedAway {e : Option BoltError} (hi : TxInv L h t)
    (ht : Transaction.TurnedAway t e t') : TxInv L h t' := by
  rcases ht.2 with rfl | ⟨hn, rfl⟩
  · exact hi
  · refine ⟨hi.tracked, hi.begun, fun hs => ?_, fun _ hn' => ?_⟩
    · cases hs.done
    · rw [hn] at hn'
      cases hn'

theorem TxInv.abandoned {reqs : List Request} {e : Option BoltError} (hi : TxInv L h t)
    (ha : Transaction.Abandoned S reqs t e t') : TxInv L h t' := by
  have hlog : ∀ {c' : BoltConnection}, Ended S reqs t.conn.armed c' →
      h.begun ≤ c'.log.length := by
    intro c' hend
    obtain ⟨bodies, last, -, -, hl⟩ := hend.log_eq
    rw [hl, List.length_append]
    exact Nat.le_add_right_of_le hi.begun
  cases ha with
  | turnedAway ht => exact hi.turnedAway ht
  -- a failed statement marks the transaction done, so it is not startable
  | @failed x c' hs hstop =>
    have hfree : FreeInv L c' := hstop.ended.freeInv
    refine ⟨hfree.tracked, hlog hstop.ended, fun hs' => ?_, fun _ hn => ?_⟩
    · cases hs'.done
    · cases hstop.ended with
      | dirty _ _ _ hn' _ =>
        rw [show c'.needsReset = true from hn'] at hn
        cases hn
      | @settled bodies m _ _ hl hm _ hlive =>
        refine ⟨hlive, hfree.ready hlive.intact hn hlive.owed, _, [], m, ?_, ?_, hm⟩
        · rw [hl, ← List.append_assoc]
        · rw [List.length_append]
          exact Nat.le_add_right_of_le hi.begun
  | @dropped c' hs hstop =>
    have hfree : FreeInv L c' := hstop.ended.freeInv
    refine ⟨hfree.tracked, hlog hstop.ended, fun hs' => ?_, by simp⟩
    have hn : c'.needsReset = true := hstop.dropped rfl
    cases hn.symm.trans hs'.needsReset

theorem inv_txRun (hi : TxInv L h t) (query : String) (parameters : Meta) :
    wp (Transaction.run S.peer query parameters)
      (post (fun _ => TxInv L h) fun _ => TxInv L h) t := by
  refine post_mono (Transaction.post_run (fun hs => (hi.opened hs).1) query parameters) ?_
    fun _ _ => hi.abandoned
  rintro r t' ⟨hs, hd, -, m, m', b₁, b₂, -, hran⟩
  have hl : Live S t'.conn [] := live_of_armed hran.live
  have hbetween := (hi.opened hs).2.query hran.success (hran.run.signature (plain_run ..).2)
    hran.success' hran.pull
  have hlog : t'.conn.log = t.conn.log ++ [b₁, b₂] := hran.log
  refine ⟨⟨[], .inr hl⟩, ?_, fun _ => ⟨hl, hlog ▸ hbetween⟩, fun hd' => ?_⟩
  · rw [hlog, List.length_append]
    exact Nat.le_add_right_of_le hi.begun
  · rw [hd] at hd'
    cases hd'

theorem inv_txRunStream (hi : TxInv L h t) (query : String) (parameters : Meta) (batch : Int64) :
    wp (Transaction.runStream S.peer query parameters batch)
      (post (fun s t' => Inv L (.txStreaming h t'.done t.conn.log.length ⟨s, t'.conn⟩))
        fun _ => TxInv L h) t := by
  refine post_mono (Transaction.post_runStream (fun hs => (hi.opened hs).1) query parameters batch)
    ?_ fun _ _ => hi.abandoned
  rintro s t' ⟨hs, hd, m, b₁, b₂, rfl, hpipe⟩
  have hopen := (hi.opened hs).2.run hpipe.success (hpipe.run.signature (plain_run ..).2)
  exact ⟨hd, hi.begun, .opened hpipe (Nat.le_refl _) rfl hopen⟩

/-- A transaction dropped, or ended without a word to the server. -/
theorem TxInv.drop (hi : TxInv L h t) : FreeInv L t.drop.conn := by
  unfold Transaction.drop
  split_ifs with hd
  · exact ⟨hi.tracked, fun _ hn _ => (hi.ended hd hn).2.1⟩
  · obtain ⟨rs, hs⟩ := hi.tracked
    exact .of_needsReset ⟨rs, Transaction.sound_armed hs⟩ rfl

theorem inv_commit (hi : TxInv L h t) : wp (Transaction.commit S.peer)
    (post (fun _ t' => FreeInv L t'.conn) fun _ t' => FreeInv L t'.conn) t := by
  refine post_mono (Transaction.post_commit fun hs => (hi.opened hs).1) ?_ ?_
  · rintro r t' ⟨-, -, m, b, -, ha⟩
    have hsig : signature b = COMMIT := ha.packed.signature BoltConnection.plain_commit.2
    exact .of_live (live_of_armed ha.live) (ha.log ▸ ready_end ha.summary (.inl hsig))
  · rintro e t' (⟨t₁, hturn, rfl⟩ | ⟨-, hu⟩)
    · exact (hi.turnedAway hturn).drop
    · exact hu.ended.freeInv

/-- What ROLLBACK leaves owed is not forgotten: only its own reply counts as the end. -/
theorem inv_rollback (hi : TxInv L h t) : wp (Transaction.rollback S.peer)
    (post (fun _ t' => FreeInv L t'.conn) fun _ t' => FreeInv L t'.conn) t := by
  obtain ⟨rs, hs⟩ := hi.tracked
  refine post_mono (Transaction.post_rollback hs) ?_ fun _ _ h => h.2.ended.freeInv
  rintro _ t' (⟨hd, rfl⟩ | ⟨-, hn, m, b, rs', hclose⟩)
  · have hdrop := hi.drop
    rwa [Transaction.drop_of_done hd] at hdrop
  · have hl : Live S t'.conn rs' := live_of_armed hclose.live
    refine ⟨⟨rs', .inr hl⟩, fun _ _ hp => ?_⟩
    obtain rfl := hl.eq_nil hp
    have hnext := hclose.next
    obtain ⟨rfl, hm⟩ : rs = [] ∧ (S.answer t.conn.log b).summary = .success m := by
      cases rs with
      | nil => simpa using hnext
      | cons r rs => simp at hnext
    have hsig : signature b = ROLLBACK := hclose.packed.signature BoltConnection.plain_rollback.2
    have hlog : t'.conn.log = t.conn.log ++ [b] := hclose.log
    rw [hlog]
    exact ready_end hm (.inr hsig)

end Tx

section TxStream
variable {h : TxHistory} {k : ℕ} {log : List Body}

/-- Once recovered, less is asked. -/
theorem Within.recover (hw : Within L h log) (r : Bool) :
    Within L { h with recovered := h.recovered || r } log :=
  ⟨hw.1, fun hr => hw.2 (by simpa using (Bool.or_eq_false_iff.mp hr).1)⟩

theorem Between.recover (hw : Between L h log) (r : Bool) :
    Between L { h with recovered := h.recovered || r } log :=
  ⟨hw.1, fun hr => hw.2 (by simpa using (Bool.or_eq_false_iff.mp hr).1)⟩

theorem between_of_justReset (hj : JustReset S k log) :
    Between L { h with recovered := true } log := by
  obtain ⟨before, m, rfl, -, hm⟩ := hj
  exact ⟨fun hl => .inr (ready_reset hm hl), by simp⟩

theorem within_after {α : Type} (o : Outcome BoltError α) (c : BoltConnection)
    (hw : Within L h log) : Within L (h.after o c) log := by
  unfold TxHistory.after
  split
  · exact hw.recover _
  · exact hw

/-- Where the session stands after a call of the stream, if the flags say that
all is in order. -/
theorem between_after {α : Type} {o : Outcome BoltError α} {c : BoltConnection}
    (hn : c.needsReset = false) (hw : ShutBy S k (Between L h) o.error c.log) :
    Between L (h.after o c) c.log := by
  rcases hw with hw | ⟨⟨code, message, he⟩, hj⟩
  · unfold TxHistory.after
    split
    · exact hw.recover _
    · exact hw
  · cases o with
    | err e =>
      cases he
      simp only [TxHistory.after, hn, Bool.not_false, Bool.or_true]
      exact between_of_justReset hj
    | ok a => cases he
    | dropped => cases he

theorem begun_after {α : Type} (o : Outcome BoltError α) (c : BoltConnection) :
    (h.after o c).begun = h.begun := by
  unfold TxHistory.after
  split <;> rfl

variable {s : RecordStream} {done : Bool}

theorem FlowEnd.after {α : Type} {o : Outcome BoltError α}
    (hf : FlowEnd S k (Within L h) (Between L h) o.error s) :
    Flow S k (Within L (h.after o s.conn)) (Between L (h.after o s.conn)) s :=
  hf.1.mono (fun _ => within_after o s.conn) fun hn hw => between_after hn hw

/-- A stream that is over hands the connection back to its transaction. -/
theorem TxInv.of_closed {h : TxHistory} {c : BoltConnection} (hc : Closed S k (Between L h) c)
    (hk : h.begun ≤ k) : TxInv L h ⟨c, false⟩ :=
  ⟨hc.tracked, hk.trans hc.start, fun hs => hc.clean hs.intact hs.needsReset, by simp⟩

theorem TxInv.after {α : Type} {o : Outcome BoltError α} {c : BoltConnection}
    (hc : Closed S k (ShutBy S k (Between L h) o.error) c) (hk : h.begun ≤ k) :
    TxInv L (h.after o c) ⟨c, false⟩ := by
  refine .of_closed (k := k) ⟨hc.start, hc.tracked, fun hb hn => ?_⟩ ?_
  · obtain ⟨hl, hw⟩ := hc.clean hb hn
    exact ⟨hl, between_after hn hw⟩
  · rw [begun_after]
    exact hk

end TxStream

theorem shutBy_ready {k : ℕ} {e : Option BoltError} {log : List Body}
    (h : ShutBy S k (Ready L) e log) : Ready L log := by
  rcases h with h | ⟨-, before, m, rfl, -, hm⟩
  · exact h
  · exact ready_reset hm

theorem Closed.ready {k : ℕ} {e : Option BoltError} {c : BoltConnection}
    (h : Closed S k (ShutBy S k (Ready L) e) c) : FreeInv L c :=
  ⟨h.tracked, fun hb hn _ => shutBy_ready (h.clean hb hn).2⟩

theorem Client.Effect.inv {call : Call} {client client' : Client} {o : Outcome BoltError Reply}
    (he : Effect S.peer call client o client') (hi : Inv L client)
    (hw : L.holds → Forewarned S call client) : Inv L client' := by
  -- where a RESET goes out only if replies are owed
  have hclean : ∀ {c : BoltConnection}, client = .free c →
      call.resets c.pending = decide (0 < c.pending) → L.holds → c.needsReset = false →
        0 < c.pending → ResetSucceeds S c.log := by
    rintro c rfl hcall hl hn hp
    exact hw hl hn (hcall.trans (decide_eq_true hp))
  cases he with
  | runWith hf =>
    exact post_const (P := FreeInv L) (wp_of_eq (inv_runWith hi (hclean rfl rfl) _ _ _) hf)
  | opened hf => exact wp_of_eq (inv_runStreamWith hi (hclean rfl rfl) _ _ _ _) hf
  | unopened hf hne =>
    rcases post_elim (wp_of_eq (inv_runStreamWith hi (hclean rfl rfl) _ _ _ _) hf)
      with ⟨s, rfl, -⟩ | ⟨-, h⟩
    · exact absurd rfl (hne s)
    · exact h
  | begun hf => exact wp_of_eq (inv_beginWith hi (hclean rfl rfl) _) hf
  | unbegun hf hne =>
    rcases post_elim (wp_of_eq (inv_beginWith hi (hclean rfl rfl) _) hf)
      with ⟨s, rfl, -⟩ | ⟨-, h⟩
    · exact absurd rfl hne
    · exact h
  | route hf => exact post_const (P := FreeInv L) (wp_of_eq (inv_route hi (hclean rfl rfl) _ _) hf)
  | reset hf =>
    exact post_const (P := FreeInv L) (wp_of_eq (inv_reset hi fun hl hn => hw hl hn rfl) hf)
  | close _ _ => trivial
  | next hf =>
    rcases post_elim (wp_of_eq (post_next course_streaming hi) hf)
      with ⟨row, -, h, -⟩ | ⟨-, h, -⟩
    · exact h
    · exact h.mono (fun _ => id) fun _ => shutBy_ready
  | finish hf =>
    rcases post_elim (wp_of_eq (post_finish course_streaming hi) hf) with
      ⟨m, -, -, h⟩ | ⟨-, h, -⟩
    · exact .of_closed h
    · exact Closed.ready h
  | dropStream => exact .of_closed (Flow.drop hi)
  | txRun hf => exact post_const (P := TxInv L _) (wp_of_eq (inv_txRun hi _ _) hf)
  | txOpened hf => exact wp_of_eq (inv_txRunStream hi _ _ _) hf
  | txUnopened hf hne =>
    rcases post_elim (wp_of_eq (inv_txRunStream hi _ _ _) hf) with ⟨s, rfl, -⟩ | ⟨-, h⟩
    · exact absurd rfl (hne s)
    · exact h
  | commit hf => exact post_const (P := fun t => FreeInv L t.conn) (wp_of_eq (inv_commit hi) hf)
  | rollback hf =>
    exact post_const (P := fun t => FreeInv L t.conn) (wp_of_eq (inv_rollback hi) hf)
  | dropTx => exact TxInv.drop hi
  | txNext hf =>
    obtain ⟨rfl, hk, hflow⟩ := hi
    rcases post_elim (wp_of_eq (post_next course_within hflow) hf) with
      ⟨row, rfl, h, -⟩ | ⟨-, h⟩
    · exact ⟨rfl, hk, h⟩
    · exact ⟨rfl, by rwa [begun_after], FlowEnd.after h⟩
  | txFinish hf =>
    obtain ⟨rfl, hk, hflow⟩ := hi
    rcases post_elim (wp_of_eq (post_finish course_within hflow) hf) with
      ⟨m, rfl, -, h⟩ | ⟨-, h, -⟩
    · exact .of_closed h hk
    · exact .after h hk
  | txDropStream =>
    obtain ⟨rfl, hk, hflow⟩ := hi
    exact .of_closed (Flow.drop hflow) hk
  | released _ => exact hi
  | discarded => trivial
  | checkedOut _ hf => exact (wp_of_eq (post_reset hi.tracked) hf).freeInv
  | expired _ => trivial

section Sched
variable (sched : List Choice)

/-- What the environment will do does not matter. -/
theorem live_withSched {c : BoltConnection} {rs : List Response} (h : Live S c rs) :
    Live S { c with stream := { c.stream with sched } } rs :=
  ⟨h.intact, h.framed, h.carries, h.owed, h.unanswered⟩

theorem sound_withSched {c : BoltConnection} {rs : List Response} (h : Sound S c rs) :
    Sound S { c with stream := { c.stream with sched } } rs :=
  h.imp id (live_withSched sched)

theorem tracked_withSched {c : BoltConnection} (h : Tracked S c) :
    Tracked S { c with stream := { c.stream with sched } } :=
  h.imp fun _ => sound_withSched sched

theorem flow_withSched {k : ℕ} {Open Shut : List Body → Prop} {s : RecordStream}
    (h : Flow S k Open Shut s) : Flow S k Open Shut
      { s with conn := { s.conn with stream := { s.conn.stream with sched } } } := by
  refine ⟨h.start, h.buffer, ?_, h.failed, tracked_withSched sched h.tracked, ?_, ?_, ?_⟩
  · intro m hm
    obtain ⟨hended, hn, hlive⟩ := h.summary m hm
    exact ⟨hended, hn, live_withSched sched hlive⟩
  · intro hd hp
    obtain ⟨hm, hsum, before, b, rows, hf, rest⟩ := h.inFlight hd hp
    exact ⟨hm, hsum, before, b, rows, ⟨hf.log, sound_withSched sched hf.sound⟩, rest⟩
  · intro hd hp
    exact (h.waiting hd hp).imp (sound_withSched sched) id
  · intro hd hb hn
    exact (h.ended hd hb hn).imp (live_withSched sched) id

theorem inv_withSched {client : Client} (h : Inv L client) : Inv L (client.withSched sched) := by
  cases client with
  | free c => exact ⟨tracked_withSched sched h.tracked, h.ready⟩
  | idle c => exact ⟨tracked_withSched sched h.tracked, h.ready⟩
  | gone c => trivial
  | streaming k s => exact flow_withSched sched h
  | inTx hist t =>
    refine ⟨tracked_withSched sched h.tracked, h.begun, fun hs => ?_, fun hd hn => ?_⟩
    · exact (h.opened ⟨hs.intact, hs.needsReset, hs.done⟩).imp (live_withSched sched) id
    · exact (h.ended hd hn).imp (live_withSched sched) id
  | txStreaming hist done k s => exact ⟨h.1, h.2.1, flow_withSched sched h.2.2⟩

end Sched

namespace Client

theorem Step.inv {call : Call} {client client' : Client} {o : Outcome BoltError Reply}
    (h : Step S.peer call client o client') (hi : Inv L client)
    (hw : L.holds → Forewarned S call client) : Inv L client' := by
  obtain ⟨sched, hexec⟩ := h
  refine (exec_effect hexec).inv (inv_withSched sched hi) fun hl => ?_
  cases client with
  | free c => exact hw hl
  | _ => trivial

theorem Run.inv {ok : Call → Client → Prop} {client client' : Client}
    (h : Run S.peer ok client client') (hi : Inv L client)
    (hw : L.holds → ∀ call client, ok call client → Forewarned S call client) :
    Inv L client' := by
  induction h with
  | refl => exact hi
  | step _ hok hstep ih => exact hstep.inv ih fun hl => hw hl _ _ hok

end Client

theorem inv_fresh (L : Law S) (noops cut : ℕ) : Inv L (Client.fresh noops cut) := by
  refine .of_live ⟨rfl, ⟨[], rfl⟩, .nil ?_, rfl, ?_⟩ fun _ => ?_
  · have hnoops := dropNoops_replicate noops []
    rw [List.append_nil] at hnoops
    rw [unread, connected, List.take_append_drop, hnoops]
    rfl
  · exact List.nil_suffix
  · change S.phase (received []) = .ready
    rw [received_nil]
    rfl

/-- Every history from a fresh connection keeps the invariant. -/
theorem Client.Run.inv_of_fresh {ok : Call → Client → Prop} {noops cut : ℕ} {client : Client}
    (h : Run S.peer ok (fresh noops cut) client) : Inv S.law client :=
  h.inv (inv_fresh S.law noops cut) fun hl call client _ => hl.forewarned call client

end Boltwire
