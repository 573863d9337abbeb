import Boltwire.SessionOps

namespace Boltwire
open Future Server BoltConnection
namespace RecordStream
variable {S : Server}

/-- An operation of the connection, and what follows it. -/
theorem post_call {α β : Type} {f : BoltConnection.Op α} {g : α → Op β}
    {P : α → BoltConnection → Prop} {Q : β → RecordStream → Prop}
    {E : Option BoltError → RecordStream → Prop} {s : RecordStream}
    (h : wp f (post P fun e c => E e { s with conn := c }) s.conn)
    (hg : ∀ a c, P a c → wp (g a) (post Q E) { s with conn := c }) :
    wp (onConn f >>= g) (post Q E) s :=
  post_zoom h hg

/-- The last request was `b`; `rows` of the answer to it, and its summary, are unread. -/
structure InFlight (S : Server) (s : RecordStream) (before : List Body) (b : Body)
    (rows : List (List BoltValue)) : Prop where
  log : s.conn.log = before ++ [b]
  sound : Sound S s.conn (rows.map .record ++ [(S.answer before b).summary])

/-- The rest of a batch was read, up to a SUCCESS with metadata `m`. -/
structure Fetched (S : Server) (s : RecordStream) (before : List Body) (b : Body)
    (rows : List (List BoltValue)) (m : Meta) (s' : RecordStream) : Prop where
  intact : s.conn.broken = false
  success : (S.answer before b).summary = .success m
  fields : s'.toStreamState = { s.toStreamState with
    buffer := s.buffer ++ rows, pullInFlight := false, hasMore := hasMoreOf m,
    summary := if hasMoreOf m then s.summary else some m }
  log : s'.conn.log = before ++ [b]
  needsReset : s'.conn.needsReset = (hasMoreOf m && s.conn.needsReset)
  live : Live S s'.conn []

inductive Abandoned (S : Server) (s : RecordStream) (before : List Body) (b : Body)
    (rows : List (List BoltValue)) : Option BoltError → RecordStream → Prop
  | stopped {e : Option BoltError} {rows₁ rows₂ : List (List BoltValue)} {c' : BoltConnection} :
    rows = rows₁ ++ rows₂ → (∀ x, e = some x → Local x) →
    (c'.broken = false → s.conn.broken = false) → c'.log = before ++ [b] →
    c'.needsReset = s.conn.needsReset →
    Sound S c' (rows₂.map .record ++ [(S.answer before b).summary]) →
    Abandoned S s before b rows e { s with buffer := s.buffer ++ rows₁, conn := c' }
  | failed {e : Option BoltError} {code message : String} {c₁ c' : BoltConnection} :
    (S.answer before b).summary = .failure code message → Got S s.conn [] c₁ →
    Recovery S code message c₁ e c' →
    Abandoned S s before b rows e { s with buffer := s.buffer ++ rows, done := true, conn := c' }
  | ignored {x : BoltError} {c' : BoltConnection} : Local x →
    (S.answer before b).summary = .ignored → Got S s.conn [] c' →
    Abandoned S s before b rows (some x)
      { s with buffer := s.buffer ++ rows, done := true, conn := c' }

def Reading (S : Server) (s : RecordStream) (before : List Body) (b : Body)
    (rows : List (List BoltValue)) (s' : RecordStream) : Prop :=
  ∃ rows₁ rows₂ c', s' = { s with buffer := s.buffer ++ rows₁, conn := c' } ∧
    rows = rows₁ ++ rows₂ ∧ (c'.broken = false → s.conn.broken = false) ∧
    c'.log = before ++ [b] ∧ c'.needsReset = s.conn.needsReset ∧
    Sound S c' (rows₂.map .record ++ [(S.answer before b).summary])

theorem post_fetchRound {s s₁ : RecordStream} {before : List Body} {b : Body}
    {rows : List (List BoltValue)} (hfl : s.conn.log = before ++ [b])
    (h : Reading S s before b rows s₁) : wp (fetchRound S.peer ())
      (post (Sum.elim (fun _ => Reading S s before b rows)
        fun _ s' => ∃ m, Fetched S s before b rows m s') (Abandoned S s before b rows)) s₁ := by
  obtain ⟨rows₁, rows₂, c₁, rfl, hrows, hb, hlog, hn, hsound⟩ := h
  have hunread :
      ∀ e c', Unread S c₁ (rows₂.map .record ++ [(S.answer before b).summary]) e c' →
      Abandoned S s before b rows e { s with buffer := s.buffer ++ rows₁, conn := c' } :=
    fun e c' hu => .stopped hrows hu.local_error (fun hi => hb (hu.intact hi)) (hu.log.trans hlog)
      (hu.needsReset.trans hn) hu.sound
  -- `rows₂` are the rows still unread; the summary comes after the last
  cases rows₂ with
  | cons row rows₂ =>
    refine post_call (post_mono (post_receive hsound) (fun _ _ h => h) hunread) ?_
    rintro _ c₂ ⟨rfl, hg, -⟩
    refine ⟨rows₁ ++ [row], rows₂, c₂, ?_, ?_, fun _ => hb hg.intact, hg.log.trans hlog,
      hg.needsReset.trans hn, .inr hg.live⟩
    · rw [← List.append_assoc]
      rfl
    · rw [hrows, List.append_assoc, List.singleton_append]
  | nil =>
    rw [List.append_nil] at hrows
    subst hrows
    refine post_call (post_mono (post_receive hsound) (fun _ _ h => h) hunread) ?_
    rintro _ c₂ ⟨rfl, hg, -⟩
    have hgot : Got S s.conn [] c₂ := ⟨hb hg.intact, hg.log.trans (hlog.trans hfl.symm),
      hg.needsReset.trans hn, hg.live⟩
    cases hr : (S.answer before b).summary with
    | success m =>
      have hlog₂ : c₂.log = before ++ [b] := hg.log.trans hlog
      cases hm : hasMoreOf m with
      | true =>
        simp only [Future.wp_bind, Future.wp_modify, Future.andThen, hm, Bool.not_true,
          Bool.false_eq_true, if_false, Future.wp_pure]
        exact ⟨m, hgot.intact, hr, by simp [hm], hlog₂, by simpa [hm] using hgot.needsReset,
          hg.live⟩
      | false =>
        simp only [Future.wp_bind, Future.wp_modify, Future.andThen, hm, Bool.not_false, if_true,
          onConn, Future.wp_zoom, setNeedsReset, Future.wp_pure]
        exact ⟨m, hgot.intact, hr, by simp [hm], hlog₂, by simp [hm],
          hg.live.congr rfl rfl rfl rfl⟩
    | failure code message =>
      change wp (setDone >>= fun _ => _) _ _
      rw [Future.wp_bind, setDone, Future.wp_modify, Future.andThen]
      exact post_recover ⟨[], .inr hg.live⟩ code message fun e c' hc => .failed hr hgot hc
    | record v =>
      have hs := S.isSummary before b
      rw [hr] at hs
      cases hs
    | ignored => exact .ignored (by simp) hr hgot

theorem post_fetchLoop {s : RecordStream} {before : List Body} {b : Body}
    {rows : List (List BoltValue)} (h : InFlight S s before b rows) :
    wp (Future.loop (fun s => s.conn.budget) (fetchRound S.peer) ())
      (post (fun _ s' => ∃ m, Fetched S s before b rows m s') (Abandoned S s before b rows))
      s := by
  refine post_loop (fun _ => Reading S s before b rows) ?_ (fun _ _ => post_fetchRound h.log) ?_
  · exact ⟨[], rows, s.conn, by simp, rfl, id, h.log, rfl, h.sound⟩
  · rintro _ s' ⟨rows₁, rows₂, c', rfl, hrows, hb, hlog, hn, hsound⟩
    exact .stopped hrows (by simp) hb hlog hn hsound

/-- The batch on its way is fetched. -/
theorem post_fetchBatch_inFlight {s : RecordStream} {before : List Body} {b : Body}
    {rows : List (List BoltValue)} (hp : s.pullInFlight = true) (h : InFlight S s before b rows) :
    wp (fetchBatch S.peer)
      (post (fun _ s' => ∃ m, Fetched S s before b rows m s') (Abandoned S s before b rows))
      s := by
  rw [fetchBatch, Future.wp_bind, Future.wp_get, Future.andThen, hp]
  exact post_fetchLoop h

structure Pulled (S : Server) (s : RecordStream) (b : Body) (s₁ : RecordStream) : Prop where
  intact : s.conn.broken = false
  packed : Packed (Request.pull s.batch s.qid) b
  fields : s₁.toStreamState = { s.toStreamState with pullInFlight := true }
  needsReset : s₁.conn.needsReset = s.conn.needsReset
  inFlight : InFlight S s₁ s.conn.log b (S.answer s.conn.log b).records

/-- A PULL is sent first. -/
theorem post_fetchBatch_waiting {s : RecordStream} (hp : s.pullInFlight = false)
    (h : Sound S s.conn []) : wp (fetchBatch S.peer)
      (post (fun _ s' => ∃ b s₁ m, Pulled S s b s₁ ∧
          Fetched S s₁ s.conn.log b (S.answer s.conn.log b).records m s')
        fun e s' =>
          (∃ c', s' = { s with conn := c' } ∧
            Unsent S [Request.pull s.batch s.qid] s.conn e c') ∨
          ∃ b s₁, Pulled S s b s₁ ∧
            Abandoned S s₁ s.conn.log b (S.answer s.conn.log b).records e s') s := by
  have hplain : ∀ req ∈ [Request.pull s.batch s.qid], Plain req := by
    simpa using plain_pull s.batch s.qid
  rw [fetchBatch, Future.wp_bind, Future.wp_get, Future.andThen, hp]
  refine post_call (post_mono (post_send h hplain) (fun _ _ h => h)
    fun e c' hu => .inl ⟨c', rfl, hu⟩) ?_
  rintro _ c₁ ⟨bodies, hsent⟩
  obtain ⟨b, hb, rfl⟩ := packed_one hsent.packed
  have hlive := hsent.live
  rw [List.nil_append, replies_singleton] at hlive
  rw [Future.wp_bind, Future.wp_modify, Future.andThen]
  have hpulled : Pulled S s b { s with pullInFlight := true, conn := c₁ } :=
    ⟨hsent.intact, hb, rfl, hsent.needsReset, hsent.log, .inr hlive⟩
  refine post_mono (post_fetchLoop hpulled.inFlight) ?_ ?_
  · rintro _ s' ⟨m, hf⟩
    exact ⟨b, _, m, hpulled, hf⟩
  · intro e s' ha
    exact .inr ⟨b, _, hpulled, ha⟩

end RecordStream
end Boltwire
