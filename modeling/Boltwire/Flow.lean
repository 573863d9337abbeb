import Boltwire.StreamOps

namespace Boltwire
open Future Server BoltConnection
namespace RecordStream
variable {S : Server} {k : ℕ} {Open Shut : List Body → Prop}

/-- How the stream's requests move the session. -/
structure Course (S : Server) (Open Shut : List Body → Prop) : Prop where
  more : ∀ {log b m}, Open log → signature b = PULL →
    (S.answer log b).summary = .success m → hasMoreOf m = true → Open (log ++ [b])
  last : ∀ {log b m}, Open log → signature b = PULL →
    (S.answer log b).summary = .success m → hasMoreOf m = false → Shut (log ++ [b])
  discard : ∀ {log b qid m}, Open log → Packed (Request.discard (-1) qid) b →
    (S.answer log b).summary = .success m → Shut (log ++ [b])

/-- `m` is the metadata of the SUCCESS that ended the stream: it answers the last
request of all, a PULL with nothing left behind it or a DISCARD of all the rest. By
the protocol nothing is left behind such a DISCARD, whatever `has_more` its SUCCESS
carries. -/
def EndedBy (S : Server) (k : ℕ) (m : Meta) (log : List Body) : Prop :=
  ∃ before b, log = before ++ [b] ∧ k ≤ before.length ∧
    (S.answer before b).summary = .success m ∧
    (signature b = PULL ∧ hasMoreOf m = false ∨ ∃ qid, Packed (Request.discard (-1) qid) b)

/-- The stream ended with `m`, and the connection knows that all is in order. -/
structure Truthful (S : Server) (k : ℕ) (m : Meta) (c : BoltConnection) : Prop where
  ended : EndedBy S k m c.log
  needsReset : c.needsReset = false
  live : Live S c []

theorem EndedBy.mem_since {m : Meta} {log : List Body} (h : EndedBy S k m log) :
    .success m ∈ S.since k log := by
  obtain ⟨before, b, rfl, hk, hm, -⟩ := h
  rw [since_append_of_le hk, replies_singleton, Answer.responses, hm]
  simp

/-- A RESET ends no stream. -/
theorem not_endedBy_reset {m : Meta} {log : List Body} : ¬ EndedBy S k m (log ++ [resetBody]) := by
  rintro ⟨before, b, hlog, -, -, hb⟩
  obtain ⟨-, hbody⟩ := List.append_inj' hlog rfl
  cases hbody
  rcases hb with ⟨hb, -⟩ | ⟨qid, hb⟩
  · cases hb
  · cases hb.signature (plain_discard _ _).2

/-- A stream between calls, whoever opened it: what it has buffered comes from the replies
to its own requests, and its flags agree with the session. -/
structure Flow (S : Server) (k : ℕ) (Open Shut : List Body → Prop) (s : RecordStream) :
    Prop where
  start : k ≤ s.conn.log.length
  buffer : ∀ row ∈ s.buffer, .record row ∈ S.since k s.conn.log
  summary : ∀ m, s.summary = some m → Truthful S k m s.conn
  failed : s.done = true → s.summary = none → s.conn.needsReset = false →
    ∀ m, ¬ EndedBy S k m s.conn.log
  tracked : Tracked S s.conn
  inFlight : s.done = false → s.pullInFlight = true → s.hasMore = true ∧ s.summary = none ∧
    ∃ before b rows, InFlight S s before b rows ∧ k ≤ before.length ∧ signature b = PULL ∧
      rows <:+ (S.answer before b).records ∧
      (s.conn.broken = false → s.conn.needsReset = true ∧ Open before)
  waiting : s.done = false → s.pullInFlight = false → Sound S s.conn [] ∧
    s.summary.isSome = !s.hasMore ∧
    (s.conn.broken = false → s.hasMore = true → s.conn.needsReset = true ∧
      Open s.conn.log) ∧
    (s.conn.broken = false → s.hasMore = false → s.conn.needsReset = false ∧ Shut s.conn.log)
  ended : s.done = true → s.conn.broken = false → s.conn.needsReset = false →
    Live S s.conn [] ∧ Shut s.conn.log

theorem Flow.mono {Open' Shut' : List Body → Prop} {s : RecordStream} (h : Flow S k Open Shut s)
    (ho : ∀ log, Open log → Open' log)
    (hs : s.conn.needsReset = false → Shut s.conn.log → Shut' s.conn.log) :
    Flow S k Open' Shut' s where
  start := h.start
  buffer := h.buffer
  summary := h.summary
  failed := h.failed
  tracked := h.tracked
  inFlight hd hp := by
    obtain ⟨hm, hsum, before, b, rows, hf, hk, hsig, hrows, hopen⟩ := h.inFlight hd hp
    exact ⟨hm, hsum, before, b, rows, hf, hk, hsig, hrows, fun hb => (hopen hb).imp id (ho _)⟩
  waiting hd hp := by
    obtain ⟨hs₁, hs₂, hs₃, hs₄⟩ := h.waiting hd hp
    refine ⟨hs₁, hs₂, fun hb hm => (hs₃ hb hm).imp id (ho _), fun hb hm => ?_⟩
    obtain ⟨hn, hshut⟩ := hs₄ hb hm
    exact ⟨hn, hs hn hshut⟩
  ended hd hb hn := (h.ended hd hb hn).imp id (hs hn)

/-- A stream just opened: its first batch is on its way. -/
theorem Flow.opened {run : Request} {c c' : BoltConnection} {m : Meta} {b₁ b₂ : Body}
    {columns : List String} {qid : Option Int64} {batch : Int64}
    (h : Pipelined S run (Request.pull batch none) c m b₁ b₂ c') (hk : k ≤ c.log.length)
    (hn : c.needsReset = true) (ho : Open (c.log ++ [b₁])) :
    Flow S k Open Shut ⟨.opened columns qid batch, c'⟩ := by
  have hlog : c'.log = c.log ++ [b₁] ++ [b₂] := by rw [h.log, List.append_assoc]; rfl
  have hk' : k ≤ (c.log ++ [b₁]).length := by
    rw [List.length_append]
    exact Nat.le_add_right_of_le hk
  refine ⟨?_, by simp [StreamState.opened], by simp [StreamState.opened],
    by simp [StreamState.opened], ⟨_, .inr h.live⟩, ?_, by simp [StreamState.opened],
    by simp [StreamState.opened]⟩
  · change k ≤ c'.log.length
    rw [hlog, List.length_append]
    exact Nat.le_add_right_of_le hk'
  · intro _ _
    refine ⟨rfl, rfl, c.log ++ [b₁], b₂, _, ⟨hlog, .inr h.live⟩, hk',
      h.pull.signature (plain_pull _ _).2, List.suffix_refl _, fun _ => ⟨?_, ho⟩⟩
    exact h.needsReset.trans hn

def JustReset (S : Server) (k : ℕ) (log : List Body) : Prop :=
  ∃ before m, log = before ++ [resetBody] ∧ k ≤ before.length ∧
    (S.answer before resetBody).summary = .success m

/-- Ended, or reset after the FAILURE that `e` reports. -/
def ShutBy (S : Server) (k : ℕ) (Shut : List Body → Prop) (e : Option BoltError)
    (log : List Body) : Prop :=
  Shut log ∨ (∃ code message, e = some (.failure code message)) ∧ JustReset S k log

/-- A FAILURE that a stream reports answers a request of its own. -/
def Reported (S : Server) (k : ℕ) (e : Option BoltError) (log : List Body) : Prop :=
  ∀ code message, e = some (.failure code message) → .failure code message ∈ S.since k log

theorem Reported.of_local {e : Option BoltError} {log : List Body}
    (h : ∀ x, e = some x → Local x) : Reported S k e log :=
  fun code message he => absurd rfl (h _ he code message)

def FlowEnd (S : Server) (k : ℕ) (Open Shut : List Body → Prop) (e : Option BoltError)
    (s : RecordStream) : Prop :=
  Flow S k Open (ShutBy S k Shut e) s ∧ Reported S k e s.conn.log

/-- After a FAILURE to one of the first requests of the log, `first`. -/
structure Recovered (S : Server) (k : ℕ) (Shut : List Body → Prop) (first : List Body)
    (e : Option BoltError) (c' : BoltConnection) : Prop where
  log : ∃ last, c'.log = first ++ last
  tracked : Tracked S c'
  clean : c'.needsReset = false → Live S c' [] ∧ ShutBy S k Shut e c'.log
  reported : Reported S k e c'.log

theorem recovered {first : List Body} {code message : String} {e : Option BoltError}
    {c₁ c' : BoltConnection} (hk : k ≤ first.length)
    (hmem : .failure code message ∈ S.since k first) (hlog : c₁.log = first)
    (hn : c₁.needsReset = true) (h : Recovery S code message c₁ e c') :
    Recovered S k Shut first e c' := by
  subst hlog
  -- RESET succeeded and the FAILURE is surfaced, or it did not
  rcases h with ⟨rfl, hr⟩ | ⟨he, hr⟩
  · refine ⟨⟨_, hr.log⟩, ⟨[], .inr hr.live⟩,
      fun _ => ⟨hr.live, .inr ⟨⟨_, _, rfl⟩, ?_⟩⟩, ?_⟩
    · obtain ⟨m, hm⟩ := hr.success
      exact ⟨c₁.log, m, hr.log, hk, hm⟩
    · rintro _ _ ⟨⟩
      rw [hr.log, since_append_of_le hk]
      exact List.mem_append_left _ hmem
  · have hlog : ∃ last, c'.log = c₁.log ++ last := by
      rcases hr.log with ⟨hl, -⟩ | hl
      · exact ⟨[], by rw [hl, List.append_nil]⟩
      · exact ⟨_, hl⟩
    refine ⟨hlog, hr.tracked, fun hn' => ?_, ?_⟩
    · rw [hr.needsReset, hn] at hn'
      cases hn'
    · obtain ⟨last, hlog⟩ := hlog
      rintro code' message' he'
      rw [hlog, since_append_of_le hk]
      rcases he with rfl | rfl
      · cases he'
        exact List.mem_append_left _ hmem
      · cases he'

/-- After a FAILURE nothing has ended the stream. -/
theorem not_endedBy_recovery {code message : String} {e : Option BoltError}
    {c₁ c' : BoltConnection} (h : Recovery S code message c₁ e c') (hn : c₁.needsReset = true)
    (hn' : c'.needsReset = false) (m : Meta) : ¬ EndedBy S k m c'.log := by
  rcases h with ⟨-, hr⟩ | ⟨-, hr⟩
  · rw [hr.log]
    exact not_endedBy_reset
  · rw [hr.needsReset, hn] at hn'
    cases hn'

structure Flying (S : Server) (k : ℕ) (Open : List Body → Prop) (s : RecordStream)
    (before : List Body) (b : Body) (rows : List (List BoltValue)) : Prop where
  inFlight : InFlight S s before b rows
  start : k ≤ before.length
  signature : signature b = PULL
  rows : rows <:+ (S.answer before b).records
  hasMore : s.hasMore = true
  pullInFlight : s.pullInFlight = true
  done : s.done = false
  summary : s.summary = none
  buffer : ∀ row ∈ s.buffer, .record row ∈ S.since k s.conn.log
  opened : s.conn.broken = false → s.conn.needsReset = true ∧ Open before

theorem Flow.flying {s : RecordStream} (h : Flow S k Open Shut s) (hd : s.done = false)
    (hp : s.pullInFlight = true) : ∃ before b rows, Flying S k Open s before b rows := by
  obtain ⟨hm, hsum, before, b, rows, hf, hk, hsig, hrows, hopen⟩ := h.inFlight hd hp
  exact ⟨before, b, rows, hf, hk, hsig, hrows, hm, hp, hd, hsum, h.buffer, hopen⟩

section Flying
variable {s : RecordStream} {before : List Body} {b : Body} {rows : List (List BoltValue)}

theorem Flying.since_eq (h : Flying S k Open s before b rows) :
    S.since k (before ++ [b]) = S.since k before ++ (S.answer before b).responses := by
  rw [since_append_of_le h.start, replies_singleton]

/-- The records of the batch are replies to the stream's own request. -/
theorem Flying.mem_since (h : Flying S k Open s before b rows) {row : List BoltValue}
    (hrow : row ∈ rows) : .record row ∈ S.since k (before ++ [b]) := by
  rw [h.since_eq, Answer.responses]
  have := h.rows.subset hrow
  simp [this]

theorem Flying.summary_mem_since (h : Flying S k Open s before b rows) :
    (S.answer before b).summary ∈ S.since k (before ++ [b]) := by
  rw [h.since_eq, Answer.responses]
  simp

theorem Flying.length_le (h : Flying S k Open s before b rows) : k ≤ (before ++ [b]).length := by
  have := h.start
  rw [List.length_append]
  omega

/-- What is buffered afterwards, when some of the batch was read. -/
theorem Flying.buffer_append (h : Flying S k Open s before b rows) {rows₁ : List (List BoltValue)}
    (hsub : rows₁ ⊆ rows) :
    ∀ row ∈ s.buffer ++ rows₁, .record row ∈ S.since k (before ++ [b]) := by
  intro row hrow
  rcases List.mem_append.mp hrow with hrow | hrow
  · have := h.buffer row hrow
    rwa [h.inFlight.log] at this
  · exact h.mem_since (hsub hrow)

theorem Flying.fetched (hc : Course S Open Shut) (h : Flying S k Open s before b rows) {m : Meta}
    {s' : RecordStream} (hf : Fetched S s before b rows m s') : Flow S k Open Shut s' := by
  have hopen := h.opened hf.intact
  have hdone : s'.done = false := by rw [hf.fields]; exact h.done
  have hmore : s'.hasMore = hasMoreOf m := by rw [hf.fields]
  have hsum : s'.summary = if hasMoreOf m then none else some m := by rw [hf.fields, h.summary]
  refine ⟨?_, ?_, ?_, ?_, ⟨[], .inr hf.live⟩, ?_, ?_, ?_⟩
  · rw [hf.log]
    exact h.length_le
  · rw [hf.fields, hf.log]
    exact h.buffer_append (List.Subset.refl rows)
  · intro m' hm'
    rw [hsum] at hm'
    split_ifs at hm' with hm
    cases hm'
    have hmore : hasMoreOf m = false := by simpa using hm
    refine ⟨⟨before, b, hf.log, h.start, hf.success, .inl ⟨h.signature, hmore⟩⟩,
      ?_, hf.live⟩
    rw [hf.needsReset, hmore]
    rfl
  · intro hd
    rw [hdone] at hd
    cases hd
  · intro _ hp
    rw [hf.fields] at hp
    cases hp
  · intro _ _
    rw [hsum, hmore, hf.needsReset, hf.log]
    refine ⟨.inr hf.live, by cases hasMoreOf m <;> rfl, fun _ hm => ?_, fun _ hm => ?_⟩
    · rw [hm]
      exact ⟨hopen.1, hc.more hopen.2 h.signature hf.success hm⟩
    · rw [hm]
      exact ⟨rfl, hc.last hopen.2 h.signature hf.success hm⟩
  · intro hd
    rw [hdone] at hd
    cases hd

/-- A stream that is over: only the bookkeeping is left to show. -/
theorem Flying.over (h : Flying S k Open s before b rows) {c' : BoltConnection} (hd : ∃ last,
    c'.log = before ++ [b] ++ last) (ht : Tracked S c') (hshut : c'.broken = false →
      c'.needsReset = false → Live S c' [] ∧ Shut c'.log)
    (hfailed : c'.needsReset = false → ∀ m, ¬ EndedBy S k m c'.log) :
    Flow S k Open Shut { s with buffer := s.buffer ++ rows, done := true, conn := c' } := by
  obtain ⟨last, hlog⟩ := hd
  have hsince : S.since k c'.log = S.since k (before ++ [b]) ++ S.replies (before ++ [b]) last := by
    rw [hlog, since_append_of_le h.length_le]
  refine ⟨?_, ?_, ?_, fun _ _ => hfailed, ht, by simp, by simp, fun _ => hshut⟩
  · rw [hlog, List.length_append]
    exact Nat.le_add_right_of_le h.length_le
  · intro row hrow
    rw [hsince]
    exact List.mem_append_left _ (h.buffer_append (List.Subset.refl rows) row hrow)
  · intro m hm
    rw [h.summary] at hm
    cases hm

theorem Flying.abandoned (h : Flying S k Open s before b rows) {e : Option BoltError}
    {s' : RecordStream} (ha : Abandoned S s before b rows e s') : FlowEnd S k Open Shut e s' := by
  cases ha with
  -- the rows read before the read stopped are in the buffer, and the PULL stays in flight
  | @stopped _ rows₁ rows₂ c' hrows he hi hlog hn hsound =>
    refine ⟨⟨?_, ?_, ?_, ?_, ⟨_, hsound⟩, ?_, ?_, ?_⟩, .of_local he⟩
    · rw [hlog]
      exact h.length_le
    · rw [hlog]
      exact h.buffer_append (by simp [hrows])
    · intro m hm
      rw [h.summary] at hm
      cases hm
    · intro hd
      rw [h.done] at hd
      cases hd
    · intro _ _
      refine ⟨h.hasMore, h.summary, before, b, rows₂, ⟨hlog, hsound⟩, h.start,
        h.signature, ?_, ?_⟩
      · exact .trans ⟨rows₁, hrows.symm⟩ h.rows
      · intro hb
        obtain ⟨hn₀, hopen⟩ := h.opened (hi hb)
        exact ⟨hn.trans hn₀, hopen⟩
    · intro _ hp
      rw [h.pullInFlight] at hp
      cases hp
    · intro hd
      rw [h.done] at hd
      cases hd
  | @failed _ code message c₁ c' hs hgot hreset =>
    have hopen := h.opened hgot.intact
    have hmem := h.summary_mem_since
    rw [hs] at hmem
    have hrec : Recovered S k Shut (before ++ [b]) e c' := recovered h.length_le hmem
      (hgot.log.trans h.inFlight.log) (hgot.needsReset.trans hopen.1) hreset
    refine ⟨h.over hrec.log hrec.tracked (fun _ => hrec.clean) ?_, hrec.reported⟩
    exact not_endedBy_recovery hreset (hgot.needsReset.trans hopen.1)
  -- an IGNORED is not recovered from, so `needs_reset` stays set
  | @ignored x c' hx hs hgot =>
    have hopen := h.opened hgot.intact
    have hlog : c'.log = before ++ [b] := hgot.log.trans h.inFlight.log
    have hn : c'.needsReset ≠ false := by
      rw [hgot.needsReset, hopen.1]
      decide
    refine ⟨h.over ⟨[], by rw [hlog, List.append_nil]⟩ ⟨[], .inr hgot.live⟩ ?_ ?_, ?_⟩
    · exact fun _ hn' => absurd hn' hn
    · exact fun hn' => absurd hn' hn
    · refine .of_local ?_
      rintro y ⟨⟩
      exact hx

end Flying

/-- A PULL has gone out. -/
theorem Flow.pulled {s s₁ : RecordStream} {b : Body} (h : Flow S k Open Shut s)
    (hd : s.done = false) (hp : s.pullInFlight = false) (hm : s.hasMore = true)
    (hpull : Pulled S s b s₁) :
    Flying S k Open s₁ s.conn.log b (S.answer s.conn.log b).records := by
  obtain ⟨-, hsum, hopen, -⟩ := h.waiting hd hp
  rw [hm, Bool.not_true, Option.isSome_eq_false_iff, Option.isNone_iff_eq_none] at hsum
  refine ⟨hpull.inFlight, h.start, hpull.packed.signature (plain_pull _ _).2, List.suffix_refl _,
    ?_, ?_, ?_, ?_, ?_, ?_⟩
  · rw [hpull.fields]; exact hm
  · rw [hpull.fields]
  · rw [hpull.fields]; exact hd
  · rw [hpull.fields]; exact hsum
  · intro row hrow
    rw [hpull.fields] at hrow
    rw [hpull.inFlight.log, since_append_of_le h.start]
    exact List.mem_append_left _ (h.buffer row hrow)
  · intro _
    rw [hpull.needsReset]
    exact hopen hpull.intact hm

/-- A PULL that did not go out leaves the stream as it was, or the connection broken. -/
theorem Flow.unsent {s : RecordStream} {c' : BoltConnection} {e : Option BoltError}
    {reqs : List Request} (h : Flow S k Open Shut s) (hd : s.done = false)
    (hp : s.pullInFlight = false) (hm : s.hasMore = true) (hu : Unsent S reqs s.conn e c') :
    FlowEnd S k Open Shut e { s with conn := c' } := by
  refine ⟨?_, .of_local hu.local_error⟩
  -- either nothing was written or the connection is broken
  rcases hu.state with rfl | hb
  · exact h.mono (fun _ => id) fun _ => .inl
  obtain ⟨bodies, -, hlog⟩ := hu.log
  have hsince : S.since k c'.log = S.since k s.conn.log ++ S.replies s.conn.log bodies := by
    rw [hlog, since_append_of_le h.start]
  refine ⟨?_, ?_, ?_, ?_, ⟨[], .inl hb⟩, ?_, ?_, ?_⟩
  · rw [hlog, List.length_append]
    exact Nat.le_add_right_of_le h.start
  · intro row hrow
    rw [hsince]
    exact List.mem_append_left _ (h.buffer row hrow)
  · intro m hsum
    -- no summary is held while there is more to fetch
    have hnone := (h.waiting hd hp).2.1
    rw [show s.summary = some m from hsum, hm] at hnone
    cases hnone
  · intro hd'
    rw [hd] at hd'
    cases hd'
  · intro _ hp'
    rw [hp] at hp'
    cases hp'
  · intro _ _
    obtain ⟨-, hsum, -, -⟩ := h.waiting hd hp
    refine ⟨.inl hb, hsum, fun hi => ?_, fun hi => ?_⟩
    all_goals
      rw [hb] at hi
      cases hi
  · intro hd'
    rw [hd] at hd'
    cases hd'

theorem post_fetchBatch (hc : Course S Open Shut) {s : RecordStream} (h : Flow S k Open Shut s)
    (hd : s.done = false) (hm : s.hasMore = true) : wp (fetchBatch S.peer)
      (post (fun _ s' => Flow S k Open Shut s' ∧ s'.done = false ∧ s'.pullInFlight = false)
        (FlowEnd S k Open Shut)) s := by
  cases hp : s.pullInFlight with
  | true =>
    obtain ⟨before, b, rows, hfly⟩ := h.flying hd hp
    refine post_mono (post_fetchBatch_inFlight hp hfly.inFlight) ?_ fun _ _ => hfly.abandoned
    rintro _ s' ⟨m, hf⟩
    exact ⟨hfly.fetched hc hf, by rw [hf.fields]; exact hd, by rw [hf.fields]⟩
  | false =>
    refine post_mono (post_fetchBatch_waiting hp (h.waiting hd hp).1) ?_ ?_
    · rintro _ s' ⟨b, s₁, m, hpull, hf⟩
      have hfly := h.pulled hd hp hm hpull
      exact ⟨hfly.fetched hc hf, by rw [hf.fields]; exact hfly.done, by rw [hf.fields]⟩
    · rintro e s' (⟨c', rfl, hu⟩ | ⟨b, s₁, hpull, ha⟩)
      · exact h.unsent hd hp hm hu
      · exact (h.pulled hd hp hm hpull).abandoned ha

/-- A stream that has no more to give has left the session in order, unless
`needs_reset` says otherwise. -/
theorem Flow.over {s : RecordStream} (h : Flow S k Open Shut s)
    (ho : s.done = true ∨ s.hasMore = false) (hb : s.conn.broken = false)
    (hn : s.conn.needsReset = false) : Live S s.conn [] ∧ Shut s.conn.log := by
  cases hd : s.done with
  | true => exact h.ended hd hb hn
  | false =>
    have hm : s.hasMore = false := by simpa [hd] using ho
    cases hp : s.pullInFlight with
    | true =>
      have hm' := (h.inFlight hd hp).1
      rw [hm] at hm'
      cases hm'
    | false =>
      obtain ⟨hs, -, -, hshut⟩ := h.waiting hd hp
      exact ⟨hs.live hb, (hshut hb hm).2⟩

/-- Without a summary it has failed. -/
theorem Flow.unended {s : RecordStream} (h : Flow S k Open Shut s)
    (ho : s.done = true ∨ s.hasMore = false) (hs : s.summary = none)
    (hn : s.conn.needsReset = false) : ∀ m, ¬ EndedBy S k m s.conn.log := by
  cases hd : s.done with
  | true => exact h.failed hd hs hn
  | false =>
    have hm : s.hasMore = false := by simpa [hd] using ho
    cases hp : s.pullInFlight with
    | true =>
      have hm' := (h.inFlight hd hp).1
      rw [hm] at hm'
      cases hm'
    | false =>
      have hsome := (h.waiting hd hp).2.1
      rw [hs, hm] at hsome
      cases hsome

theorem Flow.setDone {s : RecordStream} (h : Flow S k Open Shut s)
    (ho : s.done = true ∨ s.hasMore = false) : Flow S k Open Shut { s with done := true } :=
  ⟨h.start, h.buffer, h.summary, fun _ => h.unended ho,
    h.tracked, by simp, by simp, fun _ => h.over ho⟩

theorem Flow.setBuffer {s : RecordStream} (h : Flow S k Open Shut s)
    {buffer : List (List BoltValue)} (hsub : buffer ⊆ s.buffer) :
    Flow S k Open Shut { s with buffer } := by
  refine ⟨h.start, fun row hrow => h.buffer row (hsub hrow), h.summary, h.failed, h.tracked, ?_,
    h.waiting, h.ended⟩
  intro hd hp
  obtain ⟨hm, hsum, before, b, rows, hf, rest⟩ := h.inFlight hd hp
  exact ⟨hm, hsum, before, b, rows, ⟨hf.log, hf.sound⟩, rest⟩

def Yielded (S : Server) (k : ℕ) (row : Option (List BoltValue)) (log : List Body) : Prop :=
  ∀ values, row = some values → .record values ∈ S.since k log

theorem post_nextRound (hc : Course S Open Shut) {s : RecordStream} (h : Flow S k Open Shut s) :
    wp (nextRound S.peer ()) (post (Sum.elim (fun _ => Flow S k Open Shut)
      fun row s' => Flow S k Open Shut s' ∧ Yielded S k row s'.conn.log)
      (FlowEnd S k Open Shut)) s := by
  rw [nextRound, Future.wp_bind, Future.wp_get, Future.andThen]
  cases hbuf : s.buffer with
  | cons row buffer =>
    have hsub : buffer ⊆ s.buffer := by simp [hbuf]
    have hrow : row ∈ s.buffer := by simp [hbuf]
    refine ⟨h.setBuffer hsub, ?_⟩
    rintro _ ⟨⟩
    exact h.buffer row hrow
  | nil =>
    split_ifs with ho
    · have ho' : s.done = true ∨ s.hasMore = false := by simpa using ho
      exact ⟨h.setDone ho', by simp [Yielded]⟩
    · obtain ⟨hd, hm⟩ : s.done = false ∧ s.hasMore = true := by simpa using ho
      refine post_bind (post_fetchBatch hc h hd hm) ?_
      rintro _ s' ⟨hflow, -, -⟩
      exact hflow

theorem post_next (hc : Course S Open Shut) {s : RecordStream} (h : Flow S k Open Shut s) :
    wp (next S.peer) (post (fun row s' => Flow S k Open Shut s' ∧ Yielded S k row s'.conn.log)
      (FlowEnd S k Open Shut)) s :=
  post_loop (fun _ => Flow S k Open Shut) h (fun _ _ => post_nextRound hc)
    fun _ _ h' => ⟨h'.mono (fun _ => id) fun _ => .inl, .of_local (by simp)⟩

structure Closed (S : Server) (k : ℕ) (Shut : List Body → Prop) (c : BoltConnection) :
    Prop where
  start : k ≤ c.log.length
  tracked : Tracked S c
  clean : c.broken = false → c.needsReset = false → Live S c [] ∧ Shut c.log

theorem Flow.drop {s : RecordStream} (h : Flow S k Open Shut s) : Closed S k Shut s.drop.conn := by
  unfold RecordStream.drop
  split_ifs with hd
  · exact ⟨h.start, h.tracked, h.ended hd⟩
  · obtain ⟨rs, hb | hl⟩ := h.tracked
    · exact ⟨h.start, ⟨rs, .inl hb⟩, by simp⟩
    · exact ⟨h.start, ⟨rs, .inr (hl.congr rfl rfl rfl rfl)⟩, by simp⟩

/-- The metadata `finish` returns: none, or from a reply of the stream's. -/
def Summarized (S : Server) (k : ℕ) (m : Meta) (log : List Body) : Prop :=
  m = [] ∨ .success m ∈ S.since k log

/-- What `finish` says of the stream `s` when it returns metadata: nothing if the
stream had failed before, and the truth otherwise. -/
def Concluded (S : Server) (k : ℕ) (s : RecordStream) (m : Meta) (c' : BoltConnection) : Prop :=
  (s.done = true ∧ s.summary = none) ∧ m = [] ∧ c' = s.conn ∨
    ¬ (s.done = true ∧ s.summary = none) ∧ Truthful S k m c'

theorem Concluded.summarized {s : RecordStream} {m : Meta} {c' : BoltConnection}
    (h : Concluded S k s m c') : Summarized S k m c'.log := by
  rcases h with ⟨-, rfl, -⟩ | ⟨-, h⟩
  · exact .inl rfl
  · exact .inr h.ended.mem_since

def Finished (S : Server) (k : ℕ) (Shut : List Body → Prop) (m : Meta)
    (s : RecordStream) : Prop :=
  Truthful S k m s.drop.conn ∧ Closed S k Shut s.drop.conn

def CloseEnd (S : Server) (k : ℕ) (Shut : List Body → Prop) (e : Option BoltError)
    (s : RecordStream) : Prop :=
  Closed S k (ShutBy S k Shut e) s.drop.conn ∧ Reported S k e s.drop.conn.log

theorem drop_log (s : RecordStream) : s.drop.conn.log = s.conn.log := by
  unfold RecordStream.drop
  split_ifs <;> rfl

theorem FlowEnd.close {e : Option BoltError} {s : RecordStream} (h : FlowEnd S k Open Shut e s) :
    CloseEnd S k Shut e s :=
  ⟨h.1.drop, by rw [drop_log]; exact h.2⟩

structure Discardable (S : Server) (k : ℕ) (Open : List Body → Prop) (s : RecordStream) :
    Prop where
  start : k ≤ s.conn.log.length
  sound : Sound S s.conn []
  opened : s.conn.broken = false → s.conn.needsReset = true ∧ Open s.conn.log

theorem Flow.discardable {s : RecordStream} (h : Flow S k Open Shut s) (hd : s.done = false)
    (hp : s.pullInFlight = false) (hs : s.summary = none) : Discardable S k Open s := by
  obtain ⟨hsound, hsum, hopen, -⟩ := h.waiting hd hp
  have hm : s.hasMore = true := by simpa [hs] using hsum.symm
  exact ⟨h.start, hsound, fun hb => hopen hb hm⟩

/-- `finish` gave up with `needs_reset` set. -/
theorem CloseEnd.dirty {e : Option BoltError} {s : RecordStream} (hk : k ≤ s.conn.log.length)
    (hd : s.done = true) (ht : Tracked S s.conn)
    (hn : s.conn.broken = false → s.conn.needsReset = true) (hr : Reported S k e s.conn.log) :
    CloseEnd S k Shut e s := by
  have hdrop : s.drop = s := by rw [RecordStream.drop, if_pos hd]
  rw [CloseEnd, hdrop]
  refine ⟨⟨hk, ht, fun hb hn' => ?_⟩, hr⟩
  rw [hn hb] at hn'
  cases hn'

/-- The DISCARD is answered, and `rows` of the answer and its summary are unread. -/
structure Discarding (S : Server) (k : ℕ) (Open : List Body → Prop) (before : List Body)
    (b : Body) (s : RecordStream) : Prop where
  start : k ≤ before.length
  done : s.done = true
  log : s.conn.log = before ++ [b]
  needsReset : s.conn.needsReset = true
  opened : Open before
  packed : ∃ qid, Packed (Request.discard (-1) qid) b
  live : ∃ rows : List (List BoltValue),
    Live S s.conn (rows.map .record ++ [(S.answer before b).summary])

theorem Discarding.length_le {before : List Body} {b : Body} {s : RecordStream}
    (h : Discarding S k Open before b s) : k ≤ s.conn.log.length := by
  rw [h.log, List.length_append]
  exact Nat.le_add_right_of_le h.start

theorem Discarding.summary_mem_since {before : List Body} {b : Body} {s : RecordStream}
    (h : Discarding S k Open before b s) :
    (S.answer before b).summary ∈ S.since k s.conn.log := by
  rw [h.log, since_append_of_le h.start, replies_singleton, Answer.responses]
  simp

theorem Discarding.unread {before : List Body} {b : Body} {s : RecordStream} {rs : List Response}
    {e : Option BoltError} {c' : BoltConnection} (h : Discarding S k Open before b s)
    (hu : Unread S s.conn rs e c') : CloseEnd S k Shut e { s with conn := c' } := by
  refine .dirty ?_ h.done ⟨rs, hu.sound⟩ ?_ (.of_local hu.local_error)
  · rw [hu.log]
    exact h.length_le
  · intro _
    exact hu.needsReset.trans h.needsReset

theorem post_discardRound (hc : Course S Open Shut) {before : List Body} {b : Body}
    {s : RecordStream} (h : Discarding S k Open before b s) : wp (discardRound S.peer ())
      (post (Sum.elim (fun _ => Discarding S k Open before b) (Finished S k Shut))
        (CloseEnd S k Shut)) s := by
  obtain ⟨rows, hl⟩ := h.live
  cases rows with
  -- records in answer to a DISCARD, if there are any, are skipped
  | cons row rows =>
    refine post_call (post_mono (post_receive (.inr hl)) (fun _ _ h => h)
      fun _ _ hu => h.unread hu) ?_
    rintro _ c₁ ⟨rfl, hg, -⟩
    exact ⟨h.start, h.done, hg.log.trans h.log, hg.needsReset.trans h.needsReset, h.opened,
      h.packed, rows, hg.live⟩
  | nil =>
    refine post_call (post_mono (post_receive (.inr hl)) (fun _ _ h => h)
      fun _ _ hu => h.unread hu) ?_
    rintro _ c₁ ⟨rfl, hg, -⟩
    have hlog := hg.log.trans h.log
    have hmem := h.summary_mem_since
    rw [h.log] at hmem
    have hstart : k ≤ (before ++ [b]).length := h.log ▸ h.length_le
    cases hr : (S.answer before b).summary with
    | success m =>
      obtain ⟨qid, hb⟩ := h.packed
      change Finished S k Shut m { s with conn := { c₁ with needsReset := false } }
      rw [Finished, RecordStream.drop, if_pos h.done]
      have hlog' : BoltConnection.log { c₁ with needsReset := false } = before ++ [b] := hlog
      have hlive : Live S { c₁ with needsReset := false } [] := hg.live.congr rfl rfl rfl rfl
      refine ⟨⟨⟨before, b, hlog', h.start, hr, .inr ⟨qid, hb⟩⟩, rfl, hlive⟩,
        hlog' ▸ hstart, ⟨[], .inr hlive⟩, fun _ _ => ⟨hlive, ?_⟩⟩
      rw [hlog']
      exact hc.discard h.opened hb hr
    | failure code message =>
      rw [hr] at hmem
      refine post_recover ⟨[], .inr hg.live⟩ code message fun e c' hrec => ?_
      have hrec : Recovered S k Shut (before ++ [b]) e c' :=
        recovered hstart hmem hlog (hg.needsReset.trans h.needsReset) hrec
      rw [CloseEnd, RecordStream.drop, if_pos h.done]
      obtain ⟨last, hlog'⟩ := hrec.log
      refine ⟨⟨?_, hrec.tracked, fun _ => hrec.clean⟩, hrec.reported⟩
      rw [hlog', List.length_append]
      exact Nat.le_add_right_of_le hstart
    | record v =>
      have hs := S.isSummary before b
      rw [hr] at hs
      cases hs
    | ignored =>
      refine .dirty (hlog ▸ hstart) h.done ⟨[], .inr hg.live⟩ ?_ (.of_local ?_)
      · intro _
        exact hg.needsReset.trans h.needsReset
      · rintro x ⟨⟩
        simp

theorem post_discardRest (hc : Course S Open Shut) {s : RecordStream}
    (h : Discardable S k Open s) : wp (discardRest S.peer)
      (post (Finished S k Shut) (CloseEnd S k Shut)) s := by
  rw [discardRest, Future.wp_bind, setDone, Future.wp_modify, Future.andThen, Future.wp_bind,
    Future.wp_get, Future.andThen]
  have hplain : ∀ req ∈ [Request.discard (-1) s.qid], Plain req := by
    simpa using plain_discard (-1) s.qid
  refine post_call (post_mono (post_send h.sound hplain) (fun _ _ h => h) fun e c' hu => ?_) ?_
  · obtain ⟨bodies, -, hlog⟩ := hu.log
    refine .dirty ?_ rfl (hu.tracked ⟨[], h.sound⟩) (fun hb => ?_) (.of_local hu.local_error)
    · rw [hlog, List.length_append]
      exact Nat.le_add_right_of_le h.start
    · rcases hu.state with rfl | hb'
      · exact (h.opened hb).1
      · rw [hb'] at hb
        cases hb
  · rintro _ c₁ ⟨bodies, hsent⟩
    obtain ⟨b, hb, rfl⟩ := packed_one hsent.packed
    have hopen := h.opened hsent.intact
    have hlive := hsent.live
    rw [List.nil_append, replies_singleton] at hlive
    refine post_loop (fun _ => Discarding S k Open s.conn.log b) ?_
      (fun _ _ => post_discardRound hc) fun _ s' hs' => ?_
    · exact ⟨h.start, rfl, hsent.log, hsent.needsReset.trans hopen.1, hopen.2, ⟨_, hb⟩,
        _, hlive⟩
    · obtain ⟨rows, hl⟩ := hs'.live
      exact .dirty hs'.length_le hs'.done ⟨_, .inr hl⟩ (fun _ => hs'.needsReset)
        (.of_local (by simp))

/-- The summary is there: `finish` hands it out. -/
theorem Flow.summarized {s : RecordStream} {m : Meta} (h : Flow S k Open Shut s)
    (hm : s.summary = some m) : Finished S k Shut m { s with summary := none, done := true } := by
  have ho : s.done = true ∨ s.hasMore = false := by
    cases hd : s.done with
    | true => exact .inl rfl
    | false =>
      right
      cases hp : s.pullInFlight with
      | true =>
        have hnone := (h.inFlight hd hp).2.1
        rw [hm] at hnone
        cases hnone
      | false =>
        have hsum := (h.waiting hd hp).2.1
        simpa [hm] using hsum.symm
  exact ⟨h.summary m hm, h.start, h.tracked, h.over ho⟩

theorem post_takeSummary {α : Type} {Q : α → RecordStream → Prop}
    {E : Option BoltError → RecordStream → Prop} {s : RecordStream} {g : Option Meta → Op α}
    (hsome : ∀ m, s.summary = some m →
      wp (g (some m)) (post Q E) { s with summary := none, done := true })
    (hnone : s.summary = none → wp (g none) (post Q E) s) :
    wp (takeSummary >>= g) (post Q E) s := by
  simp only [takeSummary, Future.wp_bind, Future.wp_get, Future.andThen]
  cases hs : s.summary with
  | some m => exact hsome m hs
  | none => exact hnone hs

theorem post_finish (hc : Course S Open Shut) {s : RecordStream} (h : Flow S k Open Shut s) :
    wp (finish S.peer)
      (post (fun m s' => Concluded S k s m s'.conn ∧ Closed S k Shut s'.conn)
        fun e s' => Closed S k (ShutBy S k Shut e) s'.conn ∧ Reported S k e s'.conn.log) s := by
  rw [finish, Future.wp_dropping]
  suffices hpost : wp _ (post (fun m s' => Concluded S k s m s'.drop.conn ∧
      Closed S k Shut s'.drop.conn) (CloseEnd S k Shut)) s by
    refine wp_mono hpost ?_
    rintro (m | e | _) s' h'
    · exact h'
    · exact h'
    · exact h'
  -- only the early return for `done` can give metadata that no summary carried
  have htruth : ¬ (s.done = true ∧ s.summary = none) → ∀ m s', Finished S k Shut m s' →
      Concluded S k s m s'.drop.conn ∧ Closed S k Shut s'.drop.conn :=
    fun hs m s' h' => ⟨.inr ⟨hs, h'.1⟩, h'.2⟩
  refine post_takeSummary (fun m hm => htruth (by simp [hm]) _ _ (h.summarized hm)) fun hnone => ?_
  rw [Future.wp_bind, Future.wp_get, Future.andThen]
  split_ifs with hd hp
  · have hdrop : s.drop = s := if_pos hd
    exact ⟨.inl ⟨⟨hd, hnone⟩, rfl, congrArg RecordStream.conn hdrop⟩, h.drop⟩
  · have hd' : s.done = false := by simpa using hd
    have htruth' := htruth (by simp [hd'])
    refine post_bind (post_mono (post_fetchBatch hc h hd' (h.inFlight hd' hp).1) (fun _ _ h => h)
      fun _ _ he => he.close) ?_
    rintro _ s₁ ⟨hflow, hd₁, hp₁⟩
    rw [Future.wp_bind, Future.wp_modify, Future.andThen]
    have hflow' := hflow.setBuffer (List.nil_subset s₁.buffer)
    refine post_takeSummary (fun m hm => htruth' _ _ (hflow'.summarized hm)) fun hnone₁ => ?_
    exact post_mono (post_discardRest hc (hflow'.discardable hd₁ hp₁ hnone₁)) htruth'
      fun _ _ h => h
  · have hd' : s.done = false := by simpa using hd
    exact post_mono (post_discardRest hc (h.discardable hd' (by simpa using hp) hnone))
      (htruth (by simp [hd'])) fun _ _ h => h

end RecordStream
end Boltwire
