import Boltwire.StreamOps

namespace Boltwire
open Future Server BoltConnection

def batchOf (n : Int64) (rows : List (List BoltValue)) : List (List BoltValue) :=
  if n = -1 then rows else rows.take n.toInt.toNat

def restOf (n : Int64) (rows : List (List BoltValue)) : List (List BoltValue) :=
  if n = -1 then [] else rows.drop n.toInt.toNat

theorem batchOf_append_restOf (n : Int64) (rows : List (List BoltValue)) :
    batchOf n rows ++ restOf n rows = rows := by
  unfold batchOf restOf
  split_ifs
  · exact List.append_nil rows
  · exact List.take_append_drop _ rows

/-- A batch size that is accepted asks for something. -/
theorem pos_of_validateBatch {n : Int64} (h : validateBatch n = .ok ()) (hn : n ≠ -1) :
    0 < n.toInt.toNat := by
  unfold validateBatch at h
  split_ifs at h with hv
  have hz : n.toInt ≠ 0 := by
    intro h0
    apply hv
    left
    apply Int64.toInt_inj.mp
    exact h0
  have hm : n.toInt ≠ -1 := by
    intro h1
    apply hn
    apply Int64.toInt_inj.mp
    exact h1
  have hl : ¬ n.toInt < -1 := fun hl => hv (.inr hl)
  omega

theorem length_restOf_lt {n : Int64} (h : validateBatch n = .ok ())
    {rows : List (List BoltValue)} (hr : rows ≠ []) : (restOf n rows).length < rows.length := by
  have hpos := List.length_pos_of_ne_nil hr
  unfold restOf
  split_ifs with hn
  · exact hpos
  · have hn' := pos_of_validateBatch h hn
    rw [List.length_drop]
    omega

theorem batchOf_ne_nil {n : Int64} (h : validateBatch n = .ok ()) {rows : List (List BoltValue)}
    (hr : rows ≠ []) : batchOf n rows ≠ [] := by
  -- an empty batch would leave all the rows
  intro hb
  have hlen := congrArg List.length (batchOf_append_restOf n rows)
  rw [hb, List.nil_append] at hlen
  have hlt := length_restOf_lt h hr
  omega

/-- The name a RUN's SUCCESS gives its result. -/
def qidOf (m : Meta) : Option Int64 := (m.get "qid").bind BoltValue.asInt

/-- A PULL of an accepted batch size, for the last result or for the one called `qid`. -/
def PullOf (qid : Option Int64) (n : Int64) (b : Body) : Prop :=
  validateBatch n = .ok () ∧ ∃ q, (q = none ∨ q = qid) ∧ Packed (Request.pull n q) b

/-- The PULLs since RUN, none of them after the last row, and the rows they leave. -/
inductive Pulls (qid : Option Int64) (rows : List (List BoltValue)) :
    List Body → List (List BoltValue) → Prop
  | none : Pulls qid rows [] rows
  | more {pulls : List Body} {left : List (List BoltValue)} {n : Int64} {b : Body} :
    Pulls qid rows pulls left → (pulls = [] ∨ left ≠ []) → PullOf qid n b →
    Pulls qid rows (pulls ++ [b]) (restOf n left)

/-- Every PULL that follows `log` is answered with the next rows, and a SUCCESS
that says whether there are more. -/
def Serving (S : Server) (log : List Body) (qid : Option Int64) (rows : List (List BoltValue)) :
    Prop :=
  ∀ pulls left n b, Pulls qid rows pulls left → (pulls = [] ∨ left ≠ []) →
    PullOf qid n b → (S.answer (log ++ pulls) b).records = batchOf n left ∧
    ∃ m, (S.answer (log ++ pulls) b).summary = .success m ∧
      (RecordStream.hasMoreOf m = true ↔ restOf n left ≠ [])

/-- The result of `run`, received after `before`, is `rows`. -/
def Serves (S : Server) (before : List Body) (run : Body) (rows : List (List BoltValue)) : Prop :=
  ∀ m, (S.answer before run).summary = .success m → Serving S (before ++ [run]) (qidOf m) rows

namespace RecordStream
variable {S : Server} {log : List Body} {rows got left : List (List BoltValue)}

structure Underway (S : Server) (log : List Body) (rows : List (List BoltValue))
    (s : RecordStream) : Prop where
  done : s.done = false
  hasMore : s.hasMore = true
  valid : validateBatch s.batch = .ok ()
  serving : Serving S log s.qid rows

/-- The answer to the PULL `b` is on its way, up to its last rows, `unread`. The
rows of the result are those returned, `got`, those in the buffer, those unread,
and those no PULL has asked for. -/
structure Arriving (S : Server) (log : List Body) (rows got : List (List BoltValue))
    (pulls : List Body) (asked unread : List (List BoltValue)) (b : Body) (s : RecordStream) :
    Prop extends Underway S log rows s where
  pullInFlight : s.pullInFlight = true
  pulled : Pulls s.qid rows pulls asked
  nonempty : pulls = [] ∨ asked ≠ []
  pull : PullOf s.qid s.batch b
  inFlight : InFlight S s (log ++ pulls) b unread
  rows_eq : got ++ (s.buffer ++ (unread ++ restOf s.batch asked)) = rows

/-- Every PULL sent is answered, and `left` has not been asked for. -/
structure Waiting (S : Server) (log : List Body) (rows got : List (List BoltValue))
    (pulls : List Body) (left : List (List BoltValue)) (s : RecordStream) : Prop
    extends Underway S log rows s where
  pullInFlight : s.pullInFlight = false
  pulled : Pulls s.qid rows pulls left
  nonempty : left ≠ []
  log_eq : s.conn.broken = false → s.conn.log = log ++ pulls
  sound : Sound S s.conn []
  rows_eq : got ++ (s.buffer ++ left) = rows

inductive Progress (S : Server) (log : List Body) (rows got left : List (List BoltValue))
    (s : RecordStream) : Prop
  | arriving {pulls : List Body} {asked unread : List (List BoltValue)} {b : Body} :
    Arriving S log rows got pulls asked unread b s → left = restOf s.batch asked →
    Progress S log rows got left s
  | waiting {pulls : List Body} :
    Waiting S log rows got pulls left s → Progress S log rows got left s
  | drained : s.hasMore = false → left = [] → got ++ s.buffer = rows →
      Progress S log rows got left s

section
variable {s s' : RecordStream}

/-- A batch was read to its end. -/
theorem Arriving.fetched {pulls : List Body} {asked unread : List (List BoltValue)} {b : Body}
    {m : Meta} (h : Arriving S log rows got pulls asked unread b s)
    (hf : Fetched S s (log ++ pulls) b unread m s') :
    Progress S log rows got (restOf s.batch asked) s' := by
  obtain ⟨-, m', hm', hmore⟩ := h.serving pulls asked s.batch b h.pulled h.nonempty h.pull
  cases hf.success.symm.trans hm'
  have heq := h.rows_eq
  obtain ⟨st, c'⟩ := s'
  obtain rfl := hf.fields
  by_cases hrest : restOf s.batch asked = []
  · have hdone : hasMoreOf m = false := by simpa [hrest] using hmore
    refine .drained hdone hrest ?_
    rwa [hrest, List.append_nil] at heq
  · have hlog := hf.log
    rw [List.append_assoc] at hlog
    rw [← List.append_assoc s.buffer] at heq
    exact .waiting ⟨⟨h.done, hmore.mpr hrest, h.valid, h.serving⟩, rfl,
      .more h.pulled h.nonempty h.pull, hrest, fun _ => hlog, .inr hf.live, heq⟩

/-- A batch was left before its end. -/
theorem Arriving.abandoned {pulls : List Body} {asked unread : List (List BoltValue)} {b : Body}
    {e : Option BoltError} (h : Arriving S log rows got pulls asked unread b s)
    (ha : Abandoned S s (log ++ pulls) b unread e s') :
    Progress S log rows got (restOf s.batch asked) s' := by
  obtain ⟨-, m', hm', -⟩ := h.serving pulls asked s.batch b h.pulled h.nonempty h.pull
  cases ha with
  | @stopped _ rows₁ rows₂ c' hrows _ _ hlog _ hsound =>
    have heq := h.rows_eq
    rw [hrows, List.append_assoc, ← List.append_assoc s.buffer] at heq
    exact .arriving ⟨⟨h.done, h.hasMore, h.valid, h.serving⟩, h.pullInFlight, h.pulled,
      h.nonempty, h.pull, ⟨hlog, hsound⟩, heq⟩ rfl
  | failed hf => cases hf.symm.trans hm'
  | ignored _ hi => cases hi.symm.trans hm'

/-- The next batch was asked for. -/
theorem Waiting.sent {pulls : List Body} {b : Body} {s₁ : RecordStream}
    (h : Waiting S log rows got pulls left s) (hp : Pulled S s b s₁) :
    Arriving S log rows got pulls left (S.answer (log ++ pulls) b).records b s₁ := by
  have hlog := h.log_eq hp.intact
  have hpull : PullOf s.qid s.batch b := ⟨h.valid, s.qid, .inr rfl, hp.packed⟩
  obtain ⟨hrecords, -⟩ := h.serving pulls left s.batch b h.pulled (.inr h.nonempty) hpull
  have hflight := hp.inFlight
  rw [hlog] at hflight
  obtain ⟨st, c₁⟩ := s₁
  obtain rfl := hp.fields
  refine ⟨⟨h.done, h.hasMore, h.valid, h.serving⟩, rfl, h.pulled, .inr h.nonempty, hpull,
    hflight, ?_⟩
  rw [hrecords, batchOf_append_restOf]
  exact h.rows_eq

/-- No PULL was sent, or not all of one. -/
theorem Waiting.unsent {pulls : List Body} {reqs : List Request} {e : Option BoltError}
    {c' : BoltConnection} (h : Waiting S log rows got pulls left s)
    (hu : Unsent S reqs s.conn e c') : Waiting S log rows got pulls left { s with conn := c' } := by
  refine ⟨⟨h.done, h.hasMore, h.valid, h.serving⟩, h.pullInFlight, h.pulled,
    h.nonempty, ?_, ?_, h.rows_eq⟩
  · intro hb
    rcases hu.state with rfl | hb'
    · exact h.log_eq hb
    · cases hb.symm.trans hb'
  · rcases hu.state with rfl | hb'
    · exact h.sound
    · exact .inl hb'

namespace Progress

theorem isPrefix (h : Progress S log rows got left s) : got <+: rows := by
  cases h with
  | arriving h => exact ⟨_, h.rows_eq⟩
  | waiting h => exact ⟨_, h.rows_eq⟩
  | drained _ _ h => exact ⟨_, h⟩

/-- The stream a query has just opened. -/
theorem opened {c : BoltConnection} {columns : List String} {qid : Option Int64} {batch : Int64}
    {b : Body} (hs : Serving S log qid rows) (hb : PullOf qid batch b)
    (hlog : c.log = log ++ [b]) (hl : Live S c (S.answer log b).responses) :
    Progress S log rows [] (restOf batch rows) ⟨.opened columns qid batch, c⟩ := by
  have hans := (hs [] rows batch b .none (.inl rfl) hb).1
  have hrest := batchOf_append_restOf batch rows
  rw [List.append_nil] at hans
  rw [← hans] at hrest
  have hf : InFlight S ⟨.opened columns qid batch, c⟩ (log ++ []) b
      (S.answer log b).records := by
    rw [List.append_nil]
    exact ⟨hlog, .inr hl⟩
  exact .arriving ⟨⟨rfl, rfl, hb.1, hs⟩, rfl, .none, .inl rfl, hb, hf, hrest⟩ rfl

/-- A row is handed out. -/
theorem pop {row : List BoltValue} {buffer : List (List BoltValue)}
    (h : Progress S log rows got left s) (hbuf : s.buffer = row :: buffer) :
    Progress S log rows (got ++ [row]) left { s with buffer } := by
  have happ : ∀ more, got ++ (s.buffer ++ more) = got ++ [row] ++ (buffer ++ more) := by
    intro more
    rw [hbuf, List.append_assoc]
    rfl
  cases h with
  | arriving h hleft =>
    have heq := h.rows_eq
    rw [happ] at heq
    exact .arriving ⟨⟨h.done, h.hasMore, h.valid, h.serving⟩, h.pullInFlight, h.pulled,
      h.nonempty, h.pull, ⟨h.inFlight.log, h.inFlight.sound⟩, heq⟩ hleft
  | waiting h =>
    have heq := h.rows_eq
    rw [happ] at heq
    exact .waiting ⟨⟨h.done, h.hasMore, h.valid, h.serving⟩, h.pullInFlight, h.pulled,
      h.nonempty, h.log_eq, h.sound, heq⟩
  | drained hm hleft heq =>
    have happ' := happ []
    rw [List.append_nil, List.append_nil] at happ'
    exact .drained hm hleft (happ'.symm.trans heq)

/-- `done` is set only at the end. -/
theorem hasMore (h : Progress S log rows got left s) (hd : s.done = true ∨ s.hasMore = false) :
    s.hasMore = false := by
  cases h with
  | arriving h => simpa [h.done] using hd
  | waiting h => simpa [h.done] using hd
  | drained hm => exact hm

theorem setDone (h : Progress S log rows got left s) (hm : s.hasMore = false) :
    Progress S log rows got left { s with done := true } := by
  cases h with
  | arriving h => cases hm.symm.trans h.hasMore
  | waiting h => cases hm.symm.trans h.hasMore
  | drained _ hleft heq => exact .drained hm hleft heq

/-- Nothing more is to come once `has_more` is false. -/
theorem eq_rows (h : Progress S log rows got left s) (hm : s.hasMore = false)
    (hbuf : s.buffer = []) : got = rows := by
  cases h with
  | arriving h => cases hm.symm.trans h.hasMore
  | waiting h => cases hm.symm.trans h.hasMore
  | drained _ _ heq => rwa [hbuf, List.append_nil] at heq

end Progress

/-- A batch is fetched, or left; the rows are all accounted for. -/
theorem progress_fetchBatch (h : Progress S log rows got left s) (hm : s.hasMore = true) :
    wp (fetchBatch S.peer) (post (fun _ s' => ∃ left', Progress S log rows got left' s')
      fun _ s' => ∃ left', Progress S log rows got left' s') s := by
  cases h with
  | arriving h hleft =>
    apply post_mono (post_fetchBatch_inFlight h.pullInFlight h.inFlight)
    · rintro _ s' ⟨m, hf⟩
      exact ⟨_, h.fetched hf⟩
    · intro e s' ha
      exact ⟨_, h.abandoned ha⟩
  | @waiting pulls h =>
    apply post_mono (post_fetchBatch_waiting h.pullInFlight h.sound)
    · rintro _ s' ⟨b, s₁, m, hp, hf⟩
      exact ⟨_, (h.sent hp).fetched (h.log_eq hp.intact ▸ hf)⟩
    · rintro e s' (⟨c', rfl, hu⟩ | ⟨b, s₁, hp, ha⟩)
      · exact ⟨_, .waiting (h.unsent hu)⟩
      · exact ⟨_, (h.sent hp).abandoned (h.log_eq hp.intact ▸ ha)⟩
  | drained hm' => cases hm'.symm.trans hm

def Handed (S : Server) (log : List Body) (rows got : List (List BoltValue))
    (row : Option (List BoltValue)) (s : RecordStream) : Prop :=
  (∃ left, Progress S log rows (got ++ row.toList) left s) ∧ (row = none → got = rows)

theorem handed_row {row : List BoltValue} {buffer : List (List BoltValue)}
    (h : Progress S log rows got left s) (hbuf : s.buffer = row :: buffer) :
    Handed S log rows got (some row) { s with buffer } :=
  ⟨⟨left, h.pop hbuf⟩, by simp⟩

theorem handed_none (h : Progress S log rows got left s) (hm : s.hasMore = false)
    (hbuf : s.buffer = []) : Handed S log rows got none { s with done := true } := by
  refine ⟨⟨left, ?_⟩, fun _ => h.eq_rows hm hbuf⟩
  rw [Option.toList_none, List.append_nil]
  exact h.setDone hm

theorem progress_nextRound (h : Progress S log rows got left s) :
    wp (nextRound S.peer ())
      (post (Sum.elim (fun _ s' => ∃ left', Progress S log rows got left' s')
        (Handed S log rows got))
      fun _ s' => ∃ left', Progress S log rows got left' s') s := by
  rw [nextRound, Future.wp_bind, Future.wp_get, Future.andThen]
  cases hbuf : s.buffer with
  | cons row buffer => exact handed_row h hbuf
  | nil =>
    split_ifs with ho
    · have hm := h.hasMore (by simpa using ho)
      exact handed_none h hm hbuf
    · have hm : s.hasMore = true := by simp_all
      exact post_bind (progress_fetchBatch h hm) fun _ _ hs => hs

theorem progress_next (h : Progress S log rows got left s) : wp (next S.peer)
    (post (Handed S log rows got) fun _ s' => ∃ left', Progress S log rows got left' s') s :=
  post_loop (fun _ s' => ∃ left', Progress S log rows got left' s') ⟨left, h⟩
    (fun _ _ hs => hs.elim fun _ => progress_nextRound) fun _ _ hs => hs

end

end RecordStream
end Boltwire
