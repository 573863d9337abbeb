import Boltwire.Client
import Boltwire.Flow

namespace Boltwire
open Future Server BoltConnection RecordStream

/-- What is assumed of the server when the state of its session is followed. It
is a premise of the invariants below and not of the lemmas about them, so that
what does not depend on it is had for every server. -/
structure Law (S : Server) where
  holds : Prop
  orderly : holds → S.Orderly

def Server.law (S : Server) : Law S := ⟨S.Lawful, Lawful.orderly⟩

variable {S : Server} {L : Law S} {log before : List Body} {b b' : Body} {m m' : Meta}

/-- The session is READY, if it is one. -/
def Ready (L : Law S) (log : List Body) : Prop := L.holds → S.phase log = .ready

def Streaming (L : Law S) (log : List Body) : Prop := L.holds → S.phase log = .streaming

theorem phase_success (h : (S.answer log b).summary = .success m) :
    S.phase (log ++ [b]) = (S.phase log).next (signature b) (.success m) := by
  rw [phase_concat, h]

theorem ready_reset (h : (S.answer log resetBody).summary = .success m) :
    Ready L (log ++ [resetBody]) := by
  intro _
  rw [phase_success h]
  rfl

/-- A failed session does not answer SUCCESS. -/
theorem phase_ne_failed (hl : S.Orderly) (h : (S.answer log b).summary = .success m)
    (hb : signature b ≠ RESET) : S.phase log ≠ .failed := by
  intro hf
  have hi := hl.ignores log b hf hb
  rw [h] at hi
  cases hi

/-- COMMIT or ROLLBACK that succeeds leaves the session READY. -/
theorem ready_end (h : (S.answer log b).summary = .success m)
    (hb : signature b = COMMIT ∨ signature b = ROLLBACK) : Ready L (log ++ [b]) := by
  intro hl
  have hr : signature b ≠ RESET := by rcases hb with hb | hb <;> rw [hb] <;> decide
  have hf := phase_ne_failed (L.orderly hl) h hr
  rw [phase_success h]
  cases hp : S.phase log with
  | failed => exact absurd hp hf
  | ready => rcases hb with hb | hb <;> rw [hb] <;> rfl
  | streaming => simp [Phase.next, hr, hb]
  | txReady => simp [Phase.next, hr, hb]
  | txStreaming => simp [Phase.next, hr, hb]

theorem Ready.run (h : Ready L log) (hm : (S.answer log b).summary = .success m)
    (hb : signature b = RUN) : Streaming L (log ++ [b]) := by
  intro hl
  rw [phase_success hm, h hl, hb]
  rfl

theorem Ready.route (h : Ready L log) (hm : (S.answer log b).summary = .success m)
    (hb : signature b = ROUTE) : Ready L (log ++ [b]) := by
  intro hl
  rw [phase_success hm, h hl, hb]
  rfl

theorem phase_pull (p : Phase) (hm : hasMoreOf m = true)
    (hp : p = .streaming ∨ p = .txStreaming) :
    p.next PULL (.success m) = p := by
  rcases hp with rfl | rfl <;> simp [Phase.next, hm, PULL, RESET, COMMIT, ROLLBACK]

/-- The last batch, or the end of a DISCARD. -/
theorem phase_last {sig : UInt8} (hs : sig = PULL ∨ sig = DISCARD) (hm : hasMoreOf m = false) :
    Phase.streaming.next sig (.success m) = .ready ∧
      Phase.txStreaming.next sig (.success m) = .txReady := by
  rcases hs with rfl | rfl <;>
    simp [Phase.next, hm, PULL, DISCARD, RESET, COMMIT, ROLLBACK]

/-- The server has no more of a result that was asked for in full. -/
theorem hasMoreOf_all (hl : S.Orderly) {qid : Option Int64}
    (hb : Packed (Request.pull (-1) qid) b ∨ Packed (Request.discard (-1) qid) b)
    (hm : (S.answer log b).summary = .success m) : hasMoreOf m = false :=
  hl.complete log b qid hb m hm

theorem course_streaming : Course S (Streaming L) (Ready L) where
  more := by
    intro log b m h hb hm hmore hl
    rw [phase_success hm, h hl, hb, phase_pull _ hmore (.inl rfl)]
  last := by
    intro log b m h hb hm hmore hl
    rw [phase_success hm, h hl, hb, (phase_last (.inl rfl) hmore).1]
  discard := by
    intro log b qid m h hb hm hl
    rw [phase_success hm, h hl, hb.signature (plain_discard _ _).2]
    exact (phase_last (.inr rfl) (hasMoreOf_all (L.orderly hl) (.inr hb) hm)).1

/-- RUN and a PULL for everything. -/
theorem Ready.query (h : Ready L log) (hm : (S.answer log b).summary = .success m)
    (hb : signature b = RUN) (hm' : (S.answer (log ++ [b]) b').summary = .success m')
    (hb' : Packed (Request.pull (-1) none) b') : Ready L (log ++ [b, b']) := by
  intro hl
  have hs : Streaming L (log ++ [b]) := h.run hm hb
  rw [show log ++ [b, b'] = log ++ [b] ++ [b'] by simp, phase_success hm', hs hl,
    hb'.signature (plain_pull _ _).2]
  exact (phase_last (.inl rfl) (hasMoreOf_all (L.orderly hl) (.inl hb') hm')).1

/-- The transaction `k` is open, and none of its statements has failed. -/
structure Contained (S : Server) (k : ℕ) (log : List Body) : Prop where
  length_le : k ≤ log.length
  openTx : S.openTx log = some k
  unfailed : ∀ code message, .failure code message ∉ S.since k log

/-- A statement's request that succeeds keeps the transaction open. -/
theorem Contained.concat {k : ℕ} (h : Contained S k log)
    (hb : signature b = RUN ∨ signature b = PULL ∨ signature b = DISCARD)
    (hm : (S.answer log b).summary = .success m) : Contained S k (log ++ [b]) := by
  refine ⟨?_, ?_, ?_⟩
  · rw [List.length_append]
    exact Nat.le_add_right_of_le h.length_le
  · rw [openTx_concat, h.openTx, txNext, hm]
    rcases hb with hb | hb | hb <;> rw [hb] <;> rfl
  · intro code message hmem
    rw [since_append_of_le h.length_le, replies_singleton, Answer.responses, hm] at hmem
    rcases List.mem_append.mp hmem with hmem | hmem
    · exact h.unfailed code message hmem
    · simp at hmem

/-- BEGIN has just succeeded. -/
theorem contained_begin (hb : signature b = BEGIN) (hm : (S.answer log b).summary = .success m) :
    Contained S (log ++ [b]).length (log ++ [b]) := by
  refine ⟨Nat.le_refl _, ?_, ?_⟩
  · rw [openTx_concat, txNext, hm, hb, List.length_append]
    rfl
  · intro code message hmem
    rw [since, List.drop_length] at hmem
    cases hmem

/-- A transaction's statement is open. The session may also be outside the
transaction, where one of its streams has been recovered from a FAILURE. -/
def Within (L : Law S) (h : TxHistory) (log : List Body) : Prop :=
  (L.holds → S.phase log = .txStreaming ∨ S.phase log = .streaming) ∧
    (h.recovered = false → Contained S h.begun log)

def Between (L : Law S) (h : TxHistory) (log : List Body) : Prop :=
  (L.holds → S.phase log = .txReady ∨ S.phase log = .ready) ∧
    (h.recovered = false → Contained S h.begun log)

theorem Ready.begin (h : Ready L log) (hm : (S.answer log b).summary = .success m)
    (hb : signature b = BEGIN) : Between L ⟨(log ++ [b]).length, false⟩ (log ++ [b]) := by
  refine ⟨fun hl => .inl ?_, fun _ => contained_begin hb hm⟩
  rw [phase_success hm, h hl, hb]
  rfl

variable {h : TxHistory}

theorem Between.run (hb : Between L h log) (hm : (S.answer log b).summary = .success m)
    (hr : signature b = RUN) : Within L h (log ++ [b]) := by
  refine ⟨fun hl => ?_, fun hh => (hb.2 hh).concat (.inl hr) hm⟩
  rw [phase_success hm, hr]
  rcases hb.1 hl with hp | hp
  · exact .inl (by rw [hp]; rfl)
  · exact .inr (by rw [hp]; rfl)

theorem Within.last (hw : Within L h log) (hb : signature b = PULL ∨ signature b = DISCARD)
    (hm : (S.answer log b).summary = .success m) (hmore : L.holds → hasMoreOf m = false) :
    Between L h (log ++ [b]) := by
  refine ⟨fun hl => ?_, fun hh => (hw.2 hh).concat (.inr hb) hm⟩
  have hlast := phase_last hb (hmore hl)
  rw [phase_success hm]
  rcases hw.1 hl with hp | hp
  · exact .inl (by rw [hp, hlast.2])
  · exact .inr (by rw [hp, hlast.1])

theorem course_within : Course S (Within L h) (Between L h) where
  more := by
    intro log b m hw hb hm hmore
    refine ⟨fun hl => ?_, fun hh => (hw.2 hh).concat (.inr (.inl hb)) hm⟩
    rw [phase_success hm, hb, phase_pull _ hmore (hw.1 hl).symm]
    exact hw.1 hl
  last hw hb hm hmore := hw.last (.inl hb) hm fun _ => hmore
  discard hw hb hm :=
    hw.last (.inr (hb.signature (plain_discard _ _).2)) hm fun hl => hasMoreOf_all (L.orderly hl)
      (.inr hb) hm

theorem Between.query (hw : Between L h log) (hm : (S.answer log b).summary = .success m)
    (hb : signature b = RUN) (hm' : (S.answer (log ++ [b]) b').summary = .success m')
    (hb' : Packed (Request.pull (-1) none) b') : Between L h (log ++ [b, b']) := by
  have hlast := (hw.run hm hb).last (.inl (hb'.signature (plain_pull _ _).2)) hm'
    fun hl => hasMoreOf_all (L.orderly hl) (.inl hb') hm'
  rwa [List.append_assoc] at hlast

/-- Past the first `k` requests of the log, each one picked found the log before it in `P`. -/
def Finds (picked : Body → Prop) (P : List Body → Prop) (k : ℕ) (log : List Body) : Prop :=
  ∀ before body after, log = before ++ body :: after → k ≤ before.length →
    picked body → P before

section Finds
variable {picked : Body → Prop} {P : List Body → Prop} {k : ℕ}

theorem finds_self (log : List Body) : Finds picked P log.length log := by
  rintro before body after rfl hk
  simp at hk

theorem Finds.concat (h : Finds picked P k log) (hb : picked b → P log) :
    Finds picked P k (log ++ [b]) := by
  intro before body after hlog hk hpicked
  rcases List.eq_nil_or_concat after with rfl | ⟨init, last, rfl⟩
  · obtain ⟨rfl, hbody⟩ := List.append_inj' hlog rfl
    cases hbody
    exact hb hpicked
  · have heq : log ++ [b] = before ++ body :: init ++ [last] := by simpa using hlog
    obtain ⟨rfl, -⟩ := List.append_inj' heq rfl
    exact h before body init rfl hk hpicked

theorem Finds.append {bodies : List Body} (h : Finds picked P k log)
    (hb : ∀ b ∈ bodies, ¬ picked b) : Finds picked P k (log ++ bodies) := by
  induction bodies generalizing log with
  | nil => rwa [List.append_nil]
  | cons b bodies ih =>
    have hfirst := h.concat fun hp => absurd hp (hb b (List.mem_cons_self ..))
    rw [List.append_cons]
    exact ih hfirst fun b' hb' => hb b' (List.mem_cons_of_mem _ hb')

theorem exists_packed {reqs : List Request} {bodies : List Body}
    (h : List.Forall₂ Packed reqs bodies) : ∀ b ∈ bodies, ∃ req ∈ reqs, Packed req b := by
  induction h with
  | nil => simp
  | @cons req body reqs bodies hp _ ih =>
    intro b hb
    rcases List.mem_cons.mp hb with rfl | hb
    · exact ⟨req, List.mem_cons_self .., hp⟩
    · obtain ⟨req', hreq', hp'⟩ := ih b hb
      exact ⟨req', List.mem_cons_of_mem _ hreq', hp'⟩

/-- One request in `P`, and behind it only requests that are not picked. -/
theorem Finds.partly {req : Request} {reqs : List Request} {bodies : List Body}
    (h : Finds picked P k log) (hP : P log)
    (hreqs : ∀ r ∈ reqs, ∀ b, Packed r b → ¬ picked b)
    (hpart : Partly (req :: reqs) bodies) :
    Finds picked P k (log ++ bodies) := by
  obtain ⟨n, hpart⟩ := hpart
  cases n with
  | zero =>
    obtain rfl := List.forall₂_nil_left_iff.mp hpart
    rwa [List.append_nil]
  | succ n =>
    rw [List.take_succ_cons] at hpart
    obtain ⟨b, bs, -, hbs, rfl⟩ := List.forall₂_cons_left_iff.mp hpart
    rw [List.append_cons]
    refine (h.concat fun _ => hP).append fun b' hb' => ?_
    obtain ⟨r, hr, hp⟩ := exists_packed hbs b' hb'
    exact hreqs r (List.mem_of_mem_take hr) b' hp

/-- The same when the operation ended early, perhaps with a RESET. -/
theorem Finds.ended {req : Request} {reqs : List Request} {c c' : BoltConnection}
    (h : Finds picked P k c.log) (hP : P c.log)
    (hreqs : ∀ r ∈ reqs, ∀ b, Packed r b → ¬ picked b) (hreset : ¬ picked resetBody)
    (hend : Ended S (req :: reqs) c c') : Finds picked P k c'.log := by
  obtain ⟨bodies, last, hpart, hlast, hlog⟩ := hend.log_eq
  rw [hlog, ← List.append_assoc]
  have hsent := h.partly hP hreqs hpart
  rcases hlast with rfl | rfl
  · rwa [List.append_nil]
  · exact hsent.concat fun hp => absurd hp hreset

end Finds

end Boltwire
