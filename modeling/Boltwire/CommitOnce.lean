import Boltwire.Execute

namespace Boltwire.Execute
open Transition

/-- No further attempt can follow. -/
def Call.settled (granted : ℕ → Bool) (c : Call) : Bool :=
  match c.task with
  | .merging _ | .returned _ | .failed _ | .cancelled => true
  | .refreshing _ | .waiting _ => !granted c.attempt
  | _ => false

/-- A COMMIT that the server applies does not end in an error after which the
call tries again. -/
def LossIsFinal (granted : ℕ → Bool) : Action → Execute → Prop
  | .move i (.uncommitted true e), s => ∀ c, s.calls[i]? = some c →
    isTransient e = false ∨ granted c.attempt = false
  | _, _ => True

/-- At most one COMMIT is applied, and it is the last. -/
structure Once (granted : ℕ → Bool) (c : Call) : Prop where
  once : c.applied ≤ 1
  last : c.applied ≠ 0 → c.settled granted = true

section Step
variable {granted : ℕ → Bool} {c c' : Call}

theorem Once.eq_zero (h : Once granted c) (hc : c.settled granted = false) : c.applied = 0 := by
  by_contra hne
  rw [h.last hne] at hc
  cases hc

theorem once_of_zero (h : c.applied = 0) : Once granted c :=
  ⟨h ▸ Nat.zero_le 1, fun hne => absurd h hne⟩

/-- The call has not committed yet and now may have. -/
theorem once_applies (h : Once granted c) (hc : c.settled granted = false) {applied : Bool}
    {t : Task} (ht : applied = true → (c.goto t).settled granted = true) :
    Once granted ((c.applies applied).goto t) := by
  have hzero := h.eq_zero hc
  cases applied with
  | false => exact once_of_zero hzero
  | true =>
    refine ⟨?_, fun _ => ht rfl⟩
    change c.applied + 1 ≤ 1
    rw [hzero]

theorem Once.keep (h : Once granted c) (happlied : c'.applied = c.applied)
    (hc' : c'.settled granted = true) : Once granted c' :=
  ⟨happlied ▸ h.once, fun _ => hc'⟩

theorem settled_failedWith {e : BoltError}
    (h : isTransient e = false ∨ granted c.attempt = false) :
    (c.goto (failedWith e)).settled granted = true := by
  unfold failedWith
  rcases h with h | h
  · simp [h, Call.settled]
  · split_ifs <;> simp [h, Call.settled]

/-- A call that could go on has committed nothing, wherever it goes. -/
theorem Once.goto (h : Once granted c) {t t' : Task} (ht : c.task = t)
    (hc : (c.goto t).settled granted = false) : Once granted (c.goto t') := by
  have hsame : c.goto t = c := by rw [← ht]; rfl
  rw [hsame] at hc
  exact once_of_zero (h.eq_zero hc)

end Step

theorem once_step {granted : ℕ → Bool} {s : Inner} {c c' : Call} {m : Move} {s' : Inner}
    (h : Once granted c) (hok : ∀ e, m = .uncommitted true e →
      isTransient e = false ∨ granted c.attempt = false)
    (hm : Moves granted s c m s' c') : Once granted c' := by
  have hunsettled : ∀ opts, c.task = .committing opts → c.settled granted = false := by
    intro opts ht
    rw [Call.settled, ht]
  cases hm with
  | acquired ht => exact h.goto ht rfl
  | read ht => exact h.goto ht rfl
  | begun ht => exact h.goto ht rfl
  | worked ht => exact h.goto ht rfl
  | unworked ht => exact h.goto ht rfl
  | rolledBack ht => exact h.goto ht rfl
  -- COMMIT applies nothing twice: a call that has not settled has applied nothing yet
  | unmarked ht => exact once_applies h (hunsettled _ ht) fun _ => rfl
  | committed ht => exact once_applies h (hunsettled _ ht) fun _ => rfl
  | @uncommitted opts applied e ht =>
    apply once_applies h (hunsettled _ ht)
    rintro rfl
    exact settled_failedWith (hok e rfl)
  | merged ht => exact h.keep rfl rfl
  | @refreshed e ht =>
    refine ⟨h.once, fun hne => ?_⟩
    have hlast := h.last hne
    rw [Call.settled, ht] at hlast
    exact hlast
  -- the only move that starts over, and only after an attempt that applied nothing
  | again ht hg =>
    have hc : c.settled granted = false := by
      rw [Call.settled, ht]
      simp [hg]
    exact once_of_zero (h.eq_zero hc)
  | exhausted ht hg => exact h.keep rfl rfl
  | abandoned ht => exact once_applies h (hunsettled _ ht) fun _ => rfl
  | cancelled ht => exact h.keep rfl rfl

/-- In every run in which no lost reply to an applied COMMIT is tried again, the
server applies the COMMIT of at most one attempt of every call. -/
theorem commits_at_most_once (granted : ℕ → Bool) (db : Option String) {s : Execute}
    (h : Run (step granted) (LossIsFinal granted) (new db) s) :
    ∀ c ∈ s.calls, c.applied ≤ 1 := by
  have hall : ∀ c ∈ s.calls, Once granted c := by
    apply h.invariant (I := fun s => ∀ c ∈ s.calls, Once granted c) (by simp [new])
    intro a s s' hi hok hstep
    cases step_steps hstep with
    | execute => exact forall_concat hi (once_of_zero rfl)
    | @move i m l₁ l₂ c c' inner' hcalls hlen hm =>
      have hat : s.calls[i]? = some c := by simp [hcalls, ← hlen]
      rw [hcalls] at hi
      apply forall_replace hi
      apply once_step (hi c (by simp)) ?_ hm
      rintro e rfl
      exact hok c hat
  exact fun c hc => (hall c hc).once

/-- What the backoff grants for `RETRY_ATTEMPTS`. -/
def threeAttempts (attempt : ℕ) : Bool := decide (attempt < 3)

def attempts (i : ℕ) : List Action :=
  [.move i (.acquired (.ok ())), .move i .read, .move i (.begun (.ok ())),
    .move i (.worked (.ok ()))]

def committing : Action → Bool
  | .move _ (.uncommitted _ _) => false
  | _ => true

theorem lossIsFinal_of_committing {granted : ℕ → Bool} (a : Action) (s : Execute)
    (h : committing a = true) : LossIsFinal granted a s := by
  unfold LossIsFinal
  split
  · cases h
  · trivial

/-- BEGIN is lost, and the second attempt commits. -/
theorem commits_at_most_once_retried : ∃ s,
    Run (step threeAttempts) (LossIsFinal threeAttempts) (new none) s ∧
    (∃ c ∈ s.calls, c.attempt = 2 ∧ c.applied = 1) ∧
      ∀ c ∈ s.calls, c.applied ≤ 1 := by
  have hplay : (play (step threeAttempts) (fun a _ => committing a) (new none)
      (List.flatten [[.execute .write, .move 0 (.acquired (.ok ())), .move 0 .read,
        .move 0 (.begun (.error (.timeout "read"))), .move 0 .backoff], attempts 0,
        [.move 0 (.committed none)]])).map
          (fun s => s.calls.any fun c => c.attempt == 2 && c.applied == 1) = some true := by
    decide +kernel
  obtain ⟨s, hrun, hlook⟩ :=
    exists_of_play (LossIsFinal threeAttempts) lossIsFinal_of_committing hplay
  have hc : ∃ c ∈ s.calls, c.attempt = 2 ∧ c.applied = 1 := by simpa using hlook
  exact ⟨s, hrun, hc, commits_at_most_once threeAttempts none hrun⟩

/-- The server applies COMMIT and the reply to it times out: the next attempt
commits the same work again. -/
theorem committed_twice : ¬ ∀ (granted : ℕ → Bool) (db : Option String) (s : Execute),
    Reaches (step granted) (new db) s → ∀ c ∈ s.calls, c.mode = .write →
    c.applied ≤ 1 := by
  intro hall
  have hplay : (play (step threeAttempts) (fun _ _ => true) (new none)
      (List.flatten [[.execute .write], attempts 0, [.move 0 (.uncommitted true (.timeout "read")),
        .move 0 .backoff], attempts 0, [.move 0 (.committed (some "b"))]])).map
        (fun s => s.calls.any fun c => c.mode == .write && c.applied == 2) = some true := by
    decide +kernel
  obtain ⟨s, hrun, hlook⟩ := exists_of_play _ (fun _ _ _ => trivial) hplay
  obtain ⟨c, hc, hmode, happlied⟩ : ∃ c ∈ s.calls, c.mode = .write ∧ c.applied = 2 := by
    simpa using hlook
  have hle := hall _ _ s hrun c hc hmode
  omega

end Boltwire.Execute
