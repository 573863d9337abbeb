import Boltwire.PoolSafety
import Boltwire.RoutedPool

namespace Boltwire

theorem Pool.Moves.closed_iff {p p' : PoolInner} {t t' : Pool.Task} (h : Pool.Moves p t p' t') :
    p'.closed = p.closed := by
  cases h <;> rfl

theorem Pool.closed_step {p p' : Pool} {a : Pool.Action} (h : Pool.step a p = some p')
    (hp : p.inner.closed = true) : p'.inner.closed = true := by
  cases step_steps h with
  | get => exact hp
  | close => rfl
  | move _ _ hmove => exact (move_moves hmove).closed_iff.trans hp

namespace RoutedPool
open Transition

def drained (s : RoutedPool) : Bool := s.tasks.any (·.task.drained)

def Lap.last (lap : Lap) : Bool := lap.second && decide (lap.addrs.length ≤ lap.i + 1)

theorem nextAddr_last {lap : Lap} (h : lap.last = true) :
    nextAddr lap = .failed (unreachable lap.mode) := by
  obtain ⟨hsecond, hlen⟩ : lap.second = true ∧ lap.addrs.length ≤ lap.i + 1 := by
    simpa [Lap.last] using h
  rw [nextAddr, if_neg (by omega), nextLap, if_pos hsecond]

/-- `close` does not get in the way: no pool is created after the pools were
drained, no pool is evicted, and a checkout that is shut out of the pool of a
server has nothing left to try. A pool that is evicted with nobody to use it is
freed in the source, and could be let pass. -/
def undisturbed : Action → RoutedPool → Bool
  | .move _ .poolFor, s => !s.drained
  | .move i .evict, s => match s.tasks[i]? with
    | some ⟨.evicting lap, _⟩ => (s.inner.poolOf lap.addr).isNone
    | _ => true
  | .move i .resume, s => match s.tasks[i]? with
    | some ⟨.getting lap pool task, _⟩ =>
      !toldClosed s.inner (.getting lap pool task) || lap.last
    | _ => true
  | _, _ => true

def ClosedAt (s : RoutedInner) (pool : ℕ) : Prop :=
  ∃ q, s.made[pool]? = some q ∧ q.2.inner.closed = true

/-- It ends with `Closed`, or was cancelled on the way. -/
def Call.TurnedAway (c : Call) : Prop :=
  (∃ lap, c.task = .evicting lap ∧ nextAddr lap = .failed (unreachable lap.mode)) ∨
    (∃ message, c.task = .failed (.closed message)) ∨ c.task = .cancelled

theorem Call.not_turnedAway {c : Call} (hevict : ∀ lap, c.task ≠ .evicting lap)
    (hfailed : ∀ e, c.task ≠ .failed e) (hcancelled : c.task ≠ .cancelled) :
    ¬ c.TurnedAway := by
  rintro (⟨lap, ht, -⟩ | ⟨message, ht⟩ | ht)
  · exact hevict lap ht
  · exact hfailed _ ht
  · exact hcancelled ht

structure CloseInv (s : RoutedPool) : Prop where
  forgotten : s.drained = true → s.inner.pools = []
  kept : ∀ pool < s.inner.made.length, pool ∈ s.inner.pools.map Prod.snd ∨
    (∃ c ∈ s.tasks, pool ∈ c.task.toClose) ∨ ClosedAt s.inner pool
  turnedAway : ∀ c ∈ s.tasks, c.shutOut = true → c.TurnedAway

theorem ClosedAt.onPool {s s' : RoutedInner} {pool k : ℕ} {a : Pool.Action}
    (hk : ClosedAt s k) (h : s.onPool pool a = some s') : ClosedAt s' k := by
  obtain ⟨q, hq, hclosed⟩ := hk
  obtain ⟨p', hp', rfl | ⟨-, hstep⟩⟩ := onPool_made h hq
  · exact ⟨_, hp', hclosed⟩
  · exact ⟨_, hp', Pool.closed_step hstep hclosed⟩

theorem closedAt_close {s s' : RoutedInner} {pool : ℕ} (h : s.onPool pool .close = some s') :
    ClosedAt s' pool := by
  obtain ⟨addr, p, p', hp, hstep, rfl⟩ := onPool_eq_some h
  have hlt := (List.getElem?_eq_some_iff.mp hp).1
  cases hstep
  exact ⟨_, List.getElem?_set_self hlt, rfl⟩

theorem drained_middle (inner : RoutedInner) (l₁ l₂ : List Call) (c : Call) :
    drained ⟨inner, l₁ ++ c :: l₂⟩ =
    (drained ⟨inner, l₁ ++ l₂⟩ || c.task.drained) := by
  simp only [drained, List.any_append, List.any_cons]
  cases l₁.any _ <;> cases l₂.any _ <;> cases c.task.drained <;> rfl

section Step
variable {inner inner' : RoutedInner} {l₁ l₂ : List Call} {c : Call} {t' : Task} {m : Move}

/-- A pool of a server takes a step. -/
theorem CloseInv.pool {s : RoutedPool} {pool : ℕ} {a : Pool.Action} (hi : CloseInv s)
    (h : s.inner.onPool pool a = some inner') : CloseInv { s with inner := inner' } := by
  obtain ⟨hpools, -⟩ := onPool_pools h
  refine ⟨?_, ?_, hi.turnedAway⟩
  · intro hd
    exact hpools.trans (hi.forgotten hd)
  · intro k hk
    rw [onPool_length h] at hk
    rw [hpools]
    exact (hi.kept k hk).imp id (.imp id fun hc => hc.onPool h)

/-- A new call. -/
theorem CloseInv.call {s : RoutedPool} (hi : CloseInv s) {t : Task} {closed : Bool}
    (hd : t.drained = false) :
    CloseInv ⟨{ s.inner with closed }, s.tasks ++ [⟨t, false⟩]⟩ := by
  refine ⟨?_, ?_, forall_concat hi.turnedAway (by simp)⟩
  · intro h
    apply hi.forgotten
    simpa [drained, hd] using h
  · intro k hk
    refine (hi.kept k hk).imp id (.imp ?_ id)
    rintro ⟨c, hc, hk⟩
    exact ⟨c, List.mem_append_left _ hc, hk⟩

/-- The call at hand keeps the promises it had made, and may pass some on. -/
theorem CloseInv.move (hi : CloseInv ⟨inner, l₁ ++ c :: l₂⟩) {c' : Call}
    (hpools : inner'.pools = inner.pools ∨ inner'.pools = [])
    (hdrained : c'.task.drained = true → c.task.drained = true ∨ inner'.pools = [])
    (hkept : ∀ k < inner'.made.length, k < inner.made.length ∧
      (ClosedAt inner k → ClosedAt inner' k) ∧
      (k ∈ inner.pools.map Prod.snd → k ∈ inner'.pools.map Prod.snd ∨
        k ∈ c'.task.toClose) ∧
      (k ∈ c.task.toClose → k ∈ c'.task.toClose ∨ ClosedAt inner' k))
    (hturned : c'.shutOut = true → c'.TurnedAway) :
    CloseInv ⟨inner', l₁ ++ c' :: l₂⟩ := by
  refine ⟨?_, ?_, forall_replace hi.turnedAway hturned⟩
  · intro hd
    rcases hpools with hpools | hpools
    · rw [drained_middle, Bool.or_eq_true] at hd
      have hbefore := hi.forgotten
      rw [drained_middle, Bool.or_eq_true] at hbefore
      rcases hd with hd | hd
      · exact hpools.trans (hbefore (.inl hd))
      · rcases hdrained hd with hd | hnil
        · exact hpools.trans (hbefore (.inr hd))
        · exact hnil
    · exact hpools
  · intro k hk
    obtain ⟨hlt, hclosed, hmapped, hclose⟩ := hkept k hk
    have hmem : c' ∈ l₁ ++ c' :: l₂ := by simp
    -- pool `k` was in the map, on some call's list, or closed already
    rcases hi.kept k hlt with h | ⟨c₁, hc₁, h⟩ | h
    · exact (hmapped h).imp id fun h => .inl ⟨c', hmem, h⟩
    · rw [List.mem_append, List.mem_cons] at hc₁
      rcases hc₁ with hc₁ | rfl | hc₁
      · exact .inr (.inl ⟨c₁, by simp [hc₁], h⟩)
      · exact .inr ((hclose h).imp (fun h => ⟨c', hmem, h⟩) id)
      · exact .inr (.inl ⟨c₁, by simp [hc₁], h⟩)
    · exact .inr (.inr (hclosed h))

/-- `pool_for` creates at most the pool that it enters into the map. -/
theorem CloseInv.poolFor {s : RoutedPool} (hi : CloseInv s) (hd : s.drained = false)
    (addr : String) : CloseInv { s with inner := (s.inner.poolFor addr).1 } := by
  unfold RoutedInner.poolFor
  split
  case h_1 => exact hi
  case h_2 =>
    refine ⟨?_, ?_, hi.turnedAway⟩
    · intro h
      rw [show s.drained = true from h] at hd
      cases hd
    · intro k hk
      rw [List.length_append, List.length_singleton] at hk
      by_cases hlt : k < s.inner.made.length
      · rcases hi.kept k hlt with h | h | ⟨q, hq, hclosed⟩
        · left
          rw [List.map_append]
          exact List.mem_append_left _ h
        · exact .inr (.inl h)
        · refine .inr (.inr ⟨q, ?_, hclosed⟩)
          rw [List.getElem?_append_left hlt]
          exact hq
      · left
        have hk : k = s.inner.made.length := by omega
        simp [hk]

/-- An address that has no entry is not removed. -/
theorem pools_evict {s : RoutedInner} {addr : String} (h : s.poolOf addr = none) :
    (s.evict addr).pools = s.pools := by
  apply List.filter_eq_self.mpr
  intro q hq
  have hne : addr ≠ q.1 := by simpa using List.lookup_eq_none_iff.mp h q hq
  exact decide_eq_true (Ne.symm hne)

theorem CloseInv.step {s s' : RoutedPool} {a : Action} (hi : CloseInv s)
    (hok : undisturbed a s = true) (h : Steps s a s') : CloseInv s' := by
  cases h with
  | acquire => exact hi.call rfl
  | refresh => exact hi.call rfl
  | close => exact hi.call rfl
  | pool hon => exact hi.pool hon
  | @move i m l₁ l₂ c t' inner' htasks hlen hm =>
    obtain ⟨inner, tasks⟩ := s
    obtain rfl : tasks = l₁ ++ c :: l₂ := htasks
    have hat : (l₁ ++ c :: l₂)[i]? = some c := by
      rw [← hlen]
      simp
    obtain ⟨t, shut⟩ := c
    have hturned := hi.turnedAway ⟨t, shut⟩ (by simp)
    cases hm with
    -- no map of pools changes, and the call is not told that its pool is closed
    | calm hsame hcalm htold =>
      refine hi.move (.inl hsame.pools) (fun hd => .inl (hcalm.drained ▸ hd)) ?_ ?_
      · intro k hk
        rw [hsame.made] at hk
        refine ⟨hk, ?_, ?_, ?_⟩
        · rintro ⟨q, hq, hc⟩
          exact ⟨q, hsame.made ▸ hq, hc⟩
        · intro h
          exact .inl (hsame.pools ▸ h)
        · intro h
          exact .inl (hcalm.toClose ▸ h)
      · intro hshut
        rw [htold, Bool.or_false] at hshut
        rcases hturned hshut with ⟨lap, ht, -⟩ | ⟨message, ht⟩ | ht
        · exact .inr (.inr (hcalm.evicting lap ht))
        · exact absurd ht (hcalm.failed _)
        · exact absurd ht hcalm.cancelled
    -- turned away by a closed pool, which ends the call on its last lap only
    | @told lap pool task hshut =>
      refine hi.move (.inl rfl) (by simp [Task.drained]) ?_ ?_
      · intro k hk
        exact ⟨hk, id, .inl, by simp [Task.toClose]⟩
      · intro _
        have htold : toldClosed inner (.getting lap pool task) = true := by
          simp only [toldClosed, hshut]
        have hlast : lap.last = true := by
          simpa [undisturbed, hat, htold] using hok
        exact .inl ⟨lap, rfl, nextAddr_last hlast⟩
    -- after close has drained the map, `pool_for` would put a new pool in it
    | @got lap s₁ s₂ pool task hfor hget =>
      have hd : drained ⟨inner, l₁ ++ ⟨.trying lap, shut⟩ :: l₂⟩ = false := by
        simpa [undisturbed] using hok
      have hfor' := hi.poolFor hd lap.addr
      rw [hfor] at hfor'
      refine (hfor'.pool hget).move (.inl rfl) (by simp [Task.drained]) ?_ ?_
      · intro k hk
        exact ⟨hk, id, .inl, by simp [Task.toClose]⟩
      · intro hshut
        have hshut : shut = true := by simpa [toldClosed] using hshut
        exact absurd (hturned hshut) (Call.not_turnedAway (by simp) (by simp) (by simp))
    -- evicting an address with no pool leaves the map as it is
    | @evicted lap =>
      have hentry : inner.poolOf lap.addr = none := by
        simpa [undisturbed, hat] using hok
      have hpools := pools_evict hentry
      refine hi.move (.inl hpools) ?_ ?_ ?_
      · intro hd
        rw [Task.drained_of_closes (closes_nextAddr lap)] at hd
        cases hd
      · intro k hk
        refine ⟨hk, id, ?_, by simp [Task.toClose]⟩
        intro h
        exact .inl (hpools.symm ▸ h)
      · intro hshut
        have hshut : shut = true := by simpa [toldClosed] using hshut
        rcases hturned hshut with ⟨lap', ht, hnext⟩ | ⟨_, ht⟩ | ht
        · cases ht
          refine .inr (.inl ?_)
          rw [hnext]
          cases lap.mode <;> exact ⟨_, rfl⟩
        · cases ht
        · cases ht
    -- the pools leave the map for the list of those still to be closed
    | @drained order hperm =>
      refine hi.move (.inr rfl) (fun _ => .inr rfl) ?_ ?_
      · intro k hk
        refine ⟨hk, id, ?_, by simp [Task.toClose]⟩
        intro h
        exact .inr (hperm.mem_iff.mpr h)
      · intro hshut
        have hshut : shut = true := by simpa [toldClosed] using hshut
        exact absurd (hturned hshut) (Call.not_turnedAway (by simp) (by simp) (by simp))
    -- a pool leaves that list once it is closed, which it stays
    | @shut pool task pools _ hclose =>
      obtain ⟨hpools, -⟩ := onPool_pools hclose
      refine hi.move (.inl hpools) (fun _ => .inl rfl) ?_ ?_
      · intro k hk
        rw [onPool_length hclose] at hk
        refine ⟨hk, fun hc => hc.onPool hclose, ?_, ?_⟩
        · intro h
          exact .inl (hpools.symm ▸ h)
        · intro h
          rcases List.mem_cons.mp h with rfl | h
          · exact .inr (closedAt_close hclose)
          · exact .inl h
      · intro hshut
        have hshut : shut = true := by simpa [toldClosed] using hshut
        exact absurd (hturned hshut) (Call.not_turnedAway (by simp) (by simp) (by simp))

end Step

theorem closeInv_new (seeds : List String) (maxPerHost : ℕ) : CloseInv (new seeds maxPerHost) :=
  ⟨by simp [new], by simp [new], by simp [new]⟩

/-- In every run that `close` does not get in the way of: once a `close` has
returned, and none is still at work, no server has a pool, every pool that was
ever created is closed, and whoever was shut out ends with `Closed`. -/
theorem close_is_final (seeds : List String) (maxPerHost : ℕ) {s : RoutedPool}
    (h : Run RoutedPool.step (fun a s => undisturbed a s = true) (new seeds maxPerHost) s)
    (hclosed : ∃ c ∈ s.tasks, c.task = .closed)
    (hdone : ∀ c ∈ s.tasks, c.task.toClose = []) :
    s.inner.pools = [] ∧ (∀ q ∈ s.inner.made, q.2.inner.closed = true) ∧
      ∀ c ∈ s.tasks, c.shutOut = true → c.TurnedAway := by
  have hi : CloseInv s := h.invariant (closeInv_new seeds maxPerHost)
    fun _ _ _ hi hok hstep => hi.step hok (step_steps hstep)
  obtain ⟨c, hc, htask⟩ := hclosed
  have hpools : s.inner.pools = [] := by
    apply hi.forgotten
    exact List.any_eq_true.mpr ⟨c, hc, by rw [htask]; rfl⟩
  refine ⟨hpools, ?_, hi.turnedAway⟩
  intro q hq
  obtain ⟨k, hk, rfl⟩ := List.getElem_of_mem hq
  rcases hi.kept k hk with h | ⟨c', hc', h⟩ | ⟨q', hq', hclosed⟩
  · rw [hpools] at h
    cases h
  · rw [hdone c' hc'] at h
    cases h
  · rw [List.getElem?_eq_getElem hk] at hq'
    cases hq'
    exact hclosed

def acquiredAndClosed (s : RoutedPool) : Bool :=
  match s.tasks with
  | [⟨.acquired 0 0, _⟩, ⟨.closed, _⟩] => true
  | _ => false

theorem tasks_of_acquiredAndClosed {s : RoutedPool} (h : acquiredAndClosed s = true) :
    ∃ b b', s.tasks = [⟨.acquired 0 0, b⟩, ⟨.closed, b'⟩] := by
  unfold acquiredAndClosed at h
  split at h
  case h_1 b b' htasks => exact ⟨b, b', htasks⟩
  case h_2 => cases h

/-- A server is in use when the routed pool is closed. -/
theorem close_is_final_inUse : ∃ s,
    Run RoutedPool.step (fun a s => undisturbed a s = true) (new ["a"] 1) s ∧
    (∃ c ∈ s.tasks, c.task = .closed) ∧ (∀ c ∈ s.tasks, c.task.toClose = []) ∧
    s.inner.made.length = 1 ∧ s.inner.pools = [] ∧
      ∀ q ∈ s.inner.made, q.2.inner.closed = true := by
  have hplay : (play RoutedPool.step undisturbed (new ["a"] 1)
      (List.flatten [[.acquire .write, .move 0 .begin, .move 0 (.fresh 0)], fetches 0, toPool 0,
        connects 0 0, [.move 0 .resume, .close, .move 1 (.drain [0]), .move 1 .shut,
          .pool 0 1 .take, .pool 0 1 .goodbye, .move 1 .shut, .move 1 .shut]])).map
      (fun s => acquiredAndClosed s && s.inner.made.length == 1) = some true := by
    decide +kernel
  obtain ⟨s, hrun, hlook⟩ := exists_of_play (fun a s => undisturbed a s = true)
    (fun _ _ h => h) hplay
  obtain ⟨hboth, hone⟩ : acquiredAndClosed s = true ∧ s.inner.made.length = 1 := by
    simpa using hlook
  obtain ⟨b, b', htasks⟩ := tasks_of_acquiredAndClosed hboth
  have hclosed : ∃ c ∈ s.tasks, c.task = .closed := by simp [htasks]
  have hdone : ∀ c ∈ s.tasks, c.task.toClose = [] := by simp [htasks, Task.toClose]
  obtain ⟨hpools, hmade, -⟩ := close_is_final ["a"] 1 hrun hclosed hdone
  exact ⟨s, hrun, hclosed, hdone, hone, hpools, hmade⟩

/-- A checkout has found the pool open; `close` runs to its end; the checkout goes
on, creates a pool for a server and connects. -/
theorem close_overtakes_checkout : ¬ ∀ (seeds : List String) (maxPerHost : ℕ) (s : RoutedPool),
    Reaches RoutedPool.step (new seeds maxPerHost) s →
    (∃ c ∈ s.tasks, c.task = .closed) → (∀ c ∈ s.tasks, c.task.toClose = []) →
    s.inner.pools = [] ∧ (∀ q ∈ s.inner.made, q.2.inner.closed = true) ∧
      ∀ c ∈ s.tasks, c.shutOut = true → c.TurnedAway := by
  intro hall
  have hplay : (play RoutedPool.step (fun _ _ => true) (new ["a"] 1)
      (List.flatten [[.acquire .write, .move 0 .begin, .close, .move 1 (.drain []), .move 1 .shut,
        .move 0 (.fresh 0)], fetches 0, toPool 0, connects 0 0, [.move 0 .resume]])).map
      (fun s => acquiredAndClosed s && s.inner.pools == [("a", 0)]) = some true := by
    decide +kernel
  obtain ⟨s, hrun, hlook⟩ := exists_of_play _ (fun _ _ _ => trivial) hplay
  obtain ⟨hboth, hpool⟩ : acquiredAndClosed s = true ∧ s.inner.pools = [("a", 0)] := by
    simpa using hlook
  obtain ⟨b, b', htasks⟩ := tasks_of_acquiredAndClosed hboth
  have hpools := (hall ["a"] 1 s hrun (by simp [htasks]) (by simp [htasks, Task.toClose])).1
  rw [hpools] at hpool
  cases hpool

end RoutedPool
end Boltwire
