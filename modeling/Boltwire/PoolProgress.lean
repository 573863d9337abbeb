import Boltwire.PoolSafety

namespace Boltwire.Pool
open Transition

/-- How many moves a call has before it, its own and its caller's. A connection it puts
back may make one more checkout look at it, and probe it. -/
def Task.work : Task → ℕ
  | .acquiring | .probing _ => 9
  | .popping => 8
  | .minting => 7
  | .held _ => 6
  | .testing _ => 5
  | .pushing _ => 4
  | .taking => 2
  | .parting conns => conns.length + 1
  | .ending _ | .releasing => 1
  | .ended _ | .shutOut | .returned | .closed => 0

def work (s : Pool) : ℕ := 2 * s.inner.idle.length + total Task.work s.tasks

def Move.retries : Move → Bool
  | .refused e again => e.isTransient && again
  | _ => false

/-- The steps an action accounts for. -/
def Action.credit : Action → ℕ
  | .get => 10
  | .close => 3
  | .move _ m => m.retries.toNat

theorem retries_of_again {m : Move} {p p' : PoolInner}
    (h : move m p .minting = some (p', .minting)) :
    m.retries = true := by
  cases m with
  | refused e again =>
    simp only [move] at h
    split_ifs at h with hagain
    · exact hagain
    · cases h
  | timeout =>
    simp only [move, abandon] at h
    split_ifs at h
    cases h
  | _ => cases h

theorem move_work {m : Move} {p p' : PoolInner} {t t' : Task} (h : move m p t = some (p', t')) :
    2 * p'.idle.length + t'.work + 1 ≤ 2 * p.idle.length + t.work + m.retries.toNat := by
  cases move_moves h with
  | again =>
    rw [retries_of_again h]
    exact Nat.le_refl _
  | stale hidle | popped hidle =>
    simp only [PoolInner.discard, Task.work, hidle, List.length_cons]
    omega
  | taken =>
    simp only [Task.work, List.length_nil]
    omega
  | _ =>
    simp only [PoolInner.discard, Task.work, List.length_cons]
    omega

theorem step_work {a : Action} {s s' : Pool} (h : step a s = some s') :
    s'.work + 1 ≤ s.work + a.credit := by
  cases step_steps h with
  | get =>
    simp only [work, total_append, total_cons, total_nil, Task.work, Action.credit]
    omega
  | close =>
    simp only [work, total_append, total_cons, total_nil, Task.work, Action.credit]
    omega
  | move htasks _ hmove =>
    have hm := move_work hmove
    simp only [work, htasks, total_append, total_cons, Action.credit]
    omega

/-- In every interleaving, the calls on a pool take at most ten steps for each `get`,
three for each `close` and one for each connect attempt that is made again. -/
theorem steps_bounded (config : PoolConfig) (acquireTimeout : Option ℕ) {as : List Action}
    {s : Pool} (h : play step (fun _ _ => true) (withConfig config acquireTimeout) as = some s) :
    as.length + s.work ≤ (as.map Action.credit).sum := by
  have hle := play_length_le (fun a s s' => step_work (a := a)) h
  rwa [show (withConfig config acquireTimeout).work = 0 from rfl, Nat.zero_add] at hle

def crowded : List Action :=
  [.get, .move 0 .acquire, .get, .move 0 (.pop 0 0 true), .move 0 .connected]

def full : Pool := ⟨⟨⟨1, none, none⟩, none, 0, false, [], 1, []⟩, [.held 0, .acquiring]⟩

theorem play_crowded :
    play step (fun _ _ => true) (withConfig ⟨1, none, none⟩ none) crowded = some full := rfl

theorem steps_bounded_crowded : crowded.length + full.work ≤ (crowded.map Action.credit).sum :=
  steps_bounded ⟨1, none, none⟩ none play_crowded

/-- The moves of a call; the others are its caller's. -/
def Move.own : Move → Bool
  | .cancel | .timeout | .drop _ | .detach => false
  | _ => true

/-- No call gives up, nothing fails, and what is held is given back. -/
def Move.obliging : Move → Bool
  | .cancel | .timeout | .detach | .refused _ _ | .probed false => false
  | _ => true

def Action.obliging : Action → Bool
  | .move _ m => m.obliging
  | _ => false

def Task.over : Task → Bool
  | .ended _ | .shutOut | .returned | .closed => true
  | _ => false

def Task.isHeld : Task → Bool
  | .held _ => true
  | _ => false

def Task.next (p : PoolInner) : Task → Option Move
  | .acquiring => if p.closed = true ∨ p.permits ≠ 0 then some .acquire else none
  | .popping => some (.pop 0 0 true)
  | .probing _ => some (.probed true)
  | .minting => some .connected
  | .testing _ => some .test
  | .pushing _ => some .push
  | .ending _ | .releasing => some .release
  | .taking => some .take
  | .parting _ => some .goodbye
  | .held _ | .ended _ | .shutOut | .returned | .closed => none

theorem next_possible {p : PoolInner} {t : Task} {m : Move} (h : t.next p = some m) :
    m.own = true ∧ m.obliging = true ∧ ∃ p' t', move m p t = some (p', t') := by
  cases t with
  | acquiring =>
    simp only [Task.next] at h
    split_ifs at h with hfree
    cases h
    refine ⟨rfl, rfl, ?_⟩
    by_cases hc : p.closed = true
    · exact ⟨p, .shutOut, by simp only [move, if_pos hc]⟩
    · obtain ⟨n, hn⟩ := Nat.exists_eq_succ_of_ne_zero (hfree.resolve_left hc)
      exact ⟨{ p with permits := n }, .popping, by simp only [move, if_neg hc, hn]⟩
  | popping =>
    cases h
    refine ⟨rfl, rfl, ?_⟩
    cases hidle : p.idle with
    | nil => exact ⟨p, .minting, by simp only [move, hidle]⟩
    | cons conn idle =>
      simp only [move, hidle]
      split_ifs <;> exact ⟨_, _, rfl⟩
  | testing conn =>
    cases h
    refine ⟨rfl, rfl, ?_⟩
    simp only [move]
    split_ifs <;> exact ⟨_, _, rfl⟩
  | parting conns =>
    cases h
    refine ⟨rfl, rfl, ?_⟩
    cases conns <;> exact ⟨_, _, rfl⟩
  | held _ => cases h
  | ended _ => cases h
  | shutOut => cases h
  | returned => cases h
  | closed => cases h
  | _ =>
    cases h
    exact ⟨rfl, rfl, _, _, rfl⟩

/-- What has no next move is over, held, or waits for a permit. -/
theorem next_eq_none {p : PoolInner} {t : Task} (h : t.next p = none) :
    t.over = true ∨ t.isHeld = true ∨ t = .acquiring ∧ p.closed = false ∧
    p.permits = 0 := by
  cases t with
  | acquiring =>
    simp only [Task.next] at h
    split_ifs at h with hfree
    push Not at hfree
    exact .inr (.inr ⟨rfl, by simpa using hfree.1, hfree.2⟩)
  | held _ => exact .inr (.inl rfl)
  | ended _ => exact .inl rfl
  | shutOut => exact .inl rfl
  | returned => exact .inl rfl
  | closed => exact .inl rfl
  | _ => cases h

theorem step_of_move {s : Pool} {i : ℕ} {t t' : Task} {m : Move} {p' : PoolInner}
    (ht : s.tasks[i]? = some t) (h : move m s.inner t = some (p', t')) :
    step (.move i m) s = some ⟨p', s.tasks.set i t'⟩ := by
  rw [step, onTask_of ht h, Option.map_some]

def Settled (s : Pool) : Prop := ∀ i m, m.own = true → step (.move i m) s = none

theorem Settled.next {s : Pool} (h : s.Settled) {t : Task} (ht : t ∈ s.tasks) :
    t.next s.inner = none := by
  obtain ⟨i, hi⟩ := List.getElem?_of_mem ht
  by_contra hne
  obtain ⟨m, hm⟩ := Option.ne_none_iff_exists'.mp hne
  obtain ⟨hown, -, p', t', hmove⟩ := next_possible hm
  cases (h i m hown).symm.trans (step_of_move hi hmove)

theorem move_of_next {p : PoolInner} {t : Task} {m : Move} (h : t.next p = none)
    (hown : m.own = true) : move m p t = none := by
  rcases next_eq_none h with hover | hheld | ⟨rfl, hclosed, hzero⟩
  · cases t with
    | ended _ | shutOut | returned | closed => cases m <;> first | rfl | cases hown
    | _ => cases hover
  · cases t with
    | held _ => cases m <;> first | rfl | cases hown
    | _ => cases hheld
  · cases m with
    | acquire =>
      simp only [move, hclosed, hzero]
      rfl
    | cancel | timeout => cases hown
    | _ => rfl

theorem settled_of_next {s : Pool} (h : ∀ t ∈ s.tasks, t.next s.inner = none) : s.Settled := by
  intro i m hown
  rw [step, Option.map_eq_none_iff, onTask]
  cases ht : s.tasks[i]? with
  | none => rfl
  | some t =>
    dsimp only
    rw [move_of_next (h t (List.mem_of_getElem? ht)) hown, Option.map_none]

/-- What a call has no more of once nothing moves: a permit, unless it holds a connection. -/
theorem permit_of_next {p : PoolInner} {t : Task} (h : t.next p = none) :
    t.permit = t.isHeld.toNat := by
  cases t with
  | acquiring => rfl
  | held _ => rfl
  | ended _ => rfl
  | shutOut => rfl
  | returned => rfl
  | closed => rfl
  | _ => cases h

/-- Where no call can go on by itself, each is over, holds a connection, or waits
because as many connections are held as the pool may have. -/
theorem waits_only_when_full (config : PoolConfig) (acquireTimeout : Option ℕ) {s : Pool}
    (h : Reaches step (withConfig config acquireTimeout) s) (hsettled : s.Settled) :
    ∀ t ∈ s.tasks, t.over = true ∨ t.isHeld = true ∨
      t = .acquiring ∧ s.inner.closed = false ∧
        s.tasks.countP Task.isHeld = max config.maxSize 1 := by
  obtain ⟨hi, hsize⟩ := inv_of_run h
  intro t ht
  refine (next_eq_none (hsettled.next ht)).imp_right (Or.imp_right ?_)
  rintro ⟨hacquiring, hclosed, hzero⟩
  have hpermits := hi.permits
  rw [hzero, Nat.zero_add, total_eq_countP fun t ht => permit_of_next (hsettled.next ht), hsize]
    at hpermits
  exact ⟨hacquiring, hclosed, hpermits⟩

theorem waits_only_when_full_crowded : full.Settled ∧ ∀ t ∈ full.tasks,
    t.over = true ∨ t.isHeld = true ∨
      t = .acquiring ∧ full.inner.closed = false ∧ full.tasks.countP Task.isHeld = max 1 1 := by
  have hsettled : full.Settled := settled_of_next (by simp [full, Task.next])
  exact ⟨hsettled, waits_only_when_full ⟨1, none, none⟩ none
    (play_reaches play_crowded) hsettled⟩

/-- On the way to a connection, or in possession of one. -/
def Task.serving : Task → Bool
  | .acquiring | .popping | .probing _ | .minting | .held _ => true
  | _ => false

theorem not_serving {t : Task} (h : t.over = true) : t.serving = false := by
  cases t <;> first | rfl | cases h

theorem serving_move {p p' : PoolInner} {t t' : Task} {m : Move} (hclosed : p.closed = false)
    (hs : t.serving = true) (hheld : ∀ conn, t ≠ .held conn) (hm : m.obliging = true)
    (h : move m p t = some (p', t')) : t'.serving = true := by
  cases t with
  | acquiring =>
    cases m with
    | acquire =>
      simp only [move, hclosed, Bool.false_eq_true, if_false] at h
      split at h <;> cases h
      rfl
    | cancel | timeout => cases hm
    | _ => cases h
  | popping =>
    cases m with
    | pop created idled reusable =>
      simp only [move] at h
      split at h
      · cases h
        rfl
      · split_ifs at h <;> cases h <;> rfl
    | cancel | timeout => cases hm
    | _ => cases h
  | probing conn =>
    cases m with
    | probed ok =>
      cases ok with
      | true =>
        cases h
        rfl
      | false => cases hm
    | cancel | timeout => cases hm
    | _ => cases h
  | minting =>
    cases m with
    | connected =>
      cases h
      rfl
    | refused | cancel | timeout => cases hm
    | _ => cases h
  | held conn => exact absurd rfl (hheld conn)
  | _ => cases hs

theorem Moves.closed_eq {p p' : PoolInner} {t t' : Task} (h : Moves p t p' t') :
    p'.closed = p.closed := by
  cases h <;> rfl

structure Serving (i : ℕ) (s : Pool) : Prop where
  inv : Inv s
  closed : s.inner.closed = false
  serving : ∃ t, s.tasks[i]? = some t ∧ t.serving = true

/-- Short of the connection, what the call or another one does leaves it on its way, and
leaves less work. -/
theorem Serving.step {i : ℕ} {s s' : Pool} {a : Action} (h : s.Serving i)
    (hgoal : ¬ ∃ n, s.tasks[i]? = some (.held n)) (ha : a.obliging = true)
    (hstep : Pool.step a s = some s') : s'.Serving i ∧ s'.work < s.work := by
  have hwork := step_work hstep
  have hinv := (h.inv.step (step_steps hstep)).1
  cases a with
  | get => cases ha
  | close => cases ha
  | move j m =>
    obtain ⟨⟨p', tasks'⟩, hon, rfl⟩ := Option.map_eq_some_iff.mp hstep
    obtain ⟨t, t', ht, hmove, rfl⟩ := of_onTask hon
    have hcredit : m.retries = false := by
      cases m with
      | refused e again => cases ha
      | _ => rfl
    rw [Action.credit, hcredit] at hwork
    refine ⟨⟨hinv, (move_moves hmove).closed_eq.trans h.closed, ?_⟩, hwork⟩
    obtain ⟨u, hu, hserving⟩ := h.serving
    by_cases hij : j = i
    · subst hij
      cases hu.symm.trans ht
      have hheld : ∀ conn, t ≠ .held conn := by
        rintro conn rfl
        exact hgoal ⟨conn, ht⟩
      have hlt := (List.getElem?_eq_some_iff.mp ht).1
      exact ⟨t', List.getElem?_set_self hlt, serving_move h.closed hserving hheld ha hmove⟩
    · exact ⟨u, (List.getElem?_set_ne hij).trans hu, hserving⟩

/-- While the call is not served, some call goes on, or some caller can give back what
the call waits for. -/
theorem Serving.possible {i : ℕ} {s : Pool} (h : s.Serving i)
    (hgoal : ¬ ∃ n, s.tasks[i]? = some (.held n)) :
    ∃ a s', a.obliging = true ∧ Pool.step a s = some s' := by
  by_cases hall : ∀ t ∈ s.tasks, t.next s.inner = none
  · obtain ⟨t, ht, hserving⟩ := h.serving
    -- all there is left to do is to give back, and the call waits
    have hzero : s.inner.permits = 0 := by
      rcases next_eq_none (hall t (List.mem_of_getElem? ht)) with hover | hheld | ⟨-, -, hzero⟩
      · cases (not_serving hover).symm.trans hserving
      · cases t with
        | held n => exact absurd ⟨n, ht⟩ hgoal
        | _ => cases hheld
      · exact hzero
    have htotal : total Task.permit s.tasks ≠ 0 := by
      have hpermits := h.inv.permits
      have hsize : 1 ≤ s.size := Nat.le_max_right _ _
      omega
    obtain ⟨j, u, hu, hpermit⟩ := exists_of_total_ne_zero htotal
    rw [permit_of_next (hall u (List.mem_of_getElem? hu))] at hpermit
    cases u with
    | held n => exact ⟨.move j (.drop true), _, rfl, step_of_move hu rfl⟩
    | _ => exact absurd rfl hpermit
  · push Not at hall
    obtain ⟨u, hmem, hne⟩ := hall
    obtain ⟨j, hu⟩ := List.getElem?_of_mem hmem
    obtain ⟨m, hm⟩ := Option.ne_none_iff_exists'.mp hne
    obtain ⟨-, hobliging, p', t', hmove⟩ := next_possible hm
    exact ⟨.move j m, _, hobliging, step_of_move hu hmove⟩

/-- From wherever the calls on an open pool have got to, a checkout that waits for a
permit is given a connection in every course of events in which nothing fails, no call is
given up and what is held is given back, whichever of those that wait is served first. No
permit is lost on the way there. -/
theorem waiting_can_be_served (config : PoolConfig) (acquireTimeout : Option ℕ) {s : Pool}
    (h : Reaches step (withConfig config acquireTimeout) s) (hopen : s.inner.closed = false)
    {i : ℕ} (hwaiting : s.tasks[i]? = some .acquiring) :
    Inevitable step (fun a _ => a.obliging = true)
      (fun s => ∃ n, s.tasks[i]? = some (.held n)) s := by
  have hserving : s.Serving i := ⟨(inv_of_run h).1, hopen, .acquiring, hwaiting, rfl⟩
  exact inevitable_of_descends work (fun s hs hgoal => hs.possible hgoal)
    (fun a s s' hs hgoal ha hstep => hs.step hgoal ha hstep) hserving

theorem waiting_can_be_served_crowded : ∃ s',
    Run step (fun a _ => a.obliging = true) full s' ∧ ∃ n, s'.tasks[1]? = some (.held n) :=
  (waiting_can_be_served ⟨1, none, none⟩ none (play_reaches play_crowded) rfl rfl).exists_run

end Boltwire.Pool
