import Mathlib.Tactic

namespace Transition
variable {σ α : Type}

section Runs
variable (step : α → σ → Option σ)

/-- Reached by actions that meet `ok`. -/
inductive Run (ok : α → σ → Prop) : σ → σ → Prop
  | refl (s : σ) : Run ok s s
  | step {s₀ s s' : σ} {a : α} : Run ok s₀ s → ok a s → step a s = some s' →
      Run ok s₀ s'

abbrev Reaches : σ → σ → Prop := Run step fun _ _ => True

/-- Take the actions one after the other, each only if it meets `ok`. -/
def play (ok : α → σ → Bool) (s : σ) : List α → Option σ
  | [] => some s
  | a :: as => if ok a s then (step a s).bind fun s' => play ok s' as else none

variable {step} {ok ok' : α → σ → Prop} {s s' : σ}

/-- What holds at first and is kept by every step that meets `ok` holds all along. -/
theorem Run.invariant {I : σ → Prop} (h : Run step ok s s') (hI : I s)
    (hstep : ∀ a s s', I s → ok a s → step a s = some s' → I s') : I s' := by
  induction h with
  | refl => exact hI
  | step _ hok hs ih => exact hstep _ _ _ ih hok hs

theorem Run.mono (h : Run step ok s s') (hok : ∀ a s, ok a s → ok' a s) :
    Run step ok' s s' := by
  induction h with
  | refl => exact .refl _
  | step _ ha hs ih => exact ih.step (hok _ _ ha) hs

theorem Run.trans {s'' : σ} (h : Run step ok s s') (h' : Run step ok s' s'') :
    Run step ok s s'' := by
  induction h' with
  | refl => exact h
  | step _ hok hs ih => exact ih.step hok hs

theorem Run.reaches (h : Run step ok s s') : Reaches step s s' := h.mono fun _ _ _ => trivial

theorem play_run (ok : α → σ → Prop) {check : α → σ → Bool} {as : List α}
    (hcheck : ∀ a s, check a s = true → ok a s) (h : play step check s as = some s') :
    Run step ok s s' := by
  suffices hall : ∀ s₀, Run step ok s₀ s → Run step ok s₀ s' from hall s (.refl s)
  induction as generalizing s with
  | nil =>
    cases h
    exact fun _ => id
  | cons a as ih =>
    intro s₀ hrun
    rw [play] at h
    split_ifs at h with hc
    obtain ⟨s₁, hs, hplay⟩ := Option.bind_eq_some_iff.mp h
    exact ih hplay s₀ (hrun.step (hcheck a s hc) hs)

theorem play_reaches {as : List α} (h : play step (fun _ _ => true) s as = some s') :
    Reaches step s s' :=
  play_run _ (fun _ _ _ => trivial) h

/-- A state that is reached and passes a check. -/
theorem exists_of_play (ok : α → σ → Prop) {check : α → σ → Bool} {as : List α}
    {look : σ → Bool} (hcheck : ∀ a s, check a s = true → ok a s)
    (h : (play step check s as).map look = some true) :
    ∃ s', Run step ok s s' ∧ look s' = true := by
  obtain ⟨s', hplay, hlook⟩ := Option.map_eq_some_iff.mp h
  exact ⟨s', play_run ok hcheck hplay, hlook⟩

/-- A system refines another along `abs` if each of its steps, where the invariant
`I` holds, is a step of the other or changes nothing in it. -/
theorem Run.refines {τ β : Type} {step' : β → τ → Option τ} {I : σ → Prop}
    (abs : σ → τ) (h : Run step ok s s') (hI : I s)
    (hkeep : ∀ a s s', I s → ok a s → step a s = some s' → I s')
    (hsim : ∀ a s s', I s → ok a s → step a s = some s' →
      abs s' = abs s ∨ ∃ b, step' b (abs s) = some (abs s')) :
    Reaches step' (abs s) (abs s') := by
  induction h with
  | refl => exact .refl _
  | @step s₁ s' a hrun hok hs ih =>
    have hI' : I s₁ := hrun.invariant hI hkeep
    rcases hsim a s₁ s' hI' hok hs with heq | ⟨b, hb⟩
    · rw [heq]
      exact ih
    · exact ih.step trivial hb

/-- Every step costs at least one of the work, up to what it is credited with. -/
theorem play_length_le {check : α → σ → Bool} {work : σ → ℕ} {credit : α → ℕ}
    {as : List α} (hstep : ∀ a s s', step a s = some s' → work s' + 1 ≤ work s + credit a)
    (h : play step check s as = some s') :
    as.length + work s' ≤ work s + (as.map credit).sum := by
  induction as generalizing s with
  | nil =>
    cases h
    simp
  | cons a as ih =>
    rw [play] at h
    split_ifs at h
    obtain ⟨s₁, hs, hplay⟩ := Option.bind_eq_some_iff.mp h
    have hrest := ih hplay
    have hfirst := hstep a s s₁ hs
    rw [List.length_cons, List.map_cons, List.sum_cons]
    omega

variable (step) in
/-- Whichever actions that meet `ok` are taken, the goal is reached, and until then there
is one to take. -/
inductive Inevitable (ok : α → σ → Prop) (goal : σ → Prop) : σ → Prop
  | now {s : σ} : goal s → Inevitable ok goal s
  | later {s : σ} : (∃ a s', ok a s ∧ step a s = some s') →
    (∀ a s', ok a s → step a s = some s' → Inevitable ok goal s') → Inevitable ok goal s

/-- Each state short of the goal allows a step, and no step leaves as much work. -/
theorem inevitable_of_descends {I goal : σ → Prop} (work : σ → ℕ)
    (hpossible : ∀ s, I s → ¬ goal s → ∃ a s', ok a s ∧ step a s = some s')
    (hstep : ∀ a s s', I s → ¬ goal s → ok a s → step a s = some s' → I s' ∧
      work s' < work s)
    (hI : I s) : Inevitable step ok goal s := by
  induction hn : work s using Nat.strong_induction_on generalizing s with
  | _ n ih =>
    by_cases hgoal : goal s
    · exact .now hgoal
    · apply Inevitable.later (hpossible s hI hgoal)
      intro a s' hok hs
      obtain ⟨hI', hless⟩ := hstep a s s' hI hgoal hok hs
      exact ih (work s') (hn ▸ hless) hI' rfl

theorem Inevitable.exists_run {goal : σ → Prop} (h : Inevitable step ok goal s) :
    ∃ s', Run step ok s s' ∧ goal s' := by
  induction h with
  | @now s hgoal => exact ⟨s, .refl s, hgoal⟩
  | @later s hpossible _ ih =>
    obtain ⟨a, s₁, hok, hs⟩ := hpossible
    obtain ⟨s', hrun, hgoal⟩ := ih a s₁ hok hs
    exact ⟨s', ((Run.refl s).step hok hs).trans hrun, hgoal⟩

end Runs

section Tasks
variable {τ : Type}

/-- The task at `i` moves. -/
def onTask (move : σ → τ → Option (σ × τ)) (i : ℕ) (s : σ) (tasks : List τ) :
    Option (σ × List τ) :=
  match tasks[i]? with
  | none => none
  | some t => (move s t).map fun r => (r.1, tasks.set i r.2)

theorem split_at {tasks : List τ} {i : ℕ} {t : τ} (h : tasks[i]? = some t) :
    ∃ l₁ l₂, tasks = l₁ ++ t :: l₂ ∧ l₁.length = i ∧
    ∀ t', tasks.set i t' = l₁ ++ t' :: l₂ := by
  obtain ⟨hi, rfl⟩ := List.getElem?_eq_some_iff.mp h
  refine ⟨tasks.take i, tasks.drop (i + 1), ?_, ?_, ?_⟩
  · rw [List.getElem_cons_drop, List.take_append_drop]
  · rw [List.length_take]
    omega
  · intro t'
    exact List.set_eq_take_cons_drop t' hi

/-- One task has moved and the others are where they were. -/
theorem onTask_eq_some {move : σ → τ → Option (σ × τ)} {i : ℕ} {s s' : σ}
    {tasks tasks' : List τ} (h : onTask move i s tasks = some (s', tasks')) :
    ∃ l₁ t l₂ t', tasks = l₁ ++ t :: l₂ ∧ l₁.length = i ∧
      move s t = some (s', t') ∧ tasks' = l₁ ++ t' :: l₂ := by
  unfold onTask at h
  split at h
  case h_1 => cases h
  case h_2 t ht =>
    obtain ⟨⟨s₁, t'⟩, hmove, heq⟩ := Option.map_eq_some_iff.mp h
    cases heq
    obtain ⟨l₁, l₂, htasks, hlen, hset⟩ := split_at ht
    exact ⟨l₁, t, l₂, t', htasks, hlen, hmove, hset t'⟩

theorem onTask_of {move : σ → τ → Option (σ × τ)} {i : ℕ} {s s' : σ} {tasks : List τ}
    {t t' : τ} (ht : tasks[i]? = some t) (h : move s t = some (s', t')) :
    onTask move i s tasks = some (s', tasks.set i t') := by
  rw [onTask, ht]
  dsimp only
  rw [h, Option.map_some]

theorem of_onTask {move : σ → τ → Option (σ × τ)} {i : ℕ} {s s' : σ}
    {tasks tasks' : List τ} (h : onTask move i s tasks = some (s', tasks')) :
    ∃ t t', tasks[i]? = some t ∧ move s t = some (s', t') ∧ tasks' = tasks.set i t' := by
  obtain ⟨l₁, t, l₂, t', rfl, rfl, hmove, rfl⟩ := onTask_eq_some h
  exact ⟨t, t', by simp, hmove, by simp⟩

/-- What holds of every task still does when there is one more. -/
theorem forall_concat {p : τ → Prop} {tasks : List τ} {t : τ} (h : ∀ t' ∈ tasks, p t')
    (ht : p t) :
    ∀ t' ∈ tasks ++ [t], p t' := by
  intro t' ht'
  rcases List.mem_append.mp ht' with ht' | ht'
  · exact h t' ht'
  · exact List.mem_singleton.mp ht' ▸ ht

/-- What holds of every task still does when one has moved. -/
theorem forall_replace {p : τ → Prop} {l₁ l₂ : List τ} {t t' : τ}
    (h : ∀ u ∈ l₁ ++ t :: l₂, p u) (ht' : p t') : ∀ u ∈ l₁ ++ t' :: l₂, p u := by
  intro u hu
  rcases List.mem_append.mp hu with hu | hu
  · exact h u (List.mem_append_left _ hu)
  · rcases List.mem_cons.mp hu with rfl | hu
    · exact ht'
    · exact h u (List.mem_append_right _ (List.mem_cons_of_mem _ hu))

def total (w : τ → ℕ) (tasks : List τ) : ℕ := (tasks.map w).sum

@[simp] theorem total_nil (w : τ → ℕ) : total w [] = 0 := rfl

@[simp] theorem total_cons (w : τ → ℕ) (t : τ) (tasks : List τ) :
    total w (t :: tasks) = w t + total w tasks := by
  simp [total]

@[simp] theorem total_append (w : τ → ℕ) (tasks tasks' : List τ) :
    total w (tasks ++ tasks') = total w tasks + total w tasks' := by
  simp [total]

theorem total_add (v w : τ → ℕ) (tasks : List τ) :
    total (fun t => v t + w t) tasks = total v tasks + total w tasks := by
  induction tasks with
  | nil => rfl
  | cons t tasks ih =>
    rw [total_cons, total_cons, total_cons, ih]
    omega

theorem total_mono {v w : τ → ℕ} (h : ∀ t, v t ≤ w t) (tasks : List τ) :
    total v tasks ≤ total w tasks := by
  induction tasks with
  | nil => exact Nat.le_refl _
  | cons t tasks ih =>
    rw [total_cons, total_cons]
    exact Nat.add_le_add (h t) ih

theorem total_eq_countP {w : τ → ℕ} {p : τ → Bool} {tasks : List τ}
    (h : ∀ t ∈ tasks, w t = (p t).toNat) : total w tasks = tasks.countP p := by
  induction tasks with
  | nil => rfl
  | cons t tasks ih =>
    rw [total_cons, List.countP_cons, h t (List.mem_cons_self ..),
      ih fun t' ht' => h t' (List.mem_cons_of_mem _ ht')]
    cases p t <;> simp [Nat.add_comm]

theorem exists_of_total_ne_zero {w : τ → ℕ} {tasks : List τ} (h : total w tasks ≠ 0) :
    ∃ (i : ℕ) (t : τ), tasks[i]? = some t ∧ w t ≠ 0 := by
  by_contra! hall
  apply h
  apply List.sum_eq_zero
  intro n hn
  obtain ⟨t, ht, rfl⟩ := List.mem_map.mp hn
  obtain ⟨i, hi⟩ := List.getElem?_of_mem ht
  exact hall i t hi

/-- A weight that at most one task has is bounded by what each task has. -/
theorem total_le_of_unique {w : τ → ℕ} {tasks : List τ} {bound : ℕ}
    (hle : ∀ t ∈ tasks, w t ≤ bound) (hunique : ∀ (i j : ℕ) t t', tasks[i]? = some t →
      tasks[j]? = some t' → w t ≠ 0 → w t' ≠ 0 → i = j) : total w tasks ≤ bound := by
  induction tasks with
  | nil => exact Nat.zero_le _
  | cons t tasks ih =>
    rw [total_cons]
    by_cases ht : w t = 0
    · rw [ht, Nat.zero_add]
      apply ih fun t' ht' => hle t' (List.mem_cons_of_mem _ ht')
      intro i j t₁ t₂ h₁ h₂ hw₁ hw₂
      exact Nat.succ.inj (hunique (i + 1) (j + 1) t₁ t₂ h₁ h₂ hw₁ hw₂)
    · have hrest : total w tasks = 0 := by
        apply List.sum_eq_zero
        intro n hn
        obtain ⟨t', ht', rfl⟩ := List.mem_map.mp hn
        obtain ⟨j, hj, rfl⟩ := List.getElem_of_mem ht'
        by_contra hw
        cases hunique 0 (j + 1) t _ rfl (List.getElem?_eq_getElem hj) ht hw
      rw [hrest]
      exact hle t (List.mem_cons_self ..)

end Tasks

end Transition
