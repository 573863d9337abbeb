import Boltwire.Pool

namespace Boltwire.Pool
open Transition

/-- Past `acquire`, and not yet a `PooledConnection`. -/
def Task.checkout : Task → ℕ
  | .popping | .probing _ | .minting | .ending _ => 1
  | _ => 0

/-- A live `PooledConnection`: its permit is not released yet. -/
def Task.live : Task → ℕ
  | .held _ | .testing _ | .pushing _ | .releasing => 1
  | _ => 0

def Task.minted : Task → ℕ
  | .minting => 1
  | _ => 0

def Task.conns : Task → List ℕ
  | .probing conn | .held conn | .testing conn | .pushing conn => [conn]
  | _ => []

def Task.permit (t : Task) : ℕ := t.checkout + t.live

/-- Connections the call has, or is about to have. -/
def Task.slots (t : Task) : ℕ := t.conns.length + t.minted

theorem Task.slots_le_permit (t : Task) : t.slots ≤ t.permit := by
  cases t <;> simp [slots, permit, conns, minted, checkout, live]

/-- The connections the pool manages, by place: idle, being probed, or held. -/
def places (s : Pool) : List ℕ := s.inner.idle ++ s.tasks.flatMap Task.conns

def size (s : Pool) : ℕ := max s.inner.config.maxSize 1

section Moves
variable {p p' : PoolInner} {t t' : Task} (h : Moves p t p' t')
include h

theorem Moves.config : p'.config = p.config := by
  cases h <;> rfl

theorem Moves.permits : p'.permits + t'.permit = p.permits + t.permit := by
  cases h with
  | acquired _ hp => rw [hp]; rfl
  | _ => rfl

/-- No slot is added, unless by a checkout that finds nothing idle. -/
theorem Moves.slots : p'.idle.length + t'.slots ≤ p.idle.length + t.slots ∨
    p'.idle = [] ∧ t.permit = 1 ∧ t'.slots = 1 := by
  cases h with
  | empty hidle => exact .inr ⟨hidle, rfl, rfl⟩
  | stale hidle =>
    left
    rw [hidle]
    exact Nat.le_succ _
  | popped hidle =>
    left
    rw [hidle]
    exact Nat.le_refl _
  | pushed => exact .inl (Nat.le_refl _)
  | taken =>
    left
    exact Nat.zero_le _
  | _ => exact .inl (Nat.add_le_add_left (by simp [Task.slots, Task.conns, Task.minted]) _)

/-- A connection changes its place, leaves, or is new. -/
theorem Moves.places : ∃ new, (p'.idle ++ t'.conns ++ p'.gone).Perm
    (p.idle ++ t.conns ++ p.gone ++ new) ∧ List.range p'.minted = List.range p.minted ++ new := by
  cases h with
  | connected =>
    refine ⟨[p.minted], ?_, List.range_succ⟩
    simp only [Task.conns, List.perm_iff_count, List.count_append, List.count_nil]
    intro c
    omega
  | stale hidle | popped hidle =>
    refine ⟨[], ?_, (List.append_nil _).symm⟩
    simp only [PoolInner.discard, Task.conns, hidle, List.perm_iff_count, List.count_append,
      List.count_cons, List.count_nil]
    intro c
    omega
  | _ =>
    refine ⟨[], ?_, (List.append_nil _).symm⟩
    simp only [PoolInner.discard, Task.conns, List.perm_iff_count, List.count_append,
      List.count_cons, List.count_nil]
    intro c
    omega

end Moves

structure Inv (s : Pool) : Prop where
  permits : s.inner.permits + total Task.permit s.tasks = s.size
  slots : s.inner.idle.length + total Task.slots s.tasks ≤ s.size
  placed : (s.places ++ s.inner.gone).Perm (List.range s.inner.minted)

theorem inv_withConfig (config : PoolConfig) (acquireTimeout : Option ℕ) :
    Inv (withConfig config acquireTimeout) :=
  ⟨rfl, Nat.zero_le _, List.Perm.refl _⟩

/-- A new call has nothing in hand. -/
theorem Inv.call {s : Pool} (hi : Inv s) {p : PoolInner} {t : Task} (ht : t.permit = 0)
    (hp : p = { s.inner with closed := p.closed }) : Inv ⟨p, s.tasks ++ [t]⟩ := by
  have hslots : t.slots = 0 := Nat.le_zero.mp (ht ▸ t.slots_le_permit)
  have hconns : t.conns = [] := by
    apply List.eq_nil_of_length_eq_zero
    rw [Task.slots] at hslots
    omega
  rw [hp]
  refine ⟨?_, ?_, ?_⟩
  · rw [total_append, total_cons, ht]
    exact hi.permits
  · rw [total_append, total_cons, hslots]
    exact hi.slots
  · rw [places, List.flatMap_append, List.flatMap_singleton, hconns, List.append_nil]
    exact hi.placed

theorem Inv.move {p p' : PoolInner} {t t' : Task} {l₁ l₂ : List Task}
    (hi : Inv ⟨p, l₁ ++ t :: l₂⟩) (h : Moves p t p' t') :
    Inv ⟨p', l₁ ++ t' :: l₂⟩ := by
  obtain ⟨hpermits, hslots, hplaced⟩ := hi
  simp only [size, total_append, total_cons] at hpermits hslots
  refine ⟨?_, ?_, ?_⟩
  · have hp := h.permits
    simp only [size, total_append, total_cons, h.config]
    omega
  · simp only [size, total_append, total_cons, h.config]
    rcases h.slots with hle | ⟨hidle, hpermit, hslot⟩
    · omega
    -- nothing is idle, so there are no more slots than permits in use
    · have h₁ := total_mono Task.slots_le_permit l₁
      have h₂ := total_mono Task.slots_le_permit l₂
      rw [hidle, List.length_nil]
      omega
  · obtain ⟨new, hperm, hrange⟩ := h.places
    rw [hrange]
    simp only [places, List.flatMap_append, List.flatMap_cons, List.perm_iff_count,
      List.count_append] at hplaced hperm ⊢
    intro c
    have hc := hperm c
    have hc' := hplaced c
    omega

theorem Inv.step {s s' : Pool} {a : Action} (hi : Inv s) (h : Steps s a s') :
    Inv s' ∧ s'.size = s.size := by
  cases h with
  | get => exact ⟨hi.call (p := s.inner) rfl rfl, rfl⟩
  | close => exact ⟨hi.call rfl rfl, rfl⟩
  | @move i m l₁ l₂ t t' p' htasks _ hmove =>
    obtain ⟨p, tasks⟩ := s
    obtain rfl : tasks = l₁ ++ t :: l₂ := htasks
    have hm := move_moves hmove
    exact ⟨hi.move hm, congrArg (fun config => max config.maxSize 1) hm.config⟩

theorem inv_of_run {ok : Action → Pool → Prop} {config : PoolConfig}
    {acquireTimeout : Option ℕ}
    {s : Pool} (h : Run Pool.step ok (withConfig config acquireTimeout) s) :
    Inv s ∧ s.size = max config.maxSize 1 := by
  refine h.invariant (I := fun s => Inv s ∧ s.size = max config.maxSize 1)
    ⟨inv_withConfig config acquireTimeout, rfl⟩ ?_
  intro a s s' hi _ hstep
  obtain ⟨hi', hsize⟩ := hi.1.step (step_steps hstep)
  exact ⟨hi', hsize.trans hi.2⟩

/-- A connection the pool still manages has one place. -/
theorem Inv.mem_places {s : Pool} (hi : Inv s) (c : ℕ) :
    c ∈ s.places ↔ c < s.inner.minted ∧ c ∉ s.inner.gone := by
  have hnodup := hi.placed.nodup_iff.mpr List.nodup_range
  have hmem := hi.placed.mem_iff (a := c)
  rw [List.mem_append, List.mem_range] at hmem
  have hdisj := (List.disjoint_of_nodup_append hnodup (a := c))
  tauto

theorem length_places (s : Pool) : s.places.length + total Task.minted s.tasks =
    s.inner.idle.length + total Task.slots s.tasks := by
  have hslots := total_add (fun t : Task => t.conns.length) Task.minted s.tasks
  have hconns : (s.tasks.flatMap Task.conns).length = total (fun t => t.conns.length) s.tasks :=
    List.length_flatMap
  rw [places, List.length_append, hconns, show total Task.slots s.tasks = _ from hslots]
  omega

theorem length_places_le {ok : Action → Pool → Prop} {config : PoolConfig}
    {acquireTimeout : Option ℕ} {s : Pool}
    (h : Run Pool.step ok (withConfig config acquireTimeout) s) :
    s.places.length ≤ max config.maxSize 1 := by
  obtain ⟨hi, hsize⟩ := inv_of_run h
  have hslots := hi.slots
  rw [← length_places, hsize] at hslots
  omega

/-- In every run, every connection the pool manages has exactly one place; the
places taken and those being minted for are bounded by `max_size`, and the
permits add up to it. Without losses no more connections than that are opened. -/
theorem bound_and_accounting (config : PoolConfig) (acquireTimeout : Option ℕ) {s : Pool}
    (h : Reaches Pool.step (withConfig config acquireTimeout) s) :
    (s.places.Nodup ∧ ∀ c, c ∈ s.places ↔ c < s.inner.minted ∧ c ∉ s.inner.gone) ∧
    s.places.length + total Task.minted s.tasks ≤ max config.maxSize 1 ∧
    s.inner.permits + total Task.checkout s.tasks + total Task.live s.tasks =
      max config.maxSize 1 ∧
    (s.inner.gone = [] → s.inner.minted ≤ max config.maxSize 1) := by
  obtain ⟨hi, hsize⟩ := inv_of_run h
  have hlength : s.places.length + total Task.minted s.tasks ≤ max config.maxSize 1 := by
    rw [length_places, ← hsize]
    exact hi.slots
  have hnodup : s.places.Nodup := by
    have hall := hi.placed.nodup_iff.mpr List.nodup_range
    exact (List.nodup_append.mp hall).1
  refine ⟨⟨hnodup, hi.mem_places⟩, hlength, ?_, ?_⟩
  · have hpermits := hi.permits
    rw [hsize, show total Task.permit s.tasks = _ from total_add _ _ _] at hpermits
    omega
  · intro hgone
    have hcount := hi.placed.length_eq
    rw [hgone, List.append_nil, List.length_range] at hcount
    omega

/-- Two checkouts and a pool of one: the second waits for the first, whose
connection it then gets. -/
theorem bound_and_accounting_reused : ∃ s,
    Reaches Pool.step (withConfig ⟨1, none, none⟩ none) s ∧ s.tasks = [.returned, .held 0] ∧
    s.inner.gone = [] ∧ s.inner.minted ≤ 1 := by
  have hplay : play Pool.step (fun _ _ => true) (withConfig ⟨1, none, none⟩ none)
      [.get, .get, .move 0 .acquire, .move 0 (.pop 0 0 true), .move 0 .connected,
        .move 0 (.drop true), .move 0 .test, .move 0 .push, .move 0 .release, .move 1 .acquire,
        .move 1 (.pop 0 0 true), .move 1 (.probed true)] =
      some ⟨⟨⟨1, none, none⟩, none, 0, false, [], 1, []⟩, [.returned, .held 0]⟩ := rfl
  have hreach := play_reaches hplay
  obtain ⟨-, -, -, hopened⟩ := bound_and_accounting ⟨1, none, none⟩ none hreach
  exact ⟨_, hreach, rfl, rfl, hopened rfl⟩

/-- A `close` has taken the idle connections. -/
def Task.taken : Task → Bool
  | .parting _ | .closed => true
  | _ => false

def drained (s : Pool) : Bool := s.tasks.any Task.taken

/-- A connection is not pushed once a `close` has taken the idle ones. -/
def PushesInTime (a : Action) (s : Pool) : Prop :=
  ∀ i, a = .move i .push → s.drained = false

def Task.quiet : Task → Bool
  | .ended _ | .shutOut | .returned | .taking | .parting _ | .closed => true
  | _ => false

theorem Task.conns_of_quiet {t : Task} (h : t.quiet = true) : t.conns = [] := by
  cases t with
  | probing conn | held conn | testing conn | pushing conn => cases h
  | _ => rfl

theorem Moves.idle_nil {p p' : PoolInner} {t t' : Task} (h : Moves p t p' t')
    (hidle : p.idle = []) (ht : ∀ conn, t ≠ .pushing conn) : p'.idle = [] := by
  cases h with
  | stale hcons => rw [hidle] at hcons; cases hcons
  | popped hcons => rw [hidle] at hcons; cases hcons
  | pushed => exact absurd rfl (ht _)
  | taken => rfl
  | _ => exact hidle

theorem Moves.idle_of_taken {p p' : PoolInner} {t t' : Task} (h : Moves p t p' t')
    (ht : t'.taken = true) : t.taken = true ∨ p'.idle = [] := by
  cases h with
  | taken => exact .inr rfl
  | parted => exact .inl rfl
  | shut => exact .inl rfl
  | _ => cases ht

theorem drained_step {s s' : Pool} {a : Action} (hi : s.drained = true → s.inner.idle = [])
    (hok : PushesInTime a s) (h : Steps s a s') : s'.drained = true → s'.inner.idle = [] := by
  intro hd
  cases h with
  | get =>
    apply hi
    simpa [drained, Task.taken] using hd
  | close =>
    apply hi
    simpa [drained, Task.taken] using hd
  | @move i m l₁ l₂ t t' p' htasks hlen hmove =>
    have hm := move_moves hmove
    -- either this move drained the idle list, or an earlier one did
    have hbefore : s.drained = true ∨ p'.idle = [] := by
      simp only [drained, htasks, List.any_append, List.any_cons, Bool.or_eq_true] at hd ⊢
      rcases hd with hd | hd | hd
      · exact .inl (.inl hd)
      · rcases hm.idle_of_taken hd with ht | hidle
        · exact .inl (.inr (.inl ht))
        · exact .inr hidle
      · exact .inl (.inr (.inr hd))
    rcases hbefore with hs | hidle
    · apply hm.idle_nil (hi hs)
      rintro conn rfl
      -- only a push adds to it, and one after the drain is too late
      obtain rfl := eq_push_of_pushing hmove
      rw [hok i rfl] at hs
      cases hs
    · exact hidle

/-- Unless a connection is pushed after a `close` has taken the idle ones, a pool
has none idle once a `close` has returned, and when all connections have come
back they are all closed or detached. -/
theorem closed_keeps_nothing (config : PoolConfig) (acquireTimeout : Option ℕ) {s : Pool}
    (h : Run Pool.step PushesInTime (withConfig config acquireTimeout) s)
    (hclosed : .closed ∈ s.tasks) : s.inner.idle = [] ∧
      ((∀ t ∈ s.tasks, t.quiet = true) → ∀ c < s.inner.minted, c ∈ s.inner.gone) := by
  have hidle : s.inner.idle = [] := by
    have hinv := h.invariant (I := fun s => s.drained = true → s.inner.idle = []) (fun _ => rfl)
      fun _ _ _ hi hok hstep => drained_step hi hok (step_steps hstep)
    exact hinv (List.any_eq_true.mpr ⟨.closed, hclosed, rfl⟩)
  refine ⟨hidle, ?_⟩
  intro hquiet c hc
  by_contra hgone
  have hplace := ((inv_of_run h).1.mem_places c).mpr ⟨hc, hgone⟩
  rw [places, hidle, List.nil_append, List.mem_flatMap] at hplace
  obtain ⟨t, ht, hconn⟩ := hplace
  rw [Task.conns_of_quiet (hquiet t ht)] at hconn
  cases hconn

def pushesInTime : Action → Pool → Bool
  | .move _ .push, s => !s.drained
  | _, _ => true

/-- A connection that is checked out while the pool is closed. -/
theorem closed_keeps_nothing_checkedOut : ∃ s,
    Run Pool.step PushesInTime (withConfig ⟨1, none, none⟩ none) s ∧
    s.tasks = [.returned, .closed] ∧ s.inner.minted = 1 ∧ s.inner.idle = [] := by
  have hplay : play Pool.step pushesInTime (withConfig ⟨1, none, none⟩ none)
      [.get, .move 0 .acquire, .move 0 (.pop 0 0 true), .move 0 .connected, .close,
        .move 1 .take, .move 1 .goodbye, .move 0 (.drop true), .move 0 .test, .move 0 .release] =
      some ⟨⟨⟨1, none, none⟩, none, 1, true, [], 1, [0]⟩, [.returned, .closed]⟩ := rfl
  have hrun := play_run PushesInTime ?_ hplay
  · have hidle := (closed_keeps_nothing ⟨1, none, none⟩ none hrun (by simp)).1
    exact ⟨_, hrun, rfl, rfl, hidle⟩
  · rintro a s hcheck i rfl
    simpa [pushesInTime] using hcheck

/-- The drop looks at the pool, the pool is closed, and the connection is put
into it all the same. -/
theorem pushed_after_close : ¬ ∀ (config : PoolConfig) (acquireTimeout : Option ℕ) (s : Pool),
    Reaches Pool.step (withConfig config acquireTimeout) s → .closed ∈ s.tasks →
    (∀ t ∈ s.tasks, t.quiet = true) → s.inner.idle = [] := by
  intro hall
  have hplay : play Pool.step (fun _ _ => true) (withConfig ⟨1, none, none⟩ none)
      [.get, .move 0 .acquire, .move 0 (.pop 0 0 true), .move 0 .connected,
        .move 0 (.drop true), .move 0 .test, .close, .move 1 .take, .move 1 .goodbye,
        .move 0 .push, .move 0 .release] =
      some ⟨⟨⟨1, none, none⟩, none, 1, true, [0], 1, []⟩, [.returned, .closed]⟩ := rfl
  have hidle := hall ⟨1, none, none⟩ none _ (play_reaches hplay) (by simp)
    (by simp [Task.quiet])
  cases hidle

def unused (s : Pool) : Bool := s.inner.idle.isEmpty && s.tasks.all Task.quiet

theorem unused_iff {s : Pool} :
    s.unused = true ↔ s.inner.idle = [] ∧ ∀ t ∈ s.tasks, t.quiet = true := by
  simp [unused]

theorem places_of_unused {s : Pool} (h : s.unused = true) : s.places = [] := by
  obtain ⟨hidle, hquiet⟩ := unused_iff.mp h
  rw [places, hidle, List.nil_append, List.flatMap_eq_nil_iff]
  exact fun t ht => Task.conns_of_quiet (hquiet t ht)

theorem Moves.quiet {p p' : PoolInner} {t t' : Task} (h : Moves p t p' t')
    (ht : t.quiet = true) : t'.quiet = true ∧ (p.idle = [] → p'.idle = []) := by
  cases h with
  | taken => exact ⟨rfl, fun _ => rfl⟩
  | parted => exact ⟨rfl, id⟩
  | shut => exact ⟨rfl, id⟩
  | _ => cases ht

/-- It stays unused until the next `get`. -/
theorem unused_step {s s' : Pool} {a : Action} (hs : s.unused = true) (ha : a ≠ .get)
    (h : Steps s a s') : s'.unused = true := by
  rw [unused_iff] at hs ⊢
  obtain ⟨hidle, hquiet⟩ := hs
  cases h with
  | get => exact absurd rfl ha
  | close => exact ⟨hidle, forall_concat hquiet rfl⟩
  | @move i m l₁ l₂ t t' p' htasks _ hmove =>
    rw [htasks] at hquiet
    have hm := (move_moves hmove).quiet (hquiet t (by simp))
    exact ⟨hm.2 hidle, forall_replace hquiet hm.1⟩

end Boltwire.Pool
