import Boltwire.RoundRobin

namespace Boltwire
open Transition

namespace RoutingTable

/-- Without the servers that have been tried, in any role. -/
def without (table : RoutingTable) (tried : List String) : RoutingTable :=
  { table with
    routers := table.routers.filter (· ∉ tried)
    readers := table.readers.filter (· ∉ tried)
    writers := table.writers.filter (· ∉ tried) }

theorem without_nil (table : RoutingTable) : table.without [] = table := by
  simp [without]

theorem remove_without (table : RoutingTable) (tried : List String) (addr : String) :
    (table.without tried).remove addr = table.without (tried ++ [addr]) := by
  have hfilter : ∀ l : List String, (l.filter (· ∉ tried)).filter (· ≠ addr) =
      l.filter (· ∉ tried ++ [addr]) := by
    intro l
    rw [List.filter_filter]
    apply List.filter_congr
    intro a _
    by_cases ha : a = addr <;> simp [ha]
  simp only [remove, without, hfilter]

end RoutingTable

namespace RoutedInner
variable {s s' : RoutedInner} {addr b : String}

theorem poolOf_congr (h : s'.pools = s.pools) (b : String) : s'.poolOf b = s.poolOf b := by
  rw [poolOf, h, poolOf]

theorem poolOf_evict (s : RoutedInner) (addr b : String) :
    (s.evict addr).poolOf b = if b = addr then none else s.poolOf b := by
  unfold evict poolOf
  dsimp only
  induction s.pools with
  | nil => simp
  | cons q pools ih =>
    obtain ⟨a, pool⟩ := q
    by_cases ha : a = addr
    · subst ha
      rw [List.filter_cons_of_neg (by simp), ih, List.lookup_cons]
      by_cases hb : b = a
      · rw [if_pos hb, if_pos hb]
      · have hne : (b == a) = false := by simpa using hb
        rw [hne]
    · rw [List.filter_cons_of_pos (by simpa using ha), List.lookup_cons, List.lookup_cons, ih]
      by_cases hb : b = a
      · subst hb
        simp [ha]
      · have hne : (b == a) = false := by simpa using hb
        rw [hne]

theorem poolOf_poolFor_ne (h : b ≠ addr) : (s.poolFor addr).1.poolOf b = s.poolOf b := by
  unfold poolFor
  split
  case h_1 => rfl
  case h_2 =>
    have hne : (b == addr) = false := by simpa using h
    simp [poolOf, List.lookup_append, List.lookup_cons, hne]

theorem poolOf_poolFor (s : RoutedInner) (addr : String) :
    (s.poolFor addr).1.poolOf addr = some (s.poolFor addr).2 := by
  unfold poolFor
  split
  case h_1 pool hpool => exact hpool
  case h_2 hnone =>
    have hnone' : s.pools.lookup addr = none := hnone
    simp [poolOf, List.lookup_append, hnone']

/-- An address that has a pool keeps it. -/
theorem poolFor_of_poolOf {pool : ℕ} (h : s.poolOf addr = some pool) :
    s.poolFor addr = (s, pool) := by
  rw [poolFor, h]

theorem table_poolFor (s : RoutedInner) (addr : String) :
    (s.poolFor addr).1.table = s.table := by
  unfold poolFor
  split <;> rfl

def InRange (s : RoutedInner) : Prop :=
  ∀ addr pool, s.poolOf addr = some pool → pool < s.made.length

theorem poolFor_lt (hs : s.InRange) (addr : String) :
    (s.poolFor addr).2 < (s.poolFor addr).1.made.length := by
  unfold poolFor
  split
  case h_1 pool hpool => exact hs addr pool hpool
  case h_2 => simp

theorem InRange.poolFor (hs : s.InRange) (addr : String) : (s.poolFor addr).1.InRange := by
  intro b pool hb
  by_cases hne : b = addr
  · subst hne
    rw [poolOf_poolFor] at hb
    cases hb
    exact poolFor_lt hs b
  · rw [poolOf_poolFor_ne hne] at hb
    apply (hs b pool hb).trans_le
    unfold RoutedInner.poolFor
    split
    · exact Nat.le_refl _
    · simp

theorem InRange.evict (hs : s.InRange) (addr : String) : (s.evict addr).InRange := by
  intro b pool hb
  rw [poolOf_evict] at hb
  split_ifs at hb
  exact hs b pool hb

end RoutedInner

namespace RoutedPool

inductive ServerOutcome
  | connection
  | transient
  | permanent (e : BoltError)

/-- How `get` on the pool of a server has ended, unless it was cancelled. -/
def getOutcome : Pool.Task → Option ServerOutcome
  | .held _ => some .connection
  | .ended (some e) => some (if e.isTransient then .transient else .permanent e)
  | .shutOut => some .transient
  | _ => none

def afterGet (lap : Lap) (pool task : ℕ) : ServerOutcome → Task
  | .connection => .acquired pool task
  | .transient => .evicting lap
  | .permanent e => .failed e

theorem resume_of_getOutcome {t : Pool.Task} {o : ServerOutcome} (h : getOutcome t = some o)
    (lap : Lap) (pool task : ℕ) : resume lap pool task t = some (afterGet lap pool task o) := by
  unfold getOutcome at h
  split at h
  case h_1 =>
    cases h
    rfl
  case h_2 e =>
    cases h
    rw [resume]
    split_ifs <;> rfl
  case h_3 =>
    cases h
    rfl
  case h_4 => contradiction

section Pools
variable {s s' : RoutedInner} {pool : ℕ} {a : Pool.Action}

/-- Only the pool itself changes. -/
theorem onPool_shared (h : s.onPool pool a = some s') : s'.table = s.table ∧
    s'.fetched = s.fetched ∧ s'.closed = s.closed ∧ s'.rr = s.rr ∧ s'.pools = s.pools := by
  obtain ⟨addr, p, p', -, -, rfl⟩ := onPool_eq_some h
  exact ⟨rfl, rfl, rfl, rfl, rfl⟩

theorem onPool_inRange (h : s.onPool pool a = some s') (hs : s.InRange) : s'.InRange := by
  intro addr k hk
  rw [onPool_length h]
  apply hs addr k
  rw [RoutedInner.poolOf, ← (onPool_shared h).2.2.2.2]
  exact hk

/-- No call of a pool is lost. -/
theorem poolStep_length {p p' : Pool} (h : Pool.step a p = some p') :
    p.tasks.length ≤ p'.tasks.length := by
  cases Pool.step_steps h with
  | get => simp
  | close => simp
  | move htasks _ _ => simp [htasks]

theorem poolTask_onPool (h : s.onPool pool a = some s') {k task : ℕ}
    (ht : (s.poolTask k task).isSome) : (s'.poolTask k task).isSome := by
  obtain ⟨t, ht⟩ := Option.isSome_iff_exists.mp ht
  obtain ⟨q, hq, htask⟩ := Option.bind_eq_some_iff.mp ht
  obtain ⟨p', hp', hstep⟩ := onPool_made h hq
  have hlt : task < q.2.tasks.length := (List.getElem?_eq_some_iff.mp htask).1
  have hle : q.2.tasks.length ≤ p'.tasks.length := by
    rcases hstep with rfl | ⟨-, hstep⟩
    · exact Nat.le_refl _
    · exact poolStep_length hstep
  rw [RoutedInner.poolTask, hp', Option.bind_some,
    List.getElem?_eq_getElem (l := p'.tasks) (by omega)]
  rfl

/-- The new call of `get` is where the lap looks for it. -/
theorem poolTask_get (h : s.onPool pool .get = some s') :
    (s'.poolTask pool (s.calls pool)).isSome := by
  obtain ⟨addr, p, p', hp, hstep, rfl⟩ := onPool_eq_some h
  have hlt := (List.getElem?_eq_some_iff.mp hp).1
  cases hstep
  simp [RoutedInner.poolTask, RoutedInner.calls, hp, List.getElem?_set_self hlt]

theorem onPool_get_isSome (h : pool < s.made.length) : (s.onPool pool .get).isSome := by
  rw [RoutedInner.onPool, List.getElem?_eq_getElem h]
  rfl

end Pools

/-- `get` starts at once on the pool of the address. -/
theorem poolFor_of_move {lap : Lap} {s s' : RoutedInner} {t' : Task}
    (h : move .poolFor s (.trying lap) = some (s', t')) :
    (s.poolFor lap.addr).1.onPool (s.poolFor lap.addr).2 .get = some s' ∧
      t' = .getting lap (s.poolFor lap.addr).2
        ((s.poolFor lap.addr).1.calls (s.poolFor lap.addr).2) := by
  have hmap : ((s.poolFor lap.addr).1.onPool (s.poolFor lap.addr).2 .get).map (fun s₂ =>
      (s₂, Task.getting lap (s.poolFor lap.addr).2
        ((s.poolFor lap.addr).1.calls (s.poolFor lap.addr).2))) = some (s', t') := h
  obtain ⟨s₂, hget, heq⟩ := Option.map_eq_some_iff.mp hmap
  cases heq
  exact ⟨hget, rfl⟩

/-- A move of the call that is not cancelled, before a refresh is forced: the table is `elapsed`
old, and a `get` has ended as its server answers. -/
def Meets (outcome : String → ServerOutcome) (elapsed : ℕ) (s : RoutedInner) : Move →
    Task → Prop
  | .cancel, _ | .ask, _ => False
  | .fresh e, _ => e = elapsed
  | .resume, .getting lap pool task =>
    (s.poolTask pool task).bind getOutcome = some (outcome lap.addr)
  | _, _ => True

/-- No other call takes a step. The pools of the servers do. -/
def Alone (outcome : String → ServerOutcome) (elapsed i : ℕ) : Action → RoutedPool → Prop
  | .move j m, s => j = i ∧ ∃ c, s.tasks[i]? = some c ∧ Meets outcome elapsed s.inner m c.task
  | .pool _ _ _, _ => True
  | _, _ => False

def Task.next : Task → Move → Prop
  | .starting _, m => m = .begin
  | .freshening _, m => ∃ elapsed, m = .fresh elapsed
  | .listing _ _, m => m = .list
  | .counting _ _ _, m => m = .count
  | .trying _, m => m = .poolFor
  | .getting _ _ _, m => m = .resume
  | .evicting _, m => m = .evict
  | .asking _, m => m = .ask
  | .acquired _ _, _ | .failed _, _ => False
  | _, _ => True

theorem next_of_move {m : Move} {s s' : RoutedInner} {t t' : Task} (hcancel : m ≠ .cancel)
    (h : move m s t = some (s', t')) : t.next m := by
  unfold move at h
  split at h
  case h_2 => exact ⟨_, rfl⟩
  case h_13 => exact absurd rfl hcancel
  case h_18 => contradiction
  all_goals first | rfl | trivial

def Task.left (n : ℕ) : Task → ℕ
  | .starting _ => 3 * n + 4
  | .freshening _ => 3 * n + 3
  | .listing _ _ => 3 * n + 2
  | .counting _ _ _ => 3 * n + 1
  | .trying lap => 3 * (n - lap.i)
  | .getting lap _ _ => 3 * (n - lap.i) - 1
  | .evicting lap => 3 * (n - lap.i) - 2
  | _ => 0

section Lap
variable (s₀ : RoutedInner) (mode : AccessMode) (outcome : String → ServerOutcome)

/-- The addresses of the mode in cyclic order from the cursor. -/
def order : List String := (s₀.addrs mode).rotate (s₀.rr mode)

/-- The servers tried are out of the table and out of the map. Every other server has the pool it
had, and the one at hand has a pool. -/
structure Evicted (s : RoutedInner) (tried : List String) (current : Option String) : Prop where
  table : s.table = s₀.table.without tried
  others : ∀ b, some b ≠ current → s.poolOf b = if b ∈ tried then none else s₀.poolOf b
  current : ∀ a, current = some a → (s.poolOf a).isSome ∧
    ∀ pool, a ∉ tried → s₀.poolOf a = some pool → s.poolOf a = some pool

/-- The lap is the first one, over the addresses that the table had, and every server before was
transient. -/
structure LapAt (lap : Lap) : Prop where
  ofMode : lap.mode = mode
  first : lap.second = false
  addrs : lap.addrs = s₀.addrs mode
  start : lap.start = s₀.rr mode
  lt : lap.i < (s₀.addrs mode).length
  transient : ∀ b ∈ (order s₀ mode).take lap.i, outcome b = .transient

structure Untouched (s : RoutedInner) : Prop where
  closed : s.closed = s₀.closed
  fetched : s.fetched = s₀.fetched
  rr : s.rr = s₀.rr
  evicted : Evicted s₀ s [] none

/-- What is true of the pool in the first lap, by where the call stands. -/
inductive LapInv : RoutedInner → Task → Prop
  | starting {s : RoutedInner} : Untouched s₀ s → LapInv s (.starting mode)
  | freshening {s : RoutedInner} : Untouched s₀ s → LapInv s (.freshening mode)
  | listing {s : RoutedInner} : Untouched s₀ s → LapInv s (.listing mode false)
  | counting {s : RoutedInner} : Untouched s₀ s → s₀.addrs mode ≠ [] →
    LapInv s (.counting mode false (s₀.addrs mode))
  | trying {s : RoutedInner} {lap : Lap} : LapAt s₀ mode outcome lap →
    Evicted s₀ s ((order s₀ mode).take lap.i) none → LapInv s (.trying lap)
  | getting {s : RoutedInner} {lap : Lap} {pool task : ℕ} : LapAt s₀ mode outcome lap →
    Evicted s₀ s ((order s₀ mode).take lap.i) (some lap.addr) →
    s.poolOf lap.addr = some pool → (s.poolTask pool task).isSome →
    LapInv s (.getting lap pool task)
  | evicting {s : RoutedInner} {lap : Lap} : LapAt s₀ mode outcome lap →
    Evicted s₀ s ((order s₀ mode).take lap.i) (some lap.addr) →
    outcome lap.addr = .transient → LapInv s (.evicting lap)
  | acquired {s : RoutedInner} {lap : Lap} {pool task : ℕ} : LapAt s₀ mode outcome lap →
    Evicted s₀ s ((order s₀ mode).take lap.i) (some lap.addr) →
    outcome lap.addr = .connection → s.poolOf lap.addr = some pool →
    LapInv s (.acquired pool task)
  | failed {s : RoutedInner} {lap : Lap} {e : BoltError} : LapAt s₀ mode outcome lap →
    Evicted s₀ s ((order s₀ mode).take lap.i) (some lap.addr) →
    outcome lap.addr = .permanent e → LapInv s (.failed e)
  | exhausted {s : RoutedInner} : Evicted s₀ s (order s₀ mode) none →
    (∀ b ∈ order s₀ mode, outcome b = .transient) → LapInv s (.asking (.acquire mode true))

variable {s₀ mode outcome} {s s' : RoutedInner} {tried : List String} {current : Option String}

theorem Evicted.congr (he : Evicted s₀ s tried current) (htable : s'.table = s.table)
    (hpools : s'.pools = s.pools) : Evicted s₀ s' tried current := by
  have hpool := RoutedInner.poolOf_congr hpools
  refine ⟨htable.trans he.table, ?_, ?_⟩
  · intro b hb
    rw [hpool, he.others b hb]
  · intro a ha
    rw [hpool]
    exact he.current a ha

/-- The server at hand gets a pool, unless it has one. -/
theorem Evicted.poolFor (he : Evicted s₀ s tried none) (addr : String) :
    Evicted s₀ (s.poolFor addr).1 tried (some addr) := by
  refine ⟨(RoutedInner.table_poolFor s addr).trans he.table, ?_, ?_⟩
  · intro b hb
    have hne : b ≠ addr := fun h => hb (congrArg some h)
    rw [RoutedInner.poolOf_poolFor_ne hne]
    exact he.others b (by simp)
  · rintro a ⟨rfl⟩
    constructor
    · rw [RoutedInner.poolOf_poolFor]
      rfl
    · intro pool htried hpool
      have hhad := he.others addr (by simp)
      rw [if_neg htried, hpool] at hhad
      rw [RoutedInner.poolFor_of_poolOf hhad]
      exact hhad

theorem Evicted.evict {addr : String} (he : Evicted s₀ s tried (some addr)) :
    Evicted s₀ (s.evict addr) (tried ++ [addr]) none := by
  refine ⟨?_, ?_, by simp⟩
  · rw [← RoutingTable.remove_without, ← he.table]
    rfl
  · intro b _
    rw [RoutedInner.poolOf_evict]
    by_cases hb : b = addr
    · simp [hb]
    · rw [if_neg hb, he.others b (by simpa using hb)]
      simp [hb]

theorem Untouched.addrs (hu : Untouched s₀ s) : s.addrs = s₀.addrs := by
  funext mode
  rw [RoutedInner.addrs.eq_def, RoutedInner.addrs.eq_def, hu.evicted.table,
    RoutingTable.without_nil]

theorem Untouched.stale (hu : Untouched s₀ s) (elapsed : ℕ) :
    s.stale elapsed = s₀.stale elapsed := by
  rw [RoutedInner.stale, RoutedInner.stale, hu.fetched, hu.evicted.table,
    RoutingTable.without_nil]

theorem LapAt.getElem?_order {lap : Lap} (hlap : LapAt s₀ mode outcome lap)
    (hroom : s₀.rr mode + (s₀.addrs mode).length ≤ 2 ^ 64) :
    (order s₀ mode)[lap.i]? = some lap.addr := by
  have hlt := hlap.lt
  have hlt' : lap.i < lap.addrs.length := by rwa [hlap.addrs]
  have hroom' : lap.start + lap.addrs.length ≤ 2 ^ 64 := by rwa [hlap.addrs, hlap.start]
  have hget := Lap.addr_of_rotate hlt' hroom'
  rwa [hlap.addrs, hlap.start] at hget

theorem LapAt.take_succ {lap : Lap} (hlap : LapAt s₀ mode outcome lap)
    (hroom : s₀.rr mode + (s₀.addrs mode).length ≤ 2 ^ 64) :
    (order s₀ mode).take (lap.i + 1) = (order s₀ mode).take lap.i ++ [lap.addr] := by
  rw [List.take_add_one, hlap.getElem?_order hroom]
  rfl

theorem length_order : (order s₀ mode).length = (s₀.addrs mode).length := List.length_rotate _ _

/-- A step of the pool of a server changes nothing that the lap depends on. -/
theorem LapInv.onPool {t : Task} {pool : ℕ} {a : Pool.Action}
    (hi : LapInv s₀ mode outcome s t) (h : s.onPool pool a = some s') :
    LapInv s₀ mode outcome s' t := by
  obtain ⟨htable, hfetched, hclosed, hrr, hpools⟩ := onPool_shared h
  have hpool := RoutedInner.poolOf_congr hpools
  have huntouched : Untouched s₀ s → Untouched s₀ s' := by
    intro hu
    exact ⟨hclosed.trans hu.closed, hfetched.trans hu.fetched, hrr.trans hu.rr,
      hu.evicted.congr htable hpools⟩
  cases hi with
  | starting hu => exact .starting (huntouched hu)
  | freshening hu => exact .freshening (huntouched hu)
  | listing hu => exact .listing (huntouched hu)
  | counting hu hne => exact .counting (huntouched hu) hne
  | trying hlap he => exact .trying hlap (he.congr htable hpools)
  | getting hlap he hp ht =>
    exact .getting hlap (he.congr htable hpools) ((hpool _).trans hp) (poolTask_onPool h ht)
  | evicting hlap he ho => exact .evicting hlap (he.congr htable hpools) ho
  | acquired hlap he ho hp =>
    exact .acquired hlap (he.congr htable hpools) ho ((hpool _).trans hp)
  | failed hlap he ho => exact .failed hlap (he.congr htable hpools) ho
  | exhausted he hall => exact .exhausted (he.congr htable hpools) hall

variable {elapsed : ℕ}

/-- After a server that could not be reached comes the next address, or the lap is over. -/
theorem LapInv.evict {lap : Lap} (hlap : LapAt s₀ mode outcome lap)
    (hroom : s₀.rr mode + (s₀.addrs mode).length ≤ 2 ^ 64)
    (he : Evicted s₀ s ((order s₀ mode).take lap.i) (some lap.addr))
    (ho : outcome lap.addr = .transient) :
    LapInv s₀ mode outcome (s.evict lap.addr) (nextAddr lap) := by
  have he' := he.evict
  rw [← hlap.take_succ hroom] at he'
  have hall : ∀ b ∈ (order s₀ mode).take (lap.i + 1), outcome b = .transient := by
    rw [hlap.take_succ hroom]
    exact forall_concat hlap.transient ho
  have hlen : lap.addrs.length = (s₀.addrs mode).length := congrArg List.length hlap.addrs
  rw [nextAddr]
  split_ifs with hmore
  · exact .trying ⟨hlap.ofMode, hlap.first, hlap.addrs, hlap.start, hlen ▸ hmore, hall⟩ he'
  · have hend : (order s₀ mode).take (lap.i + 1) = order s₀ mode := by
      apply List.take_of_length_le
      rw [length_order]
      omega
    rw [hend] at he' hall
    rw [nextLap, hlap.first, hlap.ofMode]
    exact .exhausted he' hall

theorem left_nextAddr {lap : Lap} (hlap : LapAt s₀ mode outcome lap) :
    (nextAddr lap).left (s₀.addrs mode).length <
      (Task.evicting lap).left (s₀.addrs mode).length := by
  have hlt := hlap.lt
  rw [nextAddr, nextLap, hlap.first]
  split_ifs with hmore
  · change 3 * (_ - (lap.i + 1)) < 3 * (_ - lap.i) - 2
    omega
  · contradiction
  · change 0 < 3 * (_ - lap.i) - 2
    omega

/-- What one move of the call does. It brings the call nearer to its end. -/
theorem LapInv.move {m : Move} {t t' : Task} (hi : LapInv s₀ mode outcome s t)
    (hopen : s₀.closed = false) (hfresh : s₀.stale elapsed = false)
    (hroom : s₀.rr mode + (s₀.addrs mode).length ≤ 2 ^ 64)
    (hmeets : Meets outcome elapsed s m t) (h : move m s t = some (s', t')) :
    LapInv s₀ mode outcome s' t' ∧
      t'.left (s₀.addrs mode).length < t.left (s₀.addrs mode).length := by
  have hcancel : m ≠ .cancel := by
    rintro rfl
    exact hmeets
  have hnext := next_of_move hcancel h
  cases hi with
  | starting hu =>
    obtain rfl : m = .begin := hnext
    cases h
    rw [hu.closed, hopen]
    exact ⟨.freshening hu, Nat.lt_succ_self _⟩
  | freshening hu =>
    obtain ⟨e, rfl⟩ := hnext
    obtain rfl : e = elapsed := hmeets
    cases h
    rw [hu.stale, hfresh]
    exact ⟨.listing hu, Nat.lt_succ_self _⟩
  | listing hu =>
    obtain rfl : m = .list := hnext
    cases h
    rw [hu.addrs]
    by_cases hempty : s₀.addrs mode = []
    · have horder : order s₀ mode = [] := by rw [order, hempty, List.rotate_nil]
      have he : Evicted s₀ s (order s₀ mode) none := horder ▸ hu.evicted
      rw [hempty]
      exact ⟨.exhausted he (by simp [horder]), Nat.succ_pos _⟩
    · have hne : (s₀.addrs mode).isEmpty = false := by simpa using hempty
      rw [hne]
      exact ⟨.counting hu hempty, Nat.lt_succ_self _⟩
  | counting hu hne =>
    obtain rfl : m = .count := hnext
    cases h
    rw [hu.rr]
    have hlen := List.length_pos_iff.mpr hne
    exact ⟨.trying ⟨rfl, rfl, rfl, rfl, hlen, by simp⟩ (hu.evicted.congr rfl rfl),
      Nat.lt_succ_self _⟩
  | @trying lap hlap he =>
    obtain rfl : m = .poolFor := hnext
    obtain ⟨hget, rfl⟩ := poolFor_of_move h
    have he' := (he.poolFor _).congr (onPool_shared hget).1 (onPool_shared hget).2.2.2.2
    have hpool := RoutedInner.poolOf_poolFor s lap.addr
    rw [RoutedInner.poolOf, ← (onPool_shared hget).2.2.2.2] at hpool
    have hlt := hlap.lt
    refine ⟨.getting hlap he' hpool (poolTask_get hget), ?_⟩
    dsimp only [Task.left]
    omega
  | getting hlap he hp _ =>
    obtain rfl : m = .resume := hnext
    obtain ⟨pt, hpt, hr⟩ := Option.bind_eq_some_iff.mp h
    have hout := hmeets
    rw [Meets, hpt, Option.bind_some] at hout
    rw [resume_of_getOutcome hout] at hr
    cases hr
    have hlt := hlap.lt
    cases ho : outcome _ with
    | connection =>
      refine ⟨.acquired hlap he ho hp, ?_⟩
      dsimp only [afterGet, Task.left]
      omega
    | transient =>
      refine ⟨.evicting hlap he ho, ?_⟩
      dsimp only [afterGet, Task.left]
      omega
    | permanent e =>
      refine ⟨.failed hlap he ho, ?_⟩
      dsimp only [afterGet, Task.left]
      omega
  | evicting hlap he ho =>
    obtain rfl : m = .evict := hnext
    cases h
    exact ⟨LapInv.evict hlap hroom he ho, left_nextAddr hlap⟩
  | acquired => exact hnext.elim
  | failed => exact hnext.elim
  | exhausted =>
    obtain rfl : m = .ask := hnext
    exact hmeets.elim

def Task.lapOver : Task → Bool
  | .acquired _ _ | .failed _ | .asking _ => true
  | _ => false

def Waits (outcome : String → ServerOutcome) (s : RoutedInner) (t : Task) : Prop :=
  ∃ lap pool task pt, t = .getting lap pool task ∧ s.poolTask pool task = some pt ∧
    getOutcome pt ≠ some (outcome lap.addr)

/-- Until the lap is over the call can make its move, or waits for a `get`. -/
theorem LapInv.goes_on {t : Task} (hi : LapInv s₀ mode outcome s t) (hrange : s.InRange)
    (elapsed : ℕ) : t.lapOver = true ∨ Waits outcome s t ∨
      ∃ m, Meets outcome elapsed s m t ∧ (RoutedPool.move m s t).isSome := by
  cases hi with
  | starting => exact .inr (.inr ⟨.begin, trivial, rfl⟩)
  | freshening => exact .inr (.inr ⟨.fresh elapsed, rfl, rfl⟩)
  | listing => exact .inr (.inr ⟨.list, trivial, rfl⟩)
  | counting => exact .inr (.inr ⟨.count, trivial, rfl⟩)
  | trying =>
    refine .inr (.inr ⟨.poolFor, trivial, ?_⟩)
    rw [RoutedPool.move, Option.isSome_map]
    exact onPool_get_isSome (RoutedInner.poolFor_lt hrange _)
  | @getting lap pool task hlap he hp ht =>
    obtain ⟨pt, hpt⟩ := Option.isSome_iff_exists.mp ht
    by_cases hout : getOutcome pt = some (outcome lap.addr)
    · refine .inr (.inr ⟨.resume, ?_, ?_⟩)
      · rw [Meets, hpt]
        exact hout
      · rw [RoutedPool.move, hpt, Option.bind_some, resume_of_getOutcome hout]
        rfl
    · exact .inr (.inl ⟨lap, pool, task, pt, rfl, hpt, hout⟩)
  | evicting => exact .inr (.inr ⟨.evict, trivial, rfl⟩)
  | acquired => exact .inl rfl
  | failed => exact .inl rfl
  | exhausted => exact .inl rfl

theorem inRange_moves {m : Move} {t t' : Task} (hrange : s.InRange)
    (h : Moves s m t s' t') : s'.InRange := by
  cases h with
  | calm hsame _ _ =>
    intro addr pool hpool
    rw [hsame.made]
    exact hrange addr pool (by rwa [RoutedInner.poolOf, hsame.pools] at hpool)
  | told _ => exact hrange
  | @got lap _ _ _ _ hfor hget =>
    have hfor' := hrange.poolFor lap.addr
    rw [hfor] at hfor'
    exact onPool_inRange hget hfor'
  | evicted => exact hrange.evict _
  | drained _ =>
    intro addr pool hpool
    cases hpool
  | shut hclose => exact onPool_inRange hclose hrange

variable (s₀ mode outcome) in
/-- The call has come to the server `a`: every address before it was transient, and is forgotten.
Nothing else has changed but that `a` has a pool. -/
def ComesTo (s : RoutedInner) (a : String) : Prop :=
  ∃ tried rest, order s₀ mode = tried ++ a :: rest ∧
    (∀ b ∈ tried, outcome b = .transient) ∧ Evicted s₀ s tried (some a)

theorem LapAt.comesTo {lap : Lap} (hlap : LapAt s₀ mode outcome lap)
    (hroom : s₀.rr mode + (s₀.addrs mode).length ≤ 2 ^ 64)
    (he : Evicted s₀ s ((order s₀ mode).take lap.i) (some lap.addr)) :
    ComesTo s₀ mode outcome s lap.addr := by
  refine ⟨(order s₀ mode).take lap.i, (order s₀ mode).drop (lap.i + 1), ?_,
    hlap.transient, he⟩
  calc order s₀ mode
      = (order s₀ mode).take (lap.i + 1) ++ (order s₀ mode).drop (lap.i + 1) :=
        (List.take_append_drop _ _).symm
    _ = (order s₀ mode).take lap.i ++ lap.addr :: (order s₀ mode).drop (lap.i + 1) := by
        rw [hlap.take_succ hroom, List.append_assoc, List.singleton_append]

end Lap

variable (s₀ : RoutedInner) (mode : AccessMode) (outcome : String → ServerOutcome)
    (elapsed : ℕ)

/-- The first lap of the call number `i`, up to the state `s` with the call at `c`. -/
structure FirstLap (i : ℕ) (s : RoutedPool) (c : Call) : Prop where
  /-- It tries a server only after those before it in the order. -/
  tries : ∀ lap pool task, c.task = .getting lap pool task →
    ComesTo s₀ mode outcome s.inner lap.addr
  /-- It returns the connection of the first server that is not transient, … -/
  acquired : ∀ pool task, c.task = .acquired pool task → ∃ a,
    ComesTo s₀ mode outcome s.inner a ∧ outcome a = .connection ∧ s.inner.poolOf a = some pool
  /-- … or its permanent error. -/
  failed : ∀ e, c.task = .failed e → ∃ a,
    ComesTo s₀ mode outcome s.inner a ∧ outcome a = .permanent e
  /-- It forces a refresh for a second lap only when every server was transient, and forgotten. -/
  exhausted : ∀ caller, c.task = .asking caller →
    (∀ b ∈ s₀.addrs mode, outcome b = .transient) ∧
    Evicted s₀ s.inner (order s₀ mode) none
  /-- Until then it can go on, … -/
  goesOn : c.task.lapOver = true ∨ Waits outcome s.inner c.task ∨
    ∃ m s', Alone outcome elapsed i (.move i m) s ∧ step (.move i m) s = some s'
  /-- … and each of its moves leaves it fewer moves to make. -/
  nearer : ∀ m s', Alone outcome elapsed i (.move i m) s → step (.move i m) s = some s' →
    ∃ c', s'.tasks[i]? = some c' ∧
      c'.task.left (s₀.addrs mode).length < c.task.left (s₀.addrs mode).length

variable {s₀ mode outcome elapsed} {i : ℕ} {s s' : RoutedPool}

/-- A move of the call itself. -/
theorem step_own {m : Move} {c : Call} (hc : s.tasks[i]? = some c)
    (h : step (.move i m) s = some s') :
    ∃ c', move m s.inner c.task = some (s'.inner, c'.task) ∧ s'.tasks[i]? = some c' := by
  obtain ⟨⟨inner, tasks⟩, hon, rfl⟩ := Option.map_eq_some_iff.mp h
  obtain ⟨l₁, c₁, l₂, c', htasks, rfl, hmove, rfl⟩ := onTask_eq_some hon
  rw [htasks, List.getElem?_append_right (Nat.le_refl _), Nat.sub_self] at hc
  cases hc
  obtain ⟨⟨inner', t'⟩, hm, heq⟩ := Option.map_eq_some_iff.mp hmove
  cases heq
  exact ⟨⟨t', c.shutOut || toldClosed s.inner c.task⟩, hm, by simp⟩

def LapRun (s₀ : RoutedInner) (mode : AccessMode) (outcome : String → ServerOutcome) (i : ℕ)
    (s : RoutedPool) : Prop :=
  s.inner.InRange ∧ ∃ c, s.tasks[i]? = some c ∧ LapInv s₀ mode outcome s.inner c.task

theorem LapRun.step {a : Action} (hi : LapRun s₀ mode outcome i s)
    (hopen : s₀.closed = false) (hfresh : s₀.stale elapsed = false)
    (hroom : s₀.rr mode + (s₀.addrs mode).length ≤ 2 ^ 64)
    (halone : Alone outcome elapsed i a s) (h : RoutedPool.step a s = some s') :
    LapRun s₀ mode outcome i s' := by
  obtain ⟨hrange, c, hc, hinv⟩ := hi
  cases a with
  | move j m =>
    obtain ⟨rfl, c₁, hc₁, hmeets⟩ := halone
    cases hc.symm.trans hc₁
    obtain ⟨c', hmove, hc'⟩ := step_own hc h
    exact ⟨inRange_moves hrange (move_moves hmove), c', hc',
      (hinv.move hopen hfresh hroom hmeets hmove).1⟩
  | pool pool task m =>
    obtain ⟨inner, hon, rfl⟩ := Option.map_eq_some_iff.mp h
    exact ⟨onPool_inRange hon hrange, c, hc, hinv.onPool hon⟩
  | _ => exact halone.elim

/-- What holds of the call in every state of a run. -/
theorem LapRun.firstLap (hi : LapRun s₀ mode outcome i s)
    (hopen : s₀.closed = false) (hfresh : s₀.stale elapsed = false)
    (hroom : s₀.rr mode + (s₀.addrs mode).length ≤ 2 ^ 64) :
    ∃ c, s.tasks[i]? = some c ∧ FirstLap s₀ mode outcome elapsed i s c := by
  obtain ⟨hrange, c, hc, hinv⟩ := hi
  refine ⟨c, hc, ?_, ?_, ?_, ?_, ?_, ?_⟩
  · intro lap pool task ht
    rw [ht] at hinv
    cases hinv with
    | getting hlap he _ _ => exact hlap.comesTo hroom he
  · intro pool task ht
    rw [ht] at hinv
    cases hinv with
    | acquired hlap he ho hp => exact ⟨_, hlap.comesTo hroom he, ho, hp⟩
  · intro e ht
    rw [ht] at hinv
    cases hinv with
    | failed hlap he ho => exact ⟨_, hlap.comesTo hroom he, ho⟩
  · intro caller ht
    rw [ht] at hinv
    cases hinv with
    | exhausted he hall => exact ⟨fun b hb => hall b (List.mem_rotate.mpr hb), he⟩
  · rcases hinv.goes_on hrange elapsed with hover | hwaits | ⟨m, hmeets, hmove⟩
    · exact .inl hover
    · exact .inr (.inl hwaits)
    · obtain ⟨r, hr⟩ := Option.isSome_iff_exists.mp hmove
      refine .inr (.inr ⟨m,
        ⟨r.1, s.tasks.set i ⟨r.2, c.shutOut || toldClosed s.inner c.task⟩⟩,
        ⟨rfl, c, hc, hmeets⟩, ?_⟩)
      simp [RoutedPool.step, onTask, hc, moveCall, hr]
  · intro m s' halone hstep
    obtain ⟨-, c₁, hc₁, hmeets⟩ := halone
    cases hc.symm.trans hc₁
    obtain ⟨c', hmove, hc'⟩ := step_own hc hstep
    exact ⟨c', hc', (hinv.move hopen hfresh hroom hmeets hmove).2⟩

/-- Every pool of the map has been made, in every state that is reached. -/
theorem inRange_of_reaches {seeds : List String} {maxPerHost : ℕ}
    (h : Reaches RoutedPool.step (new seeds maxPerHost) s) : s.inner.InRange := by
  have hnew : (new seeds maxPerHost).inner.InRange := by
    intro addr pool hpool
    cases hpool
  apply Run.invariant h hnew
  intro a s s' hrange _ hstep
  cases step_steps hstep with
  | acquire => exact hrange
  | refresh => exact hrange
  | close => exact hrange
  | move _ _ hmoves => exact inRange_moves hrange hmoves
  | pool hon => exact onPool_inRange hon hrange

theorem evicted_nothing (s : RoutedInner) : Evicted s s [] none := by
  refine ⟨(RoutingTable.without_nil _).symm, ?_, by simp⟩
  intro b _
  rw [if_neg List.not_mem_nil]

/-- The first lap of a checkout, in every state of every run that the call has to itself. -/
theorem first_lap {s₀ s₁ s : RoutedPool} (mode : AccessMode)
    (outcome : String → ServerOutcome)
    (elapsed : ℕ) (hrange : s₀.inner.InRange) (hopen : s₀.inner.closed = false)
    (hfresh : s₀.inner.stale elapsed = false)
    (hroom : s₀.inner.rr mode + (s₀.inner.addrs mode).length ≤ 2 ^ 64)
    (hcall : step (.acquire mode) s₀ = some s₁)
    (h : Run step (Alone outcome elapsed s₀.tasks.length) s₁ s) :
    ∃ c, s.tasks[s₀.tasks.length]? = some c ∧
      FirstLap s₀.inner mode outcome elapsed s₀.tasks.length s c := by
  have hstart : LapRun s₀.inner mode outcome s₀.tasks.length s₁ := by
    cases hcall
    exact ⟨hrange, ⟨.starting mode, false⟩, List.getElem?_concat_length,
      .starting ⟨rfl, rfl, rfl, evicted_nothing _⟩⟩
  have hrun := h.invariant hstart fun a s s' hi halone hstep =>
    hi.step hopen hfresh hroom halone hstep
  exact hrun.firstLap hopen hfresh hroom

theorem run_own {s₁ : RoutedPool} (h : Run step (Alone outcome elapsed i) s₁ s) (m : Move)
    (hmeets : ∃ c, s.tasks[i]? = some c ∧ Meets outcome elapsed s.inner m c.task)
    (hstep : step (.move i m) s = some s') : Run step (Alone outcome elapsed i) s₁ s' := by
  have halone : Alone outcome elapsed i (.move i m) s := ⟨rfl, hmeets⟩
  exact h.step halone hstep

theorem run_pool {s₁ : RoutedPool} (h : Run step (Alone outcome elapsed i) s₁ s)
    (pool task : ℕ) (m : Pool.Move) (hstep : step (.pool pool task m) s = some s') :
    Run step (Alone outcome elapsed i) s₁ s' := by
  have halone : Alone outcome elapsed i (.pool pool task m) s := trivial
  exact h.step halone hstep

def threeReaders : RoutedPool :=
  ⟨{ (new [] 1).inner with
    table := ⟨300, none, ["a"], ["a", "b", "a", "c"], ["a"]⟩, fetched := true }, []⟩

def aDown (addr : String) : ServerOutcome := if addr = "a" then .transient else .connection

theorem first_lap_three : ∃ s c, s.tasks[0]? = some c ∧ c.task = .acquired 1 0 ∧
    FirstLap threeReaders.inner .read aDown 0 0 s c := by
  have start :
      Run step (Alone aDown 0 0) ⟨threeReaders.inner, [⟨.starting .read, false⟩]⟩ _ :=
    .refl _
  have begun := run_own start .begin ⟨_, rfl, trivial⟩ rfl
  have fresh := run_own begun (.fresh 0) ⟨_, rfl, rfl⟩ rfl
  have listed := run_own fresh .list ⟨_, rfl, trivial⟩ rfl
  have counted := run_own listed .count ⟨_, rfl, trivial⟩ rfl
  -- the server `a` is down
  have tries_a := run_own counted .poolFor ⟨_, rfl, trivial⟩ rfl
  have permit_a := run_pool tries_a 0 0 .acquire rfl
  have mint_a := run_pool permit_a 0 0 (.pop 0 0 true) rfl
  have refused := run_pool mint_a 0 0 (.refused (.closed "") false) rfl
  have ended := run_pool refused 0 0 .release rfl
  have resumed_a := run_own ended .resume ⟨_, rfl, rfl⟩ rfl
  have evicted := run_own resumed_a .evict ⟨_, rfl, trivial⟩ rfl
  -- the server `b` connects
  have tries_b := run_own evicted .poolFor ⟨_, rfl, trivial⟩ rfl
  have permit_b := run_pool tries_b 1 0 .acquire rfl
  have mint_b := run_pool permit_b 1 0 (.pop 0 0 true) rfl
  have connected := run_pool mint_b 1 0 .connected rfl
  have resumed_b := run_own connected .resume ⟨_, rfl, rfl⟩ rfl
  have hrange : threeReaders.inner.InRange := by
    intro addr pool hpool
    cases hpool
  have hcall : step (.acquire .read) threeReaders =
      some ⟨threeReaders.inner, [⟨.starting .read, false⟩]⟩ := rfl
  obtain ⟨c, hc, hlap⟩ := first_lap .read aDown 0 hrange rfl rfl (by decide) hcall resumed_b
  cases hc
  exact ⟨_, _, rfl, rfl, hlap⟩

end RoutedPool
end Boltwire
