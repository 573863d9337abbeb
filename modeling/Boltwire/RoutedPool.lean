import Boltwire.Pool
import Boltwire.Routing

namespace Boltwire
open Transition

inductive AccessMode
  | read | write
  deriving Repr, DecidableEq

namespace RoutedPool

/-- One lap of `acquire` over a snapshot of the addresses. -/
structure Lap where
  mode : AccessMode
  second : Bool
  addrs : List String
  start : ℕ
  i : ℕ
  deriving Repr

def Lap.addr (lap : Lap) : String :=
  lap.addrs.getD ((lap.start + lap.i) % 2 ^ 64 % lap.addrs.length) ""

inductive Caller
  | acquire (mode : AccessMode) (second : Bool)
  | refresh
  deriving Repr

inductive Task
  -- `acquire`
  | starting (mode : AccessMode)
  | freshening (mode : AccessMode)
  | listing (mode : AccessMode) (second : Bool)
  | counting (mode : AccessMode) (second : Bool) (addrs : List String)
  | trying (lap : Lap)
  | getting (lap : Lap) (pool task : ℕ)
  | evicting (lap : Lap)
  | acquired (pool task : ℕ)
  -- `refresh`, on its own or in `acquire`
  | asking (caller : Caller)
  | routing (caller : Caller) (candidates : List String) (last : BoltError)
  | storing (caller : Caller) (table : RoutingTable)
  | refreshed
  | failed (e : BoltError)
  | cancelled
  -- `close`
  | draining
  | shutting (pools : List ℕ)
  | parting (pool task : ℕ) (pools : List ℕ)
  | closed

inductive Move
  | begin
  | fresh (elapsed : ℕ)
  | ask
  | route (answer : Except BoltError RoutingTable)
  | store
  | list
  | count
  | poolFor
  | resume
  | evict
  | cancel
  /-- Drain the pools, in the order of the map. -/
  | drain (order : List ℕ)
  | shut

/-- A call, and whether it has been shut out of the pool of a server. -/
structure Call where
  task : Task
  /-- Ghost: it waited for a permit when that pool was closed. -/
  shutOut : Bool

end RoutedPool

/-- What the calls share. -/
structure RoutedInner where
  seeds : List String
  maxPerHost : ℕ
  closed : Bool
  table : RoutingTable
  /-- `fetched_at.is_some()` -/
  fetched : Bool
  /-- `state.pools`, by number -/
  pools : List (String × ℕ)
  rr : AccessMode → ℕ
  /-- Every pool `pool_for` has created, with the address it dials. One that was evicted
  stays, and keeps its idle connections, where the source frees it after its last user. -/
  made : List (String × Pool)

structure RoutedPool where
  inner : RoutedInner
  tasks : List RoutedPool.Call

namespace RoutedInner

def poolOf (s : RoutedInner) (addr : String) : Option ℕ := s.pools.lookup addr

def onPool (s : RoutedInner) (pool : ℕ) (a : Pool.Action) : Option RoutedInner :=
  match s.made[pool]? with
  | none => none
  | some (addr, p) => (Pool.step a p).map fun p' => { s with made := s.made.set pool (addr, p') }

def poolTask (s : RoutedInner) (pool task : ℕ) : Option Pool.Task :=
  (s.made[pool]?).bind fun p => p.2.tasks[task]?

def calls (s : RoutedInner) (pool : ℕ) : ℕ :=
  ((s.made[pool]?).map fun p => p.2.tasks.length).getD 0

def poolFor (s : RoutedInner) (addr : String) : RoutedInner × ℕ :=
  match s.poolOf addr with
  | some pool => (s, pool)
  | none => ({ s with
      pools := s.pools ++ [(addr, s.made.length)]
      made := s.made ++ [(addr, .new s.maxPerHost)] }, s.made.length)

def evict (s : RoutedInner) (addr : String) : RoutedInner :=
  { s with table := s.table.remove addr, pools := s.pools.filter (·.1 ≠ addr) }

def addrs (s : RoutedInner) : AccessMode → List String
  | .read => s.table.readers
  | .write => s.table.writers

def stale (s : RoutedInner) (elapsed : ℕ) : Bool :=
  !s.fetched || decide (s.table.ttlSeconds.toInt.toNat ≤ elapsed)

end RoutedInner

namespace RoutedPool

def unreachable : AccessMode → BoltError
  | .read => .closed "no reachable Read server"
  | .write => .closed "no reachable Write server"

def nextLap (mode : AccessMode) (second : Bool) : Task :=
  if second then .failed (unreachable mode) else .asking (.acquire mode true)

def nextAddr (lap : Lap) : Task :=
  if lap.i + 1 < lap.addrs.length then .trying { lap with i := lap.i + 1 }
  else nextLap lap.mode lap.second

def answered : Caller → Task
  | .acquire mode second => .listing mode second
  | .refresh => .refreshed

def resume (lap : Lap) (pool task : ℕ) : Pool.Task → Option Task
  | .held _ => some (.acquired pool task)
  | .ended (some e) =>
    -- credentials or TLS setup at fault, not the server
    if e.isTransient then some (.evicting lap) else some (.failed e)
  | .shutOut => some (.evicting lap)
  | .ended none => some .cancelled
  | _ => none

/-- A call is dropped while it waits. Inside `get` it is the pool's call that
is dropped. -/
def cancel : Task → Option Task
  | .freshening _ | .listing _ _ | .trying _ | .evicting _ | .asking _ | .routing _ _ _
  | .storing _ _ => some .cancelled
  | _ => none

/-- Every section under the lock of `state` and every atomic access is one step. How old
the table is and what a router answers come with the step. `execute_read` and
`execute_write` check connections out by the same `acquire`, and refresh the table,
once for every attempt they make. -/
def move : Move → RoutedInner → Task → Option (RoutedInner × Task)
  | .begin, s, .starting mode =>
    some (s, if s.closed then .failed (.closed "pool closed") else .freshening mode)
  | .fresh elapsed, s, .freshening mode =>
    some (s, if s.stale elapsed then .asking (.acquire mode false) else .listing mode false)
  | .ask, s, .asking caller =>
    some (s, .routing caller (s.table.routers ++ s.seeds) (.closed "no routers to ask"))
  | .route (.ok table), s, .routing caller (_ :: _) _ => some (s, .storing caller table)
  | .route (.error e), s, .routing caller (_ :: candidates) _ =>
    some (s, .routing caller candidates e)
  | .route _, s, .routing _ [] last => some (s, .failed last)
  | .store, s, .storing caller table => some ({ s with table, fetched := true }, answered caller)
  | .list, s, .listing mode second =>
    some (s, if (s.addrs mode).isEmpty then nextLap mode second
      else .counting mode second (s.addrs mode))
  | .count, s, .counting mode second addrs =>
    some ({ s with rr := Function.update s.rr mode ((s.rr mode + 1) % 2 ^ 64) },
      .trying ⟨mode, second, addrs, s.rr mode, 0⟩)
  | .poolFor, s, .trying lap =>
    -- `get` starts at once on the pool that is found or created
    let (s₁, pool) := s.poolFor lap.addr
    (s₁.onPool pool .get).map fun s₂ => (s₂, .getting lap pool (s₁.calls pool))
  | .resume, s, .getting lap pool task =>
    (s.poolTask pool task).bind fun t => (resume lap pool task t).map fun t' => (s, t')
  | .evict, s, .evicting lap => some (s.evict lap.addr, nextAddr lap)
  | .cancel, s, t => (cancel t).map fun t' => (s, t')
  | .drain order, s, .draining =>
    if order.isPerm (s.pools.map Prod.snd) then some ({ s with pools := [] }, .shutting order)
    else none
  | .shut, s, .shutting [] => some (s, .closed)
  | .shut, s, .shutting (pool :: pools) =>
    (s.onPool pool .close).map fun s' => (s', .parting pool (s.calls pool) pools)
  | .shut, s, .parting pool task pools =>
    match s.poolTask pool task with
    | some .closed => some (s, .shutting pools)
    | _ => none
  | _, _, _ => none

/-- The call is told that the pool of a server is closed. -/
def toldClosed (s : RoutedInner) : Task → Bool
  | .getting _ pool task => match s.poolTask pool task with
    | some .shutOut => true
    | _ => false
  | _ => false

def moveCall (m : Move) (s : RoutedInner) (c : Call) : Option (RoutedInner × Call) :=
  (move m s c.task).map fun r => (r.1, ⟨r.2, c.shutOut || toldClosed s c.task⟩)

inductive Action
  | acquire (mode : AccessMode)
  | refresh
  | close
  | move (i : ℕ) (m : Move)
  /-- A step of a call on the pool of a server, or of a connection it gave out. -/
  | pool (pool task : ℕ) (m : Pool.Move)

def new (seeds : List String) (maxPerHost : ℕ) : RoutedPool :=
  ⟨⟨seeds, maxPerHost, false, ⟨0, none, [], [], []⟩, false, [], fun _ => 0, []⟩, []⟩

def step : Action → RoutedPool → Option RoutedPool
  | .acquire mode, s => some { s with tasks := s.tasks ++ [⟨.starting mode, false⟩] }
  | .refresh, s => some { s with tasks := s.tasks ++ [⟨.asking .refresh, false⟩] }
  | .close, s => some ⟨{ s.inner with closed := true }, s.tasks ++ [⟨.draining, false⟩]⟩
  | .move i m, s => (onTask (moveCall m) i s.inner s.tasks).map fun r => ⟨r.1, r.2⟩
  | .pool pool task m, s => (s.inner.onPool pool (.move task m)).map fun inner => { s with inner }

/-- The pools that a `close` has drained and not closed yet. -/
def Task.toClose : Task → List ℕ
  | .shutting pools | .parting _ _ pools => pools
  | _ => []

def Task.drained : Task → Bool
  | .shutting _ | .parting _ _ _ | .closed => true
  | _ => false

def Task.closing : Task → Bool
  | .draining | .shutting _ | .parting _ _ _ => true
  | _ => false

def Task.closes : Task → Bool
  | .draining | .shutting _ | .parting _ _ _ | .closed => true
  | _ => false

/-- A checkout or a refresh on its way, not about to evict. -/
def Task.plain : Task → Bool
  | .evicting _ | .failed _ | .cancelled => false
  | t => !t.closes

theorem Task.toClose_of_closes {t : Task} (h : t.closes = false) : t.toClose = [] := by
  cases t <;> first | rfl | cases h

theorem Task.drained_of_closes {t : Task} (h : t.closes = false) : t.drained = false := by
  cases t <;> first | rfl | cases h

theorem Task.closing_of_closes {t : Task} (h : t.closes = false) : t.closing = false := by
  cases t <;> first | rfl | cases h

structure SamePools (s s' : RoutedInner) : Prop where
  made : s'.made = s.made
  pools : s'.pools = s.pools
  maxPerHost : s'.maxPerHost = s.maxPerHost

/-- A call that takes no part in closing goes on, and one that evicts is
cancelled. Nothing follows a failure. -/
structure Task.Calm (t t' : Task) : Prop where
  toClose : t'.toClose = t.toClose
  drained : t'.drained = t.drained
  closing : t'.closing = true → t.closing = true
  evicting : ∀ lap, t = .evicting lap → t' = .cancelled
  failed : ∀ e, t ≠ .failed e
  cancelled : t ≠ .cancelled

theorem Task.Calm.of_plain {t t' : Task} (ht : t.plain = true) (ht' : t'.closes = false) :
    t.Calm t' := by
  have hcloses : t.closes = false := by
    cases t <;> first | rfl | cases ht
  refine ⟨?_, ?_, ?_, ?_, ?_, ?_⟩
  · rw [toClose_of_closes ht', toClose_of_closes hcloses]
  · rw [drained_of_closes ht', drained_of_closes hcloses]
  · rw [closing_of_closes ht']
    simp
  · rintro lap rfl
    cases ht
  · rintro e rfl
    cases ht
  · rintro rfl
    cases ht

inductive Moves (s : RoutedInner) : Move → Task → RoutedInner → Task → Prop
  | calm {m : Move} {t t' : Task} {s' : RoutedInner} : SamePools s s' → t.Calm t' →
    toldClosed s t = false → Moves s m t s' t'
  | told {lap : Lap} {pool task : ℕ} : s.poolTask pool task = some .shutOut →
    Moves s .resume (.getting lap pool task) s (.evicting lap)
  | got {lap : Lap} {s₁ s₂ : RoutedInner} {pool task : ℕ} :
    s.poolFor lap.addr = (s₁, pool) →
    s₁.onPool pool .get = some s₂ →
    Moves s .poolFor (.trying lap) s₂ (.getting lap pool task)
  | evicted {lap : Lap} : Moves s .evict (.evicting lap) (s.evict lap.addr) (nextAddr lap)
  | drained {order : List ℕ} : order.Perm (s.pools.map Prod.snd) →
    Moves s (.drain order) .draining { s with pools := [] } (.shutting order)
  | shut {pool task : ℕ} {pools : List ℕ} {s' : RoutedInner} :
    s.onPool pool .close = some s' →
    Moves s .shut (.shutting (pool :: pools)) s' (.parting pool task pools)

theorem closes_nextLap (mode : AccessMode) (second : Bool) :
    (nextLap mode second).closes = false := by
  cases second <;> rfl

theorem closes_nextAddr (lap : Lap) : (nextAddr lap).closes = false := by
  unfold nextAddr
  split_ifs
  · rfl
  · exact closes_nextLap _ _

theorem move_moves {m : Move} {s s' : RoutedInner} {t t' : Task}
    (h : move m s t = some (s', t')) : Moves s m t s' t' := by
  have hsame : SamePools s s := ⟨rfl, rfl, rfl⟩
  unfold move at h
  split at h
  case h_1 =>
    cases h
    split_ifs
    · exact .calm ⟨rfl, rfl, rfl⟩ (.of_plain rfl rfl) rfl
    · exact .calm ⟨rfl, rfl, rfl⟩ (.of_plain rfl rfl) rfl
  case h_2 =>
    cases h
    split_ifs
    · exact .calm ⟨rfl, rfl, rfl⟩ (.of_plain rfl rfl) rfl
    · exact .calm ⟨rfl, rfl, rfl⟩ (.of_plain rfl rfl) rfl
  case h_7 caller table =>
    cases h
    cases caller <;> exact .calm ⟨rfl, rfl, rfl⟩ (.of_plain rfl rfl) rfl
  case h_8 mode second =>
    cases h
    split_ifs
    · exact .calm hsame (.of_plain rfl (closes_nextLap _ _)) rfl
    · exact .calm ⟨rfl, rfl, rfl⟩ (.of_plain rfl rfl) rfl
  case h_10 lap =>
    obtain ⟨s₂, hget, heq⟩ := Option.map_eq_some_iff.mp h
    cases heq
    exact .got rfl hget
  -- the call waits for its task in the pool, and goes on by where that has got to
  case h_11 lap pool task =>
    obtain ⟨pt, hpt, hr⟩ := Option.bind_eq_some_iff.mp h
    obtain ⟨t₁, hresume, heq⟩ := Option.map_eq_some_iff.mp hr
    cases heq
    have htold : ∀ {pt'}, s.poolTask pool task = some pt' → pt' ≠ .shutOut →
        toldClosed s (.getting lap pool task) = false := by
      intro pt' hpt' hne
      simp only [toldClosed, hpt']
      cases pt' <;> first | rfl | exact absurd rfl hne
    unfold resume at hresume
    split at hresume
    case h_1 =>
      cases hresume
      exact .calm hsame (.of_plain rfl rfl) (htold hpt (by simp))
    case h_2 =>
      split_ifs at hresume <;> cases hresume
      · exact .calm hsame (.of_plain rfl rfl) (htold hpt (by simp))
      · exact .calm hsame (.of_plain rfl rfl) (htold hpt (by simp))
    case h_3 =>
      cases hresume
      exact .told hpt
    case h_4 =>
      cases hresume
      exact .calm hsame (.of_plain rfl rfl) (htold hpt (by simp))
    case h_5 => cases hresume
  case h_12 => cases h; exact .evicted
  case h_13 =>
    obtain ⟨t₁, hcancel, heq⟩ := Option.map_eq_some_iff.mp h
    cases heq
    unfold cancel at hcancel
    split at hcancel <;> cases hcancel <;>
      exact .calm hsame ⟨rfl, rfl, by simp [Task.closing], fun _ _ => rfl, by simp, by simp⟩ rfl
  case h_14 order =>
    split_ifs at h with hperm
    cases h
    exact .drained (List.isPerm_iff.mp hperm)
  case h_15 =>
    cases h
    exact .calm hsame ⟨rfl, rfl, by simp [Task.closing], by simp, by simp, by simp⟩ rfl
  case h_16 pool pools =>
    obtain ⟨s₁, hclose, heq⟩ := Option.map_eq_some_iff.mp h
    cases heq
    exact .shut hclose
  case h_17 =>
    split at h <;> cases h
    exact .calm hsame ⟨rfl, rfl, fun _ => rfl, by simp, by simp, by simp⟩ rfl
  case h_18 => cases h
  -- every other move changes at most the routing table and the task
  all_goals
    cases h
    exact .calm ⟨rfl, rfl, rfl⟩ (.of_plain rfl rfl) rfl

inductive Steps (s : RoutedPool) : Action → RoutedPool → Prop
  | acquire {mode : AccessMode} :
    Steps s (.acquire mode) { s with tasks := s.tasks ++ [⟨.starting mode, false⟩] }
  | refresh : Steps s .refresh { s with tasks := s.tasks ++ [⟨.asking .refresh, false⟩] }
  | close :
    Steps s .close ⟨{ s.inner with closed := true }, s.tasks ++ [⟨.draining, false⟩]⟩
  | move {i : ℕ} {m : Move} {l₁ l₂ : List Call} {c : Call} {t' : Task} {s' : RoutedInner} :
    s.tasks = l₁ ++ c :: l₂ → l₁.length = i → Moves s.inner m c.task s' t' →
    Steps s (.move i m) ⟨s', l₁ ++ ⟨t', c.shutOut || toldClosed s.inner c.task⟩ :: l₂⟩
  | pool {pool task : ℕ} {m : Pool.Move} {inner : RoutedInner} :
    s.inner.onPool pool (.move task m) = some inner →
    Steps s (.pool pool task m) { s with inner }

theorem step_steps {a : Action} {s s' : RoutedPool} (h : step a s = some s') : Steps s a s' := by
  cases a with
  | acquire mode => cases h; exact .acquire
  | refresh => cases h; exact .refresh
  | close => cases h; exact .close
  | move i m =>
    obtain ⟨⟨inner, tasks⟩, hon, rfl⟩ := Option.map_eq_some_iff.mp h
    obtain ⟨l₁, c, l₂, c', htasks, hlen, hmove, rfl⟩ := onTask_eq_some hon
    obtain ⟨⟨inner', t'⟩, hm, heq⟩ := Option.map_eq_some_iff.mp hmove
    cases heq
    exact .move htasks hlen (move_moves hm)
  | pool pool task m =>
    obtain ⟨inner, hon, rfl⟩ := Option.map_eq_some_iff.mp h
    exact .pool hon

/-- One pool has taken a step, and nothing else has changed. -/
theorem onPool_eq_some {s s' : RoutedInner} {pool : ℕ} {a : Pool.Action}
    (h : s.onPool pool a = some s') : ∃ addr p p', s.made[pool]? = some (addr, p) ∧
      Pool.step a p = some p' ∧ s' = { s with made := s.made.set pool (addr, p') } := by
  unfold RoutedInner.onPool at h
  split at h
  case h_1 => cases h
  case h_2 addr p hp =>
    obtain ⟨p', hstep, rfl⟩ := Option.map_eq_some_iff.mp h
    exact ⟨addr, p, p', hp, hstep, rfl⟩

/-- Every pool is as it was, or is the one that has taken a step. -/
theorem onPool_made {s s' : RoutedInner} {pool : ℕ} {a : Pool.Action}
    (h : s.onPool pool a = some s') {k : ℕ} {q : String × Pool} (hq : s.made[k]? = some q) :
    ∃ p', s'.made[k]? = some (q.1, p') ∧
      (p' = q.2 ∨ k = pool ∧ Pool.step a q.2 = some p') := by
  obtain ⟨addr, p, p', hp, hstep, rfl⟩ := onPool_eq_some h
  by_cases hk : k = pool
  · subst hk
    cases hp.symm.trans hq
    have hlt := (List.getElem?_eq_some_iff.mp hp).1
    exact ⟨p', by rw [List.getElem?_set_self hlt], .inr ⟨rfl, hstep⟩⟩
  · exact ⟨q.2, by rw [List.getElem?_set_ne (Ne.symm hk), hq], .inl rfl⟩

theorem onPool_length {s s' : RoutedInner} {pool : ℕ} {a : Pool.Action}
    (h : s.onPool pool a = some s') : s'.made.length = s.made.length := by
  obtain ⟨addr, p, p', -, -, rfl⟩ := onPool_eq_some h
  exact List.length_set

theorem onPool_pools {s s' : RoutedInner} {pool : ℕ} {a : Pool.Action}
    (h : s.onPool pool a = some s') : s'.pools = s.pools ∧ s'.maxPerHost = s.maxPerHost := by
  obtain ⟨addr, p, p', -, -, rfl⟩ := onPool_eq_some h
  exact ⟨rfl, rfl⟩

def soleServer : RoutingTable := ⟨300, none, ["a"], ["a"], ["a"]⟩

def toPool (i : ℕ) : List Action := [.move i .list, .move i .count, .move i .poolFor]

def fetches (i : ℕ) : List Action :=
  [.move i .ask, .move i (.route (.ok soleServer)), .move i .store]

def connects (pool task : ℕ) : List Action :=
  [.pool pool task .acquire, .pool pool task (.pop 0 0 true), .pool pool task .connected]

def refused (pool task : ℕ) : List Action :=
  [.pool pool task .acquire, .pool pool task (.pop 0 0 true),
    .pool pool task (.refused (.closed "") false), .pool pool task .release]

end RoutedPool
end Boltwire
