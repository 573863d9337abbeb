import Boltwire.Checkout

namespace Boltwire
open Transition

namespace RoutingTable

def addrs (table : RoutingTable) : AccessMode → List String
  | .read => table.readers
  | .write => table.writers

end RoutingTable

theorem RoutedInner.addrs_eq (s : RoutedInner) (mode : AccessMode) :
    s.addrs mode = s.table.addrs mode := by
  cases mode <;> rfl

namespace RoutedPool

/-- What `state` holds of the servers. -/
structure Known where
  table : RoutingTable
  /-- The pool of an address, by number. -/
  pools : String → Option ℕ
  /-- How many pools there have been. -/
  made : ℕ

namespace Known

def poolFor (known : Known) (addr : String) : Known :=
  if (known.pools addr).isSome then known
  else { known with
    pools := Function.update known.pools addr (some known.made)
    made := known.made + 1 }

/-- A server that is evicted has none, and is not in the table. -/
def evict (known : Known) (addr : String) : Known :=
  { known with
    table := known.table.remove addr
    pools := Function.update known.pools addr none }

end Known

end RoutedPool

namespace RoutedInner

def known (s : RoutedInner) : RoutedPool.Known := ⟨s.table, s.poolOf, s.made.length⟩

theorem known_poolFor (s : RoutedInner) (addr : String) :
    (s.poolFor addr).1.known = s.known.poolFor addr := by
  have hpools : s.known.pools addr = s.poolOf addr := rfl
  rw [RoutedPool.Known.poolFor, hpools]
  cases haddr : s.poolOf addr with
  | some pool =>
    rw [poolFor_of_poolOf haddr, Option.isSome_some, if_pos rfl]
  | none =>
    have hnew : (s.poolFor addr).1.poolOf = Function.update s.poolOf addr (some s.made.length) := by
      funext b
      by_cases hb : b = addr
      · subst hb
        rw [poolOf_poolFor, Function.update_self, poolFor, haddr]
      · rw [poolOf_poolFor_ne hb, Function.update_of_ne hb]
    have hmade : (s.poolFor addr).1.made.length = s.made.length + 1 := by
      rw [poolFor, haddr]
      exact List.length_append
    rw [known, hnew, hmade, table_poolFor]
    rfl

theorem known_evict (s : RoutedInner) (addr : String) :
    (s.evict addr).known = s.known.evict addr := by
  have hpools : (s.evict addr).poolOf = Function.update s.poolOf addr none := by
    funext b
    rw [poolOf_evict, Function.update_apply]
  rw [known, hpools]
  rfl

end RoutedInner

namespace RoutedPool

inductive Result
  | connection (addr : String)
  | refreshed
  | error (e : BoltError)

/-- How a call ends: what it comes back with, what it leaves, and the moves it makes. -/
structure Ending where
  result : Result
  known : Known
  moves : ℕ

namespace Ending

def after (n : ℕ) (e : Ending) : Ending := { e with moves := e.moves + n }

@[simp] theorem after_zero (e : Ending) : e.after 0 = e := rfl

theorem after_after (m n : ℕ) (e : Ending) : (e.after m).after n = e.after (m + n) := by
  simp [after, Nat.add_assoc]

end Ending

/-- The addresses that a lap has left, the one at hand first. -/
def Lap.left (lap : Lap) : List String :=
  (List.range' lap.i (lap.addrs.length - lap.i)).map fun i => { lap with i }.addr

def Lap.next (lap : Lap) : Lap := { lap with i := lap.i + 1 }

theorem Lap.left_eq_cons {lap : Lap} (h : lap.i < lap.addrs.length) :
    lap.left = lap.addr :: lap.next.left := by
  have hsub : lap.addrs.length - lap.i = lap.addrs.length - (lap.i + 1) + 1 := by omega
  rw [left, hsub, List.range'_succ, List.map_cons]
  rfl

theorem Lap.left_eq_nil {lap : Lap} (h : lap.addrs.length ≤ lap.i) : lap.left = [] := by
  rw [left, Nat.sub_eq_zero_of_le h]
  rfl

section
variable (outcome : String → ServerOutcome) (answer : String → Except BoltError RoutingTable)
variable (seeds : List String)

/-- One server after the other, until one is not transient. Those that are get evicted. -/
def tryServers (done : Known → Ending) : List String → Known → Ending
  | [], known => done known
  | addr :: addrs, known =>
    match outcome addr with
    | .connection => ⟨.connection addr, known.poolFor addr, 2⟩
    | .permanent e => ⟨.error e, known.poolFor addr, 2⟩
    | .transient => (tryServers done addrs ((known.poolFor addr).evict addr)).after 3

/-- One lap, over the addresses that the table has for the mode. -/
def overLap (mode : AccessMode) (second : Bool) (done : Known → ℕ → Ending)
    (known : Known) (cursor : ℕ) : Ending :=
  if (known.table.addrs mode).isEmpty then (done known cursor).after 1
  else (tryServers outcome (done · ((cursor + 1) % 2 ^ 64))
    (Lap.left ⟨mode, second, known.table.addrs mode, cursor, 0⟩) known).after 2

def askRouters (known : Known) (done : Known → Ending) (last : BoltError) :
    List String → Ending
  | [] => ⟨.error last, known, 1⟩
  | addr :: candidates =>
    match answer addr with
    | .ok table => (done { known with table }).after 2
    | .error e => (askRouters known done e candidates).after 1

/-- The known routers first, then the seeds. -/
def refreshing (known : Known) (done : Known → Ending) : Ending :=
  (askRouters answer known done (.closed "no routers to ask")
    (known.table.routers ++ seeds)).after 1

def secondLap (mode : AccessMode) (known : Known) (cursor : ℕ) : Ending :=
  overLap outcome mode true (fun known _ => ⟨.error (unreachable mode), known, 0⟩) known cursor

def afterLap (mode : AccessMode) (second : Bool) (known : Known) (cursor : ℕ) : Ending :=
  if second then ⟨.error (unreachable mode), known, 0⟩
  else refreshing answer seeds known fun known => secondLap outcome mode known cursor

def lapThen (mode : AccessMode) (second : Bool) (known : Known) (cursor : ℕ) : Ending :=
  overLap outcome mode second (afterLap outcome answer seeds mode second) known cursor

def afterRefresh (cursor : AccessMode → ℕ) : Caller → Known → Ending
  | .acquire mode second, known => lapThen outcome answer seeds mode second known (cursor mode)
  | .refresh, known => ⟨.refreshed, known, 0⟩

variable (elapsed : ℕ)

def freshThenLap (mode : AccessMode) (s : RoutedInner) : Ending :=
  if s.stale elapsed then
    refreshing answer seeds s.known (afterRefresh outcome answer seeds s.rr (.acquire mode false))
  else lapThen outcome answer seeds mode false s.known (s.rr mode)

/-- The plan of what is left of a call, from where it stands. -/
def plan (s : RoutedInner) : Task → Ending
  | .starting mode =>
    if s.closed then ⟨.error (.closed "pool closed"), s.known, 1⟩
    else (freshThenLap outcome answer s.seeds elapsed mode s).after 2
  | .freshening mode => (freshThenLap outcome answer s.seeds elapsed mode s).after 1
  | .listing mode second => lapThen outcome answer s.seeds mode second s.known (s.rr mode)
  | .counting mode second addrs =>
    (tryServers outcome
      (afterLap outcome answer s.seeds mode second · ((s.rr mode + 1) % 2 ^ 64))
      (Lap.left ⟨mode, second, addrs, s.rr mode, 0⟩) s.known).after 1
  | .trying lap =>
    tryServers outcome (afterLap outcome answer s.seeds lap.mode lap.second · (s.rr lap.mode))
      lap.left s.known
  | .getting lap _ _ =>
    match outcome lap.addr with
    | .connection => ⟨.connection lap.addr, s.known, 1⟩
    | .permanent e => ⟨.error e, s.known, 1⟩
    | .transient =>
      (tryServers outcome (afterLap outcome answer s.seeds lap.mode lap.second · (s.rr lap.mode))
        lap.next.left (s.known.evict lap.addr)).after 2
  | .evicting lap =>
    (tryServers outcome (afterLap outcome answer s.seeds lap.mode lap.second · (s.rr lap.mode))
      lap.next.left (s.known.evict lap.addr)).after 1
  | .acquired pool _ => ⟨.connection (((s.made[pool]?).map Prod.fst).getD ""), s.known, 0⟩
  | .asking caller =>
    refreshing answer s.seeds s.known (afterRefresh outcome answer s.seeds s.rr caller)
  | .routing caller candidates last =>
    askRouters answer s.known (afterRefresh outcome answer s.seeds s.rr caller) last candidates
  | .storing caller table =>
      (afterRefresh outcome answer s.seeds s.rr caller { s.known with table }).after 1
  | .refreshed => ⟨.refreshed, s.known, 0⟩
  | .failed e => ⟨.error e, s.known, 0⟩
  -- no checkout and no refresh
  | .cancelled | .draining | .shutting _ | .parting _ _ _ | .closed => ⟨.refreshed, s.known, 0⟩

/-- A move as the plan has it: the call is not cancelled, the table is `elapsed` old, a
router answers as `answer` says, and a `get` has ended as `outcome` says. -/
def Expected (s : RoutedInner) : Move → Task → Prop
  | .cancel, _ => False
  | .fresh e, _ => e = elapsed
  | .route reply, .routing _ (addr :: _) _ => reply = answer addr
  | .resume, .getting lap pool task =>
    (s.poolTask pool task).bind getOutcome = some (outcome lap.addr)
  | _, _ => True

/-- No other call takes a step. The pools of the servers do. -/
def Undisturbed (i : ℕ) : Action → RoutedPool → Prop
  | .move j m, s => j = i ∧ ∃ c, s.tasks[i]? = some c ∧
      Expected outcome answer elapsed s.inner m c.task
  | .pool _ _ _, _ => True
  | _, _ => False

end

/-- The pool with this number dials the address. -/
def Dials (s : RoutedInner) (pool : ℕ) (addr : String) : Prop :=
  (s.made[pool]?).map Prod.fst = some addr

/-- The map has for each address a pool that dials it. -/
def Mapped (s : RoutedInner) : Prop := ∀ addr pool, s.poolOf addr = some pool →
    Dials s pool addr

/-- Where a call stands in its lap: at one of the addresses, and waiting for a `get` on a
pool that dials it. -/
def Placed (s : RoutedInner) : Task → Prop
  | .counting _ _ addrs => addrs ≠ []
  | .trying lap | .evicting lap => lap.i < lap.addrs.length
  | .getting lap pool task =>
    lap.i < lap.addrs.length ∧ Dials s pool lap.addr ∧ (s.poolTask pool task).isSome
  | .acquired pool _ => ∃ addr, Dials s pool addr
  | _ => True

section Pools
variable {s s' : RoutedInner} {pool : ℕ} {a : Pool.Action} {addr : String}

theorem Dials.onPool {k : ℕ} (hd : Dials s k addr) (h : s.onPool pool a = some s') :
    Dials s' k addr := by
  obtain ⟨q, hq, rfl⟩ := Option.map_eq_some_iff.mp hd
  obtain ⟨p', hp', -⟩ := onPool_made h hq
  rw [Dials, hp']
  rfl

theorem onPool_dialled (h : s.onPool pool a = some s') (k : ℕ) :
    (s'.made[k]?).map Prod.fst = (s.made[k]?).map Prod.fst := by
  obtain ⟨addr, p, p', hp, -, rfl⟩ := onPool_eq_some h
  rw [List.getElem?_set]
  split_ifs with hk hlt
  · rw [← hk, hp]
    rfl
  · rw [← hk, List.getElem?_eq_none (by omega)]
  · rfl

theorem onPool_seeds (h : s.onPool pool a = some s') : s'.seeds = s.seeds := by
  obtain ⟨addr, p, p', -, -, rfl⟩ := onPool_eq_some h
  rfl

theorem onPool_known (h : s.onPool pool a = some s') : s'.known = s.known := by
  obtain ⟨addr, p, p', -, -, rfl⟩ := onPool_eq_some h
  have hmade : (s.made.set pool (addr, p')).length = s.made.length := List.length_set
  rw [RoutedInner.known, hmade]
  rfl

theorem poolFor_rest (s : RoutedInner) (addr : String) :
    (s.poolFor addr).1.seeds = s.seeds ∧ (s.poolFor addr).1.rr = s.rr := by
  unfold RoutedInner.poolFor
  split <;> exact ⟨rfl, rfl⟩

theorem Mapped.onPool (hm : Mapped s) (h : s.onPool pool a = some s') : Mapped s' := by
  intro addr k hk
  rw [RoutedInner.poolOf, (onPool_shared h).2.2.2.2] at hk
  exact (hm addr k hk).onPool h

theorem Mapped.poolFor (hm : Mapped s) (addr : String) :
    Mapped (s.poolFor addr).1 := by
  intro b k hk
  by_cases hb : b = addr
  · subst hb
    rw [RoutedInner.poolOf_poolFor] at hk
    cases hk
    unfold RoutedInner.poolFor
    split
    case h_1 k hk => exact hm b k hk
    case h_2 => simp [Dials]
  · rw [RoutedInner.poolOf_poolFor_ne hb] at hk
    have hd := hm b k hk
    unfold RoutedInner.poolFor
    split
    case h_1 => exact hd
    case h_2 =>
      obtain ⟨q, hq, rfl⟩ := Option.map_eq_some_iff.mp hd
      have hlt := (List.getElem?_eq_some_iff.mp hq).1
      rw [Dials, List.getElem?_append_left hlt, hq]
      rfl

theorem Mapped.evict (hm : Mapped s) (addr : String) : Mapped (s.evict addr) := by
  intro b k hk
  rw [RoutedInner.poolOf_evict] at hk
  split_ifs at hk
  exact hm b k hk

theorem Mapped.moves {m : Move} {t t' : Task} (hm : Mapped s) (h : Moves s m t s' t') :
    Mapped s' := by
  cases h with
  | calm hsame _ _ =>
    intro b k hk
    rw [Dials, hsame.made]
    exact hm b k (by rwa [RoutedInner.poolOf, hsame.pools] at hk)
  | told _ => exact hm
  | @got lap _ _ _ _ hfor hget =>
    have hfor' := hm.poolFor lap.addr
    rw [hfor] at hfor'
    exact hfor'.onPool hget
  | evicted => exact hm.evict _
  | drained _ =>
    intro b k hk
    cases hk
  | shut hclose => exact hm.onPool hclose

end Pools

section Follow
variable {outcome : String → ServerOutcome} {answer : String → Except BoltError RoutingTable}
variable {elapsed : ℕ} {s s' : RoutedInner} {t t' : Task} {m : Move}

/-- After a server that could not be reached. -/
theorem plan_nextAddr {lap : Lap} :
    plan outcome answer elapsed s (nextAddr lap) =
      tryServers outcome (afterLap outcome answer s.seeds lap.mode lap.second · (s.rr lap.mode))
        lap.next.left s.known := by
  rw [nextAddr]
  split_ifs with hmore
  · rfl
  · have hnil : lap.next.left = [] := Lap.left_eq_nil (Nat.le_of_not_lt hmore)
    rw [hnil, tryServers, nextLap, afterLap]
    split_ifs <;> rfl

theorem placed_nextLap (mode : AccessMode) (second : Bool) : Placed s (nextLap mode second) := by
  cases second <;> trivial

theorem placed_move (hp : Placed s t) (hm : Mapped s) (h : move m s t = some (s', t')) :
    Placed s' t' := by
  unfold move at h
  split at h
  case h_7 caller table =>
    cases h
    cases caller <;> trivial
  case h_8 mode second =>
    cases h
    split_ifs with hempty
    · exact placed_nextLap mode second
    · simpa [Placed] using hempty
  case h_9 mode second addrs =>
    cases h
    exact List.length_pos_iff.mpr hp
  case h_10 lap =>
    obtain ⟨hget, rfl⟩ := poolFor_of_move h
    have hmapped := (hm.poolFor lap.addr) _ _ (RoutedInner.poolOf_poolFor s lap.addr)
    exact ⟨hp, hmapped.onPool hget, poolTask_get hget⟩
  case h_11 lap pool task =>
    obtain ⟨pt, -, hr⟩ := Option.bind_eq_some_iff.mp h
    obtain ⟨t₁, hresume, heq⟩ := Option.map_eq_some_iff.mp hr
    cases heq
    unfold resume at hresume
    split at hresume
    case h_1 =>
      cases hresume
      exact ⟨_, hp.2.1⟩
    case h_2 =>
      split_ifs at hresume <;> cases hresume
      · exact hp.1
      · trivial
    case h_3 =>
      cases hresume
      exact hp.1
    case h_5 => cases hresume
    all_goals
      cases hresume
      trivial
  case h_12 lap =>
    cases h
    rw [nextAddr]
    split_ifs with hmore
    · exact hmore
    · exact placed_nextLap lap.mode lap.second
  case h_13 =>
    obtain ⟨t₁, hcancel, heq⟩ := Option.map_eq_some_iff.mp h
    cases heq
    unfold cancel at hcancel
    split at hcancel <;> cases hcancel <;> trivial
  case h_16 =>
    obtain ⟨s₁, -, heq⟩ := Option.map_eq_some_iff.mp h
    cases heq
    trivial
  case h_17 =>
    split at h <;> cases h
    trivial
  case h_14 =>
    split_ifs at h
    cases h
    trivial
  case h_18 => cases h
  case h_1 | h_2 =>
    cases h
    split_ifs <;> trivial
  all_goals
    cases h
    trivial

/-- A move of the call is the next one of the plan. -/
theorem plan_move (hp : Placed s t) (hcloses : t.closes = false)
    (he : Expected outcome answer elapsed s m t) (h : move m s t = some (s', t')) :
    plan outcome answer elapsed s t = (plan outcome answer elapsed s' t').after 1 := by
  unfold move at h
  split at h
  case h_1 mode =>
    cases h
    rw [plan]
    split_ifs <;> rfl
  case h_2 mode =>
    obtain rfl := he
    cases h
    rw [plan, freshThenLap]
    split_ifs <;> rfl
  case h_4 | h_5 =>
    cases h
    rw [plan, askRouters, ← he]
    rfl
  case h_7 caller table =>
    cases h
    cases caller <;> rfl
  case h_8 mode second =>
    cases h
    rw [plan, lapThen, overLap, show s.known.table = s.table from rfl, s.addrs_eq]
    split_ifs
    · cases second <;> rfl
    · rfl
  case h_9 mode second addrs =>
    cases h
    rw [plan, plan]
    dsimp only
    rw [Function.update_self]
    rfl
  case h_10 lap =>
    obtain ⟨hget, rfl⟩ := poolFor_of_move h
    rw [plan, plan, onPool_known hget, (onPool_shared hget).2.2.2.1, onPool_seeds hget,
      s.known_poolFor, (poolFor_rest s lap.addr).1, (poolFor_rest s lap.addr).2,
      Lap.left_eq_cons hp, tryServers]
    cases outcome lap.addr <;> rfl
  case h_11 lap pool task =>
    obtain ⟨pt, hpt, hr⟩ := Option.bind_eq_some_iff.mp h
    rw [Expected, hpt, Option.bind_some] at he
    rw [resume_of_getOutcome he] at hr
    cases hr
    rw [plan]
    cases outcome lap.addr with
    | connection =>
      rw [afterGet, plan, hp.2.1]
      rfl
    | transient => rfl
    | permanent e => rfl
  case h_12 lap =>
    cases h
    rw [plan_nextAddr, s.known_evict]
    rfl
  case h_13 => exact he.elim
  case h_18 => cases h
  case h_3 | h_6 =>
    cases h
    rfl
  all_goals cases hcloses

end Follow

/-- No pool is lost, and no call on one. -/
structure Grows (s s' : RoutedInner) : Prop where
  dials : ∀ pool addr, Dials s pool addr → Dials s' pool addr
  calls : ∀ pool task, (s.poolTask pool task).isSome → (s'.poolTask pool task).isSome

section Grow
variable {s s' : RoutedInner} {t t' : Task} {m : Move}

theorem Grows.of_made (h : s'.made = s.made) : Grows s s' := by
  refine ⟨?_, ?_⟩
  · intro pool addr hd
    rwa [Dials, h]
  · intro pool task ht
    rwa [RoutedInner.poolTask, h]

theorem Grows.onPool {pool : ℕ} {a : Pool.Action} (h : s.onPool pool a = some s') : Grows s s' :=
  ⟨fun _ _ hd => hd.onPool h, fun _ _ ht => poolTask_onPool h ht⟩

theorem Grows.trans {s'' : RoutedInner} (h : Grows s s') (h' : Grows s' s'') : Grows s s'' :=
  ⟨fun pool addr hd => h'.dials pool addr (h.dials pool addr hd),
    fun pool task ht => h'.calls pool task (h.calls pool task ht)⟩

theorem Grows.poolFor (s : RoutedInner) (addr : String) : Grows s (s.poolFor addr).1 := by
  unfold RoutedInner.poolFor
  split
  case h_1 => exact .of_made rfl
  case h_2 =>
    have hget : ∀ {k : ℕ} {q : String × Pool}, s.made[k]? = some q →
        (s.made ++ [(addr, Pool.new s.maxPerHost)])[k]? = some q := by
      intro k q hq
      rw [List.getElem?_append_left (List.getElem?_eq_some_iff.mp hq).1, hq]
    refine ⟨?_, ?_⟩
    · intro pool b hd
      obtain ⟨q, hq, rfl⟩ := Option.map_eq_some_iff.mp hd
      rw [Dials, hget hq]
      rfl
    · intro pool task ht
      obtain ⟨pt, hpt⟩ := Option.isSome_iff_exists.mp ht
      obtain ⟨q, hq, htask⟩ := Option.bind_eq_some_iff.mp hpt
      rw [RoutedInner.poolTask, hget hq, Option.bind_some, htask]
      rfl

theorem Grows.moves (h : Moves s m t s' t') : Grows s s' := by
  cases h with
  | calm hsame _ _ => exact .of_made hsame.made
  | told _ => exact .of_made rfl
  | @got lap _ _ _ _ hfor hget =>
    have hpool := Grows.poolFor s lap.addr
    rw [hfor] at hpool
    exact hpool.trans (.onPool hget)
  | evicted => exact .of_made rfl
  | drained _ => exact .of_made rfl
  | shut hclose => exact .onPool hclose

theorem Placed.grows (hp : Placed s t) (h : Grows s s') : Placed s' t := by
  cases t with
  | getting lap pool task =>
    exact ⟨hp.1, h.dials pool lap.addr hp.2.1, h.calls pool task hp.2.2⟩
  | acquired pool task =>
    obtain ⟨addr, hd⟩ := hp
    exact ⟨addr, h.dials pool addr hd⟩
  | _ => exact hp

end Grow

/-- Every call is somewhere in its lap, and the pools of the map dial its addresses. -/
structure InPlace (s : RoutedPool) : Prop where
  mapped : Mapped s.inner
  placed : ∀ c ∈ s.tasks, Placed s.inner c.task

section Runs
variable {s s' : RoutedPool} {i : ℕ}

theorem InPlace.step {a : Action} (hi : InPlace s) (h : RoutedPool.step a s = some s') :
    InPlace s' := by
  cases a with
  | move i m =>
    obtain ⟨⟨inner, tasks⟩, hon, rfl⟩ := Option.map_eq_some_iff.mp h
    obtain ⟨l₁, c, l₂, c', htasks, -, hmove, rfl⟩ := onTask_eq_some hon
    obtain ⟨⟨inner', t'⟩, hm, heq⟩ := Option.map_eq_some_iff.mp hmove
    cases heq
    have hall := hi.placed
    rw [htasks] at hall
    have hown := placed_move (hall c (by simp)) hi.mapped hm
    have hgrows := Grows.moves (move_moves hm)
    exact ⟨hi.mapped.moves (move_moves hm),
      forall_replace (fun u hu => (hall u hu).grows hgrows) hown⟩
  | pool pool task m =>
    obtain ⟨inner, hon, rfl⟩ := Option.map_eq_some_iff.mp h
    exact ⟨hi.mapped.onPool hon, fun c hc => (hi.placed c hc).grows (.onPool hon)⟩
  | _ =>
    cases h
    exact ⟨hi.mapped, forall_concat hi.placed trivial⟩

theorem inPlace_of_reaches {seeds : List String} {maxPerHost : ℕ}
    (h : Reaches RoutedPool.step (new seeds maxPerHost) s) : InPlace s := by
  apply h.invariant (I := InPlace)
  · refine ⟨?_, by simp [new]⟩
    intro addr pool hpool
    cases hpool
  · intro a s s' hi _ hstep
    exact hi.step hstep

def Task.over : Task → Bool
  | .acquired _ _ | .refreshed | .failed _ | .cancelled => true
  | _ => false

section
variable (outcome : String → ServerOutcome) (answer : String → Except BoltError RoutingTable)
variable (elapsed : ℕ)

/-- The call number `i` at `c` is on its way to this ending. -/
structure Follows (i : ℕ) (e : Ending) (s : RoutedPool) (c : Call) : Prop where
  /-- It comes back with a connection of the server that the plan finds, … -/
  acquired : ∀ pool task, c.task = .acquired pool task →
    ∃ addr, e.result = .connection addr ∧ Dials s.inner pool addr ∧ s.inner.known = e.known
  refreshed : c.task = .refreshed → e.result = .refreshed ∧ s.inner.known = e.known
  /-- … or with the error of the plan, and leaves the table and the pools as planned. -/
  failed : ∀ x, c.task = .failed x → e.result = .error x ∧ s.inner.known = e.known
  /-- Until then it can go on, … -/
  goesOn : c.task.over = true ∨ Waits outcome s.inner c.task ∨
    ∃ m s', Undisturbed outcome answer elapsed i (.move i m) s ∧ step (.move i m) s = some s'
  /-- … and each of its moves is one of those planned. -/
  moves : (plan outcome answer elapsed s.inner c.task).moves ≤ e.moves
  nearer : ∀ m s', Undisturbed outcome answer elapsed i (.move i m) s →
    step (.move i m) s = some s' → ∃ c', s'.tasks[i]? = some c' ∧
      (plan outcome answer elapsed s'.inner c'.task).moves + 1 =
        (plan outcome answer elapsed s.inner c.task).moves

end

variable {outcome : String → ServerOutcome} {answer : String → Except BoltError RoutingTable}
variable {elapsed : ℕ} {e : Ending} {c : Call}

/-- A step of the pool of a server is no part of the plan. -/
theorem plan_onPool {inner inner' : RoutedInner} {pool : ℕ} {a : Pool.Action}
    (h : inner.onPool pool a = some inner') (t : Task) :
    plan outcome answer elapsed inner' t = plan outcome answer elapsed inner t := by
  have hdialled := onPool_dialled h
  have hknown := onPool_known h
  obtain ⟨addr, p, p', -, -, rfl⟩ := onPool_eq_some h
  cases t with
  | acquired k task => rw [plan, plan, hdialled, hknown]
  | starting _ | freshening _ =>
    simp only [plan, freshThenLap, hknown]
    rfl
  | _ => simp only [plan, hknown]

theorem closes_move {inner inner' : RoutedInner} {m : Move} {t t' : Task}
    (h : move m inner t = some (inner', t')) (ht : t.closes = false) : t'.closes = false := by
  cases move_moves h with
  | calm _ hcalm _ =>
    have hdrained := hcalm.drained
    rw [Task.drained_of_closes ht] at hdrained
    have hclosing : t'.closing ≠ true := by
      intro hc
      have hbefore := hcalm.closing hc
      rw [Task.closing_of_closes ht] at hbefore
      cases hbefore
    cases t' <;> first | rfl | exact absurd rfl hclosing | cases hdrained
  | told _ => rfl
  | got _ _ => rfl
  | evicted => exact closes_nextAddr _
  | drained _ => cases ht
  | shut _ => cases ht

/-- The plan from here on is what is left of the plan at first. -/
structure OnCourse (outcome : String → ServerOutcome)
    (answer : String → Except BoltError RoutingTable) (elapsed i : ℕ) (e : Ending)
    (s : RoutedPool) (c : Call) : Prop where
  at_ : s.tasks[i]? = some c
  inPlace : InPlace s
  closes : c.task.closes = false
  rest : ∃ k, e = (plan outcome answer elapsed s.inner c.task).after k

theorem OnCourse.step {a : Action} (ho : OnCourse outcome answer elapsed i e s c)
    (hok : Undisturbed outcome answer elapsed i a s) (h : RoutedPool.step a s = some s') :
    ∃ c', OnCourse outcome answer elapsed i e s' c' := by
  obtain ⟨k, hk⟩ := ho.rest
  have hin := ho.inPlace.step h
  cases a with
  | move j m =>
    obtain ⟨rfl, c₁, hc₁, he⟩ := hok
    cases ho.at_.symm.trans hc₁
    obtain ⟨c', hmove, hc'⟩ := step_own ho.at_ h
    have hplaced := ho.inPlace.placed c (List.mem_of_getElem? ho.at_)
    refine ⟨c', hc', hin, closes_move hmove ho.closes, k + 1, ?_⟩
    rw [hk, plan_move hplaced ho.closes he hmove, Ending.after_after, Nat.add_comm]
  | pool pool task m =>
    obtain ⟨inner, hon, rfl⟩ := Option.map_eq_some_iff.mp h
    exact ⟨c, ho.at_, hin, ho.closes, k, by rw [hk, plan_onPool hon]⟩
  | _ => exact hok.elim

variable (outcome answer elapsed) in
/-- Until the call is over it can make its move, or waits for a `get`. -/
theorem goes_on {inner : RoutedInner} {t : Task} (hp : Placed inner t) (hm : Mapped inner)
    (hcloses : t.closes = false) : t.over = true ∨ Waits outcome inner t ∨
      ∃ m, Expected outcome answer elapsed inner m t ∧ (move m inner t).isSome := by
  cases t with
  | starting => exact .inr (.inr ⟨.begin, trivial, rfl⟩)
  | freshening => exact .inr (.inr ⟨.fresh elapsed, rfl, rfl⟩)
  | listing => exact .inr (.inr ⟨.list, trivial, rfl⟩)
  | counting => exact .inr (.inr ⟨.count, trivial, rfl⟩)
  | trying lap =>
    refine .inr (.inr ⟨.poolFor, trivial, ?_⟩)
    obtain ⟨q, hq, -⟩ := Option.map_eq_some_iff.mp
      ((hm.poolFor lap.addr) _ _ (RoutedInner.poolOf_poolFor inner lap.addr))
    rw [move, Option.isSome_map]
    exact onPool_get_isSome (List.getElem?_eq_some_iff.mp hq).1
  | getting lap pool task =>
    obtain ⟨pt, hpt⟩ := Option.isSome_iff_exists.mp hp.2.2
    by_cases hout : getOutcome pt = some (outcome lap.addr)
    · refine .inr (.inr ⟨.resume, ?_, ?_⟩)
      · rw [Expected, hpt]
        exact hout
      · rw [move, hpt, Option.bind_some, resume_of_getOutcome hout]
        rfl
    · exact .inr (.inl ⟨lap, pool, task, pt, rfl, hpt, hout⟩)
  | evicting => exact .inr (.inr ⟨.evict, trivial, rfl⟩)
  | asking => exact .inr (.inr ⟨.ask, trivial, rfl⟩)
  | routing caller candidates last =>
    cases candidates with
    | nil => exact .inr (.inr ⟨.route (.error last), trivial, rfl⟩)
    | cons addr candidates =>
      refine .inr (.inr ⟨.route (answer addr), rfl, ?_⟩)
      cases answer addr <;> rfl
  | storing => exact .inr (.inr ⟨.store, trivial, rfl⟩)
  | acquired | refreshed | failed | cancelled => exact .inl rfl
  | draining | shutting | parting | closed => cases hcloses

theorem OnCourse.follows (ho : OnCourse outcome answer elapsed i e s c) :
    Follows outcome answer elapsed i e s c := by
  obtain ⟨k, rfl⟩ := ho.rest
  have hplaced := ho.inPlace.placed c (List.mem_of_getElem? ho.at_)
  refine ⟨?_, ?_, ?_, ?_, Nat.le_add_right _ _, ?_⟩
  · intro pool task ht
    rw [ht] at hplaced ⊢
    obtain ⟨addr, hd⟩ := hplaced
    refine ⟨addr, ?_, hd, rfl⟩
    rw [plan, hd]
    rfl
  · intro ht
    rw [ht]
    exact ⟨rfl, rfl⟩
  · intro x ht
    rw [ht]
    exact ⟨rfl, rfl⟩
  · rcases goes_on outcome answer elapsed hplaced ho.inPlace.mapped ho.closes with
      hover | hwaits | ⟨m, he, hmove⟩
    · exact .inl hover
    · exact .inr (.inl hwaits)
    · obtain ⟨r, hr⟩ := Option.isSome_iff_exists.mp hmove
      refine .inr (.inr ⟨m,
        ⟨r.1, s.tasks.set i ⟨r.2, c.shutOut || toldClosed s.inner c.task⟩⟩,
        ⟨rfl, c, ho.at_, he⟩, ?_⟩)
      simp [RoutedPool.step, onTask, ho.at_, moveCall, hr]
  · intro m s' hok hstep
    obtain ⟨-, c₁, hc₁, he⟩ := hok
    cases ho.at_.symm.trans hc₁
    obtain ⟨c', hmove, hc'⟩ := step_own ho.at_ hstep
    refine ⟨c', hc', ?_⟩
    rw [plan_move hplaced ho.closes he hmove]
    rfl

theorem run_move {s₀ : RoutedPool}
    (h : Run step (Undisturbed outcome answer elapsed i) s₀ s) (m : Move)
    (he : ∃ c, s.tasks[i]? = some c ∧ Expected outcome answer elapsed s.inner m c.task)
    (hstep : step (.move i m) s = some s') :
    Run step (Undisturbed outcome answer elapsed i) s₀ s' := by
  have hok : Undisturbed outcome answer elapsed i (.move i m) s := ⟨rfl, he⟩
  exact h.step hok hstep

theorem run_pools {s₀ : RoutedPool}
    (h : Run step (Undisturbed outcome answer elapsed i) s₀ s) (pool task : ℕ) (m : Pool.Move)
    (hstep : step (.pool pool task m) s = some s') :
    Run step (Undisturbed outcome answer elapsed i) s₀ s' := by
  have hok : Undisturbed outcome answer elapsed i (.pool pool task m) s := trivial
  exact h.step hok hstep

end Runs

/-- The seed `r` names the router `q` and the reader `a`, which is down; `q` names `b`. -/
def twoRouters (addr : String) : Except BoltError RoutingTable :=
  if addr = "r" then .ok ⟨300, none, ["q"], ["a"], []⟩
  else if addr = "q" then .ok ⟨300, none, [], ["b"], []⟩
  else .error (.closed "")

end RoutedPool
end Boltwire
