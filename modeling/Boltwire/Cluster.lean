import Boltwire.Routers

namespace Boltwire
open Future Transition

structure Cluster where
  pool : RoutedPool
  /-- Ghost: the routers asked, each with what became of the connection to it. -/
  asked : List (String × Setup)

namespace Cluster

inductive Action
  /-- Anything but what a router answers. -/
  | of (a : RoutedPool.Action)
  /-- The call number `i` asks the router at hand. -/
  | ask (i : ℕ) (dialled : Except BoltError Unit) (auth : Option Auth) (passed : Bool)
    (sched : List Choice)

def new (seeds : List String) (maxPerHost : ℕ) : Cluster := ⟨.new seeds maxPerHost, []⟩

def nextRouter (s : Cluster) (i : ℕ) : Option String :=
  match s.pool.tasks[i]? with
  | some ⟨.routing _ (addr :: _) _, _⟩ => some addr
  | _ => none

def answered : RoutedPool.Action → Option ℕ
  | .move i (.route _) => some i
  | _ => none

def reply : Outcome BoltError RoutingTable → RoutedPool.Move
  | .ok table => .route (.ok table)
  | .err e => .route (.error e)
  | .dropped => .cancel

section
variable (L : String → Listener) (db : Option String)

/-- An answer to `refresh` is not any table, but what a connection to the router at hand
brings back. -/
def step : Action → Cluster → Option Cluster
  | .of a, s =>
    if ((answered a).bind s.nextRouter).isSome then none
    else (RoutedPool.step a s.pool).map fun pool => { s with pool }
  | .ask i dialled auth passed sched, s =>
    match s.nextRouter i with
    | none => none
    | some addr =>
      let (o, setup) := Setup.routeVia (L addr).negotiate (L addr).peer db dialled auth passed
        (.opened sched)
      (RoutedPool.step (.move i (reply o)) s.pool).map fun pool =>
        ⟨pool, s.asked ++ [(addr, setup)]⟩

end

/-- The router lists the address under this role. -/
def Names (L : Listener) (db : Option String) (role addr : String) : Prop :=
  ∃ auth metadata servers, L.Routes auth db metadata ∧
    RoutingTable.serverList metadata = some servers ∧
    addr ∈ servers.flatMap (RoutingTable.listed role)

section
variable (L : String → Listener) (db : Option String) (seeds : List String)

/-- A seed, or named as a router by a router. -/
inductive Router : String → Prop
  | seed {addr : String} : addr ∈ seeds → Router addr
  | named {router addr : String} : Router router → Names (L router) db "ROUTE" addr →
      Router addr

/-- Named by a router, under this role. -/
def Serves (role addr : String) : Prop := ∃ router, Router L db seeds router ∧
    Names (L router) db role addr

def Given (table : RoutingTable) : Prop :=
  ∃ router auth, Router L db seeds router ∧ (L router).Gives auth db table

/-- A table that a router gave, without the servers that were evicted since then. -/
def Current (s : RoutedInner) : Prop :=
  (s.fetched = false ∧ s.table = ⟨0, none, [], [], []⟩) ∨
    ∃ table evicted, Given L db seeds table ∧ s.table = table.without evicted

end

def role : AccessMode → String
  | .read => "READ"
  | .write => "WRITE"

section
variable {L : String → Listener} {db : Option String} {seeds : List String}

theorem Given.routers {table : RoutingTable} (h : Given L db seeds table) :
    ∀ addr ∈ table.routers, Router L db seeds addr := by
  obtain ⟨router, auth, hr, metadata, hm, ht⟩ := h
  obtain ⟨servers, hs, hrouters, -⟩ := RoutingTable.fromMeta_eq_ok ht
  intro addr haddr
  exact .named hr ⟨auth, metadata, servers, hm, hs, hrouters ▸ haddr⟩

theorem Given.addrs {table : RoutingTable} (h : Given L db seeds table) (mode : AccessMode) :
    ∀ addr ∈ table.addrs mode, Serves L db seeds (role mode) addr := by
  obtain ⟨router, auth, hr, metadata, hm, ht⟩ := h
  obtain ⟨servers, hs, -, hreaders, hwriters⟩ := RoutingTable.fromMeta_eq_ok ht
  intro addr haddr
  refine ⟨router, hr, auth, metadata, servers, hm, hs, ?_⟩
  cases mode with
  | read => exact hreaders ▸ haddr
  | write => exact hwriters ▸ haddr

theorem Current.routers {s : RoutedInner} (h : Current L db seeds s) :
    ∀ addr ∈ s.table.routers, Router L db seeds addr := by
  intro addr haddr
  rcases h with ⟨-, heq⟩ | ⟨table, evicted, hgiven, heq⟩
  · rw [heq] at haddr
    cases haddr
  · rw [heq] at haddr
    exact hgiven.routers addr (List.mem_of_mem_filter haddr)

theorem Current.addrs {s : RoutedInner} (h : Current L db seeds s) (mode : AccessMode) :
    ∀ addr ∈ s.addrs mode, Serves L db seeds (role mode) addr := by
  rw [s.addrs_eq]
  intro addr haddr
  rcases h with ⟨-, heq⟩ | ⟨table, evicted, hgiven, heq⟩
  · rw [heq] at haddr
    cases mode <;> cases haddr
  · rw [heq] at haddr
    apply hgiven.addrs mode addr
    cases mode <;> exact List.mem_of_mem_filter haddr

theorem Current.evict {s : RoutedInner} (h : Current L db seeds s) (addr : String) :
    Current L db seeds (s.evict addr) := by
  rcases h with ⟨hfetched, heq⟩ | ⟨table, evicted, hgiven, heq⟩
  · left
    refine ⟨hfetched, ?_⟩
    rw [RoutedInner.evict, heq]
    rfl
  · right
    refine ⟨table, evicted ++ [addr], hgiven, ?_⟩
    rw [← RoutingTable.remove_without, ← heq]
    rfl

variable (L db seeds) in
/-- The call has its routers, its table and its servers from those who may name them. -/
def Honest : RoutedPool.Task → Prop
  | .routing _ candidates _ => ∀ addr ∈ candidates, Router L db seeds addr
  | .storing _ table => Given L db seeds table
  | .counting mode _ addrs => ∀ addr ∈ addrs, Serves L db seeds (role mode) addr
  | .trying lap | .getting lap _ _ | .evicting lap =>
    ∀ addr ∈ lap.addrs, Serves L db seeds (role lap.mode) addr
  | _ => True

variable (L db seeds) in
structure Inv (s : RoutedInner) : Prop where
  seeded : s.seeds = seeds
  current : Current L db seeds s
  dialled : ∀ q ∈ s.made, ∃ mode, Serves L db seeds (role mode) q.1

theorem lap_addr_mem {lap : RoutedPool.Lap} (h : lap.i < lap.addrs.length) :
    lap.addr ∈ lap.addrs := by
  have hlt : (lap.start + lap.i) % 2 ^ 64 % lap.addrs.length < lap.addrs.length :=
    Nat.mod_lt _ (by omega)
  rw [RoutedPool.Lap.addr, List.getD_eq_getElem?_getD, List.getElem?_eq_getElem hlt]
  exact List.getElem_mem hlt

theorem Inv.onPool {s s' : RoutedInner} {pool : ℕ} {a : Pool.Action} (hi : Inv L db seeds s)
    (h : s.onPool pool a = some s') : Inv L db seeds s' := by
  obtain ⟨addr, p, p', hp, -, rfl⟩ := RoutedPool.onPool_eq_some h
  refine ⟨hi.seeded, hi.current, ?_⟩
  intro q hq
  rcases List.mem_or_eq_of_mem_set hq with hq | rfl
  · exact hi.dialled q hq
  · exact hi.dialled (addr, p) (List.mem_of_getElem? hp)

theorem Inv.poolFor {s : RoutedInner} {addr : String} {mode : AccessMode}
    (hi : Inv L db seeds s) (h : Serves L db seeds (role mode) addr) :
    Inv L db seeds (s.poolFor addr).1 := by
  unfold RoutedInner.poolFor
  split
  case h_1 => exact hi
  case h_2 =>
    refine ⟨hi.seeded, hi.current, ?_⟩
    intro q hq
    rcases List.mem_append.mp hq with hq | hq
    · exact hi.dialled q hq
    · rw [List.mem_singleton.mp hq]
      exact ⟨mode, h⟩

theorem honest_nextLap (mode : AccessMode) (second : Bool) :
    Honest L db seeds (RoutedPool.nextLap mode second) := by
  cases second <;> trivial

section Move
variable {s s' : RoutedInner} {t t' : RoutedPool.Task} {m : RoutedPool.Move}

/-- A move takes addresses only from the table, and the table from an answer. -/
theorem inv_move (hi : Inv L db seeds s) (hp : RoutedPool.Placed s t) (ht : Honest L db seeds t)
    (hroute : ∀ caller addr candidates last table,
      t = .routing caller (addr :: candidates) last →
      m = .route (.ok table) → Given L db seeds table)
    (h : RoutedPool.move m s t = some (s', t')) : Inv L db seeds s' ∧ Honest L db seeds t' := by
  unfold RoutedPool.move at h
  split at h
  case h_1 =>
    cases h
    refine ⟨hi, ?_⟩
    split_ifs <;> trivial
  case h_2 =>
    cases h
    refine ⟨hi, ?_⟩
    split_ifs <;> trivial
  case h_3 caller =>
    cases h
    refine ⟨hi, ?_⟩
    intro addr haddr
    rcases List.mem_append.mp haddr with haddr | haddr
    · exact hi.current.routers addr haddr
    · exact .seed (hi.seeded ▸ haddr)
  case h_4 table caller addr candidates last =>
    cases h
    exact ⟨hi, hroute caller addr candidates last table rfl rfl⟩
  case h_5 =>
    cases h
    exact ⟨hi, fun addr haddr => ht addr (List.mem_cons_of_mem _ haddr)⟩
  case h_6 =>
    cases h
    exact ⟨hi, trivial⟩
  case h_7 caller table =>
    cases h
    refine ⟨⟨hi.seeded, .inr ⟨table, [], ht, (RoutingTable.without_nil _).symm⟩,
      hi.dialled⟩, ?_⟩
    cases caller <;> trivial
  case h_8 mode second =>
    cases h
    refine ⟨hi, ?_⟩
    split_ifs
    · exact honest_nextLap mode second
    · exact hi.current.addrs mode
  case h_9 =>
    cases h
    exact ⟨⟨hi.seeded, hi.current, hi.dialled⟩, ht⟩
  case h_10 lap =>
    obtain ⟨hget, rfl⟩ := RoutedPool.poolFor_of_move h
    exact ⟨(hi.poolFor (ht lap.addr (lap_addr_mem hp))).onPool hget, ht⟩
  case h_11 lap pool task =>
    obtain ⟨pt, -, hr⟩ := Option.bind_eq_some_iff.mp h
    obtain ⟨t₁, hresume, heq⟩ := Option.map_eq_some_iff.mp hr
    cases heq
    refine ⟨hi, ?_⟩
    unfold RoutedPool.resume at hresume
    split at hresume
    case h_2 =>
      split_ifs at hresume <;> cases hresume
      · exact ht
      · trivial
    case h_3 =>
      cases hresume
      exact ht
    case h_5 => cases hresume
    all_goals
      cases hresume
      trivial
  case h_12 lap =>
    cases h
    refine ⟨⟨hi.seeded, hi.current.evict lap.addr, hi.dialled⟩, ?_⟩
    rw [RoutedPool.nextAddr]
    split_ifs
    · exact ht
    · exact honest_nextLap lap.mode lap.second
  case h_13 =>
    obtain ⟨t₁, hcancel, heq⟩ := Option.map_eq_some_iff.mp h
    cases heq
    refine ⟨hi, ?_⟩
    unfold RoutedPool.cancel at hcancel
    split at hcancel <;> cases hcancel <;> trivial
  case h_14 =>
    split_ifs at h
    cases h
    exact ⟨⟨hi.seeded, hi.current, hi.dialled⟩, trivial⟩
  case h_15 =>
    cases h
    exact ⟨hi, trivial⟩
  case h_16 =>
    obtain ⟨s₁, hclose, heq⟩ := Option.map_eq_some_iff.mp h
    cases heq
    exact ⟨hi.onPool hclose, trivial⟩
  case h_17 =>
    split at h <;> cases h
    exact ⟨hi, trivial⟩
  case h_18 => cases h

end Move

variable (L db seeds) in
structure Honestly (s : Cluster) : Prop where
  inner : Inv L db seeds s.pool.inner
  calls : ∀ c ∈ s.pool.tasks, Honest L db seeds c.task
  asked : ∀ q ∈ s.asked, Router L db seeds q.1

variable {s s' : Cluster}

/-- A step of the cluster is one of the routed pool. -/
theorem pool_step {a : Action} (h : step L db a s = some s') :
    ∃ b, RoutedPool.step b s.pool = some s'.pool := by
  cases a with
  | of a =>
    rw [step] at h
    split_ifs at h
    obtain ⟨pool, hstep, rfl⟩ := Option.map_eq_some_iff.mp h
    exact ⟨a, hstep⟩
  | ask i dialled auth passed sched =>
    rw [step] at h
    split at h
    case h_1 => cases h
    case h_2 =>
      obtain ⟨pool, hstep, rfl⟩ := Option.map_eq_some_iff.mp h
      exact ⟨_, hstep⟩

theorem reaches_routedPool {maxPerHost : ℕ} (h : Reaches (step L db) (new seeds maxPerHost) s) :
    Reaches RoutedPool.step (RoutedPool.new seeds maxPerHost) s.pool :=
  h.refines Cluster.pool (I := fun _ => True) trivial (fun _ _ _ _ _ _ => trivial)
    fun _ _ _ _ _ hstep => .inr (pool_step hstep)

theorem nextRouter_eq_some {i : ℕ} {addr : String} (h : s.nextRouter i = some addr) :
    ∃ caller candidates last shutOut,
      s.pool.tasks[i]? = some ⟨.routing caller (addr :: candidates) last, shutOut⟩ := by
  unfold nextRouter at h
  split at h
  case h_1 caller addr candidates last shutOut hc =>
    cases h
    exact ⟨caller, candidates, last, shutOut, hc⟩
  case h_2 => cases h

theorem nextRouter_routing {i : ℕ} {c : RoutedPool.Call} {caller : RoutedPool.Caller}
    {addr : String} {candidates : List String} {last : BoltError} (hc : s.pool.tasks[i]? = some c)
    (ht : c.task = .routing caller (addr :: candidates) last) : s.nextRouter i = some addr := by
  obtain ⟨t, shutOut⟩ := c
  cases ht
  rw [nextRouter, hc]

/-- A step of the routed pool, where an answer comes from a router. -/
theorem Honestly.step {a : RoutedPool.Action} {pool : RoutedPool} (hi : Honestly L db seeds s)
    (hp : RoutedPool.InPlace s.pool)
    (hroute : ∀ i table addr, a = .move i (.route (.ok table)) → s.nextRouter i = some addr →
      Given L db seeds table)
    (h : RoutedPool.step a s.pool = some pool) :
    Inv L db seeds pool.inner ∧ ∀ c ∈ pool.tasks, Honest L db seeds c.task := by
  cases a with
  | move i m =>
    obtain ⟨⟨inner, tasks⟩, hon, rfl⟩ := Option.map_eq_some_iff.mp h
    obtain ⟨l₁, c, l₂, c', htasks, hlen, hmove, rfl⟩ := onTask_eq_some hon
    obtain ⟨⟨inner', t'⟩, hm, heq⟩ := Option.map_eq_some_iff.mp hmove
    cases heq
    have hc : s.pool.tasks[i]? = some c := by
      rw [htasks, ← hlen, List.getElem?_append_right (Nat.le_refl _), Nat.sub_self]
      rfl
    have hmem := List.mem_of_getElem? hc
    have hmoved := inv_move hi.inner (hp.placed c hmem) (hi.calls c hmem)
      (fun caller addr candidates last table ht hm' =>
        hroute i table addr (hm' ▸ rfl) (nextRouter_routing hc ht)) hm
    refine ⟨hmoved.1, forall_replace (t := c) ?_ hmoved.2⟩
    rw [← htasks]
    exact hi.calls
  | pool pool task m =>
    obtain ⟨inner, hon, rfl⟩ := Option.map_eq_some_iff.mp h
    exact ⟨hi.inner.onPool hon, hi.calls⟩
  | close =>
    cases h
    exact ⟨⟨hi.inner.seeded, hi.inner.current, hi.inner.dialled⟩,
      forall_concat hi.calls trivial⟩
  | acquire mode =>
    cases h
    exact ⟨hi.inner, forall_concat hi.calls trivial⟩
  | refresh =>
    cases h
    exact ⟨hi.inner, forall_concat hi.calls trivial⟩

theorem reply_eq_ok {o : Outcome BoltError RoutingTable} {table : RoutingTable}
    (h : reply o = .route (.ok table)) : o = .ok table := by
  cases o <;> cases h
  rfl

theorem honestly_step {a : Action} (hi : Honestly L db seeds s) (hp : RoutedPool.InPlace s.pool)
    (h : Cluster.step L db a s = some s') : Honestly L db seeds s' := by
  cases a with
  | of a =>
    rw [Cluster.step] at h
    split_ifs at h with hanswered
    obtain ⟨pool, hstep, rfl⟩ := Option.map_eq_some_iff.mp h
    have hstep' := hi.step hp (fun i table addr ha hnext => ?_) hstep
    · exact ⟨hstep'.1, hstep'.2, hi.asked⟩
    · rw [ha, answered, Option.bind_some, hnext] at hanswered
      exact absurd rfl hanswered
  | ask i dialled auth passed sched =>
    rw [Cluster.step] at h
    split at h
    case h_1 => cases h
    case h_2 router hnext =>
      cases hvia : Setup.routeVia (L router).negotiate (L router).peer db dialled auth passed
          (.opened sched) with
      | mk o setup =>
        rw [hvia] at h
        obtain ⟨pool, hstep, rfl⟩ := Option.map_eq_some_iff.mp h
        obtain ⟨caller, candidates, last, shutOut, hc⟩ := nextRouter_eq_some hnext
        have hrouter : Router L db seeds router :=
          hi.calls _ (List.mem_of_getElem? hc) router (List.mem_cons_self ..)
        have hpost := wp_of_eq
          (Setup.post_routeVia (L router) auth db dialled passed sched) hvia
        have hstep' := hi.step hp (fun j table addr ha _ => ?_) hstep
        · exact ⟨hstep'.1, hstep'.2, forall_concat hi.asked hrouter⟩
        · rw [reply_eq_ok (RoutedPool.Action.move.inj ha).2] at hpost
          exact ⟨router, auth, hrouter, hpost⟩

end

def firstCheckout : List Action :=
  [.of (.acquire .read), .of (.move 0 .begin), .of (.move 0 (.fresh 0)), .of (.move 0 .ask),
    .ask 0 (.ok ()) none false (List.replicate 20 (.ready 1000)), .of (.move 0 .store),
    .of (.move 0 .list), .of (.move 0 .count), .of (.move 0 .poolFor)]

end Cluster
end Boltwire
