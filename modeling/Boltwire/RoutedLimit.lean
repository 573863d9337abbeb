import Boltwire.PoolSafety
import Boltwire.RoutedPool

namespace Boltwire.RoutedPool
open Transition

/-- Connections to a server that its pools gave out, probe or have idle. -/
def live (s : RoutedPool) (addr : String) : ℕ :=
  total (fun q : String × Pool => if q.1 = addr then q.2.places.length else 0) s.inner.made

/-- No pool is evicted that somebody uses, and the routed pool is not closed. -/
def evictsUnused : Action → RoutedPool → Bool
  | .move i .evict, s => match s.tasks[i]? with
    | some ⟨.evicting lap, _⟩ => match s.inner.poolOf lap.addr with
      | some pool => (s.inner.made[pool]?).all fun q => q.2.unused
      | none => true
    | _ => true
  | .close, _ => false
  | _, _ => true

structure LimitInv (s : RoutedInner) : Prop where
  keys : (s.pools.map Prod.fst).Nodup
  mapped : ∀ addr pool, (addr, pool) ∈ s.pools → ∃ p, s.made[pool]? = some (addr, p)
  unmapped : ∀ (k : ℕ) addr p, s.made[k]? = some (addr, p) → (addr, k) ∈ s.pools ∨
    p.unused = true
  reached : ∀ (k : ℕ) addr p, s.made[k]? = some (addr, p) →
    Reaches Pool.step (Pool.new s.maxPerHost) p

section Step
variable {s s' : RoutedInner}

/-- The pool at hand has taken a step, which is a `get` only if it is in the map. -/
theorem LimitInv.onPool {pool : ℕ} {a : Pool.Action} (hi : LimitInv s)
    (h : s.onPool pool a = some s')
    (hget : a = .get → ∃ addr, (addr, pool) ∈ s.pools) : LimitInv s' := by
  obtain ⟨addr, p, p', hp, hstep, rfl⟩ := onPool_eq_some h
  have hlt := (List.getElem?_eq_some_iff.mp hp).1
  have hmade : ∀ (k : ℕ) addr₁ p₁,
      (s.made.set pool (addr, p'))[k]? = some (addr₁, p₁) →
      s.made[k]? = some (addr₁, p₁) ∨ k = pool ∧ addr₁ = addr ∧ p₁ = p' := by
    intro k addr₁ p₁ hk
    by_cases hne : pool = k
    · subst hne
      rw [List.getElem?_set_self hlt] at hk
      cases hk
      exact .inr ⟨rfl, rfl, rfl⟩
    · rw [List.getElem?_set_ne hne] at hk
      exact .inl hk
  refine ⟨hi.keys, ?_, ?_, ?_⟩
  · intro addr₁ k hk
    obtain ⟨p₁, hp₁⟩ := hi.mapped addr₁ k hk
    by_cases hne : pool = k
    · subst hne
      cases hp.symm.trans hp₁
      exact ⟨p', List.getElem?_set_self hlt⟩
    · exact ⟨p₁, by rw [List.getElem?_set_ne hne, hp₁]⟩
  · intro k addr₁ p₁ hk
    rcases hmade k addr₁ p₁ hk with hk | ⟨rfl, rfl, rfl⟩
    · exact hi.unmapped k addr₁ p₁ hk
    · rcases hi.unmapped k addr₁ p hp with hin | hunused
      · exact .inl hin
      -- a pool out of the map is unused, and only a `get` could change that
      by_cases ha : a = .get
      · obtain ⟨addr₂, hin⟩ := hget ha
        obtain ⟨p₂, hp₂⟩ := hi.mapped addr₂ k hin
        cases hp.symm.trans hp₂
        exact .inl hin
      · exact .inr (Pool.unused_step hunused ha (Pool.step_steps hstep))
  · intro k addr₁ p₁ hk
    rcases hmade k addr₁ p₁ hk with hk | ⟨rfl, rfl, rfl⟩
    · exact hi.reached k addr₁ p₁ hk
    · exact (hi.reached k addr₁ p hp).step trivial hstep

theorem LimitInv.poolFor (hi : LimitInv s) (addr : String) :
    LimitInv (s.poolFor addr).1 ∧ (addr, (s.poolFor addr).2) ∈ (s.poolFor addr).1.pools := by
  unfold RoutedInner.poolFor
  split
  case h_1 pool hpool => exact ⟨hi, (lookup_eq_some hi.keys).mp hpool⟩
  case h_2 hnone =>
    -- a pool is made only for an address that has none in the map
    have hnew : addr ∉ s.pools.map Prod.fst := by
      intro hmem
      obtain ⟨⟨a, pool⟩, hq, rfl⟩ := List.mem_map.mp hmem
      rw [RoutedInner.poolOf, (lookup_eq_some hi.keys).mpr hq] at hnone
      cases hnone
    have hmade : ∀ (k : ℕ) q, (s.made ++ [(addr, Pool.new s.maxPerHost)])[k]? = some q →
        s.made[k]? = some q ∨ k = s.made.length ∧ q = (addr, Pool.new s.maxPerHost) := by
      intro k q hk
      by_cases hlt : k < s.made.length
      · rw [List.getElem?_append_left hlt] at hk
        exact .inl hk
      · rw [List.getElem?_append_right (by omega), List.getElem?_singleton] at hk
        split_ifs at hk with h0
        cases hk
        exact .inr ⟨by omega, rfl⟩
    refine ⟨⟨?_, ?_, ?_, ?_⟩, by simp⟩
    · rw [List.map_append, List.nodup_append]
      refine ⟨hi.keys, by simp, ?_⟩
      intro a ha b hb hab
      rw [List.map_singleton, List.mem_singleton] at hb
      rw [hab, hb] at ha
      exact hnew ha
    · intro addr₁ pool hq
      rcases List.mem_append.mp hq with hq | hq
      · obtain ⟨p, hp⟩ := hi.mapped addr₁ pool hq
        have hlt := (List.getElem?_eq_some_iff.mp hp).1
        exact ⟨p, by rw [List.getElem?_append_left hlt, hp]⟩
      · cases List.mem_singleton.mp hq
        exact ⟨_, List.getElem?_concat_length⟩
    · intro k addr₁ p hk
      rcases hmade k _ hk with hk | ⟨rfl, hq⟩
      · exact (hi.unmapped k addr₁ p hk).imp (List.mem_append_left _) id
      · cases hq
        exact .inl (by simp)
    · intro k addr₁ p hk
      rcases hmade k _ hk with hk | ⟨-, hq⟩
      · exact hi.reached k addr₁ p hk
      · cases hq
        exact .refl _

theorem LimitInv.evict (hi : LimitInv s) {addr : String}
    (hunused : ∀ (pool : ℕ) p, (addr, pool) ∈ s.pools → s.made[pool]? = some (addr, p) →
      p.unused = true) : LimitInv (s.evict addr) := by
  have hsub : (s.evict addr).pools.Sublist s.pools := List.filter_sublist
  refine ⟨(hsub.map Prod.fst).nodup hi.keys, ?_, ?_, hi.reached⟩
  · intro addr₁ pool hq
    exact hi.mapped addr₁ pool (hsub.subset hq)
  · intro k addr₁ p hk
    rcases hi.unmapped k addr₁ p hk with hin | hp
    · by_cases ha : addr₁ = addr
      · subst ha
        exact .inr (hunused k p hin hk)
      · exact .inl (List.mem_filter.mpr ⟨hin, by simpa using ha⟩)
    · exact .inr hp

end Step

structure Limited (maxPerHost : ℕ) (s : RoutedPool) : Prop where
  pools : LimitInv s.inner
  closing : ∀ c ∈ s.tasks, c.task.closing = false
  maxPerHost : s.inner.maxPerHost = maxPerHost

theorem Limited.call {maxPerHost : ℕ} {s : RoutedPool} (hi : Limited maxPerHost s) {c : Call}
    (hc : c.task.closing = false) : Limited maxPerHost { s with tasks := s.tasks ++ [c] } :=
  ⟨hi.pools, forall_concat hi.closing hc, hi.maxPerHost⟩

theorem Limited.move {maxPerHost : ℕ} {inner inner' : RoutedInner} {l₁ l₂ : List Call}
    {c c' : Call} (hi : Limited maxPerHost ⟨inner, l₁ ++ c :: l₂⟩) (hinv : LimitInv inner')
    (hmax : inner'.maxPerHost = inner.maxPerHost) (hc : c'.task.closing = false) :
    Limited maxPerHost ⟨inner', l₁ ++ c' :: l₂⟩ :=
  ⟨hinv, forall_replace hi.closing hc, hmax.trans hi.maxPerHost⟩

theorem Limited.step {maxPerHost : ℕ} {s s' : RoutedPool} {a : Action} (hi : Limited maxPerHost s)
    (hok : evictsUnused a s = true) (h : Steps s a s') : Limited maxPerHost s' := by
  cases h with
  | acquire => exact hi.call rfl
  | refresh => exact hi.call rfl
  -- close drains the map and leaves the connections checked out to pools nobody finds
  | close => cases hok
  | pool hon =>
    obtain ⟨-, hmax⟩ := onPool_pools hon
    exact ⟨hi.pools.onPool hon (by simp), hi.closing, hmax.trans hi.maxPerHost⟩
  | @move i m l₁ l₂ c t' inner' htasks hlen hm =>
    obtain ⟨inner, tasks⟩ := s
    obtain rfl : tasks = l₁ ++ c :: l₂ := htasks
    have hat : (l₁ ++ c :: l₂)[i]? = some c := by
      rw [← hlen]
      simp
    have hclosing := hi.closing c (by simp)
    obtain ⟨t, shut⟩ := c
    cases hm with
    | calm hsame hcalm _ =>
      refine hi.move ?_ hsame.maxPerHost ?_
      · obtain ⟨hkeys, hmapped, hunmapped, hreached⟩ := hi.pools
        refine ⟨hsame.pools ▸ hkeys, ?_, ?_, ?_⟩
        · rw [hsame.pools, hsame.made]
          exact hmapped
        · rw [hsame.pools, hsame.made]
          exact hunmapped
        · rw [hsame.made, hsame.maxPerHost]
          exact hreached
      · by_contra hc
        rw [hcalm.closing (by simpa using hc)] at hclosing
        cases hclosing
    | told _ => exact hi.move hi.pools rfl rfl
    | @got lap s₁ s₂ pool task hfor hget =>
      obtain ⟨hinv, hin⟩ := hi.pools.poolFor lap.addr
      rw [hfor] at hinv hin
      have hmax : s₁.maxPerHost = inner.maxPerHost := by
        have hfst : s₁ = (inner.poolFor lap.addr).1 := (congrArg Prod.fst hfor).symm
        rw [hfst, RoutedInner.poolFor]
        split <;> rfl
      exact hi.move (hinv.onPool hget fun _ => ⟨_, hin⟩) ((onPool_pools hget).2.trans hmax) rfl
    -- the pool forgotten has nothing idle or checked out, so it hides no connection
    | @evicted lap =>
      refine hi.move (hi.pools.evict ?_) rfl (Task.closing_of_closes (closes_nextAddr lap))
      intro pool p hin hp
      have hpool : inner.poolOf lap.addr = some pool := (lookup_eq_some hi.pools.keys).mpr hin
      have hp' : inner.made[pool]? = some (lap.addr, p) := hp
      simpa [evictsUnused, hat, hpool, hp'] using hok
    | drained _ => cases hclosing
    | shut _ => cases hclosing

theorem limited_new (seeds : List String) (maxPerHost : ℕ) :
    Limited maxPerHost (new seeds maxPerHost) :=
  ⟨⟨List.nodup_nil, by simp [new], by simp [new], by simp [new]⟩, by simp [new], rfl⟩

/-- Only the pool in the map has connections to the server. -/
theorem LimitInv.live_le {s : RoutedPool} (hi : LimitInv s.inner) (addr : String) :
    s.live addr ≤ max s.inner.maxPerHost 1 := by
  apply total_le_of_unique
  · rintro ⟨addr', p⟩ hq
    obtain ⟨k, hk, heq⟩ := List.getElem_of_mem hq
    have hreach := hi.reached k addr' p (by rw [List.getElem?_eq_getElem hk, heq])
    split_ifs
    · exact Pool.length_places_le hreach
    · exact Nat.zero_le _
  · rintro i j ⟨addr₁, p₁⟩ ⟨addr₂, p₂⟩ h₁ h₂ hw₁ hw₂
    have hentry : ∀ (k : ℕ) addr' p, s.inner.made[k]? = some (addr', p) →
        (if addr' = addr then p.places.length else 0) ≠ 0 →
        s.inner.pools.lookup addr = some k := by
      intro k addr' p hk hw
      split_ifs at hw with ha
      · subst ha
        rcases hi.unmapped k addr' p hk with hin | hunused
        · exact (lookup_eq_some hi.keys).mpr hin
        · rw [Pool.places_of_unused hunused] at hw
          exact absurd rfl hw
      · exact absurd rfl hw
    have hi₁ := hentry i addr₁ p₁ h₁ hw₁
    rw [hentry j addr₂ p₂ h₂ hw₂] at hi₁
    cases hi₁
    rfl

/-- In every run in which no pool is evicted that is in use, no server has more
connections than `max_per_host`, or 1. -/
theorem limit_per_server (seeds : List String) (maxPerHost : ℕ) {s : RoutedPool}
    (h : Run RoutedPool.step (fun a s => evictsUnused a s = true) (new seeds maxPerHost) s)
    (addr : String) : s.live addr ≤ max maxPerHost 1 := by
  have hi : Limited maxPerHost s := h.invariant (limited_new seeds maxPerHost)
    fun _ _ _ hi hok hstep => hi.step hok (step_steps hstep)
  have hlive := hi.pools.live_le addr
  rwa [hi.maxPerHost] at hlive

def toTable (i : ℕ) : List Action := [.move i .begin, .move i (.fresh 0)]

def evicts (i pool task : ℕ) : List Action :=
  List.flatten [refused pool task, [.move i .resume, .move i .evict], fetches i, toPool i]

/-- A server is evicted when its first connection fails, and comes back. -/
theorem limit_per_server_evicted : ∃ s,
    Run RoutedPool.step (fun a s => evictsUnused a s = true) (new ["a"] 2) s ∧
    s.inner.made.length = 2 ∧ s.live "a" = 1 ∧ s.live "a" ≤ 2 := by
  have hplay : (play RoutedPool.step evictsUnused (new ["a"] 2)
      (List.flatten [[.acquire .write], toTable 0, fetches 0, toPool 0, evicts 0 0 0,
        connects 1 0])).map (fun s => s.inner.made.length == 2 && s.live "a" == 1) = some true := by
    decide +kernel
  obtain ⟨s, hrun, hlook⟩ := exists_of_play (fun a s => evictsUnused a s = true)
    (fun _ _ h => h) hplay
  obtain ⟨hmade, hlive⟩ : s.inner.made.length = 2 ∧ s.live "a" = 1 := by simpa using hlook
  exact ⟨s, hrun, hmade, hlive, limit_per_server ["a"] 2 hrun "a"⟩

def staysOpen : Action → Bool
  | .close => false
  | _ => true

/-- One connection is in use when another attempt fails: the server is evicted
with its pool, comes back with the next table, and gets a second pool. -/
theorem limit_exceeded_after_eviction :
    ¬ ∀ (seeds : List String) (maxPerHost : ℕ) (s : RoutedPool),
      Run RoutedPool.step (fun a _ => a ≠ .close) (new seeds maxPerHost) s →
      ∀ addr, s.live addr ≤ max maxPerHost 1 := by
  intro hall
  have hplay : (play RoutedPool.step (fun a _ => staysOpen a)
      (new ["a"] 2) (List.flatten [[.acquire .write, .acquire .write, .acquire .write],
        toTable 0, fetches 0, toPool 0, connects 0 0, toTable 1, toPool 1, evicts 1 0 1,
        connects 1 0, toTable 2, toPool 2, connects 1 1])).map (fun s => s.live "a" == 3) =
          some true := by
    decide +kernel
  obtain ⟨s, hrun, hlook⟩ := exists_of_play (fun a _ => a ≠ .close)
    (fun a s h => by rintro rfl; cases h) hplay
  have hle := hall ["a"] 2 s hrun "a"
  rw [show s.live "a" = 3 by simpa using hlook] at hle
  exact absurd hle (by decide)

end Boltwire.RoutedPool
