import Boltwire.Lib.Transition
import Boltwire.Value

namespace Boltwire
open Transition

structure PoolConfig where
  maxSize : ℕ
  /-- Idle connections older than this are closed on checkout. -/
  idleTimeout : Option ℕ
  /-- Connections older than this are recycled instead of reused. -/
  maxLifetime : Option ℕ

/-- By how long ago the connection was created and put into the pool. -/
def PoolConfig.expired (config : PoolConfig) (created idled : ℕ) : Bool :=
  config.idleTimeout.any (· < idled) || config.maxLifetime.any (· < created)

structure PoolInner where
  config : PoolConfig
  acquireTimeout : Option ℕ
  permits : ℕ
  /-- `permits.is_closed()` -/
  closed : Bool
  /-- The stack of idle connections, last pushed first. -/
  idle : List ℕ
  minted : ℕ
  /-- Ghost: the connections that have left the pool, closed or detached. -/
  gone : List ℕ

/-- The connection is dropped, or given away. -/
def PoolInner.discard (p : PoolInner) (conn : ℕ) : PoolInner := { p with gone := conn :: p.gone }

namespace Pool

/-- Where a call stands. An ended checkout has the error it returns, or was
cancelled. -/
inductive Task
  -- `get`
  | acquiring
  | popping
  | probing (conn : ℕ)
  | minting
  | ending (e : Option BoltError)
  | ended (e : Option BoltError)
  /-- Waited for a permit when the pool was closed, or came after that: `Closed`. -/
  | shutOut
  -- a `PooledConnection` and its `drop`
  | held (conn : ℕ)
  | testing (conn : ℕ)
  | pushing (conn : ℕ)
  | releasing
  | returned
  -- `close`
  | taking
  | parting (conns : List ℕ)
  | closed
  deriving Repr

inductive Move
  | acquire
  | pop (created idled : ℕ) (reusable : Bool)
  | probed (ok : Bool)
  | connected
  /-- A connect attempt failed; `again` if the backoff allows one more. -/
  | refused (e : BoltError) (again : Bool)
  | cancel
  | timeout
  | release
  | drop (reusable : Bool)
  | detach
  | test
  | push
  | take
  | goodbye

/-- A checkout is given up at an await; what it has in hand is dropped, the
permit last. -/
def abandon (e : Option BoltError) (p : PoolInner) : Task → Option (PoolInner × Task)
  | .acquiring => some (p, .ended e)
  | .probing conn => some (p.discard conn, .ending e)
  | .minting => some (p, .ending e)
  | _ => none

/-- Every semaphore operation, every `is_closed` test and every locked push, pop or take
of `idle` is one step. How long a connection was idle, whether it is reusable, how
the probe and the connect attempts end, and where a call is cancelled or timed out,
comes with the step. A free permit goes to any call that waits for one; tokio's
semaphore hands them out in the order of the waiting. -/
def move : Move → PoolInner → Task → Option (PoolInner × Task)
  | .acquire, p, .acquiring =>
    if p.closed then some (p, .shutOut)
    else match p.permits with
      | 0 => none
      | permits + 1 => some ({ p with permits }, .popping)
  | .pop created idled reusable, p, .popping =>
    match p.idle with
    | [] => some (p, .minting)
    | conn :: idle =>
      let p := { p with idle }
      if p.config.expired created idled || !reusable then some (p.discard conn, .popping)
      else some (p, .probing conn)
  | .probed ok, p, .probing conn =>
    if ok then some (p, .held conn) else some (p.discard conn, .popping)
  | .connected, p, .minting => some ({ p with minted := p.minted + 1 }, .held p.minted)
  | .refused e again, p, .minting =>
    -- bad credentials, TLS or config: retrying only delays the error
    if e.isTransient && again then some (p, .minting) else some (p, .ending (some e))
  | .cancel, p, t => abandon none p t
  | .timeout, p, t =>
    if p.acquireTimeout.isSome then abandon (some (.timeout "pool checkout")) p t else none
  | .release, p, .ending e => some ({ p with permits := p.permits + 1 }, .ended e)
  | .release, p, .releasing => some ({ p with permits := p.permits + 1 }, .returned)
  | .drop reusable, p, .held conn =>
    if reusable then some (p, .testing conn) else some (p.discard conn, .releasing)
  | .detach, p, .held conn => some (p.discard conn, .releasing)
  | .test, p, .testing conn =>
    -- pool closed while this was checked out
    if p.closed then some (p.discard conn, .releasing) else some (p, .pushing conn)
  | .push, p, .pushing conn => some ({ p with idle := conn :: p.idle }, .releasing)
  | .take, p, .taking => some ({ p with idle := [], gone := p.idle ++ p.gone }, .parting p.idle)
  | .goodbye, p, .parting (_ :: conns) => some (p, .parting conns)
  | .goodbye, p, .parting [] => some (p, .closed)
  | _, _, _ => none

inductive Action
  | get
  | close
  | move (i : ℕ) (m : Move)

end Pool

structure Pool where
  inner : PoolInner
  tasks : List Pool.Task

namespace Pool

/-- `Pool::with_config`, with the acquire timeout set or not. -/
def withConfig (config : PoolConfig) (acquireTimeout : Option ℕ) : Pool :=
  ⟨⟨config, acquireTimeout, max config.maxSize 1, false, [], 0, []⟩, []⟩

def new (maxSize : ℕ) : Pool := withConfig ⟨maxSize, some (5 * 60), some (60 * 60)⟩ none

def step : Action → Pool → Option Pool
  | .get, s => some { s with tasks := s.tasks ++ [.acquiring] }
  | .close, s => some ⟨{ s.inner with closed := true }, s.tasks ++ [.taking]⟩
  | .move i m, s => (onTask (move m) i s.inner s.tasks).map fun r => ⟨r.1, r.2⟩

inductive Moves (p : PoolInner) : Task → PoolInner → Task → Prop
  | closed : p.closed = true → Moves p .acquiring p .shutOut
  | acquired {permits : ℕ} : p.closed = false → p.permits = permits + 1 →
    Moves p .acquiring { p with permits } .popping
  | empty : p.idle = [] → Moves p .popping p .minting
  | stale {conn : ℕ} {idle : List ℕ} : p.idle = conn :: idle →
    Moves p .popping ({ p with idle }.discard conn) .popping
  | popped {conn : ℕ} {idle : List ℕ} : p.idle = conn :: idle →
    Moves p .popping { p with idle } (.probing conn)
  | probed {conn : ℕ} : Moves p (.probing conn) p (.held conn)
  | dead {conn : ℕ} : Moves p (.probing conn) (p.discard conn) .popping
  | connected : Moves p .minting { p with minted := p.minted + 1 } (.held p.minted)
  | again : Moves p .minting p .minting
  | refused {e : BoltError} : Moves p .minting p (.ending (some e))
  | unserved {e : Option BoltError} : Moves p .acquiring p (.ended e)
  | unprobed {conn : ℕ} {e : Option BoltError} :
      Moves p (.probing conn) (p.discard conn) (.ending e)
  | unminted {e : Option BoltError} : Moves p .minting p (.ending e)
  | ended {e : Option BoltError} :
    Moves p (.ending e) { p with permits := p.permits + 1 } (.ended e)
  | released : Moves p .releasing { p with permits := p.permits + 1 } .returned
  | dropped {conn : ℕ} : Moves p (.held conn) p (.testing conn)
  | discarded {conn : ℕ} : Moves p (.held conn) (p.discard conn) .releasing
  | late {conn : ℕ} : p.closed = true → Moves p (.testing conn) (p.discard conn) .releasing
  | tested {conn : ℕ} : p.closed = false → Moves p (.testing conn) p (.pushing conn)
  | pushed {conn : ℕ} : Moves p (.pushing conn) { p with idle := conn :: p.idle } .releasing
  | taken : Moves p .taking { p with idle := [], gone := p.idle ++ p.gone } (.parting p.idle)
  | parted {conn : ℕ} {conns : List ℕ} : Moves p (.parting (conn :: conns)) p (.parting conns)
  | shut : Moves p (.parting []) p .closed

theorem abandon_moves {e : Option BoltError} {p p' : PoolInner} {t t' : Task}
    (h : abandon e p t = some (p', t')) : Moves p t p' t' := by
  unfold abandon at h
  split at h <;> cases h
  · exact .unserved
  · exact .unprobed
  · exact .unminted

theorem move_moves {m : Move} {p p' : PoolInner} {t t' : Task}
    (h : move m p t = some (p', t')) : Moves p t p' t' := by
  unfold move at h
  split at h
  case h_1 =>
    split_ifs at h with hc
    · cases h
      exact .closed hc
    · split at h <;> cases h
      case h_2 permits hp => exact .acquired (by simpa using hc) hp
  case h_2 =>
    split at h
    case h_1 hidle =>
      cases h
      exact .empty hidle
    case h_2 conn idle hidle =>
      dsimp only at h
      split_ifs at h <;> cases h
      · exact .stale hidle
      · exact .popped hidle
  case h_3 =>
    split_ifs at h <;> cases h
    · exact .probed
    · exact .dead
  case h_4 => cases h; exact .connected
  case h_5 =>
    split_ifs at h <;> cases h
    · exact .again
    · exact .refused
  case h_6 => exact abandon_moves h
  case h_7 =>
    split_ifs at h
    exact abandon_moves h
  case h_8 => cases h; exact .ended
  case h_9 => cases h; exact .released
  case h_10 =>
    split_ifs at h <;> cases h
    · exact .dropped
    · exact .discarded
  case h_11 => cases h; exact .discarded
  case h_12 =>
    split_ifs at h with hc <;> cases h
    · exact .late hc
    · exact .tested (by simpa using hc)
  case h_13 => cases h; exact .pushed
  case h_14 => cases h; exact .taken
  case h_15 => cases h; exact .parted
  case h_16 => cases h; exact .shut
  case h_17 => cases h

/-- Only a push moves a call that is about to push. -/
theorem eq_push_of_pushing {m : Move} {p p' : PoolInner} {conn : ℕ} {t' : Task}
    (h : move m p (.pushing conn) = some (p', t')) : m = .push := by
  cases m with
  | push => rfl
  | timeout =>
    simp only [move, abandon] at h
    split_ifs at h
  | _ => cases h

inductive Steps (s : Pool) : Action → Pool → Prop
  | get : Steps s .get { s with tasks := s.tasks ++ [.acquiring] }
  | close : Steps s .close ⟨{ s.inner with closed := true }, s.tasks ++ [.taking]⟩
  | move {i : ℕ} {m : Move} {l₁ l₂ : List Task} {t t' : Task} {p' : PoolInner} :
    s.tasks = l₁ ++ t :: l₂ → l₁.length = i → move m s.inner t = some (p', t') →
    Steps s (.move i m) ⟨p', l₁ ++ t' :: l₂⟩

theorem step_steps {a : Action} {s s' : Pool} (h : step a s = some s') : Steps s a s' := by
  cases a with
  | get => cases h; exact .get
  | close => cases h; exact .close
  | move i m =>
    obtain ⟨⟨p', tasks'⟩, hon, rfl⟩ := Option.map_eq_some_iff.mp h
    obtain ⟨l₁, t, l₂, t', htasks, hlen, hmove, rfl⟩ := onTask_eq_some hon
    exact .move htasks hlen hmove

end Pool
end Boltwire
