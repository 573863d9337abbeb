import Boltwire.Connection
import Boltwire.RoutedPool

namespace Boltwire
open Transition

namespace Execute

/-- Cluster reshaped under us; the routing table is stale. -/
def clusterMoved : BoltError → Bool
  | .failure code _ => containsText code "NotALeader" || containsText code "ForbiddenOnFollower"
  | _ => false

def isTransient (e : BoltError) : Bool := e.isTransient || clusterMoved e

inductive Task
  -- `try_once`
  | acquiring
  | reading
  | beginning (opts : TxOptions)
  | working (opts : TxOptions)
  | rollingBack (e : BoltError)
  | committing (opts : TxOptions)
  | merging (bookmark : String)
  -- between two attempts
  | refreshing (e : BoltError)
  | waiting (e : BoltError)
  /-- Returned a value; its transaction got this bookmark. -/
  | returned (bookmark : Option String)
  | failed (e : BoltError)
  | cancelled

structure Call where
  mode : AccessMode
  attempt : ℕ
  task : Task
  /-- Ghost: attempts whose COMMIT the server has applied. -/
  applied : ℕ

def Call.goto (c : Call) (task : Task) : Call := { c with task }

@[simp] theorem Call.goto_task (c : Call) (task : Task) : (c.goto task).task = task := rfl

@[simp] theorem Call.goto_attempt (c : Call) (task : Task) :
    (c.goto task).attempt = c.attempt := rfl

structure Inner where
  db : Option String
  bookmarks : List String
  /-- Ghost: the bookmark of every transaction known to be committed, with its BEGIN. -/
  commits : List (String × Request)

def Inner.options (s : Inner) (mode : AccessMode) : TxOptions :=
  { TxOptions.default with db := s.db, readOnly := mode == .read, bookmarks := s.bookmarks }

/-- Add the bookmark of a commit; 16 are kept. -/
def mergeBookmark (bookmarks : List String) (bookmark : String) : List String :=
  if bookmark ∈ bookmarks then bookmarks
  else
    let bookmarks := bookmarks ++ [bookmark]
    bookmarks.drop (bookmarks.length - 16)

inductive Move
  | acquired (r : Except BoltError Unit)
  | read
  | begun (r : Except BoltError Unit)
  | worked (r : Except BoltError Unit)
  | rolledBack
  | committed (bookmark : Option String)
  /-- COMMIT ends in an error, whether the server applied it or not. -/
  | uncommitted (applied : Bool) (e : BoltError)
  | merge
  | refreshed
  | backoff
  | cancel (applied : Bool)

def failedWith (e : BoltError) : Task :=
  if isTransient e then if clusterMoved e then .refreshing e else .waiting e else .failed e

def Call.andThen (c : Call) (r : Except BoltError Unit) (task : Task) : Call :=
  c.goto (match r with
    | .ok () => task
    | .error e => failedWith e)

def Call.applies (c : Call) (applied : Bool) : Call :=
  { c with applied := c.applied + applied.toNat }

section
-- whether the backoff has a delay after this attempt
variable (granted : ℕ → Bool)

/-- Reading the bookmark list and merging into it are sections under its lock, and each is
one step. The requests of an attempt are one step each, and their outcomes come with
the step. For COMMIT that is both what the call is told and whether the server
applied it: a reply can be lost. -/
def move (m : Move) (s : Inner) (c : Call) : Option (Inner × Call) :=
  match m, c.task with
  | .acquired r, .acquiring => some (s, c.andThen r .reading)
  | .read, .reading => some (s, c.goto (.beginning (s.options c.mode)))
  | .begun r, .beginning opts => some (s, c.andThen r (.working opts))
  | .worked (.ok ()), .working opts => some (s, c.goto (.committing opts))
  | .worked (.error e), .working _ => some (s, c.goto (.rollingBack e))
  | .rolledBack, .rollingBack e => some (s, c.goto (failedWith e))
  | .committed none, .committing _ => some (s, (c.applies true).goto (.returned none))
  | .committed (some bookmark), .committing opts =>
    some ({ s with commits := s.commits ++ [(bookmark, Request.begin opts.intoMeta)] },
      (c.applies true).goto (.merging bookmark))
  | .uncommitted applied e, .committing _ => some (s, (c.applies applied).goto (failedWith e))
  | .merge, .merging bookmark =>
    some ({ s with bookmarks := mergeBookmark s.bookmarks bookmark },
      c.goto (.returned (some bookmark)))
  | .refreshed, .refreshing e => some (s, c.goto (.waiting e))
  | .backoff, .waiting e =>
    if granted c.attempt then some (s, { c with attempt := c.attempt + 1, task := .acquiring })
    else some (s, c.goto (.failed e))
  | .cancel applied, .committing _ => some (s, (c.applies applied).goto .cancelled)
  | .cancel false, .acquiring | .cancel false, .reading | .cancel false, .beginning _
  | .cancel false, .working _ | .cancel false, .rollingBack _ | .cancel false, .merging _
  | .cancel false, .refreshing _ | .cancel false, .waiting _ => some (s, c.goto .cancelled)
  | _, _ => none

end

inductive Action
  | execute (mode : AccessMode)
  | move (i : ℕ) (m : Move)

/-- The bookmark that a step brings in. -/
def Action.bookmark : Action → Option String
  | .move _ (.committed bookmark) => bookmark
  | _ => none

end Execute

structure Execute where
  inner : Execute.Inner
  calls : List Execute.Call

namespace Execute

def new (db : Option String) : Execute := ⟨⟨db, [], []⟩, []⟩

def step (granted : ℕ → Bool) : Action → Execute → Option Execute
  | .execute mode, s => some { s with calls := s.calls ++ [⟨mode, 1, .acquiring, 0⟩] }
  | .move i m, s => (onTask (move granted m) i s.inner s.calls).map fun r => ⟨r.1, r.2⟩

/-- A commit gets a bookmark that no commit before it got. -/
def FreshBookmark (a : Action) (s : Execute) : Prop :=
  ∀ bookmark ∈ a.bookmark, bookmark ∉ s.inner.commits.map Prod.fst

instance (a : Action) (s : Execute) : Decidable (FreshBookmark a s) :=
  inferInstanceAs
    (Decidable (∀ bookmark ∈ a.bookmark, bookmark ∉ s.inner.commits.map Prod.fst))

/-- Still to be told how it ends. -/
def Task.pending : Task → Bool
  | .returned _ | .failed _ | .cancelled => false
  | _ => true

/-- The bookmark that a call has returned with. -/
def Task.bookmark : Task → Option String
  | .returned bookmark => bookmark
  | _ => none

theorem Task.eq_returned {t : Task} {a : String} (h : t.bookmark = some a) :
    t = .returned (some a) := by
  cases t with
  | returned bookmark => exact congrArg Task.returned h
  | _ => cases h

inductive Moves (granted : ℕ → Bool) (s : Inner) (c : Call) : Move → Inner → Call → Prop
  | acquired {r : Except BoltError Unit} : c.task = .acquiring →
    Moves granted s c (.acquired r) s (c.andThen r .reading)
  | read : c.task = .reading → Moves granted s c .read s (c.goto (.beginning (s.options c.mode)))
  | begun {r : Except BoltError Unit} {opts : TxOptions} : c.task = .beginning opts →
    Moves granted s c (.begun r) s (c.andThen r (.working opts))
  | worked {opts : TxOptions} : c.task = .working opts →
    Moves granted s c (.worked (.ok ())) s (c.goto (.committing opts))
  | unworked {opts : TxOptions} {e : BoltError} : c.task = .working opts →
    Moves granted s c (.worked (.error e)) s (c.goto (.rollingBack e))
  | rolledBack {e : BoltError} : c.task = .rollingBack e →
    Moves granted s c .rolledBack s (c.goto (failedWith e))
  | unmarked {opts : TxOptions} : c.task = .committing opts →
    Moves granted s c (.committed none) s ((c.applies true).goto (.returned none))
  | committed {opts : TxOptions} {bookmark : String} : c.task = .committing opts →
    Moves granted s c (.committed (some bookmark))
      { s with commits := s.commits ++ [(bookmark, Request.begin opts.intoMeta)] }
      ((c.applies true).goto (.merging bookmark))
  | uncommitted {opts : TxOptions} {applied : Bool} {e : BoltError} : c.task = .committing opts →
    Moves granted s c (.uncommitted applied e) s ((c.applies applied).goto (failedWith e))
  | merged {bookmark : String} : c.task = .merging bookmark → Moves granted s c .merge
      { s with bookmarks := mergeBookmark s.bookmarks bookmark }
      (c.goto (.returned (some bookmark)))
  | refreshed {e : BoltError} : c.task = .refreshing e →
    Moves granted s c .refreshed s (c.goto (.waiting e))
  | again {e : BoltError} : c.task = .waiting e → granted c.attempt = true →
    Moves granted s c .backoff s { c with attempt := c.attempt + 1, task := .acquiring }
  | exhausted {e : BoltError} : c.task = .waiting e → granted c.attempt = false →
    Moves granted s c .backoff s (c.goto (.failed e))
  | abandoned {opts : TxOptions} {applied : Bool} : c.task = .committing opts →
    Moves granted s c (.cancel applied) s ((c.applies applied).goto .cancelled)
  | cancelled : c.task.pending = true → Moves granted s c (.cancel false) s (c.goto .cancelled)

theorem move_moves {granted : ℕ → Bool} {m : Move} {s s' : Inner} {c c' : Call}
    (h : move granted m s c = some (s', c')) : Moves granted s c m s' c' := by
  unfold move at h
  split at h
  case h_1 ht => cases h; exact .acquired ht
  case h_2 ht => cases h; exact .read ht
  case h_3 ht => cases h; exact .begun ht
  case h_4 ht => cases h; exact .worked ht
  case h_5 ht => cases h; exact .unworked ht
  case h_6 ht => cases h; exact .rolledBack ht
  case h_7 ht => cases h; exact .unmarked ht
  case h_8 ht => cases h; exact .committed ht
  case h_9 ht => cases h; exact .uncommitted ht
  case h_10 ht => cases h; exact .merged ht
  case h_11 ht => cases h; exact .refreshed ht
  case h_12 ht =>
    split_ifs at h with hg <;> cases h
    · exact .again ht hg
    · exact .exhausted ht (by simpa using hg)
  case h_13 ht => cases h; exact .abandoned ht
  case h_22 => cases h
  -- cancelled at one of the other awaits
  all_goals
    rename_i ht
    cases h
    exact .cancelled (by rw [ht]; rfl)

inductive Steps (granted : ℕ → Bool) (s : Execute) : Action → Execute → Prop
  | execute {mode : AccessMode} : Steps granted s (.execute mode)
      { s with calls := s.calls ++ [⟨mode, 1, .acquiring, 0⟩] }
  | move {i : ℕ} {m : Move} {l₁ l₂ : List Call} {c c' : Call} {inner' : Inner} :
    s.calls = l₁ ++ c :: l₂ → l₁.length = i → Moves granted s.inner c m inner' c' →
    Steps granted s (.move i m) ⟨inner', l₁ ++ c' :: l₂⟩

theorem step_steps {granted : ℕ → Bool} {a : Action} {s s' : Execute}
    (h : step granted a s = some s') : Steps granted s a s' := by
  cases a with
  | execute mode => cases h; exact .execute
  | move i m =>
    obtain ⟨⟨inner', calls'⟩, hon, rfl⟩ := Option.map_eq_some_iff.mp h
    obtain ⟨l₁, c, l₂, c', hcalls, hlen, hmove, rfl⟩ := onTask_eq_some hon
    exact .move hcalls hlen (move_moves hmove)

/-- An attempt reads the bookmarks: it begins with them, and nothing else changes. -/
theorem read_spec {granted : ℕ → Bool} {s s' : Execute} {i : ℕ}
    (h : step granted (.move i .read) s = some s') : s'.inner = s.inner ∧
      ∃ mode c, s'.calls[i]? = some c ∧ c.task = .beginning (s.inner.options mode) := by
  cases step_steps h with
  | @move i m l₁ l₂ c c' inner' hcalls hlen hm =>
    cases hm with
    | read ht => exact ⟨rfl, c.mode, c.goto _, by simp [← hlen], rfl⟩

end Execute
end Boltwire
