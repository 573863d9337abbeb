import Boltwire.Execute

namespace Boltwire

def Request.bookmarks (r : Request) : List String :=
  (((r.fields.head?.bind BoltValue.asMap).bind fun m => m.get "bookmarks").map
    BoltValue.asStrings).getD []

theorem TxOptions.get_bookmarks_intoMeta (opts : TxOptions) : opts.intoMeta.get "bookmarks" =
    if opts.bookmarks = [] then none else some (.list (opts.bookmarks.map BoltValue.string)) := by
  have hskip : ∀ (m : Meta) key value, key ≠ "bookmarks" →
      (m.insert key value).get "bookmarks" = m.get "bookmarks" :=
    fun m _ value h => m.get_insert_of_ne value h.symm
  have hnil : Meta.get [] "bookmarks" = none := rfl
  unfold TxOptions.intoMeta
  cases opts.db <;> cases opts.timeoutMs <;> split_ifs <;> simp_all [Meta.get_insert_self]

theorem Request.bookmarks_begin (opts : TxOptions) :
    (Request.begin opts.intoMeta).bookmarks = opts.bookmarks := by
  have hstrings : ∀ l : List String, (l.map BoltValue.string).filterMap BoltValue.asStr = l := by
    intro l
    rw [List.filterMap_map]
    exact List.filterMap_some
  unfold Request.bookmarks
  change (((opts.intoMeta.get "bookmarks").map BoltValue.asStrings).getD []) = opts.bookmarks
  rw [opts.get_bookmarks_intoMeta]
  split_ifs with hempty
  · rw [hempty]
    rfl
  · exact hstrings opts.bookmarks

namespace Execute
open Transition Relation

/-- The BEGIN of the transaction with the first bookmark carried the second. -/
def Observed (commits : List (String × Request)) (c a : String) : Prop :=
  ∃ r, (c, r) ∈ commits ∧ a ∈ r.bookmarks

/-- The bookmark is among these, or one of them leads back to it, directly or
through a chain of transactions. -/
def Covers (commits : List (String × Request)) (bookmarks : List String) (a : String) : Prop :=
  a ∈ bookmarks ∨ ∃ c ∈ bookmarks, TransGen (Observed commits) c a

section Covers
variable {commits commits' : List (String × Request)} {bookmarks bookmarks' : List String}
  {a : String}

theorem Covers.trans (h : Covers commits bookmarks a)
    (hall : ∀ c ∈ bookmarks, Covers commits bookmarks' c) : Covers commits bookmarks' a := by
  rcases h with ha | ⟨c, hc, hca⟩
  · exact hall a ha
  · rcases hall c hc with hc' | ⟨d, hd, hdc⟩
    · exact .inr ⟨c, hc', hca⟩
    · exact .inr ⟨d, hd, hdc.trans hca⟩

theorem Covers.mono (h : Covers commits bookmarks a) (hsub : commits ⊆ commits') :
    Covers commits' bookmarks a := by
  rcases h with ha | ⟨c, hc, hca⟩
  · exact .inl ha
  · apply Or.inr
    refine ⟨c, hc, TransGen.mono ?_ c a hca⟩
    rintro x y ⟨r, hr, hy⟩
    exact ⟨r, hsub hr, hy⟩

/-- Nothing leads back to a bookmark that no BEGIN carried. -/
theorem not_covers_of_unobserved (ha : a ∉ bookmarks)
    (hnone : ∀ p ∈ commits, a ∉ p.2.bookmarks) : ¬ Covers commits bookmarks a := by
  have hedge : ∀ c, ¬ Observed commits c a := by
    rintro c ⟨r, hr, hra⟩
    exact hnone (c, r) hr hra
  rintro (hin | ⟨c, -, hca⟩)
  · exact ha hin
  · cases hca with
    | single h => exact hedge c h
    | tail _ h => exact hedge _ h

end Covers

section Merge
variable {bookmarks : List String}

/-- A full list loses its first bookmark, which is its oldest. -/
theorem mergeBookmark_cases (bookmark : String) (hlen : bookmarks.length ≤ 16) :
    bookmark ∈ bookmarks ∧ mergeBookmark bookmarks bookmark = bookmarks ∨
    bookmarks.length < 16 ∧ mergeBookmark bookmarks bookmark = bookmarks ++ [bookmark] ∨
    bookmark ∉ bookmarks ∧ ∃ a rest, bookmarks = a :: rest ∧ rest.length = 15 ∧
      mergeBookmark bookmarks bookmark = rest ++ [bookmark] := by
  unfold mergeBookmark
  split_ifs with hin
  · exact .inl ⟨hin, rfl⟩
  · by_cases hfull : bookmarks.length = 16
    · cases bookmarks with
      | nil => cases hfull
      | cons a rest =>
        have hrest : rest.length = 15 := by simpa using hfull
        refine .inr (.inr ⟨hin, a, rest, rfl, hrest, ?_⟩)
        simp [hrest]
    · have hlt : bookmarks.length < 16 := by omega
      have hzero : (bookmarks ++ [bookmark]).length - 16 = 0 := by
        rw [List.length_append, List.length_singleton]
        omega
      refine .inr (.inl ⟨hlt, ?_⟩)
      dsimp only
      rw [hzero, List.drop_zero]

theorem length_mergeBookmark (bookmark : String) (hlen : bookmarks.length ≤ 16) :
    (mergeBookmark bookmarks bookmark).length ≤ 16 := by
  rcases mergeBookmark_cases bookmark hlen with
    ⟨-, heq⟩ | ⟨hlt, heq⟩ | ⟨-, a, rest, -, hrest, heq⟩
  · rwa [heq]
  · rw [heq, List.length_append, List.length_singleton]
    omega
  · rw [heq, List.length_append, List.length_singleton]
    omega

theorem mem_mergeBookmark (bookmark : String) (hlen : bookmarks.length ≤ 16) :
    bookmark ∈ mergeBookmark bookmarks bookmark := by
  rcases mergeBookmark_cases bookmark hlen with
    ⟨hin, heq⟩ | ⟨-, heq⟩ | ⟨-, a, rest, -, -, heq⟩
  · rwa [heq]
  · simp [heq]
  · simp [heq]

end Merge

/-- When a merge drops the oldest bookmark, one of those that stay, or the one
that is merged, leads back to it. -/
def OldestCovered : Action → Execute → Prop
  | .move i .merge, s => ∀ c bookmark a rest,
    s.calls[i]? = some c → c.task = .merging bookmark →
    bookmark ∉ s.inner.bookmarks → s.inner.bookmarks = a :: rest → rest.length = 15 →
    Covers s.inner.commits (rest ++ [bookmark]) a
  | _, _ => True

structure Kept (s : Execute) : Prop where
  length : s.inner.bookmarks.length ≤ 16
  covered : ∀ c ∈ s.calls, ∀ a, c.task = .returned (some a) →
    Covers s.inner.commits s.inner.bookmarks a

theorem failedWith_ne_returned (e : BoltError) (bookmark : Option String) :
    failedWith e ≠ .returned bookmark := by
  unfold failedWith
  split_ifs <;> simp

theorem andThen_ne_returned {c : Call} {r : Except BoltError Unit} {t : Task}
    {bookmark : Option String} (ht : t ≠ .returned bookmark) :
    (c.andThen r t).task ≠ .returned bookmark := by
  cases r with
  | ok => exact ht
  | error e => exact failedWith_ne_returned e bookmark

section Step
variable {inner inner' : Inner} {l₁ l₂ : List Call} {c c' : Call}

theorem Kept.move (hk : Kept ⟨inner, l₁ ++ c :: l₂⟩) (hlen : inner'.bookmarks.length ≤ 16)
    (hsub : inner.commits ⊆ inner'.commits)
    (hall : ∀ b ∈ inner.bookmarks, Covers inner'.commits inner'.bookmarks b)
    (hnew : ∀ a, c'.task = .returned (some a) → Covers inner'.commits inner'.bookmarks a) :
    Kept ⟨inner', l₁ ++ c' :: l₂⟩ := by
  have hold : ∀ d ∈ l₁ ++ c :: l₂, ∀ a, d.task = .returned (some a) →
      Covers inner'.commits inner'.bookmarks a := by
    intro d hd a ha
    exact ((hk.covered d hd a ha).mono hsub).trans hall
  exact ⟨hlen, forall_replace hold hnew⟩

/-- The bookmarks stay and the call does not return one. -/
theorem Kept.quiet (hk : Kept ⟨inner, l₁ ++ c :: l₂⟩)
    (hnew : ∀ a, c'.task ≠ .returned (some a)) : Kept ⟨inner, l₁ ++ c' :: l₂⟩ :=
  hk.move hk.length (fun _ => id) (fun _ hb => .inl hb) fun a ha => absurd ha (hnew a)

/-- The oldest bookmark is covered if it is dropped; the others stay. -/
theorem Kept.merge {bookmark : String} (hk : Kept ⟨inner, l₁ ++ c :: l₂⟩)
    (hold : ∀ a rest, bookmark ∉ inner.bookmarks → inner.bookmarks = a :: rest →
      rest.length = 15 → Covers inner.commits (rest ++ [bookmark]) a) :
    Kept ⟨{ inner with bookmarks := mergeBookmark inner.bookmarks bookmark },
      l₁ ++ c.goto (.returned (some bookmark)) :: l₂⟩ := by
  have hle : inner.bookmarks.length ≤ 16 := hk.length
  refine hk.move (length_mergeBookmark bookmark hle) (fun _ => id) ?_ ?_
  · intro b hb
    dsimp only
    rcases mergeBookmark_cases bookmark hle with
      ⟨-, heq⟩ | ⟨-, heq⟩ | ⟨hnew, a, rest, hbs, hrest, heq⟩
    · rw [heq]
      exact .inl hb
    · rw [heq]
      exact .inl (List.mem_append_left _ hb)
    · rw [heq]
      rw [hbs] at hb
      rcases List.mem_cons.mp hb with rfl | hb
      · exact hold b rest hnew hbs hrest
      · exact .inl (List.mem_append_left _ hb)
  · intro a ha
    cases ha
    exact .inl (mem_mergeBookmark bookmark hle)

end Step

theorem Kept.step {granted : ℕ → Bool} {s s' : Execute} {a : Action} (hk : Kept s)
    (hok : OldestCovered a s) (h : Steps granted s a s') : Kept s' := by
  cases h with
  | execute => exact ⟨hk.length, forall_concat hk.covered (by simp)⟩
  | @move i m l₁ l₂ c c' inner' hcalls hlen hm =>
    obtain ⟨inner, calls⟩ := s
    obtain rfl : calls = l₁ ++ c :: l₂ := hcalls
    cases hm with
    | acquired ht => exact hk.quiet fun a => andThen_ne_returned (by simp)
    | begun ht => exact hk.quiet fun a => andThen_ne_returned (by simp)
    | rolledBack ht => exact hk.quiet fun a => failedWith_ne_returned _ _
    | uncommitted ht => exact hk.quiet fun a => failedWith_ne_returned _ _
    | @committed opts bookmark ht =>
      have hsub : inner.commits ⊆ inner.commits ++ [(bookmark, Request.begin opts.intoMeta)] :=
        List.subset_append_left _ _
      exact hk.move hk.length hsub (fun _ hb => .inl hb) (by simp)
    | @merged bookmark ht =>
      apply hk.merge
      intro a rest hnew hbs hrest
      exact hok c bookmark a rest (by simp [← hlen]) ht hnew hbs hrest
    | _ => exact hk.quiet (by simp)

theorem kept_new (db : Option String) : Kept (new db) := ⟨Nat.zero_le _, by simp [new]⟩

/-- In every run in which a merge drops only a bookmark that a kept one leads back to:
an attempt that reads the bookmarks after a call has returned begins after that call's
transaction. The bookmarks need not be distinct for this. -/
theorem begins_after_returned (granted : ℕ → Bool) (db : Option String) {s s' : Execute}
    (h : Run (step granted) OldestCovered (new db) s) {i : ℕ} {c : Call} {a : String}
    (hc : c ∈ s.calls) (hret : c.task = .returned (some a))
    (hread : step granted (.move i .read) s = some s') :
    ∃ d opts, s'.calls[i]? = some d ∧ d.task = .beginning opts ∧
      Covers s'.inner.commits (Request.begin opts.intoMeta).bookmarks a := by
  have hk : Kept s := h.invariant (kept_new db)
    fun _ _ _ hk hok hstep => hk.step hok (step_steps hstep)
  obtain ⟨hinner, mode, d, hd, hopts⟩ := read_spec hread
  refine ⟨d, _, hd, hopts, ?_⟩
  rw [hinner, Request.bookmarks_begin]
  exact hk.covered c hc a hret

def starts (i : ℕ) : List Action := [.execute .write, .move i (.acquired (.ok ()))]

def reads (i : ℕ) : List Action := [.move i .read]

def runs (i : ℕ) : List Action :=
  [.move i (.begun (.ok ())), .move i (.worked (.ok ())), .move i (.committed (some (toString i)))]

def merges (i : ℕ) : List Action := [.move i .merge]

/-- A transaction is merged into the list that its BEGIN carried. -/
def mergesInOrder : Action → Execute → Bool
  | .move i .merge, s => match s.calls[i]? with
    | some ⟨_, _, .merging bookmark, _⟩ =>
      s.inner.commits.any fun p => p.1 == bookmark && p.2.bookmarks == s.inner.bookmarks
    | _ => true
  | _, _ => true

theorem oldestCovered_of_mergesInOrder {a : Action} {s : Execute} (h : mergesInOrder a s = true) :
    OldestCovered a s := by
  unfold OldestCovered
  split
  case h_1 i s =>
    intro c bookmark a rest hc ht hnew hbs hrest
    obtain ⟨mode, attempt, task, applied⟩ := c
    cases ht
    rw [mergesInOrder, hc] at h
    simp only [List.any_eq_true, Bool.and_eq_true, beq_iff_eq] at h
    obtain ⟨⟨b, r⟩, hr, rfl, hcarried⟩ := h
    apply Or.inr
    refine ⟨b, by simp, .single ⟨r, hr, ?_⟩⟩
    rw [hcarried, hbs]
    exact List.mem_cons_self ..
  case h_2 => trivial

/-- Seventeen calls one after the other, with distinct bookmarks: the first one is dropped,
and the eighteenth begins after the others. -/
theorem begins_after_returned_sequential : ∃ s s' c,
    Run (step fun _ => false) (fun a s => FreshBookmark a s ∧ OldestCovered a s) (new none) s ∧
    c ∈ s.calls ∧ c.task = .returned (some "0") ∧ "0" ∉ s.inner.bookmarks ∧
    step (fun _ => false) (.move 17 .read) s = some s' ∧
    ∃ d opts, s'.calls[17]? = some d ∧ d.task = .beginning opts ∧
      Covers s'.inner.commits (Request.begin opts.intoMeta).bookmarks "0" := by
  have hplay : (play (step fun _ => false)
      (fun a s => decide (FreshBookmark a s) && mergesInOrder a s) (new none)
      (List.flatten [(List.range 17).flatMap (fun i => starts i ++ reads i ++ runs i ++ merges i),
        starts 17])).map (fun s => s.calls.any (fun c => c.task.bookmark == some "0") &&
      !s.inner.bookmarks.contains "0" && (step (fun _ => false) (.move 17 .read) s).isSome) =
      some true := by
    decide +kernel
  have hcheck : ∀ a s, (decide (FreshBookmark a s) && mergesInOrder a s) = true →
      FreshBookmark a s ∧ OldestCovered a s := by
    intro a s h
    rw [Bool.and_eq_true, decide_eq_true_iff] at h
    exact ⟨h.1, oldestCovered_of_mergesInOrder h.2⟩
  obtain ⟨s, hrun, hlook⟩ := exists_of_play _ hcheck hplay
  simp only [Bool.and_eq_true, List.any_eq_true, beq_iff_eq, Bool.not_eq_true',
    List.contains_eq_mem, decide_eq_false_iff_not, Option.isSome_iff_exists] at hlook
  obtain ⟨⟨⟨c, hc, hret⟩, hdropped⟩, s', hread⟩ := hlook
  have hret := Task.eq_returned hret
  exact ⟨s, s', c, hrun, hc, hret, hdropped, hread,
    begins_after_returned (fun _ => false) none (hrun.mono fun _ _ h => h.2) hc hret hread⟩

/-- Seventeen transactions begin with no bookmarks. Once they have all returned,
the bookmark of the first is gone and no other leads back to it. -/
theorem bookmark_of_returned_lost : ¬ ∀ (granted : ℕ → Bool) (db : Option String)
    (s s' : Execute) (i : ℕ) (c : Call) (a : String),
    Run (step granted) FreshBookmark (new db) s →
    c ∈ s.calls → c.task = .returned (some a) → step granted (.move i .read) s = some s' →
    ∃ d opts, s'.calls[i]? = some d ∧ d.task = .beginning opts ∧
      Covers s'.inner.commits (Request.begin opts.intoMeta).bookmarks a := by
  intro hall
  have hplay : (play (step fun _ => false) (fun a s => decide (FreshBookmark a s)) (new none)
      (List.flatten [(List.range 17).flatMap starts, (List.range 17).flatMap reads,
        (List.range 17).flatMap runs, (List.range 17).flatMap merges, starts 17])).map (fun s =>
      s.calls.any (fun c => c.task.bookmark == some "0") && !s.inner.bookmarks.contains "0" &&
      s.inner.commits.all (fun p => !p.2.bookmarks.contains "0") &&
      (step (fun _ => false) (.move 17 .read) s).isSome) = some true := by
    decide +kernel
  obtain ⟨s, hrun, hlook⟩ := exists_of_play _ (fun _ _ => of_decide_eq_true) hplay
  simp only [Bool.and_eq_true, List.any_eq_true, beq_iff_eq, Bool.not_eq_true', List.all_eq_true,
    List.contains_eq_mem, decide_eq_false_iff_not, Option.isSome_iff_exists] at hlook
  obtain ⟨⟨⟨⟨c, hc, hret⟩, hdropped⟩, hnone⟩, s', hread⟩ := hlook
  obtain ⟨d, opts, hd, hopts, hcovers⟩ :=
    hall _ _ s s' 17 c "0" hrun hc (Task.eq_returned hret) hread
  obtain ⟨hinner, mode, d', hd', hopts'⟩ := read_spec hread
  cases hd.symm.trans hd'
  cases hopts.symm.trans hopts'
  rw [hinner, Request.bookmarks_begin] at hcovers
  exact not_covers_of_unobserved hdropped hnone hcovers

end Execute
end Boltwire
