import Boltwire.Causality

namespace Boltwire.Execute
open Transition

def latest (bookmarks : List String) : List String := bookmarks.drop (bookmarks.length - 16)

theorem latest_concat (bookmarks : List String) (bookmark : String) :
    latest (latest bookmarks ++ [bookmark]) = latest (bookmarks ++ [bookmark]) := by
  by_cases h : bookmarks.length < 16
  · have hzero : bookmarks.length - 16 = 0 := by omega
    rw [show latest bookmarks = bookmarks by rw [latest, hzero, List.drop_zero]]
  · have hone : ∀ l : List String, l.length = 16 →
        latest (l ++ [bookmark]) = l.drop 1 ++ [bookmark] := by
      intro l hl
      have hdrop : (l ++ [bookmark]).length - 16 = 1 := by
        rw [List.length_append, List.length_singleton]
        omega
      rw [latest, hdrop, List.drop_append_of_le_length (by omega)]
    have hfull : (latest bookmarks).length = 16 := by
      rw [latest, List.length_drop]
      omega
    have hdrop : (bookmarks ++ [bookmark]).length - 16 = bookmarks.length - 16 + 1 := by
      rw [List.length_append, List.length_singleton]
      omega
    rw [hone _ hfull, latest, latest, hdrop, List.drop_drop,
      List.drop_append_of_le_length (by omega)]

theorem latest_subset (bookmarks : List String) : latest bookmarks ⊆ bookmarks :=
  List.drop_subset _ _

/-- The bookmark that a call has got and not merged yet. -/
def Task.inHand : Task → Option String
  | .merging bookmark => some bookmark
  | _ => none

def having (f : Task → Option String) (calls : List Call) : List String :=
  calls.filterMap fun c => f c.task

theorem having_replace (f : Task → Option String) (l₁ l₂ : List Call) (c : Call) :
    having f (l₁ ++ c :: l₂) = having f l₁ ++ ((f c.task).toList ++ having f l₂) := by
  rw [having, List.filterMap_append, List.filterMap_cons]
  cases f c.task <;> rfl

/-- The bookmarks that have been merged, in that order. -/
structure Merged (s : Execute) (merged : List String) : Prop where
  kept : s.inner.bookmarks = latest merged
  returned : merged.Perm (having Task.bookmark s.calls)
  fresh : (merged ++ having Task.inHand s.calls).Nodup
  known : ∀ b ∈ merged ++ having Task.inHand s.calls, b ∈ s.inner.commits.map Prod.fst

theorem merged_new (db : Option String) : Merged (new db) [] := by
  refine ⟨rfl, .refl _, ?_, ?_⟩ <;> simp [new, having]

section Step
variable {inner inner' : Inner} {l₁ l₂ : List Call} {c c' : Call} {merged : List String}

/-- The call goes on with what it had, or without. -/
theorem Merged.quiet (h : Merged ⟨inner, l₁ ++ c :: l₂⟩ merged)
    (hbookmark : c'.task.bookmark = c.task.bookmark)
    (hinHand : c'.task.inHand = c.task.inHand ∨ c'.task.inHand = none) :
    Merged ⟨inner, l₁ ++ c' :: l₂⟩ merged := by
  have hsub : (having Task.inHand (l₁ ++ c' :: l₂)).Sublist
      (having Task.inHand (l₁ ++ c :: l₂)) := by
    rw [having_replace, having_replace]
    apply (List.Sublist.refl _).append
    rcases hinHand with heq | heq
    · rw [heq]
    · rw [heq]
      exact List.sublist_append_right _ _
  refine ⟨h.kept, ?_, ?_, ?_⟩
  · have hreturned := h.returned
    simp only [having_replace] at hreturned ⊢
    rwa [hbookmark]
  · exact h.fresh.sublist ((List.Sublist.refl _).append hsub)
  · intro b hb
    exact h.known b (((List.Sublist.refl _).append hsub).subset hb)

/-- A new bookmark. -/
theorem Merged.committed {opts : TxOptions} {bookmark : String}
    (h : Merged ⟨inner, l₁ ++ c :: l₂⟩ merged) (ht : c.task = .committing opts)
    (hnew : bookmark ∉ inner.commits.map Prod.fst) :
    Merged ⟨{ inner with commits := inner.commits ++ [(bookmark, Request.begin opts.intoMeta)] },
      l₁ ++ (c.applies true).goto (.merging bookmark) :: l₂⟩ merged := by
  have hfresh := h.fresh
  have hknown := h.known
  have hreturned := h.returned
  simp only [having_replace, ht, Task.bookmark, Task.inHand, Option.toList_none,
    List.nil_append] at hfresh hknown hreturned
  have hperm : (merged ++ (having Task.inHand l₁ ++ (bookmark :: having Task.inHand l₂))).Perm
      (bookmark :: (merged ++ (having Task.inHand l₁ ++ having Task.inHand l₂))) := by
    rw [← List.append_assoc, ← List.append_assoc]
    exact List.perm_middle
  refine ⟨h.kept, ?_, ?_, ?_⟩
  · simpa only [having_replace, Call.goto_task, Task.bookmark, Option.toList_none,
      List.nil_append] using hreturned
  · simp only [having_replace, Call.goto_task, Task.inHand, Option.toList_some,
      List.singleton_append]
    rw [hperm.nodup_iff]
    exact List.nodup_cons.mpr ⟨fun hin => hnew (hknown bookmark hin), hfresh⟩
  · simp only [having_replace, Call.goto_task, Task.inHand, Option.toList_some,
      List.singleton_append, List.map_append, List.map_singleton]
    intro b hb
    rcases List.mem_cons.mp (hperm.mem_iff.mp hb) with rfl | hb
    · exact List.mem_append_right _ (List.mem_singleton_self b)
    · exact List.mem_append_left _ (hknown b hb)

/-- The bookmark is new to the list, and goes to its end. -/
theorem Merged.merge {bookmark : String} (h : Merged ⟨inner, l₁ ++ c :: l₂⟩ merged)
    (ht : c.task = .merging bookmark) :
    Merged ⟨{ inner with bookmarks := mergeBookmark inner.bookmarks bookmark },
      l₁ ++ c.goto (.returned (some bookmark)) :: l₂⟩ (merged ++ [bookmark]) := by
  have hfresh := h.fresh
  have hknown := h.known
  have hreturned := h.returned
  simp only [having_replace, ht, Task.bookmark, Task.inHand, Option.toList_none,
    Option.toList_some, List.nil_append, List.singleton_append] at hfresh hknown hreturned
  have hperm : (merged ++ (having Task.inHand l₁ ++ (bookmark :: having Task.inHand l₂))).Perm
      (merged ++ [bookmark] ++ (having Task.inHand l₁ ++ having Task.inHand l₂)) := by
    rw [List.append_assoc]
    exact List.perm_middle.append_left merged
  have hnew : bookmark ∉ merged := by
    intro hin
    exact (List.disjoint_of_nodup_append hfresh) hin
      (List.mem_append_right _ (List.mem_cons_self ..))
  have hkept : inner.bookmarks = latest merged := h.kept
  refine ⟨?_, ?_, ?_, ?_⟩
  · change mergeBookmark inner.bookmarks bookmark = latest (merged ++ [bookmark])
    rw [hkept, mergeBookmark, if_neg fun hin => hnew (latest_subset merged hin)]
    exact latest_concat merged bookmark
  · simp only [having_replace, Call.goto_task, Task.bookmark, Option.toList_some,
      List.singleton_append]
    exact (hreturned.append_right [bookmark]).trans
      ((List.perm_append_singleton _ _).trans List.perm_middle.symm)
  · simp only [having_replace, Call.goto_task, Task.inHand, Option.toList_none, List.nil_append]
    exact hperm.nodup_iff.mp hfresh
  · simp only [having_replace, Call.goto_task, Task.inHand, Option.toList_none, List.nil_append]
    intro b hb
    exact hknown b (hperm.mem_iff.mpr hb)

end Step

theorem inHand_failedWith (e : BoltError) :
    (failedWith e).bookmark = none ∧ (failedWith e).inHand = none := by
  unfold failedWith
  split_ifs <;> exact ⟨rfl, rfl⟩

theorem inHand_andThen {c : Call} {r : Except BoltError Unit} {t : Task} (hb : t.bookmark = none)
    (hh : t.inHand = none) :
    (c.andThen r t).task.bookmark = none ∧ (c.andThen r t).task.inHand = none := by
  cases r with
  | ok => exact ⟨hb, hh⟩
  | error e => exact inHand_failedWith e

theorem Merged.step {granted : ℕ → Bool} {s s' : Execute} {a : Action} {merged : List String}
    (h : Merged s merged) (hfresh : FreshBookmark a s) (hstep : Steps granted s a s') :
    ∃ added, Merged s' (merged ++ added) := by
  cases hstep with
  | execute =>
    refine ⟨[], ?_⟩
    have hlast : ∀ (f : Task → Option String) (mode : AccessMode), f .acquiring = none →
        having f (s.calls ++ [⟨mode, 1, .acquiring, 0⟩]) = having f s.calls := by
      intro f mode hf
      rw [having_replace, hf]
      exact List.append_nil _
    rw [List.append_nil]
    refine ⟨h.kept, ?_, ?_, ?_⟩
    · rw [hlast _ _ rfl]
      exact h.returned
    · rw [hlast _ _ rfl]
      exact h.fresh
    · rw [hlast _ _ rfl]
      exact h.known
  | @move i m l₁ l₂ c c' inner' hcalls _ hm =>
    obtain ⟨inner, calls⟩ := s
    obtain rfl : calls = l₁ ++ c :: l₂ := hcalls
    have hquiet : c.task.bookmark = none → c'.task.bookmark = none ∧ c'.task.inHand = none →
        inner' = inner → ∃ added, Merged ⟨inner', l₁ ++ c' :: l₂⟩
        (merged ++ added) := by
      rintro hc ⟨hb, hh⟩ rfl
      refine ⟨[], ?_⟩
      rw [List.append_nil]
      exact h.quiet (hb.trans hc.symm) (.inr hh)
    cases hm with
    | @committed opts bookmark ht =>
      refine ⟨[], ?_⟩
      rw [List.append_nil]
      exact h.committed ht (hfresh bookmark rfl)
    | merged ht => exact ⟨_, h.merge ht⟩
    | acquired ht => exact hquiet (by rw [ht]; rfl) (inHand_andThen rfl rfl) rfl
    | begun ht => exact hquiet (by rw [ht]; rfl) (inHand_andThen rfl rfl) rfl
    | rolledBack ht => exact hquiet (by rw [ht]; rfl) (inHand_failedWith _) rfl
    | uncommitted ht => exact hquiet (by rw [ht]; rfl) (inHand_failedWith _) rfl
    | cancelled hp =>
      apply hquiet _ ⟨rfl, rfl⟩ rfl
      cases ht : c.task with
      | returned b => rw [ht] at hp; cases hp
      | _ => rfl
    | read ht | worked ht | unworked ht | unmarked ht | refreshed ht | exhausted ht _
    | abandoned ht =>
      exact hquiet (by rw [ht]; rfl) ⟨rfl, rfl⟩ rfl
    | again ht _ => exact hquiet (by rw [ht]; rfl) ⟨rfl, rfl⟩ rfl

theorem Merged.run {granted : ℕ → Bool} {s s' : Execute} {merged : List String}
    (h : Merged s merged) (hrun : Run (Execute.step granted) FreshBookmark s s') :
    ∃ added, Merged s' (merged ++ added) := by
  refine hrun.invariant (I := fun s' => ∃ added, Merged s' (merged ++ added)) ⟨[], ?_⟩ ?_
  · rw [List.append_nil]
    exact h
  · rintro a s₁ s₂ ⟨added, h₁⟩ hfresh hstep
    obtain ⟨more, h₂⟩ := h₁.step hfresh (step_steps hstep)
    exact ⟨added ++ more, List.append_assoc merged added more ▸ h₂⟩

/-- In every run in which the commits get distinct bookmarks, the list is the last 16
of those that calls have returned with, each once, in the order in which they
returned: the newest stays until 16 more calls have returned with theirs, and what is
dropped never comes back. -/
theorem bookmarks_are_latest (granted : ℕ → Bool) (db : Option String) {s s' : Execute}
    (h : Run (step granted) FreshBookmark (new db) s) (h' : Run (step granted) FreshBookmark s s') :
    ∃ merged added, (merged ++ added).Nodup ∧
      merged.Perm (having Task.bookmark s.calls) ∧ s.inner.bookmarks = latest merged ∧
      (merged ++ added).Perm (having Task.bookmark s'.calls) ∧
      s'.inner.bookmarks = latest (merged ++ added) := by
  obtain ⟨merged, hm⟩ := (merged_new db).run h
  obtain ⟨added, hm'⟩ := hm.run h'
  exact ⟨merged, added, (List.nodup_append.mp hm'.fresh).1, hm.returned, hm.kept, hm'.returned,
    hm'.kept⟩

theorem bookmarks_are_latest_sequential : ∃ s' : Execute, s'.inner.bookmarks = ["0", "1"] ∧
    ∃ merged added, (merged ++ added).Nodup ∧
      merged.Perm (having Task.bookmark (new none).calls) ∧
      (new none).inner.bookmarks = latest merged ∧
      (merged ++ added).Perm (having Task.bookmark s'.calls) ∧
      s'.inner.bookmarks = latest (merged ++ added) := by
  have hplay : (play (step fun _ => false) (fun a s => decide (FreshBookmark a s)) (new none)
      ((List.range 2).flatMap fun i => starts i ++ reads i ++ runs i ++ merges i)).map
        (fun s => decide (s.inner.bookmarks = ["0", "1"])) = some true := by
    decide +kernel
  obtain ⟨s', hrun, hlook⟩ := exists_of_play _ (fun _ _ => of_decide_eq_true) hplay
  exact ⟨s', of_decide_eq_true hlook, bookmarks_are_latest (fun _ => false) none (.refl _) hrun⟩

end Boltwire.Execute
