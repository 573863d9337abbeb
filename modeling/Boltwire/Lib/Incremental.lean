import Mathlib.Tactic

namespace Incremental

/-- The outcome of one attempt, with the buffer it leaves. -/
inductive Cut (α β ε : Type)
  | more (rest : List α)
  | item (b : β) (rest : List α)
  | fail (e : ε) (rest : List α)

variable {α β ε : Type}

/-- A cutter looks at the part of a stream that is buffered, and cuts the next item off its
front, asks for more input, or fails. What is decided on a prefix stays decided, and
asking for more may drop noise but loses nothing. -/
structure Cutter (α β ε : Type) where
  cut : List α → Cut α β ε
  /-- An item takes something away. -/
  shrinks : ∀ {buf b rest}, cut buf = .item b rest → rest.length < buf.length
  /-- Starting over from what an unfinished attempt left changes nothing. -/
  resume : ∀ {buf rest}, cut buf = .more rest → ∀ xs, cut (buf ++ xs) = cut (rest ++ xs)
  item_append : ∀ {buf b rest}, cut buf = .item b rest →
    ∀ xs, cut (buf ++ xs) = .item b (rest ++ xs)
  fail_append : ∀ {buf e rest}, cut buf = .fail e rest →
    ∀ xs, cut (buf ++ xs) = .fail e (rest ++ xs)

/-- What a series of attempts has produced: the items, the failure that ended
it, if any, and the buffer left. -/
structure Produced (α β ε : Type) where
  items : List β
  failed : Option ε
  rest : List α

def Produced.cons (b : β) (p : Produced α β ε) : Produced α β ε :=
  { p with items := b :: p.items }

def Produced.prepend (bs : List β) (p : Produced α β ε) : Produced α β ε :=
  { p with items := bs ++ p.items }

namespace Cutter
variable (c : Cutter α β ε)

def drain (buf : List α) : Produced α β ε :=
  match _h : c.cut buf with
  | .more rest => ⟨[], none, rest⟩
  | .fail e rest => ⟨[], some e, rest⟩
  | .item b rest => (drain rest).cons b
termination_by buf.length
decreasing_by exact c.shrinks _h

variable {c}

theorem drain_more {buf rest : List α} (h : c.cut buf = .more rest) :
    c.drain buf = ⟨[], none, rest⟩ := by
  rw [drain]
  split <;> simp_all

theorem drain_fail {buf rest : List α} {e : ε} (h : c.cut buf = .fail e rest) :
    c.drain buf = ⟨[], some e, rest⟩ := by
  rw [drain]
  split <;> simp_all

theorem drain_item {buf rest : List α} {b : β} (h : c.cut buf = .item b rest) :
    c.drain buf = (c.drain rest).cons b := by
  rw [drain]
  split <;> simp_all

/-- Resuming after an unfinished attempt drains the same. -/
theorem drain_resume {buf rest : List α} (h : c.cut buf = .more rest) (xs : List α) :
    c.drain (buf ++ xs) = c.drain (rest ++ xs) := by
  have hcut := c.resume h xs
  cases hr : c.cut (rest ++ xs) with
  | more r => rw [drain_more hr, drain_more (hcut.trans hr)]
  | item b r => rw [drain_item hr, drain_item (hcut.trans hr)]
  | fail e r => rw [drain_fail hr, drain_fail (hcut.trans hr)]

/-- More input never takes an item back. -/
theorem drain_isPrefix (buf xs : List α) :
    (c.drain buf).items <+: (c.drain (buf ++ xs)).items := by
  fun_induction drain c buf with
  | case1 buf rest h => exact List.nil_prefix
  | case2 buf e rest h => exact List.nil_prefix
  | case3 buf b rest h ih =>
    rw [drain_item (c.item_append h xs)]
    exact (List.prefix_cons_inj b).mpr ih

inductive Event (α : Type)
  | arrive (xs : List α)
  | attempt

def arrived : List (Event α) → List α
  | [] => []
  | .arrive xs :: es => xs ++ arrived es
  | .attempt :: es => arrived es

variable (c) in
/-- Run a schedule from a buffer; nothing is cut after a failure. -/
def run : List α → List (Event α) → Produced α β ε
  | buf, [] => ⟨[], none, buf⟩
  | buf, .arrive xs :: es => run (buf ++ xs) es
  | buf, .attempt :: es =>
    match c.cut buf with
    | .more rest => run rest es
    | .item b rest => (run rest es).cons b
    | .fail e rest => ⟨[], some e, rest ++ arrived es⟩

variable (c) in
/-- The continuation of what a schedule produced, once `xs` more has arrived. -/
def continued (p : Produced α β ε) (xs : List α) : Produced α β ε :=
  match p.failed with
  | some e => ⟨p.items, some e, p.rest ++ xs⟩
  | none => (c.drain (p.rest ++ xs)).prepend p.items

theorem continued_cons (b : β) (p : Produced α β ε) (xs : List α) :
    c.continued (p.cons b) xs = (c.continued p xs).cons b := by
  unfold continued Produced.cons
  cases p.failed <;> rfl

/-- Draining the whole stream continues whatever a schedule produced on its
first part. The induction is on the schedule; the buffer is generalised
because every event changes it. -/
theorem drain_eq_continued (es : List (Event α)) (buf xs : List α) :
    c.drain (buf ++ (arrived es ++ xs)) = c.continued (c.run buf es) xs := by
  induction es generalizing buf with
  | nil => simp [arrived, run, continued, Produced.prepend]
  | cons ev es ih =>
    cases ev with
    | arrive ys =>
      simp only [arrived, run, ← ih, List.append_assoc]
    | attempt =>
      simp only [arrived, run]
      cases hcut : c.cut buf with
      | more rest => rw [drain_resume hcut, ih]
      | item b rest =>
        rw [drain_item (c.item_append hcut _), ih]
        exact (continued_cons b _ xs).symm
      | fail e rest =>
        rw [drain_fail (c.fail_append hcut _)]
        simp [continued]

/-- Whatever the schedule, its items are the first ones of the whole stream. -/
theorem run_items_isPrefix (es : List (Event α)) (xs : List α) :
    (c.run [] es).items <+: (c.drain (arrived es ++ xs)).items := by
  have h := drain_eq_continued (c := c) es [] xs
  rw [List.nil_append] at h
  rw [h, continued]
  cases (c.run [] es).failed with
  | none => exact List.prefix_append _ _
  | some e => exact List.prefix_rfl

/-- A failure is the whole stream's failure, right after the same items. -/
theorem run_failed {es : List (Event α)} {e : ε} (hf : (c.run [] es).failed = some e)
    (xs : List α) :
    (c.drain (arrived es ++ xs)).items = (c.run [] es).items ∧
      (c.drain (arrived es ++ xs)).failed = some e := by
  have h := drain_eq_continued (c := c) es [] xs
  rw [List.nil_append] at h
  rw [h, continued, hf]
  exact ⟨rfl, rfl⟩

/-- Once all has arrived and the cutter asks for more, nothing is missing. -/
theorem run_complete {es : List (Event α)} {rest : List α} (hf : (c.run [] es).failed = none)
    (hcut : c.cut (c.run [] es).rest = .more rest) :
    c.drain (arrived es) = ⟨(c.run [] es).items, none, rest⟩ := by
  have h := drain_eq_continued (c := c) es [] []
  simp only [List.nil_append, List.append_nil] at h
  rw [h, continued, hf]
  simp [drain_more hcut, Produced.prepend]

end Cutter
end Incremental
