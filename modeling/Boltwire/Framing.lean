import Boltwire.Lib.Incremental
import Boltwire.Message

namespace Boltwire
open BigEndian Incremental

def MAX_CHUNK : ℕ := 65535

/-- Upper bound on a single reassembled message. -/
def MAX_MESSAGE : ℕ := 64 * 1024 * 1024

def chunks (body : List UInt8) : List (List UInt8) :=
  if _h : body = [] then [] else body.take MAX_CHUNK :: chunks (body.drop MAX_CHUNK)
termination_by body.length
decreasing_by
  have := List.length_pos_of_ne_nil _h
  simp only [List.length_drop, MAX_CHUNK]
  omega

def chunkBytes (chunk : List UInt8) : List UInt8 := BigEndian.encode 2 chunk.length ++ chunk

def Request.value (req : Request) : BoltValue := .struct req.signature req.fields

def encode (req : Request) (out : List UInt8) : Except BoltError (List UInt8) := do
  let body ← PackStream.pack req.value []
  return out ++ (chunks body).flatMap chunkBytes ++ [0x00, 0x00]

def noops : List UInt8 → ℕ
  | a :: b :: rest => if a = 0 ∧ b = 0 then noops rest + 1 else 0
  | _ => 0

def dropNoops (rbuf : List UInt8) : List UInt8 := rbuf.drop (2 * noops rbuf)

/-- The chunk size at `pos`, when both header bytes are buffered. -/
def header (rbuf : List UInt8) (pos : ℕ) : Option ℕ :=
  if rbuf.length < pos + 2 then none else some (BigEndian.decode ((rbuf.drop pos).take 2))

inductive Walk
  | incomplete
  | tooLong
  | complete (pos : ℕ)
  deriving Repr, DecidableEq

def exceeds (limit : Option ℕ) (total : ℕ) : Bool := limit.any fun l => decide (l < total)

/-- Walk chunk headers from `pos` to the terminator without copying; `total`
counts the payload so far. Without a limit this is how the peer cuts requests. -/
def walk (limit : Option ℕ) (rbuf : List UInt8) (pos total : ℕ) : Walk :=
  match header rbuf pos with
  | none => .incomplete
  | some size =>
    if size = 0 then .complete pos
    else if exceeds limit (total + size) then .tooLong
    else if _h : rbuf.length < pos + (2 + size) then .incomplete
    else walk limit rbuf (pos + (2 + size)) (total + size)
termination_by rbuf.length - pos
decreasing_by omega

/-- Copy the chunks between `i` and the terminator at `pos`. -/
def copyBody (rbuf : List UInt8) (pos i : ℕ) : List UInt8 :=
  if _h : i < pos then
    let size := BigEndian.decode ((rbuf.drop i).take 2)
    (rbuf.drop (i + 2)).take size ++ copyBody rbuf pos (i + (2 + size))
  else []
termination_by pos - i
decreasing_by omega

/-- Cut the next whole message out of a buffer, if it is all there. Leading
NOOPs are dropped in any case. -/
def cutMessage (limit : Option ℕ) (rbuf : List UInt8) : Cut UInt8 (List UInt8) BoltError :=
  let rbuf := dropNoops rbuf
  match walk limit rbuf 0 0 with
  | .incomplete => .more rbuf
  | .tooLong => .fail (.protocol .messageTooLong) rbuf
  | .complete pos => .item (copyBody rbuf pos 0) (rbuf.drop (pos + 2))

def takeMessage (rbuf : List UInt8) : Cut UInt8 (List UInt8) BoltError :=
  cutMessage (some MAX_MESSAGE) rbuf

variable {limit : Option ℕ}

theorem header_eq_some {rbuf : List UInt8} {pos size : ℕ} : header rbuf pos = some size ↔
    pos + 2 ≤ rbuf.length ∧ BigEndian.decode ((rbuf.drop pos).take 2) = size := by
  unfold header
  split_ifs with h
  · simp only [false_iff, not_and]
    omega
  · simp only [Option.some.injEq, iff_and_self]
    omega

theorem header_append {rbuf : List UInt8} {pos size : ℕ} (h : header rbuf pos = some size)
    (xs : List UInt8) : header (rbuf ++ xs) pos = some size := by
  obtain ⟨hl, hs⟩ := header_eq_some.mp h
  refine header_eq_some.mpr ⟨by rw [List.length_append]; omega, ?_⟩
  rw [List.drop_append_of_le_length (by omega), List.take_append_of_le_length]
  · exact hs
  · rw [List.length_drop]
    omega

theorem walk_complete_append {rbuf : List UInt8} {pos total p : ℕ}
    (h : walk limit rbuf pos total = .complete p) (xs : List UInt8) :
    walk limit (rbuf ++ xs) pos total = .complete p := by
  fun_induction walk limit rbuf pos total with
  | case1 => cases h
  | case2 pos total hh =>
    rw [walk, header_append hh]
    simpa using h
  | case3 => cases h
  | case4 => cases h
  | case5 pos total size hh h0 hm hl ih =>
    rw [walk, header_append hh]
    simp only [if_neg h0, if_neg hm]
    rw [dif_neg (by rw [List.length_append]; omega)]
    exact ih h

theorem walk_tooLong_append {rbuf : List UInt8} {pos total : ℕ}
    (h : walk limit rbuf pos total = .tooLong) (xs : List UInt8) :
    walk limit (rbuf ++ xs) pos total = .tooLong := by
  fun_induction walk limit rbuf pos total with
  | case1 => cases h
  | case2 => cases h
  | case3 pos total size hh h0 hm =>
    rw [walk, header_append hh]
    simp [h0, hm]
  | case4 => cases h
  | case5 pos total size hh h0 hm hl ih =>
    rw [walk, header_append hh]
    simp only [if_neg h0, if_neg hm]
    rw [dif_neg (by rw [List.length_append]; omega)]
    exact ih h

/-- The terminator of a complete message, and all before it, is buffered. -/
theorem walk_complete_le {rbuf : List UInt8} {pos total p : ℕ}
    (h : walk limit rbuf pos total = .complete p) : pos ≤ p ∧ p + 2 ≤ rbuf.length := by
  fun_induction walk limit rbuf pos total with
  | case1 => cases h
  | case2 pos total hh =>
    cases h
    have := (header_eq_some.mp hh).1
    omega
  | case3 => cases h
  | case4 => cases h
  | case5 pos total size hh h0 hm hl ih =>
    have := ih h
    omega

theorem copyBody_append {rbuf : List UInt8} {pos total p : ℕ}
    (h : walk limit rbuf pos total = .complete p) (xs : List UInt8) :
    copyBody (rbuf ++ xs) p pos = copyBody rbuf p pos := by
  fun_induction walk limit rbuf pos total with
  | case1 => cases h
  | case2 pos total hh =>
    cases h
    rw [copyBody, copyBody]
    simp
  | case3 => cases h
  | case4 => cases h
  | case5 pos total size hh h0 hm hl ih =>
    have hle := walk_complete_le h
    have hs := (header_eq_some.mp hh).2
    have hs' := (header_eq_some.mp (header_append hh xs)).2
    rw [copyBody, copyBody]
    simp only [dif_pos (show pos < p by omega), hs, hs', ih h]
    congr 1
    rw [List.drop_append_of_le_length (by omega), List.take_append_of_le_length]
    rw [List.length_drop]
    omega

theorem dropNoops_zero_zero (rest : List UInt8) : dropNoops (0 :: 0 :: rest) = dropNoops rest := by
  simp [dropNoops, noops, Nat.mul_add]

theorem dropNoops_of_ne {a b : UInt8} (h : ¬ (a = 0 ∧ b = 0)) (rest : List UInt8) :
    dropNoops (a :: b :: rest) = a :: b :: rest := by
  simp [dropNoops, noops, h]

theorem dropNoops_of_short {rbuf : List UInt8} (h : ∀ a b rest, rbuf = a :: b :: rest → False) :
    dropNoops rbuf = rbuf := by
  rcases rbuf with _ | ⟨a, _ | ⟨b, rest⟩⟩
  · rfl
  · rfl
  · exact absurd rfl (h a b rest)

theorem dropNoops_append (rbuf xs : List UInt8) :
    dropNoops (rbuf ++ xs) = dropNoops (dropNoops rbuf ++ xs) := by
  fun_induction noops rbuf with
  | case1 a b rest h ih =>
    obtain ⟨rfl, rfl⟩ := h
    simpa [dropNoops_zero_zero] using ih
  | case2 a b rest h => rw [dropNoops_of_ne h]
  | case3 rbuf h => rw [dropNoops_of_short h]

theorem replicate_append_dropNoops (rbuf : List UInt8) :
    List.replicate (2 * noops rbuf) 0 ++ dropNoops rbuf = rbuf := by
  fun_induction noops rbuf with
  | case1 a b rest h ih =>
    obtain ⟨rfl, rfl⟩ := h
    rw [dropNoops_zero_zero, Nat.mul_succ, List.replicate_succ, List.replicate_succ]
    simpa using ih
  | case2 a b rest h => rw [dropNoops_of_ne h]; rfl
  | case3 rbuf h => rw [dropNoops_of_short h]; rfl

theorem noops_dropNoops (rbuf : List UInt8) : noops (dropNoops rbuf) = 0 := by
  fun_induction noops rbuf with
  | case1 a b rest h ih =>
    obtain ⟨rfl, rfl⟩ := h
    rwa [dropNoops_zero_zero]
  | case2 a b rest h => rw [dropNoops_of_ne h, noops, if_neg h]
  | case3 rbuf h =>
    rw [dropNoops_of_short h]
    rcases rbuf with _ | ⟨a, _ | ⟨b, rest⟩⟩
    · rfl
    · rfl
    · exact absurd rfl (h a b rest)

/-- Two buffered bytes are enough to see that no NOOP leads. -/
theorem dropNoops_of_noops_eq_zero {rbuf : List UInt8} (h : noops rbuf = 0)
    (hl : 2 ≤ rbuf.length) (xs : List UInt8) : dropNoops (rbuf ++ xs) = rbuf ++ xs := by
  rcases rbuf with _ | ⟨a, _ | ⟨b, rest⟩⟩
  · simp at hl
  · simp at hl
  · rw [noops] at h
    split_ifs at h with h0
    exact dropNoops_of_ne h0 (rest ++ xs)

theorem length_of_walk {rbuf : List UInt8} {pos total : ℕ}
    (h : walk limit rbuf pos total ≠ .incomplete) : pos + 2 ≤ rbuf.length := by
  rw [walk] at h
  cases hh : header rbuf pos with
  | none => simp [hh] at h
  | some size => exact (header_eq_some.mp hh).1

theorem dropNoops_append_of_walk {rbuf : List UInt8}
    (h : walk limit (dropNoops rbuf) 0 0 ≠ .incomplete) (xs : List UInt8) :
    dropNoops (rbuf ++ xs) = dropNoops rbuf ++ xs := by
  have hl := length_of_walk h
  rw [dropNoops_append, dropNoops_of_noops_eq_zero (noops_dropNoops rbuf) (by omega)]

theorem cutMessage_incomplete {rbuf : List UInt8}
    (h : walk limit (dropNoops rbuf) 0 0 = .incomplete) :
    cutMessage limit rbuf = .more (dropNoops rbuf) := by
  simp only [cutMessage, h]

theorem cutMessage_tooLong {rbuf : List UInt8} (h : walk limit (dropNoops rbuf) 0 0 = .tooLong) :
    cutMessage limit rbuf = .fail (.protocol .messageTooLong) (dropNoops rbuf) := by
  simp only [cutMessage, h]

theorem cutMessage_complete {rbuf : List UInt8} {p : ℕ}
    (h : walk limit (dropNoops rbuf) 0 0 = .complete p) : cutMessage limit rbuf =
      .item (copyBody (dropNoops rbuf) p 0) ((dropNoops rbuf).drop (p + 2)) := by
  simp only [cutMessage, h]

theorem cutMessage_more {rbuf rest : List UInt8} (h : cutMessage limit rbuf = .more rest) :
    rest = dropNoops rbuf := by
  cases hw : walk limit (dropNoops rbuf) 0 0 with
  | incomplete => cases (cutMessage_incomplete hw).symm.trans h; rfl
  | tooLong => cases (cutMessage_tooLong hw).symm.trans h
  | complete p => cases (cutMessage_complete hw).symm.trans h

theorem cutMessage_resume {rbuf rest : List UInt8} (h : cutMessage limit rbuf = .more rest)
    (xs : List UInt8) : cutMessage limit (rbuf ++ xs) = cutMessage limit (rest ++ xs) := by
  rw [cutMessage, cutMessage, dropNoops_append, cutMessage_more h]

theorem cutMessage_item {rbuf body rest : List UInt8}
    (h : cutMessage limit rbuf = .item body rest) :
    ∃ p, walk limit (dropNoops rbuf) 0 0 = .complete p ∧
      body = copyBody (dropNoops rbuf) p 0 ∧ rest = (dropNoops rbuf).drop (p + 2) := by
  cases hw : walk limit (dropNoops rbuf) 0 0 with
  | incomplete => cases (cutMessage_incomplete hw).symm.trans h
  | tooLong => cases (cutMessage_tooLong hw).symm.trans h
  | complete p => cases (cutMessage_complete hw).symm.trans h; exact ⟨p, rfl, rfl, rfl⟩

theorem cutMessage_fail {rbuf rest : List UInt8} {e : BoltError}
    (h : cutMessage limit rbuf = .fail e rest) :
    walk limit (dropNoops rbuf) 0 0 = .tooLong ∧ e = .protocol .messageTooLong ∧
      rest = dropNoops rbuf := by
  cases hw : walk limit (dropNoops rbuf) 0 0 with
  | incomplete => cases (cutMessage_incomplete hw).symm.trans h
  | tooLong => cases (cutMessage_tooLong hw).symm.trans h; exact ⟨rfl, rfl, rfl⟩
  | complete p => cases (cutMessage_complete hw).symm.trans h

theorem cutMessage_item_append {rbuf body rest : List UInt8}
    (h : cutMessage limit rbuf = .item body rest) (xs : List UInt8) :
    cutMessage limit (rbuf ++ xs) = .item body (rest ++ xs) := by
  obtain ⟨p, hw, rfl, rfl⟩ := cutMessage_item h
  have hne : walk limit (dropNoops rbuf) 0 0 ≠ .incomplete := by simp [hw]
  have hd := dropNoops_append_of_walk hne xs
  have hw' := walk_complete_append hw xs
  rw [← hd] at hw'
  rw [cutMessage_complete hw', hd, copyBody_append hw xs,
    List.drop_append_of_le_length (walk_complete_le hw).2]

theorem cutMessage_fail_append {rbuf rest : List UInt8} {e : BoltError}
    (h : cutMessage limit rbuf = .fail e rest) (xs : List UInt8) :
    cutMessage limit (rbuf ++ xs) = .fail e (rest ++ xs) := by
  obtain ⟨hw, rfl, rfl⟩ := cutMessage_fail h
  have hne : walk limit (dropNoops rbuf) 0 0 ≠ .incomplete := by simp [hw]
  have hd := dropNoops_append_of_walk hne xs
  have hw' := walk_tooLong_append hw xs
  rw [← hd] at hw'
  rw [cutMessage_tooLong hw', hd]

theorem cutMessage_shrinks {rbuf body rest : List UInt8}
    (h : cutMessage limit rbuf = .item body rest) : rest.length < rbuf.length := by
  obtain ⟨p, hw, rfl, rfl⟩ := cutMessage_item h
  have h1 := (walk_complete_le hw).2
  have h2 : (dropNoops rbuf).length ≤ rbuf.length := by
    rw [dropNoops, List.length_drop]
    omega
  rw [List.length_drop]
  omega

def messageCutter (limit : Option ℕ) : Cutter UInt8 (List UInt8) BoltError where
  cut := cutMessage limit
  shrinks := cutMessage_shrinks
  resume := cutMessage_resume
  item_append := cutMessage_item_append
  fail_append := cutMessage_fail_append

end Boltwire
