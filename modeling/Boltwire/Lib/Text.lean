import Mathlib.Tactic

namespace Text

def splitOnce (s pattern : String) : Option (String × String) :=
  (s.toList.dropInfix? pattern.toList).map (Prod.map String.ofList String.ofList)

def rsplitOnce (s pattern : String) : Option (String × String) :=
  (s.toList.reverse.dropInfix? pattern.toList.reverse).map fun (after, before) =>
    (String.ofList before.reverse, String.ofList after.reverse)

def stripPrefix (s pattern : String) : Option String :=
  (s.toList.dropPrefix? pattern.toList).map String.ofList

def split (s : String) (c : Char) : List String := (s.toList.splitOn c).map String.ofList

/-- Decimal digits after an optional plus sign, at least one of them, for a number up to `max`. -/
def parseUnsigned (max : ℕ) (s : String) : Option ℕ :=
  let digits := ((stripPrefix s "+").getD s).toList
  let n := Nat.ofDigitChars 10 digits 0
  if digits ≠ [] ∧ digits.all Char.isDigit ∧ n ≤ max then some n else none

section Lists
variable {α : Type} [BEq α] [LawfulBEq α] {c : α} {l a b p : List α}

theorem dropInfix?_append (h : c ∉ a) : (a ++ c :: p ++ b).dropInfix? (c :: p) = some (a, b) := by
  apply List.dropInfix?_eq_some_iff.mpr
  constructor
  · exact ⟨c :: p, rfl, BEq.rfl⟩
  · intro a' i b' heq hi
    rw [eq_of_beq hi] at heq
    -- an earlier occurrence would put `c` among the characters of `a`
    by_contra hlt
    apply h
    have hget := congrArg (fun l => l[a'.length]?) heq
    have hlt' : a'.length < a.length := by omega
    simp only [List.append_assoc, List.getElem?_append_left hlt',
      List.getElem?_append_right (Nat.le_refl _), Nat.sub_self, List.cons_append,
      List.getElem?_cons_zero] at hget
    exact List.mem_of_getElem? hget

theorem eq_of_dropInfix? (h : l.dropInfix? p = some (a, b)) : l = a ++ p ++ b := by
  obtain ⟨⟨p', heq, hp⟩, -⟩ := List.dropInfix?_eq_some_iff.mp h
  rw [heq, eq_of_beq hp]

theorem dropInfix?_of_not_mem (h : c ∉ l) : l.dropInfix? [c] = none := by
  apply Option.eq_none_iff_forall_ne_some.mpr
  intro ab hcut
  apply h
  rw [eq_of_dropInfix? (a := ab.1) (b := ab.2) hcut]
  simp

end Lists

variable {s t a b pattern : String} {c : Char}

theorem splitOnce_append {p : List Char} (hp : pattern.toList = c :: p) (h : c ∉ a.toList) :
    splitOnce (a ++ pattern ++ b) pattern = some (a, b) := by
  have hcut := dropInfix?_append (b := b.toList) (p := p) h
  rw [splitOnce, String.toList_append, String.toList_append, hp, hcut]
  simp

theorem splitOnce_of_not_mem (hp : pattern.toList = [c]) (h : c ∉ s.toList) :
    splitOnce s pattern = none := by
  rw [splitOnce, hp, dropInfix?_of_not_mem h, Option.map_none]

theorem splitOnce_of_mem (hp : pattern.toList = [c]) (h : c ∈ s.toList) :
    ∃ a b, splitOnce s pattern = some (a, b) ∧ c ∉ a.toList ∧ s = a ++ pattern ++ b := by
  obtain ⟨a, b, hl, ha⟩ := List.eq_append_cons_of_mem h
  have hs : s = String.ofList a ++ pattern ++ String.ofList b := by
    apply String.toList_inj.mp
    simp [hp, hl]
  have ha' : c ∉ (String.ofList a).toList := by rwa [String.toList_ofList]
  refine ⟨String.ofList a, String.ofList b, ?_, ha', hs⟩
  rw [hs]
  exact splitOnce_append hp ha'

/-- What stands before the first occurrence does not contain the character. -/
theorem not_mem_of_splitOnce (hp : pattern.toList = [c])
    (h : splitOnce s pattern = some (a, b)) : c ∉ a.toList ∧ s = a ++ pattern ++ b := by
  by_cases hc : c ∈ s.toList
  · obtain ⟨a', b', hcut, ha, hs⟩ := splitOnce_of_mem hp hc
    rw [h] at hcut
    cases hcut
    exact ⟨ha, hs⟩
  · rw [splitOnce_of_not_mem hp hc] at h
    contradiction

theorem not_mem_of_splitOnce_none (hp : pattern.toList = [c]) (h : splitOnce s pattern = none) :
    c ∉ s.toList := by
  intro hc
  obtain ⟨a, b, hcut, -⟩ := splitOnce_of_mem hp hc
  rw [h] at hcut
  contradiction

theorem rsplitOnce_append (hp : pattern.toList = [c]) (h : c ∉ b.toList) :
    rsplitOnce (a ++ pattern ++ b) pattern = some (a, b) := by
  have hb : c ∉ b.toList.reverse := by rwa [List.mem_reverse]
  have hcut := dropInfix?_append (b := a.toList.reverse) (p := []) hb
  have hrev : (a ++ pattern ++ b).toList.reverse =
      b.toList.reverse ++ [c] ++ a.toList.reverse := by
    simp [hp]
  rw [rsplitOnce, hrev, hp, List.reverse_singleton, hcut]
  simp

theorem rsplitOnce_of_not_mem (hp : pattern.toList = [c]) (h : c ∉ s.toList) :
    rsplitOnce s pattern = none := by
  have hs : c ∉ s.toList.reverse := by rwa [List.mem_reverse]
  rw [rsplitOnce, hp, List.reverse_singleton, dropInfix?_of_not_mem hs, Option.map_none]

theorem stripPrefix_append (p s : String) : stripPrefix (p ++ s) p = some s := by
  rw [stripPrefix, String.toList_append, List.dropPrefix?_append_of_beq _ BEq.rfl]
  simp

theorem stripPrefix_eq_some (h : stripPrefix s pattern = some t) : s = pattern ++ t := by
  obtain ⟨l, hl, ht⟩ := Option.map_eq_some_iff.mp h
  obtain ⟨p, hs, hp⟩ := List.dropPrefix?_eq_some_iff.mp hl
  apply String.toList_inj.mp
  rw [hs, eq_of_beq hp, String.toList_append, ← ht, String.toList_ofList]

theorem stripPrefix_eq_none (hp : pattern.toList = [c]) (h : s.toList.head? ≠ some c) :
    stripPrefix s pattern = none := by
  apply Option.eq_none_iff_forall_ne_some.mpr
  intro t hs
  apply h
  rw [stripPrefix_eq_some hs, String.toList_append, hp]
  rfl

/-- A string without the separator is the only piece. -/
theorem split_of_not_mem (h : c ∉ s.toList) : split s c = [s] := by
  rw [split, List.splitOn_eq_singleton h]
  simp

theorem isDigit_of_mem_toString {n : ℕ} (h : c ∈ (toString n).toList) : c.isDigit = true := by
  have hdigits : (toString n).toList = Nat.toDigits 10 n := by simp
  rw [hdigits] at h
  exact Nat.isDigit_of_mem_toDigits (by omega) (by omega) h

/-- A number within the bound is read back from its decimal digits. -/
theorem parseUnsigned_toString {max n : ℕ} (h : n ≤ max) :
    parseUnsigned max (toString n) = some n := by
  have hdigits : (toString n).toList = Nat.toDigits 10 n := by simp
  have hplus : stripPrefix (toString n) "+" = none := by
    apply stripPrefix_eq_none (c := '+') rfl
    intro hhead
    have := isDigit_of_mem_toString (List.mem_of_head? hhead)
    contradiction
  have hall : (Nat.toDigits 10 n).all Char.isDigit = true := by
    apply List.all_eq_true.mpr
    intro c hc
    rw [← hdigits] at hc
    exact isDigit_of_mem_toString hc
  simp only [parseUnsigned, hplus, Option.getD_none, hdigits, hall,
    Nat.ofDigitChars_ten_toDigits]
  rw [if_pos ⟨Nat.toDigits_ne_nil, trivial, h⟩]

end Text
