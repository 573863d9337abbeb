import Boltwire.PackStreamRoundTrip

namespace Boltwire.PackStream

/-- `m` reads `a` from `e`, and fails on every beginning of `e`. The bounds on
`left` say how much nesting has to be allowed for that. -/
structure Spells {α : Type} (m : ℕ → ReadM α) (e : List UInt8) (a : α) : Prop where
  reads : ∀ left, e.length ≤ left → Reads (m left) e a
  cut : ∀ left pre j, j < e.length → j ≤ left →
    ∃ err, m left ⟨pre ++ e.take j, pre.length⟩ = .error err

def LocalAt (left : ℕ) {α : Type} (m : ℕ → ReadM α) : Prop :=
  ∀ pre xs a r, m left ⟨pre ++ xs, pre.length⟩ = .ok (a, r) →
    ∃ e s, xs = e ++ s ∧ r = ⟨pre ++ xs, pre.length + e.length⟩ ∧ Spells m e a

theorem bind_apply {α β : Type} (m : ReadM α) (f : α → ReadM β) (r : Reader) :
    (m >>= f) r = m r >>= fun p => f p.1 p.2 := rfl

theorem Spells.bind {α β : Type} {m : ℕ → ReadM α} {f : ℕ → α → ReadM β}
    {e e' : List UInt8}
    {a : α} {b : β} (hm : Spells m e a) (hf : Spells (fun left => f left a) e' b) :
    Spells (fun left => m left >>= f left) (e ++ e') b where
  reads left hl := by
    rw [List.length_append] at hl
    exact (hm.reads left (by omega)).bind (hf.reads left (by omega))
  cut left pre j hj hl := by
    rw [bind_apply]
    by_cases hje : j < e.length
    · obtain ⟨err, herr⟩ := hm.cut left pre j hje hl
      rw [List.take_append_of_le_length (by omega), herr]
      exact ⟨err, rfl⟩
    · have hlen : j - e.length < e'.length := by
        rw [List.length_append] at hj
        omega
      obtain ⟨err, herr⟩ := hf.cut left (pre ++ e) (j - e.length) hlen (by omega)
      have hread := hm.reads left (by omega) pre (e'.take (j - e.length))
      rw [List.append_assoc, List.length_append] at herr
      rw [List.take_append, List.take_of_length_le (by omega), hread]
      exact ⟨err, herr⟩

theorem compositional_localAt (left : ℕ) : Compositional (LocalAt left) where
  pure a pre xs a' r h := by
    cases h
    refine ⟨[], xs, rfl, rfl, fun _ _ => Reads.pure a, ?_⟩
    intro left pre j hj
    cases hj
  throw message pre xs a r h := by cases h
  take n pre xs a r h := by
    dsimp only [take] at h
    split at h
    · cases h
    rename_i hn
    cases h
    have hxs : n ≤ xs.length := by
      rw [List.length_append] at hn
      omega
    have hlen : (xs.take n).length = n := by
      rw [List.length_take]
      omega
    have hread := reads_take (xs.take n)
    rw [hlen] at hread
    have hslice : ((pre ++ xs).drop pre.length).take n = xs.take n := by rw [List.drop_left]
    refine ⟨xs.take n, xs.drop n, (List.take_append_drop n xs).symm, by rw [hlen], ?_, ?_⟩
    · intro _ _
      rw [hslice]
      exact hread
    · intro left pre j hj _
      have hshort : (pre ++ (xs.take n).take j).length < pre.length + n := by
        rw [List.length_append, List.length_take]
        omega
      exact ⟨_, if_pos hshort⟩
  bind {α β m f} hm hf pre xs b r h := by
    dsimp only at h
    rw [bind_apply] at h
    cases hr : m left ⟨pre ++ xs, pre.length⟩ with
    | error err =>
      rw [hr] at h
      cases h
    | ok p =>
      obtain ⟨a, r₁⟩ := p
      rw [hr] at h
      -- what the first reads is part of the prefix for the second
      obtain ⟨e, s, rfl, rfl, hspell⟩ := hm pre xs a r₁ hr
      have hrest : f left a ⟨(pre ++ e) ++ s, (pre ++ e).length⟩ = .ok (b, r) := by
        rw [List.append_assoc, List.length_append]
        exact h
      obtain ⟨e', s', rfl, rfl, hspell'⟩ := hf a (pre ++ e) s b r hrest
      refine ⟨e ++ e', s', by rw [List.append_assoc], ?_, hspell.bind hspell'⟩
      simp only [List.append_assoc, List.length_append, Nat.add_assoc]

theorem u8_end (pre : List UInt8) : ∃ err, u8 ⟨pre, pre.length⟩ = .error err := by
  have hshort : pre.length < pre.length + 1 := by omega
  rw [u8, bind_apply, take, if_pos hshort]
  exact ⟨_, rfl⟩

theorem unpackWithin_cons (left : ℕ) (pre : List UInt8) (marker : UInt8) (xs : List UInt8) :
    unpackWithin (left + 1) ⟨pre ++ marker :: xs, pre.length⟩ =
      unpackMarked (unpackWithin left) marker
      ⟨(pre ++ [marker]) ++ xs, (pre ++ [marker]).length⟩ := by
  have hmarker := reads_u8 marker pre xs
  rw [List.singleton_append] at hmarker
  rw [unpackWithin, bind_apply, hmarker, List.append_assoc, List.length_append]
  rfl

theorem unpackWithin_end (left : ℕ) (pre : List UInt8) :
    ∃ err, unpackWithin left ⟨pre, pre.length⟩ = .error err := by
  cases left with
  | zero => exact ⟨_, rfl⟩
  | succ left =>
    obtain ⟨err, herr⟩ := u8_end pre
    rw [unpackWithin, bind_apply, herr]
    exact ⟨err, rfl⟩

/-- The marker and what it announces. -/
theorem Spells.marked {marker : UInt8} {e : List UInt8} {v : BoltValue}
    (h : Spells (fun left => unpackMarked (unpackWithin left) marker) e v) :
    Spells unpackWithin (marker :: e) v where
  reads left hl := by
    rw [List.length_cons] at hl
    obtain ⟨left, rfl⟩ : ∃ k, left = k + 1 := ⟨left - 1, by omega⟩
    exact reads_unpackWithin (h.reads left (by omega))
  cut left pre j hj hl := by
    cases j with
    | zero =>
      rw [List.take_zero, List.append_nil]
      exact unpackWithin_end left pre
    | succ j =>
      rw [List.length_cons] at hj
      obtain ⟨left, rfl⟩ : ∃ k, left = k + 1 := ⟨left - 1, by omega⟩
      rw [List.take_succ_cons, unpackWithin_cons]
      exact h.cut left (pre ++ [marker]) j (by omega) (by omega)

/-- The induction is on the nesting allowed; a nested value is read with less. -/
theorem localAt_unpackWithin (left : ℕ) : LocalAt left unpackWithin := by
  induction left with
  | zero =>
    intro pre xs v r h
    cases h
  | succ left ih =>
    intro pre xs v r h
    cases xs with
    | nil =>
      obtain ⟨err, herr⟩ := unpackWithin_end (left + 1) pre
      rw [List.append_nil, herr] at h
      cases h
    | cons marker xs =>
      rw [unpackWithin_cons] at h
      have hmarked := (compositional_localAt left).unpackMarked ih marker
      obtain ⟨e, s, rfl, rfl, hspell⟩ := hmarked (pre ++ [marker]) xs v r h
      refine ⟨marker :: e, s, rfl, ?_, hspell.marked⟩
      simp only [List.append_assoc, List.singleton_append, List.length_append, List.length_cons,
        List.length_nil]
      congr 1
      omega

/-- What `unpack` returns for a whole buffer. -/
theorem spells_of_unpack {b : List UInt8} {v : BoltValue} {r : Reader}
    (h : Reader.unpack (.new b) = .ok (v, r)) :
    ∃ e s, b = e ++ s ∧ r = ⟨b, e.length⟩ ∧ e ≠ [] ∧ Spells unpackWithin e v := by
  obtain ⟨e, s, rfl, rfl, hspell⟩ := localAt_unpackWithin _ [] b v r h
  refine ⟨e, s, rfl, ?_, ?_, hspell⟩
  · rw [List.nil_append, List.length_nil, Nat.zero_add]
  · rintro rfl
    -- no nesting allowed at all, not even a marker
    cases hspell.reads 0 (Nat.le_refl 0) [] []

theorem Spells.unpack {e : List UInt8} {v : BoltValue} (h : Spells unpackWithin e v)
    (s : List UInt8) : Reader.unpack (.new (e ++ s)) = .ok (v, ⟨e ++ s, e.length⟩) := by
  have hl : e.length ≤ Reader.remaining (.new (e ++ s)) := by
    simp [Reader.remaining, Reader.new]
  have hread := h.reads _ hl [] s
  rwa [List.nil_append, List.length_nil, Nat.zero_add] at hread

theorem Spells.unpack_cut {e : List UInt8} {v : BoltValue} (h : Spells unpackWithin e v) {j : ℕ}
    (hj : j < e.length) : ∃ err, Reader.unpack (.new (e.take j)) = .error err := by
  have hl : j ≤ Reader.remaining (.new (e.take j)) := by
    simp [Reader.remaining, Reader.new]
    omega
  exact h.cut _ [] j hj hl

/-- How the decoder can stop without a value. -/
inductive Halt
  | error (e : BoltError)
  /-- An index, a slice, a subtraction or an array conversion was out of range. -/
  | panic
  /-- Still nesting when the nesting allowed was used up. -/
  | unfinished

abbrev CheckedM := StateT Reader (Except Halt)

namespace Checked

/-- `a - b` on `usize` -/
def sub (a b : ℕ) : CheckedM ℕ := if b ≤ a then return a - b else throw .panic

def slice (buf : List UInt8) (i j : ℕ) : CheckedM (List UInt8) :=
  if i ≤ j ∧ j ≤ buf.length then return (buf.drop i).take (j - i) else throw .panic

def index (bytes : List UInt8) (i : ℕ) : CheckedM UInt8 :=
  if i < bytes.length then return bytes.getD i 0 else throw .panic

/-- `bytes.try_into().unwrap()` into an array of `n` bytes -/
def tryInto (n : ℕ) (bytes : List UInt8) : CheckedM (List UInt8) :=
  if bytes.length = n then return bytes else throw .panic

def take (n : ℕ) : CheckedM (List UInt8) := do
  let r ← get
  if r.buf.length < r.pos + n then
    let left ← sub r.buf.length r.pos
    throw (.error (.protocol (.unexpectedEnd n r.pos left)))
  else
    let bytes ← slice r.buf r.pos (r.pos + n)
    set { r with pos := r.pos + n }
    return bytes

def u8 : CheckedM UInt8 := do
  let bytes ← take 1
  index bytes 0

def size (n : ℕ) : CheckedM ℕ := do
  let bytes ← take n
  if n = 1 then return (← index bytes 0).toNat
  else if n = 2 then return BigEndian.decode [← index bytes 0, ← index bytes 1]
  else if n = 4 then
    return BigEndian.decode [← index bytes 0, ← index bytes 1, ← index bytes 2,
      ← index bytes 3]
  else throw (.error (.protocol .invalidSizeWidth))

def signed (w : ℕ) : CheckedM BoltValue := do
  let bytes ← tryInto w (← take w)
  return .int (Int64.ofInt (BigEndian.decodeSigned w bytes))

def unpackString (n : ℕ) : CheckedM BoltValue := do
  let bytes ← take n
  match fromUtf8 bytes with
  | some s => return .string s
  | none => throw (.error (.protocol .invalidUtf8))

def unpackBytes (width : ℕ) : CheckedM BoltValue := do
  let n ← size width
  return .bytes (← take n)

def remaining : CheckedM ℕ := do
  let r ← get
  sub r.buf.length r.pos

def unpackItems (unpack : CheckedM BoltValue) : ℕ → CheckedM (List BoltValue)
  | 0 => return []
  | n + 1 => do
    let item ← unpack
    let items ← unpackItems unpack n
    return item :: items

/-- The bytes remaining bound what is allocated up front. -/
def unpackN (unpack : CheckedM BoltValue) (n : ℕ) : CheckedM (List BoltValue) := do
  let _ ← remaining
  unpackItems unpack n

def unpackList (unpack : CheckedM BoltValue) (n : ℕ) : CheckedM BoltValue := do
  return .list (← unpackN unpack n)

def unpackEntries (unpack : CheckedM BoltValue) : ℕ → Meta → CheckedM Meta
  | 0, map => return map
  | n + 1, map => do
    match ← unpack with
    | .string key =>
      let value ← unpack
      unpackEntries unpack n (map.insert key value)
    | other => throw (.error (.protocol (.mapKeyNotString other)))

def unpackMap (unpack : CheckedM BoltValue) (n : ℕ) : CheckedM BoltValue := do
  let _ ← remaining
  return .map (← unpackEntries unpack n [])

def unpackStruct (unpack : CheckedM BoltValue) (n : ℕ) : CheckedM BoltValue := do
  let signature ← u8
  return .struct signature (← unpackN unpack n)

def unpackMarked (unpack : CheckedM BoltValue) (marker : UInt8) : CheckedM BoltValue :=
  let low := (marker &&& 0x0F).toNat
  let high := marker &&& 0xF0
  if marker < 0x80 then return .int (Int64.ofNat marker.toNat)
  else if 0xF0 ≤ marker then return .int (Int64.ofInt (BigEndian.decodeSigned 1 [marker]))
  else if high = TINY_STRING then unpackString low
  else if high = TINY_LIST then unpackList unpack low
  else if high = TINY_MAP then unpackMap unpack low
  else if high = TINY_STRUCT then unpackStruct unpack low
  else if marker = NULL then return .null
  else if marker = TRUE then return .bool true
  else if marker = FALSE then return .bool false
  else if marker = FLOAT_64 then do
    return .float (UInt64.ofNat (BigEndian.decode (← tryInto 8 (← take 8))))
  else if marker = INT_8 then do
    return .int (Int64.ofInt (BigEndian.decodeSigned 1 [← index (← take 1) 0]))
  else if marker = INT_16 then signed 2
  else if marker = INT_32 then signed 4
  else if marker = INT_64 then signed 8
  else if marker = BYTES_8 then unpackBytes 1
  else if marker = BYTES_16 then unpackBytes 2
  else if marker = BYTES_32 then unpackBytes 4
  else if marker = STRING_8 then do unpackString (← size 1)
  else if marker = STRING_16 then do unpackString (← size 2)
  else if marker = STRING_32 then do unpackString (← size 4)
  else if marker = LIST_8 then do unpackList unpack (← size 1)
  else if marker = LIST_16 then do unpackList unpack (← size 2)
  else if marker = LIST_32 then do unpackList unpack (← size 4)
  else if marker = MAP_8 then do unpackMap unpack (← size 1)
  else if marker = MAP_16 then do unpackMap unpack (← size 2)
  else if marker = MAP_32 then do unpackMap unpack (← size 4)
  else if marker = STRUCT_8 then do unpackStruct unpack (← size 1)
  else if marker = STRUCT_16 then do unpackStruct unpack (← size 2)
  else if marker = STRUCT_32 then do unpackStruct unpack (← size 4)
  else throw (.error (.protocol (.unknownMarker marker)))

/-- `unpack`, at most `depth` calls deep. The stack of the machine, which a nesting as deep
as the buffer is long may use up, is not part of the model. -/
def unpack : ℕ → CheckedM BoltValue
  | 0 => throw .unfinished
  | depth + 1 => do
    let marker ← u8
    unpackMarked (unpack depth) marker

end Checked

/-- Inside its buffer, with at most `k` bytes to go. -/
def Reader.Inside (k : ℕ) (r : Reader) : Prop := r.pos ≤ r.buf.length ∧ r.remaining ≤ k

/-- Inside the buffer no check fails, and the cursor stays inside. -/
def Agrees (k : ℕ) {α : Type} (m' : CheckedM α) (m : ReadM α) : Prop :=
  ∀ r : Reader, r.Inside k → m' r = (m r).mapError Halt.error ∧
    ∀ a r', m r = .ok (a, r') → r'.Inside k

namespace Agrees
variable {k : ℕ} {α β : Type}

theorem pure (a : α) : Agrees k (pure a) (pure a) := by
  intro r hr
  refine ⟨rfl, ?_⟩
  intro a' r' h
  cases h
  exact hr

theorem throw (e : BoltError) :
    Agrees k (throw (.error e) : CheckedM α) (throw e : ReadM α) := by
  intro r _
  refine ⟨rfl, ?_⟩
  intro a' r' h
  cases h

theorem bind_of {m' : CheckedM α} {m : ReadM α} {f' : α → CheckedM β} {f : α → ReadM β}
    {r : Reader} (hm : m' r = (m r).mapError Halt.error)
    (hf : ∀ a r₁, m r = .ok (a, r₁) → f' a r₁ = (f a r₁).mapError Halt.error ∧
      ∀ b r', f a r₁ = .ok (b, r') → r'.Inside k) :
    (m' >>= f') r = ((m >>= f) r).mapError Halt.error ∧
      ∀ b r', (m >>= f) r = .ok (b, r') → r'.Inside k := by
  change (m' r >>= fun p => f' p.1 p.2) = _ ∧ _
  rw [bind_apply, hm]
  cases hr : m r with
  | error e =>
    refine ⟨rfl, ?_⟩
    intro b r' h
    cases h
  | ok p => exact hf p.1 p.2 hr

theorem bind {m' : CheckedM α} {m : ReadM α} {f' : α → CheckedM β} {f : α → ReadM β}
    (hm : Agrees k m' m) (hf : ∀ a, Agrees k (f' a) (f a)) :
    Agrees k (m' >>= f') (m >>= f) := by
  intro r hr
  obtain ⟨heq, hin⟩ := hm r hr
  apply bind_of heq
  intro a r₁ h₁
  exact hf a r₁ (hin a r₁ h₁)

theorem branch {p : Prop} [Decidable p] {m' n' : CheckedM α} {m n : ReadM α} (hm : Agrees k m' m)
    (hn : Agrees k n' n) : Agrees k (if p then m' else n') (if p then m else n) := by
  split_ifs
  · exact hm
  · exact hn

theorem take_apply {n : ℕ} {r : Reader} (hr : r.Inside k) :
    Checked.take n r = (PackStream.take n r).mapError Halt.error ∧
      ∀ bs r', PackStream.take n r = .ok (bs, r') →
        bs.length = n ∧ r'.pos ≤ r'.buf.length ∧ r'.remaining = r.remaining - n := by
  have hchecked : Checked.take n r = (if r.buf.length < r.pos + n then
      (do MonadExcept.throw (Halt.error (.protocol
        (.unexpectedEnd n r.pos (← Checked.sub r.buf.length r.pos)))))
    else do
      let bytes ← Checked.slice r.buf r.pos (r.pos + n)
      set { r with pos := r.pos + n }
      return bytes) r := rfl
  rw [hchecked, PackStream.take]
  split_ifs with hn
  · refine ⟨?_, by simp⟩
    rw [Checked.sub, if_pos hr.1]
    rfl
  · have hslice : r.pos ≤ r.pos + n ∧ r.pos + n ≤ r.buf.length := by omega
    refine ⟨?_, ?_⟩
    · rw [Checked.slice, if_pos hslice, Nat.add_sub_cancel_left]
      rfl
    · intro bs r' h
      cases h
      refine ⟨?_, hslice.2, ?_⟩
      · rw [List.length_take, List.length_drop]
        omega
      · simp only [Reader.remaining]
        omega

/-- A read of `n` bytes, when it succeeds, has exactly `n` of them. -/
theorem take_bind (n : ℕ) {f' : List UInt8 → CheckedM β} {f : List UInt8 → ReadM β}
    (hf : ∀ bs, bs.length = n → Agrees k (f' bs) (f bs)) :
    Agrees k (Checked.take n >>= f') (PackStream.take n >>= f) := by
  intro r hr
  obtain ⟨heq, hin⟩ := take_apply hr
  apply bind_of heq
  intro bs r₁ h₁
  obtain ⟨hlen, hpos, hrem⟩ := hin bs r₁ h₁
  have hk := hr.2
  exact hf bs hlen r₁ ⟨hpos, by omega⟩

theorem u8 : Agrees k Checked.u8 u8 := by
  apply take_bind
  intro bs hbs
  obtain ⟨b, rfl⟩ := List.length_eq_one_iff.mp hbs
  exact pure b

theorem size (n : ℕ) : Agrees k (Checked.size n) (size n) := by
  apply take_bind
  intro bs hbs
  by_cases h1 : n = 1
  · subst h1
    obtain ⟨b, rfl⟩ := List.length_eq_one_iff.mp hbs
    have hb : BigEndian.decode [b] = b.toNat := by simp [BigEndian.decode]
    rw [if_pos (Or.inl rfl), hb]
    exact pure b.toNat
  by_cases h2 : n = 2
  · subst h2
    obtain ⟨b₀, b₁, rfl⟩ := List.length_eq_two.mp hbs
    exact pure (BigEndian.decode [b₀, b₁])
  by_cases h4 : n = 4
  · subst h4
    obtain ⟨b₀, b₁, b₂, b₃, rfl⟩ := List.length_eq_four.mp hbs
    exact pure (BigEndian.decode [b₀, b₁, b₂, b₃])
  · have hw : ¬ (n = 1 ∨ n = 2 ∨ n = 4) := by omega
    rw [if_neg h1, if_neg h2, if_neg h4, if_neg hw]
    exact throw _

theorem signed (w : ℕ) : Agrees k (Checked.signed w) (signed w) := by
  apply take_bind
  intro bs hbs
  rw [Checked.tryInto, if_pos hbs]
  exact pure _

theorem take (n : ℕ) : Agrees k (Checked.take n) (take n) := by
  have h := take_bind (k := k) n fun bs _ => pure bs
  simpa using h

theorem unpackString (n : ℕ) : Agrees k (Checked.unpackString n) (unpackString n) := by
  apply take_bind
  intro bs _
  cases fromUtf8 bs with
  | some s => exact pure _
  | none => exact throw _

theorem unpackBytes (width : ℕ) : Agrees k (Checked.unpackBytes width) (unpackBytes width) :=
  (size width).bind fun n => (take n).bind fun _ => pure _

theorem remaining_bind {m' : CheckedM α} {m : ReadM α} (h : Agrees k m' m) :
    Agrees k (do let _ ← Checked.remaining; m') m := by
  intro r hr
  have hsub : (do let _ ← Checked.remaining; m') r = m' r := by
    change (Checked.sub r.buf.length r.pos >>= fun _ => m') r = m' r
    rw [Checked.sub, if_pos hr.1]
    rfl
  rw [hsub]
  exact h r hr

section Nested
variable {unpack' : CheckedM BoltValue} {unpack : ReadM BoltValue} (h : Agrees k unpack' unpack)
include h

theorem unpackN (n : ℕ) : Agrees k (Checked.unpackN unpack' n) (unpackN unpack n) := by
  apply remaining_bind
  induction n with
  | zero => exact pure _
  | succ n ih => exact h.bind fun _ => ih.bind fun _ => pure _

theorem unpackEntries (n : ℕ) (m : Meta) :
    Agrees k (Checked.unpackEntries unpack' n m) (unpackEntries unpack n m) := by
  induction n generalizing m with
  | zero => exact pure _
  | succ n ih =>
    apply h.bind
    intro key
    cases key with
    | string key => exact h.bind fun value => ih _
    | _ => exact throw _

theorem unpackList (n : ℕ) : Agrees k (Checked.unpackList unpack' n) (unpackList unpack n) :=
  (h.unpackN n).bind fun _ => pure _

theorem unpackMap (n : ℕ) : Agrees k (Checked.unpackMap unpack' n) (unpackMap unpack n) :=
  remaining_bind ((h.unpackEntries n []).bind fun _ => pure _)

theorem unpackStruct (n : ℕ) :
    Agrees k (Checked.unpackStruct unpack' n) (unpackStruct unpack n) :=
  u8.bind fun _ => (h.unpackN n).bind fun _ => pure _

theorem unpackMarked (marker : UInt8) :
    Agrees k (Checked.unpackMarked unpack' marker) (unpackMarked unpack marker) := by
  have hfloat : Agrees k
      (do return BoltValue.float (UInt64.ofNat (BigEndian.decode
        (← Checked.tryInto 8 (← Checked.take 8)))))
      (do return BoltValue.float (UInt64.ofNat (BigEndian.decode (← PackStream.take 8)))) := by
    apply take_bind
    intro bs hbs
    rw [Checked.tryInto, if_pos hbs]
    exact pure _
  -- INT_8 indexes the slice, the wider ones convert it
  have hint8 : Agrees k
      (do return BoltValue.int (Int64.ofInt (BigEndian.decodeSigned 1
        [← Checked.index (← Checked.take 1) 0])))
      (PackStream.signed 1) := by
    apply take_bind
    intro bs hbs
    obtain ⟨b, rfl⟩ := List.length_eq_one_iff.mp hbs
    exact pure _
  have hstring : ∀ n, Agrees k (do Checked.unpackString (← Checked.size n))
      (do PackStream.unpackString (← PackStream.size n)) := fun n => (size n).bind unpackString
  have hlist : ∀ n, Agrees k (do Checked.unpackList unpack' (← Checked.size n))
      (do PackStream.unpackList unpack (← PackStream.size n)) :=
      fun n => (size n).bind h.unpackList
  have hmap : ∀ n, Agrees k (do Checked.unpackMap unpack' (← Checked.size n))
      (do PackStream.unpackMap unpack (← PackStream.size n)) := fun n => (size n).bind h.unpackMap
  have hstruct : ∀ n, Agrees k (do Checked.unpackStruct unpack' (← Checked.size n))
      (do PackStream.unpackStruct unpack (← PackStream.size n)) :=
    fun n => (size n).bind h.unpackStruct
  exact (pure _).branch <| (pure _).branch <| (unpackString _).branch <|
    (h.unpackList _).branch <| (h.unpackMap _).branch <| (h.unpackStruct _).branch <|
    (pure _).branch <| (pure _).branch <| (pure _).branch <| hfloat.branch <|
    hint8.branch <| (signed 2).branch <| (signed 4).branch <| (signed 8).branch <|
    (unpackBytes 1).branch <| (unpackBytes 2).branch <| (unpackBytes 4).branch <|
    (hstring 1).branch <| (hstring 2).branch <| (hstring 4).branch <| (hlist 1).branch <|
    (hlist 2).branch <| (hlist 4).branch <| (hmap 1).branch <| (hmap 2).branch <|
    (hmap 4).branch <| (hstruct 1).branch <| (hstruct 2).branch <| (hstruct 4).branch <|
    throw _

end Nested

/-- The marker takes one of the bytes to go. -/
theorem u8_inside {r r₁ : Reader} {b : UInt8} (hr : r.Inside k)
    (h : PackStream.u8 r = .ok (b, r₁)) : ∃ k', k = k' + 1 ∧ r₁.Inside k' := by
  rw [PackStream.u8, bind_apply, PackStream.take] at h
  split_ifs at h with hend
  · cases h
  cases h
  obtain ⟨hpos, hrem⟩ := hr
  unfold Reader.remaining at hrem
  refine ⟨k - 1, by omega, ?_, ?_⟩
  · dsimp only
    omega
  · simp only [Reader.remaining]
    omega

theorem unpackWithin_zero {r : Reader} (hr : r.Inside 0) :
    unpackWithin 0 r = (PackStream.u8 >>= PackStream.unpackMarked (unpackWithin 0)) r := by
  have hend : r.buf.length < r.pos + 1 := by
    have hrem := hr.2
    unfold Reader.remaining at hrem
    omega
  rw [bind_apply, PackStream.u8, bind_apply, PackStream.take, if_pos hend]
  rfl

/-- The induction is on the calls allowed, and every call takes a byte. -/
theorem unpack {depth left : ℕ} (hd : k < depth) (hl : k ≤ left) :
    Agrees k (Checked.unpack depth) (unpackWithin left) := by
  induction depth generalizing k left with
  | zero => omega
  | succ depth ih =>
    -- a marker is read before anything nested, so fewer bytes are left for that
    have hcall : ∀ l, k ≤ l + 1 → ∀ r : Reader, r.Inside k →
        Checked.unpack (depth + 1) r =
          ((PackStream.u8 >>= PackStream.unpackMarked (unpackWithin l)) r).mapError Halt.error ∧
        ∀ v r', (PackStream.u8 >>= PackStream.unpackMarked (unpackWithin l)) r = .ok (v, r') →
          r'.Inside k := by
      intro l hkl r hr
      apply bind_of (u8 r hr).1
      intro marker r₁ h₁
      obtain ⟨k', rfl, hr₁⟩ := u8_inside hr h₁
      have hnested : Agrees k' (Checked.unpack depth) (unpackWithin l) := ih (by omega) (by omega)
      obtain ⟨heq, hin⟩ := hnested.unpackMarked marker r₁ hr₁
      refine ⟨heq, ?_⟩
      intro v r' h
      obtain ⟨hpos, hrem⟩ := hin v r' h
      exact ⟨hpos, by omega⟩
    intro r hr
    cases left with
    | succ left => exact hcall left hl r hr
    | zero =>
      obtain rfl : k = 0 := by omega
      rw [unpackWithin_zero hr]
      exact hcall 0 (by omega) r hr

end Agrees

/-- Decoding ends without a failed check, however much a container claims to
hold; a value it returns depends on the bytes consumed only, and on all of them. -/
theorem unpack_local (b : List UInt8) :
    (∀ depth, b.length < depth →
      Checked.unpack depth (.new b) = (Reader.unpack (.new b)).mapError Halt.error) ∧
    ∀ v r, Reader.unpack (.new b) = .ok (v, r) →
      (r.buf = b ∧ 1 ≤ r.pos ∧ r.pos ≤ b.length) ∧
      (∀ s, Reader.unpack (.new (b.take r.pos ++ s)) =
        .ok (v, ⟨b.take r.pos ++ s, r.pos⟩)) ∧
      ∀ j, j < r.pos → ∃ e, Reader.unpack (.new (b.take j)) = .error e := by
  refine ⟨?_, ?_⟩
  · intro depth hdepth
    have hin : (Reader.new b).Inside b.length := by
      simp [Reader.Inside, Reader.new, Reader.remaining]
    exact (Agrees.unpack hdepth (Nat.le_refl _) _ hin).1
  · intro v r h
    obtain ⟨e, s, rfl, rfl, hne, hspell⟩ := spells_of_unpack h
    have hpos : 0 < e.length := List.length_pos_iff.mpr hne
    refine ⟨⟨rfl, hpos, ?_⟩, ?_, ?_⟩
    · simp
    · intro s'
      rw [List.take_left]
      exact hspell.unpack s'
    · intro j hj
      rw [List.take_append_of_le_length (Nat.le_of_lt hj)]
      exact hspell.unpack_cut hj

end Boltwire.PackStream
