import Boltwire.Lib.BigEndian
import Boltwire.Value

namespace Boltwire.PackStream

def NULL : UInt8 := 0xC0
def FLOAT_64 : UInt8 := 0xC1
def FALSE : UInt8 := 0xC2
def TRUE : UInt8 := 0xC3
def INT_8 : UInt8 := 0xC8
def INT_16 : UInt8 := 0xC9
def INT_32 : UInt8 := 0xCA
def INT_64 : UInt8 := 0xCB
def BYTES_8 : UInt8 := 0xCC
def BYTES_16 : UInt8 := 0xCD
def BYTES_32 : UInt8 := 0xCE
def TINY_STRING : UInt8 := 0x80
def STRING_8 : UInt8 := 0xD0
def STRING_16 : UInt8 := 0xD1
def STRING_32 : UInt8 := 0xD2
def TINY_LIST : UInt8 := 0x90
def LIST_8 : UInt8 := 0xD4
def LIST_16 : UInt8 := 0xD5
def LIST_32 : UInt8 := 0xD6
def TINY_MAP : UInt8 := 0xA0
def MAP_8 : UInt8 := 0xD8
def MAP_16 : UInt8 := 0xD9
def MAP_32 : UInt8 := 0xDA
def TINY_STRUCT : UInt8 := 0xB0
def STRUCT_8 : UInt8 := 0xDC
def STRUCT_16 : UInt8 := 0xDD
def STRUCT_32 : UInt8 := 0xDE

def tagged (out : List UInt8) (marker : UInt8) (payload : List UInt8) : List UInt8 :=
  out ++ [marker] ++ payload

/-- The narrowest width that holds `i`. -/
def packInt (i : Int64) (out : List UInt8) : List UInt8 :=
  if -16 ≤ i.toInt ∧ i.toInt ≤ 127 then out ++ [UInt8.ofNat i.toBitVec.toNat]
  else if -128 ≤ i.toInt ∧ i.toInt ≤ 127 then
    tagged out INT_8 (BigEndian.encode 1 i.toBitVec.toNat)
  else if -32768 ≤ i.toInt ∧ i.toInt ≤ 32767 then
    tagged out INT_16 (BigEndian.encode 2 i.toBitVec.toNat)
  else if -2147483648 ≤ i.toInt ∧ i.toInt ≤ 2147483647 then
    tagged out INT_32 (BigEndian.encode 4 i.toBitVec.toNat)
  else tagged out INT_64 (BigEndian.encode 8 i.toBitVec.toNat)

def packHeader (size : ℕ) (tiny m8 m16 : UInt8) (label : String) (out : List UInt8) :
    Except BoltError (List UInt8) :=
  if size < 16 then .ok (out ++ [tiny ||| UInt8.ofNat size])
  else if size < 256 then .ok (tagged out m8 (BigEndian.encode 1 size))
  else if size < 65536 then .ok (tagged out m16 (BigEndian.encode 2 size))
  -- markers are consecutive: the 32-bit one is `m16 + 1`
  else if size < 2 ^ 32 then .ok (tagged out (m16 + 1) (BigEndian.encode 4 size))
  else .error (.protocol (.tooLarge label size))

def packString (s : String) (out : List UInt8) : Except BoltError (List UInt8) := do
  let out ← packHeader (utf8 s).length TINY_STRING STRING_8 STRING_16 "string" out
  return out ++ utf8 s

/-- No size check here: from 2^32 bytes on, the cast to `u32` drops the high bits. -/
def packBytes (b : List UInt8) (out : List UInt8) : List UInt8 :=
  let n := b.length
  if n < 256 then tagged out BYTES_8 (BigEndian.encode 1 n) ++ b
  else if n < 65536 then tagged out BYTES_16 (BigEndian.encode 2 n) ++ b
  else tagged out BYTES_32 (BigEndian.encode 4 n) ++ b

mutual
def pack : BoltValue → List UInt8 → Except BoltError (List UInt8)
  | .null, out => .ok (out ++ [NULL])
  | .bool true, out => .ok (out ++ [TRUE])
  | .bool false, out => .ok (out ++ [FALSE])
  | .int i, out => .ok (packInt i out)
  | .float bits, out => .ok (tagged out FLOAT_64 (BigEndian.encode 8 bits.toNat))
  | .string s, out => packString s out
  | .bytes b, out => .ok (packBytes b out)
  | .list items, out => do
    let out ← packHeader items.length TINY_LIST LIST_8 LIST_16 "list" out
    packSeq items out
  | .map entries, out => do
    let out ← packHeader entries.length TINY_MAP MAP_8 MAP_16 "map" out
    packEntries entries out
  | .struct signature fields, out => do
    let out ← packHeader fields.length TINY_STRUCT STRUCT_8 STRUCT_16 "struct" out
    packSeq fields (out ++ [signature])

def packSeq : List BoltValue → List UInt8 → Except BoltError (List UInt8)
  | [], out => .ok out
  | item :: items, out => do
    let out ← pack item out
    packSeq items out

/-- The loop of `pack_map`, over the entries in iteration order. -/
def packEntries : List (String × BoltValue) → List UInt8 → Except BoltError (List UInt8)
  | [], out => .ok out
  | (k, v) :: entries, out => do
    let out ← packString k out
    let out ← pack v out
    packEntries entries out
end

/-- A cursor over a fully buffered message body. Lengths and positions are natural
numbers. -/
structure Reader where
  buf : List UInt8
  pos : ℕ
  deriving Repr, DecidableEq

def Reader.new (buf : List UInt8) : Reader := ⟨buf, 0⟩

def Reader.remaining (r : Reader) : ℕ := r.buf.length - r.pos

abbrev ReadM := StateT Reader (Except BoltError)

/-- `checked_add` never overflows where `usize` has 64 bits: a slice has at most
`isize::MAX` bytes and every `n` is below 2^32. With 32 bits it can, and the error is
then `length overflow`. -/
def take (n : ℕ) : ReadM (List UInt8) := fun r =>
  if r.buf.length < r.pos + n then
    .error (.protocol (.unexpectedEnd n r.pos (r.buf.length - r.pos)))
  else .ok ((r.buf.drop r.pos).take n, { r with pos := r.pos + n })

def u8 : ReadM UInt8 := do
  let bs ← take 1
  return bs.getD 0 0

def size (n : ℕ) : ReadM ℕ := do
  let bs ← take n
  if n = 1 ∨ n = 2 ∨ n = 4 then return BigEndian.decode bs
  else throw (.protocol .invalidSizeWidth)

/-- A `w`-byte two's complement integer, sign-extended to 64 bits. -/
def signed (w : ℕ) : ReadM BoltValue := do
  let bs ← take w
  return .int (Int64.ofInt (BigEndian.decodeSigned w bs))

def unpackString (n : ℕ) : ReadM BoltValue := do
  let bs ← take n
  match fromUtf8 bs with
  | some s => return .string s
  | none => throw (.protocol .invalidUtf8)

def unpackBytes (width : ℕ) : ReadM BoltValue := do
  let n ← size width
  return .bytes (← take n)

def unpackN (unpack : ReadM BoltValue) : ℕ → ReadM (List BoltValue)
  | 0 => return []
  | n + 1 => do
    let item ← unpack
    let items ← unpackN unpack n
    return item :: items

def unpackList (unpack : ReadM BoltValue) (n : ℕ) : ReadM BoltValue := do
  return .list (← unpackN unpack n)

/-- `n` more entries inserted into `map`; a repeated key keeps its last value. -/
def unpackEntries (unpack : ReadM BoltValue) : ℕ → Meta → ReadM Meta
  | 0, map => return map
  | n + 1, map => do
    match ← unpack with
    | .string key =>
      let value ← unpack
      unpackEntries unpack n (map.insert key value)
    | other => throw (.protocol (.mapKeyNotString other))

def unpackMap (unpack : ReadM BoltValue) (n : ℕ) : ReadM BoltValue := do
  return .map (← unpackEntries unpack n [])

def unpackStruct (unpack : ReadM BoltValue) (n : ℕ) : ReadM BoltValue := do
  let signature ← u8
  return .struct signature (← unpackN unpack n)

def unpackMarked (unpack : ReadM BoltValue) (marker : UInt8) : ReadM BoltValue :=
  let low := (marker &&& 0x0F).toNat
  let high := marker &&& 0xF0
  if marker < 0x80 then return .int (Int64.ofNat marker.toNat)
  else if 0xF0 ≤ marker then return .int (Int64.ofInt (BigEndian.decodeSigned 1 [marker]))
  else if high = TINY_STRING then unpackString low
  else if high = TINY_LIST then unpackList unpack low
  else if high = TINY_MAP then unpackMap unpack low
  else if high = TINY_STRUCT then unpackStruct unpack low
  else if marker = NULL then return .null
  else if marker = TRUE then return .bool true
  else if marker = FALSE then return .bool false
  else if marker = FLOAT_64 then do return .float (UInt64.ofNat (BigEndian.decode (← take 8)))
  else if marker = INT_8 then signed 1
  else if marker = INT_16 then signed 2
  else if marker = INT_32 then signed 4
  else if marker = INT_64 then signed 8
  else if marker = BYTES_8 then unpackBytes 1
  else if marker = BYTES_16 then unpackBytes 2
  else if marker = BYTES_32 then unpackBytes 4
  else if marker = STRING_8 then do unpackString (← size 1)
  else if marker = STRING_16 then do unpackString (← size 2)
  else if marker = STRING_32 then do unpackString (← size 4)
  else if marker = LIST_8 then do unpackList unpack (← size 1)
  else if marker = LIST_16 then do unpackList unpack (← size 2)
  else if marker = LIST_32 then do unpackList unpack (← size 4)
  else if marker = MAP_8 then do unpackMap unpack (← size 1)
  else if marker = MAP_16 then do unpackMap unpack (← size 2)
  else if marker = MAP_32 then do unpackMap unpack (← size 4)
  else if marker = STRUCT_8 then do unpackStruct unpack (← size 1)
  else if marker = STRUCT_16 then do unpackStruct unpack (← size 2)
  else if marker = STRUCT_32 then do unpackStruct unpack (← size 4)
  else throw (.protocol (.unknownMarker marker))

/-- Decode the next value with at most `left` bytes to go. Every nested value
costs a byte, so `left` bounds the nesting; at zero there is no marker to read
and the error is the one `u8` gives at the end of the buffer. -/
def unpackWithin : ℕ → ReadM BoltValue
  | 0 => fun r => .error (.protocol (.unexpectedEnd 1 r.pos (r.buf.length - r.pos)))
  | left + 1 => do
    let marker ← u8
    unpackMarked (unpackWithin left) marker

def Reader.unpack : ReadM BoltValue := fun r => unpackWithin r.remaining r

/-- A property of decoders, as families over the nesting allowed, that holds of
the primitives and is kept by sequencing. -/
structure Compositional (P : ∀ {α : Type}, (ℕ → ReadM α) → Prop) : Prop where
  pure : ∀ {α : Type} (a : α), P fun _ => pure a
  throw : ∀ {α : Type} (message : ProtocolError), P fun _ =>
    (throw (.protocol message) : ReadM α)
  take : ∀ n, P fun _ => take n
  bind : ∀ {α β : Type} {m : ℕ → ReadM α} {f : ℕ → α → ReadM β}, P m →
    (∀ a, P fun left => f left a) → P fun left => m left >>= f left

namespace Compositional
variable {P : ∀ {α : Type}, (ℕ → ReadM α) → Prop} (hP : Compositional P)
include hP

theorem u8 : P fun _ => u8 := hP.bind (hP.take 1) fun _ => hP.pure _

theorem size (n : ℕ) : P fun _ => size n := by
  apply hP.bind (hP.take n)
  intro bs
  split
  · exact hP.pure _
  · exact hP.throw _

theorem signed (w : ℕ) : P fun _ => signed w := hP.bind (hP.take w) fun _ => hP.pure _

theorem unpackString (n : ℕ) : P fun _ => unpackString n := by
  apply hP.bind (hP.take n)
  intro bs
  split
  · exact hP.pure _
  · exact hP.throw _

theorem unpackBytes (width : ℕ) : P fun _ => unpackBytes width :=
  hP.bind (hP.size width) fun n => hP.bind (hP.take n) fun _ => hP.pure _

variable {unpack : ℕ → ReadM BoltValue} (h : P unpack)
include h

theorem unpackN (n : ℕ) : P fun left => unpackN (unpack left) n := by
  induction n with
  | zero => exact hP.pure _
  | succ n ih => exact hP.bind h fun _ => hP.bind ih fun _ => hP.pure _

theorem unpackEntries (n : ℕ) (m : Meta) : P fun left => unpackEntries (unpack left) n m := by
  induction n generalizing m with
  | zero => exact hP.pure _
  | succ n ih =>
    apply hP.bind h
    intro key
    cases key with
    | string key => exact hP.bind h fun value => ih _
    | _ => exact hP.throw _

theorem unpackList (n : ℕ) : P fun left => unpackList (unpack left) n :=
  hP.bind (hP.unpackN h n) fun _ => hP.pure _

theorem unpackMap (n : ℕ) : P fun left => unpackMap (unpack left) n :=
  hP.bind (hP.unpackEntries h n []) fun _ => hP.pure _

theorem unpackStruct (n : ℕ) : P fun left => unpackStruct (unpack left) n :=
  hP.bind hP.u8 fun _ => hP.bind (hP.unpackN h n) fun _ => hP.pure _

omit hP h in
theorem branch {α : Type} {p : Prop} [Decidable p] {m m' : ℕ → ReadM α} (hm : P m)
    (hm' : P m') :
    P fun left => if p then m left else m' left := by
  split_ifs
  · exact hm
  · exact hm'

/-- Whatever the marker, decoding goes on with the combinators above. -/
theorem unpackMarked (marker : UInt8) : P fun left => unpackMarked (unpack left) marker := by
  have hfloat : P fun _ => (do
      return BoltValue.float (UInt64.ofNat (BigEndian.decode (← PackStream.take 8)))) :=
    hP.bind (hP.take 8) fun _ => hP.pure _
  have hstring : ∀ n, P fun _ => (do PackStream.unpackString (← PackStream.size n)) :=
    fun n => hP.bind (hP.size n) hP.unpackString
  have hlist :
      ∀ n, P fun left => (do PackStream.unpackList (unpack left) (← PackStream.size n)) :=
    fun n => hP.bind (hP.size n) (hP.unpackList h)
  have hmap :
      ∀ n, P fun left => (do PackStream.unpackMap (unpack left) (← PackStream.size n)) :=
    fun n => hP.bind (hP.size n) (hP.unpackMap h)
  have hstruct : ∀ n,
      P fun left => (do PackStream.unpackStruct (unpack left) (← PackStream.size n)) :=
    fun n => hP.bind (hP.size n) (hP.unpackStruct h)
  exact branch (hP.pure _) <| branch (hP.pure _) <| branch (hP.unpackString _) <|
    branch (hP.unpackList h _) <| branch (hP.unpackMap h _) <| branch (hP.unpackStruct h _) <|
    branch (hP.pure _) <| branch (hP.pure _) <| branch (hP.pure _) <| branch hfloat <|
    branch (hP.signed 1) <| branch (hP.signed 2) <| branch (hP.signed 4) <|
    branch (hP.signed 8) <| branch (hP.unpackBytes 1) <| branch (hP.unpackBytes 2) <|
    branch (hP.unpackBytes 4) <| branch (hstring 1) <| branch (hstring 2) <|
    branch (hstring 4) <| branch (hlist 1) <| branch (hlist 2) <| branch (hlist 4) <|
    branch (hmap 1) <| branch (hmap 2) <| branch (hmap 4) <| branch (hstruct 1) <|
    branch (hstruct 2) <| branch (hstruct 4) <| hP.throw _

end Compositional

def ProtocolOnly {α : Type} (m : ReadM α) : Prop :=
  ∀ r e, m r = .error e → ∃ message, e = .protocol message

theorem ProtocolOnly.bind {α β : Type} {m : ReadM α} {f : α → ReadM β} (hm : ProtocolOnly m)
    (hf : ∀ a, ProtocolOnly (f a)) : ProtocolOnly (m >>= f) := by
  intro r e h
  change Except.bind (m r) (fun p => f p.1 p.2) = _ at h
  cases hr : m r with
  | error e₁ =>
    rw [hr] at h
    cases h
    exact hm r _ hr
  | ok p =>
    rw [hr] at h
    exact hf p.1 p.2 e h

theorem compositional_protocolOnly : Compositional fun m => ∀ left, ProtocolOnly (m left) where
  pure a _ r e h := by cases h
  throw message _ r e h := by
    cases h
    exact ⟨message, rfl⟩
  take n _ r e h := by
    dsimp only [PackStream.take] at h
    split at h <;> cases h
    exact ⟨_, rfl⟩
  bind hm hf left := (hm left).bind fun a => hf a left

theorem ProtocolOnly.unpackWithin (left : ℕ) : ProtocolOnly (unpackWithin left) := by
  induction left with
  | zero =>
    intro r e h
    cases h
    exact ⟨_, rfl⟩
  | succ left ih =>
    have hP := compositional_protocolOnly
    have hmarked := hP.unpackMarked fun _ : ℕ => ih
    exact (hP.u8 left).bind fun marker => hmarked marker left

end Boltwire.PackStream
