import Mathlib.Tactic

namespace Serde

inductive IntTy
  | i8 | i16 | i32 | i64 | u8 | u16 | u32 | u64
  deriving DecidableEq, Repr

def IntTy.min : IntTy → ℤ
  | i8 => -2 ^ 7
  | i16 => -2 ^ 15
  | i32 => -2 ^ 31
  | i64 => -2 ^ 63
  | u8 | u16 | u32 | u64 => 0

def IntTy.max : IntTy → ℤ
  | i8 => 2 ^ 7 - 1
  | i16 => 2 ^ 15 - 1
  | i32 => 2 ^ 31 - 1
  | i64 => 2 ^ 63 - 1
  | u8 => 2 ^ 8 - 1
  | u16 => 2 ^ 16 - 1
  | u32 => 2 ^ 32 - 1
  | u64 => 2 ^ 64 - 1

abbrev IntTy.Value (ty : IntTy) : Type := {n : ℤ // ty.min ≤ n ∧ n ≤ ty.max}

/-- A compound serializer takes its items one at a time. -/
structure Compound (ε ι ω : Type) where
  State : Type
  start : Except ε State
  add : State → ι → Except ε State
  finish : State → Except ε ω

def Compound.run {ε ι ω : Type} (c : Compound ε ι ω) (items : List ι) : Except ε ω := do
  let state ← items.foldlM c.add (← c.start)
  c.finish state

/-- The methods of a serializer. Where a method takes a value to serialize, the
argument is what this serializer makes of that value. The names of types and the
lengths announced ahead are hints, and left out. -/
structure Serializer (ε ω : Type) where
  bool : Bool → Except ε ω
  int (ty : IntTy) : ty.Value → Except ε ω
  f64 : UInt64 → Except ε ω
  char : Char → Except ε ω
  string : String → Except ε ω
  bytes : List UInt8 → Except ε ω
  none : Except ε ω
  some : Except ε ω → Except ε ω
  unit : Except ε ω
  unitStruct : Except ε ω
  unitVariant (variant : String) : Except ε ω
  newtypeStruct : Except ε ω → Except ε ω
  newtypeVariant (variant : String) : Except ε ω → Except ε ω
  seq : Compound ε (Except ε ω) ω
  tuple : Compound ε (Except ε ω) ω
  tupleStruct : Compound ε (Except ε ω) ω
  tupleVariant (variant : String) : Compound ε (Except ε ω) ω
  /-- Each item is a key, then its value. -/
  map : Compound ε (Except ε ω × Except ε ω) ω
  struct : Compound ε (String × Except ε ω) ω
  structVariant (variant : String) : Compound ε (String × Except ε ω) ω

/-- What a type asks a deserializer for: the requests that the types below send. -/
inductive Request
  | bool | int (ty : IntTy) | f64 | char | string | byteBuf | option | unit | unitStruct
  | newtypeStruct | seq | tuple | tupleStruct | map | struct | enum
  deriving DecidableEq, Repr

/-- The variant of an enum, and the value it is tagged onto unless there is none. -/
structure EnumAccess (D : Type) where
  variant : String
  value : Option D

/-- The call that a deserializer makes on a visitor. -/
inductive Visit (D : Type)
  | unit
  | bool (b : Bool)
  | i64 (n : Int64)
  | f64 (bits : UInt64)
  | string (s : String)
  | byteBuf (b : List UInt8)
  | seq (items : List D)
  | map (entries : List (String × D))
  | none
  | some (value : D)
  | newtypeStruct (value : D)
  | enum (access : EnumAccess D)

inductive Fault
  | invalidType
  | invalidValue
  | invalidLength (length : ℕ)
  | unknownVariant (variant : String)
  | missingField (field : String)
  | duplicateField (field : String)
  deriving DecidableEq, Repr

class DeError (ε : Type) where
  fault : Fault → ε

structure Deserializer (ε D : Type) where
  answer : D → Request → Except ε (Visit D)
  /-- `IgnoredAny` run over the value. -/
  ignore : D → Except ε Unit

/-- The deserializer of a `String`, which the keys of a map are read with. -/
def stringDeserializer {ε : Type} : Deserializer ε String where
  answer s request := .ok (if request = .enum then .enum ⟨s, none⟩ else .string s)
  ignore _ := .ok ()

/-- A type with its `Serialize` and `Deserialize` impls. `same` is its equality,
which for a map does not see the order of the entries; `u64s` are the numbers of
type `u64` in a value. -/
structure SerdeType (ε ω : Type) where
  Carrier : Type
  serialize : Serializer ε ω → Carrier → Except ε ω
  deserialize : {D : Type} → Deserializer ε D → D → Except ε Carrier
  same : Carrier → Carrier → Prop
  u64s : Carrier → List ℤ

section
variable {ε ω α D : Type} [DeError ε]

def ofFault (f : Fault) : Except ε α := .error (DeError.fault f)

def missingFieldDeserializer : Deserializer ε String where
  answer field request := if request = .option then .ok .none else ofFault (.missingField field)
  ignore field := ofFault (.missingField field)

namespace SerdeType

def leaf (α : Type) (method : Serializer ε ω → α → Except ε ω) (request : Request)
    (visit : {D : Type} → Visit D → Except ε α) : SerdeType ε ω where
  Carrier := α
  serialize := method
  deserialize des d := do visit (← des.answer d request)
  same := Eq
  u64s _ := []

def bool : SerdeType ε ω := leaf Bool Serializer.bool .bool fun
  | .bool b => .ok b
  | _ => ofFault .invalidType

def int (ty : IntTy) : SerdeType ε ω where
  Carrier := ty.Value
  serialize S := S.int ty
  deserialize des d := do
    match ← des.answer d (.int ty) with
    | .i64 n =>
      if h : ty.min ≤ n.toInt ∧ n.toInt ≤ ty.max then .ok ⟨n.toInt, h⟩
      else ofFault .invalidValue
    | _ => ofFault .invalidType
  same := Eq
  u64s n := if ty = .u64 then [n.val] else []

def f64 : SerdeType ε ω := leaf UInt64 Serializer.f64 .f64 fun
  | .f64 bits => .ok bits
  | .i64 n => .ok n.toFloat.toBits
  | _ => ofFault .invalidType

def visitChar : Visit D → Except ε Char
  | .string s =>
    match s.toList with
    | [c] => .ok c
    | _ => ofFault .invalidValue
  | _ => ofFault .invalidType

theorem visitChar_toString (c : Char) :
    visitChar (.string c.toString : Visit D) = (.ok c : Except ε Char) := by
  simp [visitChar]

def char : SerdeType ε ω := leaf Char Serializer.char .char visitChar

def string : SerdeType ε ω := leaf String Serializer.string .string fun
  | .string s => .ok s
  | .byteBuf b =>
    match String.fromUTF8? ⟨b.toArray⟩ with
    | some s => .ok s
    | none => ofFault .invalidValue
  | _ => ofFault .invalidType

instance : DecidableEq (string : SerdeType ε ω).Carrier := inferInstanceAs (DecidableEq String)

def byteBuf : SerdeType ε ω where
  Carrier := List UInt8
  serialize S := S.bytes
  deserialize des d := do
    match ← des.answer d .byteBuf with
    | .byteBuf b => .ok b
    | .string s => .ok s.toUTF8.data.toList
    | .seq items =>
      items.mapM fun d => do
        let n ← (int (ω := ω) .u8).deserialize des d
        pure (UInt8.ofNat n.val.toNat)
    | _ => ofFault .invalidType
  same := Eq
  u64s _ := []

def unit : SerdeType ε ω := leaf Unit (fun S _ => S.unit) .unit fun
  | .unit => .ok ()
  | _ => ofFault .invalidType

def unitStruct : SerdeType ε ω := leaf Unit (fun S _ => S.unitStruct) .unitStruct fun
  | .unit => .ok ()
  | _ => ofFault .invalidType

def newtypeStruct (T : SerdeType ε ω) : SerdeType ε ω where
  Carrier := T.Carrier
  serialize S x := S.newtypeStruct (T.serialize S x)
  deserialize des d := do
    match ← des.answer d .newtypeStruct with
    | .newtypeStruct d => T.deserialize des d
    | .seq (d :: _) => T.deserialize des d
    | .seq [] => ofFault (.invalidLength 0)
    | _ => ofFault .invalidType
  same := T.same
  u64s := T.u64s

def option (T : SerdeType ε ω) : SerdeType ε ω where
  Carrier := Option T.Carrier
  serialize S
    | none => S.none
    | some x => S.some (T.serialize S x)
  deserialize des d := do
    match ← des.answer d .option with
    | .unit | .none => pure none
    | .some d => some <$> T.deserialize des d
    | _ => ofFault .invalidType
  same := Option.Rel T.same
  u64s x := x.elim [] T.u64s

def seq (T : SerdeType ε ω) : SerdeType ε ω where
  Carrier := List T.Carrier
  serialize S xs := S.seq.run (xs.map (T.serialize S))
  deserialize des d := do
    match ← des.answer d .seq with
    | .seq items => items.mapM (T.deserialize des)
    | _ => ofFault .invalidType
  same := List.Forall₂ T.same
  u64s xs := xs.flatMap T.u64s

end SerdeType

/-- The entries of a map in its iteration order. -/
structure Entries (κ υ : Type) where
  toList : List (κ × υ)
  nodup : (toList.map Prod.fst).Nodup

namespace Entries
variable {κ υ : Type} [DecidableEq κ]

def empty : Entries κ υ := ⟨[], List.nodup_nil⟩

def insert (m : Entries κ υ) (key : κ) (value : υ) : Entries κ υ :=
  if h : key ∈ m.toList.map Prod.fst then
    { toList := m.toList.map fun e => if e.1 = key then (key, value) else e
      nodup := by
        have hkeys : (m.toList.map fun e => if e.1 = key then (key, value) else e).map Prod.fst =
            m.toList.map Prod.fst := by
          rw [List.map_map]
          apply List.map_congr_left
          intro e _
          by_cases he : e.1 = key <;> simp [he]
        rw [hkeys]
        exact m.nodup }
  else
    { toList := m.toList ++ [(key, value)]
      nodup := by
        rw [List.map_append]
        exact m.nodup.append (List.nodup_singleton key) (List.disjoint_singleton.mpr h) }

def read (key : String → Except ε κ) (value : D → Except ε υ)
    (entries : List (String × D)) :
    Except ε (Entries κ υ) :=
  entries.foldlM (fun m e => do
    let k ← key e.1
    let v ← value e.2
    pure (m.insert k v)) empty

end Entries

def SerdeType.map (K V : SerdeType ε ω) [DecidableEq K.Carrier] : SerdeType ε ω where
  Carrier := Entries K.Carrier V.Carrier
  serialize S m := S.map.run (m.toList.map fun e => (K.serialize S e.1, V.serialize S e.2))
  deserialize des d := do
    match ← des.answer d .map with
    | .map entries => Entries.read (K.deserialize stringDeserializer) (V.deserialize des) entries
    | _ => ofFault .invalidType
  same m m' := ∃ es, List.Forall₂ (fun e f => K.same e.1 f.1 ∧ V.same e.2 f.2) m.toList es ∧
    es.Perm m'.toList
  u64s m := m.toList.flatMap fun e => K.u64s e.1 ++ V.u64s e.2

def Tuple : List (SerdeType ε ω) → Type
  | [] => Unit
  | T :: Ts => T.Carrier × Tuple Ts

namespace Tuple

def serialize (S : Serializer ε ω) : (Ts : List (SerdeType ε ω)) → Tuple Ts →
    List (Except ε ω)
  | [], _ => []
  | T :: Ts, (x, xs) => T.serialize S x :: serialize S Ts xs

/-- The elements one after another, `i` of them already read; what is left over is not looked at. -/
def read (des : Deserializer ε D) : (Ts : List (SerdeType ε ω)) → ℕ → List D →
    Except ε (Tuple Ts)
  | [], _, _ => .ok ()
  | _ :: _, i, [] => ofFault (.invalidLength i)
  | T :: Ts, i, d :: ds => do
    let x ← T.deserialize des d
    let xs ← read des Ts (i + 1) ds
    pure (x, xs)

def same : (Ts : List (SerdeType ε ω)) → Tuple Ts → Tuple Ts → Prop
  | [], _, _ => True
  | T :: Ts, (x, xs), (y, ys) => T.same x y ∧ same Ts xs ys

def u64s : (Ts : List (SerdeType ε ω)) → Tuple Ts → List ℤ
  | [], _ => []
  | T :: Ts, (x, xs) => T.u64s x ++ u64s Ts xs

def visit (des : Deserializer ε D) (Ts : List (SerdeType ε ω)) : Visit D → Except ε (Tuple Ts)
  | .seq items => read des Ts 0 items
  | _ => ofFault .invalidType

end Tuple

namespace SerdeType

def tupleOf (method : Serializer ε ω → Compound ε (Except ε ω) ω) (request : Request)
    (Ts : List (SerdeType ε ω)) : SerdeType ε ω where
  Carrier := Tuple Ts
  serialize S xs := (method S).run (Tuple.serialize S Ts xs)
  deserialize des d := do Tuple.visit des Ts (← des.answer d request)
  same := Tuple.same Ts
  u64s := Tuple.u64s Ts

def tuple : List (SerdeType ε ω) → SerdeType ε ω := tupleOf Serializer.tuple .tuple

def tupleStruct : List (SerdeType ε ω) → SerdeType ε ω :=
  tupleOf Serializer.tupleStruct .tupleStruct

end SerdeType

abbrev Fields (ε ω : Type) := List (String × SerdeType ε ω)

namespace Fields

def names (fs : Fields ε ω) : List String := fs.map Prod.fst

def types (fs : Fields ε ω) : List (SerdeType ε ω) := fs.map Prod.snd

def serialize (S : Serializer ε ω) (fs : Fields ε ω) (xs : Tuple fs.types) :
    List (String × Except ε ω) :=
  fs.names.zip (Tuple.serialize S fs.types xs)

/-- The fields that the visitor of a struct has read so far. -/
def Slots : Fields ε ω → Type
  | [] => Unit
  | f :: fs => Option f.2.Carrier × Slots fs

def Slots.cons {fs : Fields ε ω} {f : String × SerdeType ε ω} (slot : Option f.2.Carrier)
    (slots : Slots fs) : Slots (f :: fs) := (slot, slots)

def noSlots : (fs : Fields ε ω) → Slots fs
  | [] => ()
  | _ :: fs => .cons none (noSlots fs)

/-- Read the value under `key` into its slot; one that belongs to no field is ignored. -/
def fill (des : Deserializer ε D) (key : String) (d : D) :
    (fs : Fields ε ω) → Slots fs → Except ε (Slots fs)
  | [], _ => des.ignore d
  | (name, T) :: fs, (slot, slots) =>
    if key = name then
      match slot with
      | some _ => ofFault (.duplicateField name)
      | none => do
        let x ← T.deserialize des d
        pure (.cons (some x) slots)
    else do
      let slots ← fill des key d fs slots
      pure (.cons slot slots)

/-- A field that was not there is read from nothing, which an `Option` can be. -/
def finish : (fs : Fields ε ω) → Slots fs → Except ε (Tuple fs.types)
  | [], _ => .ok ()
  | (name, T) :: fs, (slot, slots) => do
    let x ← match slot with
      | some x => .ok x
      | none => T.deserialize missingFieldDeserializer name
    let xs ← finish fs slots
    pure (x, xs)

def readMap (des : Deserializer ε D) (fs : Fields ε ω) (slots : Slots fs)
    (entries : List (String × D)) : Except ε (Slots fs) :=
  entries.foldlM (fun slots e => fill des e.1 e.2 fs slots) slots

def visit (des : Deserializer ε D) (fs : Fields ε ω) : Visit D → Except ε (Tuple fs.types)
  | .map entries => do finish fs (← readMap des fs (noSlots fs) entries)
  | .seq items => Tuple.read des fs.types 0 items
  | _ => ofFault .invalidType

end Fields

def SerdeType.struct (fs : Fields ε ω) : SerdeType ε ω where
  Carrier := Tuple fs.types
  serialize S xs := S.struct.run (fs.serialize S xs)
  deserialize des d := do Fields.visit des fs (← des.answer d .struct)
  same := Tuple.same fs.types
  u64s := Tuple.u64s fs.types

inductive Payload (ε ω : Type)
  | unit
  | newtype (T : SerdeType ε ω)
  | tuple (Ts : List (SerdeType ε ω))
  | struct (fs : Fields ε ω)

namespace Payload

def types : Payload ε ω → List (SerdeType ε ω)
  | unit => []
  | newtype T => [T]
  | tuple Ts => Ts
  | struct fs => fs.types

def Carrier : Payload ε ω → Type
  | unit => Unit
  | newtype T => T.Carrier
  | tuple Ts => Tuple Ts
  | struct fs => Tuple fs.types

def serialize (S : Serializer ε ω) (variant : String) : (P : Payload ε ω) → P.Carrier →
    Except ε ω
  | unit, _ => S.unitVariant variant
  | newtype T, x => S.newtypeVariant variant (T.serialize S x)
  | tuple Ts, xs => (S.tupleVariant variant).run (Tuple.serialize S Ts xs)
  | struct fs, xs => (S.structVariant variant).run (fs.serialize S xs)

/-- A variant that was not tagged onto a value can only be a unit variant. -/
def read (des : Deserializer ε D) : (P : Payload ε ω) → Option D → Except ε P.Carrier
  | unit, none => .ok ()
  | unit, some d => (SerdeType.unit (ω := ω)).deserialize des d
  | newtype T, some d => T.deserialize des d
  | tuple Ts, some d => do Tuple.visit des Ts (← des.answer d .tuple)
  | struct fs, some d => do Fields.visit des fs (← des.answer d .map)
  | newtype _, none | tuple _, none | struct _, none => ofFault .invalidType

def same : (P : Payload ε ω) → P.Carrier → P.Carrier → Prop
  | unit => Eq
  | newtype T => T.same
  | tuple Ts => Tuple.same Ts
  | struct fs => Tuple.same fs.types

def u64s : (P : Payload ε ω) → P.Carrier → List ℤ
  | unit, _ => []
  | newtype T, x => T.u64s x
  | tuple Ts, xs => Tuple.u64s Ts xs
  | struct fs, xs => Tuple.u64s fs.types xs

end Payload

abbrev Variants (ε ω : Type) := List (String × Payload ε ω)

namespace Variants

def names (vs : Variants ε ω) : List String := vs.map Prod.fst

def Choice : Variants ε ω → Type
  | [] => Empty
  | v :: vs => v.2.Carrier ⊕ Choice vs

def serialize (S : Serializer ε ω) : (vs : Variants ε ω) → Choice vs → Except ε ω
  | (name, P) :: _, .inl x => P.serialize S name x
  | _ :: vs, .inr x => serialize S vs x

def read (des : Deserializer ε D) (access : EnumAccess D) :
    (vs : Variants ε ω) → Except ε (Choice vs)
  | [] => ofFault (.unknownVariant access.variant)
  | (name, P) :: vs =>
    if access.variant = name then .inl <$> P.read des access.value
    else .inr <$> read des access vs

def same : (vs : Variants ε ω) → Choice vs → Choice vs → Prop
  | (_, P) :: _, .inl x, .inl y => P.same x y
  | _ :: vs, .inr x, .inr y => same vs x y
  | _ :: _, .inl _, .inr _ | _ :: _, .inr _, .inl _ => False

def u64s : (vs : Variants ε ω) → Choice vs → List ℤ
  | (_, P) :: _, .inl x => P.u64s x
  | _ :: vs, .inr x => u64s vs x

end Variants

def SerdeType.enum (vs : Variants ε ω) : SerdeType ε ω where
  Carrier := Variants.Choice vs
  serialize S x := vs.serialize S x
  deserialize des d := do
    match ← des.answer d .enum with
    | .enum access => Variants.read des access vs
    | _ => ofFault .invalidType
  same := Variants.same vs
  u64s := Variants.u64s vs

end

end Serde
