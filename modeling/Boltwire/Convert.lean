import Boltwire.Lib.Serde
import Boltwire.Value

namespace Boltwire

open Serde

inductive ConvertError
  /-- What serde's visitors report through `de::Error::custom`. -/
  | fault (f : Fault)
  /-- "u64 out of i64 range" -/
  | u64OutOfRange
  /-- "map key must be a string, got {other:?}" -/
  | mapKeyNotString (other : BoltValue)
  /-- "value before key" -/
  | valueBeforeKey
  /-- "parameters must be a map, got {other:?}" -/
  | paramsNotMap (other : BoltValue)
  /-- "cannot deserialize graph structure 0x{signature:02x}; keep the field as BoltValue" -/
  | graphStructure (signature : UInt8)
  /-- "cannot deserialize enum from {other:?}" -/
  | notAnEnum (other : BoltValue)
  deriving Repr

instance : DeError ConvertError := ⟨.fault⟩

abbrev Serialized := Except ConvertError BoltValue

structure SeqSer where
  items : List BoltValue

namespace SeqSer

def serializeElement (s : SeqSer) (value : Serialized) : Except ConvertError SeqSer := do
  let value ← value
  pure { s with items := s.items ++ [value] }

def finish (s : SeqSer) : Serialized := .ok (.list s.items)

end SeqSer

structure VariantSeqSer where
  variant : String
  items : List BoltValue

namespace VariantSeqSer

def serializeField (s : VariantSeqSer) (value : Serialized) :
    Except ConvertError VariantSeqSer := do
  let value ← value
  pure { s with items := s.items ++ [value] }

def finish (s : VariantSeqSer) : Serialized :=
  .ok (.map (Meta.insert [] s.variant (.list s.items)))

end VariantSeqSer

structure MapSer where
  map : Meta
  key : Option String

namespace MapSer

def serializeKey (s : MapSer) (key : Serialized) : Except ConvertError MapSer := do
  match ← key with
  | .string text => pure { s with key := some text }
  | other => throw (.mapKeyNotString other)

def serializeValue (s : MapSer) (value : Serialized) : Except ConvertError MapSer := do
  match s.key with
  | some key =>
    let value ← value
    pure { map := s.map.insert key value, key := none }
  | none => throw .valueBeforeKey

def serializeField (s : MapSer) (key : String) (value : Serialized) :
    Except ConvertError MapSer := do
  let value ← value
  pure { s with map := s.map.insert key value }

def finish (s : MapSer) : Serialized := .ok (.map s.map)

end MapSer

structure VariantMapSer where
  variant : String
  map : Meta

namespace VariantMapSer

def serializeField (s : VariantMapSer) (key : String) (value : Serialized) :
    Except ConvertError VariantMapSer := do
  let value ← value
  pure { s with map := s.map.insert key value }

def finish (s : VariantMapSer) : Serialized :=
  .ok (.map (Meta.insert [] s.variant (.map s.map)))

end VariantMapSer

namespace ValueSerializer

/-- The methods of the `ser_int!` macro. -/
def serInt (ty : IntTy) (v : ty.Value) : Serialized := .ok (.int (Int64.ofInt v.val))

def serializeU64 (v : IntTy.u64.Value) : Serialized :=
  if v.val ≤ IntTy.i64.max then .ok (.int (Int64.ofInt v.val)) else .error .u64OutOfRange

def serializeInt : (ty : IntTy) → ty.Value → Serialized
  | .u64 => serializeU64
  | .i8 => serInt .i8
  | .i16 => serInt .i16
  | .i32 => serInt .i32
  | .i64 => serInt .i64
  | .u8 => serInt .u8
  | .u16 => serInt .u16
  | .u32 => serInt .u32

def serializeBool (v : Bool) : Serialized := .ok (.bool v)

def serializeF64 (v : UInt64) : Serialized := .ok (.float v)

def serializeChar (v : Char) : Serialized := .ok (.string v.toString)

def serializeStr (v : String) : Serialized := .ok (.string v)

def serializeBytes (v : List UInt8) : Serialized := .ok (.bytes v)

def serializeNone : Serialized := .ok .null

def serializeSome (value : Serialized) : Serialized := value

def serializeUnit : Serialized := .ok .null

def serializeUnitStruct : Serialized := .ok .null

def serializeUnitVariant (variant : String) : Serialized := .ok (.string variant)

def serializeNewtypeStruct (value : Serialized) : Serialized := value

def serializeNewtypeVariant (variant : String) (value : Serialized) : Serialized := do
  let value ← value
  pure (.map (Meta.insert [] variant value))

def serializeSeq : Compound ConvertError Serialized BoltValue where
  State := SeqSer
  start := .ok ⟨[]⟩
  add := SeqSer.serializeElement
  finish := SeqSer.finish

def serializeTuple : Compound ConvertError Serialized BoltValue := serializeSeq

def serializeTupleStruct : Compound ConvertError Serialized BoltValue := serializeSeq

def serializeTupleVariant (variant : String) : Compound ConvertError Serialized BoltValue where
  State := VariantSeqSer
  start := .ok ⟨variant, []⟩
  add := VariantSeqSer.serializeField
  finish := VariantSeqSer.finish

def serializeMap : Compound ConvertError (Serialized × Serialized) BoltValue where
  State := MapSer
  start := .ok ⟨[], none⟩
  add s e := do (← s.serializeKey e.1).serializeValue e.2
  finish := MapSer.finish

def serializeStruct : Compound ConvertError (String × Serialized) BoltValue where
  State := MapSer
  start := .ok ⟨[], none⟩
  add s e := s.serializeField e.1 e.2
  finish := MapSer.finish

def serializeStructVariant (variant : String) :
    Compound ConvertError (String × Serialized) BoltValue where
  State := VariantMapSer
  start := .ok ⟨variant, []⟩
  add s e := s.serializeField e.1 e.2
  finish := VariantMapSer.finish

end ValueSerializer

open ValueSerializer in
def valueSerializer : Serializer ConvertError BoltValue where
  bool := serializeBool
  int := serializeInt
  f64 := serializeF64
  char := serializeChar
  string := serializeStr
  bytes := serializeBytes
  none := serializeNone
  some := serializeSome
  unit := serializeUnit
  unitStruct := serializeUnitStruct
  unitVariant := serializeUnitVariant
  newtypeStruct := serializeNewtypeStruct
  newtypeVariant := serializeNewtypeVariant
  seq := serializeSeq
  tuple := serializeTuple
  tupleStruct := serializeTupleStruct
  tupleVariant := serializeTupleVariant
  map := serializeMap
  struct := serializeStruct
  structVariant := serializeStructVariant

namespace BoltValue

def deserializeAny : BoltValue → Except ConvertError (Visit BoltValue)
  | null => .ok .unit
  | bool b => .ok (.bool b)
  | int i => .ok (.i64 i)
  | float f => .ok (.f64 f)
  | string s => .ok (.string s)
  | bytes b => .ok (.byteBuf b)
  | list items => .ok (.seq items)
  | map entries => .ok (.map entries)
  | struct signature _ => .error (.graphStructure signature)

def deserializeOption : BoltValue → Except ConvertError (Visit BoltValue)
  | null => .ok .none
  | other => .ok (.some other)

def deserializeNewtypeStruct (v : BoltValue) : Except ConvertError (Visit BoltValue) :=
  .ok (.newtypeStruct v)

/-- A map must have exactly one entry. -/
def deserializeEnum : BoltValue → Except ConvertError (Visit BoltValue)
  | string s => .ok (.enum ⟨s, none⟩)
  | map [(variant, value)] => .ok (.enum ⟨variant, some value⟩)
  | other => .error (.notAnEnum other)

/-- All but three requests are forwarded to `deserialize_any`. -/
def deserialize (v : BoltValue) : Request → Except ConvertError (Visit BoltValue)
  | .option => v.deserializeOption
  | .newtypeStruct => v.deserializeNewtypeStruct
  | .enum => v.deserializeEnum
  | _ => v.deserializeAny

mutual
/-- `IgnoredAny` asks for `deserialize_any` and looks into whatever it is given. -/
def ignoreAny : BoltValue → Except ConvertError Unit
  | list items => ignoreSeq items
  | map entries => ignoreEntries entries
  | struct signature _ => .error (.graphStructure signature)
  | null | bool _ | int _ | float _ | string _ | bytes _ => .ok ()

def ignoreSeq : List BoltValue → Except ConvertError Unit
  | [] => .ok ()
  | v :: vs => do
    ignoreAny v
    ignoreSeq vs

def ignoreEntries : List (String × BoltValue) → Except ConvertError Unit
  | [] => .ok ()
  | (_, v) :: es => do
    ignoreAny v
    ignoreEntries es
end

end BoltValue

def valueDeserializer : Deserializer ConvertError BoltValue where
  answer := BoltValue.deserialize
  ignore := BoltValue.ignoreAny

section
variable (T : SerdeType ConvertError BoltValue)

def toValue (value : T.Carrier) : Except ConvertError BoltValue := T.serialize valueSerializer value

def params (value : T.Carrier) : Except ConvertError Meta := do
  match ← toValue T value with
  | .map m => pure m
  | other => throw (.paramsNotMap other)

def fromValue (value : BoltValue) : Except ConvertError T.Carrier :=
  T.deserialize valueDeserializer value

end

end Boltwire
