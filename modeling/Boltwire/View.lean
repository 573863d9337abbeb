import Boltwire.PackStreamRoundTrip

namespace Boltwire

namespace sig

def NODE : UInt8 := 0x4E
def RELATIONSHIP : UInt8 := 0x52
def UNBOUND_RELATIONSHIP : UInt8 := 0x72
def PATH : UInt8 := 0x50
def DATE : UInt8 := 0x44
def DURATION : UInt8 := 0x45
def POINT_2D : UInt8 := 0x58
def POINT_3D : UInt8 := 0x59
def LOCAL_TIME : UInt8 := 0x74
def LOCAL_DATETIME : UInt8 := 0x64
def DATETIME_ZONED : UInt8 := 0x49

end sig

structure NodeRef where
  id : Int64
  labels : List BoltValue
  properties : Meta
  elementId : Option String

structure RelationshipRef where
  id : Int64
  startId : Int64
  endId : Int64
  type_ : String
  properties : Meta
  elementId : Option String

structure UnboundRelationshipRef where
  id : Int64
  type_ : String
  properties : Meta

structure PathRef where
  nodes : List NodeRef
  relationships : List UnboundRelationshipRef
  indices : List Int64

structure DurationRef where
  months : Int64
  days : Int64
  seconds : Int64
  nanoseconds : Int64

structure PointRef where
  srid : Int64
  x : UInt64
  y : UInt64
  /-- Only for 3D points. -/
  z : Option UInt64

namespace NodeRef

def labelStrs (n : NodeRef) : List String := n.labels.filterMap BoltValue.asStr

def prop (n : NodeRef) (key : String) : Option BoltValue := n.properties.get key

end NodeRef

/-- `n as f64`, as bits: servers send coordinates as integers when whole. -/
def f64Bits (n : Int64) : UInt64 := (Float.Model.ofInt64 n).toBits

namespace View
variable (fields : List BoltValue) (i : ℕ)

def fieldsOf (value : BoltValue) (want : UInt8) : Option (List BoltValue) :=
  match value with
  | .struct signature fields => if signature = want then some fields else none
  | _ => none

def int : Option Int64 := fields[i]?.bind BoltValue.asInt

def coordinate : BoltValue → Option UInt64
  | .float bits => some bits
  | .int n => some (f64Bits n)
  | _ => none

def float : Option UInt64 := fields[i]?.bind coordinate

def map : Option Meta := fields[i]?.bind BoltValue.asMap

def listAt {α : Type} (view : BoltValue → Option α) : Option (List α) :=
  (fields[i]?.bind BoltValue.asList).bind fun items => items.mapM view

end View

namespace BoltValue
open View (fieldsOf listAt)
variable (v : BoltValue)

def asNode : Option NodeRef := do
  let f ← fieldsOf v sig.NODE
  return ⟨← View.int f 0, ← f[1]?.bind asList, ← View.map f 2, f[3]?.bind asStr⟩

def asRelationship : Option RelationshipRef := do
  let f ← fieldsOf v sig.RELATIONSHIP
  return ⟨← View.int f 0, ← View.int f 1, ← View.int f 2, ← f[3]?.bind asStr,
    ← View.map f 4, f[5]?.bind asStr⟩

def asUnboundRelationship : Option UnboundRelationshipRef := do
  let f ← fieldsOf v sig.UNBOUND_RELATIONSHIP
  return ⟨← View.int f 0, ← f[1]?.bind asStr, ← View.map f 2⟩

def asPath : Option PathRef := do
  let f ← fieldsOf v sig.PATH
  return ⟨← listAt f 0 asNode, ← listAt f 1 asUnboundRelationship, ← listAt f 2 asInt⟩

/-- Days since the Unix epoch. -/
def asDateDays : Option Int64 := do View.int (← fieldsOf v sig.DATE) 0

/-- Nanoseconds since midnight. -/
def asLocalTimeNanos : Option Int64 := do View.int (← fieldsOf v sig.LOCAL_TIME) 0

/-- `(seconds, nanoseconds)` since the Unix epoch, no zone. -/
def asLocalDatetime : Option (Int64 × Int64) := do
  let f ← fieldsOf v sig.LOCAL_DATETIME
  return (← View.int f 0, ← View.int f 1)

def asDatetimeOffset : Option (Int64 × Int64 × Int64) := do
  let f ← fieldsOf v sig.DATETIME_ZONED
  return (← View.int f 0, ← View.int f 1, ← View.int f 2)

def asDuration : Option DurationRef := do
  let f ← fieldsOf v sig.DURATION
  return ⟨← View.int f 0, ← View.int f 1, ← View.int f 2, ← View.int f 3⟩

def asPoint : Option PointRef :=
  match fieldsOf v sig.POINT_2D with
  | some f => do return ⟨← View.int f 0, ← View.float f 1, ← View.float f 2, none⟩
  | none => do
    let f ← fieldsOf v sig.POINT_3D
    return ⟨← View.int f 0, ← View.float f 1, ← View.float f 2, some (← View.float f 3)⟩

end BoltValue

namespace View
variable {fields : List BoltValue} {i : ℕ}

theorem fieldsOf_eq_some {v : BoltValue} {want : UInt8} :
    fieldsOf v want = some fields ↔ v = .struct want fields := by
  unfold fieldsOf
  split
  · rename_i signature fields'
    constructor
    · intro h
      split_ifs at h with hs
      cases h
      rw [hs]
    · intro h
      cases h
      exact if_pos rfl
  · rename_i hne
    refine iff_of_false (by simp) fun h => hne want fields h

section Accessors
variable {v : BoltValue}

@[simp] theorem asInt_eq_some {n : Int64} : v.asInt = some n ↔ v = .int n := by
  cases v <;> simp [BoltValue.asInt]

@[simp] theorem asStr_eq_some {s : String} : v.asStr = some s ↔ v = .string s := by
  cases v <;> simp [BoltValue.asStr]

@[simp] theorem asMap_eq_some {m : Meta} : v.asMap = some m ↔ v = .map m := by
  cases v <;> simp [BoltValue.asMap]

@[simp] theorem asList_eq_some {items : List BoltValue} :
    v.asList = some items ↔ v = .list items := by
  cases v <;> simp [BoltValue.asList]

theorem mem_labelStrs {n : NodeRef} {label : String} :
    label ∈ n.labelStrs ↔ .string label ∈ n.labels := by
  simp [NodeRef.labelStrs]

theorem prop_eq_some {n : NodeRef} (hkeys : (n.properties.map Prod.fst).Nodup) {key : String} :
    n.prop key = some v ↔ (key, v) ∈ n.properties :=
  lookup_eq_some hkeys

end Accessors

theorem cons_prefix_iff {a : BoltValue} {as : List BoltValue} :
    a :: as <+: fields ↔ fields[0]? = some a ∧ as <+: fields.drop 1 := by
  cases fields with
  | nil => simp
  | cons b fields => simp [List.cons_prefix_cons, eq_comm]

theorem mapM_eq_some {α : Type} {view : BoltValue → Option α} {items : List BoltValue}
    {as : List α} :
    items.mapM view = some as ↔ List.Forall₂ (fun v a => view v = some a) items as := by
  induction items generalizing as with
  | nil => cases as <;> simp
  | cons v items ih =>
    rw [List.mapM_cons]
    constructor
    · intro h
      obtain ⟨a, ha, h⟩ := Option.bind_eq_some_iff.mp h
      obtain ⟨as', has, h⟩ := Option.bind_eq_some_iff.mp h
      cases h
      exact .cons ha (ih.mp has)
    · intro h
      cases h with
      | cons ha has =>
        rw [ha, ih.mpr has]
        rfl

theorem listAt_eq_some {α : Type} {view : BoltValue → Option α} {as : List α} :
    listAt fields i view = some as ↔ ∃ items, fields[i]? = some (.list items) ∧
      List.Forall₂ (fun v a => view v = some a) items as := by
  simp [listAt, Option.bind_eq_some_iff, mapM_eq_some]

end View

inductive Entity
  | node (n : NodeRef)
  | relationship (r : RelationshipRef)
  | unboundRelationship (r : UnboundRelationshipRef)
  | path (p : PathRef)
  | dateDays (days : Int64)
  | localTimeNanos (nanos : Int64)
  | localDatetime (seconds nanos : Int64)
  | datetimeOffset (seconds nanos offset : Int64)
  | duration (d : DurationRef)
  | point (p : PointRef)

def BoltValue.views (v : BoltValue) : List (Option Entity) :=
  [v.asNode.map .node, v.asRelationship.map .relationship,
    v.asUnboundRelationship.map .unboundRelationship, v.asPath.map .path,
    v.asDateDays.map .dateDays, v.asLocalTimeNanos.map .localTimeNanos,
    v.asLocalDatetime.map fun t => .localDatetime t.1 t.2,
    v.asDatetimeOffset.map fun t => .datetimeOffset t.1 t.2.1 t.2.2,
    v.asDuration.map .duration, v.asPoint.map .point]

def Starts (v : BoltValue) (signature : UInt8) (start fields : List BoltValue) : Prop :=
  v = .struct signature fields ∧ start <+: fields

def ShowsNode (v : BoltValue) (n : NodeRef) : Prop :=
  ∃ fields, Starts v sig.NODE [.int n.id, .list n.labels, .map n.properties] fields ∧
    n.elementId = fields[3]?.bind BoltValue.asStr

def ShowsUnboundRelationship (v : BoltValue) (r : UnboundRelationshipRef) : Prop :=
  ∃ fields, Starts v sig.UNBOUND_RELATIONSHIP
    [.int r.id, .string r.type_, .map r.properties] fields

/-- A coordinate is a float, or an integer that is rounded to one. -/
inductive Coordinate : BoltValue → UInt64 → Prop
  | float {bits : UInt64} : Coordinate (.float bits) bits
  | int {n : Int64} : Coordinate (.int n) (f64Bits n)

def Shows (v : BoltValue) : Entity → Prop
  | .node n => ShowsNode v n
  | .relationship r => ∃ fields, Starts v sig.RELATIONSHIP
      [.int r.id, .int r.startId, .int r.endId, .string r.type_, .map r.properties] fields ∧
    r.elementId = fields[5]?.bind BoltValue.asStr
  | .unboundRelationship r => ShowsUnboundRelationship v r
  | .path p => ∃ nodes relationships fields,
    Starts v sig.PATH [.list nodes, .list relationships, .list (p.indices.map .int)] fields ∧
    List.Forall₂ ShowsNode nodes p.nodes ∧
    List.Forall₂ ShowsUnboundRelationship relationships p.relationships
  | .dateDays days => ∃ fields, Starts v sig.DATE [.int days] fields
  | .localTimeNanos nanos => ∃ fields, Starts v sig.LOCAL_TIME [.int nanos] fields
  | .localDatetime seconds nanos =>
    ∃ fields, Starts v sig.LOCAL_DATETIME [.int seconds, .int nanos] fields
  | .datetimeOffset seconds nanos offset =>
    ∃ fields, Starts v sig.DATETIME_ZONED [.int seconds, .int nanos, .int offset] fields
  | .duration d => ∃ fields, Starts v sig.DURATION
      [.int d.months, .int d.days, .int d.seconds, .int d.nanoseconds] fields
  | .point p =>
    (∃ x y fields, Starts v sig.POINT_2D [.int p.srid, x, y] fields ∧ Coordinate x p.x ∧
      Coordinate y p.y ∧ p.z = none) ∨
    ∃ x y z z' fields, Starts v sig.POINT_3D [.int p.srid, x, y, z] fields ∧
      Coordinate x p.x ∧ Coordinate y p.y ∧ Coordinate z z' ∧ p.z = some z'

namespace View
variable {v : BoltValue}

theorem coordinate_eq_some {bits : UInt64} : coordinate v = some bits ↔ Coordinate v bits := by
  constructor
  · intro h
    cases v <;> cases h
    · exact .int
    · exact .float
  · intro h
    cases h <;> rfl

theorem eq_map_int {items : List BoltValue} {is : List Int64} :
    List.Forall₂ (fun v i => v = .int i) items is ↔ items = is.map .int := by
  constructor
  · intro h
    induction h with
    | nil => rfl
    | cons hi _ ih => rw [List.map_cons, hi, ih]
  · rintro rfl
    rw [List.forall₂_map_left_iff]
    exact List.forall₂_same.mpr fun _ _ => rfl

/-- A view looks up one field after the other; to start with them is the same. -/
theorem starts_iff {signature : UInt8} {start : List BoltValue} :
    Starts v signature start fields ↔
    fieldsOf v signature = some fields ∧ start <+: fields := by
  rw [Starts, fieldsOf_eq_some]

/-- A field that it starts with. -/
theorem field_of_starts {signature : UInt8} {start : List BoltValue} {a : BoltValue}
    (h : Starts v signature start fields) (i : ℕ) (ha : start[i]? = some a) :
    fields[i]? = some a := by
  obtain ⟨rest, rfl⟩ := h.2
  rwa [List.getElem?_append_left (List.getElem?_eq_some_iff.mp ha).1]

theorem int_eq_some {n : Int64} : int fields i = some n ↔ fields[i]? = some (.int n) := by
  simp [int, Option.bind_eq_some_iff]

theorem asNode_eq_some {n : NodeRef} : v.asNode = some n ↔ ShowsNode v n := by
  obtain ⟨id, labels, properties, elementId⟩ := n
  simp [BoltValue.asNode, ShowsNode, starts_iff, cons_prefix_iff, Option.bind_eq_some_iff, int, map,
    and_assoc, eq_comm (a := elementId)]

theorem asUnboundRelationship_eq_some {r : UnboundRelationshipRef} :
    v.asUnboundRelationship = some r ↔ ShowsUnboundRelationship v r := by
  obtain ⟨id, type_, properties⟩ := r
  simp [BoltValue.asUnboundRelationship, ShowsUnboundRelationship, starts_iff, cons_prefix_iff,
    Option.bind_eq_some_iff, int, map]

theorem asRelationship_eq_some {r : RelationshipRef} :
    v.asRelationship = some r ↔ Shows v (.relationship r) := by
  obtain ⟨id, startId, endId, type_, properties, elementId⟩ := r
  simp [BoltValue.asRelationship, Shows, starts_iff, cons_prefix_iff, Option.bind_eq_some_iff, int,
    map, and_assoc, eq_comm (a := elementId)]

theorem asPath_eq_some {p : PathRef} : v.asPath = some p ↔ Shows v (.path p) := by
  constructor
  · intro h
    obtain ⟨fields, hf, h⟩ := Option.bind_eq_some_iff.mp h
    obtain ⟨_, hnodes, h⟩ := Option.bind_eq_some_iff.mp h
    obtain ⟨_, hrelationships, h⟩ := Option.bind_eq_some_iff.mp h
    obtain ⟨_, hindices, h⟩ := Option.bind_eq_some_iff.mp h
    cases h
    obtain ⟨nodes, h₀, hnodes⟩ := listAt_eq_some.mp hnodes
    obtain ⟨relationships, h₁, hrelationships⟩ := listAt_eq_some.mp hrelationships
    obtain ⟨indices, h₂, hindices⟩ := listAt_eq_some.mp hindices
    obtain rfl := eq_map_int.mp (hindices.imp fun _ _ => asInt_eq_some.mp)
    refine ⟨nodes, relationships, fields, starts_iff.mpr ⟨hf, ?_⟩,
      hnodes.imp fun _ _ => asNode_eq_some.mp,
      hrelationships.imp fun _ _ => asUnboundRelationship_eq_some.mp⟩
    simp [cons_prefix_iff, h₀, h₁, h₂]
  · intro h
    obtain ⟨nodes, relationships, fields, hs, hnodes, hrelationships⟩ := h
    have hf := (starts_iff.mp hs).1
    have hview := listAt_eq_some.mpr
      ⟨nodes, field_of_starts hs 0 rfl, hnodes.imp fun _ _ => asNode_eq_some.mpr⟩
    have hview' := listAt_eq_some.mpr ⟨relationships, field_of_starts hs 1 rfl,
      hrelationships.imp fun _ _ => asUnboundRelationship_eq_some.mpr⟩
    have hview'' := listAt_eq_some.mpr ⟨_, field_of_starts hs 2 rfl,
      (eq_map_int.mpr rfl).imp fun _ _ => asInt_eq_some.mpr⟩
    simp [BoltValue.asPath, hf, hview, hview', hview'']

theorem asDateDays_eq_some {days : Int64} :
    v.asDateDays = some days ↔ Shows v (.dateDays days) := by
  simp [BoltValue.asDateDays, Shows, starts_iff, cons_prefix_iff, Option.bind_eq_some_iff, int]

theorem asLocalTimeNanos_eq_some {nanos : Int64} :
    v.asLocalTimeNanos = some nanos ↔ Shows v (.localTimeNanos nanos) := by
  simp [BoltValue.asLocalTimeNanos, Shows, starts_iff, cons_prefix_iff,
    Option.bind_eq_some_iff, int]

theorem asLocalDatetime_eq_some {seconds nanos : Int64} :
    v.asLocalDatetime = some (seconds, nanos) ↔ Shows v (.localDatetime seconds nanos) := by
  simp [BoltValue.asLocalDatetime, Shows, starts_iff, cons_prefix_iff, Option.bind_eq_some_iff, int]

theorem asDatetimeOffset_eq_some {seconds nanos offset : Int64} :
    v.asDatetimeOffset = some (seconds, nanos, offset) ↔
      Shows v (.datetimeOffset seconds nanos offset) := by
  simp [BoltValue.asDatetimeOffset, Shows, starts_iff, cons_prefix_iff,
    Option.bind_eq_some_iff, int]

theorem asDuration_eq_some {d : DurationRef} : v.asDuration = some d ↔ Shows v (.duration d) := by
  obtain ⟨months, days, seconds, nanoseconds⟩ := d
  simp [BoltValue.asDuration, Shows, starts_iff, cons_prefix_iff, Option.bind_eq_some_iff, int]

theorem float_eq_some {bits : UInt64} :
    float fields i = some bits ↔ ∃ x, fields[i]? = some x ∧ Coordinate x bits := by
  simp only [float, Option.bind_eq_some_iff, coordinate_eq_some]

theorem asPoint_eq_some {p : PointRef} : v.asPoint = some p ↔ Shows v (.point p) := by
  unfold BoltValue.asPoint
  constructor
  · intro h
    split at h
    case h_1 fields hf =>
      obtain ⟨srid, hsrid, h⟩ := Option.bind_eq_some_iff.mp h
      obtain ⟨x', hx, h⟩ := Option.bind_eq_some_iff.mp h
      obtain ⟨y', hy, h⟩ := Option.bind_eq_some_iff.mp h
      cases h
      obtain ⟨x, h₁, hx⟩ := float_eq_some.mp hx
      obtain ⟨y, h₂, hy⟩ := float_eq_some.mp hy
      have h₀ := int_eq_some.mp hsrid
      refine .inl ⟨x, y, fields, starts_iff.mpr ⟨hf, ?_⟩, hx, hy, rfl⟩
      simp [cons_prefix_iff, h₀, h₁, h₂]
    case h_2 =>
      obtain ⟨fields, hf, h⟩ := Option.bind_eq_some_iff.mp h
      obtain ⟨srid, hsrid, h⟩ := Option.bind_eq_some_iff.mp h
      obtain ⟨x', hx, h⟩ := Option.bind_eq_some_iff.mp h
      obtain ⟨y', hy, h⟩ := Option.bind_eq_some_iff.mp h
      obtain ⟨z', hz, h⟩ := Option.bind_eq_some_iff.mp h
      cases h
      obtain ⟨x, h₁, hx⟩ := float_eq_some.mp hx
      obtain ⟨y, h₂, hy⟩ := float_eq_some.mp hy
      obtain ⟨z, h₃, hz⟩ := float_eq_some.mp hz
      have h₀ := int_eq_some.mp hsrid
      refine .inr ⟨x, y, z, z', fields, starts_iff.mpr ⟨hf, ?_⟩, hx, hy, hz, rfl⟩
      simp [cons_prefix_iff, h₀, h₁, h₂, h₃]
  · intro h
    obtain ⟨srid, px, py, pz⟩ := p
    rcases h with ⟨x, y, fields, hs, hx, hy, rfl⟩
      | ⟨x, y, z, z', fields, hs, hx, hy, hz, rfl⟩
    · have hf := (starts_iff.mp hs).1
      simp [hf, int_eq_some.mpr (field_of_starts hs 0 rfl),
        float_eq_some.mpr ⟨x, field_of_starts hs 1 rfl, hx⟩,
        float_eq_some.mpr ⟨y, field_of_starts hs 2 rfl, hy⟩]
    · have hf := (starts_iff.mp hs).1
      have hnot : fieldsOf v sig.POINT_2D = none := by
        rw [hs.1]
        rfl
      simp [hnot, hf, int_eq_some.mpr (field_of_starts hs 0 rfl),
        float_eq_some.mpr ⟨x, field_of_starts hs 1 rfl, hx⟩,
        float_eq_some.mpr ⟨y, field_of_starts hs 2 rfl, hy⟩,
        float_eq_some.mpr ⟨z, field_of_starts hs 3 rfl, hz⟩]

/-- A value shows what its views make of it. -/
theorem mem_views {e : Entity} : some e ∈ v.views ↔ Shows v e := by
  unfold BoltValue.views
  cases e with
  | node n => simp [asNode_eq_some, Shows]
  | relationship r => simp [asRelationship_eq_some]
  | unboundRelationship r => simp [asUnboundRelationship_eq_some, Shows]
  | path p => simp [asPath_eq_some]
  | dateDays days => simp [asDateDays_eq_some]
  | localTimeNanos nanos => simp [asLocalTimeNanos_eq_some]
  | localDatetime seconds nanos => simp [asLocalDatetime_eq_some]
  | datetimeOffset seconds nanos offset => simp [asDatetimeOffset_eq_some]
  | duration d => simp [asDuration_eq_some]
  | point p => simp [asPoint_eq_some]

end View

def Entity.signatures : Entity → List UInt8
  | .node _ => [sig.NODE]
  | .relationship _ => [sig.RELATIONSHIP]
  | .unboundRelationship _ => [sig.UNBOUND_RELATIONSHIP]
  | .path _ => [sig.PATH]
  | .dateDays _ => [sig.DATE]
  | .localTimeNanos _ => [sig.LOCAL_TIME]
  | .localDatetime _ _ => [sig.LOCAL_DATETIME]
  | .datetimeOffset _ _ _ => [sig.DATETIME_ZONED]
  | .duration _ => [sig.DURATION]
  | .point _ => [sig.POINT_2D, sig.POINT_3D]

namespace View
variable {v : BoltValue} {e e' : Entity}

theorem signature_of_shows (h : Shows v e) :
    ∃ s ∈ e.signatures, ∃ fields, v = .struct s fields := by
  cases e with
  | path p =>
    obtain ⟨_, _, fields, hs, -⟩ := h
    exact ⟨_, List.mem_singleton_self _, fields, hs.1⟩
  | point p =>
    rcases h with ⟨_, _, fields, hs, -⟩ | ⟨_, _, _, _, fields, hs, -⟩
    · exact ⟨_, List.mem_cons_self .., fields, hs.1⟩
    · exact ⟨_, List.mem_cons_of_mem _ (List.mem_singleton_self _), fields, hs.1⟩
  | node _ | relationship _ =>
    obtain ⟨fields, hs, -⟩ := h
    exact ⟨_, List.mem_singleton_self _, fields, hs.1⟩
  | _ =>
    obtain ⟨fields, hs⟩ := h
    exact ⟨_, List.mem_singleton_self _, fields, hs.1⟩

/-- A view gives one entity, and no other view gives one. -/
theorem shows_unique (h : Shows v e) (h' : Shows v e') : e = e' := by
  obtain ⟨s, hs, fields, rfl⟩ := signature_of_shows h
  obtain ⟨s', hs', fields', heq⟩ := signature_of_shows h'
  cases heq
  have hdiffer : (e.signatures.all fun a => !e'.signatures.contains a) = true → e = e' := by
    intro hd
    have hnot := List.all_eq_true.mp hd s hs
    simp [hs'] at hnot
  have hsame : ∀ {α : Type} {view : Option α} {a b : α}, view = some a →
      view = some b → a = b :=
    fun ha hb => Option.some.inj (ha.symm.trans hb)
  cases e with
  | node n =>
    cases e' with
    | node n' => rw [hsame (asNode_eq_some.mpr h) (asNode_eq_some.mpr h')]
    | _ => exact hdiffer rfl
  | relationship r =>
    cases e' with
    | relationship r' => rw [hsame (asRelationship_eq_some.mpr h) (asRelationship_eq_some.mpr h')]
    | _ => exact hdiffer rfl
  | unboundRelationship r =>
    cases e' with
    | unboundRelationship r' =>
      rw [hsame (asUnboundRelationship_eq_some.mpr h) (asUnboundRelationship_eq_some.mpr h')]
    | _ => exact hdiffer rfl
  | path p =>
    cases e' with
    | path p' => rw [hsame (asPath_eq_some.mpr h) (asPath_eq_some.mpr h')]
    | _ => exact hdiffer rfl
  | dateDays days =>
    cases e' with
    | dateDays days' => rw [hsame (asDateDays_eq_some.mpr h) (asDateDays_eq_some.mpr h')]
    | _ => exact hdiffer rfl
  | localTimeNanos nanos =>
    cases e' with
    | localTimeNanos nanos' =>
      rw [hsame (asLocalTimeNanos_eq_some.mpr h) (asLocalTimeNanos_eq_some.mpr h')]
    | _ => exact hdiffer rfl
  | localDatetime seconds nanos =>
    cases e' with
    | localDatetime seconds' nanos' =>
      cases hsame (asLocalDatetime_eq_some.mpr h) (asLocalDatetime_eq_some.mpr h')
      rfl
    | _ => exact hdiffer rfl
  | datetimeOffset seconds nanos offset =>
    cases e' with
    | datetimeOffset seconds' nanos' offset' =>
      cases hsame (asDatetimeOffset_eq_some.mpr h) (asDatetimeOffset_eq_some.mpr h')
      rfl
    | _ => exact hdiffer rfl
  | duration d =>
    cases e' with
    | duration d' => rw [hsame (asDuration_eq_some.mpr h) (asDuration_eq_some.mpr h')]
    | _ => exact hdiffer rfl
  | point p =>
    cases e' with
    | point p' => rw [hsame (asPoint_eq_some.mpr h) (asPoint_eq_some.mpr h')]
    | _ => exact hdiffer rfl

/-- The views accept exactly the structures that start with the fields of a graph or
temporal value, a path only if every node and relationship on it is one; and no
value shows two things. -/
theorem views_read_exactly (v : BoltValue) : (∀ e, some e ∈ v.views ↔ Shows v e) ∧
    ∀ e e', some e ∈ v.views → some e' ∈ v.views → e = e' := by
  refine ⟨fun e => mem_views, fun e e' h h' => ?_⟩
  exact shows_unique (mem_views.mp h) (mem_views.mp h')

end View

def NodeRef.toValue (n : NodeRef) : BoltValue :=
  .struct sig.NODE ([.int n.id, .list n.labels, .map n.properties] ++
    (n.elementId.map .string).toList)

def UnboundRelationshipRef.toValue (r : UnboundRelationshipRef) : BoltValue :=
  .struct sig.UNBOUND_RELATIONSHIP [.int r.id, .string r.type_, .map r.properties]

def Entity.toValue : Entity → BoltValue
  | .node n => n.toValue
  | .relationship r => .struct sig.RELATIONSHIP ([.int r.id, .int r.startId, .int r.endId,
      .string r.type_, .map r.properties] ++ (r.elementId.map .string).toList)
  | .unboundRelationship r => r.toValue
  | .path p => .struct sig.PATH [.list (p.nodes.map NodeRef.toValue),
      .list (p.relationships.map UnboundRelationshipRef.toValue), .list (p.indices.map .int)]
  | .dateDays days => .struct sig.DATE [.int days]
  | .localTimeNanos nanos => .struct sig.LOCAL_TIME [.int nanos]
  | .localDatetime seconds nanos => .struct sig.LOCAL_DATETIME [.int seconds, .int nanos]
  | .datetimeOffset seconds nanos offset =>
    .struct sig.DATETIME_ZONED [.int seconds, .int nanos, .int offset]
  | .duration d => .struct sig.DURATION [.int d.months, .int d.days, .int d.seconds,
      .int d.nanoseconds]
  | .point ⟨srid, x, y, none⟩ => .struct sig.POINT_2D [.int srid, .float x, .float y]
  | .point ⟨srid, x, y, some z⟩ => .struct sig.POINT_3D
      [.int srid, .float x, .float y, .float z]

namespace View

theorem showsNode_toValue (n : NodeRef) : ShowsNode n.toValue n := by
  refine ⟨_, ⟨rfl, List.prefix_append _ _⟩, ?_⟩
  cases h : n.elementId <;> rfl

theorem showsUnboundRelationship_toValue (r : UnboundRelationshipRef) :
    ShowsUnboundRelationship r.toValue r :=
  ⟨_, rfl, List.prefix_refl _⟩

theorem shows_toValue (e : Entity) : Shows e.toValue e := by
  cases e with
  | node n => exact showsNode_toValue n
  | relationship r =>
    refine ⟨_, ⟨rfl, List.prefix_append _ _⟩, ?_⟩
    cases h : r.elementId <;> rfl
  | unboundRelationship r => exact showsUnboundRelationship_toValue r
  | path p =>
    refine ⟨_, _, _, ⟨rfl, List.prefix_refl _⟩, ?_, ?_⟩
    · rw [List.forall₂_map_left_iff]
      exact List.forall₂_same.mpr fun n _ => showsNode_toValue n
    · rw [List.forall₂_map_left_iff]
      exact List.forall₂_same.mpr fun r _ => showsUnboundRelationship_toValue r
  | point p =>
    obtain ⟨srid, x, y, z⟩ := p
    cases z with
    | none => exact .inl ⟨_, _, _, ⟨rfl, List.prefix_refl _⟩, .float, .float, rfl⟩
    | some z =>
      exact .inr ⟨_, _, _, _, _, ⟨rfl, List.prefix_refl _⟩, .float, .float, .float, rfl⟩
  | _ => exact ⟨_, rfl, List.prefix_refl _⟩

/-- What a server packs for an entity shows that entity when it has been unpacked, and
nothing else: ids and coordinates of all bits, absent element ids, whole paths. -/
theorem views_undo_pack (e : Entity) (hk : e.toValue.KeysDistinct) (hs : e.toValue.Sized) :
    ∃ bytes, PackStream.pack e.toValue [] = .ok bytes ∧
      ∃ v r, PackStream.Reader.unpack (.new bytes) = .ok (v, r) ∧
        ∀ e', some e' ∈ v.views ↔ e' = e := by
  obtain ⟨bytes, hpack, hunpack⟩ := PackStream.unpack_pack e.toValue hk hs
  have hu := hunpack [] []
  rw [List.nil_append, List.append_nil] at hu
  refine ⟨bytes, hpack [], e.toValue, _, hu, fun e' => ?_⟩
  rw [mem_views]
  constructor
  · intro h
    exact shows_unique h (shows_toValue e)
  · rintro rfl
    exact shows_toValue e'

def twoNodes : PathRef :=
  ⟨[⟨1, [.string "A"], [("k", .null)], some "x"⟩, ⟨2, [], [], none⟩],
    [⟨3, "R", []⟩], [1, 1]⟩

theorem views_undo_pack_twoNodes : ∃ bytes,
    PackStream.pack (Entity.path twoNodes).toValue [] = .ok bytes ∧
    ∃ v r, PackStream.Reader.unpack (.new bytes) = .ok (v, r) ∧
      ∀ e, some e ∈ v.views ↔ e = .path twoNodes := by
  apply views_undo_pack (.path twoNodes)
  · simp [Entity.toValue, NodeRef.toValue, UnboundRelationshipRef.toValue, twoNodes,
      BoltValue.KeysDistinct, BoltValue.Forall, BoltValue.ForallSeq, BoltValue.ForallEntries,
      BoltValue.NodeKeysDistinct]
  · have hone : ∀ s : String, (utf8 s).length = 1 → (utf8 s).length < 4294967296 := by
      intro s hs
      omega
    simp [Entity.toValue, NodeRef.toValue, UnboundRelationshipRef.toValue, twoNodes,
      BoltValue.Sized, BoltValue.Forall, BoltValue.ForallSeq, BoltValue.ForallEntries,
      BoltValue.NodeSized, hone "A" (by decide), hone "k" (by decide), hone "x" (by decide),
      hone "R" (by decide)]

end View
end Boltwire
