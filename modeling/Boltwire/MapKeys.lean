import Boltwire.ConvertRoundTrip

namespace Boltwire

open Serde

/-- The types of keys: an enum has unit variants only. -/
inductive KeyTy
  | string
  | char
  | enum (variants : List String) (distinct : variants.Nodup)
  | newtypeStruct (inner : KeyTy)
  | option (inner : KeyTy)

namespace KeyTy

def unitVariants : List String → Variants ConvertError BoltValue
  | [] => []
  | variant :: variants => (variant, .unit) :: unitVariants variants

def type : KeyTy → SerdeType ConvertError BoltValue
  | string => .string
  | char => .char
  | enum variants _ => .enum (unitVariants variants)
  | newtypeStruct inner => inner.type.newtypeStruct
  | option inner => inner.type.option

/-- The type itself is one that is read from a string, not a wrapper around it. -/
def Plain : KeyTy → Prop
  | string | char | enum _ _ => True
  | newtypeStruct _ | option _ => False

def decEqChoice : (variants : List String) →
    DecidableEq (Variants.Choice (unitVariants variants))
  | [] => inferInstanceAs (DecidableEq Empty)
  | _ :: variants =>
    have := decEqChoice variants
    inferInstanceAs (DecidableEq (Unit ⊕ Variants.Choice (unitVariants variants)))

def decEq : (k : KeyTy) → DecidableEq k.type.Carrier
  | string => inferInstanceAs (DecidableEq String)
  | char => inferInstanceAs (DecidableEq Char)
  | enum variants _ => decEqChoice variants
  | newtypeStruct inner => inner.decEq
  | option inner =>
    have := inner.decEq
    inferInstanceAs (DecidableEq (Option inner.type.Carrier))

instance (k : KeyTy) : DecidableEq k.type.Carrier := k.decEq

theorem char_keyedBy :
    (SerdeType.char : SerdeType ConvertError BoltValue).KeyedBy boltFormat Char.toString where
  serialize _ := rfl
  deserialize c := SerdeType.visitChar_toString (D := String) c
  same_refl _ := rfl

def variantName : (variants : List String) → Variants.Choice (unitVariants variants) → String
  | variant :: _, .inl _ => variant
  | _ :: variants, .inr x => variantName variants x

section
variable {variants : List String} (x : Variants.Choice (unitVariants variants))

theorem variantName_mem : variantName variants x ∈ variants := by
  induction variants with
  | nil => cases x
  | cons variant variants ih =>
    cases x with
    | inl x => exact List.mem_cons_self
    | inr x => exact List.mem_cons_of_mem _ (ih x)

theorem serialize_unitVariants (S : Serializer ConvertError BoltValue) :
    Variants.serialize S (unitVariants variants) x = S.unitVariant (variantName variants x) := by
  induction variants with
  | nil => cases x
  | cons variant variants ih =>
    cases x with
    | inl x => rfl
    | inr x => exact ih x

theorem read_unitVariants (hdistinct : variants.Nodup) :
    Variants.read stringDeserializer ⟨variantName variants x, none⟩ (unitVariants variants) =
      .ok x := by
  induction variants with
  | nil => cases x
  | cons variant variants ih =>
    obtain ⟨hnew, hdistinct⟩ := List.nodup_cons.mp hdistinct
    cases x with
    | inl x => exact if_pos rfl
    | inr x =>
      have hne : variantName variants x ≠ variant := fun he => hnew (he ▸ variantName_mem x)
      apply (if_neg hne).trans
      show Sum.inr <$> Variants.read stringDeserializer ⟨variantName variants x, none⟩
        (unitVariants variants) = _
      rw [ih x hdistinct]
      rfl

theorem same_unitVariants : Variants.same (unitVariants variants) x x := by
  induction variants with
  | nil => cases x
  | cons variant variants ih =>
    cases x with
    | inl x => rfl
    | inr x => exact ih x

end

theorem enum_keyedBy {variants : List String} (hdistinct : variants.Nodup) :
    (SerdeType.enum (unitVariants variants)).KeyedBy boltFormat (variantName variants) where
  serialize x := serialize_unitVariants x valueSerializer
  deserialize x := read_unitVariants x hdistinct
  same_refl x := same_unitVariants x

theorem roundTrips_of_plain {k : KeyTy} (hk : k.Plain) {V : SerdeType ConvertError BoltValue}
    (hV : V.RoundTrips boltFormat) : (SerdeType.map k.type V).RoundTrips boltFormat := by
  cases k with
  | string => exact SerdeType.map_roundTrips boltFormat.faithful SerdeType.string_keyedBy hV
  | char => exact SerdeType.map_roundTrips boltFormat.faithful char_keyedBy hV
  | enum variants hdistinct =>
    exact SerdeType.map_roundTrips boltFormat.faithful (enum_keyedBy hdistinct) hV
  | newtypeStruct inner => cases hk
  | option inner => cases hk

theorem read_of_not_plain {k : KeyTy} (hk : ¬k.Plain) (s : String) :
    k.type.deserialize stringDeserializer s = .error (.fault .invalidType) := by
  cases k with
  | newtypeStruct inner => rfl
  | option inner => rfl
  | _ => exact absurd trivial hk

end KeyTy

theorem Meta.insertAll_ne_nil {m es : Meta} (h : m ≠ [] ∨ es ≠ []) :
    m.insertAll es ≠ [] := by
  induction es generalizing m with
  | nil => simpa [insertAll] using h
  | cons e es ih =>
    apply ih (m := m.insert e.1 e.2)
    left
    unfold Meta.insert
    split_ifs with hmem
    · cases m with
      | nil => cases hmem
      | cons e' m => exact List.cons_ne_nil _ _
    · simp

/-- What is written of a map is not empty unless the map is. -/
theorem serializeMap_ne_nil {es : List (Serialized × Serialized)} (hes : es ≠ []) {v : BoltValue}
    (h : ValueSerializer.serializeMap.run es = .ok v) : ∃ f fs, v = .map (f :: fs) := by
  rw [ValueSerializer.serializeMap_run] at h
  obtain ⟨fs, hmap, heq⟩ := except_bind_eq_ok h
  cases heq
  have hfs : fs ≠ [] := by
    have hlen := (mapM_eq_ok hmap).length_eq
    apply List.ne_nil_of_length_pos
    rw [← hlen]
    exact List.length_pos_of_ne_nil hes
  obtain ⟨f, fs', heq⟩ := List.exists_cons_of_ne_nil
    (Meta.insertAll_ne_nil (m := []) (.inr hfs))
  exact ⟨f, fs', congrArg _ heq⟩

/-- A map that could be written is read back if its keys are strings, chars or
unit variants themselves, or if it is empty, and only then. -/
theorem mapReadsBack_iff (k : KeyTy) {V : SerdeType ConvertError BoltValue}
    (hV : V.RoundTrips boltFormat) (m : Entries k.type.Carrier V.Carrier) {v : BoltValue}
    (hv : toValue (.map k.type V) m = .ok v) :
    (∀ w, v.SameMaps w → ∃ m', fromValue (.map k.type V) w = .ok m' ∧
      (SerdeType.map k.type V).same m m') ↔ k.Plain ∨ m.toList = [] := by
  constructor
  · intro hread
    by_contra hnot
    rw [not_or] at hnot
    have hne : (m.toList.map fun e => (k.type.serialize valueSerializer e.1,
        V.serialize valueSerializer e.2)) ≠ [] := by simpa using hnot.2
    obtain ⟨f, fs, rfl⟩ := serializeMap_ne_nil hne hv
    obtain ⟨m', hm', -⟩ := hread _ (BoltValue.sameMaps_refl _)
    have hfirst : fromValue (.map k.type V) (.map (f :: fs)) = .error (.fault .invalidType) := by
      show Entries.read (k.type.deserialize stringDeserializer) (V.deserialize valueDeserializer)
        (f :: fs) = _
      unfold Entries.read
      rw [List.foldlM_cons, KeyTy.read_of_not_plain hnot.1]
      rfl
    rw [hfirst] at hm'
    cases hm'
  · intro hcond w hw
    cases hcond with
    | inl hk => exact KeyTy.roundTrips_of_plain hk hV m w ⟨v, hv, hw⟩
    | inr hempty =>
      obtain ⟨es, hes⟩ := m
      change es = [] at hempty
      subst hempty
      cases hv
      obtain ⟨_, fs, rfl, rfl, hperm⟩ := hw
      have hfs : fs = [] := List.nil_perm.mp hperm
      subst hfs
      exact ⟨.empty, rfl, [], .nil, .refl []⟩

/-- Keys of an enum, in either order. -/
theorem north_and_south :
    ∃ m', fromValue (.map (KeyTy.enum ["North", "South"] (by decide)).type .bool)
        (.map [("South", .bool false), ("North", .bool true)]) = .ok m' ∧
      (SerdeType.map (KeyTy.enum ["North", "South"] (by decide)).type .bool).same
        ⟨[(.inl (), true), (.inr (.inl ()), false)], by decide⟩ m' := by
  have hbool := SerdeType.bool_roundTrips boltFormat.faithful
  apply (mapReadsBack_iff (.enum ["North", "South"] (by decide)) hbool _ rfl).mpr (.inl trivial)
  exact BoltValue.sameMaps_of_perm (.swap _ _ [])

/-- A `struct Name(String)` is written as a key and not read as one. -/
theorem newtype_key_refused :
    (SerdeType.bool : SerdeType ConvertError BoltValue).RoundTrips boltFormat ∧
    toValue (.map (KeyTy.newtypeStruct .string).type .bool)
      (⟨[("a", true)], by decide⟩ : Entries String Bool) = .ok (.map [("a", .bool true)]) ∧
    fromValue (.map (KeyTy.newtypeStruct .string).type .bool) (.map [("a", .bool true)]) =
      .error (.fault .invalidType) :=
  ⟨SerdeType.bool_roundTrips boltFormat.faithful, rfl, rfl⟩

end Boltwire
