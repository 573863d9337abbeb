import Boltwire.Convert
import Boltwire.Lib.SerdeFailure
import Boltwire.PackStreamCanonical

namespace Boltwire

open Serde

namespace BoltValue

theorem sameMapsSeq_iff {vs ws : List BoltValue} :
    SameMapsSeq vs ws ↔ List.Forall₂ SameMaps vs ws := by
  induction vs generalizing ws with
  | nil => rw [SameMapsSeq, List.forall₂_nil_left_iff]
  | cons v vs ih =>
    rw [SameMapsSeq, List.forall₂_cons_left_iff]
    constructor
    · rintro ⟨w, ws', heq, hw, hws⟩
      exact ⟨w, ws', hw, ih.mp hws, heq⟩
    · rintro ⟨w, ws', hw, hws, heq⟩
      exact ⟨w, ws', heq, hw, ih.mpr hws⟩

theorem sameMapsEntries_iff {es fs : List (String × BoltValue)} :
    SameMapsEntries es fs ↔ List.Forall₂ (fun e f => e.1 = f.1 ∧ SameMaps e.2 f.2) es fs := by
  induction es generalizing fs with
  | nil => rw [SameMapsEntries, List.forall₂_nil_left_iff]
  | cons e es ih =>
    obtain ⟨k, v⟩ := e
    rw [SameMapsEntries, List.forall₂_cons_left_iff]
    constructor
    · rintro ⟨w, fs', heq, hw, hfs⟩
      exact ⟨(k, w), fs', ⟨rfl, hw⟩, ih.mp hfs, heq⟩
    · rintro ⟨f, fs', ⟨hk, hw⟩, hfs, heq⟩
      change k = f.1 at hk
      subst hk
      exact ⟨f.2, fs', heq, hw, ih.mpr hfs⟩

mutual
theorem sameMaps_refl : ∀ v : BoltValue, SameMaps v v
  | list items => ⟨items, rfl, sameMapsSeq_refl items⟩
  | map entries => ⟨entries, entries, rfl, sameMapsEntries_refl entries, .refl entries⟩
  | struct _ fields => ⟨fields, rfl, sameMapsSeq_refl fields⟩
  | null | bool _ | int _ | float _ | string _ | bytes _ => rfl

theorem sameMapsSeq_refl : ∀ vs : List BoltValue, SameMapsSeq vs vs
  | [] => rfl
  | v :: vs => ⟨v, vs, rfl, sameMaps_refl v, sameMapsSeq_refl vs⟩

theorem sameMapsEntries_refl : ∀ es : List (String × BoltValue), SameMapsEntries es es
  | [] => rfl
  | (_, v) :: es => ⟨v, es, rfl, sameMaps_refl v, sameMapsEntries_refl es⟩
end

theorem sameMaps_of_perm {es fs : List (String × BoltValue)} (h : es.Perm fs) :
    SameMaps (map es) (map fs) := ⟨es, fs, rfl, sameMapsEntries_refl es, h⟩

theorem eq_null_of_sameMaps {v : BoltValue} (h : SameMaps v null) : v = null := by
  cases v <;> simp [SameMaps] at h ⊢

/-- A map of one entry has one iteration order. -/
theorem sameMaps_singleton {key : String} {v w : BoltValue} (h : SameMaps (map [(key, v)]) w) :
    ∃ d, w = map [(key, d)] ∧ SameMaps v d := by
  obtain ⟨es, fs, hw, ⟨d, es', hes, hd, hnil⟩, hperm⟩ := h
  change es' = [] at hnil
  subst hnil hes
  rw [← List.singleton_perm.mp hperm] at hw
  exact ⟨d, hw, hd⟩

end BoltValue

def boltFormat : Format ConvertError BoltValue where
  ser := valueSerializer
  de := valueDeserializer
  Same := BoltValue.SameMaps

/-- `HashMap::insert` of one entry after another. -/
def Meta.insertAll (m es : Meta) : Meta := es.foldl (fun m e => m.insert e.1 e.2) m

theorem Meta.insertAll_of_nodup {m es : Meta} (h : ((m ++ es).map Prod.fst).Nodup) :
    m.insertAll es = m ++ es := by
  induction es generalizing m with
  | nil => exact (List.append_nil m).symm
  | cons e es ih =>
    have hassoc : m ++ e :: es = m ++ [(e.1, e.2)] ++ es := by simp
    have hnew : e.1 ∉ m.map Prod.fst := by
      rw [List.map_append] at h
      exact fun hmem => (List.nodup_append.mp h).2.2 _ hmem _ List.mem_cons_self rfl
    show (m.insert e.1 e.2).insertAll es = _
    rw [Meta.insert_of_notMem hnew, ih (hassoc ▸ h), ← hassoc]

namespace ValueSerializer

def field (e : String × Serialized) : Except ConvertError (String × BoltValue) := do
  let value ← e.2
  pure (e.1, value)

/-- An entry of a map: its key has to come out as a string. -/
def entry (e : Serialized × Serialized) : Except ConvertError (String × BoltValue) := do
  match ← e.1 with
  | .string key => field (key, e.2)
  | other => throw (.mapKeyNotString other)

end ValueSerializer

open ValueSerializer

def SeqSer.push (s : SeqSer) (v : BoltValue) : SeqSer := { s with items := s.items ++ [v] }

theorem SeqSer.foldl_push (vs : List BoltValue) (s : SeqSer) :
    vs.foldl push s = { s with items := s.items ++ vs } := by
  induction vs generalizing s with
  | nil => simp
  | cons v vs ih => simp [ih, push]

def VariantSeqSer.push (s : VariantSeqSer) (v : BoltValue) : VariantSeqSer :=
  { s with items := s.items ++ [v] }

theorem VariantSeqSer.foldl_push (vs : List BoltValue) (s : VariantSeqSer) :
    vs.foldl push s = { s with items := s.items ++ vs } := by
  induction vs generalizing s with
  | nil => simp
  | cons v vs ih => simp [ih, push]

namespace MapSer

def put (s : MapSer) (f : String × BoltValue) : MapSer := { s with map := s.map.insert f.1 f.2 }

theorem foldl_put (fs : Meta) (s : MapSer) :
    fs.foldl put s = { s with map := s.map.insertAll fs } := by
  induction fs generalizing s with
  | nil => rfl
  | cons f fs ih => exact ih _

theorem serializeField_eq (s : MapSer) (e : String × Serialized) :
    s.serializeField e.1 e.2 = (do let f ← field e; pure (s.put f)) := by
  unfold serializeField field
  cases e.2 <;> rfl

/-- A key that is kept waits for its value, which takes it again. -/
def putEntry (s : MapSer) (f : String × BoltValue) : MapSer := ⟨s.map.insert f.1 f.2, none⟩

theorem foldl_putEntry (fs m : Meta) :
    fs.foldl putEntry ⟨m, none⟩ = ⟨m.insertAll fs, none⟩ := by
  induction fs generalizing m with
  | nil => rfl
  | cons f fs ih => exact ih _

theorem serializeEntry_eq (s : MapSer) (e : Serialized × Serialized) :
    (do (← s.serializeKey e.1).serializeValue e.2) =
      (do let f ← entry e; pure (s.putEntry f)) := by
  unfold serializeKey entry field
  cases e.1 with
  | error err => rfl
  | ok key =>
    cases key with
    | string text =>
      show (MapSer.mk s.map (some text)).serializeValue e.2 = _
      unfold serializeValue
      cases e.2 <;> rfl
    | _ => rfl

end MapSer

namespace VariantMapSer

def put (s : VariantMapSer) (f : String × BoltValue) : VariantMapSer :=
  { s with map := s.map.insert f.1 f.2 }

theorem foldl_put (fs : Meta) (s : VariantMapSer) :
    fs.foldl put s = { s with map := s.map.insertAll fs } := by
  induction fs generalizing s with
  | nil => rfl
  | cons f fs ih => exact ih _

theorem serializeField_eq (s : VariantMapSer) (e : String × Serialized) :
    s.serializeField e.1 e.2 = (do let f ← field e; pure (s.put f)) := by
  unfold serializeField field
  cases e.2 <;> rfl

end VariantMapSer

namespace ValueSerializer

theorem serializeSeq_run (rs : List Serialized) :
    serializeSeq.run rs = (do let vs ← rs.mapM id; pure (.list vs)) := by
  rw [Compound.run_eq serializeSeq id SeqSer.push rfl fun _ _ => rfl]
  exact congrArg _ (funext fun vs => congrArg SeqSer.finish (SeqSer.foldl_push vs ⟨[]⟩))

theorem serializeTupleVariant_run (variant : String) (rs : List Serialized) :
    (serializeTupleVariant variant).run rs =
      serializeNewtypeVariant variant (serializeSeq.run rs) := by
  rw [serializeSeq_run,
    Compound.run_eq (serializeTupleVariant variant) id VariantSeqSer.push rfl fun _ _ => rfl]
  cases rs.mapM id with
  | error e => rfl
  | ok vs => exact congrArg VariantSeqSer.finish (VariantSeqSer.foldl_push vs ⟨variant, []⟩)

theorem serializeStruct_run (es : List (String × Serialized)) :
    serializeStruct.run es = (do let fs ← es.mapM field; pure (.map (Meta.insertAll [] fs))) := by
  rw [Compound.run_eq serializeStruct field MapSer.put rfl MapSer.serializeField_eq]
  exact congrArg _ (funext fun fs => congrArg MapSer.finish (MapSer.foldl_put fs ⟨[], none⟩))

theorem serializeStructVariant_run (variant : String) (es : List (String × Serialized)) :
    (serializeStructVariant variant).run es =
      serializeNewtypeVariant variant (serializeStruct.run es) := by
  rw [serializeStruct_run, Compound.run_eq (serializeStructVariant variant) field
    VariantMapSer.put rfl VariantMapSer.serializeField_eq]
  cases es.mapM field with
  | error e => rfl
  | ok fs => exact congrArg VariantMapSer.finish (VariantMapSer.foldl_put fs ⟨variant, []⟩)

theorem serializeMap_run (es : List (Serialized × Serialized)) :
    serializeMap.run es = (do let fs ← es.mapM entry; pure (.map (Meta.insertAll [] fs))) := by
  rw [Compound.run_eq serializeMap entry MapSer.putEntry rfl MapSer.serializeEntry_eq]
  exact congrArg _ (funext fun fs => congrArg MapSer.finish (MapSer.foldl_putEntry fs []))

/-- Entries under strings are fields. -/
theorem serializeMap_run_strings (es : List (String × Serialized)) :
    serializeMap.run (es.map fun e => (serializeStr e.1, e.2)) = serializeStruct.run es := by
  rw [serializeMap_run, serializeStruct_run, List.mapM_map]
  rfl

theorem serializeInt_eq (ty : IntTy) (n : ty.Value) :
    serializeInt ty n =
      if n.val ≤ IntTy.i64.max then .ok (.int (Int64.ofInt n.val)) else .error
        .u64OutOfRange := by
  cases ty with
  | u64 => rfl
  | _ =>
    apply (if_pos _).symm
    have h := n.property.2
    simp only [IntTy.max] at h ⊢
    omega

end ValueSerializer

namespace boltFormat

theorem forall₂_yields {rs : List Serialized} {vs ws : List BoltValue}
    (hrs : List.Forall₂ (fun r v => r = .ok v) rs vs)
    (hvs : List.Forall₂ BoltValue.SameMaps vs ws) : List.Forall₂ boltFormat.Yields rs ws := by
  induction hrs generalizing ws with
  | nil =>
    cases hvs
    exact .nil
  | cons hr _ ih =>
    cases hvs with
    | cons hv hvs => exact .cons ⟨_, hr, hv⟩ (ih hvs)

theorem field_eq_ok {e : String × Serialized} {f : String × BoltValue} (h : field e = .ok f) :
    e.1 = f.1 ∧ e.2 = .ok f.2 := by
  obtain ⟨v, hv, heq⟩ := except_bind_eq_ok h
  cases heq
  exact ⟨rfl, hv⟩

theorem forall₂_yields_fields {es : List (String × Serialized)} {fs gs : Meta}
    (hes : List.Forall₂ (fun e f => e.1 = f.1 ∧ e.2 = .ok f.2) es fs)
    (hfs : List.Forall₂ (fun f g => f.1 = g.1 ∧ BoltValue.SameMaps f.2 g.2) fs gs) :
    List.Forall₂ (fun e g => e.1 = g.1 ∧ boltFormat.Yields e.2 g.2) es gs := by
  induction hes generalizing gs with
  | nil =>
    cases hfs
    exact .nil
  | cons he _ ih =>
    cases hfs with
    | cons hf hfs => exact .cons ⟨he.1.trans hf.1, _, he.2, hf.2⟩ (ih hfs)

/-- Values without parts are seen as they are. -/
theorem eq_of_yields {v w : BoltValue} (h : boltFormat.Yields (.ok v) w)
    (hleaf : BoltValue.SameMaps v w = (w = v)) : w = v := by
  obtain ⟨v', hv', hsame⟩ := h
  cases hv'
  exact hleaf ▸ hsame

theorem answer_list {rs : List Serialized} {w : BoltValue}
    (h : boltFormat.Yields (serializeSeq.run rs) w) :
    ∃ ws, w.deserializeAny = .ok (.seq ws) ∧ List.Forall₂ boltFormat.Yields rs ws := by
  obtain ⟨v, hv, hsame⟩ := h
  rw [serializeSeq_run] at hv
  obtain ⟨vs, hvs, heq⟩ := except_bind_eq_ok hv
  cases heq
  obtain ⟨ws, rfl, hws⟩ := hsame
  use ws
  constructor
  · rfl
  · exact forall₂_yields (mapM_eq_ok hvs) (BoltValue.sameMapsSeq_iff.mp hws)

theorem answer_map {es : List (String × Serialized)} {w : BoltValue}
    (h : boltFormat.Yields (serializeStruct.run es) w) (hes : (es.map Prod.fst).Nodup) :
    ∃ fs, w.deserializeAny = .ok (.map fs) ∧ boltFormat.YieldsEntries es fs := by
  obtain ⟨v, hv, hsame⟩ := h
  rw [serializeStruct_run] at hv
  obtain ⟨fs, hmap, heq⟩ := except_bind_eq_ok hv
  have hfs := (mapM_eq_ok hmap).imp fun _ _ => field_eq_ok
  -- no name occurs twice, so every entry stays
  have hinsert : Meta.insertAll [] fs = fs := by
    apply Meta.insertAll_of_nodup
    rw [List.nil_append, ← map_fst_of_forall₂ (R := fun (r : Serialized) v => r = .ok v) hfs]
    exact hes
  rw [hinsert] at heq
  cases heq
  obtain ⟨gs, gs', rfl, hgs, hperm⟩ := hsame
  use gs'
  constructor
  · rfl
  · exact ⟨gs, forall₂_yields_fields hfs (BoltValue.sameMapsEntries_iff.mp hgs), hperm⟩

theorem answer_variant {variant : String} {r : Serialized} {w : BoltValue}
    (h : boltFormat.Yields (serializeNewtypeVariant variant r) w) :
    ∃ d, w.deserializeEnum = .ok (.enum ⟨variant, some d⟩) ∧ boltFormat.Yields r d := by
  obtain ⟨v, hv, hsame⟩ := h
  obtain ⟨value, hr, heq⟩ := except_bind_eq_ok hv
  cases heq
  obtain ⟨d, rfl, hd⟩ := BoltValue.sameMaps_singleton hsame
  exact ⟨d, rfl, value, hr, hd⟩

theorem answer_int {ty : IntTy} {n : ty.Value} {w : BoltValue}
    (h : boltFormat.Yields (serializeInt ty n) w) :
    ∃ m : Int64, w.deserializeAny = .ok (.i64 m) ∧ m.toInt = n.val := by
  rw [serializeInt_eq] at h
  split_ifs at h with hmax
  · rw [eq_of_yields h rfl]
    use Int64.ofInt n.val
    constructor
    · rfl
    · apply Int64.toInt_ofInt_of_le
      · have hmin : -2 ^ 63 ≤ ty.min := by cases ty <;> decide
        exact hmin.trans n.property.1
      · exact Int.lt_of_le_sub_one hmax
  · obtain ⟨v, hv, -⟩ := h
    cases hv

theorem answer_some {r : Serialized} {w : BoltValue} (h : boltFormat.Yields r w)
    (hnull : r ≠ .ok .null) : w.deserializeOption = .ok (.some w) := by
  obtain ⟨v, rfl, hsame⟩ := h
  cases w with
  | null => exact absurd (congrArg _ (BoltValue.eq_null_of_sameMaps hsame)) hnull
  | _ => rfl

theorem faithful : boltFormat.Faithful where
  bool h := by rw [eq_of_yields h rfl]; rfl
  int h := answer_int h
  f64 h := by rw [eq_of_yields h rfl]; rfl
  char h := by rw [eq_of_yields h rfl]; rfl
  string h := by rw [eq_of_yields h rfl]; rfl
  bytes h := by rw [eq_of_yields h rfl]; rfl
  none h := by rw [eq_of_yields h rfl]; rfl
  some h hnone := ⟨_, answer_some h hnone, h⟩
  unit h := by rw [eq_of_yields h rfl]; rfl
  unitStruct h := by rw [eq_of_yields h rfl]; rfl
  unitVariant h := by rw [eq_of_yields h rfl]; rfl
  newtypeStruct h := ⟨_, rfl, h⟩
  newtypeVariant h := answer_variant h
  seq h := answer_list h
  tuple h := answer_list h
  tupleStruct h := answer_list h
  tupleVariant h := by
    obtain ⟨d, hd, hyields⟩ := answer_variant (serializeTupleVariant_run _ _ ▸ h)
    obtain ⟨ds, hds, hitems⟩ := answer_list hyields
    exact ⟨d, ds, hd, hds, hitems⟩
  map h hes := answer_map (serializeMap_run_strings _ ▸ h) hes
  struct h hes := answer_map h hes
  structVariant h hes := by
    obtain ⟨d, hd, hyields⟩ := answer_variant (serializeStructVariant_run _ _ ▸ h)
    obtain ⟨fs, hfs, hentries⟩ := answer_map hyields hes
    exact ⟨d, fs, hd, hfs, hentries⟩

theorem exists_fails {α β : Type} {f : α → Except ConvertError β} {xs : List α}
    {g : List β → BoltValue} (h : Fails (do let ys ← xs.mapM f; pure (g ys))) :
    ∃ x ∈ xs, ∃ e, f x = .error e := by
  cases hxs : xs.mapM f with
  | error e =>
    obtain ⟨x, hx, he⟩ := mapM_eq_error hxs
    exact ⟨x, hx, e, he⟩
  | ok ys =>
    obtain ⟨e, he⟩ := h
    rw [hxs] at he
    cases he

theorem seq_fails {rs : List Serialized} (h : Fails (serializeSeq.run rs)) :
    ∃ r ∈ rs, Fails r := by
  rw [serializeSeq_run] at h
  exact exists_fails h

theorem struct_fails {es : List (String × Serialized)} (h : Fails (serializeStruct.run es)) :
    ∃ e ∈ es, Fails e.2 := by
  rw [serializeStruct_run] at h
  obtain ⟨e, he, err, hfield⟩ := exists_fails h
  use e, he, err
  unfold field at hfield
  cases hv : e.2 with
  | error err' =>
    rw [hv] at hfield
    cases hfield
    rfl
  | ok v =>
    rw [hv] at hfield
    cases hfield

theorem variant_fails {variant : String} {r : Serialized}
    (h : Fails (serializeNewtypeVariant variant r)) : Fails r := by
  cases r with
  | error e => exact ⟨e, rfl⟩
  | ok v =>
    obtain ⟨e, he⟩ := h
    cases he

theorem int_fails {ty : IntTy} {n : ty.Value} (h : Fails (serializeInt ty n)) :
    ty = .u64 ∧ IntTy.i64.max < n.val := by
  rw [serializeInt_eq] at h
  split_ifs at h with hmax
  · obtain ⟨e, he⟩ := h
    cases he
  · have hlarge : IntTy.i64.max < n.val := Int.not_le.mp hmax
    constructor
    · have hn := n.property.2
      cases ty <;> first | rfl | (simp only [IntTy.max] at hn hlarge; omega)
    · exact hlarge

theorem not_fails_ok (v : BoltValue) : ¬Fails (.ok v : Serialized) := by
  rintro ⟨e, he⟩
  cases he

theorem lenient : boltFormat.Lenient fun n => IntTy.i64.max < n where
  bool := not_fails_ok _
  int h := int_fails h
  f64 := not_fails_ok _
  char := not_fails_ok _
  string := not_fails_ok _
  bytes := not_fails_ok _
  none := not_fails_ok _
  some h := h
  unit := not_fails_ok _
  unitStruct := not_fails_ok _
  unitVariant := not_fails_ok _
  newtypeStruct h := h
  newtypeVariant h := variant_fails h
  seq h := seq_fails h
  tuple h := seq_fails h
  tupleStruct h := seq_fails h
  tupleVariant h := seq_fails (variant_fails (serializeTupleVariant_run _ _ ▸ h))
  map h := struct_fails (serializeMap_run_strings _ ▸ h)
  struct h := struct_fails h
  structVariant h := struct_fails (variant_fails (serializeStructVariant_run _ _ ▸ h))

end boltFormat

/-- A value of any type that is built from the types of serde comes back from
what `to_value` makes of it, whatever the iteration order of the maps in it, and
only a `u64` above `i64::MAX` keeps it from being converted. -/
theorem fromValue_toValue {T : SerdeType ConvertError BoltValue} (hT : T.Built boltFormat)
    (x : T.Carrier) :
    (∀ v, toValue T x = .ok v → ∀ w, v.SameMaps w →
      ∃ y, fromValue T w = .ok y ∧ T.same x y) ∧
    (∀ e, toValue T x = .error e → ∃ n ∈ T.u64s x, IntTy.i64.max < n) := by
  constructor
  · intro v hv w hw
    exact hT.roundTrips boltFormat.faithful x w ⟨v, hv, hw⟩
  · intro e he
    exact hT.failsOver boltFormat.lenient x ⟨e, he⟩

/-- A struct that can be converted can be used as parameters. -/
theorem params_struct {fs : Fields ConvertError BoltValue} {xs : Tuple fs.types} {v : BoltValue}
    (h : toValue (.struct fs) xs = .ok v) :
    ∃ m, v = .map m ∧ params (.struct fs) xs = .ok m := by
  have hrun : serializeStruct.run (fs.serialize valueSerializer xs) = .ok v := h
  rw [serializeStruct_run] at hrun
  obtain ⟨es, -, heq⟩ := except_bind_eq_ok hrun
  cases heq
  use Meta.insertAll [] es, rfl
  unfold params
  rw [h]
  rfl

namespace Person

def fields : Fields ConvertError BoltValue :=
  [("name", .string), ("age", .int .i64), ("score", .f64), ("tags", .seq .string),
    ("nickname", .option .string)]

def sample : (SerdeType.struct fields).Carrier :=
  ("Neo", ⟨30, by decide⟩, (0x4023000000000000 : UInt64), ["a", "b"], none, ())

theorem built : (SerdeType.struct fields).Built boltFormat := by
  apply SerdeType.Built.struct
  · intro T hT
    simp only [Fields.types, fields, List.map_cons, List.map_nil, List.mem_cons,
      List.not_mem_nil, or_false] at hT
    obtain rfl | rfl | rfl | rfl | rfl := hT
    · exact .string
    · exact .int .i64
    · exact .f64
    · exact .seq .string
    · apply SerdeType.Built.option .string
      intro s h
      cases h
  · decide

/-- `struct_roundtrip`, with the map of its fields turned round. -/
theorem comes_back :
    toValue (.struct fields) sample = .ok (.map [("name", .string "Neo"), ("age", .int 30),
      ("score", .float 0x4023000000000000), ("tags", .list [.string "a", .string "b"]),
      ("nickname", .null)]) ∧
    ∃ y, fromValue (.struct fields) (.map [("nickname", .null),
      ("tags", .list [.string "a", .string "b"]), ("score", .float 0x4023000000000000),
      ("age", .int 30), ("name", .string "Neo")]) = .ok y ∧
      (SerdeType.struct fields).same sample y := by
  constructor
  · rfl
  · apply (fromValue_toValue built sample).1 _ rfl
    exact BoltValue.sameMaps_of_perm (List.reverse_perm _).symm

end Person

end Boltwire
