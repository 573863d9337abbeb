import Boltwire.Lib.Serde

namespace Serde

/-- `Same` relates outputs that a reader may see in place of each other. -/
structure Format (ε ω : Type) where
  ser : Serializer ε ω
  de : Deserializer ε ω
  Same : ω → ω → Prop

namespace Format
variable {ε ω : Type}

/-- `w` may be seen in place of what was written. -/
def Yields (F : Format ε ω) (r : Except ε ω) (w : ω) : Prop := ∃ v, r = .ok v ∧ F.Same v w

def YieldsEntries (F : Format ε ω) (es : List (String × Except ε ω))
    (fs : List (String × ω)) : Prop :=
  ∃ fs', List.Forall₂ (fun e f => e.1 = f.1 ∧ F.Yields e.2 f.2) es fs' ∧ fs'.Perm fs

/-- What is written with a method is handed to the visitor by the request that belongs to it. -/
structure Faithful (F : Format ε ω) : Prop where
  bool {b w} : F.Yields (F.ser.bool b) w → F.de.answer w .bool = .ok (.bool b)
  int {ty n w} : F.Yields (F.ser.int ty n) w →
    ∃ m : Int64, F.de.answer w (.int ty) = .ok (.i64 m) ∧ m.toInt = n.val
  f64 {b w} : F.Yields (F.ser.f64 b) w → F.de.answer w .f64 = .ok (.f64 b)
  char {c w} : F.Yields (F.ser.char c) w → F.de.answer w .char = .ok (.string c.toString)
  string {s w} : F.Yields (F.ser.string s) w → F.de.answer w .string = .ok (.string s)
  bytes {b w} : F.Yields (F.ser.bytes b) w → F.de.answer w .byteBuf = .ok (.byteBuf b)
  none {w} : F.Yields F.ser.none w → F.de.answer w .option = .ok .none
  some {r w} : F.Yields (F.ser.some r) w → r ≠ F.ser.none →
    ∃ d, F.de.answer w .option = .ok (.some d) ∧ F.Yields r d
  unit {w} : F.Yields F.ser.unit w → F.de.answer w .unit = .ok .unit
  unitStruct {w} : F.Yields F.ser.unitStruct w → F.de.answer w .unitStruct = .ok .unit
  unitVariant {v w} : F.Yields (F.ser.unitVariant v) w →
    F.de.answer w .enum = .ok (.enum ⟨v, Option.none⟩)
  newtypeStruct {r w} : F.Yields (F.ser.newtypeStruct r) w →
    ∃ d, F.de.answer w .newtypeStruct = .ok (.newtypeStruct d) ∧ F.Yields r d
  newtypeVariant {v r w} : F.Yields (F.ser.newtypeVariant v r) w →
    ∃ d, F.de.answer w .enum = .ok (.enum ⟨v, Option.some d⟩) ∧ F.Yields r d
  seq {rs w} : F.Yields (F.ser.seq.run rs) w →
    ∃ ds, F.de.answer w .seq = .ok (.seq ds) ∧ List.Forall₂ F.Yields rs ds
  tuple {rs w} : F.Yields (F.ser.tuple.run rs) w →
    ∃ ds, F.de.answer w .tuple = .ok (.seq ds) ∧ List.Forall₂ F.Yields rs ds
  tupleStruct {rs w} : F.Yields (F.ser.tupleStruct.run rs) w →
    ∃ ds, F.de.answer w .tupleStruct = .ok (.seq ds) ∧ List.Forall₂ F.Yields rs ds
  tupleVariant {v rs w} : F.Yields ((F.ser.tupleVariant v).run rs) w →
    ∃ d ds, F.de.answer w .enum = .ok (.enum ⟨v, Option.some d⟩) ∧
      F.de.answer d .tuple = .ok (.seq ds) ∧ List.Forall₂ F.Yields rs ds
  map {es : List (String × Except ε ω)} {w} :
    F.Yields (F.ser.map.run (es.map fun e => (F.ser.string e.1, e.2))) w →
    (es.map Prod.fst).Nodup → ∃ fs, F.de.answer w .map = .ok (.map fs) ∧ F.YieldsEntries es fs
  struct {es w} : F.Yields (F.ser.struct.run es) w → (es.map Prod.fst).Nodup →
    ∃ fs, F.de.answer w .struct = .ok (.map fs) ∧ F.YieldsEntries es fs
  structVariant {v es w} : F.Yields ((F.ser.structVariant v).run es) w →
    (es.map Prod.fst).Nodup →
    ∃ d fs, F.de.answer w .enum = .ok (.enum ⟨v, Option.some d⟩) ∧
      F.de.answer d .map = .ok (.map fs) ∧ F.YieldsEntries es fs

end Format

/-- Whatever is written of a value is read back as that value. -/
def SerdeType.RoundTrips {ε ω : Type} (T : SerdeType ε ω) (F : Format ε ω) : Prop :=
  ∀ x w, F.Yields (T.serialize F.ser x) w → ∃ y, T.deserialize F.de w = .ok y ∧ T.same x y

section RoundTrip
variable {ε ω : Type} {F : Format ε ω}

theorem mapM_eq_ok {α β : Type} {f : α → Except ε β} {xs : List α} {ys : List β}
    (h : xs.mapM f = .ok ys) : List.Forall₂ (fun x y => f x = .ok y) xs ys := by
  induction xs generalizing ys with
  | nil =>
    cases h
    exact .nil
  | cons x xs ih =>
    rw [List.mapM_cons] at h
    cases hx : f x with
    | error e =>
      rw [hx] at h
      cases h
    | ok y =>
      rw [hx] at h
      cases hxs : xs.mapM f with
      | error e =>
        rw [hxs] at h
        cases h
      | ok ys =>
        rw [hxs] at h
        cases h
        exact .cons hx (ih hxs)

theorem mapM_eq_error {α β : Type} {f : α → Except ε β} {xs : List α} {e : ε}
    (h : xs.mapM f = .error e) : ∃ x ∈ xs, f x = .error e := by
  induction xs with
  | nil => cases h
  | cons x xs ih =>
    rw [List.mapM_cons] at h
    cases hx : f x with
    | error e' =>
      rw [hx] at h
      cases h
      exact ⟨x, List.mem_cons_self, hx⟩
    | ok y =>
      rw [hx] at h
      cases hxs : xs.mapM f with
      | error e' =>
        rw [hxs] at h
        cases h
        obtain ⟨x, hmem, hx⟩ := ih hxs
        exact ⟨x, List.mem_cons_of_mem _ hmem, hx⟩
      | ok ys =>
        rw [hxs] at h
        cases h

/-- A compound serializer that reads each item by itself and only then adds it
to its state reads all of them first. -/
theorem Compound.run_eq {ι β : Type} (c : Compound ε ι ω) (item : ι → Except ε β)
    (push : c.State → β → c.State) {s₀ : c.State} (hstart : c.start = .ok s₀)
    (hadd : ∀ s x, c.add s x = (do let y ← item x; pure (push s y))) (xs : List ι) :
    c.run xs = (do let ys ← xs.mapM item; c.finish (ys.foldl push s₀)) := by
  unfold run
  rw [hstart]
  show (do let s ← xs.foldlM c.add s₀; c.finish s) = _
  clear hstart
  induction xs generalizing s₀ with
  | nil => rfl
  | cons x xs ih =>
    rw [List.foldlM_cons, List.mapM_cons, hadd]
    cases item x with
    | error e => rfl
    | ok y =>
      show (do let s ← xs.foldlM c.add (push s₀ y); c.finish s) = _
      rw [ih]
      cases xs.mapM item with
      | error e => rfl
      | ok ys => rfl

theorem mapM_yields {α β D : Type} {read : D → Except ε β} {R : α → D → Prop}
    {P : α → β → Prop} (h : ∀ x d, R x d → ∃ y, read d = .ok y ∧ P x y) {xs : List α}
    {ds : List D} (hxs : List.Forall₂ R xs ds) :
    ∃ ys, ds.mapM read = .ok ys ∧ List.Forall₂ P xs ys := by
  induction hxs with
  | nil => exact ⟨[], rfl, .nil⟩
  | cons hx _ ih =>
    obtain ⟨y, hy, hP⟩ := h _ _ hx
    obtain ⟨ys, hys, hPs⟩ := ih
    use y :: ys
    constructor
    · rw [List.mapM_cons, hy, hys]
      rfl
    · exact .cons hP hPs

theorem map_fst_of_forall₂ {κ α β : Type} {R : α → β → Prop} {es : List (κ × α)}
    {fs : List (κ × β)} (h : List.Forall₂ (fun e f => e.1 = f.1 ∧ R e.2 f.2) es fs) :
    es.map Prod.fst = fs.map Prod.fst := by
  rw [← List.forall₂_eq_eq_eq, List.forall₂_map_left_iff, List.forall₂_map_right_iff]
  exact h.imp fun _ _ hef => hef.1

theorem Fields.names_serialize (S : Serializer ε ω) (fs : Fields ε ω) (xs : Tuple fs.types) :
    (fs.serialize S xs).map Prod.fst = fs.names := by
  apply List.map_fst_zip
  induction fs with
  | nil => exact Nat.le_refl 0
  | cons f fs ih => exact Nat.succ_le_succ (ih xs.2)

theorem SerdeType.leaf_roundTrips {α : Type} {method : Serializer ε ω → α → Except ε ω}
    {request : Request} {visit : {D : Type} → Visit D → Except ε α}
    (h : ∀ x w, F.Yields (method F.ser x) w →
      ∃ a, F.de.answer w request = .ok a ∧ visit a = .ok x) :
    (SerdeType.leaf α method request visit).RoundTrips F := by
  intro x w hw
  obtain ⟨a, ha, hx⟩ := h x w hw
  use x
  constructor
  · show (do visit (← F.de.answer w request)) = _
    rw [ha]
    exact hx
  · rfl

theorem Fields.nodup_serialize (S : Serializer ε ω) {fs : Fields ε ω} (hnames : fs.names.Nodup)
    (xs : Tuple fs.types) : ((fs.serialize S xs).map Prod.fst).Nodup := by
  rw [names_serialize]
  exact hnames

namespace Entries
variable {κ υ : Type} [DecidableEq κ]

theorem toList_insert_of_notMem (m : Entries κ υ) {key : κ} (h : key ∉ m.toList.map Prod.fst)
    (value : υ) : (m.insert key value).toList = m.toList ++ [(key, value)] := by
  unfold insert
  rw [dif_neg h]

/-- Entries whose keys are read as distinct ones are all kept, in their order. -/
theorem read_eq_ok {D : Type} {key : String → Except ε κ} {value : D → Except ε υ}
    {entries : List (String × D)} {m : List (κ × υ)}
    (h : List.Forall₂ (fun e f => key e.1 = .ok f.1 ∧ value e.2 = .ok f.2) entries m)
    (hm : (m.map Prod.fst).Nodup) : ∃ m', read key value entries = .ok m' ∧ m'.toList = m := by
  suffices hfrom : ∀ m₀ : Entries κ υ, (m₀.toList.map Prod.fst ++ m.map Prod.fst).Nodup →
      ∃ m', entries.foldlM (fun m e => do
        let k ← key e.1
        let v ← value e.2
        pure (m.insert k v)) m₀ = .ok m' ∧ m'.toList = m₀.toList ++ m from
    hfrom empty hm
  clear hm
  induction h with
  | nil => exact fun m₀ _ => ⟨m₀, rfl, (List.append_nil _).symm⟩
  | @cons e f entries m hef _ ih =>
    intro m₀ hnodup
    rw [List.map_cons] at hnodup
    have hnew : f.1 ∉ m₀.toList.map Prod.fst := fun hmem =>
      (List.nodup_append.mp hnodup).2.2 _ hmem _ List.mem_cons_self rfl
    have hlist := toList_insert_of_notMem m₀ hnew f.2
    obtain ⟨m', hm', htoList⟩ := ih (m₀.insert f.1 f.2) (by
      rw [hlist, List.map_append, List.append_assoc]
      exact hnodup)
    use m'
    constructor
    · rw [List.foldlM_cons, hef.1, hef.2]
      exact hm'
    · rw [htoList, hlist, List.append_assoc]
      rfl

end Entries

/-- The keys of type `K` are written as strings, `text`, that are read back as the same key. -/
structure SerdeType.KeyedBy (F : Format ε ω) (K : SerdeType ε ω) (text : K.Carrier → String) :
    Prop where
  serialize (k) : K.serialize F.ser k = F.ser.string (text k)
  deserialize (k) : K.deserialize stringDeserializer (text k) = .ok k
  same_refl (k) : K.same k k

theorem SerdeType.KeyedBy.injective {K : SerdeType ε ω} {text : K.Carrier → String}
    (hK : K.KeyedBy F text) : Function.Injective text := by
  intro k k' h
  have heq := hK.deserialize k
  rw [h, hK.deserialize k'] at heq
  exact (Except.ok.inj heq).symm

theorem SerdeType.entries_of_yields {K V : SerdeType ε ω} {text : K.Carrier → String}
    (hK : K.KeyedBy F text) (hV : V.RoundTrips F) {l : List (K.Carrier × V.Carrier)}
    {fs : List (String × ω)}
    (h : List.Forall₂ (fun e f => text e.1 = f.1 ∧ F.Yields (V.serialize F.ser e.2) f.2) l fs) :
    ∃ m : List (K.Carrier × V.Carrier),
      List.Forall₂ (fun f e => K.deserialize stringDeserializer f.1 = .ok e.1 ∧
        V.deserialize F.de f.2 = .ok e.2) fs m ∧
      List.Forall₂ (fun e e' => e.1 = e'.1 ∧ V.same e.2 e'.2) l m := by
  induction h with
  | nil => exact ⟨[], .nil, .nil⟩
  | @cons e f l fs hef _ ih =>
    obtain ⟨m, hread, hsame⟩ := ih
    obtain ⟨y, hy, hsame'⟩ := hV e.2 f.2 hef.2
    have hkey : K.deserialize stringDeserializer f.1 = .ok e.1 := by
      rw [← hef.1]
      exact hK.deserialize e.1
    exact ⟨(e.1, y) :: m, .cons ⟨hkey, hy⟩ hread, .cons ⟨rfl, hsame'⟩ hsame⟩

variable [DeError ε]

namespace SerdeType

theorem bool_roundTrips (hF : F.Faithful) : (bool : SerdeType ε ω).RoundTrips F :=
  leaf_roundTrips fun _ _ hw => ⟨_, hF.bool hw, rfl⟩

theorem f64_roundTrips (hF : F.Faithful) : (f64 : SerdeType ε ω).RoundTrips F :=
  leaf_roundTrips fun _ _ hw => ⟨_, hF.f64 hw, rfl⟩

theorem char_roundTrips (hF : F.Faithful) : (char : SerdeType ε ω).RoundTrips F :=
  leaf_roundTrips fun c _ hw => ⟨_, hF.char hw, visitChar_toString c⟩

theorem string_roundTrips (hF : F.Faithful) : (string : SerdeType ε ω).RoundTrips F :=
  leaf_roundTrips fun _ _ hw => ⟨_, hF.string hw, rfl⟩

theorem unit_roundTrips (hF : F.Faithful) : (unit : SerdeType ε ω).RoundTrips F :=
  leaf_roundTrips fun _ _ hw => ⟨_, hF.unit hw, rfl⟩

theorem unitStruct_roundTrips (hF : F.Faithful) : (unitStruct : SerdeType ε ω).RoundTrips F :=
  leaf_roundTrips fun _ _ hw => ⟨_, hF.unitStruct hw, rfl⟩

theorem int_roundTrips (hF : F.Faithful) (ty : IntTy) :
    (int ty : SerdeType ε ω).RoundTrips F := by
  intro n w hw
  obtain ⟨m, hm, hn⟩ := hF.int hw
  use n
  constructor
  · simp only [int, hm]
    show (if h : _ then _ else _) = _
    rw [dif_pos (hn ▸ n.property)]
    exact congrArg Except.ok (Subtype.ext hn)
  · rfl

theorem byteBuf_roundTrips (hF : F.Faithful) : (byteBuf : SerdeType ε ω).RoundTrips F := by
  intro b w hw
  use b
  constructor
  · simp only [byteBuf, hF.bytes hw]
    rfl
  · rfl

theorem newtypeStruct_roundTrips (hF : F.Faithful) {T : SerdeType ε ω} (hT : T.RoundTrips F) :
    T.newtypeStruct.RoundTrips F := by
  intro x w hw
  obtain ⟨d, hd, hy⟩ := hF.newtypeStruct hw
  obtain ⟨y, hread, hsame⟩ := hT x d hy
  use y
  constructor
  · simp only [newtypeStruct, hd]
    exact hread
  · exact hsame

/-- `None` and `Some` must not be written alike. -/
theorem option_roundTrips (hF : F.Faithful) {T : SerdeType ε ω} (hT : T.RoundTrips F)
    (hnone : ∀ x, T.serialize F.ser x ≠ F.ser.none) : T.option.RoundTrips F := by
  intro x w hw
  cases x with
  | none =>
    use none
    constructor
    · simp only [option, hF.none hw]
      rfl
    · exact Option.Rel.none
  | some x =>
    obtain ⟨d, hd, hy⟩ := hF.some hw (hnone x)
    obtain ⟨y, hread, hsame⟩ := hT x d hy
    use some y
    constructor
    · simp only [option, hd]
      show some <$> T.deserialize F.de d = _
      rw [hread]
      rfl
    · exact Option.Rel.some hsame

end SerdeType

theorem SerdeType.seq_roundTrips (hF : F.Faithful) {T : SerdeType ε ω} (hT : T.RoundTrips F) :
    T.seq.RoundTrips F := by
  intro xs w hw
  obtain ⟨ds, hds, hyields⟩ := hF.seq hw
  obtain ⟨ys, hread, hsame⟩ := mapM_yields hT (List.forall₂_map_left_iff.mp hyields)
  use ys
  constructor
  · simp only [seq, hds]
    exact hread
  · exact hsame

theorem Tuple.read_of_yields {Ts : List (SerdeType ε ω)} (hTs : ∀ T ∈ Ts, T.RoundTrips F)
    (xs : Tuple Ts) (i : ℕ) {ds : List ω}
    (h : List.Forall₂ F.Yields (Tuple.serialize F.ser Ts xs) ds) :
    ∃ ys, Tuple.read F.de Ts i ds = .ok ys ∧ Tuple.same Ts xs ys := by
  induction Ts generalizing i ds with
  | nil =>
    cases h
    exact ⟨(), rfl, trivial⟩
  | cons T Ts ih =>
    obtain ⟨x, xs⟩ := xs
    cases h with
    | cons hx hxs =>
      obtain ⟨y, hy, hsame⟩ := hTs T List.mem_cons_self x _ hx
      obtain ⟨ys, hys, hsames⟩ := ih (fun T hT => hTs T (List.mem_cons_of_mem _ hT)) xs
        (i + 1) hxs
      use (y, ys)
      constructor
      · simp only [read, hy, hys]
        rfl
      · exact ⟨hsame, hsames⟩

theorem SerdeType.tupleOf_roundTrips {method : Serializer ε ω → Compound ε (Except ε ω) ω}
    {request : Request} {Ts : List (SerdeType ε ω)} (hTs : ∀ T ∈ Ts, T.RoundTrips F)
    (h : ∀ rs w, F.Yields ((method F.ser).run rs) w →
      ∃ ds, F.de.answer w request = .ok (.seq ds) ∧ List.Forall₂ F.Yields rs ds) :
    (tupleOf method request Ts).RoundTrips F := by
  intro xs w hw
  obtain ⟨ds, hds, hyields⟩ := h _ w hw
  obtain ⟨ys, hread, hsame⟩ := Tuple.read_of_yields hTs xs 0 hyields
  use ys
  constructor
  · simp only [tupleOf, hds]
    exact hread
  · exact hsame

namespace Fields
variable {D : Type} {des : Deserializer ε D} {name : String} {T : SerdeType ε ω}
    {fs : Fields ε ω}

theorem fill_self (d : D) (slots : Slots fs) :
    fill des name d ((name, T) :: fs) (.cons none slots) =
      (do let x ← T.deserialize des d; pure (.cons (some x) slots)) := if_pos rfl

theorem finish_cons (x : T.Carrier) (slots : Slots fs) :
    finish ((name, T) :: fs) (.cons (some x) slots) =
      (do let xs ← finish fs slots; pure (x, xs)) := rfl

theorem readMap_cons (slots : Slots fs) (e : String × D) (entries : List (String × D)) :
    readMap des fs slots (e :: entries) =
      (do readMap des fs (← fill des e.1 e.2 fs slots) entries) := List.foldlM_cons

theorem readMap_append (slots : Slots fs) (l₁ l₂ : List (String × D)) :
    readMap des fs slots (l₁ ++ l₂) =
    (do readMap des fs (← readMap des fs slots l₁) l₂) :=
  List.foldlM_append

/-- Entries of other fields pass a field by. -/
theorem readMap_of_notMem (slot : Option T.Carrier) (slots : Slots fs)
    {entries : List (String × D)} (h : name ∉ entries.map Prod.fst) :
    readMap des ((name, T) :: fs) (.cons slot slots) entries =
      (do let slots ← readMap des fs slots entries; pure (.cons slot slots)) := by
  induction entries generalizing slots with
  | nil => rfl
  | cons e entries ih =>
    rw [List.map_cons, List.mem_cons, not_or] at h
    have hfill : fill des e.1 e.2 ((name, T) :: fs) (.cons slot slots) =
        (do let slots ← fill des e.1 e.2 fs slots; pure (.cons slot slots)) :=
      if_neg fun he => h.1 he.symm
    rw [readMap_cons, readMap_cons, hfill]
    cases fill des e.1 e.2 fs slots with
    | error e => rfl
    | ok slots => exact ih slots h.2

/-- The one entry of a field fills its slot, wherever it stands. -/
theorem readMap_of_mem {slots slots' : Slots fs} {l₁ l₂ : List (String × D)} {d : D}
    {y : T.Carrier} (h₁ : name ∉ l₁.map Prod.fst) (h₂ : name ∉ l₂.map Prod.fst)
    (hy : T.deserialize des d = .ok y) (hrest : readMap des fs slots (l₁ ++ l₂) = .ok slots') :
    readMap des ((name, T) :: fs) (.cons none slots) (l₁ ++ (name, d) :: l₂) =
      .ok (Slots.cons (some y) slots') := by
  have hfill (slots : Slots fs) : fill des name d ((name, T) :: fs) (.cons none slots) =
      .ok (.cons (some y) slots) := by
    rw [fill_self, hy]
    rfl
  rw [readMap_append, readMap_of_notMem none slots h₁]
  rw [readMap_append] at hrest
  cases hs : readMap des fs slots l₁ with
  | error e =>
    rw [hs] at hrest
    cases hrest
  | ok s =>
    rw [hs] at hrest
    change readMap des fs s l₂ = .ok slots' at hrest
    show readMap des ((name, T) :: fs) (.cons none s) ((name, d) :: l₂) = _
    rw [readMap_cons, hfill]
    show readMap des ((name, T) :: fs) (.cons (some y) s) l₂ = _
    rw [readMap_of_notMem (some y) s h₂, hrest]
    rfl

theorem visit_of_yields (hfs : ∀ T ∈ fs.types, T.RoundTrips F) (hnames : fs.names.Nodup)
    (xs : Tuple fs.types) {entries : List (String × ω)}
    (h : F.YieldsEntries (fs.serialize F.ser xs) entries) :
    ∃ ys, visit F.de fs (.map entries) = .ok ys ∧ Tuple.same fs.types xs ys := by
  suffices hslots : ∃ slots ys, readMap F.de fs (noSlots fs) entries = .ok slots ∧
      finish fs slots = .ok ys ∧ Tuple.same fs.types xs ys by
    obtain ⟨slots, ys, hslots, hys, hsame⟩ := hslots
    use ys
    constructor
    · show (do finish fs (← readMap F.de fs (noSlots fs) entries)) = _
      rw [hslots]
      exact hys
    · exact hsame
  induction fs generalizing entries with
  | nil =>
    obtain ⟨es, hes, hperm⟩ := h
    cases hes
    rw [List.nil_perm.mp hperm]
    exact ⟨(), (), rfl, rfl, trivial⟩
  | cons f fs ih =>
    obtain ⟨name, T⟩ := f
    obtain ⟨x, xs⟩ := xs
    obtain ⟨es, hes, hperm⟩ := h
    cases hes with
    | @cons _ e _ es he hes =>
      obtain ⟨key, d⟩ := e
      obtain ⟨hkey, hyields⟩ := he
      change name = key at hkey
      subst hkey
      obtain ⟨y, hy, hsame⟩ := hfs T List.mem_cons_self x d hyields
      obtain ⟨l₁, l₂, rfl⟩ := List.append_of_mem (hperm.subset List.mem_cons_self)
      have hrest : es.Perm (l₁ ++ l₂) := (hperm.trans List.perm_middle).cons_inv
      obtain ⟨hname, hnames⟩ := List.nodup_cons.mp hnames
      obtain ⟨slots, ys, hslots, hys, hsames⟩ :=
        ih (fun T hT => hfs T (List.mem_cons_of_mem _ hT)) hnames xs ⟨es, hes, hrest⟩
      -- the entries of the other fields carry other names
      have hfst : es.map Prod.fst = names fs :=
        (map_fst_of_forall₂ hes).symm.trans (names_serialize F.ser fs xs)
      have hkeys : name ∉ (l₁ ++ l₂).map Prod.fst := by
        rw [← (hrest.map Prod.fst).mem_iff, hfst]
        exact hname
      rw [List.map_append, List.mem_append, not_or] at hkeys
      use .cons (some y) slots, (y, ys)
      constructor
      · exact readMap_of_mem hkeys.1 hkeys.2 hy hslots
      · constructor
        · rw [finish_cons, hys]
          rfl
        · exact ⟨hsame, hsames⟩

end Fields

theorem SerdeType.struct_roundTrips (hF : F.Faithful) {fs : Fields ε ω}
    (hfs : ∀ T ∈ fs.types, T.RoundTrips F) (hnames : fs.names.Nodup) :
    (struct fs).RoundTrips F := by
  intro xs w hw
  obtain ⟨entries, hentries, hyields⟩ := hF.struct hw (Fields.nodup_serialize F.ser hnames xs)
  obtain ⟨ys, hread, hsame⟩ := Fields.visit_of_yields hfs hnames xs hyields
  use ys
  constructor
  · simp only [struct, hentries]
    exact hread
  · exact hsame

def Payload.Distinct : Payload ε ω → Prop
  | struct fs => fs.names.Nodup
  | unit | newtype _ | tuple _ => True

theorem Payload.read_of_yields (hF : F.Faithful) {P : Payload ε ω}
    (hP : ∀ T ∈ P.types, T.RoundTrips F) (hdistinct : P.Distinct) {name : String}
    (x : P.Carrier) {w : ω} (h : F.Yields (P.serialize F.ser name x) w) :
    ∃ value, F.de.answer w .enum = .ok (.enum ⟨name, value⟩) ∧
      ∃ y, P.read F.de value = .ok y ∧ P.same x y := by
  cases P with
  | unit => exact ⟨none, hF.unitVariant h, (), rfl, rfl⟩
  | newtype T =>
    obtain ⟨d, hd, hyields⟩ := hF.newtypeVariant h
    exact ⟨some d, hd, hP T List.mem_cons_self x d hyields⟩
  | tuple Ts =>
    obtain ⟨d, ds, hd, hds, hyields⟩ := hF.tupleVariant h
    obtain ⟨ys, hread, hsame⟩ := Tuple.read_of_yields hP x 0 hyields
    use some d, hd, ys
    constructor
    · simp only [read, hds]
      exact hread
    · exact hsame
  | struct fs =>
    obtain ⟨d, entries, hd, hentries, hyields⟩ :=
      hF.structVariant h (Fields.nodup_serialize F.ser hdistinct x)
    obtain ⟨ys, hread, hsame⟩ := Fields.visit_of_yields hP hdistinct x hyields
    use some d, hd, ys
    constructor
    · simp only [read, hentries]
      exact hread
    · exact hsame

theorem Variants.read_of_yields (hF : F.Faithful) {vs : Variants ε ω}
    (hvs : ∀ v ∈ vs, ∀ T ∈ v.2.types, T.RoundTrips F)
    (hdistinct : ∀ v ∈ vs, v.2.Distinct)
    (hnames : vs.names.Nodup) (x : Choice vs) {w : ω} (h : F.Yields (vs.serialize F.ser x) w) :
    ∃ access, F.de.answer w .enum = .ok (.enum access) ∧ access.variant ∈ vs.names ∧
      ∃ y, read F.de access vs = .ok y ∧ same vs x y := by
  induction vs with
  | nil => cases x
  | cons v vs ih =>
    obtain ⟨name, P⟩ := v
    cases x with
    | inl x =>
      obtain ⟨value, hvalue, y, hread, hsame⟩ := Payload.read_of_yields hF
        (hvs _ List.mem_cons_self) (hdistinct _ List.mem_cons_self) x h
      use ⟨name, value⟩, hvalue, List.mem_cons_self, .inl y
      constructor
      · simp only [read, if_true, hread]
        rfl
      · exact hsame
    | inr x =>
      obtain ⟨hname, hnames⟩ := List.nodup_cons.mp hnames
      obtain ⟨access, haccess, hmem, y, hread, hsame⟩ :=
        ih (fun v hv => hvs v (List.mem_cons_of_mem _ hv))
          (fun v hv => hdistinct v (List.mem_cons_of_mem _ hv)) hnames x h
      use access, haccess, List.mem_cons_of_mem _ hmem, .inr y
      constructor
      · have hne : access.variant ≠ name := fun he => hname (he ▸ hmem)
        simp only [read, if_neg hne, hread]
        rfl
      · exact hsame

theorem SerdeType.enum_roundTrips (hF : F.Faithful) {vs : Variants ε ω}
    (hvs : ∀ v ∈ vs, ∀ T ∈ v.2.types, T.RoundTrips F)
    (hdistinct : ∀ v ∈ vs, v.2.Distinct)
    (hnames : vs.names.Nodup) : (enum vs).RoundTrips F := by
  intro x w hw
  obtain ⟨access, haccess, -, y, hread, hsame⟩ :=
    Variants.read_of_yields hF hvs hdistinct hnames x hw
  use y
  constructor
  · simp only [enum, haccess]
    exact hread
  · exact hsame

theorem SerdeType.string_keyedBy : (string : SerdeType ε ω).KeyedBy F id where
  serialize _ := rfl
  deserialize _ := rfl
  same_refl _ := rfl

theorem SerdeType.map_roundTrips (hF : F.Faithful) {K V : SerdeType ε ω} [DecidableEq K.Carrier]
    {text : K.Carrier → String} (hK : K.KeyedBy F text) (hV : V.RoundTrips F) :
    (map K V).RoundTrips F := by
  intro m w hw
  let es := m.toList.map fun e => (text e.1, V.serialize F.ser e.2)
  have hes : (m.toList.map fun e => (K.serialize F.ser e.1, V.serialize F.ser e.2)) =
      es.map fun e => (F.ser.string e.1, e.2) := by
    rw [List.map_map]
    apply List.map_congr_left
    intro e _
    rw [hK.serialize]
    rfl
  have hkeys : (es.map Prod.fst).Nodup := by
    have hfst : es.map Prod.fst = (m.toList.map Prod.fst).map text := by simp [es]
    rw [hfst]
    exact m.nodup.map hK.injective
  have hw : F.Yields (F.ser.map.run (es.map fun e => (F.ser.string e.1, e.2))) w := hes ▸ hw
  obtain ⟨fs, hfs, fs', hyields, hperm⟩ := hF.map hw hkeys
  -- the entries in the order in which they are read, and what each is read as
  obtain ⟨l, hl, hlfs⟩ : Relation.Comp List.Perm (List.Forall₂ _) m.toList fs := by
    rw [← List.forall₂_comp_perm_eq_perm_comp_forall₂]
    exact ⟨fs', List.forall₂_map_left_iff.mp hyields, hperm⟩
  obtain ⟨m', hread, hsame⟩ := SerdeType.entries_of_yields hK hV hlfs
  have hnodup : (m'.map Prod.fst).Nodup := by
    rw [← map_fst_of_forall₂ hsame, ← (hl.map Prod.fst).nodup_iff]
    exact m.nodup
  obtain ⟨y, hy, rfl⟩ := Entries.read_eq_ok hread hnodup
  use y
  constructor
  · simp only [map, hfs]
    exact hy
  · apply List.perm_comp_forall₂ hl
    exact hsame.imp fun e f hef => ⟨hef.1 ▸ hK.same_refl e.1, hef.2⟩

/-- The types built with the combinators. An `Option` needs a type none of whose
values is written like `None`; fields and variants have distinct names. -/
inductive SerdeType.Built (F : Format ε ω) : SerdeType ε ω → Prop
  | bool : Built F .bool
  | int (ty : IntTy) : Built F (.int ty)
  | f64 : Built F .f64
  | char : Built F .char
  | string : Built F .string
  | byteBuf : Built F .byteBuf
  | unit : Built F .unit
  | unitStruct : Built F .unitStruct
  | newtypeStruct {T} : Built F T → Built F T.newtypeStruct
  | option {T} : Built F T → (∀ x, T.serialize F.ser x ≠ F.ser.none) → Built F T.option
  | seq {T} : Built F T → Built F T.seq
  | tuple {Ts} : (∀ T ∈ Ts, Built F T) → Built F (.tuple Ts)
  | tupleStruct {Ts} : (∀ T ∈ Ts, Built F T) → Built F (.tupleStruct Ts)
  | map {T} : Built F T → Built F (.map .string T)
  | struct {fs : Fields ε ω} : (∀ T ∈ fs.types, Built F T) → fs.names.Nodup →
      Built F (.struct fs)
  | enum {vs : Variants ε ω} : (∀ v ∈ vs, ∀ T ∈ v.2.types, Built F T) →
    (∀ v ∈ vs, v.2.Distinct) → vs.names.Nodup → Built F (.enum vs)

theorem SerdeType.Built.roundTrips (hF : F.Faithful) {T : SerdeType ε ω} (hT : T.Built F) :
    T.RoundTrips F := by
  induction hT with
  | bool => exact bool_roundTrips hF
  | int ty => exact int_roundTrips hF ty
  | f64 => exact f64_roundTrips hF
  | char => exact char_roundTrips hF
  | string => exact string_roundTrips hF
  | byteBuf => exact byteBuf_roundTrips hF
  | unit => exact unit_roundTrips hF
  | unitStruct => exact unitStruct_roundTrips hF
  | newtypeStruct _ ih => exact newtypeStruct_roundTrips hF ih
  | option _ hnone ih => exact option_roundTrips hF ih hnone
  | seq _ ih => exact seq_roundTrips hF ih
  | tuple _ ih => exact tupleOf_roundTrips ih fun _ _ => hF.tuple
  | tupleStruct _ ih => exact tupleOf_roundTrips ih fun _ _ => hF.tupleStruct
  | map _ ih => exact map_roundTrips hF string_keyedBy ih
  | struct _ hnames ih => exact struct_roundTrips hF ih hnames
  | enum _ hdistinct hnames ih => exact enum_roundTrips hF ih hdistinct hnames

end RoundTrip

end Serde
