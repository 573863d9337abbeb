import Boltwire.Connection
import Boltwire.ConvertRoundTrip
import Boltwire.Lib.SerdeIgnored

namespace Boltwire
open Serde

namespace QueryResult

def rowsAsMaps (q : QueryResult) : List Meta :=
  q.records.map fun row => Meta.insertAll [] (q.columns.zip row)

/-- Deserialize every row: the maps of `rows_as_maps`, each in the order in which it
is iterated. -/
def rowsAs (T : SerdeType ConvertError BoltValue) (maps : List Meta) :
    Except ConvertError (List T.Carrier) :=
  maps.mapM fun row => fromValue T (.map row)

end QueryResult

namespace Meta

theorem keys_insert (m : Meta) (key : String) (value : BoltValue) :
    (m.insert key value).map Prod.fst =
    if key ∈ m.map Prod.fst then m.map Prod.fst else m.map Prod.fst ++ [key] := by
  unfold Meta.insert
  split_ifs with hin
  · rw [List.map_map]
    apply List.map_congr_left
    intro e _
    by_cases he : e.1 = key
    · simp [he]
    · simp [he]
  · rw [List.map_append]
    rfl

theorem nodup_insert {m : Meta} (h : (m.map Prod.fst).Nodup) (key : String) (value : BoltValue) :
    ((m.insert key value).map Prod.fst).Nodup := by
  rw [keys_insert]
  split_ifs with hin
  · exact h
  · exact h.append (List.nodup_singleton key) (by simpa using hin)

theorem nodup_insertAll {m : Meta} (h : (m.map Prod.fst).Nodup) (es : Meta) :
    ((m.insertAll es).map Prod.fst).Nodup := by
  induction es generalizing m with
  | nil => exact h
  | cons e es ih => exact ih (nodup_insert h e.1 e.2)

/-- What an insertion leaves in the map. -/
theorem mem_insert {m : Meta} {key k : String} {value v : BoltValue} :
    (k, v) ∈ m.insert key value ↔ k = key ∧ v = value ∨ k ≠ key ∧ (k, v) ∈ m := by
  unfold Meta.insert
  split_ifs with hin
  · rw [List.mem_map]
    constructor
    · intro h
      obtain ⟨e, he, heq⟩ := h
      by_cases hk : e.1 = key
      · rw [if_pos hk] at heq
        cases heq
        exact .inl ⟨rfl, rfl⟩
      · rw [if_neg hk] at heq
        cases heq
        exact .inr ⟨hk, he⟩
    · rintro (⟨rfl, rfl⟩ | ⟨hk, he⟩)
      · obtain ⟨e, he, hek⟩ := List.mem_map.mp hin
        exact ⟨e, he, if_pos hek⟩
      · exact ⟨(k, v), he, if_neg hk⟩
  · rw [List.mem_append, List.mem_singleton, Prod.mk.injEq]
    constructor
    · rintro (he | ⟨rfl, rfl⟩)
      · by_cases hk : k = key
        · exact absurd (hk ▸ List.mem_map_of_mem he) hin
        · exact .inr ⟨hk, he⟩
      · exact .inl ⟨rfl, rfl⟩
    · rintro (⟨rfl, rfl⟩ | ⟨-, he⟩)
      · exact .inr ⟨rfl, rfl⟩
      · exact .inl he

/-- The last entry under a key, if there is one. -/
def Last (es : Meta) (k : String) (v : BoltValue) : Prop :=
  ∃ i, es[i]? = some (k, v) ∧ ∀ (j : ℕ) (e : String × BoltValue), i < j →
    es[j]? = some e → e.1 ≠ k

theorem last_cons {e : String × BoltValue} {es : Meta} {k : String} {v : BoltValue} :
    Last (e :: es) k v ↔ Last es k v ∨ e = (k, v) ∧ k ∉ es.map Prod.fst := by
  constructor
  · intro h
    obtain ⟨i, hi, hlast⟩ := h
    cases i with
    | zero =>
      refine .inr ⟨Option.some.inj hi, fun hin => ?_⟩
      obtain ⟨e', he', hk⟩ := List.mem_map.mp hin
      obtain ⟨j, hj⟩ := List.getElem?_of_mem he'
      exact hlast (j + 1) e' (Nat.succ_pos j) hj hk
    | succ i =>
      refine .inl ⟨i, hi, fun j e' hij he' => ?_⟩
      exact hlast (j + 1) e' (Nat.succ_lt_succ hij) he'
  · rintro (⟨i, hi, hlast⟩ | ⟨rfl, hk⟩)
    · refine ⟨i + 1, hi, fun j e' hij he' => ?_⟩
      cases j with
      | zero => exact absurd hij (Nat.not_lt_zero _)
      | succ j => exact hlast j e' (Nat.lt_of_succ_lt_succ hij) he'
    · refine ⟨0, rfl, fun j e' hij he' heq => ?_⟩
      cases j with
      | zero => exact absurd hij (Nat.not_lt_zero _)
      | succ j => exact hk (heq ▸ List.mem_map_of_mem (List.mem_of_getElem? he'))

theorem mem_insertAll {m es : Meta} {k : String} {v : BoltValue} : (k, v) ∈ m.insertAll es ↔
    Last es k v ∨ (k, v) ∈ m ∧ k ∉ es.map Prod.fst := by
  induction es generalizing m with
  | nil =>
    have hnone : ¬ Last [] k v := by
      rintro ⟨i, hi, -⟩
      cases hi
    simp [insertAll, hnone]
  | cons e es ih =>
    obtain ⟨key, value⟩ := e
    change (k, v) ∈ (m.insert key value).insertAll es ↔ _
    rw [ih, last_cons, mem_insert, List.map_cons, List.mem_cons, Prod.mk.injEq]
    by_cases hk : k = key
    · subst hk
      by_cases hv : v = value
      · simp [hv]
      · simp [hv, Ne.symm hv]
    · simp [hk, Ne.symm hk]

end Meta

/-- The value under a name: that of the last column of this name that the row reaches. -/
def Under (columns : List String) (row : List BoltValue) (name : String) (v : BoltValue) : Prop :=
  ∃ i, columns[i]? = some name ∧ row[i]? = some v ∧
    ∀ j, i < j → j < row.length → columns[j]? ≠ some name

theorem last_zip {columns : List String} {row : List BoltValue} {name : String} {v : BoltValue} :
    Meta.Last (columns.zip row) name v ↔ Under columns row name v := by
  constructor
  · intro h
    obtain ⟨i, hi, hlast⟩ := h
    obtain ⟨hc, hr⟩ := List.getElem?_zip_eq_some.mp hi
    refine ⟨i, hc, hr, fun j hij hj hcj => ?_⟩
    have hzip := List.getElem?_zip_eq_some (z := (name, row[j])).mpr
      ⟨hcj, List.getElem?_eq_getElem hj⟩
    exact hlast j _ hij hzip rfl
  · intro h
    obtain ⟨i, hc, hr, hlast⟩ := h
    refine ⟨i, List.getElem?_zip_eq_some.mpr ⟨hc, hr⟩, fun j e hij he hname => ?_⟩
    obtain ⟨hcj, hrj⟩ := List.getElem?_zip_eq_some.mp he
    exact hlast j hij (List.getElem?_eq_some_iff.mp hrj).1 (hname ▸ hcj)

/-- The map of a row has each name once, with the value under it. -/
theorem rowMap_spec (columns : List String) (row : List BoltValue) :
    ((Meta.insertAll [] (columns.zip row)).map Prod.fst).Nodup ∧
    ∀ name v, (name, v) ∈ Meta.insertAll [] (columns.zip row) ↔ Under columns row name v := by
  refine ⟨Meta.nodup_insertAll (m := []) List.nodup_nil _, fun name v => ?_⟩
  rw [Meta.mem_insertAll, last_zip]
  simp

namespace BoltValue

def NodePlain : BoltValue → Prop
  | struct _ _ => False
  | _ => True

def Plain (v : BoltValue) : Prop := v.Forall NodePlain

mutual
theorem ignoreAny_eq_ok : ∀ v : BoltValue, v.ignoreAny = .ok () ↔ v.Plain
  | list items => (ignoreSeq_eq_ok items).trans ⟨fun h => ⟨trivial, h⟩, fun h => h.2⟩
  | map entries => (ignoreEntries_eq_ok entries).trans ⟨fun h => ⟨trivial, h⟩, fun h => h.2⟩
  | struct _ _ => iff_of_false (by rw [ignoreAny]; simp) fun h => h.1
  | null | bool _ | int _ | float _ | string _ | bytes _ => ⟨fun _ => trivial, fun _ => rfl⟩

theorem ignoreSeq_eq_ok : ∀ vs : List BoltValue, ignoreSeq vs = .ok () ↔ ForallSeq NodePlain vs
  | [] => ⟨fun _ => trivial, fun _ => rfl⟩
  | v :: vs => by
    rw [ForallSeq, ← Plain, ← ignoreAny_eq_ok v, ← ignoreSeq_eq_ok vs, ignoreSeq]
    cases v.ignoreAny <;> simp [bind, Except.bind]

theorem ignoreEntries_eq_ok : ∀ es : List (String × BoltValue),
    ignoreEntries es = .ok () ↔ ForallEntries NodePlain es
  | [] => ⟨fun _ => trivial, fun _ => rfl⟩
  | (_, v) :: es => by
    rw [ForallEntries, ← Plain, ← ignoreAny_eq_ok v, ← ignoreEntries_eq_ok es, ignoreEntries]
    cases v.ignoreAny <;> simp [bind, Except.bind]
end

end BoltValue

section Structs
variable {fs : Fields ConvertError BoltValue} {q : QueryResult} {maps : List Meta}

/-- The row has a value under the name of every field, as it is converted from that field. -/
def Provides (fs : Fields ConvertError BoltValue) (columns : List String) (row : List BoltValue)
    (x : Tuple fs.types) : Prop :=
  ∀ e ∈ fs.serialize valueSerializer x, ∃ w, Under columns row e.1 w ∧
    boltFormat.Yields e.2 w

/-- What no field asks for has no graph structure in it. -/
def OthersPlain (fs : Fields ConvertError BoltValue) (columns : List String)
    (row : List BoltValue) : Prop :=
  ∀ name w, Under columns row name w → name ∉ fs.names → w.Plain

theorem plain_of_row {columns : List String} {row : List BoltValue} {m : Meta} {y : Tuple fs.types}
    (hm : (Meta.insertAll [] (columns.zip row)).Perm m)
    (h : fromValue (.struct fs) (.map m) = .ok y) : OthersPlain fs columns row := by
  intro name w hw hname
  have hmem := hm.mem_iff.mp (((rowMap_spec columns row).2 name w).mpr hw)
  exact (BoltValue.ignoreAny_eq_ok w).mp
    (Fields.ignored_of_visit (F := boltFormat) h (name, w) hmem hname)

theorem struct_of_row (hfs : ∀ T ∈ fs.types, T.Built boltFormat) (hnames : fs.names.Nodup)
    {columns : List String} {row : List BoltValue} {m : Meta} {x : Tuple fs.types}
    (hrow : Provides fs columns row x) (hplain : OthersPlain fs columns row)
    (hm : (Meta.insertAll [] (columns.zip row)).Perm m) :
    ∃ y, fromValue (.struct fs) (.map m) = .ok y ∧ Tuple.same fs.types x y := by
  obtain ⟨hkeys, hunder⟩ := rowMap_spec columns row
  have hmem : ∀ name w, (name, w) ∈ m ↔ Under columns row name w := by
    intro name w
    rw [← hm.mem_iff, hunder]
  refine Fields.visit_of_ignored (F := boltFormat)
    (fun T hT => (hfs T hT).roundTrips boltFormat.faithful) hnames x
    ((hm.map Prod.fst).nodup_iff.mp hkeys) ?_ ?_
  · intro e he
    obtain ⟨w, hw, hy⟩ := hrow e he
    exact ⟨w, (hmem e.1 w).mpr hw, hy⟩
  · intro e he hname
    exact (BoltValue.ignoreAny_eq_ok e.2).mpr (hplain e.1 e.2 ((hmem e.1 e.2).mp he) hname)

theorem forall₂_of_common {α β γ : Type} {R : α → β → Prop} {S : α → γ → Prop}
    {l : List α}
    {xs : List β} {ms : List γ} (h : List.Forall₂ R l xs) (h' : List.Forall₂ S l ms) :
    List.Forall₂ (fun x m => ∃ a ∈ l, R a x ∧ S a m) xs ms := by
  induction h generalizing ms with
  | nil =>
    cases h'
    exact .nil
  | @cons a x l xs ha _ ih =>
    cases h' with
    | cons ha' h' =>
      refine .cons ⟨a, List.mem_cons_self .., ha, ha'⟩ ((ih h').imp ?_)
      rintro x m ⟨b, hb, hpair⟩
      exact ⟨b, List.mem_cons_of_mem _ hb, hpair⟩

/-- Rows that have the fields of a struct in their columns, in any order and among any
others, are read as those structs, each row in its place, whatever the iteration order
of its map. But the other columns are read too: if there is a graph structure in one of
them, however deep, no row is read. -/
theorem rowsAs_struct (hfs : ∀ T ∈ fs.types, T.Built boltFormat) (hnames : fs.names.Nodup)
    {xs : List (Tuple fs.types)} (hrows : List.Forall₂ (Provides fs q.columns) q.records xs)
    (hmaps : List.Forall₂ List.Perm q.rowsAsMaps maps) :
    ((∀ row ∈ q.records, OthersPlain fs q.columns row) →
      ∃ ys, QueryResult.rowsAs (.struct fs) maps = .ok ys ∧
      List.Forall₂ (Tuple.same fs.types) xs ys) ∧
    ((∃ row ∈ q.records, ¬ OthersPlain fs q.columns row) →
      ∃ e, QueryResult.rowsAs (.struct fs) maps = .error e) := by
  rw [QueryResult.rowsAsMaps, List.forall₂_map_left_iff] at hmaps
  constructor
  · intro hplain
    have hpairs : List.Forall₂ (fun x m => ∃ row ∈ q.records, Provides fs q.columns row x ∧
        (Meta.insertAll [] (q.columns.zip row)).Perm m) xs maps :=
      forall₂_of_common hrows hmaps
    refine mapM_yields ?_ hpairs
    rintro x m ⟨row, hmem, hrow, hm⟩
    exact struct_of_row hfs hnames hrow (hplain row hmem) hm
  · rintro ⟨row, hmem, hnot⟩
    cases h : QueryResult.rowsAs (.struct fs) maps with
    | error e => exact ⟨e, rfl⟩
    | ok ys =>
      obtain ⟨i, hi, rfl⟩ := List.getElem_of_mem hmem
      have hread := mapM_eq_ok h
      have hi' : i < maps.length := hmaps.length_eq ▸ hi
      have hperm := (List.forall₂_iff_get.mp hmaps).2 i hi hi'
      have hy := (List.forall₂_iff_get.mp hread).2 i hi' (hread.length_eq ▸ hi')
      exact absurd (plain_of_row hperm hy) hnot

end Structs

def nameAge : Fields ConvertError BoltValue := [("name", .string), ("age", .int .i64)]

def aged : QueryResult := ⟨["age", "n", "name"], [[.int 30, .bool true, .string "Neo"]]⟩

theorem rowsAs_struct_aged : ∃ ys, QueryResult.rowsAs
    (.struct nameAge) aged.rowsAsMaps = .ok ys ∧
    List.Forall₂ (Tuple.same nameAge.types) [("Neo", ⟨30, by decide⟩, ())] ys := by
  have hfs : ∀ T ∈ nameAge.types, T.Built boltFormat := by
    intro T hT
    simp only [Fields.types, nameAge, List.map_cons, List.map_nil, List.mem_cons,
      List.not_mem_nil, or_false] at hT
    obtain rfl | rfl := hT
    · exact .string
    · exact .int .i64
  have hrow : Provides nameAge aged.columns [.int 30, .bool true, .string "Neo"]
      ("Neo", ⟨30, by decide⟩, ()) := by
    intro e he
    have he : e ∈ [("name", Except.ok (BoltValue.string "Neo")), ("age", .ok (.int 30))] := he
    simp only [List.mem_cons, List.not_mem_nil, or_false] at he
    obtain rfl | rfl := he
    · refine ⟨.string "Neo", ⟨2, rfl, rfl, ?_⟩, _, rfl, BoltValue.sameMaps_refl _⟩
      simp
      omega
    · refine ⟨.int 30, ⟨0, rfl, rfl, ?_⟩, _, rfl, BoltValue.sameMaps_refl _⟩
      intro j hj hlen
      have hlen : j < 3 := hlen
      interval_cases j <;> decide
  have hplain : OthersPlain nameAge aged.columns [.int 30, .bool true, .string "Neo"] := by
    intro name w h hname
    obtain ⟨i, -, hi, -⟩ := h
    have hmem := List.mem_of_getElem? hi
    simp only [List.mem_cons, List.not_mem_nil, or_false] at hmem
    obtain rfl | rfl | rfl := hmem <;> trivial
  refine (rowsAs_struct hfs (by decide) (.cons hrow .nil) ?_).1 ?_
  · exact List.forall₂_same.mpr fun m _ => .refl m
  · intro row hmem
    obtain rfl := List.mem_singleton.mp hmem
    exact hplain

end Boltwire
