import Boltwire.PackStreamLocality
import Boltwire.PackStreamOutput

namespace Boltwire

namespace BoltValue

mutual
/-- The same value, up to the iteration order of its maps. -/
def SameMaps : BoltValue → BoltValue → Prop
  | list items, w => ∃ items', w = list items' ∧ SameMapsSeq items items'
  | map entries, w => ∃ entries' entries'', w = map entries'' ∧
      SameMapsEntries entries entries' ∧ entries'.Perm entries''
  | struct signature fields, w => ∃ fields', w = struct signature fields' ∧
      SameMapsSeq fields fields'
  | null, w => w = null
  | bool b, w => w = bool b
  | int i, w => w = int i
  | float bits, w => w = float bits
  | string s, w => w = string s
  | bytes b, w => w = bytes b

def SameMapsSeq : List BoltValue → List BoltValue → Prop
  | [], ws => ws = []
  | v :: vs, ws => ∃ w ws', ws = w :: ws' ∧ SameMaps v w ∧ SameMapsSeq vs ws'

def SameMapsEntries : List (String × BoltValue) → List (String × BoltValue) → Prop
  | [], fs => fs = []
  | (k, v) :: es, fs => ∃ w fs', fs = (k, w) :: fs' ∧ SameMaps v w ∧ SameMapsEntries es fs'
end

end BoltValue

namespace PackStream

def headerLength (n : ℕ) : ℕ :=
  if n < 16 then 1 else if n < 256 then 2 else if n < 65536 then 3 else 5

def bytesHeaderLength (n : ℕ) : ℕ := if n < 256 then 2 else if n < 65536 then 3 else 5

def stringLength (s : String) : ℕ := headerLength (utf8 s).length + (utf8 s).length

def intLength (i : Int64) : ℕ :=
  if -16 ≤ i.toInt ∧ i.toInt ≤ 127 then 1
  else if -128 ≤ i.toInt ∧ i.toInt ≤ 127 then 2
  else if -32768 ≤ i.toInt ∧ i.toInt ≤ 32767 then 3
  else if -2147483648 ≤ i.toInt ∧ i.toInt ≤ 2147483647 then 5
  else 9

mutual
def packedLength : BoltValue → ℕ
  | .null => 1
  | .bool _ => 1
  | .int i => intLength i
  | .float _ => 9
  | .string s => stringLength s
  | .bytes b => bytesHeaderLength b.length + b.length
  | .list items => headerLength items.length + packedLengthSeq items
  | .map entries => headerLength entries.length + packedLengthEntries entries
  | .struct _ fields => headerLength fields.length + (1 + packedLengthSeq fields)

def packedLengthSeq : List BoltValue → ℕ
  | [] => 0
  | v :: vs => packedLength v + packedLengthSeq vs

def packedLengthEntries : List (String × BoltValue) → ℕ
  | [] => 0
  | (k, v) :: es => stringLength k + packedLength v + packedLengthEntries es
end

theorem length_packHeader {n : ℕ} {tiny m8 m16 : UInt8} {label : String} {out out' : List UInt8}
    (h : packHeader n tiny m8 m16 label out = .ok out') :
    out'.length = out.length + headerLength n := by
  unfold packHeader at h
  unfold headerLength
  split_ifs at h ⊢ <;> cases h <;> simp [tagged]

theorem length_packString {s : String} {out out' : List UInt8} (h : packString s out = .ok out') :
    out'.length = out.length + stringLength s := by
  obtain ⟨out₁, h₁, h₂⟩ := except_bind_eq_ok h
  cases h₂
  rw [List.length_append, length_packHeader h₁, stringLength]
  omega

theorem length_packInt (i : Int64) (out : List UInt8) :
    (packInt i out).length = out.length + intLength i := by
  unfold packInt intLength
  split_ifs <;> simp [tagged]

theorem length_packBytes (b out : List UInt8) :
    (packBytes b out).length = out.length + (bytesHeaderLength b.length + b.length) := by
  unfold packBytes bytesHeaderLength
  dsimp only
  split_ifs <;> simp [tagged] <;> omega

mutual
theorem length_pack : ∀ (v : BoltValue) {out out' : List UInt8}, pack v out = .ok out' →
    out'.length = out.length + packedLength v
  | .null, _, _, h => by cases h; simp [packedLength]
  | .bool true, _, _, h => by cases h; simp [packedLength]
  | .bool false, _, _, h => by cases h; simp [packedLength]
  | .int i, out, _, h => by cases h; exact length_packInt i out
  | .float _, _, _, h => by cases h; simp [packedLength, tagged]
  | .string s, _, _, h => length_packString h
  | .bytes b, out, _, h => by cases h; exact length_packBytes b out
  | .list items, _, _, h => by
    obtain ⟨out₁, h₁, h₂⟩ := except_bind_eq_ok h
    rw [length_packSeq items h₂, length_packHeader h₁, packedLength, Nat.add_assoc]
  | .map entries, _, _, h => by
    obtain ⟨out₁, h₁, h₂⟩ := except_bind_eq_ok h
    rw [length_packEntries entries h₂, length_packHeader h₁, packedLength, Nat.add_assoc]
  | .struct _ fields, _, _, h => by
    obtain ⟨out₁, h₁, h₂⟩ := except_bind_eq_ok h
    rw [length_packSeq fields h₂, List.length_append, length_packHeader h₁, packedLength,
      List.length_singleton]
    omega

theorem length_packSeq : ∀ (vs : List BoltValue) {out out' : List UInt8},
    packSeq vs out = .ok out' → out'.length = out.length + packedLengthSeq vs
  | [], _, _, h => by cases h; rfl
  | v :: vs, _, _, h => by
    obtain ⟨out₁, h₁, h₂⟩ := except_bind_eq_ok h
    rw [length_packSeq vs h₂, length_pack v h₁, packedLengthSeq, Nat.add_assoc]

theorem length_packEntries : ∀ (es : List (String × BoltValue)) {out out' : List UInt8},
    packEntries es out = .ok out' → out'.length = out.length + packedLengthEntries es
  | [], _, _, h => by cases h; rfl
  | (k, v) :: es, _, _, h => by
    obtain ⟨out₁, h₁, h₂⟩ := except_bind_eq_ok h
    obtain ⟨out₂, h₂, h₃⟩ := except_bind_eq_ok h₂
    rw [length_packEntries es h₃, length_pack v h₂, length_packString h₁, packedLengthEntries]
    omega
end

/-- `v` is a value that `pack` accepts and writes in at most `k` bytes. -/
structure Fits (v : BoltValue) (k : ℕ) : Prop where
  sized : v.Sized
  distinct : v.KeysDistinct
  length_le : packedLength v ≤ k

structure FitsSeq (vs : List BoltValue) (k : ℕ) : Prop where
  sized : BoltValue.ForallSeq BoltValue.NodeSized vs
  distinct : BoltValue.ForallSeq BoltValue.NodeKeysDistinct vs
  length_le : packedLengthSeq vs ≤ k

structure FitsEntries (es : List (String × BoltValue)) (k : ℕ) : Prop where
  keys : ∀ e ∈ es, (utf8 e.1).length < 2 ^ 32
  nodup : (es.map Prod.fst).Nodup
  sized : BoltValue.ForallEntries BoltValue.NodeSized es
  distinct : BoltValue.ForallEntries BoltValue.NodeKeysDistinct es
  length_le : packedLengthEntries es ≤ k

/-- Whatever `m` returns stands in relation `Q` to the bytes consumed for it. -/
def Costs {α : Type} (m : ReadM α) (Q : α → ℕ → Prop) : Prop :=
  ∀ r a r', m r = .ok (a, r') → ∃ k, r'.pos = r.pos + k ∧ Q a k

namespace Costs
variable {α β : Type}

theorem pure {a : α} {Q : α → ℕ → Prop} (h : Q a 0) : Costs (pure a) Q := by
  intro r a' r' hr
  cases hr
  exact ⟨0, rfl, h⟩

theorem throw (e : BoltError) (Q : α → ℕ → Prop) : Costs (throw e) Q := by
  intro r a r' hr
  cases hr

theorem bind {m : ReadM α} {f : α → ReadM β} {P : α → ℕ → Prop}
    {Q : β → ℕ → Prop}
    (hm : Costs m P) (hf : ∀ a k, P a k → Costs (f a) fun b k' => Q b (k + k')) :
    Costs (m >>= f) Q := by
  intro r b r' hr
  obtain ⟨⟨a, r₁⟩, h₁, h₂⟩ := except_bind_eq_ok hr
  obtain ⟨k, hk, hP⟩ := hm r a r₁ h₁
  obtain ⟨k', hk', hQ⟩ := hf a k hP r₁ b r' h₂
  exact ⟨k + k', by rw [hk', hk, Nat.add_assoc], hQ⟩

theorem mono {m : ReadM α} {P Q : α → ℕ → Prop} (hm : Costs m P)
    (h : ∀ a k, P a k → Q a k) :
    Costs m Q := by
  intro r a r' hr
  obtain ⟨k, hk, hP⟩ := hm r a r' hr
  exact ⟨k, hk, h a k hP⟩

theorem branch {p : Prop} [Decidable p] {m m' : ReadM α} {Q : α → ℕ → Prop}
    (h : p → Costs m Q) (h' : ¬ p → Costs m' Q) : Costs (if p then m else m') Q := by
  split_ifs with hp
  · exact h hp
  · exact h' hp

theorem take (n : ℕ) : Costs (take n) fun bs k => k = n ∧ bs.length = n := by
  intro r bs r' hr
  unfold PackStream.take at hr
  split_ifs at hr with hn
  cases hr
  refine ⟨n, rfl, rfl, ?_⟩
  rw [List.length_take, List.length_drop]
  omega

theorem u8 : Costs u8 fun _ k => k = 1 :=
  (take 1).bind fun bs k hk => pure (by omega)

theorem size (w : ℕ) : Costs (size w) fun n k => k = w ∧ n < 256 ^ w := by
  apply (take w).bind
  rintro bs k ⟨rfl, hlen⟩
  apply branch
  · intro _
    apply pure
    have hlt := BigEndian.decode_lt bs
    rw [hlen] at hlt
    exact ⟨rfl, hlt⟩
  · intro _
    exact throw _ _

theorem intLength_le {w : ℕ} {i : Int64} (hw : w = 1 ∨ w = 2 ∨ w = 4 ∨ w = 8)
    (hlo : -2 ^ (8 * w - 1) ≤ i.toInt) (hhi : i.toInt < 2 ^ (8 * w - 1)) :
    intLength i ≤ 1 + w := by
  unfold intLength
  rcases hw with rfl | rfl | rfl | rfl
  all_goals
    norm_num at hlo hhi
    split_ifs <;> omega

theorem signed {w : ℕ} (hw : w = 1 ∨ w = 2 ∨ w = 4 ∨ w = 8) :
    Costs (signed w) fun v k => Fits v (1 + k) := by
  apply (take w).bind
  rintro bs k ⟨rfl, -⟩
  apply pure
  obtain ⟨hlo, hhi⟩ := BigEndian.decodeSigned_bounds k bs
  have hi : (Int64.ofInt (BigEndian.decodeSigned k bs)).toInt = BigEndian.decodeSigned k bs := by
    apply Int64.toInt_ofInt_of_le
    all_goals
      rcases hw with rfl | rfl | rfl | rfl <;> norm_num at hlo hhi ⊢ <;> omega
  rw [← hi] at hlo hhi
  exact ⟨trivial, trivial, intLength_le hw hlo hhi⟩

theorem headerLength_le_of_lt {w n : ℕ} (hw : w = 1 ∨ w = 2 ∨ w = 4) (hn : n < 256 ^ w) :
    headerLength n ≤ 1 + w := by
  unfold headerLength
  rcases hw with rfl | rfl | rfl
  all_goals
    norm_num at hn
    split_ifs <;> omega

theorem headerLength_mono {m n : ℕ} (h : m ≤ n) : headerLength m ≤ headerLength n := by
  unfold headerLength
  split_ifs <;> omega

/-- The string's size was announced in `w` bytes, behind a marker. -/
theorem unpackString {n w : ℕ} (hn : n < 2 ^ 32) (hw : headerLength n ≤ 1 + w) :
    Costs (unpackString n) fun v k => Fits v (1 + w + k) := by
  apply (take n).bind
  rintro bs k ⟨rfl, hlen⟩
  cases hs : fromUtf8 bs with
  | none => exact throw _ _
  | some s =>
    apply pure
    have hutf8 : (utf8 s).length = k := by rw [utf8_of_fromUtf8 hs, hlen]
    refine ⟨?_, trivial, ?_⟩
    · change (utf8 s).length < 2 ^ 32
      omega
    · rw [packedLength, stringLength, hutf8]
      omega

theorem unpackBytes {w : ℕ} (hw : w = 1 ∨ w = 2 ∨ w = 4) :
    Costs (unpackBytes w) fun v k => Fits v (1 + k) := by
  apply (size w).bind
  rintro n k ⟨rfl, hn⟩
  apply (take n).bind
  rintro bs k' ⟨rfl, hlen⟩
  apply pure
  have hsize : k' < 2 ^ 32 := by rcases hw with rfl | rfl | rfl <;> omega
  refine ⟨?_, trivial, ?_⟩
  · change bs.length < 2 ^ 32
    omega
  · rw [packedLength, hlen, bytesHeaderLength]
    rcases hw with rfl | rfl | rfl <;> split_ifs <;> omega

end Costs

/-- `HashMap::insert` on a key that is there: its value is replaced. -/
def replace (m : Meta) (key : String) (value : BoltValue) : Meta :=
  m.map fun e => if e.1 = key then (key, value) else e

theorem replace_keys (m : Meta) (key : String) (value : BoltValue) :
    (replace m key value).map Prod.fst = m.map Prod.fst := by
  rw [replace, List.map_map]
  apply List.map_congr_left
  intro e _
  by_cases he : e.1 = key <;> simp [he]

theorem forallEntries_replace {p : BoltValue → Prop} {m : Meta} {key : String} {value : BoltValue}
    (hm : BoltValue.ForallEntries p m) (hv : value.Forall p) :
    BoltValue.ForallEntries p (replace m key value) := by
  induction m with
  | nil => trivial
  | cons e m ih =>
    obtain ⟨k, v⟩ := e
    have hrest := ih hm.2
    by_cases hk : k = key
    · simp only [replace, List.map_cons, hk, if_true]
      exact ⟨hv, hrest⟩
    · simp only [replace, List.map_cons, hk, if_false]
      exact ⟨hm.1, hrest⟩

theorem replace_of_notMem {m : Meta} {key : String} (h : key ∉ m.map Prod.fst)
    (value : BoltValue) :
    replace m key value = m := by
  have hid : ∀ e ∈ m, (if e.1 = key then (key, value) else e) = id e := by
    intro e he
    have hne : e.1 ≠ key := by
      rintro rfl
      exact h (List.mem_map_of_mem he)
    rw [if_neg hne, id]
  rw [replace, List.map_congr_left hid, List.map_id]

/-- The value that is replaced is no longer paid for. -/
theorem packedLengthEntries_replace {m : Meta} (hm : (m.map Prod.fst).Nodup) (key : String)
    (value : BoltValue) :
    packedLengthEntries (replace m key value) ≤ packedLengthEntries m + packedLength value := by
  induction m with
  | nil => exact Nat.zero_le _
  | cons e m ih =>
    obtain ⟨k, v⟩ := e
    rw [List.map_cons, List.nodup_cons] at hm
    by_cases hk : k = key
    · subst hk
      have hrest := replace_of_notMem hm.1 value
      have heq : replace ((k, v) :: m) k value = (k, value) :: replace m k value := by
        simp [replace]
      rw [heq, hrest, packedLengthEntries, packedLengthEntries]
      omega
    · have heq : replace ((k, v) :: m) key value = (k, v) :: replace m key value := by
        simp [replace, hk]
      have hrest := ih hm.2
      rw [heq, packedLengthEntries, packedLengthEntries]
      omega

theorem forallEntries_append {p : BoltValue → Prop} {es fs : List (String × BoltValue)}
    (hes : BoltValue.ForallEntries p es) (hfs : BoltValue.ForallEntries p fs) :
    BoltValue.ForallEntries p (es ++ fs) := by
  induction es with
  | nil => exact hfs
  | cons e es ih => exact ⟨hes.1, ih hes.2⟩

theorem packedLengthEntries_append (es fs : List (String × BoltValue)) :
    packedLengthEntries (es ++ fs) = packedLengthEntries es + packedLengthEntries fs := by
  induction es with
  | nil => simp [packedLengthEntries]
  | cons e es ih =>
    obtain ⟨k, v⟩ := e
    rw [List.cons_append, packedLengthEntries, packedLengthEntries, ih]
    omega

/-- An entry read into the map, under a key that is new or not. -/
theorem FitsEntries.insert {m : Meta} {c k k' : ℕ} {key : String} {value : BoltValue}
    (hm : FitsEntries m c) (hk : Fits (.string key) k) (hv : Fits value k') :
    FitsEntries (m.insert key value) (c + k + k') ∧
      (m.insert key value).length ≤ m.length + 1 := by
  have hkey : (utf8 key).length < 2 ^ 32 := hk.sized
  have hstring : stringLength key ≤ k := hk.length_le
  have hvalue := hv.length_le
  have hentries := hm.length_le
  -- a repeated key replaces its value, so the bytes read for the first one are spare
  by_cases hmem : key ∈ m.map Prod.fst
  · have hins : m.insert key value = replace m key value := by
      rw [Meta.insert, if_pos hmem, replace]
    have hkeys := replace_keys m key value
    have hlen := packedLengthEntries_replace hm.nodup key value
    rw [hins]
    refine ⟨⟨?_, ?_, forallEntries_replace hm.sized hv.sized,
      forallEntries_replace hm.distinct hv.distinct, by omega⟩, ?_⟩
    · intro e he
      have hfst : e.1 ∈ m.map Prod.fst := hkeys ▸ List.mem_map_of_mem he
      obtain ⟨e', he', heq⟩ := List.mem_map.mp hfst
      rw [← heq]
      exact hm.keys e' he'
    · rw [hkeys]
      exact hm.nodup
    · rw [replace, List.length_map]
      omega
  · rw [Meta.insert_of_notMem hmem]
    refine ⟨⟨?_, ?_, forallEntries_append hm.sized ⟨hv.sized, trivial⟩,
      forallEntries_append hm.distinct ⟨hv.distinct, trivial⟩, ?_⟩, ?_⟩
    · intro e he
      rcases List.mem_append.mp he with he | he
      · exact hm.keys e he
      · cases List.mem_singleton.mp he
        exact hkey
    · rw [List.map_append, List.nodup_append]
      refine ⟨hm.nodup, List.nodup_singleton _, ?_⟩
      rintro a ha b hb rfl
      cases List.mem_singleton.mp hb
      exact hmem ha
    · rw [packedLengthEntries_append, packedLengthEntries, packedLengthEntries]
      omega
    · rw [List.length_append, List.length_singleton]

namespace Costs
variable {unpack : ReadM BoltValue} (h : Costs unpack Fits)
include h

theorem unpackN (n : ℕ) :
    Costs (unpackN unpack n) fun vs k => vs.length = n ∧ FitsSeq vs k := by
  induction n with
  | zero => exact pure ⟨rfl, trivial, trivial, Nat.le_refl 0⟩
  | succ n ih =>
    apply h.bind
    intro v k hv
    apply ih.bind
    rintro vs k' ⟨hlen, hvs⟩
    apply pure
    refine ⟨by rw [List.length_cons, hlen], ⟨hv.sized, hvs.sized⟩,
      ⟨hv.distinct, hvs.distinct⟩, ?_⟩
    have hv' := hv.length_le
    have hvs' := hvs.length_le
    rw [packedLengthSeq]
    omega

theorem unpackEntries (n : ℕ) {m : Meta} {c : ℕ} (hm : FitsEntries m c) :
    Costs (unpackEntries unpack n m) fun m' k =>
      m'.length ≤ m.length + n ∧ FitsEntries m' (c + k) := by
  induction n generalizing m c with
  | zero => exact pure ⟨Nat.le_refl _, hm⟩
  | succ n ih =>
    apply h.bind
    intro key k hkey
    cases key with
    | string key =>
      apply h.bind
      intro value k' hvalue
      obtain ⟨hins, hlen⟩ := hm.insert hkey hvalue
      apply (ih hins).mono
      rintro m' k'' ⟨hlen', hfits⟩
      refine ⟨by omega, hfits.keys, hfits.nodup, hfits.sized, hfits.distinct, ?_⟩
      have hle := hfits.length_le
      omega
    | _ => exact throw _ _

section Header
variable {n w : ℕ} (hn : n < 2 ^ 32) (hw : headerLength n ≤ 1 + w)
include hn hw

theorem unpackList : Costs (unpackList unpack n) fun v k => Fits v (1 + w + k) := by
  apply (h.unpackN n).bind
  rintro vs k ⟨rfl, hvs⟩
  apply pure
  refine ⟨⟨hn, hvs.sized⟩, ⟨trivial, hvs.distinct⟩, ?_⟩
  have hle := hvs.length_le
  rw [packedLength]
  omega

theorem unpackMap : Costs (unpackMap unpack n) fun v k => Fits v (1 + w + k) := by
  have hempty : FitsEntries [] 0 :=
    ⟨by simp, List.nodup_nil, trivial, trivial, Nat.le_refl 0⟩
  apply (h.unpackEntries n hempty).bind
  rintro m k ⟨hlen, hm⟩
  apply pure
  rw [List.length_nil, Nat.zero_add] at hlen
  refine ⟨⟨⟨by omega, hm.keys⟩, hm.sized⟩, ⟨hm.nodup, hm.distinct⟩, ?_⟩
  have hle := hm.length_le
  -- repeated keys only make the map, and its header, shorter
  have hheader := headerLength_mono hlen
  rw [packedLength]
  omega

theorem unpackStruct : Costs (unpackStruct unpack n) fun v k => Fits v (1 + w + k) := by
  apply u8.bind
  rintro signature _ rfl
  apply (h.unpackN n).bind
  rintro vs k ⟨rfl, hvs⟩
  apply pure
  refine ⟨⟨hn, hvs.sized⟩, ⟨trivial, hvs.distinct⟩, ?_⟩
  have hle := hvs.length_le
  rw [packedLength]
  omega

end Header

omit h in
/-- A size field of `w` bytes, and the container it announces. -/
theorem sized {method : ℕ → ReadM BoltValue} {w : ℕ} (hw : w = 1 ∨ w = 2 ∨ w = 4)
    (hm : ∀ n, n < 2 ^ 32 → headerLength n ≤ 1 + w →
      Costs (method n) fun v k => Fits v (1 + w + k)) :
    Costs (PackStream.size w >>= method) fun v k => Fits v (1 + k) := by
  apply (size w).bind
  rintro n k ⟨rfl, hn⟩
  have hn32 : n < 2 ^ 32 := by rcases hw with rfl | rfl | rfl <;> omega
  apply (hm n hn32 (headerLength_le_of_lt hw hn)).mono
  intro v k' hfits
  rwa [← Nat.add_assoc]

omit h in
theorem intLength_positive {marker : UInt8} (hm : marker < 0x80) :
    intLength (Int64.ofNat marker.toNat) = 1 := by
  have hlt : marker.toNat < 128 := UInt8.lt_iff_toNat_lt.mp hm
  have hi : (Int64.ofNat marker.toNat).toInt = marker.toNat :=
    Int64.toInt_ofNat_of_lt (by omega)
  rw [intLength, hi, if_pos ⟨by omega, by omega⟩]

omit h in
theorem intLength_negative {marker : UInt8} (hm : 0xF0 ≤ marker) :
    intLength (Int64.ofInt (BigEndian.decodeSigned 1 [marker])) = 1 := by
  have hge : 240 ≤ marker.toNat := UInt8.le_iff_toNat_le.mp hm
  have hlt : marker.toNat < 256 := marker.toNat_lt
  obtain ⟨n, hn⟩ : ∃ n, marker.toNat = n := ⟨_, rfl⟩
  have hmarker : marker = UInt8.ofNat n := by rw [← hn, UInt8.ofNat_toNat]
  rw [hn] at hge hlt
  subst hmarker
  interval_cases n <;> rfl

/-- The marker costs a byte, and holds the size of a short container. -/
theorem unpackMarked (marker : UInt8) :
    Costs (unpackMarked unpack marker) fun v k => Fits v (1 + k) := by
  have hand : (marker &&& 0x0F).toNat ≤ 15 := by
    rw [UInt8.toNat_and]
    exact Nat.and_le_right
  have hlow : (marker &&& 0x0F).toNat < 2 ^ 32 := by omega
  have htiny : headerLength (marker &&& 0x0F).toNat ≤ 1 + 0 := by
    rw [headerLength, if_pos (by omega)]
  have hfloat : Costs (do return BoltValue.float (UInt64.ofNat (BigEndian.decode
      (← PackStream.take 8)))) fun v k => Fits v (1 + k) := by
    apply (take 8).bind
    rintro bs k ⟨rfl, -⟩
    exact pure ⟨trivial, trivial, Nat.le_refl _⟩
  have hstring : ∀ w, w = 1 ∨ w = 2 ∨ w = 4 →
      Costs (do PackStream.unpackString (← PackStream.size w)) fun v k => Fits v (1 + k) :=
    fun w hw => sized hw fun _ => unpackString
  have hlist : ∀ w, w = 1 ∨ w = 2 ∨ w = 4 →
      Costs (do PackStream.unpackList unpack (← PackStream.size w)) fun v k => Fits v (1 + k) :=
    fun w hw => sized hw fun _ => h.unpackList
  have hmap : ∀ w, w = 1 ∨ w = 2 ∨ w = 4 →
      Costs (do PackStream.unpackMap unpack (← PackStream.size w)) fun v k => Fits v (1 + k) :=
    fun w hw => sized hw fun _ => h.unpackMap
  have hstruct : ∀ w, w = 1 ∨ w = 2 ∨ w = 4 →
      Costs (do PackStream.unpackStruct unpack (← PackStream.size w)) fun v k => Fits v (1 + k) :=
    fun w hw => sized hw fun _ => h.unpackStruct
  -- one branch for each marker, in the order of the source
  unfold PackStream.unpackMarked
  refine branch (fun hm => pure ⟨trivial, trivial, (intLength_positive hm).le⟩) fun _ => ?_
  refine branch (fun hm => pure ⟨trivial, trivial, (intLength_negative hm).le⟩) fun _ => ?_
  refine branch (fun _ => unpackString hlow htiny) fun _ => ?_
  refine branch (fun _ => h.unpackList hlow htiny) fun _ => ?_
  refine branch (fun _ => h.unpackMap hlow htiny) fun _ => ?_
  refine branch (fun _ => h.unpackStruct hlow htiny) fun _ => ?_
  refine branch (fun _ => pure ⟨trivial, trivial, Nat.le_refl 1⟩) fun _ => ?_
  refine branch (fun _ => pure ⟨trivial, trivial, Nat.le_refl 1⟩) fun _ => ?_
  refine branch (fun _ => pure ⟨trivial, trivial, Nat.le_refl 1⟩) fun _ => ?_
  refine branch (fun _ => hfloat) fun _ => ?_
  refine branch (fun _ => signed (by simp)) fun _ => ?_
  refine branch (fun _ => signed (by simp)) fun _ => ?_
  refine branch (fun _ => signed (by simp)) fun _ => ?_
  refine branch (fun _ => signed (by simp)) fun _ => ?_
  refine branch (fun _ => unpackBytes (by simp)) fun _ => ?_
  refine branch (fun _ => unpackBytes (by simp)) fun _ => ?_
  refine branch (fun _ => unpackBytes (by simp)) fun _ => ?_
  refine branch (fun _ => hstring 1 (by simp)) fun _ => ?_
  refine branch (fun _ => hstring 2 (by simp)) fun _ => ?_
  refine branch (fun _ => hstring 4 (by simp)) fun _ => ?_
  refine branch (fun _ => hlist 1 (by simp)) fun _ => ?_
  refine branch (fun _ => hlist 2 (by simp)) fun _ => ?_
  refine branch (fun _ => hlist 4 (by simp)) fun _ => ?_
  refine branch (fun _ => hmap 1 (by simp)) fun _ => ?_
  refine branch (fun _ => hmap 2 (by simp)) fun _ => ?_
  refine branch (fun _ => hmap 4 (by simp)) fun _ => ?_
  refine branch (fun _ => hstruct 1 (by simp)) fun _ => ?_
  refine branch (fun _ => hstruct 2 (by simp)) fun _ => ?_
  refine branch (fun _ => hstruct 4 (by simp)) fun _ => ?_
  exact throw _ _

omit h in
theorem unpackWithin (left : ℕ) : Costs (unpackWithin left) Fits := by
  induction left with
  | zero =>
    intro r v r' hr
    cases hr
  | succ left ih =>
    apply u8.bind
    rintro marker _ rfl
    exact ih.unpackMarked marker

end Costs

theorem forallEntries_iff {p : BoltValue → Prop} {es : List (String × BoltValue)} :
    BoltValue.ForallEntries p es ↔ ∀ e ∈ es, e.2.Forall p := by
  induction es with
  | nil => simp [BoltValue.ForallEntries]
  | cons e es ih => simp [BoltValue.ForallEntries, ih]

theorem packedLengthEntries_eq_sum (es : List (String × BoltValue)) :
    packedLengthEntries es = (es.map fun e => stringLength e.1 + packedLength e.2).sum := by
  induction es with
  | nil => rfl
  | cons e es ih => rw [packedLengthEntries, ih, List.map_cons, List.sum_cons]

/-- Another iteration order of the same entries. -/
theorem FitsEntries.perm {es fs : List (String × BoltValue)} {k : ℕ} (h : FitsEntries es k)
    (hp : es.Perm fs) : FitsEntries fs k where
  keys e he := h.keys e (hp.mem_iff.mpr he)
  nodup := ((hp.map Prod.fst).nodup_iff).mp h.nodup
  sized := forallEntries_iff.mpr fun e he => forallEntries_iff.mp h.sized e (hp.mem_iff.mpr he)
  distinct := forallEntries_iff.mpr fun e he =>
    forallEntries_iff.mp h.distinct e (hp.mem_iff.mpr he)
  length_le := by
    have hle := h.length_le
    rw [packedLengthEntries_eq_sum] at hle ⊢
    rwa [← (hp.map _).sum_eq]

mutual
/-- The induction follows the value; only a map's own entries are reordered. -/
theorem Fits.reorder : ∀ {v w : BoltValue} {k : ℕ}, Fits v k → v.SameMaps w → Fits w k
  | .null, _, _, h, hw => by cases hw; exact h
  | .bool _, _, _, h, hw => by cases hw; exact h
  | .int _, _, _, h, hw => by cases hw; exact h
  | .float _, _, _, h, hw => by cases hw; exact h
  | .string _, _, _, h, hw => by cases hw; exact h
  | .bytes _, _, _, h, hw => by cases hw; exact h
  | .list items, _, k, h, hw => by
    obtain ⟨items', rfl, hitems⟩ := hw
    obtain ⟨hlen, hfits⟩ := FitsSeq.reorder ⟨h.sized.2, h.distinct.2, Nat.le_refl _⟩ hitems
    have hle := h.length_le
    have hle' := hfits.length_le
    have hsize : items.length < 2 ^ 32 := h.sized.1
    rw [packedLength] at hle
    refine ⟨⟨?_, hfits.sized⟩, ⟨trivial, hfits.distinct⟩, ?_⟩
    · change items'.length < 2 ^ 32
      omega
    · rw [packedLength, hlen]
      omega
  -- the values are reordered first, then the entries
  | .map entries, _, k, h, hw => by
    obtain ⟨entries', entries'', rfl, hentries, hperm⟩ := hw
    obtain ⟨hkeys, hfits⟩ := FitsEntries.reorder
      ⟨h.sized.1.2, h.distinct.1, h.sized.2, h.distinct.2, Nat.le_refl _⟩ hentries
    have hfits := hfits.perm hperm
    have hlen : entries''.length = entries.length := by
      have hlen' := congrArg List.length hkeys
      rw [List.length_map, List.length_map] at hlen'
      rw [← hperm.length_eq, hlen']
    have hle := h.length_le
    have hle' := hfits.length_le
    have hsize : entries.length < 2 ^ 32 := h.sized.1.1
    rw [packedLength] at hle
    refine ⟨⟨⟨by omega, hfits.keys⟩, hfits.sized⟩,
      ⟨hfits.nodup, hfits.distinct⟩, ?_⟩
    rw [packedLength, hlen]
    omega
  | .struct signature fields, _, k, h, hw => by
    obtain ⟨fields', rfl, hfields⟩ := hw
    obtain ⟨hlen, hfits⟩ := FitsSeq.reorder ⟨h.sized.2, h.distinct.2, Nat.le_refl _⟩ hfields
    have hle := h.length_le
    have hle' := hfits.length_le
    have hsize : fields.length < 2 ^ 32 := h.sized.1
    rw [packedLength] at hle
    refine ⟨⟨?_, hfits.sized⟩, ⟨trivial, hfits.distinct⟩, ?_⟩
    · change fields'.length < 2 ^ 32
      omega
    · rw [packedLength, hlen]
      omega

theorem FitsSeq.reorder : ∀ {vs ws : List BoltValue} {k : ℕ}, FitsSeq vs k →
    BoltValue.SameMapsSeq vs ws → ws.length = vs.length ∧ FitsSeq ws k
  | [], _, _, h, hws => by cases hws; exact ⟨rfl, h⟩
  | v :: vs, _, k, h, hws => by
    obtain ⟨w, ws, rfl, hw, hws⟩ := hws
    have hfirst := Fits.reorder ⟨h.sized.1, h.distinct.1, Nat.le_refl _⟩ hw
    obtain ⟨hlen, hrest⟩ := FitsSeq.reorder ⟨h.sized.2, h.distinct.2, Nat.le_refl _⟩ hws
    have hle := h.length_le
    have hle₁ := hfirst.length_le
    have hle₂ := hrest.length_le
    rw [packedLengthSeq] at hle
    refine ⟨by rw [List.length_cons, List.length_cons, hlen], ⟨hfirst.sized, hrest.sized⟩,
      ⟨hfirst.distinct, hrest.distinct⟩, ?_⟩
    rw [packedLengthSeq]
    omega

theorem FitsEntries.reorder : ∀ {es fs : List (String × BoltValue)} {k : ℕ},
    FitsEntries es k →
    BoltValue.SameMapsEntries es fs → fs.map Prod.fst = es.map Prod.fst ∧ FitsEntries fs k
  | [], _, _, h, hfs => by cases hfs; exact ⟨rfl, h⟩
  | (key, v) :: es, _, k, h, hfs => by
    obtain ⟨w, fs, rfl, hw, hfs⟩ := hfs
    have hnodup := h.nodup
    rw [List.map_cons, List.nodup_cons] at hnodup
    have hfirst := Fits.reorder ⟨h.sized.1, h.distinct.1, Nat.le_refl _⟩ hw
    obtain ⟨hkeys, hrest⟩ := FitsEntries.reorder
      ⟨fun e he => h.keys e (List.mem_cons_of_mem _ he),
      hnodup.2, h.sized.2, h.distinct.2, Nat.le_refl _⟩ hfs
    have hle := h.length_le
    have hle₁ := hfirst.length_le
    have hle₂ := hrest.length_le
    rw [packedLengthEntries] at hle
    have hkeys' : ((key, w) :: fs).map Prod.fst = ((key, v) :: es).map Prod.fst := by
      rw [List.map_cons, List.map_cons, hkeys]
    refine ⟨hkeys', ?_, ?_, ⟨hfirst.sized, hrest.sized⟩,
      ⟨hfirst.distinct, hrest.distinct⟩, ?_⟩
    · intro e he
      rcases List.mem_cons.mp he with rfl | he
      · exact h.keys (key, v) (List.mem_cons_self ..)
      · exact hrest.keys e he
    · rw [hkeys']
      exact h.nodup
    · rw [packedLengthEntries]
      omega
end

/-- Whatever bytes a value was read from, `pack` writes it, in any iteration
order of its maps, in no more bytes, and it is read back. -/
theorem pack_canonical {b : List UInt8} {v : BoltValue} {r : Reader}
    (h : Reader.unpack (.new b) = .ok (v, r)) {w : BoltValue} (hw : v.SameMaps w) :
    ∃ e, pack w [] = .ok e ∧ e.length ≤ r.pos ∧
      Reader.unpack (.new e) = .ok (w, ⟨e, e.length⟩) := by
  obtain ⟨k, hk, hfits⟩ := Costs.unpackWithin _ _ _ _ h
  have hpos : r.pos = k := by rw [hk, Reader.new, Nat.zero_add]
  have hfits := hfits.reorder hw
  obtain ⟨e, he⟩ := roundTrips w hfits.distinct hfits.sized
  have hpack : pack w [] = .ok e := he.pack_eq []
  have hlen := length_pack w hpack
  have hle := hfits.length_le
  rw [List.length_nil, Nat.zero_add] at hlen
  refine ⟨e, hpack, by omega, ?_⟩
  have hread := he.unpack [] []
  rwa [List.nil_append, List.append_nil, List.length_nil, Nat.zero_add] at hread

def wideMap : List UInt8 :=
  [0xD8, 0x03, 0x81, 0x61, 0xC9, 0x00, 0x01, 0xD0, 0x01, 0x62, 0xC0, 0x81, 0x61, 0xC8, 0x02]

theorem pack_canonical_wideMap :
    Reader.unpack (.new wideMap) = .ok (.map [("a", .int 2), ("b", .null)], ⟨wideMap, 15⟩) ∧
    ∃ e, pack (.map [("b", .null), ("a", .int 2)]) [] = .ok e ∧ e.length ≤ 15 ∧
      Reader.unpack (.new e) = .ok (.map [("b", .null), ("a", .int 2)], ⟨e, e.length⟩) := by
  have hread : Reader.unpack (.new wideMap) =
      .ok (.map [("a", .int 2), ("b", .null)], ⟨wideMap, 15⟩) := by rfl
  refine ⟨hread, pack_canonical hread ?_⟩
  exact ⟨[("a", .int 2), ("b", .null)], _, rfl, ⟨_, _, rfl, rfl, _, _, rfl, rfl, rfl⟩,
    List.Perm.swap ..⟩

end PackStream
end Boltwire
