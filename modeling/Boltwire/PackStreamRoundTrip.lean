import Boltwire.PackStream

namespace Boltwire

def BoltValue.NodeSized : BoltValue → Prop
  | .string s => (utf8 s).length < 2 ^ 32
  | .bytes b => b.length < 2 ^ 32
  | .list items => items.length < 2 ^ 32
  | .map entries => entries.length < 2 ^ 32 ∧ ∀ e ∈ entries, (utf8 e.1).length < 2 ^ 32
  | .struct _ fields => fields.length < 2 ^ 32
  | _ => True

/-- Every string, byte array, list, map, map key and structure in the value
is shorter than 2^32. -/
def BoltValue.Sized (v : BoltValue) : Prop := v.Forall NodeSized

namespace PackStream
open BigEndian

def Reads {α : Type} (m : ReadM α) (e : List UInt8) (a : α) : Prop :=
  ∀ pre s, m ⟨pre ++ (e ++ s), pre.length⟩ =
    .ok (a, ⟨pre ++ (e ++ s), pre.length + e.length⟩)

theorem Reads.pure {α : Type} (a : α) : Reads (pure a) [] a := by
  intro pre s
  rfl

theorem Reads.bind {α β : Type} {m : ReadM α} {f : α → ReadM β} {e e' : List UInt8}
    {a : α} {b : β} (hm : Reads m e a) (hf : Reads (f a) e' b) : Reads (m >>= f) (e ++ e') b := by
  intro pre s
  have h₁ := hm pre (e' ++ s)
  have h₂ := hf (pre ++ e) s
  simp only [List.append_assoc, List.length_append] at h₁ h₂ ⊢
  change Except.bind (m _) (fun p => f p.1 p.2) = _
  rw [h₁]
  change f a _ = _
  rw [h₂, Nat.add_assoc]

theorem Reads.map {α β : Type} {m : ReadM α} {e : List UInt8} {a : α} (f : α → β)
    (hm : Reads m e a) : Reads (do return f (← m)) e (f a) := by
  have h := Reads.bind (f := fun x => Pure.pure (f x)) hm (Reads.pure (f a))
  rwa [List.append_nil] at h

theorem reads_take (e : List UInt8) : Reads (take e.length) e e := by
  intro pre s
  have hn : ¬ (pre ++ (e ++ s)).length < pre.length + e.length := by
    simp only [List.length_append]
    omega
  simp [take]

theorem reads_u8 (b : UInt8) : Reads u8 [b] b :=
  Reads.map (fun bs : List UInt8 => bs.getD 0 0) (reads_take [b])

theorem reads_size {w n : ℕ} (hw : w = 1 ∨ w = 2 ∨ w = 4) (hn : n < 256 ^ w) :
    Reads (size w) (BigEndian.encode w n) n := by
  have h := reads_take (BigEndian.encode w n)
  rw [BigEndian.encode_length] at h
  have h' := h.map BigEndian.decode
  rw [BigEndian.decode_encode_of_lt hn] at h'
  simpa only [size, if_pos hw] using h'

theorem reads_signed {w : ℕ} (hw : 0 < w) (hm : 8 * w ≤ 64) (i : Int64)
    (hlo : -2 ^ (8 * w - 1) ≤ i.toInt) (hhi : i.toInt < 2 ^ (8 * w - 1)) :
    Reads (signed w) (BigEndian.encode w i.toBitVec.toNat) (.int i) := by
  have h := reads_take (BigEndian.encode w i.toBitVec.toNat)
  rw [BigEndian.encode_length] at h
  have h' := h.map fun bs => BoltValue.int (Int64.ofInt (BigEndian.decodeSigned w bs))
  rw [BigEndian.decodeSigned_encode i.toBitVec hm hlo hhi hw] at h'
  have hi : Int64.ofInt i.toBitVec.toInt = i := Int64.ofInt_toInt i
  rwa [hi] at h'

theorem reads_string (s : String) : Reads (unpackString (utf8 s).length) (utf8 s) (.string s) := by
  rw [← List.append_nil (utf8 s), unpackString]
  refine Reads.bind (by simpa using reads_take (utf8 s)) ?_
  rw [fromUtf8_utf8]
  exact Reads.pure _

/-- The markers of one sized kind all lead to its method, with the size they announce. -/
structure Dispatch (tiny m8 m16 : UInt8) (method : ReadM BoltValue → ℕ → ReadM BoltValue) :
    Prop where
  of_tiny : ∀ unpack n, n < 16 → unpackMarked unpack (tiny ||| UInt8.ofNat n) = method unpack n
  of_m8 : ∀ unpack, unpackMarked unpack m8 = size 1 >>= method unpack
  of_m16 : ∀ unpack, unpackMarked unpack m16 = size 2 >>= method unpack
  of_m32 : ∀ unpack, unpackMarked unpack (m16 + 1) = size 4 >>= method unpack

theorem dispatch_string :
    Dispatch TINY_STRING STRING_8 STRING_16 fun _ n => unpackString n where
  of_tiny _ n h := by interval_cases n <;> rfl
  of_m8 _ := rfl
  of_m16 _ := rfl
  of_m32 _ := rfl

theorem dispatch_list : Dispatch TINY_LIST LIST_8 LIST_16 unpackList where
  of_tiny _ n h := by interval_cases n <;> rfl
  of_m8 _ := rfl
  of_m16 _ := rfl
  of_m32 _ := rfl

theorem dispatch_map : Dispatch TINY_MAP MAP_8 MAP_16 unpackMap where
  of_tiny _ n h := by interval_cases n <;> rfl
  of_m8 _ := rfl
  of_m16 _ := rfl
  of_m32 _ := rfl

theorem dispatch_struct : Dispatch TINY_STRUCT STRUCT_8 STRUCT_16 unpackStruct where
  of_tiny _ n h := by interval_cases n <;> rfl
  of_m8 _ := rfl
  of_m16 _ := rfl
  of_m32 _ := rfl

theorem reads_unpackWithin {left : ℕ} {marker : UInt8} {e : List UInt8} {v : BoltValue}
    (h : Reads (unpackMarked (unpackWithin left) marker) e v) :
    Reads (unpackWithin (left + 1)) (marker :: e) v :=
  (reads_u8 marker).bind h

def IsHeader (size : ℕ) (tiny m8 m16 : UInt8) (label : String) (h : List UInt8) : Prop :=
  ∀ out, packHeader size tiny m8 m16 label out = .ok (out ++ h)

/-- A header of any width is written, and read back as the size it announces. -/
theorem Dispatch.header {tiny m8 m16 : UInt8} {method : ReadM BoltValue → ℕ → ReadM BoltValue}
    (d : Dispatch tiny m8 m16 method) {n : ℕ} (hn : n < 2 ^ 32) (label : String) :
    ∃ h, IsHeader n tiny m8 m16 label h ∧ 0 < h.length ∧
      ∀ left e v, Reads (method (unpackWithin left) n) e v →
        Reads (unpackWithin (left + 1)) (h ++ e) v := by
  by_cases h16 : n < 16
  · refine ⟨[tiny ||| UInt8.ofNat n], ?_, by simp, ?_⟩
    · intro out
      simp [packHeader, h16]
    · intro left e v he
      apply reads_unpackWithin
      rwa [d.of_tiny _ _ h16]
  by_cases h256 : n < 256
  · refine ⟨m8 :: BigEndian.encode 1 n, ?_, by simp, ?_⟩
    · intro out
      simp [packHeader, h16, h256, tagged]
    · intro left e v he
      apply reads_unpackWithin
      rw [d.of_m8]
      exact (reads_size (by simp) (by omega)).bind he
  by_cases h65536 : n < 65536
  · refine ⟨m16 :: BigEndian.encode 2 n, ?_, by simp, ?_⟩
    · intro out
      simp [packHeader, h16, h256, h65536, tagged]
    · intro left e v he
      apply reads_unpackWithin
      rw [d.of_m16]
      exact (reads_size (by simp) (by omega)).bind he
  · refine ⟨(m16 + 1) :: BigEndian.encode 4 n, ?_, by simp, ?_⟩
    · intro out
      simp only [packHeader, if_neg h16, if_neg h256, if_neg h65536, if_pos hn, tagged,
        List.append_assoc, List.singleton_append]
    · intro left e v he
      apply reads_unpackWithin
      rw [d.of_m32]
      exact (reads_size (by simp) (by omega)).bind he

/-- `e` is what `pack` appends for `v`, and `unpack` reads `v` back from it. -/
structure RoundTrips (v : BoltValue) (e : List UInt8) : Prop where
  pack_eq : ∀ out, pack v out = .ok (out ++ e)
  pos : 0 < e.length
  reads : ∀ left, e.length ≤ left → Reads (unpackWithin left) e v

/-- A value whose encoding is one marker and a payload read without recursion. -/
theorem roundTrips_of_marked {v : BoltValue} (marker : UInt8) (e : List UInt8)
    (hp : ∀ out, pack v out = .ok (out ++ marker :: e))
    (hr : ∀ unpack, Reads (unpackMarked unpack marker) e v) : RoundTrips v (marker :: e) where
  pack_eq := hp
  pos := by simp
  reads left hl := by
    obtain ⟨left, rfl⟩ : ∃ k, left = k + 1 := ⟨left - 1, by simp at hl; omega⟩
    exact reads_unpackWithin (hr _)

theorem tiny_int_byte (i : Int64) (hlo : -16 ≤ i.toInt) (hhi : i.toInt ≤ 127)
    (unpack : ReadM BoltValue) :
    unpackMarked unpack (UInt8.ofNat i.toBitVec.toNat) = Pure.pure (.int i) := by
  obtain ⟨k, hk⟩ : ∃ k : ℤ, i.toInt = k := ⟨_, rfl⟩
  have hi : i = Int64.ofInt k := by rw [← hk, Int64.ofInt_toInt]
  rw [hk] at hlo hhi
  subst hi
  interval_cases k <;> rfl

theorem roundTrips_int (i : Int64) : ∃ e, RoundTrips (.int i) e := by
  have hmin : -2 ^ 63 ≤ i.toInt := i.le_toInt
  have hmax : i.toInt < 2 ^ 63 := i.toInt_lt
  -- the widths are tried in the order of `pack_int`
  by_cases h0 : -16 ≤ i.toInt ∧ i.toInt ≤ 127
  · refine ⟨_, roundTrips_of_marked (UInt8.ofNat i.toBitVec.toNat) [] ?_ ?_⟩
    · intro out
      simp only [pack, packInt, if_pos h0]
    · intro unpack
      rw [tiny_int_byte i h0.1 h0.2]
      exact Reads.pure _
  by_cases h8 : -128 ≤ i.toInt ∧ i.toInt ≤ 127
  · refine ⟨_, roundTrips_of_marked INT_8 (BigEndian.encode 1 i.toBitVec.toNat) ?_ ?_⟩
    · intro out
      simp only [pack, packInt, if_neg h0, if_pos h8, tagged, List.append_assoc,
        List.singleton_append]
    · intro _
      exact reads_signed (by omega) (by omega) i (by norm_num; omega) (by norm_num; omega)
  by_cases h16 : -32768 ≤ i.toInt ∧ i.toInt ≤ 32767
  · refine ⟨_, roundTrips_of_marked INT_16 (BigEndian.encode 2 i.toBitVec.toNat) ?_ ?_⟩
    · intro out
      simp only [pack, packInt, if_neg h0, if_neg h8, if_pos h16, tagged, List.append_assoc,
        List.singleton_append]
    · intro _
      exact reads_signed (by omega) (by omega) i (by norm_num; omega) (by norm_num; omega)
  by_cases h32 : -2147483648 ≤ i.toInt ∧ i.toInt ≤ 2147483647
  · refine ⟨_, roundTrips_of_marked INT_32 (BigEndian.encode 4 i.toBitVec.toNat) ?_ ?_⟩
    · intro out
      simp only [pack, packInt, if_neg h0, if_neg h8, if_neg h16, if_pos h32, tagged,
        List.append_assoc, List.singleton_append]
    · intro _
      exact reads_signed (by omega) (by omega) i (by norm_num; omega) (by norm_num; omega)
  · refine ⟨_, roundTrips_of_marked INT_64 (BigEndian.encode 8 i.toBitVec.toNat) ?_ ?_⟩
    · intro out
      simp only [pack, packInt, if_neg h0, if_neg h8, if_neg h16, if_neg h32, tagged,
        List.append_assoc, List.singleton_append]
    · intro _
      exact reads_signed (by omega) (by omega) i (by norm_num; omega) (by norm_num; omega)

theorem roundTrips_float (bits : UInt64) : ∃ e, RoundTrips (.float bits) e := by
  refine ⟨_, roundTrips_of_marked FLOAT_64 (BigEndian.encode 8 bits.toNat) ?_ ?_⟩
  · intro out
    simp only [pack, tagged, List.append_assoc, List.singleton_append]
  · intro _
    have h := reads_take (BigEndian.encode 8 bits.toNat)
    rw [BigEndian.encode_length] at h
    have h' := h.map fun bs => BoltValue.float (UInt64.ofNat (BigEndian.decode bs))
    have hlt : bits.toNat < 256 ^ 8 := bits.toNat_lt
    rwa [BigEndian.decode_encode_of_lt hlt, UInt64.ofNat_toNat] at h'

theorem roundTrips_string (s : String) (hs : (utf8 s).length < 2 ^ 32) :
    ∃ e, RoundTrips (.string s) e ∧ ∀ out, packString s out = .ok (out ++ e) := by
  obtain ⟨h, hpack, hpos, hread⟩ := dispatch_string.header hs "string"
  have hp : ∀ out, packString s out = .ok (out ++ (h ++ utf8 s)) := by
    intro out
    simp [packString, hpack out]
  refine ⟨h ++ utf8 s, ⟨fun out => by rw [pack, hp], by simp; omega, ?_⟩, hp⟩
  intro left hl
  obtain ⟨left, rfl⟩ : ∃ k, left = k + 1 := ⟨left - 1, by simp at hl; omega⟩
  exact hread left _ _ (reads_string s)

/-- The three byte-array headers, `w` the width of the size field. -/
theorem reads_bytes {w : ℕ} {b : List UInt8} (hw : w = 1 ∨ w = 2 ∨ w = 4)
    (hb : b.length < 256 ^ w) :
    Reads (unpackBytes w) (BigEndian.encode w b.length ++ b) (.bytes b) :=
  (reads_size hw hb).bind ((reads_take b).map BoltValue.bytes)

theorem roundTrips_bytes (b : List UInt8) (hb : b.length < 2 ^ 32) :
    ∃ e, RoundTrips (.bytes b) e := by
  by_cases h8 : b.length < 256
  · refine ⟨_, roundTrips_of_marked BYTES_8 _ ?_ fun _ =>
      reads_bytes (w := 1) (by simp) (by omega)⟩
    intro out
    simp [pack, packBytes, h8, tagged]
  by_cases h16 : b.length < 65536
  · refine ⟨_, roundTrips_of_marked BYTES_16 _ ?_ fun _ =>
      reads_bytes (w := 2) (by simp) (by omega)⟩
    intro out
    simp [pack, packBytes, h8, h16, tagged]
  · refine ⟨_, roundTrips_of_marked BYTES_32 _ ?_ fun _ =>
      reads_bytes (w := 4) (by simp) (by omega)⟩
    intro out
    simp [pack, packBytes, h8, h16, tagged]

structure RoundTripsSeq (vs : List BoltValue) (e : List UInt8) : Prop where
  pack_eq : ∀ out, packSeq vs out = .ok (out ++ e)
  reads : ∀ left, e.length ≤ left → Reads (unpackN (unpackWithin left) vs.length) e vs

/-- Map entries: each one is new to the map read so far, so it goes to its end. -/
structure RoundTripsEntries (es : List (String × BoltValue)) (e : List UInt8) : Prop where
  pack_eq : ∀ out, packEntries es out = .ok (out ++ e)
  reads : ∀ left, e.length ≤ left → ∀ m : Meta, ((m ++ es).map Prod.fst).Nodup →
    Reads (unpackEntries (unpackWithin left) es.length m) e (m ++ es)

theorem RoundTripsSeq.cons {v : BoltValue} {vs : List BoltValue} {e e' : List UInt8}
    (hv : RoundTrips v e) (hvs : RoundTripsSeq vs e') : RoundTripsSeq (v :: vs) (e ++ e') where
  pack_eq out := by simp [packSeq, hv.pack_eq, hvs.pack_eq, bind, Except.bind]
  reads left hl := by
    rw [List.length_append] at hl
    exact (hv.reads left (by omega)).bind ((hvs.reads left (by omega)).map fun vs => v :: vs)

theorem RoundTripsEntries.cons {k : String} {v : BoltValue} {es : List (String × BoltValue)}
    {e₁ e₂ e₃ : List UInt8} (hk : RoundTrips (.string k) e₁)
    (hpk : ∀ out, packString k out = .ok (out ++ e₁)) (hv : RoundTrips v e₂)
    (hes : RoundTripsEntries es e₃) :
    RoundTripsEntries ((k, v) :: es) (e₁ ++ (e₂ ++ e₃)) where
  pack_eq out := by simp [packEntries, hpk, hv.pack_eq, hes.pack_eq, bind, Except.bind]
  reads left hl m hnd := by
    simp only [List.length_append] at hl
    have hk' : k ∉ m.map Prod.fst := by
      intro hmem
      rw [List.map_append, List.nodup_append] at hnd
      exact hnd.2.2 k hmem k (by simp) rfl
    have hins : m.insert k v = m ++ [(k, v)] := Meta.insert_of_notMem hk' v
    have hrest := hes.reads left (by omega) (m ++ [(k, v)]) (by simpa using hnd)
    simp only [List.append_assoc, List.singleton_append] at hrest
    rw [← hins] at hrest
    exact (hk.reads left (by omega)).bind ((hv.reads left (by omega)).bind hrest)

/-- A container: its header, then what its method reads. -/
theorem Dispatch.roundTrips {tiny m8 m16 : UInt8}
    {method : ReadM BoltValue → ℕ → ReadM BoltValue}
    (d : Dispatch tiny m8 m16 method) {n : ℕ}
    (hn : n < 2 ^ 32) (label : String) {v : BoltValue} (e : List UInt8)
    (hp : ∀ out, pack v out = packHeader n tiny m8 m16 label out >>= fun out => .ok (out ++ e))
    (hr : ∀ left, e.length ≤ left → Reads (method (unpackWithin left) n) e v) :
    ∃ e, RoundTrips v e := by
  obtain ⟨h, hpack, hpos, hread⟩ := d.header hn label
  refine ⟨h ++ e, fun out => ?_, by rw [List.length_append]; omega, fun left hl => ?_⟩
  · rw [hp, hpack out, ← List.append_assoc]
    rfl
  · rw [List.length_append] at hl
    obtain ⟨left, rfl⟩ : ∃ k, left = k + 1 := ⟨left - 1, by omega⟩
    exact hread left e v (hr left (by omega))

mutual
theorem roundTrips : ∀ v : BoltValue, v.KeysDistinct → v.Sized → ∃ e, RoundTrips v e
  | .null, _, _ => ⟨_, roundTrips_of_marked NULL [] (fun _ => rfl) fun _ => Reads.pure _⟩
  | .bool true, _, _ =>
    ⟨_, roundTrips_of_marked TRUE [] (fun _ => rfl) fun _ => Reads.pure _⟩
  | .bool false, _, _ =>
    ⟨_, roundTrips_of_marked FALSE [] (fun _ => rfl) fun _ => Reads.pure _⟩
  | .int i, _, _ => roundTrips_int i
  | .float bits, _, _ => roundTrips_float bits
  | .string s, _, hs => (roundTrips_string s hs).imp fun _ h => h.1
  | .bytes b, _, hs => roundTrips_bytes b hs
  | .list items, hk, hs => by
    obtain ⟨e, he⟩ := roundTripsSeq items hk.2 hs.2
    exact dispatch_list.roundTrips hs.1 "list" e
      (fun out => by simp only [pack, he.pack_eq]) fun left hl => (he.reads left hl).map _
  | .map entries, hk, hs => by
    obtain ⟨e, he⟩ := roundTripsEntries entries hk.2 hs.2 hs.1.2
    exact dispatch_map.roundTrips hs.1.1 "map" e
      (fun out => by simp only [pack, he.pack_eq]) fun left hl =>
        (he.reads left hl [] hk.1).map _
  | .struct signature fields, hk, hs => by
    obtain ⟨e, he⟩ := roundTripsSeq fields hk.2 hs.2
    exact dispatch_struct.roundTrips hs.1 "struct" (signature :: e)
      (fun out => by simp only [pack, he.pack_eq, List.append_assoc, List.singleton_append])
      fun left hl => (reads_u8 signature).bind
        ((he.reads left (by rw [List.length_cons] at hl; omega)).map _)

theorem roundTripsSeq : ∀ vs : List BoltValue,
    BoltValue.ForallSeq BoltValue.NodeKeysDistinct vs →
    BoltValue.ForallSeq BoltValue.NodeSized vs → ∃ e, RoundTripsSeq vs e
  | [], _, _ => ⟨[], fun out => by simp [packSeq], fun _ _ => Reads.pure _⟩
  | v :: vs, hk, hs => by
    obtain ⟨e, he⟩ := roundTrips v hk.1 hs.1
    obtain ⟨e', he'⟩ := roundTripsSeq vs hk.2 hs.2
    exact ⟨_, RoundTripsSeq.cons he he'⟩

theorem roundTripsEntries : ∀ es : List (String × BoltValue),
    BoltValue.ForallEntries BoltValue.NodeKeysDistinct es →
    BoltValue.ForallEntries BoltValue.NodeSized es →
    (∀ e ∈ es, (utf8 e.1).length < 2 ^ 32) → ∃ e, RoundTripsEntries es e
  | [], _, _, _ => ⟨[], fun out => by simp [packEntries], fun _ _ m _ => by
      rw [List.append_nil]
      exact Reads.pure _⟩
  | (k, v) :: es, hk, hs, hkey => by
    obtain ⟨e₁, he₁, hpk⟩ := roundTrips_string k (hkey _ (List.mem_cons_self ..))
    obtain ⟨e₂, he₂⟩ := roundTrips v hk.1 hs.1
    obtain ⟨e₃, he₃⟩ := roundTripsEntries es hk.2 hs.2 fun e h => hkey e
      (List.mem_cons_of_mem _ h)
    exact ⟨_, RoundTripsEntries.cons he₁ hpk he₂ he₃⟩
end

theorem RoundTrips.unpack {v : BoltValue} {e : List UInt8} (h : RoundTrips v e)
    (pre s : List UInt8) : Reader.unpack ⟨pre ++ (e ++ s), pre.length⟩ =
      .ok (v, ⟨pre ++ (e ++ s), pre.length + e.length⟩) := by
  have hl : e.length ≤ Reader.remaining ⟨pre ++ (e ++ s), pre.length⟩ := by
    simp only [Reader.remaining, List.length_append]
    omega
  exact h.reads _ hl pre s

/-- The entries of a map stand in its iteration order, so this covers every
order; what is read back has the very same entries. -/
theorem unpack_pack (v : BoltValue) (hk : v.KeysDistinct) (hs : v.Sized) :
    ∃ e, (∀ out, pack v out = .ok (out ++ e)) ∧
      ∀ pre s, Reader.unpack ⟨pre ++ (e ++ s), pre.length⟩ =
        .ok (v, ⟨pre ++ (e ++ s), pre.length + e.length⟩) := by
  obtain ⟨e, he⟩ := roundTrips v hk hs
  exact ⟨e, he.pack_eq, he.unpack⟩

theorem unpack_pack_nested : ∃ e,
    (∀ out, pack (.list [.int 300, .map [("b", .null), ("a", .struct 0x4E [.bool true])]]) out =
      .ok (out ++ e)) ∧
      ∀ pre s, Reader.unpack ⟨pre ++ (e ++ s), pre.length⟩ =
        .ok (.list [.int 300, .map [("b", .null), ("a", .struct 0x4E [.bool true])]],
          ⟨pre ++ (e ++ s), pre.length + e.length⟩) := by
  apply unpack_pack
  · simp [BoltValue.KeysDistinct, BoltValue.Forall, BoltValue.ForallSeq, BoltValue.ForallEntries,
      BoltValue.NodeKeysDistinct]
  · have hb : (utf8 "b").length < 4294967296 := by decide
    have ha : (utf8 "a").length < 4294967296 := by decide
    simp [BoltValue.Sized, BoltValue.Forall, BoltValue.ForallSeq, BoltValue.ForallEntries,
      BoltValue.NodeSized, ha, hb]

end PackStream
end Boltwire
