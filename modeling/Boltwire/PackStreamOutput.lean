import Boltwire.PackStreamRoundTrip

namespace Boltwire.PackStream

/-- `f` appends, independently of what is there, or fails with a protocol error. -/
def Appends (f : List UInt8 → Except BoltError (List UInt8)) : Prop :=
  ∃ r : Except ProtocolError (List UInt8),
    ∀ out, f out = (r.mapError BoltError.protocol).map (out ++ ·)

theorem Appends.pure (e : List UInt8) : Appends fun out => .ok (out ++ e) :=
  ⟨.ok e, fun _ => rfl⟩

theorem Appends.bind {f g : List UInt8 → Except BoltError (List UInt8)} (hf : Appends f)
    (hg : Appends g) : Appends fun out => f out >>= g := by
  obtain ⟨r, hr⟩ := hf
  obtain ⟨r', hr'⟩ := hg
  cases r with
  | error e => exact ⟨.error e, fun out => by simp only [hr]; rfl⟩
  | ok e =>
    cases r' with
    | error e' => exact ⟨.error e', fun out => by simp only [hr]; exact hr' _⟩
    | ok e' =>
      refine ⟨.ok (e ++ e'), fun out => ?_⟩
      simp only [hr]
      exact (hr' _).trans (congrArg Except.ok (List.append_assoc ..))

theorem Appends.ok {f : List UInt8 → Except BoltError (List UInt8)} (hf : Appends f)
    {out out' : List UInt8} (h : f out = .ok out') :
    ∃ e, out' = out ++ e ∧ ∀ out, f out = .ok (out ++ e) := by
  obtain ⟨r, hr⟩ := hf
  cases r with
  | error e => cases (hr out).symm.trans h
  | ok e => cases (hr out).symm.trans h; exact ⟨e, rfl, hr⟩

theorem Appends.error {f : List UInt8 → Except BoltError (List UInt8)} (hf : Appends f)
    {out : List UInt8} {e : BoltError} (h : f out = .error e) :
    ∃ message, e = .protocol message := by
  obtain ⟨r, hr⟩ := hf
  cases r with
  | error message => cases (hr out).symm.trans h; exact ⟨message, rfl⟩
  | ok e => cases (hr out).symm.trans h

theorem appends_packHeader (size : ℕ) (tiny m8 m16 : UInt8) (label : String) :
    Appends (packHeader size tiny m8 m16 label) := by
  by_cases h16 : size < 16
  · exact ⟨.ok [_], fun out => by rw [packHeader, if_pos h16]; rfl⟩
  by_cases h256 : size < 256
  · exact ⟨.ok (m8 :: _), fun out => by
      rw [packHeader, if_neg h16, if_pos h256, tagged, List.append_assoc]; rfl⟩
  by_cases h65536 : size < 65536
  · exact ⟨.ok (m16 :: _), fun out => by
      rw [packHeader, if_neg h16, if_neg h256, if_pos h65536, tagged, List.append_assoc]; rfl⟩
  by_cases h32 : size < 2 ^ 32
  · exact ⟨.ok ((m16 + 1) :: _), fun out => by
      rw [packHeader, if_neg h16, if_neg h256, if_neg h65536, if_pos h32, tagged,
        List.append_assoc]; rfl⟩
  · exact ⟨.error _, fun out => by
      rw [packHeader, if_neg h16, if_neg h256, if_neg h65536, if_neg h32]; rfl⟩

theorem appends_packString (s : String) : Appends (packString s) :=
  (appends_packHeader ..).bind (Appends.pure (utf8 s))

theorem appends_packInt (i : Int64) : Appends fun out => .ok (packInt i out) := by
  obtain ⟨e, he⟩ := roundTrips_int i
  exact ⟨.ok e, he.pack_eq⟩

theorem appends_packBytes (b : List UInt8) : Appends fun out => .ok (packBytes b out) := by
  by_cases h8 : b.length < 256
  · exact ⟨.ok _,
      fun out => by simp only [packBytes, if_pos h8, tagged, List.append_assoc]; rfl⟩
  by_cases h16 : b.length < 65536
  · exact ⟨.ok _, fun out => by
      simp only [packBytes, if_neg h8, if_pos h16, tagged, List.append_assoc]; rfl⟩
  · exact ⟨.ok _, fun out => by
      simp only [packBytes, if_neg h8, if_neg h16, tagged, List.append_assoc]; rfl⟩

mutual
theorem appends_pack : ∀ v : BoltValue, Appends (pack v)
  | .null => Appends.pure [NULL]
  | .bool true => Appends.pure [TRUE]
  | .bool false => Appends.pure [FALSE]
  | .int i => appends_packInt i
  | .float bits => by
    obtain ⟨e, he⟩ := roundTrips_float bits
    exact ⟨.ok e, he.pack_eq⟩
  | .string s => appends_packString s
  | .bytes b => appends_packBytes b
  | .list items => (appends_packHeader ..).bind (appends_packSeq items)
  | .map entries => (appends_packHeader ..).bind (appends_packEntries entries)
  | .struct signature fields =>
    (appends_packHeader ..).bind ((Appends.pure [signature]).bind (appends_packSeq fields))

theorem appends_packSeq : ∀ vs : List BoltValue, Appends (packSeq vs)
  | [] => ⟨.ok [], fun out => congrArg Except.ok (List.append_nil out).symm⟩
  | v :: vs => (appends_pack v).bind (appends_packSeq vs)

theorem appends_packEntries : ∀ es : List (String × BoltValue), Appends (packEntries es)
  | [] => ⟨.ok [], fun out => congrArg Except.ok (List.append_nil out).symm⟩
  | (k, v) :: es => (appends_packString k).bind ((appends_pack v).bind (appends_packEntries es))
end

theorem length_le_of_appends {f : List UInt8 → Except BoltError (List UInt8)} (hf : Appends f)
    {out out' : List UInt8} (h : f out = .ok out') : out.length ≤ out'.length := by
  obtain ⟨e, rfl, -⟩ := hf.ok h
  simp

/-- The header check: a size it accepts is below 2^32. -/
theorem size_lt_of_packHeader {size : ℕ} {tiny m8 m16 : UInt8} {label : String}
    {out out' : List UInt8} (h : packHeader size tiny m8 m16 label out = .ok out') :
    size < 2 ^ 32 := by
  by_contra hs
  rw [packHeader, if_neg (by omega), if_neg (by omega), if_neg (by omega), if_neg hs] at h
  cases h

theorem length_le_packBytes (b out : List UInt8) : b.length ≤ (packBytes b out).length := by
  simp only [packBytes]
  split_ifs <;> simp

mutual
/-- An output below 4 GiB has no room for a size that does not fit its field. -/
theorem sized_of_pack : ∀ (v : BoltValue) {out out' : List UInt8}, pack v out = .ok out' →
    out'.length < 2 ^ 32 → v.Sized
  | .null, _, _, _, _ => trivial
  | .bool _, _, _, _, _ => trivial
  | .int _, _, _, _, _ => trivial
  | .float _, _, _, _, _ => trivial
  | .string s, out, out', h, _ => by
    obtain ⟨_, h₁, _⟩ := except_bind_eq_ok h
    exact size_lt_of_packHeader h₁
  | .bytes b, out, out', h, hl => by
    cases h
    exact (length_le_packBytes b out).trans_lt hl
  | .list items, out, out', h, hl => by
    obtain ⟨_, h₁, h₂⟩ := except_bind_eq_ok h
    exact ⟨size_lt_of_packHeader h₁, sized_of_packSeq items h₂ hl⟩
  | .map entries, out, out', h, hl => by
    obtain ⟨_, h₁, h₂⟩ := except_bind_eq_ok h
    obtain ⟨hk, hv⟩ := sized_of_packEntries entries h₂ hl
    exact ⟨⟨size_lt_of_packHeader h₁, hk⟩, hv⟩
  | .struct signature fields, out, out', h, hl => by
    obtain ⟨_, h₁, h₂⟩ := except_bind_eq_ok h
    exact ⟨size_lt_of_packHeader h₁, sized_of_packSeq fields h₂ hl⟩

theorem sized_of_packSeq : ∀ (vs : List BoltValue) {out out' : List UInt8},
    packSeq vs out = .ok out' → out'.length < 2 ^ 32 →
    BoltValue.ForallSeq BoltValue.NodeSized vs
  | [], _, _, _, _ => trivial
  | v :: vs, out, out', h, hl => by
    obtain ⟨out₁, h₁, h₂⟩ := except_bind_eq_ok h
    have hle := length_le_of_appends (appends_packSeq vs) h₂
    exact ⟨sized_of_pack v h₁ (by omega), sized_of_packSeq vs h₂ hl⟩

theorem sized_of_packEntries : ∀ (es : List (String × BoltValue)) {out out' : List UInt8},
    packEntries es out = .ok out' → out'.length < 2 ^ 32 →
      (∀ e ∈ es, (utf8 e.1).length < 2 ^ 32) ∧ BoltValue.ForallEntries BoltValue.NodeSized es
  | [], _, _, _, _ => ⟨by simp, trivial⟩
  | (k, v) :: es, out, out', h, hl => by
    obtain ⟨out₁, h₁, h₂⟩ := except_bind_eq_ok h
    obtain ⟨out₂, h₂, h₃⟩ := except_bind_eq_ok h₂
    obtain ⟨_, hk, _⟩ := except_bind_eq_ok h₁
    have hle := length_le_of_appends (appends_packEntries es) h₃
    obtain ⟨hks, hvs⟩ := sized_of_packEntries es h₃ hl
    refine ⟨?_, sized_of_pack v h₂ (by omega), hvs⟩
    intro e he
    rcases List.mem_cons.mp he with rfl | he
    · exact size_lt_of_packHeader hk
    · exact hks e he
end

end Boltwire.PackStream
