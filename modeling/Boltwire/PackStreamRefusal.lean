import Boltwire.PackStreamCanonical

namespace Boltwire

namespace BoltValue

def NodeBytesSized : BoltValue → Prop
  | bytes b => b.length < 2 ^ 32
  | _ => True

/-- This value, unless it is a byte array, fits the format's size fields. -/
def NodeChecked : BoltValue → Prop
  | bytes _ => True
  | v => v.NodeSized

mutual
theorem forall_and {p q : BoltValue → Prop} :
    ∀ v : BoltValue, v.Forall (fun v => p v ∧ q v) ↔ v.Forall p ∧ v.Forall q
  | list items => by
    simp only [Forall, forallSeq_and items]
    tauto
  | map entries => by
    simp only [Forall, forallEntries_and entries]
    tauto
  | struct _ fields => by
    simp only [Forall, forallSeq_and fields]
    tauto
  | null => Iff.rfl
  | bool _ => Iff.rfl
  | int _ => Iff.rfl
  | float _ => Iff.rfl
  | string _ => Iff.rfl
  | bytes _ => Iff.rfl

theorem forallSeq_and {p q : BoltValue → Prop} : ∀ vs : List BoltValue,
    ForallSeq (fun v => p v ∧ q v) vs ↔ ForallSeq p vs ∧ ForallSeq q vs
  | [] => by simp [ForallSeq]
  | v :: vs => by
    simp only [ForallSeq, forall_and v, forallSeq_and vs]
    tauto

theorem forallEntries_and {p q : BoltValue → Prop} : ∀ es : List (String × BoltValue),
    ForallEntries (fun v => p v ∧ q v) es ↔ ForallEntries p es ∧ ForallEntries q es
  | [] => by simp [ForallEntries]
  | (_, v) :: es => by
    simp only [ForallEntries, forall_and v, forallEntries_and es]
    tauto
end

theorem nodeSized_iff : NodeSized = fun v => NodeBytesSized v ∧ NodeChecked v := by
  funext v
  cases v <;> simp [NodeSized, NodeBytesSized, NodeChecked]

theorem sized_iff (v : BoltValue) :
    v.Sized ↔ v.Forall NodeBytesSized ∧ v.Forall NodeChecked := by
  rw [Sized, nodeSized_iff, forall_and]

end BoltValue

namespace PackStream

/-- `f` succeeds exactly if `p`, whatever it appends to. -/
def Accepts (f : List UInt8 → Except BoltError (List UInt8)) (p : Prop) : Prop :=
  ∀ out, (∃ out', f out = .ok out') ↔ p

theorem Accepts.bind {f g : List UInt8 → Except BoltError (List UInt8)} {p q : Prop}
    (hf : Accepts f p) (hg : Accepts g q) : Accepts (fun out => f out >>= g) (p ∧ q) := by
  intro out
  constructor
  · rintro ⟨out', h⟩
    obtain ⟨out₁, h₁, h₂⟩ := except_bind_eq_ok h
    exact ⟨(hf out).mp ⟨out₁, h₁⟩, (hg out₁).mp ⟨out', h₂⟩⟩
  · rintro ⟨hp, hq⟩
    obtain ⟨out₁, h₁⟩ := (hf out).mpr hp
    obtain ⟨out', h₂⟩ := (hg out₁).mpr hq
    refine ⟨out', ?_⟩
    simp only [h₁]
    exact h₂

theorem accepts_ok (f : List UInt8 → List UInt8) : Accepts (fun out => .ok (f out)) True :=
  fun out => ⟨fun _ => trivial, fun _ => ⟨f out, rfl⟩⟩

theorem accepts_packHeader (n : ℕ) (tiny m8 m16 : UInt8) (label : String) :
    Accepts (packHeader n tiny m8 m16 label) (n < 2 ^ 32) := by
  intro out
  constructor
  · rintro ⟨_, h⟩
    exact size_lt_of_packHeader h
  · intro hn
    unfold packHeader
    split_ifs
    all_goals exact ⟨_, rfl⟩

theorem accepts_packString (s : String) : Accepts (packString s) ((utf8 s).length < 2 ^ 32) := by
  have h := (accepts_packHeader (utf8 s).length TINY_STRING STRING_8 STRING_16 "string").bind
    (accepts_ok fun out => out ++ utf8 s)
  rw [and_true] at h
  exact h

mutual
theorem accepts_pack : ∀ v : BoltValue, Accepts (pack v) (v.Forall BoltValue.NodeChecked)
  | .null => accepts_ok _
  | .bool true => accepts_ok _
  | .bool false => accepts_ok _
  | .int i => accepts_ok (packInt i)
  | .float _ => accepts_ok _
  | .string s => accepts_packString s
  | .bytes b => accepts_ok (packBytes b)
  | .list items => (accepts_packHeader _ _ _ _ _).bind (accepts_packSeq items)
  | .map entries => by
    have h := (accepts_packHeader entries.length TINY_MAP MAP_8 MAP_16 "map").bind
      (accepts_packEntries entries)
    rw [← and_assoc] at h
    exact h
  | .struct signature fields =>
    (accepts_packHeader _ _ _ _ _).bind fun out => accepts_packSeq fields (out ++ [signature])

theorem accepts_packSeq : ∀ vs : List BoltValue,
    Accepts (packSeq vs) (BoltValue.ForallSeq BoltValue.NodeChecked vs)
  | [] => accepts_ok id
  | v :: vs => (accepts_pack v).bind (accepts_packSeq vs)

theorem accepts_packEntries : ∀ es : List (String × BoltValue), Accepts (packEntries es)
    ((∀ e ∈ es, (utf8 e.1).length < 2 ^ 32) ∧
      BoltValue.ForallEntries BoltValue.NodeChecked es)
  | [] => fun out => ⟨fun _ => ⟨by simp, trivial⟩, fun _ => ⟨out, rfl⟩⟩
  | (k, v) :: es => by
    have h := (accepts_packString k).bind ((accepts_pack v).bind (accepts_packEntries es))
    have hiff : (utf8 k).length < 2 ^ 32 ∧ v.Forall BoltValue.NodeChecked ∧
        (∀ e ∈ es, (utf8 e.1).length < 2 ^ 32) ∧
        BoltValue.ForallEntries BoltValue.NodeChecked es ↔
        (∀ e ∈ (k, v) :: es, (utf8 e.1).length < 2 ^ 32) ∧
          BoltValue.ForallEntries BoltValue.NodeChecked ((k, v) :: es) := by
      simp only [List.forall_mem_cons, BoltValue.ForallEntries]
      tauto
    intro out
    exact (h out).trans hiff
end

/-- The size a header announces: the low half of its only byte, or the field
behind its marker. -/
def announcedSize : List UInt8 → ℕ
  | [] => 0
  | [marker] => (marker &&& 0x0F).toNat
  | _ :: field => BigEndian.decode field

def HeaderOf (n : ℕ) (h : List UInt8) : Prop := h.length = headerLength n ∧ announcedSize h = n

mutual
/-- `e` is an encoding of `v` in which every header announces exactly the
bytes or elements behind it. -/
def Headed : BoltValue → List UInt8 → Prop
  | .string s, e => ∃ h, e = h ++ utf8 s ∧ HeaderOf (utf8 s).length h
  -- byte arrays have no one-byte header
  | .bytes b, e => ∃ h, e = h ++ b ∧ h.length = bytesHeaderLength b.length ∧
      announcedSize h = b.length
  | .list items, e => ∃ h body, e = h ++ body ∧ HeaderOf items.length h ∧ HeadedSeq items body
  | .map entries, e => ∃ h body, e = h ++ body ∧ HeaderOf entries.length h ∧
      HeadedEntries entries body
  | .struct signature fields, e => ∃ h body, e = h ++ signature :: body ∧
      HeaderOf fields.length h ∧ HeadedSeq fields body
  -- the others have no size field
  | v, e => e.length = packedLength v

def HeadedSeq : List BoltValue → List UInt8 → Prop
  | [], e => e = []
  | v :: vs, e => ∃ e₁ e₂, e = e₁ ++ e₂ ∧ Headed v e₁ ∧ HeadedSeq vs e₂

def HeadedEntries : List (String × BoltValue) → List UInt8 → Prop
  | [], e => e = []
  | (k, v) :: es, e => ∃ h e₁ e₂, e = h ++ utf8 k ++ e₁ ++ e₂ ∧
      HeaderOf (utf8 k).length h ∧ Headed v e₁ ∧ HeadedEntries es e₂
end

theorem announcedSize_field {w n : ℕ} {marker : UInt8} (hw : 0 < w) :
    announcedSize (marker :: BigEndian.encode w n) = n % 256 ^ w := by
  obtain ⟨b, field, hf⟩ : ∃ b field, BigEndian.encode w n = b :: field := by
    apply List.exists_cons_of_length_pos
    rw [BigEndian.encode_length]
    exact hw
  have hd := BigEndian.decode_encode w n
  rw [hf] at hd ⊢
  exact hd

theorem announcedSize_tiny {n : ℕ} (hn : n < 16) {tiny : UInt8} (htiny : tiny.toNat % 16 = 0) :
    announcedSize [tiny ||| UInt8.ofNat n] = n := by
  have hofNat : (UInt8.ofNat n).toNat = n := by
    rw [UInt8.toNat_ofNat']
    omega
  have h15 : (0x0F : UInt8).toNat = 2 ^ 4 - 1 := rfl
  rw [announcedSize, UInt8.toNat_and, h15, Nat.and_two_pow_sub_one_eq_mod, UInt8.toNat_or,
    Nat.or_mod_two_pow, hofNat, htiny, Nat.zero_or]
  omega

theorem headerOf_packHeader {n : ℕ} {tiny m8 m16 : UInt8} {label : String}
    (htiny : tiny.toNat % 16 = 0) {out out' : List UInt8}
    (h : packHeader n tiny m8 m16 label out = .ok out') :
    ∃ e, out' = out ++ e ∧ HeaderOf n e := by
  have hlen := length_packHeader h
  have h32 := size_lt_of_packHeader h
  suffices hs : ∃ e, out' = out ++ e ∧ announcedSize e = n by
    obtain ⟨e, rfl, he⟩ := hs
    rw [List.length_append] at hlen
    exact ⟨e, rfl, by omega, he⟩
  unfold packHeader at h
  split_ifs at h with h16 h256 h65536
  all_goals
    cases h
  · exact ⟨_, rfl, announcedSize_tiny h16 htiny⟩
  all_goals
    refine ⟨_, List.append_assoc out _ _, ?_⟩
    rw [List.singleton_append, announcedSize_field (by omega), Nat.mod_eq_of_lt (by omega)]

theorem headed_packString {s : String} {out out' : List UInt8} (h : packString s out = .ok out') :
    ∃ e, out' = out ++ (e ++ utf8 s) ∧ HeaderOf (utf8 s).length e := by
  obtain ⟨out₁, h₁, h₂⟩ := except_bind_eq_ok h
  obtain ⟨e, rfl, he⟩ := headerOf_packHeader (by decide) h₁
  cases h₂
  exact ⟨e, List.append_assoc out e _, he⟩

/-- The header of a byte array holds the low 32 bits of its length. -/
theorem announcedSize_packBytes (b out : List UInt8) : ∃ e, packBytes b out = out ++ (e ++ b) ∧
    e.length = bytesHeaderLength b.length ∧ announcedSize e = b.length % 2 ^ 32 := by
  have hlen := length_packBytes b out
  suffices hs : ∃ e, packBytes b out = out ++ (e ++ b) ∧ announcedSize e = b.length % 2 ^ 32 by
    obtain ⟨e, h, he⟩ := hs
    rw [h, List.length_append, List.length_append] at hlen
    exact ⟨e, h, by omega, he⟩
  have htagged : ∀ (marker : UInt8) (field : List UInt8),
      tagged out marker field ++ b = out ++ (marker :: field ++ b) := by simp [tagged]
  unfold packBytes
  dsimp only
  split_ifs
  all_goals
    refine ⟨_, htagged _ _, ?_⟩
    rw [announcedSize_field (by omega)]
    omega

mutual
theorem headed_pack : ∀ (v : BoltValue), v.Forall BoltValue.NodeBytesSized →
    ∀ {out out' : List UInt8}, pack v out = .ok out' → ∃ e, out' = out ++ e ∧ Headed v e
  | .null, _, _, _, h => by cases h; exact ⟨_, rfl, rfl⟩
  | .bool true, _, _, _, h => by cases h; exact ⟨_, rfl, rfl⟩
  | .bool false, _, _, _, h => by cases h; exact ⟨_, rfl, rfl⟩
  | .int i, _, out, out', h => by
    have hlen := length_pack (.int i) h
    obtain ⟨e, rfl, -⟩ := (appends_pack (.int i)).ok h
    rw [List.length_append] at hlen
    exact ⟨e, rfl, Nat.add_left_cancel hlen⟩
  | .float bits, _, out, out', h => by
    have hlen := length_pack (.float bits) h
    obtain ⟨e, rfl, -⟩ := (appends_pack (.float bits)).ok h
    rw [List.length_append] at hlen
    exact ⟨e, rfl, Nat.add_left_cancel hlen⟩
  | .string s, _, out, out', h => by
    obtain ⟨e, rfl, he⟩ := headed_packString h
    exact ⟨_, rfl, e, rfl, he⟩
  -- the size field of a byte array is its length modulo 2^32
  | .bytes b, hb, out, out', h => by
    cases h
    obtain ⟨e, hp, hl, ha⟩ := announcedSize_packBytes b out
    rw [Nat.mod_eq_of_lt hb] at ha
    exact ⟨_, hp, e, rfl, hl, ha⟩
  | .list items, hs, out, out', h => by
    obtain ⟨out₁, h₁, h₂⟩ := except_bind_eq_ok h
    obtain ⟨e, rfl, he⟩ := headerOf_packHeader (by decide) h₁
    obtain ⟨body, rfl, hbody⟩ := headed_packSeq items hs.2 h₂
    exact ⟨_, List.append_assoc out e body, e, body, rfl, he, hbody⟩
  | .map entries, hs, out, out', h => by
    obtain ⟨out₁, h₁, h₂⟩ := except_bind_eq_ok h
    obtain ⟨e, rfl, he⟩ := headerOf_packHeader (by decide) h₁
    obtain ⟨body, rfl, hbody⟩ := headed_packEntries entries hs.2 h₂
    exact ⟨_, List.append_assoc out e body, e, body, rfl, he, hbody⟩
  | .struct signature fields, hs, out, out', h => by
    obtain ⟨out₁, h₁, h₂⟩ := except_bind_eq_ok h
    obtain ⟨e, rfl, he⟩ := headerOf_packHeader (by decide) h₁
    obtain ⟨body, rfl, hbody⟩ := headed_packSeq fields hs.2 h₂
    refine ⟨e ++ signature :: body, ?_, e, body, rfl, he, hbody⟩
    simp only [List.append_assoc, List.singleton_append]

theorem headed_packSeq : ∀ (vs : List BoltValue),
    BoltValue.ForallSeq BoltValue.NodeBytesSized vs → ∀ {out out' : List UInt8},
      packSeq vs out = .ok out' → ∃ e, out' = out ++ e ∧ HeadedSeq vs e
  | [], _, out, _, h => by cases h; exact ⟨[], (List.append_nil out).symm, rfl⟩
  | v :: vs, hs, out, out', h => by
    obtain ⟨out₁, h₁, h₂⟩ := except_bind_eq_ok h
    obtain ⟨e₁, rfl, he₁⟩ := headed_pack v hs.1 h₁
    obtain ⟨e₂, rfl, he₂⟩ := headed_packSeq vs hs.2 h₂
    exact ⟨_, List.append_assoc out e₁ e₂, e₁, e₂, rfl, he₁, he₂⟩

theorem headed_packEntries : ∀ (es : List (String × BoltValue)),
    BoltValue.ForallEntries BoltValue.NodeBytesSized es → ∀ {out out' : List UInt8},
      packEntries es out = .ok out' → ∃ e, out' = out ++ e ∧ HeadedEntries es e
  | [], _, out, _, h => by cases h; exact ⟨[], (List.append_nil out).symm, rfl⟩
  | (k, v) :: es, hs, out, out', h => by
    obtain ⟨out₁, h₁, h⟩ := except_bind_eq_ok h
    obtain ⟨out₂, h₂, h₃⟩ := except_bind_eq_ok h
    obtain ⟨e, rfl, he⟩ := headed_packString h₁
    obtain ⟨e₁, rfl, he₁⟩ := headed_pack v hs.1 h₂
    obtain ⟨e₂, rfl, he₂⟩ := headed_packEntries es hs.2 h₃
    refine ⟨e ++ utf8 k ++ e₁ ++ e₂, ?_, e, e₁, e₂, rfl, he, he₁, he₂⟩
    simp only [List.append_assoc]
end

/-- `pack` refuses `v` exactly if some nested length does not fit 32 bits, and
writes no header that disagrees with what follows it. -/
def RefusesExactly (v : BoltValue) : Prop :=
  ∀ out, ((∃ e, pack v out = .error e) ↔ ¬ v.Sized) ∧
    ∀ out', pack v out = .ok out' → ∃ e, out' = out ++ e ∧ Headed v e

theorem refused_iff (v : BoltValue) (out : List UInt8) :
    (∃ e, pack v out = .error e) ↔ ¬ v.Forall BoltValue.NodeChecked := by
  rw [← accepts_pack v out]
  cases pack v out <;> simp

/-- `pack` is exact on `v` unless a byte array of 4 GiB or more is the only
thing in `v` that does not fit: nothing checks that length, and its header
then holds the low 32 bits. -/
theorem refusesExactly_iff (v : BoltValue) : RefusesExactly v ↔
    v.Forall BoltValue.NodeBytesSized ∨ ¬ v.Forall BoltValue.NodeChecked := by
  constructor
  · intro h
    have hiff := (h []).1
    rw [refused_iff, BoltValue.sized_iff] at hiff
    tauto
  · intro h out
    rw [refused_iff, BoltValue.sized_iff]
    constructor
    · tauto
    · intro out' hp
      have hchecked := (accepts_pack v out).mp ⟨out', hp⟩
      exact headed_pack v (h.resolve_right (not_not_intro hchecked)) hp

def hugeBytes : List UInt8 := List.replicate (2 ^ 32) 0

/-- They are accepted, under a header that announces no bytes at all. -/
theorem hugeBytes_not_refused : ¬ RefusesExactly (.bytes hugeBytes) ∧
    ∃ h, pack (.bytes hugeBytes) [] = .ok (h ++ hugeBytes) ∧ announcedSize h = 0 := by
  have hlen : hugeBytes.length = 2 ^ 32 := List.length_replicate
  constructor
  · intro h
    have hsized : ¬ (BoltValue.bytes hugeBytes).Sized := by
      intro hs
      exact absurd hlen (Nat.ne_of_lt hs)
    obtain ⟨e, he⟩ := (h []).1.mpr hsized
    cases he
  · obtain ⟨h, hp, -, ha⟩ := announcedSize_packBytes hugeBytes []
    rw [hlen, Nat.mod_self] at ha
    exact ⟨h, congrArg Except.ok hp, ha⟩

end PackStream
end Boltwire
