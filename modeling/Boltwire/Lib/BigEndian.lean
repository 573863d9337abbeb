import Mathlib.Tactic

namespace BigEndian

/-- The `w` low bytes of `n`, most significant first. -/
def encode : ℕ → ℕ → List UInt8
  | 0, _ => []
  | w + 1, n => encode w (n / 256) ++ [UInt8.ofNat n]

def decode (bs : List UInt8) : ℕ := bs.foldl (fun acc b => acc * 256 + b.toNat) 0

@[simp] theorem encode_length (w n : ℕ) : (encode w n).length = w := by
  induction w generalizing n with
  | zero => rfl
  | succ w ih => simp [encode, ih]

theorem decode_concat (bs : List UInt8) (b : UInt8) :
    decode (bs ++ [b]) = decode bs * 256 + b.toNat := by
  simp [decode]

theorem decode_encode (w n : ℕ) : decode (encode w n) = n % 256 ^ w := by
  induction w generalizing n with
  | zero => simp [encode, decode, Nat.mod_one]
  | succ w ih =>
    have hb : (UInt8.ofNat n).toNat = n % 256 := UInt8.toNat_ofNat'
    have h := Nat.mod_mul (x := n) (a := 256) (b := 256 ^ w)
    rw [encode, decode_concat, ih, hb, Nat.pow_succ', h]
    ring

theorem decode_lt (bs : List UInt8) : decode bs < 256 ^ bs.length := by
  induction bs using List.reverseRecOn with
  | nil => simp [decode]
  | append_singleton bs b ih =>
    have hb : b.toNat < 256 := b.toNat_lt
    rw [decode_concat, List.length_append, List.length_singleton, pow_succ]
    omega

/-- Nothing is lost when the number fits. -/
theorem decode_encode_of_lt {w n : ℕ} (h : n < 256 ^ w) : decode (encode w n) = n := by
  rw [decode_encode, Nat.mod_eq_of_lt h]

/-- Reading `w` bytes as a two's complement number. -/
def decodeSigned (w : ℕ) (bs : List UInt8) : ℤ := (BitVec.ofNat (8 * w) (decode bs)).toInt

theorem decodeSigned_bounds (w : ℕ) (bs : List UInt8) :
    -2 ^ (8 * w - 1) ≤ decodeSigned w bs ∧ decodeSigned w bs < 2 ^ (8 * w - 1) :=
  ⟨BitVec.le_toInt _, BitVec.toInt_lt⟩

/-- A signed number written into a width that holds it is read back unchanged. -/
theorem decodeSigned_encode {w m : ℕ} (x : BitVec m) (hm : 8 * w ≤ m)
    (hlo : -2 ^ (8 * w - 1) ≤ x.toInt) (hhi : x.toInt < 2 ^ (8 * w - 1)) (hw : 0 < w) :
    decodeSigned w (encode w x.toNat) = x.toInt := by
  have hp : (256 : ℕ) ^ w = 2 ^ (8 * w) := by rw [pow_mul]; norm_num
  have hmod : BitVec.ofNat (8 * w) (x.toNat % 256 ^ w) = x.setWidth (8 * w) := by
    apply BitVec.eq_of_toNat_eq
    simp [hp]
  rw [decodeSigned, decode_encode, hmod, BitVec.toInt_setWidth]
  have hx : ((x.toNat : ℤ)).bmod (2 ^ (8 * w)) = x.toInt.bmod (2 ^ (8 * w)) := by
    rw [BitVec.toInt_eq_toNat_bmod, Int.bmod_bmod_of_dvd]
    exact_mod_cast Nat.pow_dvd_pow 2 hm
  rw [hx]
  obtain ⟨k, hk⟩ : ∃ k, 8 * w = k + 1 := ⟨8 * w - 1, by omega⟩
  rw [hk] at hlo hhi ⊢
  simp only [Nat.add_sub_cancel] at hlo hhi
  apply Int.bmod_eq_of_le
  · push_cast [pow_succ]; omega
  · push_cast [pow_succ]; omega

end BigEndian
