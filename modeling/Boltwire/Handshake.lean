import Boltwire.Message

namespace Boltwire

def MAGIC : List UInt8 := [0x60, 0x60, 0xB0, 0x17]

structure Version where
  major : UInt8
  minor : UInt8
  deriving Repr, DecidableEq

namespace Version

/-- `range` accepts `minor - range ..= minor`. -/
def encodeRange (v : Version) (range : UInt8) : List UInt8 := [0, range, v.minor, v.major]

def decode (bytes : List UInt8) : Version := ⟨bytes.getD 3 0, bytes.getD 2 0⟩

def isZero (v : Version) : Bool := v.major == 0 && v.minor == 0

instance : ToString Version :=
  ⟨fun v => toString v.major.toNat ++ "." ++ toString v.minor.toNat⟩

end Version

def MAX : Version := ⟨5, 8⟩
def MIN : Version := ⟨5, 2⟩
def SUPPORTED_RANGE : String := "5.2-5.8"

/-- Whether an agreed version falls in our window. -/
def supported (v : Version) : Bool :=
  v.major == MAX.major && MIN.minor ≤ v.minor && v.minor ≤ MAX.minor

/-- Magic and proposals: the whole range first, then plain 5.2 for servers that
ignore range bytes. -/
def clientHello : List UInt8 :=
  MAGIC ++ MAX.encodeRange (MAX.minor - MIN.minor) ++ MIN.encodeRange 0 ++ List.replicate 8 0

@[simp] theorem length_clientHello : clientHello.length = 20 := rfl

def proposals (hello : List UInt8) : List (List UInt8) :=
  [4, 8, 12, 16].map fun i => (hello.drop i).take 4

/-- The slot proposes the version: an empty slot proposes nothing. -/
def Offers (slot : List UInt8) (v : Version) : Prop :=
  slot ≠ [0, 0, 0, 0] ∧ ∃ range minor : UInt8, slot = [0, range, minor, v.major] ∧
    v.minor.toNat ≤ minor.toNat ∧ minor.toNat ≤ v.minor.toNat + range.toNat

theorem offers_encodeRange {v w : Version} {range : UInt8} (hv : v.major ≠ 0) :
    Offers (v.encodeRange range) w ↔ w.major = v.major ∧ w.minor.toNat ≤ v.minor.toNat ∧
      v.minor.toNat ≤ w.minor.toNat + range.toNat := by
  unfold Offers Version.encodeRange
  constructor
  · rintro ⟨-, r, m, heq, hle, hge⟩
    simp only [List.cons.injEq, and_true, true_and] at heq
    obtain ⟨rfl, rfl, hmajor⟩ := heq
    exact ⟨hmajor.symm, hle, hge⟩
  · rintro ⟨hmajor, hle, hge⟩
    refine ⟨?_, range, v.minor, by rw [hmajor], hle, hge⟩
    simp [hv]

theorem not_offers_empty (v : Version) : ¬ Offers [0, 0, 0, 0] v := fun h => h.1 rfl

/-- The client accepts exactly the versions it has proposed. -/
theorem supported_iff_proposed (v : Version) :
    supported v = true ↔ ∃ slot ∈ proposals clientHello, Offers slot v := by
  have hslots : proposals clientHello =
      [MAX.encodeRange 6, MIN.encodeRange 0, [0, 0, 0, 0], [0, 0, 0, 0]] := rfl
  have hMAX : MAX.minor.toNat = 8 := rfl
  have hMIN : MIN.minor.toNat = 2 := rfl
  have hrange : (6 : UInt8).toNat = 6 := rfl
  have hzero : (0 : UInt8).toNat = 0 := rfl
  simp only [hslots, List.mem_cons, List.not_mem_nil, or_false, exists_eq_or_imp, exists_eq_left,
    not_offers_empty, offers_encodeRange (show MAX.major ≠ 0 by decide),
    offers_encodeRange (show MIN.major ≠ 0 by decide), show MIN.major = MAX.major from rfl,
    hMAX, hMIN, hrange, hzero, supported, Bool.and_eq_true, beq_iff_eq, decide_eq_true_eq,
    UInt8.le_iff_toNat_le]
  constructor
  · rintro ⟨⟨hmajor, hmin⟩, hmax⟩
    exact .inl ⟨hmajor, hmax, by omega⟩
  · rintro (⟨hmajor, hmax, hmin⟩ | ⟨hmajor, hmax, hmin⟩)
    · exact ⟨⟨hmajor, by omega⟩, hmax⟩
    · exact ⟨⟨hmajor, by omega⟩, by omega⟩

/-- No proposed version is the zero that declines them all. -/
theorem isZero_of_supported {v : Version} (h : supported v = true) : v.isZero = false := by
  unfold supported at h
  simp only [Bool.and_eq_true, beq_iff_eq] at h
  rw [Version.isZero, h.1.1]
  rfl

end Boltwire
