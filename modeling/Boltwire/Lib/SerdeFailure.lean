import Boltwire.Lib.SerdeRoundTrip

namespace Serde

def Fails {ε ω : Type} (r : Except ε ω) : Prop := ∃ e, r = .error e

namespace Format
variable {ε ω : Type}

/-- A method fails only over its items, or over a `u64` that the format has no room for. -/
structure Lenient (F : Format ε ω) (TooLarge : ℤ → Prop) : Prop where
  bool {b} : ¬Fails (F.ser.bool b)
  int {ty n} : Fails (F.ser.int ty n) → ty = .u64 ∧ TooLarge n.val
  f64 {b} : ¬Fails (F.ser.f64 b)
  char {c} : ¬Fails (F.ser.char c)
  string {s} : ¬Fails (F.ser.string s)
  bytes {b} : ¬Fails (F.ser.bytes b)
  none : ¬Fails F.ser.none
  some {r} : Fails (F.ser.some r) → Fails r
  unit : ¬Fails F.ser.unit
  unitStruct : ¬Fails F.ser.unitStruct
  unitVariant {v} : ¬Fails (F.ser.unitVariant v)
  newtypeStruct {r} : Fails (F.ser.newtypeStruct r) → Fails r
  newtypeVariant {v r} : Fails (F.ser.newtypeVariant v r) → Fails r
  seq {rs} : Fails (F.ser.seq.run rs) → ∃ r ∈ rs, Fails r
  tuple {rs} : Fails (F.ser.tuple.run rs) → ∃ r ∈ rs, Fails r
  tupleStruct {rs} : Fails (F.ser.tupleStruct.run rs) → ∃ r ∈ rs, Fails r
  tupleVariant {v rs} : Fails ((F.ser.tupleVariant v).run rs) → ∃ r ∈ rs, Fails r
  map {es : List (String × Except ε ω)} :
    Fails (F.ser.map.run (es.map fun e => (F.ser.string e.1, e.2))) →
    ∃ e ∈ es, Fails e.2
  struct {es} : Fails (F.ser.struct.run es) → ∃ e ∈ es, Fails e.2
  structVariant {v es} : Fails ((F.ser.structVariant v).run es) → ∃ e ∈ es, Fails e.2

end Format

/-- A value that cannot be written has a `u64` that is too large. -/
def SerdeType.FailsOver {ε ω : Type} (T : SerdeType ε ω) (F : Format ε ω)
    (TooLarge : ℤ → Prop) : Prop :=
  ∀ x, Fails (T.serialize F.ser x) → ∃ n ∈ T.u64s x, TooLarge n

section Failure
variable {ε ω : Type} {F : Format ε ω} {TooLarge : ℤ → Prop}

theorem Tuple.exists_u64 {Ts : List (SerdeType ε ω)} (hTs : ∀ T ∈ Ts, T.FailsOver F TooLarge)
    (xs : Tuple Ts) (h : ∃ r ∈ Tuple.serialize F.ser Ts xs, Fails r) :
    ∃ n ∈ Tuple.u64s Ts xs, TooLarge n := by
  obtain ⟨r, hr, hfails⟩ := h
  induction Ts with
  | nil => cases hr
  | cons T Ts ih =>
    obtain ⟨x, xs⟩ := xs
    cases List.mem_cons.mp hr with
    | inl heq =>
      obtain ⟨n, hn, hlarge⟩ := hTs T List.mem_cons_self x (heq ▸ hfails)
      exact ⟨n, List.mem_append_left _ hn, hlarge⟩
    | inr hr =>
      obtain ⟨n, hn, hlarge⟩ := ih (fun T hT => hTs T (List.mem_cons_of_mem _ hT)) xs hr
      exact ⟨n, List.mem_append_right _ hn, hlarge⟩

theorem Fields.exists_u64 {fs : Fields ε ω} (hfs : ∀ T ∈ fs.types, T.FailsOver F TooLarge)
    (xs : Tuple fs.types) (h : ∃ e ∈ fs.serialize F.ser xs, Fails e.2) :
    ∃ n ∈ Tuple.u64s fs.types xs, TooLarge n := by
  obtain ⟨e, he, hfails⟩ := h
  apply Tuple.exists_u64 hfs
  use e.2
  exact ⟨(List.of_mem_zip he).2, hfails⟩

theorem Payload.exists_u64 (hF : F.Lenient TooLarge) {P : Payload ε ω}
    (hP : ∀ T ∈ P.types, T.FailsOver F TooLarge) {name : String} (x : P.Carrier)
    (h : Fails (P.serialize F.ser name x)) : ∃ n ∈ P.u64s x, TooLarge n := by
  cases P with
  | unit => exact absurd h hF.unitVariant
  | newtype T => exact hP T List.mem_cons_self x (hF.newtypeVariant h)
  | tuple Ts => exact Tuple.exists_u64 hP x (hF.tupleVariant h)
  | struct fs => exact Fields.exists_u64 hP x (hF.structVariant h)

theorem Variants.exists_u64 (hF : F.Lenient TooLarge) {vs : Variants ε ω}
    (hvs : ∀ v ∈ vs, ∀ T ∈ v.2.types, T.FailsOver F TooLarge) (x : Choice vs)
    (h : Fails (vs.serialize F.ser x)) : ∃ n ∈ u64s vs x, TooLarge n := by
  induction vs with
  | nil => cases x
  | cons v vs ih =>
    cases x with
    | inl x => exact Payload.exists_u64 hF (hvs v List.mem_cons_self) x h
    | inr x => exact ih (fun v hv => hvs v (List.mem_cons_of_mem _ hv)) x h

namespace SerdeType
variable [DeError ε] {T : SerdeType ε ω}

theorem int_failsOver (hF : F.Lenient TooLarge) (ty : IntTy) :
    (int ty : SerdeType ε ω).FailsOver F TooLarge := by
  intro n h
  obtain ⟨hty, hlarge⟩ := hF.int h
  use n.val
  constructor
  · simp [int, hty]
  · exact hlarge

theorem option_failsOver (hF : F.Lenient TooLarge) (hT : T.FailsOver F TooLarge) :
    T.option.FailsOver F TooLarge := by
  intro x h
  cases x with
  | none => exact absurd h hF.none
  | some x => exact hT x (hF.some h)

theorem seq_failsOver (hF : F.Lenient TooLarge) (hT : T.FailsOver F TooLarge) :
    T.seq.FailsOver F TooLarge := by
  intro xs h
  obtain ⟨r, hr, hfails⟩ := hF.seq h
  obtain ⟨x, hx, rfl⟩ := List.mem_map.mp hr
  obtain ⟨n, hn, hlarge⟩ := hT x hfails
  exact ⟨n, List.mem_flatMap.mpr ⟨x, hx, hn⟩, hlarge⟩

theorem map_failsOver (hF : F.Lenient TooLarge) (hT : T.FailsOver F TooLarge) :
    (map string T).FailsOver F TooLarge := by
  intro m h
  have hmap : (m.toList.map fun e => (F.ser.string e.1, T.serialize F.ser e.2)) =
      (m.toList.map fun e => (e.1, T.serialize F.ser e.2)).map
        fun e => (F.ser.string e.1, e.2) := by
    rw [List.map_map]
    rfl
  change Fails (F.ser.map.run (m.toList.map fun e =>
    (F.ser.string e.1, T.serialize F.ser e.2))) at h
  rw [hmap] at h
  obtain ⟨r, hr, hfails⟩ := hF.map h
  obtain ⟨e, he, rfl⟩ := List.mem_map.mp hr
  obtain ⟨n, hn, hlarge⟩ := hT e.2 hfails
  exact ⟨n, List.mem_flatMap.mpr ⟨e, he, List.mem_append_right _ hn⟩, hlarge⟩

theorem Built.failsOver (hF : F.Lenient TooLarge) (hT : T.Built F) : T.FailsOver F TooLarge := by
  induction hT with
  | bool => exact fun _ h => absurd h hF.bool
  | int ty => exact int_failsOver hF ty
  | f64 => exact fun _ h => absurd h hF.f64
  | char => exact fun _ h => absurd h hF.char
  | string => exact fun _ h => absurd h hF.string
  | byteBuf => exact fun _ h => absurd h hF.bytes
  | unit => exact fun _ h => absurd h hF.unit
  | unitStruct => exact fun _ h => absurd h hF.unitStruct
  | newtypeStruct _ ih => exact fun x h => ih x (hF.newtypeStruct h)
  | option _ _ ih => exact option_failsOver hF ih
  | seq _ ih => exact seq_failsOver hF ih
  | tuple _ ih => exact fun xs h => Tuple.exists_u64 ih xs (hF.tuple h)
  | tupleStruct _ ih => exact fun xs h => Tuple.exists_u64 ih xs (hF.tupleStruct h)
  | map _ ih => exact map_failsOver hF ih
  | struct _ _ ih => exact fun xs h => Fields.exists_u64 ih xs (hF.struct h)
  | enum _ _ _ ih => exact fun x h => Variants.exists_u64 hF ih x h

end SerdeType

end Failure

end Serde
