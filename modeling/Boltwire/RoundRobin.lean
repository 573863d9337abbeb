import Boltwire.RoutedPool

namespace Boltwire.RoutedPool

/-- `(start + i) % len` in words of `w` bits, the sum wrapped. -/
def lapIndex (w start len i : ℕ) : ℕ := (start + i) % 2 ^ w % len

def SumOverflows (w start i : ℕ) : Prop := 2 ^ w ≤ start + i

instance (w start i : ℕ) : Decidable (SumOverflows w start i) := Nat.decLe _ _

/-- Every index below `len` comes up once in a lap, and no sum overflows. -/
def LapCovers (w start len : ℕ) : Prop :=
  (∀ i < len, ¬ SumOverflows w start i) ∧
    ((List.range len).map (lapIndex w start len)).Perm (List.range len)

theorem Lap.addr_eq (lap : Lap) :
    lap.addr = lap.addrs.getD (lapIndex 64 lap.start lap.addrs.length lap.i) "" := rfl

/-- Without overflow a lap lists the indices in cyclic order from the cursor. -/
theorem map_lapIndex {w start len : ℕ} (h : start + len ≤ 2 ^ w) :
    (List.range len).map (lapIndex w start len) = (List.range len).rotate start := by
  apply List.ext_getElem
  · simp
  · intro i hi hi'
    have hlt : i < len := by simpa using hi
    have hsum : (start + i) % 2 ^ w = start + i := Nat.mod_eq_of_lt (by omega)
    simp only [List.getElem_map, List.getElem_range, List.getElem_rotate, List.length_range,
      lapIndex, hsum, Nat.add_comm]

/-- A lap covers every server exactly if the last sum is within the word. -/
theorem lapCovers_iff {w start len : ℕ} (hlen : 0 < len) :
    LapCovers w start len ↔ start + len ≤ 2 ^ w := by
  constructor
  · intro h
    have hlast := h.1 (len - 1) (by omega)
    unfold SumOverflows at hlast
    omega
  · intro h
    constructor
    · intro i hi
      unfold SumOverflows
      omega
    · rw [map_lapIndex h]
      exact List.rotate_perm _ _

theorem lap_of_three_covers : 0 < 3 ∧ LapCovers 64 (2 ^ 64 - 3) 3 :=
  ⟨by decide, (lapCovers_iff (by decide)).mpr (by decide)⟩

/-- At the top of the cursor the second sum of a lap over three servers overflows. Where it
wraps, the lap takes the first server twice and leaves out the third. -/
theorem lap_at_top_skips : 2 ^ 64 - 1 < 2 ^ 64 ∧ SumOverflows 64 (2 ^ 64 - 1) 1 ∧
    (List.range 3).map (lapIndex 64 (2 ^ 64 - 1) 3) = [0, 0, 1] ∧
    ¬ LapCovers 64 (2 ^ 64 - 1) 3 := by
  refine ⟨by decide, by decide, by decide, ?_⟩
  intro h
  exact h.1 1 (by decide) (by decide)

/-- The addresses in the order in which a lap tries them. -/
theorem Lap.addr_of_rotate {lap : Lap} (hi : lap.i < lap.addrs.length)
    (h : lap.start + lap.addrs.length ≤ 2 ^ 64) :
    (lap.addrs.rotate lap.start)[lap.i]? = some lap.addr := by
  have hsum : (lap.start + lap.i) % 2 ^ 64 = lap.start + lap.i := Nat.mod_eq_of_lt (by omega)
  have hlt : (lap.i + lap.start) % lap.addrs.length < lap.addrs.length :=
    Nat.mod_lt _ (by omega)
  rw [List.getElem?_rotate hi, Lap.addr, hsum, Nat.add_comm lap.start,
    List.getD_eq_getElem?_getD, List.getElem?_eq_getElem hlt]
  rfl

end Boltwire.RoutedPool
