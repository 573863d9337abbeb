import Boltwire.Lib.SerdeRoundTrip

namespace Serde
variable {ε ω D : Type}

/-- From each its counterpart. -/
theorem exists_forall₂ {α β : Type} {R : α → β → Prop} {l : List α}
    (h : ∀ a ∈ l, ∃ b, R a b) :
    ∃ l', List.Forall₂ R l l' := by
  induction l with
  | nil => exact ⟨[], .nil⟩
  | cons a l ih =>
    obtain ⟨b, hb⟩ := h a (List.mem_cons_self ..)
    obtain ⟨l', hl'⟩ := ih fun a ha => h a (List.mem_cons_of_mem _ ha)
    exact ⟨b :: l', .cons hb hl'⟩

/-- The entries of the fields are those of a struct. -/
theorem Format.yieldsEntries_filter {F : Format ε ω} {es : List (String × Except ε ω)}
    {entries : List (String × ω)}
    (hes : (es.map Prod.fst).Nodup) (hkeys : (entries.map Prod.fst).Nodup)
    (hfields : ∀ e ∈ es, ∃ w, (e.1, w) ∈ entries ∧ F.Yields e.2 w) :
    F.YieldsEntries es (entries.filter fun e => e.1 ∈ es.map Prod.fst) := by
  obtain ⟨fs', hall⟩ := exists_forall₂ (R := fun e (f : String × ω) =>
      (e.1 = f.1 ∧ F.Yields e.2 f.2) ∧ f ∈ entries) (l := es) fun e he => by
    obtain ⟨w, hw, hy⟩ := hfields e he
    exact ⟨(e.1, w), ⟨rfl, hy⟩, hw⟩
  have hmem : ∀ f ∈ fs', f ∈ entries := by
    intro f hf
    obtain ⟨i, hi, rfl⟩ := List.getElem_of_mem hf
    exact ((List.forall₂_iff_get.mp hall).2 i (hall.length_eq ▸ hi) hi).2
  have hpairs := hall.imp fun _ _ h => h.1
  have hnames : es.map Prod.fst = fs'.map Prod.fst := map_fst_of_forall₂ hpairs
  refine ⟨fs', hpairs, ?_⟩
  apply (List.perm_ext_iff_of_nodup (hnames ▸ hes).of_map (hkeys.of_map.filter _)).mpr
  intro f
  rw [List.mem_filter, decide_eq_true_eq, hnames]
  constructor
  · intro hf
    exact ⟨hmem f hf, List.mem_map_of_mem hf⟩
  · rintro ⟨hf, hname⟩
    obtain ⟨f', hf', heq⟩ := List.mem_map.mp hname
    rwa [← List.inj_on_of_nodup_map hkeys (hmem f' hf') hf heq]

namespace Fields
variable [DeError ε] {des : Deserializer ε D} {fs : Fields ε ω}

theorem fill_of_notMem {key : String} (h : key ∉ fs.names) (d : D) (slots : Slots fs) :
    fill des key d fs slots = (do let _ ← des.ignore d; pure slots) := by
  induction fs with
  | nil => cases hd : des.ignore d <;> simp [fill, hd] <;> rfl
  | cons f fs ih =>
    obtain ⟨name, T⟩ := f
    obtain ⟨slot, slots⟩ := slots
    have hkey : key ≠ name ∧ key ∉ names fs := by simpa [names] using h
    have hfill : fill des key d ((name, T) :: fs) (slot, slots) =
        (do let slots ← fill des key d fs slots; pure (.cons slot slots)) := if_neg hkey.1
    rw [hfill, ih hkey.2]
    cases des.ignore d <;> rfl

/-- Entries of other names, if they can be ignored, change nothing. -/
theorem readMap_filter {entries : List (String × D)}
    (h : ∀ e ∈ entries, e.1 ∉ fs.names → des.ignore e.2 = .ok ()) (slots : Slots fs) :
    readMap des fs slots entries = readMap des fs slots
      (entries.filter fun e => e.1 ∈ fs.names) := by
  induction entries generalizing slots with
  | nil => rfl
  | cons e entries ih =>
    have ih := ih fun e he => h e (List.mem_cons_of_mem _ he)
    by_cases hname : e.1 ∈ fs.names
    · rw [List.filter_cons_of_pos (by simpa using hname), readMap_cons, readMap_cons]
      cases fill des e.1 e.2 fs slots with
      | error x => rfl
      | ok slots => exact ih slots
    · rw [List.filter_cons_of_neg (by simpa using hname), readMap_cons, fill_of_notMem hname,
        h e (List.mem_cons_self ..) hname]
      exact ih slots

/-- One that cannot be ignored is an error. -/
theorem ignore_of_readMap {entries : List (String × D)} {slots slots' : Slots fs}
    (h : readMap des fs slots entries = .ok slots') :
    ∀ e ∈ entries, e.1 ∉ fs.names → des.ignore e.2 = .ok () := by
  induction entries generalizing slots with
  | nil => simp
  | cons e entries ih =>
    rw [readMap_cons] at h
    intro e' he' hname
    cases hfill : fill des e.1 e.2 fs slots with
    | error x =>
      rw [hfill] at h
      cases h
    | ok slots₁ =>
      rw [hfill] at h
      rcases List.mem_cons.mp he' with rfl | he'
      · rw [fill_of_notMem hname] at hfill
        cases hd : des.ignore e'.2 with
        | error x =>
          rw [hd] at hfill
          cases hfill
        | ok u => rfl
      · exact ih h e' he' hname

variable {F : Format ε ω}

/-- A struct that has been read has ignored all else in the map. -/
theorem ignored_of_visit {entries : List (String × ω)} {ys : Tuple fs.types}
    (h : visit F.de fs (.map entries) = .ok ys) :
    ∀ e ∈ entries, e.1 ∉ fs.names → F.de.ignore e.2 = .ok () := by
  change (do finish fs (← readMap F.de fs (noSlots fs) entries)) = .ok ys at h
  cases hread : readMap F.de fs (noSlots fs) entries with
  | error x =>
    rw [hread] at h
    cases h
  | ok slots => exact ignore_of_readMap hread

/-- A struct is read from a map that has its fields, if all else in it can be ignored. -/
theorem visit_of_ignored (hfs : ∀ T ∈ fs.types, T.RoundTrips F) (hnames : fs.names.Nodup)
    (xs : Tuple fs.types) {entries : List (String × ω)} (hkeys : (entries.map Prod.fst).Nodup)
    (hfields : ∀ e ∈ fs.serialize F.ser xs, ∃ w, (e.1, w) ∈ entries ∧ F.Yields e.2 w)
    (h : ∀ e ∈ entries, e.1 ∉ fs.names → F.de.ignore e.2 = .ok ()) :
    ∃ ys, visit F.de fs (.map entries) = .ok ys ∧ Tuple.same fs.types xs ys := by
  have hfst : (fs.serialize F.ser xs).map Prod.fst = fs.names := names_serialize F.ser fs xs
  have hyields := Format.yieldsEntries_filter (hfst.symm ▸ hnames) hkeys hfields
  rw [hfst] at hyields
  obtain ⟨ys, hvisit, hsame⟩ := visit_of_yields hfs hnames xs hyields
  refine ⟨ys, ?_, hsame⟩
  change (do finish fs (← readMap F.de fs (noSlots fs) _)) = .ok ys at hvisit
  show (do finish fs (← readMap F.de fs (noSlots fs) entries)) = .ok ys
  rwa [readMap_filter h]

end Fields
end Serde
