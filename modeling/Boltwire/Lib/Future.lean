import Mathlib.Tactic

inductive Outcome (ε α : Type)
  | ok (a : α)
  | err (e : ε)
  | dropped
  deriving Repr, DecidableEq

def Outcome.map {ε α β : Type} (f : α → β) : Outcome ε α → Outcome ε β
  | .ok a => .ok (f a)
  | .err e => .err e
  | .dropped => .dropped

def Outcome.error {ε α : Type} : Outcome ε α → Option ε
  | .err e => some e
  | _ => none

theorem Outcome.eq_err {ε α : Type} {o : Outcome ε α} {e : ε} (h : o.error = some e) :
    o = .err e := by
  cases o with
  | err e' =>
    cases h
    rfl
  | ok a => cases h
  | dropped => cases h

def Outcome.isOk {ε α : Type} : Outcome ε α → Bool
  | .ok _ => true
  | _ => false

/-- It runs on a state and ends with a value, with an error, or because whoever awaited it
dropped it at a suspension point. The state it leaves is meaningful in all three. -/
def Future (σ ε α : Type) : Type := σ → Outcome ε α × σ

namespace Future
variable {σ τ ε α β : Type}

instance : Monad (Future σ ε) where
  pure a := fun s => (.ok a, s)
  bind f g := fun s => match f s with
    | (.ok a, s') => g a s'
    | (.err e, s') => (.err e, s')
    | (.dropped, s') => (.dropped, s')

def get : Future σ ε σ := fun s => (.ok s, s)

def modify (f : σ → σ) : Future σ ε Unit := fun s => (.ok (), f s)

def throw (e : ε) : Future σ ε α := fun s => (.err e, s)

/-- An `Except` as a future that does not suspend. -/
def ofExcept : Except ε α → Future σ ε α
  | .ok a => pure a
  | .error e => throw e

/-- Hand an error to the caller as a value; a dropped future stays dropped. -/
def attempt (f : Future σ ε α) : Future σ ε (Except ε α) := fun s =>
  match f s with
  | (.ok a, s') => (.ok (.ok a), s')
  | (.err e, s') => (.ok (.error e), s')
  | (.dropped, s') => (.dropped, s')

def zoom (part : τ → σ) (update : σ → τ → τ) (f : Future σ ε α) : Future τ ε α :=
  fun t => ((f (part t)).1, update (f (part t)).2 t)

/-- Run `cleanup` however `f` ends: the destructor of a value `f` owns. -/
def dropping (f : Future σ ε α) (cleanup : σ → σ) : Future σ ε α := fun s =>
  ((f s).1, cleanup (f s).2)

def loopN (body : β → Future σ ε (β ⊕ α)) : ℕ → β → Future σ ε α
  | 0, _ => fun s => (.dropped, s)
  | n + 1, b => do
    match ← body b with
    | .inl b => loopN body n b
    | .inr a => pure a

/-- Repeat `body` until it returns on the right. `fuel` is an upper bound, read
off the state, on the rounds that can complete. -/
def loop (fuel : σ → ℕ) (body : β → Future σ ε (β ⊕ α)) (b : β) : Future σ ε α :=
  fun s => loopN body (fuel s + 1) b s

def wp (f : Future σ ε α) (Q : Outcome ε α → σ → Prop) (s : σ) : Prop :=
  Q (f s).1 (f s).2

def andThen (g : α → Future σ ε β) (Q : Outcome ε β → σ → Prop) :
    Outcome ε α → σ → Prop
  | .ok a => wp (g a) Q
  | .err e => Q (.err e)
  | .dropped => Q .dropped

theorem wp_mono {f : Future σ ε α} {Q R : Outcome ε α → σ → Prop} {s : σ} (h : wp f Q s)
    (hQR : ∀ o s', Q o s' → R o s') : wp f R s :=
  hQR _ _ h

theorem wp_of_eq {f : Future σ ε α} {Q : Outcome ε α → σ → Prop} {s s' : σ}
    {o : Outcome ε α} (h : wp f Q s) (hf : f s = (o, s')) : Q o s' := by
  rwa [wp, hf] at h

@[simp] theorem wp_pure (a : α) (Q : Outcome ε α → σ → Prop) (s : σ) :
    wp (pure a) Q s ↔ Q (.ok a) s := Iff.rfl

@[simp] theorem wp_get (Q : Outcome ε σ → σ → Prop) (s : σ) :
    wp get Q s ↔ Q (.ok s) s := Iff.rfl

@[simp] theorem wp_modify (f : σ → σ) (Q : Outcome ε Unit → σ → Prop) (s : σ) :
    wp (modify f) Q s ↔ Q (.ok ()) (f s) := Iff.rfl

@[simp] theorem wp_throw (e : ε) (Q : Outcome ε α → σ → Prop) (s : σ) :
    wp (throw e) Q s ↔ Q (.err e) s := Iff.rfl

theorem wp_bind {f : Future σ ε α} {g : α → Future σ ε β}
    {Q : Outcome ε β → σ → Prop} {s : σ} :
    wp (f >>= g) Q s ↔ wp f (andThen g Q) s := by
  unfold wp
  cases h : f s with
  | mk o s' => cases o <;> simp [bind, h, andThen, wp]

theorem wp_attempt {f : Future σ ε α} {Q : Outcome ε (Except ε α) → σ → Prop} {s : σ} :
    wp (attempt f) Q s ↔ wp f (fun
      | .ok a => Q (.ok (.ok a))
      | .err e => Q (.ok (.error e))
      | .dropped => Q .dropped) s := by
  unfold wp attempt
  cases h : f s with
  | mk o s' => cases o <;> simp

theorem wp_zoom {part : τ → σ} {update : σ → τ → τ} {f : Future σ ε α}
    {Q : Outcome ε α → τ → Prop} {t : τ} :
    wp (zoom part update f) Q t ↔ wp f (fun o s => Q o (update s t)) (part t) := Iff.rfl

theorem wp_dropping {f : Future σ ε α} {cleanup : σ → σ} {Q : Outcome ε α → σ → Prop}
    {s : σ} :
    wp (dropping f cleanup) Q s ↔ wp f (fun o s' => Q o (cleanup s')) s := Iff.rfl

/-- What one round of a loop owes: the invariant again, or the loop's post. -/
def nextRound (I : β → σ → Prop) (Q : Outcome ε α → σ → Prop) :
    Outcome ε (β ⊕ α) → σ → Prop
  | .ok (.inl b) => I b
  | .ok (.inr a) => Q (.ok a)
  | .err e => Q (.err e)
  | .dropped => Q .dropped

/-- The loop rule. The invariant also has to do as the post of a dropped loop. -/
theorem wp_loop {fuel : σ → ℕ} {body : β → Future σ ε (β ⊕ α)} {b : β} {s : σ}
    {Q : Outcome ε α → σ → Prop} (I : β → σ → Prop) (hI : I b s)
    (hbody : ∀ b s, I b s → wp (body b) (nextRound I Q) s)
    (hdrop : ∀ b s, I b s → Q .dropped s) : wp (loop fuel body b) Q s := by
  suffices h : ∀ n b s, I b s → wp (loopN body n b) Q s from h _ b s hI
  intro n
  induction n with
  | zero => exact fun b s hI => hdrop b s hI
  | succ n ih =>
    intro b s hI
    rw [loopN, wp_bind]
    refine wp_mono (hbody b s hI) ?_
    rintro (⟨b' | a⟩ | e | _) s' h
    · exact ih b' s' h
    · exact h
    · exact h
    · exact h

/-- `Q` if a value is returned, `E` otherwise; a dropped future has no error. -/
def post (Q : α → σ → Prop) (E : Option ε → σ → Prop) : Outcome ε α → σ → Prop
  | .ok a => Q a
  | .err e => E (some e)
  | .dropped => E none

section Post
variable {Q : α → σ → Prop} {E : Option ε → σ → Prop} {s : σ}

theorem post_elim {o : Outcome ε α} (h : post Q E o s) :
    (∃ a, o = .ok a ∧ Q a s) ∨ (∀ a, o ≠ .ok a) ∧ E o.error s := by
  cases o with
  | ok a => exact .inl ⟨a, rfl, h⟩
  | err e => exact .inr ⟨by simp, h⟩
  | dropped => exact .inr ⟨by simp, h⟩

theorem post_const {P : σ → Prop} {o : Outcome ε α} (h : post (fun _ => P) (fun _ => P) o s) :
    P s := by
  rcases post_elim h with ⟨a, -, h⟩ | ⟨-, h⟩
  · exact h
  · exact h

theorem post_mono {Q' : α → σ → Prop} {E' : Option ε → σ → Prop} {f : Future σ ε α}
    (h : wp f (post Q E) s) (hQ : ∀ a s', Q a s' → Q' a s')
    (hE : ∀ e s', E e s' → E' e s') :
    wp f (post Q' E') s := by
  refine wp_mono h ?_
  rintro (a | e | _) s' h'
  · exact hQ a s' h'
  · exact hE (some e) s' h'
  · exact hE none s' h'

theorem post_bind {R : β → σ → Prop} {f : Future σ ε α} {g : α → Future σ ε β}
    (h : wp f (post Q E) s) (hg : ∀ a s', Q a s' → wp (g a) (post R E) s') :
    wp (f >>= g) (post R E) s := by
  rw [wp_bind]
  refine wp_mono h ?_
  rintro (a | e | _) s' h'
  · exact hg a s' h'
  · exact h'
  · exact h'

/-- An operation on a part of the state, and what follows it. -/
theorem post_zoom {part : τ → σ} {update : σ → τ → τ} {f : Future σ ε α}
    {g : α → Future τ ε β} {R : β → τ → Prop} {F : Option ε → τ → Prop} {t : τ}
    (h : wp f (post Q fun e s => F e (update s t)) (part t))
    (hg : ∀ a s, Q a s → wp (g a) (post R F) (update s t)) :
    wp (zoom part update f >>= g) (post R F) t := by
  rw [wp_bind, wp_zoom]
  refine wp_mono h ?_
  rintro (a | e | _) s' h'
  · exact hg a s' h'
  · exact h'
  · exact h'

/-- An error becomes a value. -/
theorem post_attempt {P : σ → Prop} {f : Future σ ε α}
    (h : wp f (fun o s' => o ≠ .dropped → P s') s)
    (hdropped : wp f (fun o s' => o = .dropped → E none s') s) :
    wp (attempt f) (post (fun _ => P) E) s := by
  rw [wp_attempt]
  unfold wp at *
  cases ho : (f s).1 with
  | ok a => exact h (by simp [ho])
  | err e => exact h (by simp [ho])
  | dropped => exact hdropped ho

theorem post_loop {fuel : σ → ℕ} {body : β → Future σ ε (β ⊕ α)} {b : β}
    (I : β → σ → Prop)
    (hI : I b s) (hbody : ∀ b s, I b s → wp (body b) (post (Sum.elim I Q) E) s)
    (hdrop : ∀ b s, I b s → E none s) : wp (loop fuel body b) (post Q E) s := by
  refine wp_loop I hI (fun b s hb => ?_) hdrop
  refine wp_mono (hbody b s hb) ?_
  rintro (⟨b' | a⟩ | e | _) s' h'
  · exact h'
  · exact h'
  · exact h'
  · exact h'

theorem post_and {Q' : α → σ → Prop} {E' : Option ε → σ → Prop} {f : Future σ ε α}
    (h : wp f (post Q E) s) (h' : wp f (post Q' E') s) :
    wp f (post (fun a s => Q a s ∧ Q' a s) fun e s => E e s ∧ E' e s) s := by
  unfold wp at h h' ⊢
  cases hf : (f s).1 with
  | ok a =>
    rw [hf] at h h'
    exact ⟨h, h'⟩
  | err e =>
    rw [hf] at h h'
    exact ⟨h, h'⟩
  | dropped =>
    rw [hf] at h h'
    exact ⟨h, h'⟩

/-- The loop rule for a loop that ends: `I n` allows at most `n` rounds more. -/
theorem post_loopN {body : β → Future σ ε (β ⊕ α)} (I : ℕ → β → σ → Prop)
    (hbody : ∀ n b s, I n b s →
      wp (body b) (post (Sum.elim (fun b' s' => ∃ m < n, I m b' s') Q) E) s) :
    ∀ {rounds n : ℕ} {b : β} {s : σ}, n < rounds → I n b s →
      wp (loopN body rounds b) (post Q E) s := by
  intro rounds
  induction rounds with
  | zero =>
    intro n b s hn
    omega
  | succ rounds ih =>
    intro n b s hn hI
    rw [loopN]
    apply post_bind (hbody n b s hI)
    intro next s' hnext
    cases next with
    | inl b' =>
      obtain ⟨m, hm, hI'⟩ := hnext
      exact ih (by omega) hI'
    | inr a => exact hnext

/-- The same, with fuel for every round. -/
theorem post_loop_within {fuel : σ → ℕ} {body : β → Future σ ε (β ⊕ α)}
    (I : ℕ → β → σ → Prop) (hbody : ∀ n b s, I n b s →
      wp (body b) (post (Sum.elim (fun b' s' => ∃ m < n, I m b' s') Q) E) s)
    {n : ℕ} {b : β} (hn : n ≤ fuel s) (hI : I n b s) : wp (loop fuel body b) (post Q E) s :=
  post_loopN I hbody (Nat.lt_succ_of_le hn) hI

end Post

/-- However it ends, a run of `f` relates the state it starts from to the one it leaves. -/
def Keeps (R : σ → σ → Prop) (f : Future σ ε α) : Prop := ∀ s, R s (f s).2

namespace Keeps
variable {R : σ → σ → Prop}

theorem wp {f : Future σ ε α} (h : Keeps R f) (s : σ) : wp f (fun _ => R s) s := h s

theorem of_eq {f : Future σ ε α} (h : Keeps R f) {s s' : σ} {o : Outcome ε α}
    (hf : f s = (o, s')) :
    R s s' := by
  have hs := h s
  rwa [hf] at hs

theorem modify {f : σ → σ} (h : ∀ s, R s (f s)) : Keeps R (modify f : Future σ ε Unit) := h

theorem attempt {f : Future σ ε α} (h : Keeps R f) : Keeps R (attempt f) := by
  intro s
  have hs := h s
  unfold Future.attempt
  cases hf : f s with
  | mk o s' =>
    rw [hf] at hs
    cases o <;> exact hs

theorem zoom {S : τ → τ → Prop} {part : τ → σ} {update : σ → τ → τ}
    {f : Future σ ε α} (h : Keeps R f) (hS : ∀ s t, R (part t) s → S t (update s t)) :
    Keeps S (zoom part update f) := fun t => hS _ t (h (part t))

section Preorder
variable [IsPreorder σ R]

theorem pure (a : α) : Keeps R (Pure.pure a : Future σ ε α) := fun s => refl_of R s

theorem get : Keeps R (get : Future σ ε σ) := fun s => refl_of R s

theorem throw (e : ε) : Keeps R (throw e : Future σ ε α) := fun s => refl_of R s

theorem ofExcept (x : Except ε α) : Keeps R (ofExcept x : Future σ ε α) := by
  cases x with
  | ok a => exact pure a
  | error e => exact throw e

theorem bind {f : Future σ ε α} {g : α → Future σ ε β} (hf : Keeps R f)
    (hg : ∀ a, Keeps R (g a)) :
    Keeps R (f >>= g) := by
  intro s
  change Future.wp (f >>= g) (fun _ => R s) s
  rw [wp_bind]
  refine wp_mono (hf.wp s) ?_
  rintro (a | e | _) s' hs
  · exact trans_of R hs (hg a s')
  · exact hs
  · exact hs

theorem dropping {f : Future σ ε α} {cleanup : σ → σ} (hf : Keeps R f)
    (hc : ∀ s, R s (cleanup s)) :
    Keeps R (dropping f cleanup) := fun s => trans_of R (hf s) (hc _)

theorem loop {fuel : σ → ℕ} {body : β → Future σ ε (β ⊕ α)}
    (h : ∀ b, Keeps R (body b)) (b : β) :
    Keeps R (loop fuel body b) := by
  intro s
  refine wp_loop (Q := fun _ => R s) (fun _ => R s) (refl_of R s) ?_ fun _ _ hs => hs
  intro b' s' hs
  refine wp_mono ((h b').wp s') ?_
  rintro (⟨b | a⟩ | e | _) s'' hs'
  all_goals exact trans_of R hs hs'

end Preorder
end Keeps

/-- `R lo hi s t`: from `s` to `t` all of `lo` has happened, in this order, and nothing
outside of `hi`. -/
structure Tally {γ : Type} (R : List γ → List γ → σ → σ → Prop) : Prop where
  refl : ∀ s, R [] [] s s
  trans : ∀ {lo hi lo' hi' s t u}, R lo hi s t → R lo' hi' t u → R (lo ++ lo') (hi ++ hi') s u
  weaken : ∀ {lo hi lo' hi' s t}, R lo hi s t → lo'.Sublist lo → hi.Sublist hi' →
    R lo' hi' s t

theorem Tally.preimage {γ : Type} {R : List γ → List γ → σ → σ → Prop} (h : Tally R)
    (part : τ → σ) :
    Tally fun lo hi => Order.Preimage part (R lo hi) :=
  ⟨fun t => h.refl (part t), fun h₁ h₂ => h.trans h₁ h₂,
    fun h₁ hlo hhi => h.weaken h₁ hlo hhi⟩

/-- A run of `f` does no more than `hi`, and all of `lo` if it returns a value. -/
def Tallies {γ : Type} (R : List γ → List γ → σ → σ → Prop) (lo hi : List γ)
    (f : Future σ ε α) : Prop :=
  ∀ s, wp f (post (fun _ => R lo hi s) fun _ => R [] hi s) s

namespace Tallies
variable {γ : Type} {R : List γ → List γ → σ → σ → Prop} {lo hi lo' hi' : List γ}
variable {f : Future σ ε α}

theorem of_eq (h : Tallies R lo hi f) {s s' : σ} {o : Outcome ε α} (hf : f s = (o, s')) :
    post (fun _ => R lo hi s) (fun _ => R [] hi s) o s' :=
  Future.wp_of_eq (h s) hf

/-- What keeps the relation with nothing in it. -/
theorem of_keeps (h : Keeps (R [] []) f) : Tallies R [] [] f := by
  intro s
  refine wp_mono (h.wp s) ?_
  rintro (a | e | _) s' hs <;> exact hs

variable (hR : Tally R)
include hR

theorem weaken (h : Tallies R lo hi f) (hlo : lo'.Sublist lo) (hhi : hi.Sublist hi') :
    Tallies R lo' hi' f := fun s =>
  post_mono (h s) (fun _ _ h => hR.weaken h hlo hhi)
    fun _ _ h => hR.weaken h (List.Sublist.refl _) hhi

theorem bind {g : α → Future σ ε β} (hf : Tallies R lo hi f)
    (hg : ∀ a, Tallies R lo' hi' (g a)) : Tallies R (lo ++ lo') (hi ++ hi') (f >>= g) := by
  intro s
  rw [wp_bind]
  have hless : hi.Sublist (hi ++ hi') := List.sublist_append_left hi hi'
  refine wp_mono (hf s) ?_
  rintro (a | e | _) s' hs
  · refine post_mono (hg a s') (fun _ _ h => hR.trans hs h) ?_
    intro _ _ h
    exact hR.weaken (hR.trans hs h) (List.nil_sublist _) (List.Sublist.refl _)
  · exact hR.weaken hs (List.Sublist.refl _) hless
  · exact hR.weaken hs (List.Sublist.refl _) hless

/-- Nothing happens before. -/
theorem nil_bind {g : α → Future σ ε β} (hf : Tallies R [] [] f)
    (hg : ∀ a, Tallies R lo hi (g a)) :
    Tallies R lo hi (f >>= g) :=
  hf.bind hR hg

/-- Nothing happens after. -/
theorem bind_nil {g : α → Future σ ε β} (hf : Tallies R lo hi f)
    (hg : ∀ a, Tallies R [] [] (g a)) :
    Tallies R lo hi (f >>= g) := by
  have h := hf.bind hR hg
  rwa [List.append_nil, List.append_nil] at h

/-- An error is handed on, and nothing happens after. -/
theorem attempt {g : Except ε α → Future σ ε β} (hf : Tallies R lo hi f)
    (hok : ∀ a, Tallies R [] [] (g (.ok a)))
    (herr : ∀ e s, wp (g (.error e)) (post (fun _ _ => False) fun _ => R [] [] s) s) :
    Tallies R lo hi (Future.attempt f >>= g) := by
  intro s
  have hafter : ∀ {lo : List γ} {s' s'' : σ}, R lo hi s s' → R [] [] s' s'' →
      R lo hi s s'' := by
    intro lo s' s'' h h'
    have hs := hR.trans h h'
    rwa [List.append_nil, List.append_nil] at hs
  rw [wp_bind, wp_attempt]
  refine wp_mono (hf s) ?_
  rintro (a | e | _) s' hs
  · refine post_mono (hok a s') (fun _ _ h => hafter hs h) fun _ _ h => ?_
    exact hR.weaken (hafter hs h) (List.nil_sublist _) (List.Sublist.refl _)
  · exact post_mono (herr e s') (fun _ _ h => h.elim) fun _ _ h => hafter hs h
  · exact hs

theorem dropping {cleanup : σ → σ} (hf : Tallies R lo hi f)
    (hc : ∀ s, R [] [] s (cleanup s)) : Tallies R lo hi (Future.dropping f cleanup) := by
  intro s
  have hnil : ∀ {lo : List γ} {s' : σ}, R lo hi s s' → R lo hi s (cleanup s') := by
    intro lo s' h
    have hs := hR.trans h (hc s')
    rwa [List.append_nil, List.append_nil] at hs
  rw [wp_dropping]
  refine wp_mono (hf s) ?_
  rintro (a | e | _) s' hs <;> exact hnil hs

omit hR in
theorem zoom {S : List γ → List γ → τ → τ → Prop} {part : τ → σ}
    {update : σ → τ → τ}
    (h : Tallies R lo hi f) (hS : ∀ {lo hi s t}, R lo hi (part t) s → S lo hi t (update s t)) :
    Tallies S lo hi (Future.zoom part update f) := by
  intro t
  rw [wp_zoom]
  refine wp_mono (h (part t)) ?_
  rintro (a | e | _) s hs <;> exact hS hs

end Tallies
end Future
