import Boltwire.Readiness

namespace Boltwire
open Future Server BoltConnection
variable {S : Server}

theorem isReady_iff {c : BoltConnection} :
    c.isReady = true ↔ c.broken = false ∧ c.needsReset = false ∧ c.pending = 0 := by
  simp [isReady, and_assoc]

/-- A connection that nothing borrows. -/
theorem FreeInv.honest {L : Law S} {c : BoltConnection} (h : FreeInv L c) (hl : L.holds)
    (hready : c.isReady = true) : Live S c [] ∧ S.phase c.log = .ready := by
  obtain ⟨hb, hn, hp⟩ := isReady_iff.mp hready
  obtain ⟨rs, hs⟩ := h.tracked
  have hlive := hs.live hb
  obtain rfl := hlive.eq_nil hp
  exact ⟨hlive, h.ready hb hn hp hl⟩

/-- In every history whose RESETs succeed where `needs_reset` did not call for
them, a connection that is ready owes nothing and finds the session READY. -/
theorem isReady_honest (S : Server) (hl : S.Orderly) (noops cut : ℕ) {client : Client}
    {c : BoltConnection} (hrun : Client.Run S.peer (Forewarned S) (.fresh noops cut) client)
    (hfree : client = .free c ∨ client = .idle c) (hready : c.isReady = true) :
    Carries [] c.unread ∧ S.phase c.log = .ready := by
  let L : Law S := ⟨S.Orderly, id⟩
  have hi : Inv L client := hrun.inv (inv_fresh L noops cut) fun _ _ _ hok => hok
  have hinv : FreeInv L c := by
    rcases hfree with rfl | rfl
    · exact hi
    · exact hi
  obtain ⟨hlive, hphase⟩ := hinv.honest hl hready
  exact ⟨hlive.carries, hphase⟩

/-- A transaction is dropped with its statement unread; the RESET that follows
makes the connection ready again. -/
theorem isReady_honest_after_reset : ∃ client c,
    Client.Run obliging.peer (Forewarned obliging) (.fresh 0 0) client ∧
    (client = .free c ∧ c.isReady = true ∧ 0 < c.log.length) ∧
    Carries [] c.unread ∧ obliging.phase c.log = .ready := by
  have hplay : Client.observe obliging.peer (.fresh 0 0)
      [(.beginWith .default, smooth), (.txRun "a" [], [.ready 0, .ready 0, .drop 0]),
        (.dropTx, [])] .reset smooth
      (fun _ _ client' => client'.free?.any fun c => c.isReady && decide (0 < c.log.length)) =
      some true := by
    decide +kernel
  have hok : ∀ call client, Forewarned obliging call client := lawful_obliging.forewarned
  obtain ⟨client, o, client', hrun, hstep, hlook⟩ :=
    Client.observe_step (fun _ _ _ => hok _ _) hplay
  have hrun' := hrun.step (hok _ _) hstep
  obtain ⟨c, hfree, hseen⟩ := (Option.any_eq_true _ _).mp hlook
  cases Client.free?_eq_some.mp hfree
  obtain ⟨hready, hlog⟩ : c.isReady = true ∧ 0 < c.log.length := by simpa using hseen
  exact ⟨_, c, hrun', ⟨rfl, hready, hlog⟩,
    isReady_honest obliging lawful_obliging.orderly 0 0 hrun' (.inl rfl) hready⟩

theorem Response.packable_ignored : ignored.Packable := by
  simp [Packable, value, BoltValue.KeysDistinct, BoltValue.Sized, BoltValue.Forall,
    BoltValue.ForallSeq, BoltValue.NodeKeysDistinct, BoltValue.NodeSized]

/-- What a server answers that refuses every RESET: all is well before the first
one, and the session has failed after it. -/
def refusal (before : List Body) (body : Body) : Response :=
  if signature body = RESET then .failure "" ""
  else if before.any fun b => signature b = RESET then .ignored
  else .success []

def refusing : Server :=
  .answering (fun before body => ⟨[], refusal before body⟩)
    (fun before body => by simp only [refusal]; split_ifs <;> rfl)
    (fun _ _ _ _ => rfl)
    (by
      intro before body r hr
      simp only [Answer.responses, List.map_nil, List.nil_append, List.mem_singleton] at hr
      subst hr
      unfold refusal
      split_ifs
      · exact Response.packable_failure
      · exact Response.packable_ignored
      · exact Response.packable_success)

theorem phase_refusing (log : List Body) :
    refusing.phase log = .failed ↔ log.any (fun b => signature b = RESET) = true := by
  induction log using List.reverseRecOn with
  | nil => simp [phase, follow]
  | append_singleton log b ih =>
    have hanswer : (refusing.answer log b).summary = refusal log b := rfl
    rw [phase_concat, hanswer, refusal]
    by_cases hb : signature b = RESET
    · simp [hb, Phase.next]
    by_cases hlog : log.any (fun b => signature b = RESET) = true
    · have hany : (log ++ [b]).any (fun b => signature b = RESET) = true := by
        rw [List.any_append, hlog, Bool.true_or]
      rw [if_neg hb, if_pos hlog]
      exact ⟨fun _ => hany, fun _ => ih.mpr hlog⟩
    · have hany : ¬ (log ++ [b]).any (fun b => signature b = RESET) = true := by
        rw [List.any_append]
        simpa [hb] using hlog
      have hfailed := phase_next_success (mt ih.mp hlog) (signature b) []
      rw [if_neg hb, if_neg hlog]
      exact ⟨fun h => absurd h hfailed, fun h => absurd h hany⟩

theorem orderly_refusing : refusing.Orderly where
  ignores before body hf hb := by
    have hany := (phase_refusing before).mp hf
    have hanswer : (refusing.answer before body).summary = refusal before body := rfl
    rw [hanswer, refusal, if_neg hb, if_pos hany]
  complete before body _ _ m hm := by
    have hanswer : (refusing.answer before body).summary = refusal before body := rfl
    rw [hanswer, refusal] at hm
    split_ifs at hm
    cases hm
    rfl

/-- A new connection is reset and the server refuses: the connection still says
that it is ready. -/
theorem ready_after_refused_reset : ¬ ∀ (S : Server), S.Orderly → ∀ (noops cut : ℕ)
    (client : Client) (c : BoltConnection), Client.History S.peer (.fresh noops cut) client →
    client = .free c → c.isReady = true → Carries [] c.unread ∧ S.phase c.log = .ready := by
  intro hall
  have hplay : Client.observe refusing.peer (.fresh 0 0) [] .reset smooth
      (fun _ _ client' => client'.free?.any fun c =>
        c.isReady && c.log.any fun b => signature b = RESET) = some true := by
    decide +kernel
  obtain ⟨client, o, client', hrun, hstep, hlook⟩ := Client.observe_history hplay
  obtain ⟨c, hfree, hseen⟩ := (Option.any_eq_true _ _).mp hlook
  cases Client.free?_eq_some.mp hfree
  obtain ⟨hready, hlog⟩ := (Bool.and_eq_true _ _).mp hseen
  have hphase := (hall refusing orderly_refusing 0 0 _ c (hrun.step trivial hstep) rfl hready).2
  rw [(phase_refusing c.log).mpr hlog] at hphase
  cases hphase

end Boltwire
