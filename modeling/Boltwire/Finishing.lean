import Boltwire.Containment

namespace Boltwire
open Future Server BoltConnection RecordStream
variable {S : Server}

/-- The stream that holds the connection, and the requests received before it. -/
def Client.stream? : Client → Option (ℕ × RecordStream)
  | .streaming k s | .txStreaming _ _ k s => some (k, s)
  | _ => none

def finished? : Outcome BoltError Reply → Option Meta
  | .ok (.metadata m) => some m
  | _ => none

theorem eq_of_finished? {o : Outcome BoltError Reply} {m : Meta} (h : finished? o = some m) :
    o = .ok (.metadata m) := by
  unfold finished? at h
  split at h <;> cases h
  rfl

/-- `m` is the metadata of the SUCCESS that ended the stream, and the connection
is left with nothing owed and nothing to reset. -/
def TellsTruth (S : Server) (k : ℕ) (m : Meta) (c : BoltConnection) : Prop :=
  EndedBy S k m c.log ∧ c.needsReset = false ∧ c.pending = 0

theorem RecordStream.Truthful.tellsTruth {k : ℕ} {m : Meta} {c : BoltConnection}
    (h : Truthful S k m c) : TellsTruth S k m c :=
  ⟨h.ended, h.needsReset, h.live.owed⟩

/-- A stream that has failed is finished without a word to the server. -/
theorem finish_failed {peer : Peer} {s : RecordStream} (hd : s.done = true)
    (hs : s.summary = none) : RecordStream.finish peer s = (.ok [], s) := by
  obtain ⟨⟨columns, qid, batch, buffer, hasMore, pullInFlight, done, summary⟩, c⟩ := s
  cases hd
  cases hs
  rfl

/-- One call of `finish`, from a stream in any state. -/
theorem Flow.finish_iff {k : ℕ} {Open Shut : List Body → Prop} (hc : Course S Open Shut)
    {s s' : RecordStream} {o : Outcome BoltError Meta} (h : Flow S k Open Shut s)
    (hf : RecordStream.finish S.peer s = (o, s')) :
    (∀ m, o = .ok m → TellsTruth S k m s'.conn) ↔
      ¬ (s.done = true ∧ s.summary = none) := by
  constructor
  · rintro htruth ⟨hd, hs⟩
    rw [finish_failed hd hs] at hf
    cases hf
    obtain ⟨hended, hn, -⟩ := htruth [] rfl
    exact h.failed hd hs hn [] hended
  · intro hs m ho
    subst ho
    rcases (wp_of_eq (post_finish hc h) hf).1 with ⟨hs', -, -⟩ | ⟨-, htruth⟩
    · exact absurd hs' hs
    · exact htruth.tellsTruth

/-- Whatever the history and the server, `finish` tells the truth about its stream
exactly if the stream has not failed before: `done` with no summary. -/
theorem finish_tells_truth_iff (S : Server) (noops cut : ℕ) {client client' : Client}
    {o : Outcome BoltError Reply} {k : ℕ} {s : RecordStream}
    (hrun : Client.History S.peer (.fresh noops cut) client)
    (hs : client.stream? = some (k, s)) (hstep : Client.Step S.peer .finish client o client') :
    (∀ m, o = .ok (.metadata m) → TellsTruth S k m client'.conn) ↔
      ¬ (s.done = true ∧ s.summary = none) := by
  obtain ⟨sched, hexec⟩ := hstep
  have hi := inv_withSched sched hrun.inv_of_fresh
  have hmap : ∀ {o : Outcome BoltError Meta} {c : BoltConnection},
      (∀ m, o.map Reply.metadata = .ok (.metadata m) → TellsTruth S k m c) ↔
        ∀ m, o = .ok m → TellsTruth S k m c := by
    intro o c
    cases o <;> simp [Outcome.map]
  -- a stream of its own and one inside a transaction differ only in the course of the session
  cases client with
  | streaming k' s₀ =>
    cases hs
    cases Client.exec_effect hexec with
    | finish hf =>
      have hiff := Flow.finish_iff course_streaming hi hf
      exact hmap.trans hiff
  | txStreaming h done k' s₀ =>
    cases hs
    cases Client.exec_effect hexec with
    | txFinish hf =>
      have hiff := Flow.finish_iff course_within hi.2.2 hf
      exact hmap.trans hiff
  | _ => cases hs

/-- A stream is finished with its first batch still on the way. -/
theorem finish_tells_truth_inFlight : ∃ client client' k s m,
    (Client.History obliging.peer (.fresh 0 0) client ∧ client.stream? = some (k, s) ∧
      Client.Step obliging.peer .finish client (.ok (.metadata m)) client') ∧
    s.done = false ∧ TellsTruth obliging k m client'.conn := by
  have hplay : Client.observe obliging.peer (.fresh 0 0) [(.runStreamWith "a" [] [] 5, smooth)]
      .finish smooth (fun client o _ => client.stream?.any fun p =>
        (finished? o).isSome && !p.2.done) = some true := by
    decide +kernel
  obtain ⟨client, o, client', hrun, hstep, hlook⟩ := Client.observe_history hplay
  obtain ⟨⟨k, s⟩, hs, hseen⟩ := (Option.any_eq_true _ _).mp hlook
  obtain ⟨hm, hd⟩ : (finished? o).isSome = true ∧ s.done = false := by simpa using hseen
  obtain ⟨m, hm⟩ := Option.isSome_iff_exists.mp hm
  cases eq_of_finished? hm
  have hiff := finish_tells_truth_iff obliging 0 0 hrun hs hstep
  exact ⟨client, client', k, s, m, ⟨hrun, hs, hstep⟩, hd, hiff.mpr (by simp [hd]) m rfl⟩

/-- The PULL of a stream fails and `next` reports it; `finish` then returns
metadata that no server sent. -/
theorem finish_after_failure : ¬ ∀ (S : Server) (noops cut : ℕ) (client client' : Client)
    (o : Outcome BoltError Reply) (k : ℕ) (s : RecordStream),
    Client.History S.peer (.fresh noops cut) client → client.stream? = some (k, s) →
    Client.Step S.peer .finish client o client' →
    ∀ m, o = .ok (.metadata m) → TellsTruth S k m client'.conn := by
  intro hall
  have hplay : Client.observe pullsFail.peer (.fresh 0 0)
      [(.runStreamWith "a" [] [] 5, smooth), (.next, smooth)] .finish smooth
      (fun client o client' => client.stream?.isSome && (finished? o).isSome &&
        client'.conn.log.getLast? == some resetBody) = some true := by
    decide +kernel
  obtain ⟨client, o, client', hrun, hstep, hlook⟩ := Client.observe_history hplay
  obtain ⟨⟨hs, hm⟩, hlast⟩ :
    (client.stream?.isSome = true ∧ (finished? o).isSome = true) ∧
    client'.conn.log.getLast? = some resetBody := by simpa using hlook
  obtain ⟨⟨k, s⟩, hs⟩ := Option.isSome_iff_exists.mp hs
  obtain ⟨m, hm⟩ := Option.isSome_iff_exists.mp hm
  obtain ⟨before, hlog⟩ := List.getLast?_eq_some_iff.mp hlast
  have hended := (hall pullsFail 0 0 client client' o k s hrun hs hstep m (eq_of_finished? hm)).1
  rw [hlog] at hended
  exact not_endedBy_reset hended

end Boltwire
