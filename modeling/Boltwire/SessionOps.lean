import Boltwire.Session

namespace Boltwire
open Future Server
namespace BoltConnection
variable {S : Server}

/-- Broken, or live and owed something. -/
def Tracked (S : Server) (c : BoltConnection) : Prop := ∃ rs, Sound S c rs

/-- A FAILURE that an operation reports is among the replies to its own requests. -/
def Surfaced (S : Server) (c : BoltConnection) (e : Option BoltError)
    (c' : BoltConnection) : Prop :=
  ∀ code message, e = some (.failure code message) →
    .failure code message ∈ S.since c.log.length c'.log

theorem Surfaced.of_local {c c' : BoltConnection} {e : Option BoltError}
    (h : ∀ x, e = some x → Local x) : Surfaced S c e c' :=
  fun code message he => absurd rfl (h _ he code message)

theorem Surfaced.err {c c' : BoltConnection} {x : BoltError} (h : Local x) :
    Surfaced S c (some x) c' :=
  .of_local fun _ hx => Option.some.inj hx ▸ h

theorem Surfaced.mono {c c₁ c' : BoltConnection} {e : Option BoltError} (h : Surfaced S c₁ e c')
    (hl : c.log.length ≤ c₁.log.length) : Surfaced S c e c' :=
  fun code message he => (since_isSuffix hl _).subset (h code message he)

/-- How an operation that sends `reqs` can end early: some of the requests and
perhaps a RESET were received, and either that RESET succeeded or `needs_reset`
is as before. -/
inductive Ended (S : Server) (reqs : List Request) (c : BoltConnection) : BoltConnection → Prop
  | dirty {bodies last : List Body} {c' : BoltConnection} : Partly reqs bodies →
    (last = [] ∨ last = [resetBody]) → c'.log = c.log ++ (bodies ++ last) →
    c'.needsReset = c.needsReset → Tracked S c' → Ended S reqs c c'
  | settled {bodies : List Body} {m : Meta} {c' : BoltConnection} : Partly reqs bodies →
    c'.log = c.log ++ (bodies ++ [resetBody]) →
    (S.answer (c.log ++ bodies) resetBody).summary = .success m → c'.needsReset = false →
    Live S c' [] → Ended S reqs c c'

/-- Ended early, with error `e` or dropped. A RESET that succeeds is followed by
the report of a FAILURE, so a dropped operation leaves `needs_reset` alone. -/
structure Stop (S : Server) (reqs : List Request) (c : BoltConnection) (e : Option BoltError)
    (c' : BoltConnection) : Prop where
  ended : Ended S reqs c c'
  surfaced : Surfaced S c e c'
  dropped : e = none → c'.needsReset = c.needsReset

theorem Partly.nil (reqs : List Request) : Partly reqs [] := ⟨0, .nil⟩

theorem Partly.all {reqs : List Request} {bodies : List Body}
    (h : List.Forall₂ Packed reqs bodies) :
    Partly reqs bodies :=
  ⟨reqs.length, by rwa [List.take_length]⟩

structure Sent (S : Server) (reqs : List Request) (c : BoltConnection) (rs : List Response)
    (bodies : List Body) (c' : BoltConnection) : Prop where
  intact : c.broken = false
  packed : List.Forall₂ Packed reqs bodies
  log : c'.log = c.log ++ bodies
  needsReset : c'.needsReset = c.needsReset
  unread : ∃ new, c'.unread = c.unread ++ new
  live : Live S c' (rs ++ S.replies c.log bodies)

/-- The requests were not all sent: the connection is as it was, or broken. -/
structure Unsent (S : Server) (reqs : List Request) (c : BoltConnection) (e : Option BoltError)
    (c' : BoltConnection) : Prop where
  local_error : ∀ x, e = some x → Local x
  log : ∃ bodies, Partly reqs bodies ∧ c'.log = c.log ++ bodies
  needsReset : c'.needsReset = c.needsReset
  state : c' = c ∨ c'.broken = true

theorem Unsent.tracked {reqs : List Request} {c c' : BoltConnection} {e : Option BoltError}
    (h : Unsent S reqs c e c') (hc : Tracked S c) : Tracked S c' := by
  rcases h.state with rfl | hb
  · exact hc
  · exact ⟨[], .inl hb⟩

theorem Unsent.stop {reqs : List Request} {c c' : BoltConnection} {e : Option BoltError}
    (h : Unsent S reqs c e c') (hc : Tracked S c) : Stop S reqs c e c' := by
  obtain ⟨bodies, hpart, hlog⟩ := h.log
  refine ⟨.dirty hpart (.inl rfl) ?_ h.needsReset (h.tracked hc), .of_local h.local_error,
    fun _ => h.needsReset⟩
  rw [hlog, List.append_nil]

theorem post_send {c : BoltConnection} {rs : List Response} (h : Sound S c rs) {reqs : List Request}
    (hreqs : ∀ req ∈ reqs, Plain req) : wp (writeMessages S.peer reqs)
      (post (fun _ c' => ∃ bodies, Sent S reqs c rs bodies c') (Unsent S reqs c)) c := by
  refine wp_mono (wp_send h hreqs) ?_
  rintro o c' hs
  cases hs with
  | sent hb hp hl hn hu hlive => exact ⟨_, hb, hp, hl, hn, hu, hlive⟩
  | kept he =>
    exact ⟨fun _ hx => Option.some.inj hx ▸ he, ⟨[], .nil _, by simp⟩, rfl, .inl rfl⟩
  | lost hpart hl hn hb ho =>
    rcases ho with rfl | ⟨e, he, rfl⟩
    · exact ⟨by simp, ⟨_, hpart, hl⟩, hn, .inr hb⟩
    · exact ⟨fun _ hx => Option.some.inj hx ▸ he, ⟨_, hpart, hl⟩, hn, .inr hb⟩

structure Unread (S : Server) (c : BoltConnection) (rs : List Response) (e : Option BoltError)
    (c' : BoltConnection) : Prop where
  local_error : ∀ x, e = some x → Local x
  intact : c'.broken = false → c.broken = false
  log : c'.log = c.log
  needsReset : c'.needsReset = c.needsReset
  sound : Sound S c' rs

structure Got (S : Server) (c : BoltConnection) (rs : List Response) (c' : BoltConnection) :
    Prop where
  intact : c.broken = false
  log : c'.log = c.log
  needsReset : c'.needsReset = c.needsReset
  live : Live S c' rs

theorem post_receive {c : BoltConnection} {r : Response} {rs : List Response}
    (h : Sound S c (r :: rs)) : wp readMessage
      (post (fun r' c' => r' = r ∧ Got S c rs c' ∧
          ∃ body, Boltwire.takeMessage c.unread = .item body c'.unread)
        (Unread S c (r :: rs))) c := by
  refine wp_mono (wp_receive h) ?_
  rintro o c' hr
  cases hr with
  | reply hb heq hcut hl hlog hn =>
    cases heq
    exact ⟨rfl, ⟨hb, hlog, hn, hl⟩, hcut⟩
  | stopped hi ho hl hlog hn =>
    rcases ho with rfl | ⟨e, he, rfl⟩
    · exact ⟨by simp, fun _ => hi, hlog, hn, .inr hl⟩
    · refine ⟨?_, fun _ => hi, hlog, hn, .inr hl⟩
      rintro x ⟨⟩
      exact he
  | lost he hb hlog hn =>
    refine ⟨?_, fun hi => ?_, hlog, hn, .inl hb⟩
    · rintro x ⟨⟩
      exact he
    · rw [hb] at hi
      cases hi

/-- RESET succeeded, and all that was owed before it was drained. -/
structure WasReset (S : Server) (c c' : BoltConnection) : Prop where
  log : c'.log = c.log ++ [resetBody]
  success : ∃ m, (S.answer c.log resetBody).summary = .success m
  needsReset : c'.needsReset = false
  live : Live S c' []

structure NotReset (S : Server) (c c' : BoltConnection) : Prop where
  log : c'.log = c.log ∧ (c' = c ∨ c'.broken = true) ∨ c'.log = c.log ++ [resetBody]
  needsReset : c'.needsReset = c.needsReset
  tracked : Tracked S c'

/-- RESET was sent and its summary is unread, behind whatever was owed before. -/
def Draining (S : Server) (c c₁ : BoltConnection) : Prop :=
  c₁.log = c.log ++ [resetBody] ∧ c₁.needsReset = c.needsReset ∧
    ∃ pre, Live S c₁ (pre ++ [(S.answer c.log resetBody).summary])

theorem Draining.notReset {c c₁ : BoltConnection} (h : Draining S c c₁) :
    NotReset S c c₁ := by
  obtain ⟨hlog, hn, pre, hl⟩ := h
  exact ⟨.inr hlog, hn, _, .inr hl⟩

/-- A FAILURE that answers RESET. -/
theorem surfaced_reset {c c' : BoltConnection} {code message : String}
    (h : (S.answer c.log resetBody).summary = .failure code message)
    (hlog : c'.log = c.log ++ [resetBody]) : Surfaced S c (some (.failure code message)) c' := by
  rintro code' message' he
  cases he
  rw [hlog, since_append, replies_singleton, Answer.responses, h]
  simp

theorem post_resetRound {c c₁ : BoltConnection} (h : Draining S c c₁) : wp (resetRound ())
    (post (Sum.elim (fun _ => Draining S c) fun _ => WasReset S c)
      fun e c' => NotReset S c c' ∧ Surfaced S c e c') c₁ := by
  obtain ⟨hlog, hn, pre, hl⟩ := h
  obtain ⟨summary, hsum⟩ : ∃ r, (S.answer c.log resetBody).summary = r := ⟨_, rfl⟩
  have hs : summary.isSummary = true := hsum ▸ S.isSummary c.log resetBody
  rw [hsum] at hl
  rw [resetRound]
  cases pre with
  -- replies owed to earlier requests are before the one to RESET
  | cons p pre =>
    rw [List.cons_append] at hl
    refine post_bind (post_mono (post_receive (.inr hl)) (fun r c₂ h => h) ?_) ?_
    · intro e c' hu
      exact ⟨⟨.inr (hu.log.trans hlog), hu.needsReset.trans hn, _, hu.sound⟩,
        .of_local hu.local_error⟩
    · rintro r c₂ ⟨rfl, hg, -⟩
      have hpos : 0 < c₂.pending := by
        rw [hg.live.owed, summaries_append, summaries_cons, hs]
        simp
      simp only [Future.wp_bind, Future.wp_get, Future.andThen, if_pos hpos]
      exact ⟨hg.log.trans hlog, hg.needsReset.trans hn, pre, hsum ▸ hg.live⟩
  | nil =>
    refine post_bind (post_mono (post_receive (.inr hl)) (fun r c₂ h => h) ?_) ?_
    · intro e c' hu
      exact ⟨⟨.inr (hu.log.trans hlog), hu.needsReset.trans hn, _, hu.sound⟩,
        .of_local hu.local_error⟩
    · rintro r c₂ ⟨rfl, hg, -⟩
      have hlog₂ := hg.log.trans hlog
      have hnot : NotReset S c c₂ := ⟨.inr hlog₂, hg.needsReset.trans hn, [], .inr hg.live⟩
      simp only [Future.wp_bind, Future.wp_get, Future.andThen, hg.live.owed]
      cases r with
      | success m => exact ⟨hlog₂, ⟨m, hsum⟩, rfl, hg.live.congr rfl rfl rfl rfl⟩
      | failure code message => exact ⟨hnot, surfaced_reset hsum hlog₂⟩
      | record v => cases hs
      | ignored => exact ⟨hnot, .err (by simp)⟩

theorem packed_one {req : Request} {bodies : List Body} (h : List.Forall₂ Packed [req] bodies) :
    ∃ b, Packed req b ∧ bodies = [b] := by
  obtain ⟨b, bs, hb, hbs, rfl⟩ := List.forall₂_cons_left_iff.mp h
  obtain rfl := List.forall₂_nil_left_iff.mp hbs
  exact ⟨b, hb, rfl⟩

theorem packed_two {req req' : Request} {bodies : List Body}
    (h : List.Forall₂ Packed [req, req'] bodies) :
    ∃ b b', Packed req b ∧ Packed req' b' ∧ bodies = [b, b'] := by
  obtain ⟨b, bs, hb, hbs, rfl⟩ := List.forall₂_cons_left_iff.mp h
  obtain ⟨b', hb', rfl⟩ := packed_one hbs
  exact ⟨b, b', hb, hb', rfl⟩

theorem partly_singleton {req : Request} {bodies : List Body} (h : Partly [req] bodies) :
    bodies = [] ∨ ∃ b, Packed req b ∧ bodies = [b] := by
  obtain ⟨k, h⟩ := h
  cases k with
  | zero => exact .inl (List.forall₂_nil_left_iff.mp h)
  | succ k =>
    rw [List.take_succ_cons, List.take_nil] at h
    exact .inr (packed_one h)

theorem post_reset {c : BoltConnection} (h : Tracked S c) : wp (reset S.peer)
    (post (fun _ => WasReset S c) fun e c' => NotReset S c c' ∧ Surfaced S c e c') c := by
  obtain ⟨rs, h⟩ := h
  refine post_bind (post_mono (post_send h plain_reset) (fun _ _ h => h) ?_) ?_
  · intro e c' hu
    obtain ⟨bodies, hpart, hlog⟩ := hu.log
    refine ⟨⟨?_, hu.needsReset, hu.tracked ⟨rs, h⟩⟩, .of_local hu.local_error⟩
    rcases partly_singleton hpart with rfl | ⟨b, hb, rfl⟩
    · exact .inl ⟨by simpa using hlog, hu.state⟩
    · exact .inr (packed_reset hb ▸ hlog)
  · rintro _ c₁ ⟨bodies, hsent⟩
    obtain ⟨b, hb, rfl⟩ := packed_one hsent.packed
    obtain rfl := packed_reset hb
    have hdrain : Draining S c c₁ := by
      have hl := hsent.live
      rw [replies_singleton, Answer.responses, ← List.append_assoc] at hl
      exact ⟨hsent.log, hsent.needsReset, _, hl⟩
    exact post_loop (fun _ => Draining S c) hdrain (fun _ _ => post_resetRound)
      fun _ _ hd => ⟨hd.notReset, .of_local (by simp)⟩

/-- RESET out of a FAILURE: it worked, or it did not. -/
theorem post_failReset {c : BoltConnection} (h : Tracked S c) (code message : String) :
    wp (failReset S.peer code message)
      (post (fun e c' => e = .failure code message ∧ (WasReset S c c' ∨ NotReset S c c'))
        fun e c' => e = none ∧ NotReset S c c') c := by
  rw [failReset, Future.wp_bind, Future.wp_attempt]
  refine wp_mono (post_reset h) ?_
  rintro (_ | e | _) c' hc
  · exact ⟨rfl, .inl hc⟩
  · exact ⟨rfl, .inr hc.1⟩
  · exact ⟨rfl, hc.1⟩

/-- A FAILURE read from `c` was reported, or the report was dropped. -/
def Recovery (S : Server) (code message : String) (c : BoltConnection) (e : Option BoltError)
    (c' : BoltConnection) : Prop :=
  e = some (.failure code message) ∧ WasReset S c c' ∨
    (e = some (.failure code message) ∨ e = none) ∧ NotReset S c c'

/-- A FAILURE was read, by whoever has borrowed the connection: RESET, then report it. -/
theorem post_recover {τ α : Type} {part : τ → BoltConnection}
    {update : BoltConnection → τ → τ}
    {Q : α → τ → Prop} {E : Option BoltError → τ → Prop} {t : τ}
    (h : Tracked S (part t)) (code message : String)
    (hE : ∀ e c', Recovery S code message (part t) e c' → E e (update c' t)) :
    wp (do Future.throw (← Future.zoom part update (failReset S.peer code message)) :
      Future τ BoltError α) (post Q E) t := by
  refine post_zoom (post_mono (post_failReset h code message) (fun _ _ h => h) ?_) ?_
  · rintro e c' ⟨rfl, hn⟩
    exact hE none c' (.inr ⟨.inr rfl, hn⟩)
  · rintro _ c' ⟨rfl, hr | hn⟩
    · exact hE _ c' (.inl ⟨rfl, hr⟩)
    · exact hE _ c' (.inr ⟨.inl rfl, hn⟩)

/-- What `ensure_clean` leaves: a session with nothing owed and nothing abandoned. -/
def Cleaned (S : Server) (c c' : BoltConnection) : Prop :=
  (c' = c ∧ c.needsReset = false ∧ Live S c []) ∨ WasReset S c c'

theorem Cleaned.live {c c' : BoltConnection} (h : Cleaned S c c') : Live S c' [] := by
  rcases h with ⟨rfl, -, h⟩ | h
  · exact h
  · exact h.live

theorem Cleaned.length_le {c c' : BoltConnection} (h : Cleaned S c c') :
    c.log.length ≤ c'.log.length := by
  rcases h with ⟨rfl, -, -⟩ | h
  · exact Nat.le_refl _
  · rw [h.log, List.length_append]
    omega

/-- An operation that got no further than `ensure_clean`, which sends RESET only
where one is due. -/
structure Unclean (S : Server) (c c' : BoltConnection) : Prop extends NotReset S c c' where
  kept : c.needsReset = false → c.pending = 0 → c' = c

theorem Unclean.refl {c : BoltConnection} (h : Tracked S c) : Unclean S c c :=
  ⟨⟨.inl ⟨rfl, .inl rfl⟩, rfl, h⟩, fun _ _ => rfl⟩

theorem post_ensureClean {c : BoltConnection} (h : Tracked S c) : wp (ensureClean S.peer)
    (post (fun _ => Cleaned S c) fun e c' => Unclean S c c' ∧ Surfaced S c e c') c := by
  rw [ensureClean, Future.wp_bind]
  apply wp_checkIntact
  · intro hb m
    exact ⟨.refl h, .err (by simp)⟩
  intro hi
  simp only [Future.andThen, Future.wp_bind, Future.wp_get]
  split_ifs with hc
  · refine post_mono (post_reset h) (fun _ _ hr => .inr hr) fun _ c' hr =>
      ⟨⟨hr.1, ?_⟩, hr.2⟩
    intro hn hp
    rw [hn, hp] at hc
    simp at hc
  · obtain ⟨rs, hs⟩ := h
    have hl := hs.live hi
    simp only [not_or, Bool.not_eq_true, not_lt, Nat.le_zero] at hc
    obtain rfl := hl.eq_nil hc.2
    exact .inl ⟨rfl, hc.1, hl⟩

section Ending
variable {reqs : List Request} {bodies : List Body} {c c₁ c' : BoltConnection}

theorem Stop.here {e : Option BoltError} (hpart : Partly reqs bodies)
    (hlog : c₁.log = c.log ++ bodies) (hn : c₁.needsReset = c.needsReset) (ht : Tracked S c₁)
    (he : ∀ x, e = some x → Local x) : Stop S reqs c e c₁ := by
  refine ⟨.dirty hpart (.inl rfl) ?_ hn ht, .of_local he, fun _ => hn⟩
  rw [hlog, List.append_nil]

theorem Stop.unread {e : Option BoltError} {rs : List Response} (hpart : Partly reqs bodies)
    (hlog : c₁.log = c.log ++ bodies) (hn : c₁.needsReset = c.needsReset)
    (h : Unread S c₁ rs e c') : Stop S reqs c e c' :=
  .here hpart (h.log.trans hlog) (h.needsReset.trans hn) ⟨rs, h.sound⟩ h.local_error

theorem Ended.of_reset (hpart : Partly reqs bodies) (hlog : c₁.log = c.log ++ bodies)
    (hn : c₁.needsReset = c.needsReset) (h : WasReset S c₁ c' ∨ NotReset S c₁ c') :
    Ended S reqs c c' := by
  rcases h with h | h
  · obtain ⟨m, hm⟩ := h.success
    refine .settled hpart ?_ (hlog ▸ hm) h.needsReset h.live
    rw [h.log, hlog, List.append_assoc]
  · rcases h.log with ⟨hl, -⟩ | hl
    · exact .dirty hpart (.inl rfl) (by rw [hl, hlog, List.append_nil])
        (h.needsReset.trans hn) h.tracked
    · exact .dirty hpart (.inr rfl) (by rw [hl, hlog, List.append_assoc])
        (h.needsReset.trans hn) h.tracked

theorem Ended.log_eq (h : Ended S reqs c c') : ∃ bodies last, Partly reqs bodies ∧
    (last = [] ∨ last = [resetBody]) ∧ c'.log = c.log ++ (bodies ++ last) := by
  cases h with
  | dirty hpart hlast hlog _ _ => exact ⟨_, _, hpart, hlast, hlog⟩
  | settled hpart hlog _ _ _ => exact ⟨_, _, hpart, .inr rfl, hlog⟩

theorem Recovery.ended {code message : String} {e : Option BoltError} (hpart : Partly reqs bodies)
    (hlog : c₁.log = c.log ++ bodies) (hn : c₁.needsReset = c.needsReset)
    (h : Recovery S code message c₁ e c') : Ended S reqs c c' := by
  refine .of_reset hpart hlog hn ?_
  rcases h with ⟨-, h⟩ | ⟨-, h⟩
  · exact .inl h
  · exact .inr h

/-- The FAILURE answered one of the operation's own requests. -/
theorem Recovery.surfaced {code message : String} {e : Option BoltError}
    (hlog : c₁.log = c.log ++ bodies) (hmem : .failure code message ∈ S.replies c.log bodies)
    (h : Recovery S code message c₁ e c') : Surfaced S c e c' := by
  have hlast : ∃ last, c'.log = c.log ++ (bodies ++ last) := by
    rcases h with ⟨-, h⟩ | ⟨-, h⟩
    · exact ⟨[resetBody], by rw [h.log, hlog, List.append_assoc]⟩
    · rcases h.log with ⟨hl, -⟩ | hl
      · exact ⟨[], by rw [hl, hlog, List.append_nil]⟩
      · exact ⟨[resetBody], by rw [hl, hlog, List.append_assoc]⟩
  have he : e = some (.failure code message) ∨ e = none := by
    rcases h with ⟨he, -⟩ | ⟨he, -⟩
    · exact .inl he
    · exact he
  obtain ⟨last, hlast⟩ := hlast
  intro code' message' he'
  rw [hlast, since_append, replies_append]
  rcases he with rfl | rfl
  · cases he'
    exact List.mem_append_left _ hmem
  · cases he'

/-- A FAILURE was read: RESET, then report it. -/
theorem post_surface {α : Type} {Q : α → BoltConnection → Prop} {code message : String}
    (hpart : Partly reqs bodies) (hlog : c₁.log = c.log ++ bodies)
    (hn : c₁.needsReset = c.needsReset) (ht : Tracked S c₁)
    (hmem : .failure code message ∈ S.replies c.log bodies) :
    wp (do Future.throw (← failReset S.peer code message) : Op α)
      (post Q (Stop S reqs c)) c₁ := by
  have hstop : ∀ e c', Recovery S code message c₁ e c' →
      (e = none → c'.needsReset = c₁.needsReset) → Stop S reqs c e c' := fun e c' hr hd =>
    ⟨hr.ended hpart hlog hn, hr.surfaced hlog hmem, fun he => (hd he).trans hn⟩
  refine post_bind (post_mono (post_failReset ht code message) (fun _ _ h => h) ?_) ?_
  · rintro _ c' ⟨rfl, h⟩
    exact hstop none c' (.inr ⟨.inr rfl, h⟩) fun _ => h.needsReset
  · rintro _ c' ⟨rfl, h | h⟩
    · exact hstop _ c' (.inl ⟨rfl, h⟩) (by simp)
    · exact hstop _ c' (.inr ⟨.inl rfl, h⟩) (by simp)

end Ending

/-- An answer without records is its summary. -/
theorem responses_of_signature {body : Body} {sig : UInt8} (h : signature body = sig)
    (hp : sig ≠ PULL) (hd : sig ≠ DISCARD) (before : List Body) :
    (S.answer before body).responses = [(S.answer before body).summary] := by
  rw [Answer.responses, S.records before body (h ▸ hp) (h ▸ hd)]
  rfl

/-- RUN succeeded, and the replies to the PULL sent with it are unread. -/
structure Pipelined (S : Server) (run pull : Request) (c : BoltConnection) (m : Meta)
    (b₁ b₂ : Body) (c' : BoltConnection) : Prop where
  run : Packed run b₁
  pull : Packed pull b₂
  success : (S.answer c.log b₁).summary = .success m
  log : c'.log = c.log ++ [b₁, b₂]
  needsReset : c'.needsReset = c.needsReset
  live : Live S c' (S.answer (c.log ++ [b₁]) b₂).responses

theorem post_sendRunPull {c : BoltConnection} (h : Sound S c []) (query : String)
    (parameters extra : Meta) (n : Int64) : wp (sendRunPull S.peer query parameters extra n)
      (post (fun r c' => ∃ m b₁ b₂,
          r = (extractColumns m, (m.get "qid").bind BoltValue.asInt) ∧
          Pipelined S (Request.run query parameters extra) (Request.pull n none) c m b₁ b₂ c')
        (Stop S [Request.run query parameters extra, Request.pull n none] c)) c := by
  refine post_bind
    (post_mono (post_send h (plain_runPull query parameters extra n)) (fun _ _ h => h)
    fun _ _ hu => hu.stop ⟨[], h⟩) ?_
  rintro _ c₁ ⟨bodies, hsent⟩
  obtain ⟨b₁, b₂, hb₁, hb₂, rfl⟩ := packed_two hsent.packed
  have hpart := Partly.all hsent.packed
  have hsig : signature b₁ = RUN := hb₁.signature (plain_run ..).2
  have hrun := responses_of_signature (S := S) hsig (by decide) (by decide) c.log
  have hreplies : S.replies c.log [b₁, b₂] =
      (S.answer c.log b₁).summary :: (S.answer (c.log ++ [b₁]) b₂).responses := by
    simp [replies, hrun]
  have hlive := hsent.live
  rw [List.nil_append, hreplies] at hlive
  refine post_bind (post_mono (post_receive (.inr hlive)) (fun _ _ h => h)
    fun _ _ hu => .unread hpart hsent.log hsent.needsReset hu) ?_
  rintro r c₂ ⟨rfl, hg, -⟩
  have hlog := hg.log.trans hsent.log
  have hn := hg.needsReset.trans hsent.needsReset
  have ht : Tracked S c₂ := ⟨_, .inr hg.live⟩
  -- after a FAILURE of RUN the answer to PULL is left for the RESET to drain
  cases hr : (S.answer c.log b₁).summary with
  | success m => exact ⟨m, b₁, b₂, rfl, hb₁, hb₂, hr, hlog, hn, hg.live⟩
  | failure code message =>
    refine post_surface hpart hlog hn ht ?_
    rw [hreplies, hr]
    exact List.mem_cons_self ..
  | record v => exact .here hpart hlog hn ht (by rintro x ⟨⟩; simp)
  | ignored => exact .here hpart hlog hn ht (by rintro x ⟨⟩; simp)

structure Ran (S : Server) (run pull : Request) (c : BoltConnection) (m m' : Meta)
    (b₁ b₂ : Body) (c' : BoltConnection) : Prop where
  run : Packed run b₁
  pull : Packed pull b₂
  success : (S.answer c.log b₁).summary = .success m
  success' : (S.answer (c.log ++ [b₁]) b₂).summary = .success m'
  log : c'.log = c.log ++ [b₁, b₂]
  needsReset : c'.needsReset = c.needsReset
  live : Live S c' []

def resultOf (S : Server) (log : List Body) (m : Meta) (b₁ b₂ : Body) : QueryResult :=
  ⟨extractColumns m, (S.answer (log ++ [b₁]) b₂).records⟩

theorem post_runInner {c : BoltConnection} (h : Sound S c []) (query : String)
    (parameters extra : Meta) : wp (runInner S.peer query parameters extra)
      (post (fun r c' => ∃ m m' b₁ b₂, r = resultOf S c.log m b₁ b₂ ∧
          Ran S (Request.run query parameters extra) (Request.pull (-1) none) c m m' b₁ b₂ c')
        (Stop S [Request.run query parameters extra, Request.pull (-1) none] c)) c := by
  refine post_bind (post_sendRunPull h query parameters extra (-1)) ?_
  rintro _ c₁ ⟨m, b₁, b₂, rfl, hpipe⟩
  have hpart : Partly [Request.run query parameters extra, Request.pull (-1) none] [b₁, b₂] :=
    .all (.cons hpipe.run (.cons hpipe.pull .nil))
  obtain ⟨answer, hanswer⟩ : ∃ a, S.answer (c.log ++ [b₁]) b₂ = a := ⟨_, rfl⟩
  have hmem : answer.summary ∈ S.replies c.log [b₁, b₂] := by
    simp [replies, Answer.responses, hanswer]
  have hsum : answer.summary.isSummary = true := hanswer ▸ S.isSummary _ _
  have hlive := hpipe.live
  rw [hanswer, Answer.responses] at hlive
  -- what has been read and what has not make up the records of the answer
  let I : List (List BoltValue) → BoltConnection → Prop := fun acc c₂ => ∃ rows,
    acc ++ rows = answer.records ∧ c₂.log = c.log ++ [b₁, b₂] ∧
    c₂.needsReset = c.needsReset ∧ Live S c₂ (rows.map .record ++ [answer.summary])
  have hloop : wp (Future.loop budget (recordRound S.peer) []) (post (fun rows c₂ =>
      rows = answer.records ∧ ∃ m', answer.summary = .success m' ∧
        c₂.log = c.log ++ [b₁, b₂] ∧ c₂.needsReset = c.needsReset ∧ Live S c₂ [])
      (Stop S [Request.run query parameters extra, Request.pull (-1) none] c)) c₁ := by
    refine post_loop I ⟨_, rfl, hpipe.log, hpipe.needsReset, hlive⟩ ?_ ?_
    · rintro acc c₂ ⟨rows, hacc, hlog, hn, hl⟩
      cases rows with
      | cons row rows =>
        refine post_bind (post_mono (post_receive (.inr hl)) (fun _ _ h => h)
          fun _ _ hu => .unread hpart hlog hn hu) ?_
        rintro _ c₃ ⟨rfl, hg, -⟩
        exact ⟨rows, by rw [← hacc, List.append_assoc]; rfl, hg.log.trans hlog,
          hg.needsReset.trans hn, hg.live⟩
      | nil =>
        refine post_bind (post_mono (post_receive (.inr hl)) (fun _ _ h => h)
          fun _ _ hu => .unread hpart hlog hn hu) ?_
        rintro _ c₃ ⟨rfl, hg, -⟩
        have hlog₃ := hg.log.trans hlog
        have hn₃ := hg.needsReset.trans hn
        rw [List.append_nil] at hacc
        cases hr : answer.summary with
        | success m' => exact ⟨hacc, m', rfl, hlog₃, hn₃, hg.live⟩
        | failure code message =>
          exact post_surface hpart hlog₃ hn₃ ⟨[], .inr hg.live⟩ (hr ▸ hmem)
        | record v => rw [hr] at hsum; cases hsum
        | ignored =>
          exact .here hpart hlog₃ hn₃ ⟨[], .inr hg.live⟩ (by rintro x ⟨⟩; simp)
    · rintro acc c₂ ⟨rows, -, hlog, hn, hl⟩
      exact .here hpart hlog hn ⟨_, .inr hl⟩ (by simp)
  refine post_bind hloop ?_
  rintro _ c₂ ⟨rfl, m', hm', hlog, hn, hl⟩
  refine ⟨m, m', b₁, b₂, ?_, hpipe.run, hpipe.pull, hpipe.success, hanswer ▸ hm',
    hlog, hn, hl⟩
  rw [resultOf, hanswer]

def armed (c : BoltConnection) : BoltConnection := { c with needsReset := true }

@[simp] theorem armed_log (c : BoltConnection) : c.armed.log = c.log := rfl

theorem Live.armed {c : BoltConnection} {rs : List Response} (h : Live S c rs) :
    Live S c.armed rs :=
  h.congr rfl rfl rfl rfl

/-- An operation on a free connection that did not return a value: it did not
get past `ensure_clean`, or ended early after it. -/
def Failed (S : Server) (reqs : List Request) (c : BoltConnection) (e : Option BoltError)
    (c' : BoltConnection) : Prop :=
  (Unclean S c c' ∨ ∃ c₁, Cleaned S c c₁ ∧ Ended S reqs c₁.armed c') ∧
    Surfaced S c e c'

theorem Failed.of_stop {reqs : List Request} {c c₁ c' : BoltConnection} {e : Option BoltError}
    (hc : Cleaned S c c₁) (h : Stop S reqs c₁.armed e c') : Failed S reqs c e c' :=
  ⟨.inr ⟨c₁, hc, h.ended⟩, h.surfaced.mono hc.length_le⟩

/-- `ensure_clean`, `needs_reset = true`, and then the exchange. -/
theorem post_cleaned {α : Type} {Q : α → BoltConnection → Prop}
    {E : Option BoltError → BoltConnection → Prop} {c : BoltConnection} {f : Op α}
    (h : Tracked S c) (hE : ∀ e c', Unclean S c c' ∧ Surfaced S c e c' → E e c')
    (hf : ∀ c₁, Cleaned S c c₁ → wp f (post Q E) c₁.armed) :
    wp (do ensureClean S.peer; setNeedsReset true; f) (post Q E) c := by
  refine post_bind (post_mono (post_ensureClean h) (fun _ _ h => h) hE) ?_
  intro _ c₁ hc
  rw [Future.wp_bind, setNeedsReset, Future.wp_modify]
  exact hf c₁ hc

/-- The same, for an exchange that ends early or completes. -/
theorem post_exchange {α : Type} {Q : α → BoltConnection → Prop} {reqs : List Request}
    {c : BoltConnection} {f : Op α} (h : Tracked S c)
    (hf : ∀ c₁, Cleaned S c c₁ → wp f (post Q (Stop S reqs c₁.armed)) c₁.armed) :
    wp (do ensureClean S.peer; setNeedsReset true; f) (post Q (Failed S reqs c)) c := by
  refine post_cleaned h ?_ fun c₁ hc => ?_
  · rintro e c' ⟨hnot, hsurf⟩
    exact ⟨.inl hnot, hsurf⟩
  · exact post_mono (hf c₁ hc) (fun _ _ h => h) fun _ _ h => .of_stop hc h

theorem post_runWith {c : BoltConnection} (h : Tracked S c) (query : String)
    (parameters extra : Meta) : wp (runWith S.peer query parameters extra)
      (post (fun r c' => c'.needsReset = false ∧ ∃ c₁ m m' b₁ b₂, Cleaned S c c₁ ∧
          r = resultOf S c₁.log m b₁ b₂ ∧ Ran S (Request.run query parameters extra)
            (Request.pull (-1) none) c₁.armed m m' b₁ b₂ c'.armed)
        (Failed S [Request.run query parameters extra, Request.pull (-1) none] c)) c := by
  refine post_exchange h fun c₁ hc => ?_
  rw [Future.wp_bind, Future.wp_attempt]
  refine wp_mono (post_runInner (.inr hc.live.armed) query parameters extra) ?_
  rintro (r | e | _) c' hr
  · obtain ⟨m, m', b₁, b₂, rfl, hran⟩ := hr
    refine ⟨rfl, c₁, m, m', b₁, b₂, hc, rfl, ?_⟩
    exact ⟨hran.run, hran.pull, hran.success, hran.success', hran.log, rfl,
      hran.live.congr rfl rfl rfl rfl⟩
  · exact hr
  · exact hr

theorem post_runStreamWith {c : BoltConnection} (h : Tracked S c) (query : String)
    (parameters extra : Meta) (batch : Int64) :
    wp (runStreamWith S.peer query parameters extra batch)
      (post (fun s c' => ∃ c₁ m b₁ b₂, Cleaned S c c₁ ∧
          s = .opened (extractColumns m) ((m.get "qid").bind BoltValue.asInt) batch ∧
          Pipelined S (Request.run query parameters extra) (Request.pull batch none) c₁.armed
            m b₁ b₂ c')
        (Failed S [Request.run query parameters extra, Request.pull batch none] c)) c := by
  unfold runStreamWith validateBatch
  split_ifs with hb
  · exact ⟨.inl (.refl h), .err (by simp)⟩
  · refine post_exchange h fun c₁ hc => ?_
    refine post_bind (post_sendRunPull (.inr hc.live.armed) query parameters extra batch) ?_
    rintro _ c' ⟨m, b₁, b₂, rfl, hpipe⟩
    exact ⟨c₁, m, b₁, b₂, hc, rfl, hpipe⟩

structure Answered (S : Server) (req : Request) (c : BoltConnection) (b : Body) (r : Response)
    (c' : BoltConnection) : Prop where
  packed : Packed req b
  summary : (S.answer c.log b).summary = r
  log : c'.log = c.log ++ [b]
  needsReset : c'.needsReset = c.needsReset
  live : Live S c' []

theorem Answered.mem_replies {req : Request} {c c' : BoltConnection} {b : Body} {r : Response}
    (h : Answered S req c b r c') : r ∈ S.replies c.log [b] := by
  rw [replies_singleton, Answer.responses, h.summary]
  simp

/-- A request answered by a summary alone, and what is done with it. -/
theorem post_request {α : Type} {Q : α → BoltConnection → Prop} {c : BoltConnection}
    {req : Request}
    {E : Option BoltError → BoltConnection → Prop} {g : Response → Op α} (h : Sound S c [])
    (hplain : Plain req) (hp : req.signature ≠ PULL) (hd : req.signature ≠ DISCARD)
    (hE : ∀ e c', Stop S [req] c e c' → E e c')
    (hg : ∀ r b c', Answered S req c b r c' → wp (g r) (post Q E) c') :
    wp (do writeMessage S.peer req; g (← readMessage)) (post Q E) c := by
  refine post_bind (post_mono (post_send h (by simpa using hplain)) (fun _ _ h => h)
    fun _ _ hu => hE _ _ (hu.stop ⟨[], h⟩)) ?_
  rintro _ c₁ ⟨bodies, hsent⟩
  obtain ⟨b, hb, rfl⟩ := packed_one hsent.packed
  have hlive := hsent.live
  rw [List.nil_append, replies_singleton,
    responses_of_signature (hb.signature hplain.2) hp hd] at hlive
  refine post_bind (post_mono (post_receive (.inr hlive)) (fun _ _ h => h)
    fun _ _ hu => hE _ _ (.unread (.all hsent.packed) hsent.log hsent.needsReset hu)) ?_
  rintro r c₂ ⟨rfl, hg', -⟩
  exact hg _ b c₂ ⟨hb, rfl, hg'.log.trans hsent.log, hg'.needsReset.trans hsent.needsReset,
    hg'.live⟩

/-- The summary is no SUCCESS: the operation ends with it. -/
theorem Answered.stop {req : Request} {c c' : BoltConnection} {b : Body} {r : Response}
    {x : BoltError} (h : Answered S req c b r c') (hx : Local x ∨ ∃ code message,
      x = .failure code message ∧ r = .failure code message) : Stop S [req] c (some x) c' := by
  have hend : Stop S [req] c none c' :=
    .here (.all (.cons h.packed .nil)) h.log h.needsReset ⟨[], .inr h.live⟩ (by simp)
  refine ⟨hend.ended, ?_, by simp⟩
  rcases hx with hx | ⟨code, message, rfl, rfl⟩
  · exact .err hx
  · rintro code' message' ⟨⟩
    rw [h.log, since_append]
    exact h.mem_replies

/-- The summary is a FAILURE that is recovered from before it is reported. -/
theorem Answered.surface {α : Type} {Q : α → BoltConnection → Prop} {req : Request}
    {c c' : BoltConnection} {b : Body} {code message : String}
    (h : Answered S req c b (.failure code message) c') :
    wp (do Future.throw (← failReset S.peer code message) : Op α) (post Q (Stop S [req] c)) c' :=
  post_surface (.all (.cons h.packed .nil)) h.log h.needsReset ⟨[], .inr h.live⟩ h.mem_replies

theorem Answered.armed {req : Request} {c c' : BoltConnection} {b : Body} {r : Response}
    (h : Answered S req c.armed b r c') : Answered S req c.armed b r c'.armed :=
  ⟨h.packed, h.summary, h.log, rfl, h.live.armed⟩

theorem post_beginWith {c : BoltConnection} (h : Tracked S c) (opts : TxOptions) :
    wp (beginWith S.peer opts)
      (post (fun _ c' => c'.needsReset = false ∧ ∃ c₁ m b, Cleaned S c c₁ ∧
          Answered S (Request.begin opts.intoMeta) c₁.armed b (.success m) c'.armed)
        (Failed S [Request.begin opts.intoMeta] c)) c := by
  refine post_exchange h fun c₁ hc => ?_
  refine post_request (.inr hc.live.armed) (plain_begin _) (show BEGIN ≠ PULL by decide)
    (show BEGIN ≠ DISCARD by decide) (fun _ _ h => h) ?_
  intro r b c' ha
  cases r with
  | success m => exact ⟨rfl, c₁, m, b, hc, ha.armed⟩
  | failure code message => exact ha.stop (.inr ⟨code, message, rfl, rfl⟩)
  | record v => exact ha.stop (.inl (by simp))
  | ignored => exact ha.stop (.inl (by simp))

theorem post_route {c : BoltConnection} (h : Tracked S c) (context : Meta) (db : Option String) :
    wp (route S.peer context db)
      (post (fun table c' => c'.needsReset = false ∧ ∃ c₁ m b, Cleaned S c c₁ ∧
          RoutingTable.fromMeta m = .ok table ∧
          Answered S (Request.route context db) c₁.armed b (.success m) c'.armed)
        fun e c' => Failed S [Request.route context db] c e c' ∨
          -- a SUCCESS whose metadata is no routing table
          c'.needsReset = false ∧ Surfaced S c e c' ∧ ∃ c₁ m b, Cleaned S c c₁ ∧
          Answered S (Request.route context db) c₁.armed b (.success m) c'.armed) c := by
  refine post_cleaned h ?_ fun c₁ hc => ?_
  · rintro e c' ⟨hnot, hsurf⟩
    exact .inl ⟨.inl hnot, hsurf⟩
  have hstop : ∀ e c', Stop S [Request.route context db] c₁.armed e c' →
      Failed S [Request.route context db] c e c' := fun _ _ h => .of_stop hc h
  refine post_request (.inr hc.live.armed) (plain_route _ _) (show ROUTE ≠ PULL by decide)
    (show ROUTE ≠ DISCARD by decide) (fun e c' h => .inl (hstop e c' h)) ?_
  intro r b c' ha
  cases r with
  | success m =>
    rw [Future.wp_bind, setNeedsReset, Future.wp_modify, Future.andThen]
    cases ht : RoutingTable.fromMeta m with
    | ok table => exact ⟨rfl, c₁, m, b, hc, ht, ha.armed⟩
    | error e =>
      obtain ⟨message, rfl⟩ := RoutingTable.fromMeta_error ht
      exact .inr ⟨rfl, .err (by simp), c₁, m, b, hc, ha.armed⟩
  | failure code message =>
    exact post_mono ha.surface (fun _ _ h => h) fun e c' h => .inl (hstop e c' h)
  | record v => exact .inl (hstop _ _ (ha.stop (.inl (by simp))))
  | ignored => exact .inl (hstop _ _ (ha.stop (.inl (by simp))))

end BoltConnection
end Boltwire
