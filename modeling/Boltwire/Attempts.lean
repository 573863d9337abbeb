import Boltwire.Transcript

namespace Boltwire
open Future Server BoltConnection Transition Execute

namespace Session

/-- The session is as its transcript says. -/
structure Kept (s : Session) : Prop where
  log : s.client.conn.log = s.before ++ s.sent
  transcript : Transcript s.server s.before s.worked s.sent

/-- The last request is the COMMIT of a transaction begun with these options, and the
server has applied it and answered with this bookmark. -/
def Applied (s : Session) (opts : TxOptions) (bookmark : Option String) : Prop :=
  s.worked = some (.ok ()) ∧ ∃ sent b m, s.sent = sent ++ [b] ∧
    Underway s.server opts s.before sent ∧ Packed Request.commit b ∧
    (s.server.answer (s.before ++ sent) b).summary = .success m ∧ metaStr m "bookmark" = bookmark

/-- What a call that stands here knows of the session of its attempt. -/
def Stands (s : Session) : Execute.Task → Prop
  | .reading | .beginning _ =>
    s.sent = [] ∧ s.worked = none ∧ ∃ c, s.client = .free c ∧ Pooled.AtRest s.server c
  | .working opts => Underway s.server opts s.before s.sent ∧ s.worked = none ∧
    Inv s.server.law s.client ∧ s.client.transacting = true
  | .committing opts => Underway s.server opts s.before s.sent ∧ s.worked = some (.ok ()) ∧
    Inv s.server.law s.client ∧ ∃ h t, s.client = .inTx h t
  | .rollingBack x => (∃ opts, Underway s.server opts s.before s.sent) ∧
    s.worked = some (.error x) ∧ Inv s.server.law s.client ∧ ∃ h t, s.client = .inTx h t
  | .merging bookmark => ∃ opts, s.Applied opts (some bookmark)
  | .returned bookmark => ∃ opts, s.Applied opts bookmark
  | _ => True

/-- The session goes on with a call that sends these. -/
theorem sent_eq {s : Session} {sent : List Body} (h : s.client.conn.log = s.before ++ sent) :
    s.sent = sent := by
  rw [Session.sent, h, List.drop_left]

variable {s : Session} {client : Client} {bodies : List Body}

theorem Kept.log_exec (h : s.Kept) (hlog : client.conn.log = s.client.conn.log ++ bodies) :
    client.conn.log = s.before ++ (s.sent ++ bodies) := by
  rw [hlog, h.log, List.append_assoc]

theorem Kept.sent_exec (h : s.Kept) (hlog : client.conn.log = s.client.conn.log ++ bodies) :
    ({ s with client } : Session).sent = s.sent ++ bodies :=
  sent_eq (s := { s with client }) (h.log_exec hlog)

theorem Kept.exec (h : s.Kept) (hlog : client.conn.log = s.client.conn.log ++ bodies)
    (ht : Transcript s.server s.before s.worked (s.sent ++ bodies)) :
    ({ s with client } : Session).Kept := by
  refine ⟨?_, ?_⟩
  · rw [h.sent_exec hlog]
    exact h.log_exec hlog
  · rw [h.sent_exec hlog]
    exact ht

/-- Nothing but COMMIT counts. -/
theorem Kept.applied_exec (h : s.Kept) (hlog : client.conn.log = s.client.conn.log ++ bodies)
    (hb : ∀ b ∈ bodies, signature b ≠ COMMIT) :
    ({ s with client } : Session).applied = s.applied := by
  rw [applied, h.sent_exec hlog]
  change follow (countApplied s.server) 0 s.before (s.sent ++ bodies) = s.applied
  rw [follow_append, follow_countApplied _ _ hb]
  rfl

end Session

def attached : Execute.Task → Bool
  | .acquiring | .refreshing _ | .waiting _ | .failed _ | .cancelled => false
  | _ => true

structure Execution.Inv (e : Execution) : Prop where
  kept : ∀ s ∈ e.sessions, s.Kept
  stands : attached e.task = true → ∃ s past, e.sessions = s :: past ∧ s.Stands e.task

/-- A transaction begun with `p.2` was committed in the session, with bookmark `p.1`. -/
def Session.Committed (s : Session) (p : String × Request) : Prop :=
  ∃ opts sent b m rest, p.2 = Request.begin opts.intoMeta ∧ s.sent = sent ++ b :: rest ∧
    Underway s.server opts s.before sent ∧ Packed Request.commit b ∧
    (s.server.answer (s.before ++ sent) b).summary = .success m ∧
    metaStr m "bookmark" = some p.1

/-- What a move of one call does. -/
structure Advance (granted : ℕ → Bool) (s : Inner) (e : Execution) (s' : Inner)
    (e' : Execution) : Prop where
  inv : e'.Inv
  refines : s' = s ∧ e'.abstract = e.abstract ∨
    ∃ m, Execute.move granted m s e.abstract = some (s', e'.abstract)
  grows : ∀ session ∈ e.sessions, ∃ session' ∈ e'.sessions,
    session'.server = session.server ∧
    session'.before = session.before ∧ session.sent <+: session'.sent
  commits : ∀ p ∈ s'.commits, p ∈ s.commits ∨
    ∃ session ∈ e'.sessions, session.Committed p

section Advance
variable {granted : ℕ → Bool} {s s' : Inner} {e e' : Execution} {session : Session}
  {past : List Session} {client : Client} {bodies : List Body} {t : Execute.Task}

theorem detached_failedWith (x : BoltError) : attached (failedWith x) = false := by
  unfold failedWith
  split_ifs <;> rfl

/-- No connection is touched. -/
theorem Advance.quiet (hi : e.Inv) (hsessions : e'.sessions = e.sessions)
    (hstands : attached e'.task = true → ∃ s past, e'.sessions = s :: past ∧ s.Stands e'.task)
    (hcommits : s'.commits = s.commits) {m : Execute.Move}
    (hm : Execute.move granted m s e.abstract = some (s', e'.abstract)) :
    Advance granted s e s' e' := by
  refine ⟨⟨hsessions ▸ hi.kept, hstands⟩, .inr ⟨m, hm⟩, ?_,
    fun p hp => .inl (hcommits ▸ hp)⟩
  intro session hs
  exact ⟨session, hsessions ▸ hs, rfl, rfl, List.prefix_refl _⟩

theorem Execution.exec_eq_some {call : Call} {sched : List Choice}
    {o : Outcome BoltError Reply} (h : e.exec call sched = some (o, e')) :
    ∃ session past client, e.sessions = session :: past ∧
      Client.exec session.server.peer call (session.client.withSched sched) = some (o, client) ∧
      e' = { e with sessions := { session with client } :: past } := by
  unfold Execution.exec at h
  split at h
  · cases h
  · rename_i session past hsessions
    obtain ⟨⟨o', client⟩, hexec, heq⟩ := Option.map_eq_some_iff.mp h
    cases heq
    exact ⟨session, past, client, hsessions, hexec, rfl⟩

/-- The session of the attempt goes on. -/
theorem Execution.Inv.exec (hi : e.Inv) (hsessions : e.sessions = session :: past)
    (hlog : client.conn.log = session.client.conn.log ++ bodies)
    (ht : Transcript session.server session.before session.worked (session.sent ++ bodies))
    (hstands : attached t = true → ({ session with client } : Session).Stands t) :
    Execution.Inv { e with task := t, sessions := { session with client } :: past } := by
  have hk : session.Kept := hi.kept session (by rw [hsessions]; exact List.mem_cons_self ..)
  refine ⟨?_, fun ha => ⟨_, past, rfl, hstands ha⟩⟩
  intro s₁ hs₁
  rcases List.mem_cons.mp hs₁ with rfl | hs₁
  · exact hk.exec hlog ht
  · exact hi.kept s₁ (by rw [hsessions]; exact List.mem_cons_of_mem _ hs₁)

theorem grows_exec (hi : e.Inv) (hsessions : e.sessions = session :: past)
    (hlog : client.conn.log = session.client.conn.log ++ bodies) :
    ∀ s₁ ∈ e.sessions, ∃ s₂ ∈ { session with client } :: past,
      s₂.server = s₁.server ∧ s₂.before = s₁.before ∧ s₁.sent <+: s₂.sent := by
  have hk : session.Kept := hi.kept session (by rw [hsessions]; exact List.mem_cons_self ..)
  intro s₁ hs₁
  rw [hsessions] at hs₁
  rcases List.mem_cons.mp hs₁ with rfl | hs₁
  · refine ⟨_, List.mem_cons_self .., rfl, rfl, ?_⟩
    rw [hk.sent_exec hlog]
    exact List.prefix_append _ _
  · exact ⟨s₁, List.mem_cons_of_mem _ hs₁, rfl, rfl, List.prefix_refl _⟩

/-- As far as `Boltwire.Execute` can see, only COMMIT does anything. -/
theorem abstract_exec (hi : e.Inv) (hsessions : e.sessions = session :: past)
    (hlog : client.conn.log = session.client.conn.log ++ bodies)
    (hb : ∀ b ∈ bodies, signature b ≠ COMMIT) :
    Execution.abstract { e with task := t, sessions := { session with client } :: past } =
      e.abstract.goto t := by
  have hk : session.Kept := hi.kept session (by rw [hsessions]; exact List.mem_cons_self ..)
  simp only [Execution.abstract, Call.goto, hsessions, List.map_cons, hk.applied_exec hlog hb]

/-- The session goes on with anything but COMMIT. -/
theorem Advance.exec (hi : e.Inv) (hsessions : e.sessions = session :: past)
    (hlog : client.conn.log = session.client.conn.log ++ bodies)
    (ht : Transcript session.server session.before session.worked (session.sent ++ bodies))
    (hb : ∀ b ∈ bodies, signature b ≠ COMMIT)
    (hstands : attached t = true → ({ session with client } : Session).Stands t)
    (hm : e.abstract.goto t = e.abstract ∨
      ∃ m, Execute.move granted m s e.abstract = some (s, e.abstract.goto t)) :
    Advance granted s e s { e with task := t, sessions := { session with client } :: past } := by
  refine ⟨hi.exec hsessions hlog ht hstands, ?_, grows_exec hi hsessions hlog, fun p => .inl⟩
  rw [abstract_exec hi hsessions hlog hb]
  exact hm.imp (fun h => ⟨rfl, h⟩) id

/-- A connection at rest is handed out. -/
theorem Advance.acquired (hi : e.Inv) {S : Server} {c : BoltConnection} (hr : Pooled.AtRest S c)
    (ht : e.task = .acquiring) : Advance granted s e s
      { e with task := .reading, sessions := ⟨S, .free c, c.log, none⟩ :: e.sessions } := by
  have hsent : (⟨S, .free c, c.log, none⟩ : Session).sent = [] :=
    Session.sent_eq (s := ⟨S, .free c, c.log, none⟩) (List.append_nil _).symm
  refine ⟨⟨?_, fun _ => ⟨_, _, rfl, hsent, rfl, c, rfl, hr⟩⟩,
    .inr ⟨.acquired (.ok ()), ?_⟩, ?_, fun p => .inl⟩
  · intro s₁ hs₁
    rcases List.mem_cons.mp hs₁ with rfl | hs₁
    · refine ⟨?_, ?_⟩
      · rw [hsent]
        exact (List.append_nil _).symm
      · rw [hsent]
        exact .unbegun (.nil (Request.begin TxOptions.default.intoMeta))
    · exact hi.kept s₁ hs₁
  · have happlied : (⟨S, .free c, c.log, none⟩ : Session).applied = 0 := by
      rw [Session.applied, hsent]
      rfl
    simp [Execute.move, Execution.abstract, ht, Execute.Call.andThen, Execute.Call.goto, happlied]
  · intro s₁ hs₁
    exact ⟨s₁, List.mem_cons_of_mem _ hs₁, rfl, rfl, List.prefix_refl _⟩

theorem Advance.begin (hi : e.Inv) {opts : TxOptions} (ht : e.task = .beginning opts)
    {sched : List Choice} (h : Managed.move granted (.begin sched) s e = some (s', e')) :
    Advance granted s e s' e' := by
  simp only [Managed.move, ht] at h
  obtain ⟨⟨o, e₁⟩, hexec, heq⟩ := Option.map_eq_some_iff.mp h
  obtain ⟨session, past, client, hsessions, hcall, rfl⟩ := Execution.exec_eq_some hexec
  obtain ⟨s₁, past₁, hsessions₁, hstands⟩ := hi.stands (by rw [ht]; rfl)
  cases hsessions.symm.trans hsessions₁
  rw [ht] at hstands
  obtain ⟨hsent, hworked, c, hclient, hr⟩ := hstands
  have hlog₀ : session.before = c.log := by
    have hk := (hi.kept session (by rw [hsessions]; exact List.mem_cons_self ..)).log
    rw [hsent, hclient, List.append_nil] at hk
    exact hk.symm
  rw [hclient] at hcall
  obtain ⟨bodies, hlog, hok, hno⟩ := exec_beginWith hr hcall
  have hlog' : client.conn.log = session.client.conn.log ++ bodies := by
    rw [hclient]
    exact hlog
  have hnone : (∀ r, o ≠ .ok r) → Transcript session.server session.before session.worked
      (session.sent ++ bodies) ∧ ∀ b ∈ bodies, signature b ≠ COMMIT := by
    intro hne
    rw [hsent, hworked]
    refine ⟨.unbegun (hno hne), fun b hb => ?_⟩
    rcases (hno hne).signature (plain_begin _) b hb with hsig | hsig
    · exact hsig ▸ show BEGIN ≠ COMMIT by decide
    · exact hsig ▸ show RESET ≠ COMMIT by decide
  cases heq
  cases o with
  | ok r =>
    obtain ⟨hinv, hwithin, hway⟩ := hok ⟨r, rfl⟩
    rw [← hlog₀] at hway
    refine .exec (t := .working opts) hi hsessions hlog' ?_ hway.ne_commit ?_
      (.inr ⟨.begun (.ok ()), ?_⟩)
    · rw [hsent, hworked]
      exact .underway hway
    · intro _
      refine ⟨?_, hworked, hinv, hwithin⟩
      have hk := hi.kept session (by rw [hsessions]; exact List.mem_cons_self ..)
      rw [hk.sent_exec hlog', hsent]
      exact hway
    · simp [Execute.move, Execution.abstract, ht, Execute.Call.andThen]
  | err x =>
    obtain ⟨htrans, hb⟩ := hnone (by simp)
    refine .exec (t := failedWith x) hi hsessions hlog' htrans hb (fun ha => ?_)
      (.inr ⟨.begun (.error x), ?_⟩)
    · rw [detached_failedWith] at ha
      cases ha
    · simp [Execute.move, Execution.abstract, ht, Execute.Call.andThen]
  | dropped =>
    obtain ⟨htrans, hb⟩ := hnone (by simp)
    refine .exec (t := .cancelled) hi hsessions hlog' htrans hb (fun ha => ?_)
      (.inr ⟨.cancel false, ?_⟩)
    · cases ha
    · simp [Execute.move, Execution.abstract, ht]

theorem Advance.call (hi : e.Inv) {opts : TxOptions} (ht : e.task = .working opts) {call : Call}
    {sched : List Choice} (h : Managed.move granted (.call call sched) s e = some (s', e')) :
    Advance granted s e s' e' := by
  simp only [Managed.move, ht] at h
  split_ifs at h with hworks
  obtain ⟨⟨o, e₁⟩, hexec, heq⟩ := Option.map_eq_some_iff.mp h
  obtain ⟨session, past, client, hsessions, hcall, rfl⟩ := Execution.exec_eq_some hexec
  obtain ⟨s₁, past₁, hsessions₁, hstands⟩ := hi.stands (by rw [ht]; rfl)
  cases hsessions.symm.trans hsessions₁
  rw [ht] at hstands
  obtain ⟨hway, hworked, hinv, hwithin⟩ := hstands
  obtain ⟨hinv', hwithin', bodies, hlog, hb⟩ := exec_works hinv hwithin hworks hcall
  have hk := hi.kept session (by rw [hsessions]; exact List.mem_cons_self ..)
  cases heq
  have hsame : e.abstract.goto (.working opts) = e.abstract := by
    simp [Execution.abstract, Execute.Call.goto, ht]
  have hadvance : Advance granted s e s
      { e with task := .working opts, sessions := { session with client } :: past } := by
    refine .exec hi hsessions hlog ?_ (fun b hmem => (hb b hmem).ne_commit) (fun _ => ?_)
      (.inl hsame)
    · rw [hworked]
      exact .underway (hway.append hb)
    · refine ⟨?_, hworked, hinv', hwithin'⟩
      rw [hk.sent_exec hlog]
      exact hway.append hb
  rwa [← ht] at hadvance

theorem Execution.finishWork_eq_some {r : Except BoltError Unit} (h : e.finishWork r = some e') :
    ∃ session past hist t, e.sessions = session :: past ∧ session.client = .inTx hist t ∧
      e' = { e with sessions := { session with worked := some r } :: past } := by
  unfold Execution.finishWork at h
  split at h
  · cases h
  · rename_i session past hsessions
    split at h
    · rename_i hist t hclient
      cases h
      exact ⟨session, past, hist, t, hsessions, hclient, rfl⟩
    · cases h

/-- The work returns. -/
theorem Advance.worked (hi : e.Inv) {opts : TxOptions} (ht : e.task = .working opts)
    {r : Except BoltError Unit} (h : e.finishWork r = some e')
    (htask : t = match r with
      | .ok () => .committing opts
      | .error x => .rollingBack x) : Advance granted s e s (e'.goto t) := by
  obtain ⟨session, past, hist, t, hsessions, hclient, rfl⟩ := Execution.finishWork_eq_some h
  obtain ⟨s₁, past₁, hsessions₁, hstands⟩ := hi.stands (by rw [ht]; rfl)
  cases hsessions.symm.trans hsessions₁
  rw [ht] at hstands
  obtain ⟨hway, -, hinv, -⟩ := hstands
  have hmem : session ∈ e.sessions := by
    rw [hsessions]
    exact List.mem_cons_self ..
  have htrans : Transcript session.server session.before (some r) session.sent := by
    rw [← List.append_nil session.sent]
    cases r with
    | ok u => exact .committing hway (.nil _)
    | error x => exact .rollingBack hway (.nil _)
  refine ⟨⟨?_, fun _ => ⟨_, past, rfl, ?_⟩⟩, .inr ⟨.worked r, ?_⟩, ?_,
    fun p => .inl⟩
  · intro s₁ hs₁
    rcases List.mem_cons.mp hs₁ with rfl | hs₁
    · exact ⟨(hi.kept session hmem).log, htrans⟩
    · exact hi.kept s₁ (by rw [hsessions]; exact List.mem_cons_of_mem _ hs₁)
  · subst htask
    cases r with
    | ok u => exact ⟨hway, rfl, hinv, hist, t, hclient⟩
    | error x => exact ⟨⟨opts, hway⟩, rfl, hinv, hist, t, hclient⟩
  · have happlied : Session.applied { session with worked := some r } = session.applied := rfl
    subst htask
    cases r with
    | ok u =>
      simp [Execute.move, Execution.abstract, Execution.goto, ht, Execute.Call.goto,
        hsessions, happlied]
    | error x =>
      simp [Execute.move, Execution.abstract, Execution.goto, ht, Execute.Call.goto,
        hsessions, happlied]
  · intro s₁ hs₁
    rw [hsessions] at hs₁
    rcases List.mem_cons.mp hs₁ with rfl | hs₁
    · exact ⟨_, List.mem_cons_self .., rfl, rfl, List.prefix_refl _⟩
    · exact ⟨s₁, List.mem_cons_of_mem _ hs₁, rfl, rfl, List.prefix_refl _⟩

theorem Advance.rollback (hi : e.Inv) {x : BoltError} (ht : e.task = .rollingBack x)
    {sched : List Choice} (h : Managed.move granted (.rollback sched) s e = some (s', e')) :
    Advance granted s e s' e' := by
  simp only [Managed.move, ht] at h
  obtain ⟨⟨o, e₁⟩, hexec, heq⟩ := Option.map_eq_some_iff.mp h
  obtain ⟨session, past, client, hsessions, hcall, rfl⟩ := Execution.exec_eq_some hexec
  obtain ⟨s₁, past₁, hsessions₁, hstands⟩ := hi.stands (by rw [ht]; rfl)
  cases hsessions.symm.trans hsessions₁
  rw [ht] at hstands
  obtain ⟨⟨opts, hway⟩, hworked, hinv, hist, t, hclient⟩ := hstands
  rw [hclient] at hcall hinv
  obtain ⟨bodies, hlog, htail⟩ := exec_rollback hinv hcall
  have hlog' : client.conn.log = session.client.conn.log ++ bodies := by
    rw [hclient]
    exact hlog
  have htrans : Transcript session.server session.before session.worked
      (session.sent ++ bodies) := by
    rw [hworked]
    exact .rollingBack hway htail
  have hb : ∀ b ∈ bodies, signature b ≠ COMMIT := by
    intro b hb
    rcases htail.signature plain_rollback b hb with hsig | hsig
    · exact hsig ▸ show ROLLBACK ≠ COMMIT by decide
    · exact hsig ▸ show RESET ≠ COMMIT by decide
  have hfailed : Advance granted s e s
      { e with task := failedWith x, sessions := { session with client } :: past } := by
    refine .exec hi hsessions hlog' htrans hb (fun ha => ?_) (.inr ⟨.rolledBack, ?_⟩)
    · rw [detached_failedWith] at ha
      cases ha
    · simp [Execute.move, Execution.abstract, ht]
  cases heq
  cases o with
  | ok r => exact hfailed
  | err y => exact hfailed
  | dropped =>
    refine .exec (t := .cancelled) hi hsessions hlog' htrans hb (fun ha => ?_)
      (.inr ⟨.cancel false, ?_⟩)
    · cases ha
    · simp [Execute.move, Execution.abstract, ht]

/-- COMMIT counts if the server applies it. -/
theorem abstract_commit (hi : e.Inv) (hsessions : e.sessions = session :: past)
    (hlog : client.conn.log = session.client.conn.log ++ bodies) {opts : TxOptions}
    (hway : Underway session.server opts session.before session.sent) {applied : Bool}
    (hcount : follow (Session.countApplied session.server) 0 session.before
      (session.sent ++ bodies) = 0 + applied.toNat) :
    Execution.abstract { e with task := t, sessions := { session with client } :: past } =
      (e.abstract.applies applied).goto t := by
  have hk : session.Kept := hi.kept session (by rw [hsessions]; exact List.mem_cons_self ..)
  have hzero : session.applied = 0 := Session.follow_countApplied 0 _ hway.ne_commit
  have hafter : Session.applied { session with client } = applied.toNat := by
    rw [Session.applied, hk.sent_exec hlog]
    exact hcount.trans (Nat.zero_add _)
  simp only [Execution.abstract, Execute.Call.goto, Execute.Call.applies, hsessions, List.map_cons,
    List.sum_cons, hzero, hafter, Nat.add_comm, Nat.add_zero]

theorem Advance.commit (hi : e.Inv) {opts : TxOptions} (ht : e.task = .committing opts)
    {sched : List Choice} (h : Managed.move granted (.commit sched) s e = some (s', e')) :
    Advance granted s e s' e' := by
  simp only [Managed.move, ht] at h
  obtain ⟨⟨o, e₁⟩, hexec, heq⟩ := Option.bind_eq_some_iff.mp h
  obtain ⟨session, past, client, hsessions, hcall, rfl⟩ := Execution.exec_eq_some hexec
  obtain ⟨s₁, past₁, hsessions₁, hstands⟩ := hi.stands (by rw [ht]; rfl)
  cases hsessions.symm.trans hsessions₁
  rw [ht] at hstands
  obtain ⟨hway, hworked, hinv, hist, t, hclient⟩ := hstands
  rw [hclient] at hcall hinv
  obtain ⟨bodies, hlog, htail, hok⟩ := exec_commit hinv hcall
  have hk : session.Kept := hi.kept session (by rw [hsessions]; exact List.mem_cons_self ..)
  have hlog₀ : t.conn.log = session.before ++ session.sent := by
    have hkept := hk.log
    rwa [hclient] at hkept
  have hlog' : client.conn.log = session.client.conn.log ++ bodies := by
    rw [hclient]
    exact hlog
  have htrans : Transcript session.server session.before session.worked
      (session.sent ++ bodies) := by
    rw [hworked]
    exact .committing hway htail
  -- whatever becomes of the reply, the server applied it or did not
  obtain ⟨applied, hcount⟩ := Session.follow_countApplied_tail 0 hway htail
  have hnot : ∀ {task m}, attached task = false →
      Execute.move granted m s e.abstract = some (s, (e.abstract.applies applied).goto task) →
      Advance granted s e s { e with task, sessions := { session with client } :: past } := by
    intro task m hdetached hm
    refine ⟨hi.exec hsessions hlog' htrans fun ha => ?_, .inr ⟨m, ?_⟩,
      grows_exec hi hsessions hlog', fun p => .inl⟩
    · rw [hdetached] at ha
      cases ha
    · rw [abstract_commit hi hsessions hlog' hway hcount]
      exact hm
  cases o with
  | err x =>
    cases heq
    apply hnot (detached_failedWith x) (m := .uncommitted applied x)
    simp [Execute.move, Execution.abstract, ht]
  | dropped =>
    cases heq
    apply hnot rfl (m := .cancel applied)
    simp [Execute.move, Execution.abstract, ht]
  | ok r =>
    obtain ⟨b, m, rfl, hb, hm, rfl⟩ := hok r rfl
    rw [hlog₀] at hm
    have hone : follow (Session.countApplied session.server) 0 session.before
        (session.sent ++ [b]) = 0 + Bool.toNat true :=
        Session.follow_countApplied_commit 0 hway hb hm
    have happlied : ∀ bookmark, metaStr m "bookmark" = bookmark →
        Session.Applied { session with client } opts bookmark := by
      intro bookmark hbookmark
      exact ⟨hworked, session.sent, b, m, hk.sent_exec hlog', hway, hb, hm, hbookmark⟩
    dsimp only at heq
    cases hbookmark : metaStr m "bookmark" with
    | none =>
      rw [hbookmark] at heq
      cases heq
      refine ⟨hi.exec hsessions hlog' htrans fun _ => ⟨opts, happlied none hbookmark⟩,
        .inr ⟨.committed none, ?_⟩, grows_exec hi hsessions hlog', fun p => .inl⟩
      rw [Execution.goto, abstract_commit hi hsessions hlog' hway hone]
      simp [Execute.move, Execution.abstract, ht]
    | some bookmark =>
      rw [hbookmark] at heq
      cases heq
      refine ⟨hi.exec hsessions hlog' htrans fun _ => ⟨opts, happlied _ hbookmark⟩,
        .inr ⟨.committed (some bookmark), ?_⟩, grows_exec hi hsessions hlog', ?_⟩
      · rw [Execution.goto, abstract_commit hi hsessions hlog' hway hone]
        simp [Execute.move, Execution.abstract, ht]
      · intro p hp
        rcases List.mem_append.mp hp with hp | hp
        · exact .inl hp
        · obtain rfl := List.mem_singleton.mp hp
          exact .inr ⟨_, List.mem_cons_self .., opts, session.sent, b, m, [], rfl,
            hk.sent_exec hlog', hway, hb, hm, hbookmark⟩

/-- Dropped between two calls of its own: nothing is sent. -/
theorem move_cancel {c : Execute.Call} (hp : c.task.pending = true) :
    Execute.move granted (.cancel false) s c = some (s, c.goto .cancelled) := by
  have hsame : c.applies false = c := rfl
  cases ht : c.task with
  | returned _ => rw [ht] at hp; cases hp
  | failed _ => rw [ht] at hp; cases hp
  | cancelled => rw [ht] at hp; cases hp
  | _ => simp [Execute.move, ht, hsame]

/-- Every move of a call. -/
theorem advance {m : Managed.Move} (hi : e.Inv)
    (hok : ∀ S c, m = .acquired (.ok (S, c)) → Pooled.AtRest S c)
    (h : Managed.move granted m s e = some (s', e')) : Advance granted s e s' e' := by
  have hdetached : ∀ {task : Execute.Task} {P : Prop}, attached task = false →
      attached task = true → P := by
    intro task P hd ha
    rw [hd] at ha
    cases ha
  unfold Managed.move at h
  split at h
  case h_1 S c ht =>
    cases h
    exact .acquired hi (hok S c rfl) ht
  case h_2 x ht =>
    cases h
    refine .quiet hi rfl (hdetached (detached_failedWith x)) rfl (m := .acquired (.error x)) ?_
    simp [Execute.move, Execution.abstract, ht, Execution.goto, Execute.Call.andThen,
      Execute.Call.goto]
  case h_3 ht =>
    cases h
    refine .quiet hi rfl (fun _ => ?_) rfl (m := .read) ?_
    · have hstands := hi.stands (by rw [ht]; rfl)
      rwa [ht] at hstands
    · simp [Execute.move, Execution.abstract, ht, Execution.goto, Execute.Call.goto]
  case h_4 sched opts ht => exact .begin hi ht (by simp only [Managed.move, ht]; exact h)
  case h_5 call sched opts ht => exact .call hi ht (by simp only [Managed.move, ht]; exact h)
  case h_6 opts ht =>
    obtain ⟨e₁, hfin, heq⟩ := Option.map_eq_some_iff.mp h
    cases heq
    exact .worked hi ht hfin rfl
  case h_7 x opts ht =>
    obtain ⟨e₁, hfin, heq⟩ := Option.map_eq_some_iff.mp h
    cases heq
    exact .worked hi ht hfin rfl
  case h_8 sched x ht => exact .rollback hi ht (by simp only [Managed.move, ht]; exact h)
  case h_9 sched opts ht => exact .commit hi ht (by simp only [Managed.move, ht]; exact h)
  case h_10 bookmark ht =>
    cases h
    refine .quiet hi rfl (fun _ => ?_) rfl (m := .merge) ?_
    · obtain ⟨session, past, hsessions, hstands⟩ := hi.stands (by rw [ht]; rfl)
      rw [ht] at hstands
      exact ⟨session, past, hsessions, hstands⟩
    · simp [Execute.move, Execution.abstract, ht, Execution.goto, Execute.Call.goto]
  case h_11 x ht =>
    cases h
    refine .quiet hi rfl (hdetached rfl) rfl (m := .refreshed) ?_
    simp [Execute.move, Execution.abstract, ht, Execution.goto, Execute.Call.goto]
  case h_12 x ht =>
    split_ifs at h with hg
    · cases h
      refine .quiet hi rfl (hdetached rfl) rfl (m := .backoff) ?_
      simp [Execute.move, Execution.abstract, ht, hg]
    · cases h
      refine .quiet hi rfl (hdetached rfl) rfl (m := .backoff) ?_
      simp [Execute.move, Execution.abstract, ht, hg, Execution.goto, Execute.Call.goto]
  case h_13 =>
    split_ifs at h with hp
    cases h
    exact .quiet hi rfl (hdetached rfl) rfl (move_cancel hp)
  case h_14 => cases h

end Advance

theorem Session.Committed.mono {s s' : Session} {p : String × Request} (h : s.Committed p)
    (hserver : s'.server = s.server) (hbefore : s'.before = s.before) (hsent : s.sent <+: s'.sent) :
    s'.Committed p := by
  obtain ⟨opts, sent, b, m, rest, hp, heq, hway, hb, hm, hbookmark⟩ := h
  obtain ⟨more, hmore⟩ := hsent
  refine ⟨opts, sent, b, m, rest ++ more, hp, ?_, ?_, hb, ?_, hbookmark⟩
  · rw [← hmore, heq, List.append_assoc]
    rfl
  · rw [hserver, hbefore]
    exact hway
  · rw [hserver, hbefore]
    exact hm

namespace Managed
variable {granted : ℕ → Bool} {db : Option String} {s s' : Managed} {a : Action}

structure Inv (s : Managed) : Prop where
  executions : ∀ e ∈ s.executions, e.Inv
  commits : ∀ p ∈ s.inner.commits, ∃ e ∈ s.executions, ∃ session ∈ e.sessions,
    session.Committed p

theorem inv_new (db : Option String) : Inv (new db) := ⟨by simp [new], by simp [new]⟩

/-- A step is a new call, or a move of one call. -/
theorem step_cases (hi : s.Inv) (hok : Handed a s) (h : step granted a s = some s') :
    (∃ mode, a = .execute mode ∧
      s' = { s with executions := s.executions ++ [⟨mode, 1, .acquiring, []⟩] }) ∨
    ∃ i m l₁ e l₂ e' inner', a = .move i m ∧ s.executions = l₁ ++ e :: l₂ ∧
      l₁.length = i ∧
      s' = ⟨inner', l₁ ++ e' :: l₂⟩ ∧ Advance granted s.inner e inner' e' := by
  cases a with
  | execute mode =>
    cases h
    exact .inl ⟨mode, rfl, rfl⟩
  | move i m =>
    obtain ⟨⟨inner', executions'⟩, hon, rfl⟩ := Option.map_eq_some_iff.mp h
    obtain ⟨l₁, e, l₂, e', hexec, hlen, hmove, rfl⟩ := onTask_eq_some hon
    have he : e.Inv := hi.executions e (by rw [hexec]; simp)
    refine .inr ⟨i, m, l₁, e, l₂, e', inner', rfl, hexec, hlen, rfl, advance he ?_ hmove⟩
    rintro S c rfl
    exact hok

theorem Inv.step (hi : s.Inv) (hok : Handed a s) (h : step granted a s = some s') : s'.Inv := by
  rcases step_cases hi hok h with ⟨mode, rfl, rfl⟩
    | ⟨i, m, l₁, e, l₂, e', inner', rfl, hexec, -, rfl, ha⟩
  · refine ⟨forall_concat hi.executions ⟨by simp, fun h => by cases h⟩, ?_⟩
    intro p hp
    obtain ⟨e, he, hcommitted⟩ := hi.commits p hp
    exact ⟨e, List.mem_append_left _ he, hcommitted⟩
  · refine ⟨forall_replace (hexec ▸ hi.executions) ha.inv, ?_⟩
    intro p hp
    have hmem : e' ∈ l₁ ++ e' :: l₂ := by simp
    rcases ha.commits p hp with hold | hnew
    · obtain ⟨e₁, he₁, session, hs, hcommitted⟩ := hi.commits p hold
      rw [hexec] at he₁
      rcases List.mem_append.mp he₁ with he₁ | he₁
      · exact ⟨e₁, List.mem_append_left _ he₁, session, hs, hcommitted⟩
      · rcases List.mem_cons.mp he₁ with rfl | he₁
        · obtain ⟨session', hs', hserver, hbefore, hsent⟩ := ha.grows session hs
          exact ⟨e', hmem, session', hs', hcommitted.mono hserver hbefore hsent⟩
        · exact ⟨e₁, List.mem_append_right _ (List.mem_cons_of_mem _ he₁), session, hs,
            hcommitted⟩
    · exact ⟨e', hmem, hnew⟩

theorem inv_of_run (h : Run (step granted) Handed (new db) s) : s.Inv :=
  h.invariant (inv_new db) fun _ _ _ hi hok hstep => hi.step hok hstep

/-- A step changes nothing that `Boltwire.Execute` knows of, or is a step there. -/
theorem step_refines (hi : s.Inv) (hok : Handed a s) (h : step granted a s = some s') :
    s'.abstract = s.abstract ∨
      ∃ b, Execute.step granted b s.abstract = some s'.abstract := by
  rcases step_cases hi hok h with ⟨mode, rfl, rfl⟩
    | ⟨i, m, l₁, e, l₂, e', inner', rfl, hexec, hlen, rfl, ha⟩
  · refine .inr ⟨.execute mode, ?_⟩
    simp [Execute.step, abstract, Execution.abstract]
  · rcases ha.refines with ⟨rfl, hsame⟩ | ⟨m', hm⟩
    · left
      simp [abstract, hexec, hsame]
    · refine .inr ⟨.move i m', ?_⟩
      have hat : s.abstract.calls[i]? = some e.abstract := by
        simp [abstract, hexec, ← hlen]
      have hset : s.abstract.calls.set i e'.abstract =
          (l₁ ++ e' :: l₂).map Execution.abstract := by
        simp [abstract, hexec, ← hlen]
      have hinner : s.abstract.inner = s.inner := rfl
      rw [Execute.step, onTask, hat, hinner]
      dsimp only
      rw [hm, Option.map_some, Option.map_some, hset]
      rfl

/-- Forgetting the sessions, every run is one of `Boltwire.Execute`; a COMMIT counts as
applied there exactly where the server of an attempt has answered one with SUCCESS,
whether the client got to see the answer or not. -/
theorem runs_are_execute_runs (granted : ℕ → Bool) (db : Option String)
    (h : Run (step granted) Handed (new db) s) :
    Reaches (Execute.step granted) (Execute.new db) s.abstract :=
  h.refines Managed.abstract (I := Inv) (inv_new db) (fun _ _ _ hi hok hstep => hi.step hok hstep)
    fun _ _ _ hi hok hstep => step_refines hi hok hstep

def markingMeta (body : Body) : Meta :=
  if signature body = COMMIT then [("bookmark", .string "b")] else []

theorem packable_markingMeta (body : Body) : (Response.success (markingMeta body)).Packable := by
  have hkey : (utf8 "bookmark").length < 4294967296 := by decide
  have hbookmark : (utf8 "b").length < 4294967296 := by decide
  unfold markingMeta
  split_ifs
  · simp [Response.Packable, Response.value, BoltValue.KeysDistinct, BoltValue.Sized,
      BoltValue.Forall, BoltValue.ForallSeq, BoltValue.ForallEntries, BoltValue.NodeKeysDistinct,
      BoltValue.NodeSized, hkey, hbookmark]
  · exact Response.packable_success

/-- A server that fails nothing and answers COMMIT with a bookmark. -/
def marking : Server :=
  .answering (fun _ body => ⟨[], .success (markingMeta body)⟩) (fun _ _ => rfl)
    (fun _ _ _ _ => rfl) (by
      intro before body r hr
      simp only [Answer.responses, List.map_nil, List.nil_append, List.mem_singleton] at hr
      exact hr ▸ packable_markingMeta body)

def handed : Managed :=
  ⟨⟨none, [], []⟩, [⟨.write, 1, .reading,
    [⟨marking, .free (connected [] []), (connected [] []).log, none⟩]⟩]⟩

theorem run_handed (granted : ℕ → Bool) : Run (step granted) Handed (new none) handed := by
  have hr : Pooled.AtRest marking (connected [] []) := by
    have hlive : Live marking (connected [] []) [] :=
      ⟨rfl, ⟨[], rfl⟩, .nil (dropNoops_replicate 0 []), rfl, List.nil_suffix⟩
    refine ⟨rfl, hlive, ?_, ?_⟩
    · change marking.phase (received []) = .ready
      rw [received_nil]
      rfl
    · change marking.openTx (received []) = none
      rw [received_nil]
      rfl
  have hstart : Run (step granted) Handed (new none)
      ⟨⟨none, [], []⟩, [⟨.write, 1, .acquiring, []⟩]⟩ :=
    (Run.refl _).step (a := .execute .write) trivial rfl
  exact hstart.step (a := .move 0 (.acquired (.ok (marking, connected [] [])))) hr rfl

def handsNothing : Action → Bool
  | .move _ (.acquired _) => false
  | _ => true

theorem handed_of_handsNothing (a : Action) (s : Managed) (h : handsNothing a = true) :
    Handed a s := by
  unfold Handed
  split
  · cases h
  · trivial

/-- The work runs one statement and returns, and COMMIT succeeds. -/
def runsOnce : List Action :=
  [.move 0 .read, .move 0 (.begin smooth), .move 0 (.call (.txRun "a" []) smooth),
    .move 0 (.worked (.ok ())), .move 0 (.commit smooth)]

theorem exists_of_runsOnce {look : Managed → Bool}
    (h : (play (step fun _ => true) (fun a _ => handsNothing a) handed runsOnce).map look =
      some true) :
    ∃ s, Run (step fun _ => true) Handed (new none) s ∧ look s = true := by
  obtain ⟨s, hrun, hlook⟩ := exists_of_play Handed handed_of_handsNothing h
  exact ⟨s, (run_handed _).trans hrun, hlook⟩

theorem runs_are_execute_runs_runsOnce : ∃ s : Managed,
    (s.abstract.calls.map Execute.Call.applied = [1]) ∧
    Reaches (Execute.step fun _ => true) (Execute.new none) s.abstract := by
  have hplay : (play (step fun _ => true) (fun a _ => handsNothing a) handed runsOnce).map
      (fun s => decide (s.abstract.calls.map Execute.Call.applied = [1])) = some true := by
    decide +kernel
  obtain ⟨s, hrun, hlook⟩ := exists_of_runsOnce hplay
  exact ⟨s, of_decide_eq_true hlook, runs_are_execute_runs _ none hrun⟩

/-- The server of every attempt receives BEGIN, then statements, then COMMIT only if
the work returned a value and ROLLBACK only if it returned an error. COMMIT finds the
transaction of that BEGIN open exactly if no RESET went before it, and then every RUN
of the work was received in that transaction too. -/
theorem attempts_follow_transcript (granted : ℕ → Bool) (db : Option String)
    (h : Run (step granted) Handed (new db) s) {e : Execution} (he : e ∈ s.executions)
    {session : Session} (hs : session ∈ e.sessions) :
    session.client.conn.log = session.before ++ session.sent ∧
    Transcript session.server session.before session.worked session.sent ∧
    ∀ sent b rest, session.sent = sent ++ b :: rest → signature b = COMMIT →
      session.worked = some (.ok ()) ∧ (rest = [] ∨ rest = [resetBody]) ∧
      (session.server.openTx (session.before ++ sent) = some (session.before.length + 1) ↔
        ∀ b' ∈ sent, signature b' ≠ RESET) ∧
      ((∀ b' ∈ sent, signature b' ≠ RESET) →
        ∀ sent' run after, sent = sent' ++ run :: after → signature run = RUN →
        session.server.openTx (session.before ++ sent') = some (session.before.length + 1)) := by
  have hk := ((inv_of_run h).executions e he).kept session hs
  refine ⟨hk.log, hk.transcript, ?_⟩
  intro sent b rest hsent hb
  have ht := hk.transcript
  rw [hsent] at ht
  obtain ⟨hworked, ⟨opts, hway⟩, -, hrest⟩ := ht.commit hb
  refine ⟨hworked, hrest, ?_, ?_⟩
  · rw [hway.openTx]
    split_ifs with hr
    · exact iff_of_true rfl hr
    · exact iff_of_false (by simp) hr
  · rintro hr sent' run after rfl hrun
    have hway' := hway.take (show signature run ≠ BEGIN by rw [hrun]; decide)
    rw [hway'.openTx, if_pos fun b' hb' => hr b' (List.mem_append_left _ hb')]

theorem attempts_follow_transcript_runsOnce : ∃ session : Session,
    session.sent.map signature = [BEGIN, RUN, PULL, COMMIT] ∧
    Transcript session.server session.before session.worked session.sent := by
  have hplay : (play (step fun _ => true) (fun a _ => handsNothing a) handed runsOnce).map
      (fun s => s.executions.any fun e => e.sessions.any fun session =>
        decide (session.sent.map signature = [BEGIN, RUN, PULL, COMMIT])) = some true := by
    decide +kernel
  obtain ⟨s, hrun, hlook⟩ := exists_of_runsOnce hplay
  obtain ⟨e, he, hany⟩ := List.any_eq_true.mp hlook
  obtain ⟨session, hs, hsent⟩ := List.any_eq_true.mp hany
  exact ⟨session, of_decide_eq_true hsent, (attempts_follow_transcript _ none hrun he hs).2.1⟩

/-- A call that returned has committed: the last request of its last attempt is a COMMIT
that the server answered with SUCCESS and the bookmark it returned. Every bookmark on
record was given by a server for the transaction of the BEGIN it is recorded with. -/
theorem returned_is_committed (granted : ℕ → Bool) (db : Option String)
    (h : Run (step granted) Handed (new db) s) :
    (∀ e ∈ s.executions, ∀ bookmark, e.task = .returned bookmark ∨
        (∃ b, e.task = .merging b ∧ bookmark = some b) →
      ∃ session past opts, e.sessions = session :: past ∧ session.Applied opts bookmark) ∧
    ∀ p ∈ s.inner.commits, ∃ e ∈ s.executions, ∃ session ∈ e.sessions,
      session.Committed p := by
  have hi := inv_of_run h
  refine ⟨fun e he bookmark ht => ?_, hi.commits⟩
  have hattached : attached e.task = true := by
    rcases ht with ht | ⟨b, ht, -⟩ <;> rw [ht] <;> rfl
  obtain ⟨session, past, hsessions, hstands⟩ := (hi.executions e he).stands hattached
  rcases ht with ht | ⟨b, ht, rfl⟩
  · rw [ht] at hstands
    obtain ⟨opts, happlied⟩ := hstands
    exact ⟨session, past, opts, hsessions, happlied⟩
  · rw [ht] at hstands
    obtain ⟨opts, happlied⟩ := hstands
    exact ⟨session, past, opts, hsessions, happlied⟩

/-- The bookmark is merged and returned, and its commit is on record. -/
theorem returned_is_committed_runsOnce : ∃ (s : Managed) (e : Execution),
    e.task = .returned (some "b") ∧
    (∃ session past opts, e.sessions = session :: past ∧ session.Applied opts (some "b")) ∧
    ∃ p ∈ s.inner.commits, p.1 = "b" ∧
      ∃ e ∈ s.executions, ∃ session ∈ e.sessions, session.Committed p := by
  have hplay : (play (step fun _ => true) (fun a _ => handsNothing a) handed
      (runsOnce ++ [.move 0 .merge])).map (fun s =>
        s.executions.any (fun e => e.task.bookmark == some "b") &&
        s.inner.commits.any fun p => p.1 == "b") = some true := by
    decide +kernel
  obtain ⟨s, hrun, hlook⟩ := exists_of_play Handed handed_of_handsNothing hplay
  simp only [Bool.and_eq_true, List.any_eq_true, beq_iff_eq] at hlook
  obtain ⟨⟨e, he, ht⟩, p, hp, hb⟩ := hlook
  have htask := Execute.Task.eq_returned ht
  obtain ⟨hreturned, hcommits⟩ := returned_is_committed _ none ((run_handed _).trans hrun)
  exact ⟨s, e, htask, hreturned e he (some "b") (.inl htask), p, hp, hb, hcommits p hp⟩

end Managed
end Boltwire
