import Boltwire.Pooled

namespace Boltwire
open Transition Server BoltConnection

/-- Held by a program: free, or borrowed by a stream or a transaction. -/
def Client.inUse : Client → Bool
  | .idle _ | .gone _ => false
  | _ => true

namespace Pooled
variable {L : ℕ → Listener} {s s' : Pooled} {i n : ℕ}

/-- What a call with a connection in hand expects of it. -/
def expects : Pool.Task → Client → Prop
  | .probing _, client => ∃ c, client = .idle c
  | .testing _, client | .pushing _, client => ∃ c, client = .free c ∧ c.isReusable = true
  | .held _, client => client.inUse = true
  | _, _ => True

def Fits (sessions : List Client) (t : Pool.Task) : Prop :=
  ∀ n ∈ t.conns, ∃ client, sessions[n]? = some client ∧ expects t client

def Idle (sessions : List Client) (n : ℕ) : Prop := ∃ c, sessions[n]? = some (.idle c)

theorem fits_of_conns {sessions : List Client} {t : Pool.Task} (h : t.conns = []) :
    Fits sessions t := by
  intro n hn
  rw [h] at hn
  cases hn

theorem Fits.congr {sessions sessions' : List Client} {t : Pool.Task} (h : Fits sessions t)
    (heq : ∀ n ∈ t.conns, sessions'[n]? = sessions[n]?) : Fits sessions' t := by
  intro n hn
  rw [heq n hn]
  exact h n hn

/-- Every connection that the pool manages is where the calls that have it expect it to be,
and has a history of its own from `connect` on. -/
structure Inv (L : ℕ → Listener) (s : Pooled) : Prop where
  pool : Pool.Inv s.pool
  count : s.sessions.length = s.pool.inner.minted
  idle : ∀ n ∈ s.pool.inner.idle, Idle s.sessions n
  fits : ∀ t ∈ s.pool.tasks, Fits s.sessions t
  /-- The connections a `close` still has to say goodbye to have left the pool. -/
  parting : ∀ conns, .parting conns ∈ s.pool.tasks → ∀ n ∈ conns, n ∈ s.pool.inner.gone
  histories : ∀ n client, s.sessions[n]? = some client → ∃ auth setup,
    Setup.Established (L n) auth setup ∧ Client.History (L n).peer (.free setup.conn) client

/-- Moves after which the call has no connection. -/
def calm : Pool.Move → Bool
  | .acquire | .refused _ _ | .cancel | .timeout | .release | .take | .goodbye | .detach
  | .probed false | .drop false => true
  | _ => false

theorem calm_move {m : Pool.Move} {p p' : PoolInner} {t t' : Pool.Task} (hm : calm m = true)
    (h : Pool.move m p t = some (p', t')) :
    t'.conns = [] ∧ (∀ n ∈ p'.idle, n ∈ p.idle) ∧ p'.minted = p.minted := by
  have habandon : ∀ {e}, Pool.abandon e p t = some (p', t') →
      t'.conns = [] ∧ (∀ n ∈ p'.idle, n ∈ p.idle) ∧ p'.minted = p.minted := by
    intro e h
    unfold Pool.abandon at h
    split at h <;> cases h <;> exact ⟨rfl, fun _ => id, rfl⟩
  unfold Pool.move at h
  split at h
  case h_1 =>
    split_ifs at h
    · cases h
      exact ⟨rfl, fun _ => id, rfl⟩
    · split at h <;> cases h
      exact ⟨rfl, fun _ => id, rfl⟩
  case h_3 ok _ =>
    cases ok with
    | true => cases hm
    | false =>
      cases h
      exact ⟨rfl, fun _ => id, rfl⟩
  case h_5 =>
    split_ifs at h <;> cases h <;> exact ⟨rfl, fun _ => id, rfl⟩
  case h_6 => exact habandon h
  case h_7 =>
    split_ifs at h
    exact habandon h
  case h_10 reusable _ =>
    cases reusable with
    | true => cases hm
    | false =>
      cases h
      exact ⟨rfl, fun _ => id, rfl⟩
  case h_14 =>
    cases h
    exact ⟨rfl, by simp, rfl⟩
  case h_17 => cases h
  -- the moves that are not calm, and those that leave the idle connections alone
  case h_2 | h_4 | h_12 | h_13 => cases hm
  all_goals
    cases h
    exact ⟨rfl, fun _ => id, rfl⟩

theorem gone_of_moves {p p' : PoolInner} {t t' : Pool.Task} (h : Pool.Moves p t p' t') :
    ∀ n ∈ p.gone, n ∈ p'.gone := by
  intro n hn
  cases h with
  | stale | dead | unprobed | discarded | late => exact List.mem_cons_of_mem _ hn
  | taken => exact List.mem_append_right _ hn
  | _ => exact hn

theorem parting_of_moves {p p' : PoolInner} {t t' : Pool.Task} (h : Pool.Moves p t p' t')
    (ht : ∀ conns, t = .parting conns → ∀ n ∈ conns, n ∈ p.gone) :
    ∀ conns, t' = .parting conns → ∀ n ∈ conns, n ∈ p'.gone := by
  intro conns hconns n hn
  cases h with
  | taken =>
    cases hconns
    exact List.mem_append_left _ hn
  | parted =>
    cases hconns
    exact ht _ rfl n (List.mem_cons_of_mem _ hn)
  | _ => cases hconns

/-- A move of the call at `i`, with the task it makes. -/
theorem moved_eq_some {m : Pool.Move} (h : s.moved i m = some s') : ∃ l₁ t l₂ t' p',
    s.pool.tasks = l₁ ++ t :: l₂ ∧ s.task i = some t ∧
    Pool.move m s.pool.inner t = some (p', t') ∧
      s' = ⟨⟨p', l₁ ++ t' :: l₂⟩, s.sessions⟩ := by
  obtain ⟨pool', hstep, rfl⟩ := Option.map_eq_some_iff.mp h
  cases Pool.step_steps hstep with
  | @move _ _ l₁ l₂ t t' p' htasks hlen hmove =>
    refine ⟨l₁, t, l₂, t', p', htasks, ?_, hmove, rfl⟩
    rw [task, htasks, ← hlen]
    simp

/-- Where the calls stand after a move of the one at `i`. -/
theorem moved_task {m : Pool.Move} (h : s.moved i m = some s') : ∃ t t' p', s.task i = some t ∧
    Pool.move m s.pool.inner t = some (p', t') ∧ s'.task i = some t' ∧
    ∀ j, j ≠ i → s'.task j = s.task j := by
  obtain ⟨pool', hstep, rfl⟩ := Option.map_eq_some_iff.mp h
  cases Pool.step_steps hstep with
  | @move _ _ l₁ l₂ t t' p' htasks hlen hmove =>
    have hset : l₁ ++ t' :: l₂ = s.pool.tasks.set i t' := by
      rw [htasks, ← hlen]
      simp
    have htask : s.task i = some t := by
      rw [task, htasks, ← hlen]
      simp
    obtain ⟨hlt, -⟩ := List.getElem?_eq_some_iff.mp htask
    refine ⟨t, t', p', htask, hmove, ?_, fun j hj => ?_⟩
    · change (l₁ ++ t' :: l₂)[i]? = some t'
      rw [hset, List.getElem?_set_self hlt]
    · change (l₁ ++ t' :: l₂)[j]? = s.pool.tasks[j]?
      rw [hset, List.getElem?_set_ne (Ne.symm hj)]

theorem onSession_eq_some {call : Call} {sched : List Choice} {o : Outcome BoltError Reply}
    (h : s.onSession L n call sched = some (o, s')) : ∃ client client',
    s.sessions[n]? = some client ∧
    Client.exec (L n).peer call (client.withSched sched) = some (o, client') ∧
    s' = { s with sessions := s.sessions.set n client' } := by
  unfold onSession at h
  split at h
  · cases h
  · rename_i client hclient
    obtain ⟨⟨o', client'⟩, hexec, heq⟩ := Option.map_eq_some_iff.mp h
    cases heq
    exact ⟨client, client', hclient, hexec, rfl⟩

/-- A call on a connection goes on with its history. -/
theorem Inv.histories_set (hi : Inv L s) {k : ℕ} {client client' : Client} {call : Call}
    {o : Outcome BoltError Reply} {sched : List Choice} (hclient : s.sessions[k]? = some client)
    (hexec : Client.exec (L k).peer call (client.withSched sched) = some (o, client')) :
    ∀ n client₁, (s.sessions.set k client')[n]? = some client₁ → ∃ auth setup,
      Setup.Established (L n) auth setup ∧ Client.History (L n).peer
      (.free setup.conn) client₁ := by
  obtain ⟨hlt, -⟩ := List.getElem?_eq_some_iff.mp hclient
  intro n client₁ hclient₁
  by_cases hnk : n = k
  · subst hnk
    rw [List.getElem?_set_self hlt] at hclient₁
    cases hclient₁
    obtain ⟨auth, setup, he, hrun⟩ := hi.histories n client hclient
    exact ⟨auth, setup, he, hrun.step trivial ⟨sched, hexec⟩⟩
  · rw [List.getElem?_set_ne (Ne.symm hnk)] at hclient₁
    exact hi.histories n client₁ hclient₁

section Places
variable {l₁ l₂ : List Pool.Task} {t : Pool.Task} (hi : Inv L s)
  (htasks : s.pool.tasks = l₁ ++ t :: l₂)
include hi htasks

/-- What one call has, what is idle and what is gone, no other call has. -/
theorem Inv.not_others {k : ℕ} (hk : k ∈ s.pool.inner.idle ++ t.conns ++ s.pool.inner.gone)
    {u : Pool.Task} (hu : u ∈ l₁ ++ l₂) : k ∉ u.conns := by
  intro hku
  have hnodup := hi.pool.placed.nodup_iff.mpr List.nodup_range
  have hcount := List.nodup_iff_count_le_one.mp hnodup k
  have hflat : 0 < List.count k ((l₁ ++ l₂).flatMap Pool.Task.conns) :=
    List.count_pos_iff.mpr (List.mem_flatMap.mpr ⟨u, hu, hku⟩)
  have hpos := List.count_pos_iff.mpr hk
  simp only [Pool.places, htasks, List.flatMap_append, List.flatMap_cons, List.count_append]
    at hcount hflat hpos
  omega

theorem Inv.not_idle {k : ℕ} (hk : k ∈ t.conns ++ s.pool.inner.gone) :
    k ∉ s.pool.inner.idle := by
  intro hidle
  have hnodup := hi.pool.placed.nodup_iff.mpr List.nodup_range
  have hcount := List.nodup_iff_count_le_one.mp hnodup k
  have hpos := List.count_pos_iff.mpr hk
  have hpos' := List.count_pos_iff.mpr hidle
  simp only [Pool.places, htasks, List.flatMap_append, List.flatMap_cons, List.count_append]
    at hcount hpos
  omega

omit hi in
theorem mem_task : t ∈ s.pool.tasks := by
  rw [htasks]
  simp

omit hi in
theorem mem_others {u : Pool.Task} (hu : u ∈ l₁ ++ l₂) : u ∈ s.pool.tasks := by
  rw [htasks]
  rcases List.mem_append.mp hu with hu | hu
  · exact List.mem_append_left _ hu
  · exact List.mem_append_right _ (List.mem_cons_of_mem _ hu)

/-- A call on a connection leaves the connections of the other calls alone. -/
theorem Inv.others_set {k : ℕ} (hk : k ∈ s.pool.inner.idle ++ t.conns ++ s.pool.inner.gone)
    (client : Client) {u : Pool.Task} (hu : u ∈ l₁ ++ l₂) :
    ∀ n ∈ u.conns, (s.sessions.set k client)[n]? = s.sessions[n]? := by
  intro n hn
  apply List.getElem?_set_ne
  rintro rfl
  exact hi.not_others htasks hk hu hn

/-- The call moves, and the connections of the other calls are left alone. -/
theorem Inv.advance {t' : Pool.Task} {p' : PoolInner} {sessions' : List Client}
    (hm : Pool.Moves s.pool.inner t p' t')
    (hothers : ∀ u ∈ l₁ ++ l₂, ∀ n ∈ u.conns, sessions'[n]? = s.sessions[n]?)
    (hfits : Fits sessions' t') (hidle : ∀ n ∈ p'.idle, Idle sessions' n)
    (hcount : sessions'.length = p'.minted)
    (hhist : ∀ n client, sessions'[n]? = some client → ∃ auth setup,
      Setup.Established (L n) auth setup ∧ Client.History (L n).peer (.free setup.conn) client) :
    Inv L ⟨⟨p', l₁ ++ t' :: l₂⟩, sessions'⟩ := by
  have hpool : Pool.Inv ⟨s.pool.inner, l₁ ++ t :: l₂⟩ := htasks ▸ hi.pool
  refine ⟨hpool.move hm, hcount, hidle, ?_, ?_, hhist⟩
  · intro u hu
    have hother : ∀ u ∈ l₁ ++ l₂, Fits sessions' u :=
      fun u hu => (hi.fits u (mem_others htasks hu)).congr (hothers u hu)
    rcases List.mem_append.mp hu with hu | hu
    · exact hother u (List.mem_append_left _ hu)
    · rcases List.mem_cons.mp hu with rfl | hu
      · exact hfits
      · exact hother u (List.mem_append_right _ hu)
  · intro conns hconns n hn
    have hold : ∀ u ∈ s.pool.tasks, ∀ conns, u = .parting conns → ∀ n ∈ conns,
        n ∈ s.pool.inner.gone := by
      rintro u hu conns rfl
      exact hi.parting conns hu
    have hother : ∀ u ∈ l₁ ++ l₂, u = .parting conns → n ∈ p'.gone :=
      fun u hu heq => gone_of_moves hm n (hold u (mem_others htasks hu) conns heq n hn)
    rcases List.mem_append.mp hconns with hu | hu
    · exact hother _ (List.mem_append_left _ hu) rfl
    · rcases List.mem_cons.mp hu with heq | hu
      · exact parting_of_moves hm (hold t (mem_task htasks)) conns heq.symm n hn
      · exact hother _ (List.mem_append_right _ hu) rfl

/-- The same with no connection touched. -/
theorem Inv.advance_calm {t' : Pool.Task} {p' : PoolInner} (hm : Pool.Moves s.pool.inner t p' t')
    (hfits : Fits s.sessions t') (hidle : ∀ n ∈ p'.idle, n ∈ s.pool.inner.idle)
    (hminted : p'.minted = s.pool.inner.minted) :
    Inv L ⟨⟨p', l₁ ++ t' :: l₂⟩, s.sessions⟩ :=
  hi.advance htasks hm (fun _ _ _ _ => rfl) hfits (fun n hn => hi.idle n (hidle n hn))
    (hi.count.trans hminted.symm) hi.histories

/-- The same with a call made on one connection. -/
theorem Inv.advance_session {t' : Pool.Task} {p' : PoolInner} {k : ℕ} {client client' : Client}
    {call : Call} {o : Outcome BoltError Reply} {sched : List Choice}
    (hm : Pool.Moves s.pool.inner t p' t') (hclient : s.sessions[k]? = some client)
    (hexec : Client.exec (L k).peer call (client.withSched sched) = some (o, client'))
    (hk : k ∈ s.pool.inner.idle ++ t.conns ++ s.pool.inner.gone)
    (hfits : Fits (s.sessions.set k client') t')
    (hidle : ∀ n ∈ p'.idle, n ≠ k → n ∈ s.pool.inner.idle)
    (hkidle : k ∈ p'.idle → ∃ c, client' = .idle c)
    (hminted : p'.minted = s.pool.inner.minted) :
    Inv L ⟨⟨p', l₁ ++ t' :: l₂⟩, s.sessions.set k client'⟩ := by
  obtain ⟨hlt, -⟩ := List.getElem?_eq_some_iff.mp hclient
  refine hi.advance htasks hm (fun u hu => hi.others_set htasks hk client' hu) hfits ?_
    (by rw [List.length_set, hi.count, hminted]) (hi.histories_set hclient hexec)
  intro n hn
  by_cases hnk : n = k
  · subst hnk
    obtain ⟨c, rfl⟩ := hkidle hn
    exact ⟨c, List.getElem?_set_self hlt⟩
  · obtain ⟨c, hc⟩ := hi.idle n (hidle n hn hnk)
    exact ⟨c, by rwa [List.getElem?_set_ne (Ne.symm hnk)]⟩

end Places

theorem inv_withConfig (L : ℕ → Listener) (config : PoolConfig) (acquireTimeout : Option ℕ) :
    Inv L (withConfig config acquireTimeout) :=
  ⟨Pool.inv_withConfig config acquireTimeout, rfl, by simp [withConfig, Pool.withConfig],
    by simp [withConfig, Pool.withConfig], by simp [withConfig, Pool.withConfig],
    by simp [withConfig]⟩

/-- A new call has no connection. -/
theorem Inv.call (hi : Inv L s) {p : PoolInner} {t : Pool.Task} (ht : t.permit = 0)
    (hconns : t.conns = []) (hparting : ∀ conns, t ≠ .parting conns)
    (hp : p = { s.pool.inner with closed := p.closed }) :
    Inv L { s with pool := ⟨p, s.pool.tasks ++ [t]⟩ } := by
  refine ⟨hi.pool.call ht hp, ?_, ?_, ?_, ?_, hi.histories⟩
  · rw [hp]
    exact hi.count
  · rw [hp]
    exact hi.idle
  · exact forall_concat hi.fits (fits_of_conns hconns)
  · intro conns hmem n hn
    rw [hp]
    rcases List.mem_append.mp hmem with hmem | hmem
    · exact hi.parting conns hmem n hn
    · exact absurd (List.mem_singleton.mp hmem).symm (hparting conns)

theorem Inv.moved_calm (hi : Inv L s) {m : Pool.Move} (hm : calm m = true)
    (h : s.moved i m = some s') : Inv L s' := by
  obtain ⟨l₁, t, l₂, t', p', htasks, -, hmove, rfl⟩ := moved_eq_some h
  obtain ⟨hconns, hidle, hminted⟩ := calm_move hm hmove
  exact hi.advance_calm htasks (Pool.move_moves hmove) (fits_of_conns hconns) hidle hminted

/-- A call that lets go of its connection, or of one that had left the pool. -/
theorem Inv.let_go (hi : Inv L s) {m : Pool.Move} (hm : calm m = true) {call : Call}
    {sched : List Choice} {o : Outcome BoltError Reply} {s₁ : Pooled}
    (hn : ∀ t, s.task i = some t → n ∈ t.conns ++ s.pool.inner.gone)
    (hs : s.onSession L n call sched = some (o, s₁)) (h : s₁.moved i m = some s') :
    Inv L s' := by
  obtain ⟨client, client', hclient, hexec, rfl⟩ := onSession_eq_some hs
  obtain ⟨l₁, t, l₂, t', p', htasks, htask, hmove, rfl⟩ := moved_eq_some h
  obtain ⟨hconns, hidle, hminted⟩ := calm_move hm hmove
  have hmem := hn t htask
  refine hi.advance_session htasks (Pool.move_moves hmove) hclient hexec ?_ (fits_of_conns hconns)
    (fun n hn _ => hidle n hn) (fun hk => absurd (hidle n hk) (hi.not_idle htasks hmem)) hminted
  rw [List.append_assoc]
  exact List.mem_append_right _ hmem

/-- A probe that succeeds. -/
theorem exec_checkout {peer : Peer} {client client' : Client} {expired : Bool}
    {o : Outcome BoltError Reply}
    (h : Client.exec peer (.checkout expired) client = some (o, client'))
    (ho : o.isOk = true) : ∃ c c', client = .idle c ∧ client' = .free c' ∧
      BoltConnection.reset peer c = (.ok (), c') := by
  cases Client.exec_effect h with
  | checkedOut _ hf => exact ⟨_, _, rfl, rfl, hf⟩
  | expired _ => cases ho

theorem Inv.probe (hi : Inv L s) {sched : List Choice} (h : step L (.probe i sched) s = some s') :
    Inv L s' := by
  simp only [step] at h
  split at h
  case h_2 => cases h
  case h_1 k htask =>
    obtain ⟨⟨o, s₁⟩, hs, hmoved⟩ := Option.bind_eq_some_iff.mp h
    cases ho : o.isOk with
    | false =>
      rw [ho] at hmoved
      refine hi.let_go (n := k) rfl ?_ hs hmoved
      intro t ht
      cases htask.symm.trans ht
      exact List.mem_append_left _ (List.mem_singleton_self k)
    | true =>
      rw [ho] at hmoved
      obtain ⟨client, client', hclient, hexec, rfl⟩ := onSession_eq_some hs
      obtain ⟨l₁, t, l₂, t', p', htasks, htask', hmove, rfl⟩ := moved_eq_some hmoved
      cases htask.symm.trans htask'
      have hm := Pool.move_moves hmove
      cases hmove
      obtain ⟨c, c', -, rfl, -⟩ := exec_checkout hexec ho
      obtain ⟨hlt, -⟩ := List.getElem?_eq_some_iff.mp hclient
      have hk : k ∈ s.pool.inner.idle ++ [k] ++ s.pool.inner.gone := by simp
      refine hi.advance_session htasks hm hclient hexec hk ?_ (fun n hn _ => hn)
        (fun hidle => ?_) rfl
      · intro n hn
        obtain rfl := List.mem_singleton.mp hn
        exact ⟨_, List.getElem?_set_self hlt, rfl⟩
      · exact absurd hidle (hi.not_idle htasks (by simp [Pool.Task.conns]))

theorem Inv.abandoned (hi : Inv L s) {m : Pool.Move} (hm : calm m = true) {sched : List Choice}
    (h : s.abandoned L i m sched = some s') : Inv L s' := by
  unfold Pooled.abandoned at h
  split at h
  · rename_i k htask
    obtain ⟨⟨o, s₁⟩, hs, hmoved⟩ := Option.bind_eq_some_iff.mp h
    split_ifs at hmoved
    refine hi.let_go (n := k) hm ?_ hs hmoved
    intro t ht
    cases htask.symm.trans ht
    exact List.mem_append_left _ (List.mem_singleton_self k)
  · exact hi.moved_calm hm h

/-- A pop finds nothing, or takes the connection in front. -/
theorem pop_eq_some {created idled : ℕ} {reusable : Bool} {p p' : PoolInner} {t t' : Pool.Task}
    (h : Pool.move (.pop created idled reusable) p t = some (p', t')) :
    p.idle = [] ∧ p' = p ∧ t'.conns = [] ∨ ∃ n idle, p.idle = n :: idle ∧
      p'.idle = idle ∧
      p'.minted = p.minted ∧ if p.config.expired created idled || !reusable then t'.conns = []
        else t' = .probing n := by
  cases t with
  | popping =>
    simp only [Pool.move] at h
    split at h
    · rename_i hidle
      cases h
      exact .inl ⟨hidle, rfl, rfl⟩
    · rename_i n idle hidle
      refine .inr ⟨n, idle, hidle, ?_⟩
      split_ifs at h with hdead
      · cases h
        exact ⟨rfl, rfl, by rw [if_pos hdead]; rfl⟩
      · cases h
        exact ⟨rfl, rfl, by rw [if_neg hdead]⟩
  | _ => cases h

theorem Inv.popped (hi : Inv L s) {created idled : ℕ} (h : s.popped L i created idled = some s') :
    Inv L s' := by
  unfold Pooled.popped at h
  split at h
  case h_1 hnone =>
    obtain ⟨l₁, t, l₂, t', p', htasks, -, hmove, rfl⟩ := moved_eq_some h
    rcases pop_eq_some hmove with ⟨-, rfl, hconns⟩ | ⟨n, idle, hidle, -⟩
    · exact hi.advance_calm htasks (Pool.move_moves hmove) (fits_of_conns hconns) (fun _ => id) rfl
    · cases hnone.symm.trans hidle
  case h_2 k rest hfront =>
    have hfirst : ∀ n ∈ rest, n ∈ s.pool.inner.idle := by
      intro n hn
      rw [hfront]
      exact List.mem_cons_of_mem _ hn
    split at h
    case h_2 => cases h
    case h_1 c hclient =>
      split_ifs at h with hdead
      · obtain ⟨⟨o, s₁⟩, hs, hmoved⟩ := Option.bind_eq_some_iff.mp h
        obtain ⟨client, client', hclient', hexec, rfl⟩ := onSession_eq_some hs
        obtain ⟨l₁, t, l₂, t', p', htasks, -, hmove, rfl⟩ := moved_eq_some hmoved
        rcases pop_eq_some hmove with ⟨hnone, -, -⟩
          | ⟨n, idle, hidle, hidle', hminted, hcase⟩
        · cases hnone.symm.trans hfront
        cases hidle.symm.trans hfront
        rw [if_pos hdead] at hcase
        have hnodup : k ∉ rest := by
          have hplaces := hi.pool.placed.nodup_iff.mpr List.nodup_range
          rw [Pool.places, hfront, List.append_assoc] at hplaces
          intro hmem
          exact (List.nodup_cons.mp hplaces).1 (List.mem_append_left _ hmem)
        have hk : k ∈ s.pool.inner.idle ++ t.conns ++ s.pool.inner.gone := by
          rw [hfront]
          simp
        refine hi.advance_session htasks (Pool.move_moves hmove) hclient' hexec hk
          (fits_of_conns hcase) (fun m hm _ => hfirst m (hidle' ▸ hm)) (fun hmem => ?_) hminted
        exact absurd (hidle' ▸ hmem) hnodup
      · obtain ⟨l₁, t, l₂, t', p', htasks, -, hmove, rfl⟩ := moved_eq_some h
        rcases pop_eq_some hmove with ⟨hnone, -, -⟩
          | ⟨n, idle, hidle, hidle', hminted, hcase⟩
        · cases hnone.symm.trans hfront
        cases hidle.symm.trans hfront
        rw [if_neg hdead] at hcase
        subst hcase
        refine hi.advance_calm htasks (Pool.move_moves hmove) ?_
          (fun m hm => hfirst m (hidle' ▸ hm)) hminted
        intro m hm
        obtain rfl := List.mem_singleton.mp hm
        exact ⟨_, hclient, c, rfl⟩

theorem Inv.connect (hi : Inv L s) {dialled : Except BoltError Unit} {auth : Option Auth}
    {passed : Bool} {sched : List Choice} {again : Bool}
    (h : step L (.connect i dialled auth passed sched again) s = some s') : Inv L s' := by
  simp only [step] at h
  split at h
  case h_2 => cases h
  case h_1 htask =>
    split at h
    case h_3 => cases h
    case h_2 => exact hi.moved_calm rfl h
    case h_1 setup hconnect =>
      obtain ⟨l₁, t, l₂, t', p', htasks, htask', hmove, rfl⟩ := moved_eq_some h
      cases htask.symm.trans htask'
      have hm := Pool.move_moves hmove
      cases hmove
      have he : Setup.Established (L s.pool.inner.minted) auth setup :=
        (Future.wp_of_eq (Setup.wp_connect (L s.pool.inner.minted) dialled auth passed sched)
          hconnect).2.2 rfl
      have hold : ∀ {n : ℕ} {client : Client}, s.sessions[n]? = some client →
          (s.sessions ++ [Client.free setup.conn])[n]? = some client := by
        intro n client hn
        rw [List.getElem?_append_left (List.getElem?_eq_some_iff.mp hn).1, hn]
      have hnew : (s.sessions ++ [Client.free setup.conn])[s.pool.inner.minted]? =
          some (.free setup.conn) := by
        rw [← hi.count]
        exact List.getElem?_concat_length
      refine hi.advance htasks hm ?_ ?_ ?_ ?_ ?_
      · intro u hu n hn
        obtain ⟨client, hclient, -⟩ := hi.fits u (mem_others htasks hu) n hn
        rw [hold hclient, hclient]
      · intro n hn
        obtain rfl := List.mem_singleton.mp hn
        exact ⟨_, hnew, rfl⟩
      · intro n hn
        obtain ⟨c, hc⟩ := hi.idle n hn
        exact ⟨c, hold hc⟩
      · rw [List.length_append, hi.count]
        rfl
      · intro n client hn
        by_cases hlt : n < s.sessions.length
        · rw [List.getElem?_append_left hlt] at hn
          exact hi.histories n client hn
        · obtain ⟨hlt', -⟩ := List.getElem?_eq_some_iff.mp hn
          rw [List.length_append, List.length_singleton] at hlt'
          obtain rfl : n = s.pool.inner.minted := by
            rw [← hi.count]
            omega
          cases hnew.symm.trans hn
          exact ⟨auth, setup, he, .refl _⟩

/-- A connection that is dropped, detached, tested or pushed is not borrowed. -/
theorem Inv.drop (hi : Inv L s) (h : step L (.drop i) s = some s') : Inv L s' := by
  simp only [step] at h
  split at h
  case h_2 => cases h
  case h_1 k htask =>
    split at h
    case h_2 => cases h
    case h_1 c hclient =>
      split_ifs at h with hreusable
      · obtain ⟨l₁, t, l₂, t', p', htasks, htask', hmove, rfl⟩ := moved_eq_some h
        cases htask.symm.trans htask'
        have hm := Pool.move_moves hmove
        cases hmove
        refine hi.advance_calm htasks hm ?_ (fun _ => id) rfl
        intro n hn
        obtain rfl := List.mem_singleton.mp hn
        exact ⟨_, hclient, c, rfl, hreusable⟩
      · obtain ⟨⟨o, s₁⟩, hs, hmoved⟩ := Option.bind_eq_some_iff.mp h
        refine hi.let_go (n := k) rfl ?_ hs hmoved
        intro t ht
        cases htask.symm.trans ht
        exact List.mem_append_left _ (List.mem_singleton_self k)

theorem Inv.test (hi : Inv L s) (h : step L (.test i) s = some s') : Inv L s' := by
  simp only [step] at h
  split at h
  case h_2 => cases h
  case h_1 k htask =>
    have hfits : ∀ {l₁ l₂}, s.pool.tasks = l₁ ++ .testing k :: l₂ → ∃ client,
        s.sessions[k]? = some client ∧ ∃ c, client = .free c ∧ c.isReusable = true := by
      intro l₁ l₂ htasks
      exact hi.fits _ (mem_task htasks) k (List.mem_singleton_self k)
    split_ifs at h with hclosed
    · obtain ⟨⟨o, s₁⟩, hs, hmoved⟩ := Option.bind_eq_some_iff.mp h
      obtain ⟨client, client', hclient, hexec, rfl⟩ := onSession_eq_some hs
      obtain ⟨l₁, t, l₂, t', p', htasks, htask', hmove, rfl⟩ := moved_eq_some hmoved
      cases htask.symm.trans htask'
      have hm := Pool.move_moves hmove
      simp only [Pool.move, hclosed, if_true, Option.some.injEq, Prod.mk.injEq] at hmove
      obtain ⟨rfl, rfl⟩ := hmove
      have hk : k ∈ s.pool.inner.idle ++ [k] ++ s.pool.inner.gone := by simp
      refine hi.advance_session htasks hm hclient hexec hk (fits_of_conns rfl) (fun n hn _ => hn)
        (fun hidle => ?_) rfl
      exact absurd hidle (hi.not_idle htasks (by simp [Pool.Task.conns]))
    · obtain ⟨l₁, t, l₂, t', p', htasks, htask', hmove, rfl⟩ := moved_eq_some h
      cases htask.symm.trans htask'
      have hm := Pool.move_moves hmove
      simp only [Pool.move, hclosed, Bool.false_eq_true, if_false, Option.some.injEq,
        Prod.mk.injEq] at hmove
      obtain ⟨rfl, rfl⟩ := hmove
      refine hi.advance_calm htasks hm ?_ (fun _ => id) rfl
      intro n hn
      obtain rfl := List.mem_singleton.mp hn
      exact hfits htasks

theorem Inv.push (hi : Inv L s) (h : step L (.push i) s = some s') : Inv L s' := by
  simp only [step] at h
  split at h
  case h_2 => cases h
  case h_1 k htask =>
    obtain ⟨⟨o, s₁⟩, hs, hmoved⟩ := Option.bind_eq_some_iff.mp h
    obtain ⟨client, client', hclient, hexec, rfl⟩ := onSession_eq_some hs
    obtain ⟨l₁, t, l₂, t', p', htasks, htask', hmove, rfl⟩ := moved_eq_some hmoved
    cases htask.symm.trans htask'
    have hm := Pool.move_moves hmove
    cases hmove
    obtain ⟨_, hclient', c, rfl, hreusable⟩ :=
      hi.fits _ (mem_task htasks) k (List.mem_singleton_self k)
    cases hclient.symm.trans hclient'
    have hidle : ∃ c, client' = .idle c := by
      have hr : ({ c with stream := { c.stream with sched := [] } } : BoltConnection).isReusable
          = true := hreusable
      simp only [Client.exec, Client.withSched, Client.mapConn, hr, Bool.not_false, Bool.and_self,
        if_true, Option.some.injEq, Prod.mk.injEq] at hexec
      exact ⟨_, hexec.2.symm⟩
    have hk : k ∈ s.pool.inner.idle ++ [k] ++ s.pool.inner.gone := by simp
    refine hi.advance_session htasks hm hclient hexec hk (fits_of_conns rfl) ?_ (fun _ => hidle) rfl
    intro n hn hne
    exact (List.mem_cons.mp hn).resolve_left hne

/-- Whoever holds a connection goes on holding it through the calls it makes. -/
theorem inUse_of_borrows {peer : Peer} {call : Call} {client client' : Client}
    {o : Outcome BoltError Reply} (h : Client.exec peer call client = some (o, client'))
    (hcall : call.borrows = true) (hclient : client.inUse = true) : client'.inUse = true := by
  cases Client.exec_effect h with
  | close _ _ => cases hcall
  | released _ => cases hcall
  | discarded => cases hcall
  | checkedOut _ _ => cases hcall
  | expired _ => cases hcall
  | _ => rfl

theorem Inv.holder (hi : Inv L s) {call : Call} {sched : List Choice}
    (h : step L (.call i call sched) s = some s') : Inv L s' := by
  simp only [step] at h
  split at h
  case h_2 => cases h
  case h_1 k htask =>
    split_ifs at h with hcall
    obtain ⟨⟨o, s₁⟩, hs, rfl⟩ := Option.map_eq_some_iff.mp h
    obtain ⟨client, client', hclient, hexec, rfl⟩ := onSession_eq_some hs
    obtain ⟨hlt, -⟩ := List.getElem?_eq_some_iff.mp hclient
    obtain ⟨l₁, l₂, htasks, -, -⟩ := split_at htask
    have hk : k ∈ s.pool.inner.idle ++ Pool.Task.conns (.held k) ++ s.pool.inner.gone := by
      simp [Pool.Task.conns]
    obtain ⟨_, hclient', hused⟩ := hi.fits _ (mem_task htasks) k (List.mem_singleton_self k)
    cases hclient.symm.trans hclient'
    have hsched : (client.withSched sched).inUse = client.inUse := by cases client <;> rfl
    have hused' := inUse_of_borrows hexec hcall (hsched.trans hused)
    refine ⟨hi.pool, by rw [List.length_set]; exact hi.count, ?_, ?_, hi.parting,
      hi.histories_set hclient hexec⟩
    · intro n hn
      obtain ⟨c, hc⟩ := hi.idle n hn
      refine ⟨c, ?_⟩
      rw [List.getElem?_set_ne, hc]
      rintro rfl
      exact hi.not_idle htasks (by simp [Pool.Task.conns]) hn
    · intro u hu
      rw [htasks] at hu
      have hother : ∀ u ∈ l₁ ++ l₂, Fits (s.sessions.set k client') u :=
        fun u hu => (hi.fits u (mem_others htasks hu)).congr (hi.others_set htasks hk client' hu)
      rcases List.mem_append.mp hu with hu | hu
      · exact hother u (List.mem_append_left _ hu)
      · rcases List.mem_cons.mp hu with rfl | hu
        · intro n hn
          obtain rfl := List.mem_singleton.mp hn
          exact ⟨_, List.getElem?_set_self hlt, hused'⟩
        · exact hother u (List.mem_append_right _ hu)

theorem Inv.step {a : Action} (hi : Inv L s) (h : step L a s = some s') : Inv L s' := by
  cases a with
  | get =>
    cases h
    exact hi.call rfl rfl (by simp) rfl
  | close =>
    cases h
    exact hi.call rfl rfl (by simp) rfl
  | acquire i => exact hi.moved_calm rfl h
  | pop i created idled => exact hi.popped h
  | probe i sched => exact hi.probe h
  | connect i dialled auth passed sched again => exact hi.connect h
  | cancel i sched => exact hi.abandoned rfl h
  | timeout i sched => exact hi.abandoned rfl h
  | release i => exact hi.moved_calm rfl h
  | drop i => exact hi.drop h
  | detach i =>
    simp only [Pooled.step] at h
    split at h
    · split at h
      · exact hi.moved_calm rfl h
      · cases h
    · cases h
  | test i => exact hi.test h
  | push i => exact hi.push h
  | take i => exact hi.moved_calm rfl h
  | goodbye i sched =>
    simp only [Pooled.step] at h
    split at h
    case h_1 k conns htask =>
      obtain ⟨⟨o, s₁⟩, hs, hmoved⟩ := Option.bind_eq_some_iff.mp h
      refine hi.let_go (n := k) rfl ?_ hs hmoved
      intro t ht
      cases htask.symm.trans ht
      have hmem : .parting (k :: conns) ∈ s.pool.tasks := List.mem_of_getElem? htask
      exact List.mem_append_right _ (hi.parting _ hmem k (List.mem_cons_self ..))
    case h_2 => exact hi.moved_calm rfl h
  | call i call sched => exact hi.holder h

theorem inv_of_reaches {config : PoolConfig} {acquireTimeout : Option ℕ}
    (h : Reaches (Pooled.step L) (withConfig config acquireTimeout) s) : Inv L s :=
  h.invariant (inv_withConfig L config acquireTimeout) fun _ _ _ hi _ hstep => hi.step hstep

/-- Whose connection an action makes a call on: an idle one, one that has left the
pool, or that of a call, which makes it itself. -/
def Reach (s : Pooled) (a : Action) (k : ℕ) : Prop :=
  k ∈ s.pool.inner.idle ∨ (∃ conns, .parting (k :: conns) ∈ s.pool.tasks) ∨
    ∃ i t, s.task i = some t ∧ k ∈ t.conns ∧
      (t = .held k → (∃ call sched, a = .call i call sched) ∨ a = .drop i)

def Quiet (m : Pool.Move) : Prop := m ≠ .probed true ∧ m ≠ .connected

inductive Acts (L : ℕ → Listener) (s : Pooled) : Action → Pooled → Prop
  | get {pool : Pool} : Pool.step .get s.pool = some pool → Acts L s .get { s with pool }
  | close {pool : Pool} : Pool.step .close s.pool = some pool → Acts L s .close { s with pool }
  | moved {a : Action} {j : ℕ} {m : Pool.Move} {s' : Pooled} :
      Quiet m → s.moved j m = some s' → Acts L s a s'
  | session {a : Action} {j k : ℕ} {m : Pool.Move} {call : Call} {sched : List Choice}
      {o : Outcome BoltError Reply} {s₁ s' : Pooled} : Reach s a k → Quiet m →
    s.onSession L k call sched = some (o, s₁) → s₁.moved j m = some s' → Acts L s a s'
  | probed {i k : ℕ} {sched : List Choice} {o : Outcome BoltError Reply} {s₁ s' : Pooled} :
    s.task i = some (.probing k) → s.onSession L k (.checkout false) sched = some (o, s₁) →
    s₁.moved i (.probed o.isOk) = some s' → Acts L s (.probe i sched) s'
  | minted {i : ℕ} {dialled : Except BoltError Unit} {auth : Option Auth} {passed : Bool}
      {sched : List Choice} {again : Bool} {setup : Setup} {s' : Pooled} :
    s.task i = some .minting →
    Setup.connect (L s.pool.inner.minted).negotiate (L s.pool.inner.minted).peer dialled auth passed
      (.opened sched) = (.ok (), setup) →
    ({ s with sessions := s.sessions ++ [Client.free setup.conn] } : Pooled).moved i .connected =
      some s' → Acts L s (.connect i dialled auth passed sched again) s'
  | call {i k : ℕ} {call : Call} {sched : List Choice} {o : Outcome BoltError Reply}
      {s' : Pooled} :
    s.task i = some (.held k) → call.borrows = true →
    s.onSession L k call sched = some (o, s') → Acts L s (.call i call sched) s'

/-- A connection that a call has in hand and does not hold is in its reach. -/
theorem reach_of_task {a : Action} {j k : ℕ} {t : Pool.Task} (ht : s.task j = some t)
    (hk : k ∈ t.conns) (hne : t ≠ .held k) : Reach s a k :=
  .inr (.inr ⟨j, t, ht, hk, fun heq => absurd heq hne⟩)

theorem acts_session {a : Action} {j k : ℕ} {m : Pool.Move} {call : Call} {sched : List Choice}
    (hk : Reach s a k) (hm : Quiet m)
    (h : ((s.onSession L k call sched).bind fun r => r.2.moved j m) = some s') : Acts L s a s' := by
  obtain ⟨⟨o, s₁⟩, hs, hmoved⟩ := Option.bind_eq_some_iff.mp h
  exact .session hk hm hs hmoved

theorem acts_abandoned {a : Action} {j : ℕ} {m : Pool.Move} {sched : List Choice} (hm : Quiet m)
    (h : s.abandoned L j m sched = some s') : Acts L s a s' := by
  unfold abandoned at h
  split at h
  · rename_i k htask
    obtain ⟨⟨o, s₁⟩, hs, hmoved⟩ := Option.bind_eq_some_iff.mp h
    split_ifs at hmoved
    exact .session (reach_of_task htask (List.mem_singleton_self k) (by simp)) hm hs hmoved
  · exact .moved hm h

theorem step_acts {a : Action} (h : step L a s = some s') : Acts L s a s' := by
  cases a with
  | get =>
    cases h
    exact .get rfl
  | close =>
    cases h
    exact .close rfl
  | acquire j => exact .moved (by simp [Quiet]) h
  | pop j created idled =>
    simp only [step, popped] at h
    split at h
    · exact .moved (by simp [Quiet]) h
    · rename_i k rest hfront
      split at h
      · split_ifs at h
        · exact acts_session (.inl (by rw [hfront]; exact List.mem_cons_self ..))
            (by simp [Quiet]) h
        · exact .moved (by simp [Quiet]) h
      · cases h
  | probe j sched =>
    simp only [step] at h
    split at h
    · rename_i k htask
      obtain ⟨⟨o, s₁⟩, hs, hmoved⟩ := Option.bind_eq_some_iff.mp h
      exact .probed htask hs hmoved
    · cases h
  | connect j dialled auth passed sched again =>
    simp only [step] at h
    split at h
    · rename_i htask
      split at h
      · rename_i setup hconnect
        exact .minted htask hconnect h
      · exact .moved (by simp [Quiet]) h
      · cases h
    · cases h
  | cancel j sched => exact acts_abandoned (by simp [Quiet]) h
  | timeout j sched => exact acts_abandoned (by simp [Quiet]) h
  | release j => exact .moved (by simp [Quiet]) h
  | drop j =>
    simp only [step] at h
    split at h
    · rename_i k htask
      split at h
      · split_ifs at h
        · exact .moved (by simp [Quiet]) h
        · refine acts_session (.inr (.inr ⟨j, _, htask, List.mem_singleton_self k, ?_⟩))
            (by simp [Quiet]) h
          exact fun _ => .inr rfl
      · cases h
    · cases h
  | detach j =>
    simp only [step] at h
    split at h
    · split at h
      · exact .moved (by simp [Quiet]) h
      · cases h
    · cases h
  | test j =>
    simp only [step] at h
    split at h
    · rename_i k htask
      split_ifs at h
      · exact acts_session (reach_of_task htask (List.mem_singleton_self k) (by simp))
          (by simp [Quiet]) h
      · exact .moved (by simp [Quiet]) h
    · cases h
  | push j =>
    simp only [step] at h
    split at h
    · rename_i k htask
      exact acts_session (reach_of_task htask (List.mem_singleton_self k) (by simp))
        (by simp [Quiet]) h
    · cases h
  | take j => exact .moved (by simp [Quiet]) h
  | goodbye j sched =>
    simp only [step] at h
    split at h
    · rename_i k conns htask
      exact acts_session (.inr (.inl ⟨conns, List.mem_of_getElem? htask⟩)) (by simp [Quiet]) h
    · exact .moved (by simp [Quiet]) h
  | call j call sched =>
    simp only [step] at h
    split at h
    · rename_i k htask
      split_ifs at h with hcall
      obtain ⟨⟨o, s₁⟩, hs, rfl⟩ := Option.map_eq_some_iff.mp h
      exact .call htask hcall hs
    · cases h

theorem onSession_pool {call : Call} {sched : List Choice} {o : Outcome BoltError Reply}
    (h : s.onSession L n call sched = some (o, s')) : s'.pool = s.pool := by
  obtain ⟨client, client', -, -, rfl⟩ := onSession_eq_some h
  rfl

/-- A step is one of the pool, or a call that the pool knows nothing of. -/
theorem step_pool {a : Action} (h : step L a s = some s') :
    s'.pool = s.pool ∨ ∃ b, Pool.step b s.pool = some s'.pool := by
  have hmoved : ∀ {s₁ : Pooled} {j : ℕ} {m : Pool.Move}, s₁.moved j m = some s' →
      s₁.pool = s.pool → ∃ b, Pool.step b s.pool = some s'.pool := by
    intro s₁ j m h heq
    obtain ⟨pool, hstep, rfl⟩ := Option.map_eq_some_iff.mp h
    exact ⟨.move j m, heq ▸ hstep⟩
  cases step_acts h with
  | get hp => exact .inr ⟨.get, hp⟩
  | close hp => exact .inr ⟨.close, hp⟩
  | moved _ hm => exact .inr (hmoved hm rfl)
  | session _ _ hs hm => exact .inr (hmoved hm (onSession_pool hs))
  | probed _ hs hm => exact .inr (hmoved hm (onSession_pool hs))
  | minted _ _ hm => exact .inr (hmoved hm rfl)
  | call _ _ hs => exact .inl (onSession_pool hs)

/-- What holds of the pool in every state it can reach holds with its connections too. -/
theorem reaches_pool {config : PoolConfig} {acquireTimeout : Option ℕ}
    (h : Reaches (Pooled.step L) (withConfig config acquireTimeout) s) :
    Reaches Pool.step (Pool.withConfig config acquireTimeout) s.pool :=
  h.refines pool (I := fun _ => True) trivial (fun _ _ _ _ _ _ => trivial)
    fun _ _ _ _ _ hstep => step_pool hstep

theorem held_of_move {m : Pool.Move} {p p' : PoolInner} {t : Pool.Task}
    (h : Pool.move m p t = some (p', .held n)) :
    m = .probed true ∧ t = .probing n ∨ m = .connected ∧ t = .minting ∧ n = p.minted := by
  have habandon : ∀ {e}, Pool.abandon e p t ≠ some (p', .held n) := by
    intro e h
    unfold Pool.abandon at h
    split at h <;> cases h
  unfold Pool.move at h
  split at h
  case h_1 =>
    split_ifs at h
    · cases h
    · split at h <;> cases h
  case h_2 =>
    split at h
    · cases h
    · dsimp only at h
      split_ifs at h <;> cases h
  case h_3 ok k =>
    split_ifs at h with hok <;> cases h
    exact .inl ⟨by rw [hok], rfl⟩
  case h_4 =>
    cases h
    exact .inr ⟨rfl, rfl, rfl⟩
  case h_6 => exact absurd h habandon
  case h_7 =>
    split_ifs at h
    exact absurd h habandon
  case h_5 | h_10 | h_12 => split_ifs at h <;> cases h
  all_goals cases h

/-- A call that comes to hold a connection has probed it or minted it. -/
theorem moved_held {m : Pool.Move} {j : ℕ} (h : s.moved j m = some s')
    (hheld : s'.task i = some (.held n)) (hnew : s.task i ≠ some (.held n)) : j = i ∧
      (m = .probed true ∧ s.task i = some (.probing n) ∨
        m = .connected ∧ s.task i = some .minting ∧ n = s.pool.inner.minted) := by
  obtain ⟨t, t', p', htask, hmove, htask', hothers⟩ := moved_task h
  by_cases hj : i = j
  · subst hj
    cases htask'.symm.trans hheld
    rw [htask]
    exact ⟨rfl, (held_of_move hmove).imp (fun h => ⟨h.1, congrArg some h.2⟩)
      fun h => ⟨h.1, congrArg some h.2.1, h.2.2⟩⟩
  · rw [hothers i hj] at hheld
    exact absurd hheld hnew

theorem not_handed_out {m : Pool.Move} {j : ℕ} (hm : Quiet m) (h : s.moved j m = some s')
    (hnew : s.task i ≠ some (.held n)) : s'.task i ≠ some (.held n) := by
  intro hheld
  rcases (moved_held h hheld hnew).2 with ⟨heq, -⟩ | ⟨heq, -⟩
  · exact hm.1 heq
  · exact hm.2 heq

theorem task_concat {t : Pool.Task} {p : PoolInner} (ht : ∀ n, t ≠ .held n)
    (hnew : s.task i ≠ some (.held n)) :
    ({ s with pool := ⟨p, s.pool.tasks ++ [t]⟩ } : Pooled).task i ≠ some (.held n) := by
  change (s.pool.tasks ++ [t])[i]? ≠ some (.held n)
  by_cases hlt : i < s.pool.tasks.length
  · rw [List.getElem?_append_left hlt]
    exact hnew
  · intro hheld
    have hmem := List.mem_of_getElem? hheld
    rw [List.getElem?_append_right (Nat.le_of_not_lt hlt)] at hheld
    exact ht n (List.mem_singleton.mp (List.mem_of_getElem? hheld)).symm

theorem task_congr {s₁ : Pooled} (h : s₁.pool = s.pool) : s₁.task i = s.task i := by
  rw [task, h, task]

/-- A connection is handed out by a probe that succeeded, or fresh from `connect`. -/
theorem handed_out {a : Action} (h : step L a s = some s') (hheld : s'.task i = some (.held n))
    (hnew : s.task i ≠ some (.held n)) :
    (∃ sched, a = .probe i sched ∧ s.task i = some (.probing n)) ∨
      ∃ dialled auth passed sched again, a = .connect i dialled auth passed sched again ∧
        s.task i = some .minting ∧ n = s.pool.inner.minted := by
  cases step_acts h with
  | get hp =>
    cases hp
    exact absurd hheld (task_concat (by simp) hnew)
  | close hp =>
    cases hp
    exact absurd hheld (task_concat (by simp) hnew)
  | moved hq hmoved => exact absurd hheld (not_handed_out hq hmoved hnew)
  | session _ hq hs hmoved =>
    have hnew' := (task_congr (i := i) (onSession_pool hs)).trans_ne hnew
    exact absurd hheld (not_handed_out hq hmoved hnew')
  | @probed j k sched o s₁ _ htask hs hmoved =>
    have heq := task_congr (i := i) (onSession_pool hs)
    obtain ⟨rfl, ⟨-, ht⟩ | ⟨hm, -⟩⟩ := moved_held hmoved hheld (heq.trans_ne hnew)
    · exact .inl ⟨sched, rfl, heq ▸ ht⟩
    · cases hm
  | @minted j dialled auth passed sched again setup _ htask hconnect hmoved =>
    obtain ⟨rfl, ⟨hm, -⟩ | ⟨-, ht, hn⟩⟩ := moved_held hmoved hheld hnew
    · cases hm
    · exact .inr ⟨dialled, auth, passed, sched, again, rfl, ht, hn⟩
  | call htask _ hs =>
    exact absurd ((task_congr (i := i) (onSession_pool hs)).symm.trans hheld) hnew

/-- A session at rest: nothing is owed, and nothing open. -/
structure AtRest (S : Server) (c : BoltConnection) : Prop where
  ready : c.isReady = true
  live : Live S c []
  phase : S.phase c.log = .ready
  noTx : S.openTx c.log = none

theorem atRest_of_established {l : Listener} {auth : Option Auth} {setup : Setup}
    (h : Setup.Established l auth setup) : AtRest l.toServer setup.conn :=
  ⟨h.ready, h.live, h.start.1, h.start.2⟩

theorem atRest_of_reset {S : Server} {c c' : BoltConnection} (h : WasReset S c c') :
    AtRest S c' := by
  obtain ⟨m, hm⟩ := h.success
  have hp : c'.pending = 0 := h.live.owed
  refine ⟨by simp [isReady, h.live.intact, h.needsReset, hp], h.live, ?_, ?_⟩
  · rw [h.log, phase_success hm]
    rfl
  · rw [h.log, openTx_concat]
    rfl

/-- In every interleaving of the calls on a pool and on its connections, a
connection that is handed out is at rest: whoever held it before has left no reply
unread, no transaction open and no failure behind. -/
theorem handed_out_at_rest (L : ℕ → Listener) (config : PoolConfig)
    (acquireTimeout : Option ℕ)
    {a : Action} (h : Reaches (Pooled.step L) (withConfig config acquireTimeout) s)
    (hstep : step L a s = some s') (hheld : s'.task i = some (.held n))
    (hnew : s.task i ≠ some (.held n)) :
    ∃ c, s'.sessions[n]? = some (.free c) ∧ AtRest (L n).toServer c := by
  have hi := inv_of_reaches h
  rcases handed_out hstep hheld hnew with ⟨sched, rfl, htask⟩ |
    ⟨dialled, auth, passed, sched, again, rfl, htask, rfl⟩
  · simp only [step, htask] at hstep
    obtain ⟨⟨o, s₁⟩, hs, hmoved⟩ := Option.bind_eq_some_iff.mp hstep
    obtain ⟨client, client', hclient, hexec, rfl⟩ := onSession_eq_some hs
    have ho : o.isOk = true := by
      rcases (moved_held hmoved hheld hnew).2 with ⟨heq, -⟩ | ⟨heq, -⟩
      · exact Pool.Move.probed.inj heq
      · cases heq
    obtain ⟨l₁, t, l₂, t', p', -, -, -, rfl⟩ := moved_eq_some hmoved
    obtain ⟨auth, setup, he, hrun⟩ := hi.histories n client hclient
    have hinv := inv_withSched sched (hrun.inv (he.inv (L n).law)
      fun hl call client _ => hl.forewarned call client)
    obtain ⟨c, c', hc, rfl, hreset⟩ := exec_checkout hexec ho
    rw [hc] at hinv
    obtain ⟨hlt, -⟩ := List.getElem?_eq_some_iff.mp hclient
    exact ⟨c', List.getElem?_set_self hlt, atRest_of_reset
      (Future.wp_of_eq (post_reset hinv.tracked) hreset)⟩
  · simp only [step, htask] at hstep
    split at hstep
    · rename_i setup hconnect
      have he : Setup.Established (L s.pool.inner.minted) auth setup :=
        (Future.wp_of_eq (Setup.wp_connect (L s.pool.inner.minted) dialled auth passed sched)
          hconnect).2.2 rfl
      obtain ⟨l₁, t, l₂, t', p', -, -, -, rfl⟩ := moved_eq_some hstep
      refine ⟨setup.conn, ?_, atRest_of_established he⟩
      rw [← hi.count]
      exact List.getElem?_concat_length
    · exact absurd hheld (not_handed_out (by simp [Quiet]) hstep hnew)
    · cases hstep

/-- A transaction is left open by the first to hold the only connection of a pool;
the second gets the connection without it. -/
def recycled : List Action :=
  [.get, .acquire 0, .pop 0 0 0, .connect 0 (.ok ()) none false smooth false,
    .call 0 (.beginWith .default) smooth, .call 0 .dropTx [], .drop 0, .test 0, .push 0,
    .release 0, .get, .acquire 1, .pop 1 0 0]

theorem handed_out_at_rest_recycled : ∃ s s' : Pooled, s.holding 1 = none ∧
    step (fun _ => obligingListener) (.probe 1 smooth) s = some s' ∧
    ∃ c, s'.sessions[0]? = some (.free c) ∧ AtRest obligingListener.toServer c := by
  have hplay : (play (step fun _ => obligingListener) (fun _ _ => true)
      (withConfig ⟨1, none, none⟩ none) recycled).map (fun s =>
        decide (s.holding 1 = none) && decide (((step (fun _ => obligingListener)
          (.probe 1 smooth) s).map fun s' => s'.holding 1) = some (some 0))) = some true := by
    decide +kernel
  obtain ⟨s, hrun, hlook⟩ := Option.map_eq_some_iff.mp hplay
  obtain ⟨htask, hnext⟩ := Bool.and_eq_true_iff.mp hlook
  have hnew := of_decide_eq_true htask
  obtain ⟨s', hstep, hheld⟩ := Option.map_eq_some_iff.mp (of_decide_eq_true hnext)
  refine ⟨s, s', hnew, hstep, handed_out_at_rest (fun _ => obligingListener)
    ⟨1, none, none⟩ none
    (play_reaches hrun) hstep (holding_eq_some.mp hheld) fun h => ?_⟩
  cases hnew.symm.trans (holding_eq_some.mpr h)

/-- No two calls have one connection. -/
theorem Inv.unique (hi : Inv L s) {j : ℕ} {t t' : Pool.Task} (ht : s.task i = some t)
    (ht' : s.task j = some t') (hn : n ∈ t.conns) (hn' : n ∈ t'.conns) : i = j := by
  by_contra hij
  obtain ⟨l₁, l₂, htasks, hlen, -⟩ := split_at ht
  have hmem : t' ∈ l₁ ++ l₂ := by
    rw [task, htasks] at ht'
    rcases Nat.lt_or_ge j l₁.length with hlt | hge
    · rw [List.getElem?_append_left hlt] at ht'
      exact List.mem_append_left _ (List.mem_of_getElem? ht')
    · rw [List.getElem?_append_right hge] at ht'
      obtain ⟨d, hd⟩ : ∃ d, j - l₁.length = d + 1 := ⟨j - l₁.length - 1, by omega⟩
      rw [hd, List.getElem?_cons_succ] at ht'
      exact List.mem_append_right _ (List.mem_of_getElem? ht')
  have hk : n ∈ s.pool.inner.idle ++ t.conns ++ s.pool.inner.gone := by simp [hn]
  exact hi.not_others htasks hk hmem hn'

theorem moved_sessions {m : Pool.Move} (h : s.moved i m = some s') : s'.sessions = s.sessions := by
  obtain ⟨pool', -, rfl⟩ := Option.map_eq_some_iff.mp h
  rfl

theorem onSession_sessions {call : Call} {sched : List Choice} {o : Outcome BoltError Reply}
    (h : s.onSession L n call sched = some (o, s')) :
    ∃ client, s'.sessions = s.sessions.set n client := by
  obtain ⟨client, client', -, -, rfl⟩ := onSession_eq_some h
  exact ⟨client', rfl⟩

/-- What a step does to the connections: nothing, one is new, or a call is made on
one that is in reach. -/
theorem step_sessions {a : Action} (h : step L a s = some s') : s'.sessions = s.sessions ∨
    (∃ client, s'.sessions = s.sessions ++ [client]) ∨
    ∃ k client, s'.sessions = s.sessions.set k client ∧ Reach s a k := by
  have hset : ∀ {k : ℕ} {call : Call} {sched : List Choice} {o : Outcome BoltError Reply}
      {s₁ : Pooled} {j : ℕ} {m : Pool.Move}, Reach s a k →
      s.onSession L k call sched = some (o, s₁) → s₁.moved j m = some s' →
      ∃ k client, s'.sessions = s.sessions.set k client ∧ Reach s a k := by
    intro k call sched o s₁ j m hk hs h
    obtain ⟨client, hclient⟩ := onSession_sessions hs
    exact ⟨k, client, (moved_sessions h).trans hclient, hk⟩
  cases step_acts h with
  | get _ => exact .inl rfl
  | close _ => exact .inl rfl
  | moved _ hm => exact .inl (moved_sessions hm)
  | session hk _ hs hm => exact .inr (.inr (hset hk hs hm))
  | @probed j k _ _ _ _ htask hs hm =>
    exact .inr (.inr (hset (reach_of_task htask (List.mem_singleton_self k) (by simp)) hs hm))
  | minted _ _ hm => exact .inr (.inl ⟨_, moved_sessions hm⟩)
  | @call j k call sched _ _ htask _ hs =>
    obtain ⟨client, hclient⟩ := onSession_sessions hs
    exact .inr (.inr ⟨k, client, hclient, .inr (.inr ⟨j, _, htask, List.mem_singleton_self k,
      fun _ => .inl ⟨call, sched, rfl⟩⟩)⟩)

/-- A connection that a call holds is no other's, and until it is given back only
the holder's calls act on it: from `connect` on, it lives through a history of
such calls. -/
theorem held_by_one (L : ℕ → Listener) (config : PoolConfig) (acquireTimeout : Option ℕ)
    (h : Reaches (Pooled.step L) (withConfig config acquireTimeout) s)
    (hheld : s.task i = some (.held n)) :
    (∀ j, s.task j = some (.held n) → j = i) ∧
    (∀ a s', step L a s = some s' → s'.sessions[n]? ≠ s.sessions[n]? →
      (∃ call sched, a = .call i call sched) ∨ a = .drop i) ∧
    ∃ auth setup client, s.sessions[n]? = some client ∧
      Setup.Established (L n) auth setup ∧
      Client.History (L n).peer (.free setup.conn) client := by
  have hi := inv_of_reaches h
  have hconns : n ∈ Pool.Task.conns (.held n) := List.mem_singleton_self n
  obtain ⟨l₁, l₂, htasks, -, -⟩ := split_at hheld
  obtain ⟨client, hclient, -⟩ := hi.fits _ (mem_task htasks) n hconns
  refine ⟨fun j hj => hi.unique hj hheld hconns hconns, ?_, ?_⟩
  · intro a s' hstep hne
    have hplace : n ∉ s.pool.inner.idle ∧ n ∉ s.pool.inner.gone := by
      constructor
      · exact hi.not_idle htasks (List.mem_append_left _ hconns)
      · exact ((hi.pool.mem_places n).mp (List.mem_append_right _
          (List.mem_flatMap.mpr ⟨_, mem_task htasks, hconns⟩))).2
    rcases step_sessions hstep with heq | ⟨client', heq⟩ | ⟨k, client', heq, hreach⟩
    · rw [heq] at hne
      exact absurd rfl hne
    · rw [heq, List.getElem?_append_left (List.getElem?_eq_some_iff.mp hclient).1] at hne
      exact absurd rfl hne
    · by_cases hkn : k = n
      · subst hkn
        rcases hreach with hidle | ⟨conns, hparting⟩ | ⟨j, t, ht, hk, hact⟩
        · exact absurd hidle hplace.1
        · exact absurd (hi.parting _ hparting k (List.mem_cons_self ..)) hplace.2
        · obtain rfl := hi.unique ht hheld hk hconns
          exact hact (Option.some.inj (ht.symm.trans hheld))
      · rw [heq, List.getElem?_set_ne hkn] at hne
        exact absurd rfl hne
  · obtain ⟨auth, setup, he, hrun⟩ := hi.histories n client hclient
    exact ⟨auth, setup, client, hclient, he, hrun⟩

theorem held_by_one_recycled : ∃ s : Pooled, s.task 1 = some (.held 0) ∧
    ∀ j, s.task j = some (.held 0) → j = 1 := by
  have hplay : (play (step fun _ => obligingListener) (fun _ _ => true)
      (withConfig ⟨1, none, none⟩ none) (recycled ++ [.probe 1 smooth])).map (fun s =>
        decide (s.holding 1 = some 0)) = some true := by
    decide +kernel
  obtain ⟨s, hrun, hlook⟩ := Option.map_eq_some_iff.mp hplay
  have hheld := holding_eq_some.mp (of_decide_eq_true hlook)
  exact ⟨s, hheld, (held_by_one (fun _ => obligingListener) ⟨1, none, none⟩ none
    (play_reaches hrun) hheld).1⟩

end Pooled
end Boltwire
