import Boltwire.StreamOps

namespace Boltwire
open Future Server BoltConnection
namespace Transaction
variable {S : Server}

/-- An operation of the connection, and what follows it. -/
theorem post_call {α β : Type} {f : BoltConnection.Op α} {g : α → Op β}
    {P : α → BoltConnection → Prop} {Q : β → Transaction → Prop}
    {E : Option BoltError → Transaction → Prop} {t : Transaction}
    (h : wp f (post P fun e c => E e { t with conn := c }) t.conn)
    (hg : ∀ a c, P a c → wp (g a) (post Q E) { t with conn := c }) :
    wp (onConn f >>= g) (post Q E) t :=
  post_zoom h hg

structure Startable (t : Transaction) : Prop where
  intact : t.conn.broken = false
  needsReset : t.conn.needsReset = false
  done : t.done = false

/-- Turned away: nothing was sent, and at most `done` has changed. -/
def TurnedAway (t : Transaction) (e : Option BoltError) (t' : Transaction) : Prop :=
  (∃ x, e = some x ∧ Local x) ∧
    (t' = t ∨ t.conn.needsReset = true ∧ t' = { t with done := true })

theorem post_guardOpen {β : Type} {g : Unit → Op β} {Q : β → Transaction → Prop}
    {E : Option BoltError → Transaction → Prop} {t : Transaction}
    (hE : ∀ e t', TurnedAway t e t' → E e t') (hg : Startable t → wp (g ()) (post Q E) t) :
    wp (guardOpen >>= g) (post Q E) t := by
  have hguard : wp guardOpen (post (fun _ t' => t' = t ∧ Startable t) E) t := by
    refine post_zoom (Q := fun _ c => c = t.conn ∧ t.conn.broken = false)
      (wp_checkIntact ?_ fun hi => ⟨rfl, hi⟩) ?_
    · intro _ m
      exact hE _ _ ⟨⟨_, rfl, by simp⟩, .inl rfl⟩
    · rintro _ _ ⟨rfl, hi⟩
      rw [Future.wp_bind, Future.wp_get, Future.andThen]
      split_ifs with hn hd
      · exact hE _ _ ⟨⟨_, rfl, by simp⟩, .inr ⟨hn, rfl⟩⟩
      · exact hE _ _ ⟨⟨_, rfl, by simp⟩, .inl rfl⟩
      · exact ⟨rfl, hi, by simpa using hn, by simpa using hd⟩
  refine post_bind hguard ?_
  rintro _ _ ⟨rfl, hs⟩
  exact hg hs

inductive Abandoned (S : Server) (reqs : List Request) (t : Transaction) :
    Option BoltError → Transaction → Prop
  | turnedAway {e : Option BoltError} {t' : Transaction} : TurnedAway t e t' →
    Abandoned S reqs t e t'
  | failed {x : BoltError} {c' : BoltConnection} : Startable t →
    Stop S reqs t.conn.armed (some x) c' → Abandoned S reqs t (some x) ⟨c', true⟩
  | dropped {c' : BoltConnection} : Startable t → Stop S reqs t.conn.armed none c' →
    Abandoned S reqs t none ⟨c', false⟩

theorem post_run {t : Transaction} (h : Startable t → Live S t.conn []) (query : String)
    (parameters : Meta) : wp (run S.peer query parameters)
      (post (fun r t' => Startable t ∧ t'.done = false ∧ t'.conn.needsReset = false ∧
          ∃ m m' b₁ b₂, r = resultOf S t.conn.log m b₁ b₂ ∧
            Ran S (Request.run query parameters []) (Request.pull (-1) none) t.conn.armed
              m m' b₁ b₂ t'.conn.armed)
        (Abandoned S [Request.run query parameters [], Request.pull (-1) none] t)) t := by
  refine post_guardOpen (fun _ _ => .turnedAway) fun hs => ?_
  rw [Future.wp_bind, onConn, Future.wp_zoom, setNeedsReset, Future.wp_modify, Future.andThen,
    Future.wp_bind, Future.wp_attempt, onConn, Future.wp_zoom]
  refine wp_mono (post_runInner (.inr (h hs).armed) query parameters []) ?_
  rintro (r | e | _) c' hr
  · obtain ⟨m, m', b₁, b₂, rfl, hran⟩ := hr
    refine ⟨hs, hs.done, rfl, m, m', b₁, b₂, rfl, ?_⟩
    exact ⟨hran.run, hran.pull, hran.success, hran.success', hran.log, rfl,
      hran.live.congr rfl rfl rfl rfl⟩
  · exact .failed hs hr
  · have hdropped : Abandoned S _ t none ⟨c', false⟩ := .dropped hs hr
    rwa [← hs.done] at hdropped

theorem post_runStream {t : Transaction} (h : Startable t → Live S t.conn []) (query : String)
    (parameters : Meta) (batch : Int64) : wp (runStream S.peer query parameters batch)
      (post (fun s t' => Startable t ∧ t'.done = false ∧ ∃ m b₁ b₂,
          s = .opened (extractColumns m) ((m.get "qid").bind BoltValue.asInt) batch ∧
          Pipelined S (Request.run query parameters []) (Request.pull batch none) t.conn.armed
            m b₁ b₂ t'.conn)
        (Abandoned S [Request.run query parameters [], Request.pull batch none] t)) t := by
  unfold runStream validateBatch
  split_ifs with hb
  · exact .turnedAway ⟨⟨_, rfl, by simp⟩, .inl rfl⟩
  refine post_guardOpen (fun _ _ => .turnedAway) fun hs => ?_
  rw [Future.wp_bind, onConn, Future.wp_zoom, setNeedsReset, Future.wp_modify, Future.andThen,
    Future.wp_bind, Future.wp_attempt, onConn, Future.wp_zoom]
  refine wp_mono (post_sendRunPull (.inr (h hs).armed) query parameters [] batch) ?_
  rintro (r | e | _) c' hr
  · obtain ⟨m, b₁, b₂, rfl, hpipe⟩ := hr
    exact ⟨hs, hs.done, m, b₁, b₂, rfl, hpipe⟩
  · exact .failed hs hr
  · have hdropped : Abandoned S _ t none ⟨c', false⟩ := .dropped hs hr
    rwa [← hs.done] at hdropped

/-- `req` was received behind replies `rs` still owed, and the next reply was read. -/
structure Closing (S : Server) (req : Request) (c : BoltConnection) (rs : List Response) (b : Body)
    (r : Response) (rs' : List Response) (c' : BoltConnection) : Prop where
  intact : c.broken = false
  packed : Packed req b
  next : rs ++ [(S.answer c.log b).summary] = r :: rs'
  log : c'.log = c.log ++ [b]
  needsReset : c'.needsReset = c.needsReset
  cut : ∃ new body rest, Boltwire.takeMessage (c.unread ++ new) = .item body rest
  live : Live S c' rs'

/-- With nothing owed before, the reply is the request's own. -/
theorem Closing.answered {req : Request} {c c' : BoltConnection} {b : Body} {r : Response}
    {rs' : List Response} (h : Closing S req c [] b r rs' c') : Answered S req c b r c' := by
  obtain ⟨rfl, rfl⟩ : (S.answer c.log b).summary = r ∧ [] = rs' := by simpa using h.next
  exact ⟨h.packed, rfl, h.log, h.needsReset, h.live⟩

structure Unended (S : Server) (req : Request) (c : BoltConnection) (rs : List Response)
    (e : Option BoltError) (c' : BoltConnection) : Prop where
  ended : Ended S [req] c c'
  surfaced : rs = [] → Surfaced S c e c'

theorem Unended.of_stop {req : Request} {c c' : BoltConnection} {rs : List Response}
    {e : Option BoltError} (h : Stop S [req] c e c') : Unended S req c rs e c' :=
  ⟨h.ended, fun _ => h.surfaced⟩

/-- The request that ends a transaction, and what is done with its SUCCESS. -/
theorem post_end {α : Type} {t : Transaction} {rs : List Response} {req : Request} {ctx : String}
    {g : Meta → Op α} {Q : α → Transaction → Prop}
    {E : Option BoltError → Transaction → Prop}
    (h : Sound S t.conn rs) (hplain : Plain req) (hp : req.signature ≠ PULL)
    (hd : req.signature ≠ DISCARD)
    (hE : ∀ e c', Unended S req t.conn rs e c' → E e { t with conn := c' })
    (hg : ∀ m b rs' c', Closing S req t.conn rs b (.success m) rs' c' →
      wp (g m) (post Q E) { t with conn := c' }) :
    wp (do onConn (writeMessage S.peer req); g (← finishEnd S.peer ctx)) (post Q E) t := by
  refine post_call (post_mono (post_send h (by simpa using hplain)) (fun _ _ h => h)
    fun e c' hu => hE e c' (.of_stop (hu.stop ⟨rs, h⟩))) ?_
  rintro _ c₁ ⟨bodies, hsent⟩
  obtain ⟨b, hb, rfl⟩ := packed_one hsent.packed
  have hlive := hsent.live
  rw [replies_singleton, responses_of_signature (hb.signature hplain.2) hp hd] at hlive
  -- the reply read is the first one owed, which need not be the answer to this request
  obtain ⟨r, rs', hnext⟩ : ∃ r rs', rs ++ [(S.answer t.conn.log b).summary] = r :: rs' :=
    List.exists_cons_of_ne_nil (by simp)
  rw [hnext] at hlive
  refine post_bind (Q := fun m t' => ∃ c', t' = { t with conn := c' } ∧
    Closing S req t.conn rs b (.success m) rs' c') ?_ ?_
  · refine post_call (post_mono (post_receive (.inr hlive)) (fun _ _ h => h) fun e c' hu =>
      hE e c' (.of_stop (.unread (.all hsent.packed) hsent.log hsent.needsReset hu))) ?_
    rintro r c₂ ⟨rfl, hg', body, hcut⟩
    obtain ⟨new, hnew⟩ := hsent.unread
    have hclose : Closing S req t.conn rs b r rs' c₂ := ⟨hsent.intact, hb, hnext,
      hg'.log.trans hsent.log, hg'.needsReset.trans hsent.needsReset,
      ⟨new, body, _, hnew ▸ hcut⟩, hg'.live⟩
    have hhere : ∀ x, Local x → E (some x) { t with conn := c₂ } := fun x hx =>
      hE _ c₂ (.of_stop (.here (.all hsent.packed) hclose.log hclose.needsReset
        ⟨rs', .inr hg'.live⟩ (by rintro _ ⟨⟩; exact hx)))
    cases r with
    | success m => exact ⟨c₂, rfl, hclose⟩
    | failure code message =>
      refine post_recover ⟨rs', .inr hg'.live⟩ code message fun e c' hrec =>
        hE e c' ⟨?_, ?_⟩
      · exact hrec.ended (.all hsent.packed) hclose.log hclose.needsReset
      · rintro rfl
        exact hrec.surfaced hclose.log hclose.answered.mem_replies
    | record v => exact hhere _ (by simp)
    | ignored => exact hhere _ (by simp)
  · rintro m _ ⟨c', rfl, hclose⟩
    exact hg m b rs' c' hclose

theorem drop_of_done {t : Transaction} (h : t.done = true) : t.drop = t := by
  rw [drop, if_pos h]

theorem drop_sent (t : Transaction) : t.drop.conn.stream.sent = t.conn.stream.sent := by
  unfold drop
  split_ifs <;> rfl

theorem drop_log (t : Transaction) : t.drop.conn.log = t.conn.log := by
  rw [BoltConnection.log, drop_sent]
  rfl

theorem sound_armed {c : BoltConnection} {rs : List Response} (h : Sound S c rs) :
    Sound S c.armed rs :=
  h.imp id Live.armed

theorem Closing.armed {req : Request} {c c' : BoltConnection} {b : Body} {r : Response}
    {rs rs' : List Response} (h : Closing S req c.armed rs b r rs' c') :
    Closing S req c.armed rs b r rs' c'.armed :=
  ⟨h.intact, h.packed, h.next, h.log, rfl, h.cut, h.live.armed⟩

def Uncommitted (S : Server) (t : Transaction) (e : Option BoltError) (t' : Transaction) : Prop :=
  (∃ t₁, TurnedAway t e t₁ ∧ t' = t₁.drop) ∨
    Startable t ∧ Unended S Request.commit t.conn.armed [] e t'.conn

theorem post_commit {t : Transaction} (h : Startable t → Live S t.conn []) :
    wp (commit S.peer) (post (fun r t' => Startable t ∧ t'.conn.needsReset = false ∧ ∃ m b,
        r = metaStr m "bookmark" ∧
        Answered S Request.commit t.conn.armed b (.success m) t'.conn.armed)
      (Uncommitted S t)) t := by
  rw [commit, Future.wp_dropping]
  -- past `guard_open` the transaction is done, so that dropping it does nothing
  refine wp_mono (Q := post (fun r t' => t'.done = true ∧ Startable t ∧
      t'.conn.needsReset = false ∧ ∃ m b, r = metaStr m "bookmark" ∧
        Answered S Request.commit t.conn.armed b (.success m) t'.conn.armed)
    fun e t' => TurnedAway t e t' ∨ t'.done = true ∧ Startable t ∧
      Unended S Request.commit t.conn.armed [] e t'.conn) ?_ ?_
  · refine post_guardOpen (fun _ _ => .inl) fun hs => ?_
    rw [Future.wp_bind, setDone, Future.wp_modify, Future.andThen, Future.wp_bind, onConn,
      Future.wp_zoom, setNeedsReset, Future.wp_modify, Future.andThen]
    refine post_end (.inr (h hs).armed) plain_commit (show COMMIT ≠ PULL by decide)
      (show COMMIT ≠ DISCARD by decide) (fun e c' hu => .inr ⟨rfl, hs, hu⟩) ?_
    intro m b rs' c' hclose
    exact ⟨rfl, hs, rfl, m, b, rfl, hclose.armed.answered⟩
  · have hdrop : ∀ e t', (TurnedAway t e t' ∨ t'.done = true ∧ Startable t ∧
        Unended S Request.commit t.conn.armed [] e t'.conn) → Uncommitted S t e t'.drop := by
      rintro e t' (hturn | ⟨hd, hs, hu⟩)
      · exact .inl ⟨t', hturn, rfl⟩
      · rw [drop_of_done hd]
        exact .inr ⟨hs, hu⟩
    rintro (r | e | _) t' h'
    · rw [drop_of_done h'.1]
      exact h'.2
    · exact hdrop _ _ h'
    · exact hdrop _ _ h'

/-- ROLLBACK takes the next reply for its own. -/
theorem post_rollback {t : Transaction} {rs : List Response} (h : Sound S t.conn rs) :
    wp (rollback S.peer) (post (fun _ t' => t.done = true ∧ t' = t ∨
        t.done = false ∧ t'.conn.needsReset = false ∧ ∃ m b rs',
          Closing S Request.rollback t.conn.armed rs b (.success m) rs' t'.conn.armed)
      fun e t' => t.done = false ∧ Unended S Request.rollback t.conn.armed rs e t'.conn) t := by
  rw [rollback, Future.wp_dropping, Future.wp_bind, Future.wp_get, Future.andThen]
  split_ifs with hd
  · rw [Future.wp_pure, drop_of_done hd]
    exact .inl ⟨hd, rfl⟩
  have hd' : t.done = false := by simpa using hd
  refine wp_mono
    (Q := post (fun _ t' => t'.done = true ∧ t'.conn.needsReset = false ∧ ∃ m b rs',
      Closing S Request.rollback t.conn.armed rs b (.success m) rs' t'.conn.armed)
    fun e t' => t'.done = true ∧ Unended S Request.rollback t.conn.armed rs e t'.conn) ?_ ?_
  · rw [Future.wp_bind, setDone, Future.wp_modify, Future.andThen, Future.wp_bind, onConn,
      Future.wp_zoom, setNeedsReset, Future.wp_modify, Future.andThen]
    refine post_end (sound_armed h) plain_rollback (show ROLLBACK ≠ PULL by decide)
      (show ROLLBACK ≠ DISCARD by decide) (fun e c' hu => ⟨rfl, hu⟩) ?_
    intro m b rs' c' hclose
    exact ⟨rfl, rfl, m, b, rs', hclose.armed⟩
  · rintro (r | e | _) t' h'
    all_goals rw [drop_of_done h'.1]
    · exact .inr ⟨hd', h'.2⟩
    · exact ⟨hd', h'.2⟩
    · exact ⟨hd', h'.2⟩

end Transaction
end Boltwire
