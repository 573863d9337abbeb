import Boltwire.Draining
import Boltwire.Invariant
import Boltwire.Answering

namespace Boltwire
open Future Server BoltConnection RecordStream
variable {S : Server}

namespace BoltConnection

/-- The requests received once `ensure_clean` has returned. -/
def cleanLog (c : BoltConnection) : List Body :=
  if c.needsReset ∨ 0 < c.pending then c.log ++ [resetBody] else c.log

theorem post_ensureClean_log {c : BoltConnection} (h : Tracked S c) : wp (ensureClean S.peer)
    (post (fun _ c' => c'.log = c.cleanLog) fun _ _ => True) c := by
  rw [ensureClean, Future.wp_bind]
  apply wp_checkIntact
  · intro _ _
    trivial
  intro _
  simp only [Future.andThen, Future.wp_bind, Future.wp_get]
  unfold cleanLog
  split_ifs
  · exact post_mono (post_reset h) (fun _ _ hr => hr.log) fun _ _ _ => trivial
  · rfl

/-- An operation that sends two requests after `ensure_clean`. -/
theorem post_cleanLog {α : Type} {c : BoltConnection} {f : Op α} (h : Tracked S c)
    (hf : ∀ c₁, Cleaned S c c₁ →
      wp f (post (fun _ c' => ∃ b b', c'.log = c₁.log ++ [b, b']) fun _ _ => True) c₁.armed) :
    wp (do ensureClean S.peer; setNeedsReset true; f)
      (post (fun _ c' => ∃ b b', c'.log = c.cleanLog ++ [b, b']) fun _ _ => True) c := by
  apply post_bind (post_mono (post_and (post_ensureClean h) (post_ensureClean_log h))
    (fun _ _ h => h) fun _ _ _ => trivial)
  rintro _ c₁ ⟨hc, hlog⟩
  rw [Future.wp_bind, setNeedsReset, Future.wp_modify, ← hlog]
  exact hf c₁ hc

theorem post_runStreamWith_log {c : BoltConnection} (h : Tracked S c) (query : String)
    (parameters extra : Meta) (batch : Int64) :
    wp (runStreamWith S.peer query parameters extra batch)
      (post (fun _ c' => ∃ b b', c'.log = c.cleanLog ++ [b, b']) fun _ _ => True) c := by
  unfold runStreamWith validateBatch
  split_ifs
  · trivial
  · refine post_cleanLog h fun c₁ hc => ?_
    apply post_bind (post_mono (post_sendRunPull (.inr hc.live.armed) query parameters extra batch)
      (fun _ _ h => h) fun _ _ _ => trivial)
    rintro _ c' ⟨m, b, b', rfl, hpipe⟩
    exact ⟨b, b', hpipe.log⟩

theorem post_runWith_log {c : BoltConnection} (h : Tracked S c) (query : String)
    (parameters extra : Meta) : wp (runWith S.peer query parameters extra)
      (post (fun _ c' => ∃ b b', c'.log = c.cleanLog ++ [b, b']) fun _ _ => True) c := by
  refine post_cleanLog h fun c₁ hc => ?_
  rw [Future.wp_bind, Future.wp_attempt]
  refine wp_mono (post_runInner (.inr hc.live.armed) query parameters extra) ?_
  rintro (r | e | _) c' hr
  · obtain ⟨m, m', b, b', rfl, hran⟩ := hr
    exact ⟨b, b', hran.log⟩
  · trivial
  · trivial

/-- The log before the two requests is the same, whichever way it is told. -/
theorem eq_cleanLog {c c₁ c' : BoltConnection} {b₁ b₂ : Body}
    (h : ∃ b b', c'.log = c.cleanLog ++ [b, b']) (h₁ : c'.log = c₁.log ++ [b₁, b₂]) :
    c₁.log = c.cleanLog := by
  obtain ⟨b, b', h⟩ := h
  exact List.append_inj_left' (h₁.symm.trans h) rfl

/-- The records that `run` returns. -/
theorem records_of_runWith {c c' : BoltConnection} {query : String} {parameters extra : Meta}
    {r : QueryResult} {b : Body} {rows : List (List BoltValue)} (h : Tracked S c)
    (hb : Packed (Request.run query parameters extra) b) (hs : Serves S c.cleanLog b rows)
    (hf : runWith S.peer query parameters extra c = (.ok r, c')) : r.records = rows := by
  obtain ⟨⟨-, c₁, m, m', b₁, b₂, -, rfl, hran⟩, hlog⟩ :=
    wp_of_eq (post_and (post_runWith h query parameters extra)
      (post_runWith_log h query parameters extra)) hf
  cases Except.ok.inj (hran.run.symm.trans hb)
  have hclean : c₁.log = c.cleanLog := eq_cleanLog hlog hran.log
  have hsuccess := hran.success
  rw [armed_log, hclean] at hsuccess
  have hpull : PullOf (qidOf m) (-1) b₂ := ⟨rfl, none, .inl rfl, hran.pull⟩
  -- `run` asks for all the rows at once
  obtain ⟨hrecords, -⟩ := hs m hsuccess [] rows (-1) b₂ .none (.inl rfl) hpull
  rw [List.append_nil] at hrecords
  rw [resultOf, hclean]
  exact hrecords

/-- The stream that `run_stream` returns. -/
theorem progress_of_runStreamWith {c c' : BoltConnection} {query : String}
    {parameters extra : Meta} {batch : Int64} {s : StreamState} {b : Body}
    {rows : List (List BoltValue)} (h : Tracked S c)
    (hb : Packed (Request.run query parameters extra) b) (hs : Serves S c.cleanLog b rows)
    (hf : runStreamWith S.peer query parameters extra batch c = (.ok s, c')) :
    Progress S (c.cleanLog ++ [b]) rows [] (restOf batch rows) ⟨s, c'⟩ := by
  have hvalid : validateBatch batch = .ok () := by
    cases hv : validateBatch batch with
    | ok => rfl
    | error e =>
      rw [runStreamWith, hv] at hf
      cases hf
  obtain ⟨⟨c₁, m, b₁, b₂, -, rfl, hpipe⟩, hlog⟩ :=
    wp_of_eq (post_and (post_runStreamWith h query parameters extra batch)
      (post_runStreamWith_log h query parameters extra batch)) hf
  cases Except.ok.inj (hpipe.run.symm.trans hb)
  have hclean : c₁.log = c.cleanLog := eq_cleanLog hlog hpipe.log
  have hsuccess := hpipe.success
  have hlive := hpipe.live
  have hlog' := hpipe.log
  rw [armed_log, hclean] at hsuccess hlive hlog'
  have hpull : PullOf (qidOf m) batch b₂ := ⟨hvalid, none, .inl rfl, hpipe.pull⟩
  refine .opened (hs m hsuccess) hpull ?_ hlive
  rw [hlog', List.append_assoc]
  rfl

end BoltConnection

def rowOf : Outcome BoltError Reply → List (List BoltValue)
  | .ok (.row (some row)) => [row]
  | _ => []

/-- Calls of `next`, each under its own schedule and ending in any way, and the
rows they returned. -/
inductive Nexts (peer : Peer) : Client → List (List BoltValue) → Client → Prop
  | refl (client : Client) : Nexts peer client [] client
  | step {client client₁ client₂ : Client} {got : List (List BoltValue)}
    {o : Outcome BoltError Reply} : Nexts peer client got client₁ →
    Client.Step peer .next client₁ o client₂ → Nexts peer client (got ++ rowOf o) client₂

def RecordStream.withSched (sched : List Choice) (s : RecordStream) : RecordStream :=
  { s with conn := { s.conn with stream := { s.conn.stream with sched } } }

section
variable {log : List Body} {rows got left : List (List BoltValue)} {k : ℕ} {s : RecordStream}

theorem RecordStream.Progress.withSched (h : Progress S log rows got left s) (sched : List Choice) :
    Progress S log rows got left (s.withSched sched) := by
  cases h with
  | arriving h hleft =>
    exact .arriving ⟨⟨h.done, h.hasMore, h.valid, h.serving⟩, h.pullInFlight, h.pulled,
      h.nonempty,
      h.pull, ⟨h.inFlight.log, sound_withSched sched h.inFlight.sound⟩, h.rows_eq⟩ hleft
  | waiting h =>
    exact .waiting ⟨⟨h.done, h.hasMore, h.valid, h.serving⟩, h.pullInFlight, h.pulled,
      h.nonempty, h.log_eq, sound_withSched sched h.sound, h.rows_eq⟩
  | drained hm hleft heq => exact .drained hm hleft heq

/-- One call of `next`. -/
theorem RecordStream.Progress.step {o : Outcome BoltError Reply} {client' : Client}
    (h : Progress S log rows got left s)
    (hstep : Client.Step S.peer .next (.streaming k s) o client') :
    (o = .ok (.row none) → got = rows) ∧ ∃ s' left', client' = .streaming k s' ∧
      Progress S log rows (got ++ rowOf o) left' s' := by
  obtain ⟨sched, hexec⟩ := hstep
  have heffect := Client.exec_effect hexec
  cases heffect with
  | @next _ _ s' o hf =>
    rcases post_elim (wp_of_eq (progress_next (h.withSched sched)) hf) with
      ⟨row, rfl, ⟨left', h'⟩, hnone⟩ | ⟨hne, left', h'⟩
    · cases row with
      | none => exact ⟨fun _ => hnone rfl, s', left', rfl, h'⟩
      | some row => exact ⟨by simp [Outcome.map], s', left', rfl, h'⟩
    · cases o with
      | ok row => exact absurd rfl (hne row)
      | err e =>
        exact ⟨by simp [Outcome.map], s', left', rfl, by simpa [rowOf, Outcome.map] using h'⟩
      | dropped =>
        exact ⟨by simp [Outcome.map], s', left', rfl, by simpa [rowOf, Outcome.map] using h'⟩

theorem Nexts.progress {client : Client} (h : Nexts S.peer (.streaming k s) got client)
    (hs : Progress S log rows [] left s) :
    ∃ s' left', client = .streaming k s' ∧ Progress S log rows got left' s' := by
  induction h with
  | refl => exact ⟨s, left, rfl, hs⟩
  | step _ hstep ih =>
    obtain ⟨s₁, left₁, rfl, h₁⟩ := ih
    obtain ⟨-, hs'⟩ := h₁.step hstep
    exact hs'

end

/-- Once every await completes, and there are enough of them, the rest of `rows`
is read from `s`, unless the server sends a message over the limit. -/
def Drains (S : Server) (rows got : List (List BoltValue)) (s : RecordStream) : Prop :=
  ∃ enough, ∀ (sched : List Choice) (rounds : ℕ), AllReady sched →
    enough ≤ sched.length →
    rows.length < rounds → ∃ o s', drain S.peer rounds (s.withSched sched) = (o, s') ∧
      ((∃ rest, o = .ok rest ∧ got ++ rest = rows) ∨
        o = .err (.protocol .messageTooLong) ∧ OverLimit s'.conn)

/-- After any calls of `next` that returned `got`: these are the first rows, all of
them if `next` returns None; and if no write was cut off, the rest can be read. -/
structure Yields (S : Server) (rows got : List (List BoltValue)) (client : Client) : Prop where
  isPrefix : got <+: rows
  complete : ∀ client', Client.Step S.peer .next client (.ok (.row none)) client' → got = rows
  drains : ∀ k s, client = .streaming k s → s.conn.broken = false → Drains S rows got s

theorem RecordStream.Progress.drains {log : List Body} {rows got left : List (List BoltValue)}
    {s : RecordStream} (h : Progress S log rows got left s) (hb : s.conn.broken = false) :
    Drains S rows got s := by
  obtain ⟨b, hpull⟩ := exists_packed_pull s.batch s.qid
  -- a PULL brings at least one row, so there are at most as many as rows left
  refine ⟨s.conn.stream.inbound.length + (1 + cost S.peer b left.length s.conn.log), ?_⟩
  intro sched rounds hready henough hrounds
  have hpaced : Paced S log rows got left b (s.withSched sched) :=
    ⟨h.withSched sched, hb, hpull, hready, henough⟩
  refine ⟨_, _, rfl, ?_⟩
  rcases post_elim (paced_drain hpaced hrounds) with ⟨rest, ho, hrest⟩ | ⟨-, he, hover⟩
  · exact .inl ⟨rest, ho, hrest⟩
  · exact .inr ⟨Outcome.eq_err he, hover⟩

/-- A query whose result the server serves, in batches of any accepted size:
streaming yields its rows, whatever becomes of the calls, and `run` the same. -/
theorem stream_yields_result (S : Server) (noops cut : ℕ) {c : BoltConnection} {query : String}
    {parameters extra : Meta} {batch : Int64} {b : Body} {rows : List (List BoltValue)} {k : ℕ}
    {s : RecordStream} {o : Outcome BoltError Reply}
    (hrun : Client.History S.peer (.fresh noops cut) (.free c))
    (hb : Packed (Request.run query parameters extra) b) (hserves : Serves S c.cleanLog b rows)
    (hopen : Client.Step S.peer (.runStreamWith query parameters extra batch) (.free c) o
      (.streaming k s)) :
    (∀ got client, Nexts S.peer (.streaming k s) got client → Yields S rows got client) ∧
    ∀ r client', Client.Step S.peer (.runWith query parameters extra) (.free c) (.ok (.result r))
      client' → r.records = rows := by
  have hfree : FreeInv S.law c := hrun.inv_of_fresh
  have htracked := hfree.tracked
  constructor
  · obtain ⟨sched, hexec⟩ := hopen
    have heffect := Client.exec_effect hexec
    cases heffect with
    | opened hf =>
      have hopened := progress_of_runStreamWith (tracked_withSched sched htracked) hb hserves hf
      intro got client hnexts
      obtain ⟨s', left', rfl, h'⟩ := hnexts.progress hopened
      constructor
      · exact h'.isPrefix
      · intro client' hstep
        exact (h'.step hstep).1 rfl
      · rintro _ _ ⟨⟩ hintact
        exact h'.drains hintact
  · rintro r client' ⟨sched, hexec⟩
    generalize hreply : (Outcome.ok (.result r) : Outcome BoltError Reply) = o at hexec
    have heffect := Client.exec_effect hexec
    cases heffect with
    | @runWith _ _ _ _ c' o hf =>
      cases o with
      | ok r' =>
        cases hreply
        exact records_of_runWith (tracked_withSched sched htracked) hb hserves hf
      | err e => cases hreply
      | dropped => cases hreply

def pullSize (body : Body) : Int64 :=
  match PackStream.Reader.unpack (.new body) with
  | .ok (.struct _ [.map m], _) => ((Meta.get m "n").bind BoltValue.asInt).getD (-1)
  | _ => -1

theorem pullSize_of_packed {n : Int64} {qid : Option Int64} {b : Body}
    (h : Packed (Request.pull n qid) b) : pullSize b = n := by
  obtain ⟨hkeys, hsized⟩ := pull_sized n qid
  obtain ⟨b', hb'⟩ := PackStream.roundTrips _ hkeys hsized
  have heq : b' = b := by simpa using Except.ok.inj ((hb'.pack_eq []).symm.trans h)
  subst heq
  have hread := hb'.unpack [] []
  rw [List.append_nil, List.nil_append] at hread
  rw [pullSize, PackStream.Reader.new, show (0 : ℕ) = ([] : List UInt8).length from rfl, hread]
  cases qid <;> simp [Request.value, Request.pull, Request.withN, Request.withMeta, Meta.insert,
    Meta.get, BoltValue.asInt]

def leftAfter (rows : List (List BoltValue)) (log : List Body) : List (List BoltValue) :=
  log.foldl (fun left body => if signature body = RUN then rows
    else if signature body = PULL then restOf (pullSize body) left else left) []

def pagingAnswer (rows : List (List BoltValue)) (before : List Body) (body : Body) : Answer :=
  if signature body = PULL then
    ⟨batchOf (pullSize body) (leftAfter rows before),
      .success (if restOf (pullSize body) (leftAfter rows before) = [] then []
        else [("has_more", .bool true)])⟩
  else ⟨[], .success []⟩

theorem batchOf_subset (n : Int64) (rows : List (List BoltValue)) : batchOf n rows ⊆ rows := by
  have happ := batchOf_append_restOf n rows
  intro row hrow
  rw [← happ]
  exact List.mem_append_left _ hrow

theorem restOf_subset (n : Int64) (rows : List (List BoltValue)) : restOf n rows ⊆ rows := by
  have happ := batchOf_append_restOf n rows
  intro row hrow
  rw [← happ]
  exact List.mem_append_right _ hrow

theorem leftAfter_concat (rows : List (List BoltValue)) (log : List Body) (b : Body) :
    leftAfter rows (log ++ [b]) = if signature b = RUN then rows
      else if signature b = PULL then restOf (pullSize b) (leftAfter rows log)
      else leftAfter rows log := by
  rw [leftAfter, List.foldl_concat, ← leftAfter]

theorem leftAfter_subset (rows : List (List BoltValue)) (log : List Body) :
    leftAfter rows log ⊆ rows := by
  induction log using List.reverseRecOn with
  | nil => exact List.nil_subset rows
  | append_singleton log b ih =>
    rw [leftAfter_concat]
    split_ifs
    · exact List.Subset.refl rows
    · exact List.Subset.trans (restOf_subset _ _) ih
    · exact ih

theorem packable_hasMore : (Response.success [("has_more", .bool true)]).Packable := by
  have hkey : (utf8 "has_more").length < 4294967296 := by decide
  simp [Response.Packable, Response.value, BoltValue.KeysDistinct, BoltValue.Sized,
    BoltValue.Forall, BoltValue.ForallSeq, BoltValue.ForallEntries, BoltValue.NodeKeysDistinct,
      BoltValue.NodeSized, hkey]

theorem packable_pagingAnswer {rows : List (List BoltValue)}
    (h : ∀ row ∈ rows, (Response.record row).Packable) (before : List Body) (body : Body) :
    ∀ r ∈ (pagingAnswer rows before body).responses, r.Packable := by
  intro r hr
  rcases List.mem_append.mp hr with hr | hr
  · obtain ⟨row, hrow, rfl⟩ := List.mem_map.mp hr
    by_cases hp : signature body = PULL
    · rw [pagingAnswer, if_pos hp] at hrow
      exact h row (leftAfter_subset rows before (batchOf_subset _ _ hrow))
    · rw [pagingAnswer, if_neg hp] at hrow
      cases hrow
  · cases List.mem_singleton.mp hr
    unfold pagingAnswer
    split_ifs
    · exact Response.packable_success
    · exact packable_hasMore
    · exact Response.packable_success

def Server.paging (rows : List (List BoltValue))
    (h : ∀ row ∈ rows, (Response.record row).Packable) : Server :=
  answering (pagingAnswer rows)
    (by
      intro before body
      unfold pagingAnswer
      split_ifs <;> rfl)
    (by
      intro before body hp _
      rw [pagingAnswer, if_neg hp])
    (packable_pagingAnswer h)

theorem leftAfter_pulls {rows left : List (List BoltValue)} {qid : Option Int64}
    {log pulls : List Body} (hlog : leftAfter rows log = rows) (h : Pulls qid rows pulls left) :
    leftAfter rows (log ++ pulls) = left := by
  induction h with
  | none => rwa [List.append_nil]
  | @more pulls left n b _ _ hb ih =>
    obtain ⟨-, q, -, hpacked⟩ := hb
    have hsig : signature b = PULL := hpacked.signature (plain_pull n q).2
    rw [← List.append_assoc, leftAfter_concat, hsig, if_neg (by decide), if_pos rfl, ih,
      pullSize_of_packed hpacked]

theorem Server.paging_serves {rows : List (List BoltValue)}
    (h : ∀ row ∈ rows, (Response.record row).Packable) (before : List Body) {run : Body}
    (hrun : signature run = RUN) : Serves (paging rows h) before run rows := by
  intro _ _ pulls left n b hpulls _ hb
  have hstart : leftAfter rows (before ++ [run]) = rows := by
    rw [leftAfter_concat, if_pos hrun]
  have hleft := leftAfter_pulls hstart hpulls
  obtain ⟨-, q, -, hpacked⟩ := hb
  have hsig : signature b = PULL := hpacked.signature (plain_pull n q).2
  have hanswer : (paging rows h).answer (before ++ [run] ++ pulls) b = ⟨batchOf n left,
      .success (if restOf n left = [] then [] else [("has_more", .bool true)])⟩ := by
    change pagingAnswer rows (before ++ [run] ++ pulls) b = _
    rw [pagingAnswer, if_pos hsig, hleft, pullSize_of_packed hpacked]
  rw [hanswer]
  refine ⟨rfl, _, rfl, ?_⟩
  split_ifs with hrest
  · simp [hrest, hasMoreOf, Meta.get]
  · simp [hrest, hasMoreOf, Meta.get, BoltValue.asBool]

theorem packable_int (i : Int64) : (Response.record [.int i]).Packable := by
  simp [Response.Packable, Response.value, BoltValue.KeysDistinct, BoltValue.Sized,
    BoltValue.Forall, BoltValue.ForallSeq, BoltValue.NodeKeysDistinct, BoltValue.NodeSized]

def threeRows : List (List BoltValue) := [[.int 1], [.int 2], [.int 3]]

theorem packable_threeRows : ∀ row ∈ threeRows, (Response.record row).Packable := by
  intro row hrow
  simp only [threeRows, List.mem_cons, List.not_mem_nil, or_false] at hrow
  rcases hrow with rfl | rfl | rfl
  · exact packable_int 1
  · exact packable_int 2
  · exact packable_int 3

def threeRowServer : Server := .paging threeRows packable_threeRows

def opensStream : Option (Outcome BoltError Reply × Client) → Bool
  | some (_, .streaming _ _) => true
  | _ => false

theorem eq_of_opensStream {r : Option (Outcome BoltError Reply × Client)}
    (h : opensStream r = true) :
    ∃ o k s, r = some (o, .streaming k s) := by
  unfold opensStream at h
  split at h
  · exact ⟨_, _, _, rfl⟩
  · cases h

/-- Three rows in batches of two. -/
theorem stream_yields_result_threeRows : ∃ k s o,
    Client.Step threeRowServer.peer (.runStreamWith "a" [] [] 2) (.fresh 0 0) o (.streaming k s) ∧
    (∀ got client, Nexts threeRowServer.peer (.streaming k s) got client →
      Yields threeRowServer threeRows got client) ∧
    ∀ r client', Client.Step threeRowServer.peer (.runWith "a" [] []) (.fresh 0 0)
      (.ok (.result r)) client' → r.records = threeRows := by
  have hopens : opensStream (Client.exec threeRowServer.peer (.runStreamWith "a" [] [] 2)
      ((Client.fresh 0 0).withSched smooth)) = true := by
    decide +kernel
  obtain ⟨o, k, s, hexec⟩ := eq_of_opensStream hopens
  obtain ⟨b, hb⟩ : ∃ b, Packed (Request.run "a" [] []) b := ⟨_, rfl⟩
  have hserves := Server.paging_serves packable_threeRows (connected [] []).cleanLog
    (hb.signature (plain_run "a" [] []).2)
  have hopen : Client.Step threeRowServer.peer (.runStreamWith "a" [] [] 2)
      (.free (connected [] [])) o (.streaming k s) := ⟨smooth, hexec⟩
  have hyields := stream_yields_result threeRowServer 0 0 (.refl _) hb hserves hopen
  exact ⟨k, s, o, hopen, hyields⟩

end Boltwire
