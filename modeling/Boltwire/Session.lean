import Boltwire.Exchange
import Boltwire.Server

namespace Boltwire
open Incremental Server

theorem received_frames (fs : List Frame) (xs : List UInt8) :
    received (fs.flatMap Frame.bytes ++ xs) = fs.map Frame.body ++ received xs := by
  induction fs with
  | nil => rfl
  | cons f fs ih =>
    have hcut : (messageCutter none).cut ((f :: fs).flatMap Frame.bytes ++ xs) =
        .item f.body (fs.flatMap Frame.bytes ++ xs) := by
      rw [List.flatMap_cons, List.append_assoc]
      exact f.cutMessage_bytes _
    rw [received, Cutter.drain_item hcut, Produced.cons, List.map_cons, List.cons_append, ← ih]
    rfl

theorem received_nil : received [] = [] := by
  have hw : walk none (dropNoops []) 0 0 = .incomplete := by
    rw [walk]
    rfl
  have hcut : (messageCutter none).cut [] = .more [] := cutMessage_incomplete hw
  rw [received, Cutter.drain_more hcut]

theorem received_flatMap (fs : List Frame) :
    received (fs.flatMap Frame.bytes) = fs.map Frame.body := by
  have h := received_frames fs []
  rwa [List.append_nil, received_nil, List.append_nil] at h

/-- Whole frames leave the cutter at a boundary. -/
theorem received_append {bytes : List UInt8} {fs₀ : List Frame}
    (h : bytes = fs₀.flatMap Frame.bytes) (xs : List UInt8) :
    received (bytes ++ xs) = received bytes ++ received xs := by
  rw [h, received_frames, received_flatMap]

/-- They are answered, frame by frame. -/
theorem inbound_deliver (peer : Peer) {st : Stream} {fs₀ : List Frame}
    (h : st.sent = fs₀.flatMap Frame.bytes) (fs : List Frame) :
    (st.deliver peer (fs.flatMap Frame.bytes)).inbound =
      st.inbound ++ peer.replies (received st.sent) (fs.map Frame.body) := by
  have hnew : (received (st.sent ++ fs.flatMap Frame.bytes)).drop (received st.sent).length =
      fs.map Frame.body := by
    rw [received_append h, received_flatMap, List.drop_left]
  simp only [Stream.deliver, hnew]

theorem received_isPrefix (bytes xs : List UInt8) : received bytes <+: received (bytes ++ xs) :=
  Cutter.drain_isPrefix bytes xs

namespace BoltConnection
variable {S : Server}

/-- An intact connection: whole requests have been sent, and `rs` are the responses that the
server has given and the client has not read. -/
structure Live (S : Server) (c : BoltConnection) (rs : List Response) : Prop where
  intact : c.broken = false
  framed : ∃ fs : List Frame, c.stream.sent = fs.flatMap Frame.bytes
  carries : Carries rs c.unread
  owed : c.pending = summaries rs
  unanswered : rs <:+ S.replies [] c.log

/-- Broken, or live and owed `rs`. -/
def Sound (S : Server) (c : BoltConnection) (rs : List Response) : Prop :=
  c.broken = true ∨ Live S c rs

theorem Sound.live {c : BoltConnection} {rs : List Response} (h : Sound S c rs)
    (hb : c.broken = false) : Live S c rs := by
  rcases h with h | h
  · rw [hb] at h
    cases h
  · exact h

/-- Nothing is owed exactly if no summary is. -/
theorem Live.eq_nil {c : BoltConnection} {rs : List Response} (h : Live S c rs)
    (h0 : c.pending = 0) : rs = [] :=
  eq_nil_of_summaries h.unanswered (h.owed.symm.trans h0)

/-- Flags other than `broken` and `pending` do not matter. -/
theorem Live.congr {c c' : BoltConnection} {rs : List Response} (h : Live S c rs)
    (hs : c'.stream = c.stream) (hp : c'.pending = c.pending) (hb : c'.broken = c.broken)
    (hr : c'.rbuf = c.rbuf) : Live S c' rs where
  intact := hb.trans h.intact
  framed := by rw [hs]; exact h.framed
  carries := by rw [unread, hs, hr]; exact h.carries
  owed := hp.trans h.owed
  unanswered := by rw [log, hs]; exact h.unanswered

/-- A request the operations send: answered, and with a one-byte header. -/
def Plain (req : Request) : Prop := req.signature ≠ GOODBYE ∧ req.fields.length < 16

theorem plain_reset : ∀ req ∈ [Request.reset], Plain req := by
  simp [Plain, Request.reset, RESET, GOODBYE]

theorem plain_run (query : String) (parameters extra : Meta) :
    Plain (Request.run query parameters extra) := by
  simp [Plain, Request.run, RUN, GOODBYE]

theorem plain_pull (n : Int64) (qid : Option Int64) : Plain (Request.pull n qid) := by
  simp [Plain, Request.pull, Request.withN, Request.withMeta, PULL, GOODBYE]

theorem plain_runPull (query : String) (parameters extra : Meta) (n : Int64) :
    ∀ req ∈ [Request.run query parameters extra, Request.pull n none], Plain req := by
  simpa using ⟨plain_run query parameters extra, plain_pull n none⟩

theorem plain_discard (n : Int64) (qid : Option Int64) : Plain (Request.discard n qid) := by
  simp [Plain, Request.discard, Request.withN, Request.withMeta, DISCARD, GOODBYE]

theorem plain_begin (extra : Meta) : Plain (Request.begin extra) := by
  simp [Plain, Request.begin, Request.withMeta, BEGIN, GOODBYE]

theorem plain_route (context : Meta) (db : Option String) : Plain (Request.route context db) := by
  simp [Plain, Request.route, ROUTE, GOODBYE]

theorem plain_commit : Plain Request.commit := by
  simp [Plain, Request.commit, COMMIT, GOODBYE]

theorem plain_rollback : Plain Request.rollback := by
  simp [Plain, Request.rollback, ROLLBACK, GOODBYE]

def Partly (reqs : List Request) (bodies : List Body) : Prop :=
  ∃ k, List.Forall₂ Packed (reqs.take k) bodies

/-- An error that is not a server's FAILURE. -/
def Local (e : BoltError) : Prop := ∀ code message, e ≠ .failure code message

@[simp] theorem local_protocol (message : ProtocolError) : Local (.protocol message) := by
  simp [Local]

@[simp] theorem local_closed (message : String) : Local (.closed message) := by
  simp [Local]

@[simp] theorem local_io (kind : ErrorKind) : Local (.io kind) := by
  simp [Local]

@[simp] theorem local_timeout (what : String) : Local (.timeout what) := by
  simp [Local]

inductive Sends (S : Server) (reqs : List Request) (c : BoltConnection) (rs : List Response) :
    Outcome BoltError Unit → BoltConnection → Prop
  | sent {bodies : List Body} {c' : BoltConnection} : c.broken = false →
    List.Forall₂ Packed reqs bodies →
    c'.log = c.log ++ bodies → c'.needsReset = c.needsReset →
    (∃ new, c'.unread = c.unread ++ new) → Live S c' (rs ++ S.replies c.log bodies) →
    Sends S reqs c rs (.ok ()) c'
  | kept {e : BoltError} : Local e → Sends S reqs c rs (.err e) c
  | lost {o : Outcome BoltError Unit} {bodies : List Body} {c' : BoltConnection} :
    Partly reqs bodies → c'.log = c.log ++ bodies → c'.needsReset = c.needsReset →
    c'.broken = true → (o = .dropped ∨ ∃ e, Local e ∧ o = .err e) → Sends S reqs c rs o c'

theorem packed_map {reqs : List Request} {fs : List Frame}
    (h : List.Forall₂ (fun req f => PackStream.pack req.value [] = .ok f.body) reqs fs) :
    List.Forall₂ Packed reqs (fs.map Frame.body) := by
  rwa [List.forall₂_map_right_iff]

theorem encodeAll_local {reqs : List Request} {out : List UInt8} {e : BoltError}
    (h : encodeAll reqs out = .error e) : Local e := by
  induction reqs generalizing out with
  | nil => cases h
  | cons req reqs ih =>
    rw [encodeAll] at h
    cases hr : encode req out with
    | ok out₁ =>
      rw [hr] at h
      exact ih h
    | error e₁ =>
      rw [hr] at h
      cases h
      unfold encode at hr
      cases hp : PackStream.pack req.value [] with
      | ok body => rw [hp] at hr; cases hr
      | error e₂ =>
        rw [hp] at hr
        cases hr
        obtain ⟨message, rfl⟩ := (PackStream.appends_pack req.value).error hp
        simp

theorem signature_ne_goodbye {reqs : List Request} {bodies : List Body}
    (h : List.Forall₂ Packed reqs bodies) (hreqs : ∀ req ∈ reqs, Plain req) :
    ∀ b ∈ bodies, signature b ≠ GOODBYE := by
  induction h with
  | nil => simp
  | @cons req body reqs bodies hp _ ih =>
    have hreq := hreqs req (List.mem_cons_self ..)
    intro b hb
    rcases List.mem_cons.mp hb with rfl | hb
    · rw [hp.signature hreq.2]
      exact hreq.1
    · exact ih (fun r hr => hreqs r (List.mem_cons_of_mem _ hr)) b hb

theorem length_filter_plain {reqs : List Request} (hreqs : ∀ req ∈ reqs, Plain req) :
    (reqs.filter fun r => r.signature ≠ GOODBYE).length = reqs.length := by
  rw [List.filter_eq_self.mpr fun r hr => by simpa using (hreqs r hr).1]

/-- A buffer that goes out whole is answered, request by request. -/
theorem Live.write {c c' : BoltConnection} {rs : List Response} (h : Live S c rs)
    {reqs : List Request} (hreqs : ∀ req ∈ reqs, Plain req) {fs : List Frame}
    (hfs : List.Forall₂ Packed reqs (fs.map Frame.body))
    (hsent : c'.stream.sent = c.stream.sent ++ fs.flatMap Frame.bytes)
    (hin : c'.stream.inbound = c.stream.inbound ++ S.peer.replies c.log (fs.map Frame.body))
    (hp : c'.pending = c.pending + reqs.length) (hb : c'.broken = false) (hr : c'.rbuf = c.rbuf)
    (hn : c'.needsReset = c.needsReset) : Sends S reqs c rs (.ok ()) c' := by
  obtain ⟨fs₀, hfs₀⟩ := h.framed
  have hlog' : c'.log = c.log ++ fs.map Frame.body := by
    rw [log, log, hsent, received_append hfs₀, received_flatMap]
  have hunread : c'.unread = c.unread ++ S.peer.replies c.log (fs.map Frame.body) := by
    rw [unread, unread, hr, hin, List.append_assoc]
  refine .sent h.intact hfs hlog' hn ⟨_, hunread⟩ ⟨hb, ⟨fs₀ ++ fs, ?_⟩, ?_, ?_, ?_⟩
  · rw [hsent, hfs₀, List.flatMap_append]
  · rw [hunread]
    exact h.carries.append (carries_replies (signature_ne_goodbye hfs hreqs))
  · rw [hp, h.owed, summaries_append, summaries_replies, hfs.length_eq]
  · rw [hlog', replies_append, List.nil_append]
    obtain ⟨read, hread⟩ := h.unanswered
    exact ⟨read, by rw [← hread, List.append_assoc]⟩

/-- What the peer gets of a buffer that is cut short: the first few requests. -/
theorem Live.write_cut {c : BoltConnection} {rs : List Response} (h : Live S c rs)
    {reqs : List Request} {fs : List Frame} (hfs : List.Forall₂ Packed reqs (fs.map Frame.body))
    (k : ℕ) : ∃ bodies, Partly reqs bodies ∧
      received (c.stream.sent ++ (fs.flatMap Frame.bytes).take k) = c.log ++ bodies := by
  obtain ⟨fs₀, hfs₀⟩ := h.framed
  have hpre := received_isPrefix ((fs.flatMap Frame.bytes).take k) ((fs.flatMap Frame.bytes).drop k)
  rw [List.take_append_drop, received_flatMap] at hpre
  refine ⟨received ((fs.flatMap Frame.bytes).take k),
    ⟨(received ((fs.flatMap Frame.bytes).take k)).length, ?_⟩, ?_⟩
  · have htake := List.forall₂_take (received ((fs.flatMap Frame.bytes).take k)).length hfs
    rwa [← List.prefix_iff_eq_take.mp hpre] at htake
  · exact received_append hfs₀ _

/-- The replies to whole frames are on their way. -/
theorem Live.deliver_inbound {c : BoltConnection} {rs : List Response} (h : Live S c rs)
    (fs : List Frame) : (c.stream.deliver S.peer (fs.flatMap Frame.bytes)).inbound =
      c.stream.inbound ++ S.peer.replies c.log (fs.map Frame.body) := by
  obtain ⟨fs₀, hfs₀⟩ := h.framed
  exact inbound_deliver S.peer hfs₀ fs

theorem wp_send {c : BoltConnection} {rs : List Response} (h : Sound S c rs) {reqs : List Request}
    (hreqs : ∀ req ∈ reqs, Plain req) :
    Future.wp (writeMessages S.peer reqs) (Sends S reqs c rs) c := by
  refine Future.wp_mono (wp_writeMessages reqs c) ?_
  intro o c' hw
  cases hw with
  | refused m hb => exact .kept (by simp)
  | unencodable hb he => exact .kept (encodeAll_local he)
  | @whole out sched hb he =>
    obtain ⟨fs, hfs, rfl, -⟩ := encodeAll_eq_ok he
    rw [List.nil_append]
    have hl := h.live hb
    have hp := congrArg (c.pending + ·) (length_filter_plain hreqs)
    exact hl.write hreqs (packed_map hfs) rfl (hl.deliver_inbound fs) hp hb rfl rfl
  | @cut out sched k o hb he ho =>
    obtain ⟨fs, hfs, rfl, -⟩ := encodeAll_eq_ok he
    rw [List.nil_append]
    obtain ⟨bodies, hpart, hlog⟩ := (h.live hb).write_cut (packed_map hfs) k
    refine .lost hpart hlog rfl rfl ?_
    rcases ho with rfl | ⟨kind, rfl⟩
    · exact .inl rfl
    · exact .inr ⟨.io kind, by simp, rfl⟩

inductive Receives (S : Server) (c : BoltConnection) (rs : List Response) :
    Outcome BoltError Response → BoltConnection → Prop
  | reply {r : Response} {rs' : List Response} {c' : BoltConnection} : c.broken = false →
    rs = r :: rs' → (∃ body, Boltwire.takeMessage c.unread = .item body c'.unread) →
    Live S c' rs' → c'.log = c.log → c'.needsReset = c.needsReset → Receives S c rs (.ok r) c'
  | stopped {o : Outcome BoltError Response} {c' : BoltConnection} : c.broken = false →
    (o = .dropped ∨ ∃ e, Local e ∧ o = .err e) → Live S c' rs → c'.log = c.log →
    c'.needsReset = c.needsReset → Receives S c rs o c'
  | lost {e : BoltError} {c' : BoltConnection} : Local e → c'.broken = true → c'.log = c.log →
    c'.needsReset = c.needsReset → Receives S c rs (.err e) c'

theorem wp_receive {c : BoltConnection} {rs : List Response} (h : Sound S c rs) :
    Future.wp readMessage (Receives S c rs) c := by
  refine Future.wp_mono (wp_readMessage c) ?_
  intro o c' hr
  cases hr with
  | refused m hb => exact .lost (by simp) hb rfl rfl
  | @message _ body r hb hcut hd hs ho hn hb' hp =>
    have hl := h.live hb
    have hlog : c'.log = c.log := by rw [log, log, hs]
    obtain ⟨r', rs', rfl, hd', hc⟩ := hl.carries.takeMessage hcut
    cases hd.symm.trans hd'
    refine .reply hb rfl ⟨body, hcut⟩ ⟨hb', ?_, hc, ?_, ?_⟩ hlog hn
    · rw [hs]
      exact hl.framed
    · rw [hp, hl.owed, summaries_cons]
      split_ifs <;> omega
    · rw [hlog]
      exact (List.suffix_cons r rs').trans hl.unanswered
  -- what was read is in the buffer, less NOOPs
  | @stopped _ o hb ho hsh =>
    have hl := h.live hb
    have hlog : c'.log = c.log := by rw [log, log, hsh.sent]
    have hlive' : Live S c' rs := by
      refine ⟨hsh.broken.trans hb, ?_, ?_, hsh.pending.trans hl.owed, ?_⟩
      · rw [hsh.sent]
        exact hl.framed
      · obtain ⟨n, hn⟩ := hsh.noops
        exact hl.carries.congr (by rw [hn, dropNoops_replicate])
      · rw [hlog]
        exact hl.unanswered
    refine .stopped hb ?_ hlive' hlog hsh.needsReset
    rcases ho with rfl | rfl
    · exact .inl rfl
    · exact .inr ⟨.timeout "read", by simp, rfl⟩
  | lost hb hne hb' hs ho hn hp => exact .lost hne hb' (by rw [log, log, hs]) hn

end BoltConnection
end Boltwire
