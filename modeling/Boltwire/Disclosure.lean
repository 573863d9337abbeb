import Boltwire.Establish

namespace Boltwire
open Future Server BoltConnection

namespace Listener
variable (L : Listener)

def version : Version := Version.decode ((L.negotiate clientHello).take 4)

/-- The server has picked one of the versions proposed. -/
def Agreed : Prop := 4 ≤ (L.negotiate clientHello).length ∧ supported L.version = true

end Listener

abbrev greetingRequest : Request := Request.hello DEFAULT_USER_AGENT

def Begun (req : Request) (bytes : List UInt8) : Prop :=
  bytes = [] ∨ ∃ out k, encode req [] = .ok out ∧ bytes = out.take k

/-- What has gone out, of the handshake and after it, and what the server had to
answer for that. -/
inductive Disclosed (L : Listener) (auth : Option Auth) : List UInt8 → List UInt8 → Prop
  | greeting (k : ℕ) : Disclosed L auth (clientHello.take k) []
  | hello {bytes : List UInt8} : L.Agreed → Begun greetingRequest bytes →
    Disclosed L auth clientHello bytes
  | logon {out bytes : List UInt8} {b : Body} {m : Meta} : L.Agreed →
    encode greetingRequest [] = .ok out → Packed greetingRequest b →
    (L.answer [] b).summary = .success m → Begun (.logon auth) bytes →
    Disclosed L auth clientHello (out ++ bytes)

/-- What an error of `connect` says about the server. -/
structure Reported (L : Listener) (auth : Option Auth) (e : Option BoltError) : Prop where
  failure : ∀ code message, e = some (.failure code message) →
    ∃ b, Packed greetingRequest b ∧
    ((L.answer [] b).summary = .failure code message ∨
      ∃ b', Packed (.logon auth) b' ∧ (L.answer [b] b').summary = .failure code message)
  version : ∀ agreed range, e = some (.version agreed range) → supported L.version = false ∧
    agreed = toString L.version ∧ range = SUPPORTED_RANGE

structure Interrupted (L : Listener) (auth : Option Auth) (e : Option BoltError) (s : Setup) :
    Prop where
  disclosed : Disclosed L auth s.greeting s.conn.stream.sent
  reported : Reported L auth e

/-- An error that says nothing about the server's answers. -/
def Silent (e : Option BoltError) : Prop := ∀ x, e = some x → Local x ∧
    ∀ a r, x ≠ .version a r

theorem Silent.reported {L : Listener} {auth : Option Auth} {e : Option BoltError} (h : Silent e) :
    Reported L auth e :=
  ⟨fun code message he => absurd rfl ((h _ he).1 code message),
    fun agreed range he => absurd rfl ((h _ he).2 agreed range)⟩

theorem silent_none : Silent none := by simp [Silent]

theorem silent_io (kind : ErrorKind) : Silent (some (.io kind)) := by simp [Silent]

namespace Setup
variable {L : Listener} {s : Setup}

/-- The handshake is delivered, and nothing the server says has been consumed. -/
structure Greeted (L : Listener) (s : Setup) : Prop where
  greeting : s.greeting = clientHello
  sent : s.conn.stream.sent = []
  intact : s.conn.broken = false
  needsReset : s.conn.needsReset = false
  pending : s.conn.pending = 0
  unread : s.conn.unread = L.negotiate clientHello

/-- The handshake has gone out, in part or whole, and nothing after it. -/
def Greeting (s : Setup) : Prop := (∃ k, s.greeting = clientHello.take k) ∧
    s.conn.stream.sent = []

theorem Greeting.interrupted {auth : Option Auth} {e : Option BoltError} (h : Greeting s)
    (he : Silent e) : Interrupted L auth e s := by
  obtain ⟨⟨k, hk⟩, hsent⟩ := h
  refine ⟨?_, he.reported⟩
  rw [hk, hsent]
  exact .greeting k

theorem Greeted.begun (h : Greeted L s) : Greeting s := ⟨⟨20, h.greeting⟩, h.sent⟩

theorem greet_nil (negotiate : List UInt8 → List UInt8) (s : Setup) :
    s.greet negotiate [] = s := by
  have hno : ¬ (s.greeting.length < 20 ∧ 20 ≤ s.greeting.length) := by omega
  simp [greet, hno]

/-- `write_all` completes, or leaves part of the handshake delivered. -/
theorem wp_writeAll (negotiate : List UInt8 → List UInt8) (bytes : List UInt8) (s : Setup) :
    wp (writeAll negotiate bytes) (fun o s' =>
      (o = .ok () ∧ ∃ sched, s' = (s.withSched sched).greet negotiate bytes) ∨
      ((o = .dropped ∨ ∃ kind, o = .err (.io kind)) ∧
        ∃ sched k, s' = (s.withSched sched).greet negotiate (bytes.take k))) s := by
  unfold Future.wp writeAll
  cases hs : s.conn.stream.sched with
  | nil => exact .inr ⟨.inl rfl, s.conn.stream.sched, 0, by rw [List.take_zero, greet_nil]; rfl⟩
  | cons choice sched =>
    cases choice with
    | ready n => exact .inl ⟨rfl, sched, rfl⟩
    | fail k kind => exact .inr ⟨.inr ⟨kind, rfl⟩, sched, k, rfl⟩
    | drop k => exact .inr ⟨.inl rfl, sched, k, rfl⟩
    | timeout => exact .inr ⟨.inl rfl, sched, 0, by rw [List.take_zero, greet_nil]⟩
    | eof => exact .inr ⟨.inl rfl, sched, 0, by rw [List.take_zero, greet_nil]⟩

theorem post_writeBytes (sched : List Choice) : wp (writeBytes L.negotiate clientHello)
    (post (fun _ => Greeted L) fun e s => Greeting s ∧ Silent e) (opened sched) := by
  rw [writeBytes, Future.wp_bind, onConn, wp_zoom, setBroken, wp_modify, andThen, Future.wp_bind]
  refine wp_mono (wp_writeAll _ _ _) ?_
  rintro o s (⟨rfl, sched₁, rfl⟩ | ⟨rfl | ⟨kind, rfl⟩, sched₁, k, rfl⟩)
  · rw [andThen, Future.wp_bind, onConn, wp_zoom]
    refine wp_mono (wp_flush _) ?_
    rintro o c ⟨rfl | rfl | ⟨kind, rfl⟩, sched₂, rfl⟩
    · exact ⟨rfl, rfl, rfl, rfl, rfl, rfl⟩
    · exact ⟨⟨⟨20, rfl⟩, rfl⟩, silent_none⟩
    · exact ⟨⟨⟨20, rfl⟩, rfl⟩, silent_io kind⟩
  · exact ⟨⟨⟨k, rfl⟩, rfl⟩, silent_none⟩
  · exact ⟨⟨⟨k, rfl⟩, rfl⟩, silent_io kind⟩

/-- `fill` moves bytes and loses none. -/
theorem wp_fill_unread (c : BoltConnection) : wp fill (fun o c' =>
    c'.stream.sent = c.stream.sent ∧ c'.needsReset = c.needsReset ∧ c'.pending = c.pending ∧
      c'.unread = c.unread ∧
      (o = .ok () ∧ c'.broken = c.broken ∨ Silent o.error ∧ o ≠ .ok ())) c := by
  unfold Future.wp fill
  cases hs : c.stream.sched with
  | nil => exact ⟨rfl, rfl, rfl, rfl, .inr ⟨silent_none, by simp⟩⟩
  | cons choice sched =>
    cases choice with
    | ready n =>
      dsimp only
      split_ifs with hin
      · exact ⟨rfl, rfl, rfl, rfl, .inr ⟨silent_none, by simp⟩⟩
      · refine ⟨rfl, rfl, rfl, ?_, .inl ⟨rfl, rfl⟩⟩
        simp [unread]
    | timeout => exact ⟨rfl, rfl, rfl, rfl, .inr ⟨by simp [Silent, Outcome.error], by simp⟩⟩
    | eof => exact ⟨rfl, rfl, rfl, rfl, .inr ⟨by simp [Silent, Outcome.error], by simp⟩⟩
    | fail k kind => exact ⟨rfl, rfl, rfl, rfl, .inr ⟨silent_io kind, by simp⟩⟩
    | drop k => exact ⟨rfl, rfl, rfl, rfl, .inr ⟨silent_none, by simp⟩⟩

theorem post_versionRound (h : Greeted L s) : wp (versionRound ())
    (post (Sum.elim (fun _ => Greeted L) fun _ s' => Greeted L s' ∧ 4 ≤ s'.conn.rbuf.length)
      fun e s' => Greeting s' ∧ Silent e) s := by
  rw [versionRound, Future.wp_bind, wp_get, andThen]
  split_ifs with hlen
  · rw [Future.wp_bind, onConn, wp_zoom]
    refine wp_mono (wp_fill_unread s.conn) ?_
    rintro o c ⟨hsent, hn, hp, hu, ⟨rfl, hb⟩ | ⟨he, hne⟩⟩
    · exact ⟨h.greeting, hsent.trans h.sent, hb.trans h.intact, hn.trans h.needsReset,
        hp.trans h.pending, hu.trans h.unread⟩
    · have hbegun : Greeting { s with conn := c } := ⟨⟨20, h.greeting⟩, hsent.trans h.sent⟩
      cases o with
      | ok a => exact absurd rfl hne
      | err e => exact ⟨hbegun, he⟩
      | dropped => exact ⟨hbegun, he⟩
  · exact ⟨h, Nat.le_of_not_lt hlen⟩

/-- A version is agreed on, and nothing is left of the reply. -/
structure Negotiated (L : Listener) (s : Setup) : Prop where
  greeting : s.greeting = clientHello
  sent : s.conn.stream.sent = []
  agreed : L.Agreed
  version : s.version = L.version
  needsReset : s.conn.needsReset = false
  live : Live L.toServer s.conn []

theorem live_start {c : BoltConnection} (hb : c.broken = false) (hs : c.stream.sent = [])
    (hp : c.pending = 0) (hu : dropNoops c.unread = []) : Live L.toServer c [] := by
  refine ⟨hb, ⟨[], hs⟩, .nil hu, hp, ?_⟩
  exact List.nil_suffix

/-- The first four bytes of the reply are the version. -/
theorem Greeted.takeVersion (h : Greeted L s) (hlen : 4 ≤ s.conn.rbuf.length) :
    takeVersion s =
    (.ok L.version, { s with conn := { s.conn with rbuf := s.conn.rbuf.drop 4 } }) := by
  have hreply : s.conn.rbuf ++ s.conn.stream.inbound = L.negotiate clientHello := h.unread
  have htake : s.conn.rbuf.take 4 = (L.negotiate clientHello).take 4 := by
    rw [← hreply, List.take_append_of_le_length hlen]
  rw [Listener.version, ← htake]
  rfl

theorem Greeted.rest (h : Greeted L s) (hlen : 4 ≤ s.conn.rbuf.length) :
    dropNoops (s.conn.rbuf.drop 4 ++ s.conn.stream.inbound) = [] := by
  have hreply : s.conn.rbuf ++ s.conn.stream.inbound = L.negotiate clientHello := h.unread
  rw [← List.drop_append_of_le_length hlen, hreply]
  exact L.quiet clientHello

theorem post_handshake (auth : Option Auth) (sched : List Choice) : wp (handshake L.negotiate)
    (post (fun _ => Negotiated L) (Interrupted L auth)) (opened sched) := by
  refine post_bind (post_mono (post_writeBytes sched) (fun _ _ h => h)
    fun _ _ h => h.1.interrupted h.2) ?_
  intro _ s₁ h₁
  refine post_bind (post_mono (post_loop (fun _ => Greeted L) h₁ (fun _ _ => post_versionRound)
    fun _ _ h => ⟨h.begun, silent_none⟩) (fun _ _ h => h) fun _ _ h => h.1.interrupted h.2) ?_
  rintro _ s₂ ⟨h, hlen⟩
  have hlength : 4 ≤ (L.negotiate clientHello).length := by
    rw [← h.unread, unread, List.length_append]
    omega
  rw [Future.wp_bind, Future.wp, h.takeVersion hlen, andThen, acceptVersion]
  split_ifs with hv
  · have hd : Disclosed L auth s₂.greeting s₂.conn.stream.sent := by
      rw [h.greeting, h.sent]
      exact .greeting 20
    refine ⟨hd, by simp, ?_⟩
    rintro agreed range ⟨⟩
    refine ⟨?_, rfl, rfl⟩
    by_contra hs
    rw [Bool.not_eq_false] at hs
    simp [isZero_of_supported hs, hs] at hv
  · have hs : supported L.version = true := by
      rw [Bool.or_eq_true, not_or, Bool.not_eq_true', Bool.not_eq_false] at hv
      exact hv.2
    exact ⟨h.greeting, h.sent, ⟨hlength, hs⟩, rfl, h.needsReset,
      live_start h.intact h.sent h.pending (h.rest hlen)⟩

def NoVersion (e : Option BoltError) : Prop := ∀ agreed range, e ≠ some (.version agreed range)

theorem decode_protocol {body : Body} {e : BoltError} (h : decode body = .error e) :
    ∃ message, e = .protocol message := by
  unfold decode at h
  split at h
  · rename_i e' hu
    cases h
    exact PackStream.ProtocolOnly.unpackWithin _ _ _ hu
  · split at h
    · cases h
    · cases h
      exact ⟨_, rfl⟩
  · cases h
    exact ⟨_, rfl⟩

theorem post_readBody_noVersion (c : BoltConnection) :
    wp readBody (post (fun _ _ => True) fun e _ => NoVersion e) c := by
  refine post_loop (fun _ _ => True) trivial (fun _ c₁ _ => ?_) fun _ _ _ => by simp [NoVersion]
  rw [readRound, Future.wp_bind]
  unfold Future.wp BoltConnection.takeMessage
  cases ht : Boltwire.takeMessage c₁.rbuf with
  | more rest =>
    simp only [andThen]
    refine post_bind (Q := fun _ _ => True) (wp_mono (wp_fill_unread _) ?_) fun _ _ _ => trivial
    rintro o c₂ ⟨-, -, -, -, ⟨rfl, -⟩ | ⟨he, hne⟩⟩
    · trivial
    · cases o with
      | ok a => trivial
      | err e => exact fun a r h => (he e rfl).2 a r (Option.some.inj h)
      | dropped => simp [post, NoVersion]
  | item body rest => trivial
  | fail e rest =>
    obtain ⟨-, rfl, -⟩ := cutMessage_fail ht
    simp [andThen, post, NoVersion]

theorem post_readMessage_noVersion (c : BoltConnection) :
    wp readMessage (post (fun _ _ => True) fun e _ => NoVersion e) c := by
  rw [readMessage, Future.wp_bind]
  apply wp_checkIntact
  · intro _ m
    simp [andThen, post, NoVersion]
  intro _
  refine post_bind (post_readBody_noVersion c) ?_
  intro body c₁ _
  rw [Future.wp]
  cases hd : decode body with
  | ok r =>
    rw [acceptBody_ok hd]
    trivial
  | error e =>
    rw [acceptBody_error hd]
    obtain ⟨message, rfl⟩ := decode_protocol hd
    simp [post, NoVersion]

/-- What a write of one request has put on the wire. -/
theorem post_writeMessage_sent {peer : Peer} (req : Request) (c : BoltConnection) :
    wp (writeMessage peer req)
      (post (fun _ c' => ∃ out, encode req [] = .ok out ∧ c'.stream.sent = c.stream.sent ++ out)
        fun e c' => NoVersion e ∧
          ∃ bytes, Begun req bytes ∧ c'.stream.sent = c.stream.sent ++ bytes) c := by
  have hone : ∀ {r}, encodeAll [req] [] = r → encode req [] = r := by
    rintro r rfl
    rw [encodeAll]
    cases encode req [] <;> rfl
  refine wp_mono (wp_writeMessages [req] c) ?_
  intro o c' hw
  cases hw with
  | refused m hb => exact ⟨by simp [NoVersion], [], .inl rfl, by simp⟩
  | @unencodable e hb he =>
    refine ⟨?_, [], .inl rfl, by simp⟩
    have henc := hone he
    unfold encode at henc
    cases hp : PackStream.pack req.value [] with
    | ok body => rw [hp] at henc; cases henc
    | error e' =>
      rw [hp] at henc
      cases henc
      obtain ⟨message, rfl⟩ := (PackStream.appends_pack req.value).error hp
      simp [NoVersion]
  | @whole out sched hb he => exact ⟨out, hone he, rfl⟩
  | @cut out sched k o hb he ho =>
    have hbegun : Begun req (out.take k) := .inr ⟨out, k, hone he, rfl⟩
    rcases ho with rfl | ⟨kind, rfl⟩
    · exact ⟨by simp [NoVersion], _, hbegun, rfl⟩
    · exact ⟨by simp [NoVersion], _, hbegun, rfl⟩

theorem readMessage_sent (c : BoltConnection) :
    wp readMessage (fun _ c' => c'.stream.sent = c.stream.sent) c := by
  refine wp_mono (wp_readMessage c) ?_
  intro o c' hr
  cases hr with
  | refused m hb => rfl
  | message _ _ _ hs _ _ _ _ => exact hs
  | stopped _ _ hsh => exact hsh.sent
  | lost _ _ _ hs _ _ _ => exact hs

/-- The request was answered with SUCCESS. -/
structure Met (S : Server) (req : Request) (c : BoltConnection) (b : Body) (m : Meta)
    (c' : BoltConnection) : Prop where
  answered : Answered S req c b (.success m) c'
  sent : ∃ out, encode req [] = .ok out ∧ c'.stream.sent = c.stream.sent ++ out

/-- It was not, or that is not known. -/
structure Unmet (S : Server) (req : Request) (c : BoltConnection) (e : Option BoltError)
    (c' : BoltConnection) : Prop where
  sent : ∃ bytes, Begun req bytes ∧ c'.stream.sent = c.stream.sent ++ bytes
  version : NoVersion e
  failure : ∀ code message, e = some (.failure code message) →
    ∃ b, Packed req b ∧ (S.answer c.log b).summary = .failure code message

theorem post_demand {req : Request} (ctx : String) (h : Live L.toServer s.conn [])
    (hplain : Plain req) (hp : req.signature ≠ PULL) (hd : req.signature ≠ DISCARD) :
    wp (demand L.peer req ctx)
      (post (fun m s' => ∃ b c', s' = { s with conn := c' } ∧ Met L.toServer req s.conn b m c')
        fun e s' => ∃ c', s' = { s with conn := c' } ∧ Unmet L.toServer req s.conn e c') s := by
  have hlocal : ∀ {e : Option BoltError}, (∀ x, e = some x → Local x) → ∀ code message,
      e = some (.failure code message) →
      ∃ b, Packed req b ∧ (L.answer s.conn.log b).summary = .failure code message := by
    intro e hl code message he
    exact absurd rfl (hl _ he code message)
  rw [demand, onConn, onConn]
  refine post_zoom (post_mono (post_and (post_send (.inr h) (by simpa using hplain))
    (post_writeMessage_sent req s.conn)) (fun _ _ h => h) ?_) ?_
  · rintro e c₁ ⟨hu, hv, hsent⟩
    exact ⟨c₁, rfl, hsent, hv, hlocal hu.local_error⟩
  rintro _ c₁ ⟨⟨bodies, hs⟩, out, henc, hout⟩
  obtain ⟨b, hb, rfl⟩ := packed_one hs.packed
  have hlive := hs.live
  rw [List.nil_append, replies_singleton,
    responses_of_signature (hb.signature hplain.2) hp hd] at hlive
  have hbegun : Begun req out := .inr ⟨out, out.length, henc, by rw [List.take_length]⟩
  have hsent : wp readMessage (post (fun _ c' => c'.stream.sent = s.conn.stream.sent ++ out)
      fun _ c' => c'.stream.sent = s.conn.stream.sent ++ out) c₁ := by
    refine wp_mono (readMessage_sent c₁) ?_
    intro o c' hc
    cases o <;> exact hc.trans hout
  refine post_zoom (post_mono (post_and (post_and (post_receive (.inr hlive)) hsent)
    (post_readMessage_noVersion c₁)) (fun _ _ h => h) ?_) ?_
  · rintro e c₂ ⟨⟨hu, hs₂⟩, hv⟩
    exact ⟨c₂, rfl, ⟨out, hbegun, hs₂⟩, hv, hlocal hu.local_error⟩
  rintro r c₂ ⟨⟨⟨rfl, hg, -⟩, hs₂⟩, -⟩
  have ha : ∀ {r}, (L.answer s.conn.log b).summary = r →
      Answered L.toServer req s.conn b r c₂ :=
    fun hr => ⟨hb, hr, hg.log.trans hs.log, hg.needsReset.trans hs.needsReset, hg.live⟩
  cases hr : (L.answer s.conn.log b).summary with
  | success m => exact ⟨b, c₂, rfl, ha hr, out, henc, hs₂⟩
  | failure code message =>
    refine ⟨c₂, rfl, ⟨out, hbegun, hs₂⟩, by simp [NoVersion], ?_⟩
    rintro code' message' ⟨⟩
    exact ⟨b, hb, hr⟩
  | record v =>
    exact ⟨c₂, rfl, ⟨out, hbegun, hs₂⟩, by simp [NoVersion], hlocal (by simp)⟩
  | ignored =>
    exact ⟨c₂, rfl, ⟨out, hbegun, hs₂⟩, by simp [NoVersion], hlocal (by simp)⟩

/-- What `connect` returns: a session at its start, with the version and the names
that the server gave. -/
structure Established (L : Listener) (auth : Option Auth) (s : Setup) : Prop where
  agreed : L.Agreed
  version : s.version = L.version
  requests : ∃ b₁ b₂ m₁ m₂, Packed greetingRequest b₁ ∧ Packed (.logon auth) b₂ ∧
    s.conn.log = [b₁, b₂] ∧ (L.answer [] b₁).summary = .success m₁ ∧
    (L.answer [b₁] b₂).summary = .success m₂ ∧
    s.serverAgent = metaStr m₁ "server" ∧ s.connectionId = metaStr m₁ "connection_id"
  needsReset : s.conn.needsReset = false
  live : Live L.toServer s.conn []

theorem plain_logon (auth : Option Auth) : Plain (.logon auth) ∧
    (Request.logon auth).signature = LOGON := by
  cases auth with
  | none =>
    exact ⟨⟨by simp [Request.logon, Request.logonNone, Request.withMeta, LOGON, GOODBYE],
      by simp [Request.logon, Request.logonNone, Request.withMeta]⟩, rfl⟩
  | some a =>
    exact ⟨⟨by simp [Request.logon, Request.logonBasic, Request.withMeta, LOGON, GOODBYE],
      by simp [Request.logon, Request.logonBasic, Request.withMeta]⟩, rfl⟩

theorem plain_hello : Plain greetingRequest := by
  simp [Plain, greetingRequest, Request.hello, Request.withMeta, HELLO, GOODBYE]

structure Welcomed (L : Listener) (b : Body) (m : Meta) (s : Setup) : Prop where
  greeting : s.greeting = clientHello
  agreed : L.Agreed
  version : s.version = L.version
  packed : Packed greetingRequest b
  success : (L.answer [] b).summary = .success m
  log : s.conn.log = [b]
  sent : encode greetingRequest [] = .ok s.conn.stream.sent
  names : s.serverAgent = metaStr m "server" ∧ s.connectionId = metaStr m "connection_id"
  needsReset : s.conn.needsReset = false
  live : Live L.toServer s.conn []

theorem post_hello (auth : Option Auth) (h : Negotiated L s) : wp (hello L.peer)
    (post (fun _ s' => ∃ b m, Welcomed L b m s') (Interrupted L auth)) s := by
  have hlog : s.conn.log = [] := by rw [log, h.sent, received_nil]
  refine post_bind (post_mono (post_demand "HELLO" h.live plain_hello
    (show HELLO ≠ PULL by decide) (show HELLO ≠ DISCARD by decide)) (fun _ _ h => h) ?_) ?_
  · rintro e _ ⟨c, rfl, hu⟩
    obtain ⟨bytes, hbegun, hsent⟩ := hu.sent
    rw [h.sent, List.nil_append] at hsent
    have hd : Disclosed L auth s.greeting c.stream.sent := by
      rw [h.greeting, hsent]
      exact .hello h.agreed hbegun
    refine ⟨hd, fun code message he => ?_, fun a r he => absurd he (hu.version a r)⟩
    obtain ⟨b, hb, hf⟩ := hu.failure code message he
    exact ⟨b, hb, .inl (hlog ▸ hf)⟩
  rintro m _ ⟨b, c, rfl, ha, out, henc, hout⟩
  rw [h.sent, List.nil_append] at hout
  refine ⟨b, m, h.greeting, h.agreed, h.version, ha.packed, hlog ▸ ha.summary, ?_,
    hout ▸ henc, ⟨rfl, rfl⟩, ha.needsReset.trans h.needsReset, ha.live⟩
  exact ha.log.trans (by rw [hlog, List.nil_append])

/-- What `logon` sends comes after the whole of HELLO. -/
theorem Welcomed.disclosed {b : Body} {m : Meta} {bytes : List UInt8} {auth : Option Auth}
    (h : Welcomed L b m s) (hbegun : Begun (.logon auth) bytes) :
    Disclosed L auth s.greeting (s.conn.stream.sent ++ bytes) := by
  rw [h.greeting]
  exact .logon h.agreed h.sent h.packed h.success hbegun

theorem post_logon (auth : Option Auth) {b : Body} {m : Meta} (h : Welcomed L b m s) :
    wp (do let _ ← demand L.peer (.logon auth) "LOGON")
      (post (fun _ s' => Established L auth s' ∧ Disclosed L auth s'.greeting s'.conn.stream.sent)
        (Interrupted L auth)) s := by
  obtain ⟨hplain, hsig⟩ := plain_logon auth
  refine post_bind (post_mono (post_demand "LOGON" h.live hplain (by rw [hsig]; decide)
    (by rw [hsig]; decide)) (fun _ _ h => h) ?_) ?_
  · rintro e _ ⟨c, rfl, hu⟩
    obtain ⟨bytes, hbegun, hsent⟩ := hu.sent
    have hd : Disclosed L auth s.greeting c.stream.sent := by
      rw [hsent]
      exact h.disclosed hbegun
    refine ⟨hd, fun code message he => ?_, fun a r he => absurd he (hu.version a r)⟩
    obtain ⟨b', hb', hf⟩ := hu.failure code message he
    exact ⟨b, h.packed, .inr ⟨b', hb', h.log ▸ hf⟩⟩
  rintro m' _ ⟨b', c, rfl, ha, out, henc, hout⟩
  have hd : Disclosed L auth s.greeting c.stream.sent := by
    rw [hout]
    exact h.disclosed (.inr ⟨out, out.length, henc, by rw [List.take_length]⟩)
  have hlog : c.log = [b, b'] := by
    rw [ha.log, h.log]
    rfl
  refine ⟨⟨h.agreed, h.version, ?_, ha.needsReset.trans h.needsReset, ha.live⟩, hd⟩
  exact ⟨b, b', m, m', h.packed, ha.packed, hlog, h.success, h.log ▸ ha.summary, h.names⟩

theorem post_establish (auth : Option Auth) (sched : List Choice) :
    wp (establish L.negotiate L.peer auth)
      (post (fun _ s => Established L auth s ∧ Disclosed L auth s.greeting s.conn.stream.sent)
        (Interrupted L auth)) (opened sched) := by
  refine post_bind (post_handshake auth sched) fun _ s₁ h₁ => ?_
  refine post_bind (post_hello auth h₁) ?_
  rintro _ s₂ ⟨b, m, h₂⟩
  exact post_logon auth h₂

theorem wp_deadline {α : Type} {what : String} {passed : Bool} {f : Op α}
    {Q : Outcome BoltError α → Setup → Prop} (h : wp f Q s)
    (hpassed : ∀ s', Q .dropped s' → Q (.err (.timeout what)) s') :
    wp (deadline what passed f) Q s := by
  unfold Future.wp deadline at *
  cases hf : f s with
  | mk o s' =>
    rw [hf] at h
    cases o with
    | ok a => exact h
    | err e => exact h
    | dropped =>
      cases passed with
      | true => exact hpassed s' h
      | false => exact h

theorem wp_connect (L : Listener) (dialled : Except BoltError Unit) (auth : Option Auth)
    (passed : Bool) (sched : List Choice) :
    wp (connect L.negotiate L.peer dialled auth passed) (fun o s =>
      Disclosed L auth s.greeting s.conn.stream.sent ∧
      (dialled = .ok () → Reported L auth o.error) ∧
      (o = .ok () → Established L auth s)) (opened sched) := by
  refine wp_deadline ?_ ?_
  · cases dialled with
    | error e =>
      refine ⟨.greeting 0, ?_, ?_⟩
      · intro h
        cases h
      · intro h
        cases h
    | ok _ =>
      refine wp_mono (post_establish auth sched) ?_
      rintro (_ | e | _) s h
      · exact ⟨h.2, fun _ => silent_none.reported, fun _ => h.1⟩
      · exact ⟨h.disclosed, fun _ => h.reported, by simp⟩
      · exact ⟨h.disclosed, fun _ => h.reported, by simp⟩
  · rintro s' ⟨hd, -, -⟩
    exact ⟨hd, fun _ => Silent.reported (by simp [Silent, Outcome.error]), by simp⟩

/-- However an attempt to connect ends, the server has learnt no more than it had
to: HELLO only goes to a server that picked a version proposed to it, and LOGON,
with the credentials, only to one that has accepted HELLO too. A FAILURE that is
reported is its answer to HELLO or LOGON, and a version it did not support is named. -/
theorem connect_discloses (L : Listener) (dialled : Except BoltError Unit) (auth : Option Auth)
    (passed : Bool) (sched : List Choice) : ∃ o s,
    connect L.negotiate L.peer dialled auth passed (opened sched) = (o, s) ∧
    Disclosed L auth s.greeting s.conn.stream.sent ∧
    (dialled = .ok () → Reported L auth o.error) := by
  obtain ⟨hd, hr, -⟩ := wp_connect L dialled auth passed sched
  exact ⟨_, _, rfl, hd, hr⟩

/-- HELLO and LOGON leave the session READY and begin no transaction. -/
theorem Established.start {auth : Option Auth} (h : Established L auth s) :
    L.phase s.conn.log = .ready ∧ L.openTx s.conn.log = none := by
  obtain ⟨b₁, b₂, m₁, m₂, hb₁, hb₂, hlog, hs₁, hs₂, -, -⟩ := h.requests
  have hsig₁ : signature b₁ = HELLO := hb₁.signature plain_hello.2
  have hsig₂ : signature b₂ = LOGON := (hb₂.signature (plain_logon auth).1.2).trans
    (plain_logon auth).2
  rw [hlog, show [b₁, b₂] = [] ++ [b₁] ++ [b₂] from rfl, phase_concat, phase_concat,
    openTx_concat, openTx_concat, txNext, txNext]
  rw [List.nil_append, hs₁, hs₂, hsig₁, hsig₂]
  exact ⟨rfl, rfl⟩

theorem Established.ready {auth : Option Auth} (h : Established L auth s) :
    s.conn.isReady = true := by
  have hp : s.conn.pending = 0 := h.live.owed
  simp [isReady, h.live.intact, h.needsReset, hp]

theorem Established.inv {auth : Option Auth} (h : Established L auth s) (l : Law L.toServer) :
    Inv l (.free s.conn) := .of_live h.live fun _ => h.start.1

/-- A connection that `connect` returned is ready, and so is the session, on the
version the server picked; every history of it keeps the invariant. -/
theorem connect_starts_session (L : Listener) (dialled : Except BoltError Unit)
    (auth : Option Auth) (passed : Bool) (sched : List Choice) {s : Setup}
    (h : connect L.negotiate L.peer dialled auth passed (opened sched) = (.ok (), s)) :
    Established L auth s ∧ s.conn.isReady = true ∧ L.phase s.conn.log = .ready ∧
      ∀ client, Client.History L.peer (.free s.conn) client → Inv L.law client := by
  have he : Established L auth s := (wp_of_eq (wp_connect L dialled auth passed sched) h).2.2 rfl
  refine ⟨he, he.ready, he.start.1, ?_⟩
  intro client hrun
  exact hrun.inv (he.inv L.law) fun hl call client _ => hl.forewarned call client

end Setup

def obligingListener : Listener :=
  { obliging with negotiate := fun _ => [0, 0, 8, 5], quiet := fun _ => rfl }

/-- With credentials, over a transport that delivers everything. -/
theorem connect_starts_session_obliging : ∃ s : Setup,
    Setup.connect obligingListener.negotiate obligingListener.peer (.ok ())
      (some (Auth.basic "neo4j" "secret")) false (.opened smooth) = (.ok (), s) ∧
    s.conn.isReady = true := by
  have hok : (Setup.connect obligingListener.negotiate obligingListener.peer (.ok ())
      (some (Auth.basic "neo4j" "secret")) false (.opened smooth)).1.isOk = true := by
    decide +kernel
  cases hc : Setup.connect obligingListener.negotiate obligingListener.peer (.ok ())
      (some (Auth.basic "neo4j" "secret")) false (.opened smooth) with
  | mk o s =>
    rw [hc] at hok
    cases o with
    | ok _ => exact ⟨s, rfl, (Setup.connect_starts_session _ _ _ _ _ hc).2.1⟩
    | err e => cases hok
    | dropped => cases hok

end Boltwire
