import Boltwire.Disclosure
import Boltwire.Draining

namespace Boltwire
open Future Server BoltConnection

namespace Setup
variable {L : Listener} {s : Setup} {more : ℕ}

/-- The handshake is delivered, and the awaits left are enough for the reply to it
and `more`. -/
theorem prompt_writeBytes {sched : List Choice} (hready : AllReady sched)
    (henough : 2 + (L.negotiate clientHello).length + more ≤ sched.length) :
    wp (writeBytes L.negotiate clientHello)
      (post (fun _ s => Greeted L s ∧ Prompt more s.conn) fun _ _ => False) (opened sched) := by
  obtain ⟨i, sched₁, rfl, hready₁⟩ := hready.eq_cons (by omega)
  rw [List.length_cons] at henough
  obtain ⟨j, sched₂, rfl, hready₂⟩ := hready₁.eq_cons (by omega)
  rw [List.length_cons] at henough
  refine ⟨⟨rfl, rfl, rfl, rfl, rfl, rfl⟩, hready₂, ?_⟩
  change (L.negotiate clientHello).length + more ≤ sched₂.length
  omega

theorem prompt_versionRound {n : ℕ} (h : Greeted L s) (hp : Prompt more s.conn)
    (hlen : 4 ≤ (L.negotiate clientHello).length) (hn : s.conn.stream.sched.length = n) :
    wp (versionRound ()) (post (Sum.elim
      (fun _ s' => ∃ m < n, s'.conn.stream.sched.length = m ∧ Greeted L s' ∧
        Prompt more s'.conn)
      fun _ s' => Greeted L s' ∧ 4 ≤ s'.conn.rbuf.length ∧ Prompt more s'.conn)
      fun _ _ => False) s := by
  rw [versionRound, Future.wp_bind, wp_get, andThen]
  split_ifs with hshort
  · have hunread := congrArg List.length h.unread
    rw [unread, List.length_append] at hunread
    have hpos : 0 < s.conn.stream.inbound.length := by omega
    have henough := hp.enough
    obtain ⟨k, sched, hs, hready⟩ := hp.ready.eq_cons (by omega)
    rw [hs, List.length_cons] at henough
    have hfill : fill s.conn = (.ok (), { s.conn with
        stream := { s.conn.stream with sched, inbound := s.conn.stream.inbound.drop (k + 1) }
        rbuf := s.conn.rbuf ++ s.conn.stream.inbound.take (k + 1) }) := by
      simp [fill, hs, List.ne_nil_of_length_pos hpos]
    have hu : s.conn.rbuf ++ s.conn.stream.inbound.take (k + 1) ++
        s.conn.stream.inbound.drop (k + 1) = L.negotiate clientHello := by
      rw [List.append_assoc, List.take_append_drop]
      exact h.unread
    have hle : (s.conn.stream.inbound.drop (k + 1)).length + more ≤ sched.length := by
      rw [List.length_drop]
      omega
    rw [Future.wp_bind, onConn, wp_zoom, Future.wp, hfill]
    refine ⟨sched.length, ?_, rfl,
      ⟨h.greeting, h.sent, h.intact, h.needsReset, h.pending, hu⟩, hready, hle⟩
    rw [← hn, hs, List.length_cons]
    omega
  · exact ⟨h, Nat.le_of_not_lt hshort, hp⟩

theorem prompt_handshake {sched : List Choice} (hready : AllReady sched)
    (henough : 2 + (L.negotiate clientHello).length + more ≤ sched.length) (ha : L.Agreed) :
    wp (handshake L.negotiate) (post (fun _ s => Negotiated L s ∧ Prompt more s.conn)
      fun _ _ => False) (opened sched) := by
  have hspec := post_handshake (L := L) none sched
  suffices hp : wp (handshake L.negotiate) (post (fun _ s => Prompt more s.conn) fun _ _ => False)
      (opened sched) from
    post_mono (post_and hspec hp) (fun _ _ h => h) fun _ _ h => h.2
  refine post_bind (prompt_writeBytes hready henough) ?_
  rintro _ s₁ ⟨h₁, hp₁⟩
  refine post_bind (post_loop_within (fun n _ s' => s'.conn.stream.sched.length = n ∧
    Greeted L s' ∧ Prompt more s'.conn) (fun _ _ _ h => prompt_versionRound h.2.1 h.2.2 ha.1 h.1)
    (Nat.le_refl _) ⟨rfl, h₁, hp₁⟩) ?_
  rintro _ s₂ ⟨h₂, hlen, hp₂⟩
  have hv : (L.version.isZero || !supported L.version) = false := by
    rw [ha.2, isZero_of_supported ha.2]
    rfl
  rw [Future.wp_bind, Future.wp, h₂.takeVersion hlen, andThen, acceptVersion,
    if_neg (by simp [hv])]
  exact ⟨hp₂.ready, hp₂.enough⟩

theorem prompt_demand {req : Request} {b : Body} {m : Meta} (ctx : String)
    (h : Live L.toServer s.conn []) (hplain : Plain req) (hp : req.signature ≠ PULL)
    (hd : req.signature ≠ DISCARD) (hb : Packed req b)
    (hm : (L.answer s.conn.log b).summary = .success m)
    (hprompt : Prompt (2 + (L.peer s.conn.log b).length + more) s.conn) :
    wp (demand L.peer req ctx)
      (post (fun _ s' => Prompt more s'.conn) fun e s' => TooLong e s'.conn) s := by
  rw [demand, onConn, onConn]
  refine post_zoom (post_mono (post_and (post_send (.inr h) (by simpa using hplain))
    (prompt_send h hb hprompt)) (fun _ _ h => h) fun _ _ h => h.2.elim) ?_
  rintro _ c₁ ⟨⟨bodies, hs⟩, hp₁⟩
  obtain ⟨b', hb', rfl⟩ := packed_one hs.packed
  cases Except.ok.inj (hb'.symm.trans hb)
  have hlive := hs.live
  rw [List.nil_append, replies_singleton,
    responses_of_signature (hb.signature hplain.2) hp hd, hm] at hlive
  refine post_zoom (post_mono (prompt_receive hlive hp₁) (fun _ _ h => h) fun _ _ h => h) ?_
  rintro _ c₂ ⟨rfl, -, hp₂⟩
  exact hp₂

theorem prompt_hello {b : Body} {m : Meta} (h : Negotiated L s) (hb : Packed greetingRequest b)
    (hm : (L.answer [] b).summary = .success m)
    (hprompt : Prompt (2 + (L.peer [] b).length + more) s.conn) : wp (hello L.peer)
      (post (fun _ s' => (∃ m', Welcomed L b m' s') ∧ Prompt more s'.conn)
        fun e s' => TooLong e s'.conn) s := by
  have hlog : s.conn.log = [] := by rw [log, h.sent, received_nil]
  have hp : wp (hello L.peer) (post (fun _ s' => Prompt more s'.conn)
      fun e s' => TooLong e s'.conn) s := by
    apply post_bind (prompt_demand "HELLO" h.live plain_hello (show HELLO ≠ PULL by decide)
      (show HELLO ≠ DISCARD by decide) hb (by rw [hlog, hm]) (by rwa [hlog]))
    intro _ s₁ hp₁
    exact ⟨hp₁.ready, hp₁.enough⟩
  apply post_mono (post_and (post_hello none h) hp)
  · rintro _ s' ⟨⟨b', m', hw⟩, hp'⟩
    cases Except.ok.inj (hw.packed.symm.trans hb)
    exact ⟨⟨m', hw⟩, hp'⟩
  · intro e s' h
    exact h.2

/-- A server that accepts gets as far as LOGON's SUCCESS. -/
theorem prompt_establish (auth : Option Auth) {sched : List Choice} {b₁ b₂ : Body}
    {m₁ m₂ : Meta} (hready : AllReady sched) (henough : 2 + (L.negotiate clientHello).length +
      (2 + (L.peer [] b₁).length + (2 + (L.peer [b₁] b₂).length + more)) ≤ sched.length)
    (hb₁ : Packed greetingRequest b₁) (hb₂ : Packed (.logon auth) b₂) (ha : L.Agreed)
    (hm₁ : (L.answer [] b₁).summary = .success m₁)
    (hm₂ : (L.answer [b₁] b₂).summary = .success m₂) :
    wp (establish L.negotiate L.peer auth)
      (post (fun _ s' => Prompt more s'.conn) fun e s' => TooLong e s'.conn) (opened sched) := by
  obtain ⟨hplain, hsig⟩ := plain_logon auth
  refine post_bind (post_mono (prompt_handshake hready henough ha) (fun _ _ h => h)
    fun _ _ h => h.elim) ?_
  rintro _ s₁ ⟨h₁, hp₁⟩
  apply post_bind (prompt_hello h₁ hb₁ hm₁ hp₁)
  rintro _ s₂ ⟨⟨m, h₂⟩, hp₂⟩
  have hlast : Prompt (2 + (L.peer s₂.conn.log b₂).length + more) s₂.conn := by
    rw [h₂.log]
    exact hp₂
  apply post_bind (prompt_demand "LOGON" h₂.live hplain (by rw [hsig]; decide)
    (by rw [hsig]; decide) hb₂ (by rw [h₂.log, hm₂]) hlast)
  intro _ s₃ hp₃
  exact hp₃

/-- With every await left to complete, and as many as there are bytes to come,
`connect` returns a connection exactly if the server picks a version proposed to it
and accepts HELLO and LOGON: unless its answer is over the limit for a message. -/
theorem connect_iff_accepted (L : Listener) (auth : Option Auth) (passed : Bool)
    {sched : List Choice} {b₁ b₂ : Body} (hb₁ : Packed greetingRequest b₁)
    (hb₂ : Packed (.logon auth) b₂) (hready : AllReady sched)
    (henough : 2 + (L.negotiate clientHello).length +
      (2 + (L.peer [] b₁).length + (2 + (L.peer [b₁] b₂).length)) ≤ sched.length)
    {o : Outcome BoltError Unit}
    (h : connect L.negotiate L.peer (.ok ()) auth passed (opened sched) = (o, s))
    (hlimit : ¬ OverLimit s.conn) :
    o = .ok () ↔ L.Agreed ∧ (∃ m, (L.answer [] b₁).summary = .success m) ∧
      ∃ m, (L.answer [b₁] b₂).summary = .success m := by
  constructor
  · rintro rfl
    have he := (wp_of_eq (wp_connect L (.ok ()) auth passed sched) h).2.2 rfl
    obtain ⟨b₁', b₂', m₁, m₂, hb₁', hb₂', -, hm₁, hm₂, -, -⟩ := he.requests
    cases Except.ok.inj (hb₁'.symm.trans hb₁)
    cases Except.ok.inj (hb₂'.symm.trans hb₂)
    exact ⟨he.agreed, ⟨m₁, hm₁⟩, m₂, hm₂⟩
  · rintro ⟨ha, ⟨m₁, hm₁⟩, m₂, hm₂⟩
    have hend : wp (connect L.negotiate L.peer (.ok ()) auth passed)
        (fun o s => o = .ok () ∨ OverLimit s.conn) (opened sched) := by
      apply wp_deadline
      · have henough' : 2 + (L.negotiate clientHello).length +
            (2 + (L.peer [] b₁).length + (2 + (L.peer [b₁] b₂).length + 0)) ≤
            sched.length := henough
        refine wp_mono (prompt_establish auth hready henough' hb₁ hb₂ ha hm₁ hm₂) ?_
        rintro (_ | e | _) s' hs'
        · exact .inl rfl
        · exact .inr hs'.2
        · exact .inr hs'.2
      · rintro s' (hs' | hs')
        · cases hs'
        · exact .inr hs'
    exact (wp_of_eq hend h).resolve_right hlimit

/-- No message is in front of a connection that is owed nothing. -/
theorem not_overLimit {S : Server} {c : BoltConnection} (h : Live S c []) : ¬ OverLimit c := by
  rintro ⟨f, rest, hu, -⟩
  have hcarries := h.carries
  rw [hu] at hcarries
  cases hcarries with
  | nil hd =>
    have hlen := congrArg List.length hd
    rw [f.dropNoops_core, Frame.core] at hlen
    simp at hlen

/-- With credentials, at a server that accepts everyone. -/
theorem connect_iff_accepted_obliging : ∃ b, Packed greetingRequest b ∧
    obligingListener.Agreed ∧ ∃ m, (obligingListener.answer [] b).summary = .success m := by
  have hready : AllReady (List.replicate 24 (.ready 1000)) := by
    intro choice hc
    exact ⟨1000, List.eq_of_mem_replicate hc⟩
  have hpacked : ∀ req : Request, (PackStream.pack req.value []).toBool = true →
      ∃ b, Packed req b := by
    intro req h
    cases hp : PackStream.pack req.value [] with
    | ok b => exact ⟨b, hp⟩
    | error e => rw [hp] at h; cases h
  obtain ⟨b₁, hb₁⟩ := hpacked greetingRequest (by decide +kernel)
  obtain ⟨b₂, hb₂⟩ := hpacked (.logon (some (Auth.basic "neo4j" "secret")))
    (by decide +kernel)
  have hok : (connect obligingListener.negotiate obligingListener.peer (.ok ())
      (some (Auth.basic "neo4j" "secret")) false (opened (List.replicate 24 (.ready 1000)))).1.isOk
      = true := by
    decide +kernel
  have hpeer : ∀ before body, (obligingListener.peer before body).length = 7 := by
    intro before body
    show ([Response.success []].flatMap Response.bytes).length = 7
    decide +kernel
  cases hc : connect obligingListener.negotiate obligingListener.peer (.ok ())
      (some (Auth.basic "neo4j" "secret")) false (opened (List.replicate 24 (.ready 1000))) with
  | mk o s =>
    rw [hc] at hok
    cases o with
    | err e => cases hok
    | dropped => cases hok
    | ok _ =>
      have hs := connect_starts_session obligingListener _ _ _ _ hc
      have hiff := connect_iff_accepted obligingListener _ _ hb₁ hb₂ hready
        (by rw [hpeer, hpeer]; decide) hc (not_overLimit hs.1.live)
      have haccepted := hiff.mp rfl
      exact ⟨b₁, hb₁, haccepted.1, haccepted.2.1⟩

end Setup
end Boltwire
