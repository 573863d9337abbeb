import Boltwire.Invariant
import Boltwire.Operations

namespace Boltwire
open Future Incremental Server BoltConnection

/-- The requests of statements, and the RESET out of a FAILURE. -/
def isStatement (body : Body) : Prop :=
  signature body = RUN ∨ signature body = PULL ∨ signature body = DISCARD ∨
    signature body = RESET

instance (body : Body) : Decidable (isStatement body) := by
  unfold isStatement
  infer_instance

theorem isStatement_reset : isStatement resetBody := by decide

theorem isStatement_run {query : String} {parameters extra : Meta} {b : Body}
    (h : Packed (Request.run query parameters extra) b) : isStatement b :=
  .inl (h.signature (plain_run ..).2)

theorem isStatement_pull {n : Int64} {qid : Option Int64} {b : Body}
    (h : Packed (Request.pull n qid) b) : isStatement b :=
  .inr (.inl (h.signature (plain_pull _ _).2))

theorem isStatement_discard {n : Int64} {qid : Option Int64} {b : Body}
    (h : Packed (Request.discard n qid) b) : isStatement b :=
  .inr (.inr (.inl (h.signature (plain_discard _ _).2)))

structure Admits (p : Body → Prop) : Prop where
  reset : p resetBody
  pull : ∀ {n : Int64} {qid : Option Int64} {b : Body}, Packed (Request.pull n qid) b → p b
  discard : ∀ {n : Int64} {qid : Option Int64} {b : Body},
    Packed (Request.discard n qid) b → p b

theorem admits_isStatement : Admits isStatement :=
  ⟨isStatement_reset, isStatement_pull, isStatement_discard⟩

theorem forall_partly {p : Body → Prop} {reqs : List Request} {bodies : List Body}
    (h : Partly reqs bodies) (hreqs : ∀ req ∈ reqs, ∀ b, Packed req b → p b) :
    ∀ b ∈ bodies, p b := by
  obtain ⟨k, hpacked⟩ := h
  intro b hb
  obtain ⟨req, hreq, hp⟩ := exists_packed hpacked b hb
  exact hreqs req (List.mem_of_mem_take hreq) b hp

namespace BoltConnection
variable {peer : Peer} {S : Server} {p : Body → Prop}

/-- Broken, or all that was sent is whole frames. -/
def Framed (c : BoltConnection) : Prop :=
  c.broken = true ∨ ∃ fs : List Frame, c.stream.sent = fs.flatMap Frame.bytes

theorem Tracked.framed {c : BoltConnection} (h : Tracked S c) : Framed c := by
  obtain ⟨rs, h | h⟩ := h
  · exact .inl h
  · exact .inr h.framed

/-- The peer has received requests that `p` allows since, if anything. -/
def Stated (p : Body → Prop) (c c' : BoltConnection) : Prop :=
  Framed c → Framed c' ∧ ∃ bodies, c'.log = c.log ++ bodies ∧ ∀ b ∈ bodies, p b

instance : IsPreorder BoltConnection (Stated p) where
  refl c h := ⟨h, [], (List.append_nil _).symm, by simp⟩
  trans c₁ c₂ c₃ h h' hf := by
    obtain ⟨hf₂, bodies, hlog, hb⟩ := h hf
    obtain ⟨hf₃, bodies', hlog', hb'⟩ := h' hf₂
    refine ⟨hf₃, bodies ++ bodies', by rw [hlog', hlog, List.append_assoc], ?_⟩
    intro b hmem
    exact (List.mem_append.mp hmem).elim (hb b) (hb' b)

/-- Nothing was sent. -/
theorem stated_of_sent {c c' : BoltConnection} (hsent : c'.stream.sent = c.stream.sent)
    (hb : c'.broken = true ∨ c.broken = false ∨ c'.broken = c.broken) : Stated p c c' := by
  intro hf
  refine ⟨?_, [], by rw [log, log, hsent, List.append_nil], by simp⟩
  rcases hb with hb | hb | hb
  · exact .inl hb
  · rcases hf with hf | hf
    · rw [hb] at hf
      cases hf
    · exact .inr (hsent ▸ hf)
  · rcases hf with hf | hf
    · exact .inl (hb.trans hf)
    · exact .inr (hsent ▸ hf)

theorem stated_needsReset (c : BoltConnection) (b : Bool) : Stated p c { c with needsReset := b } :=
  stated_of_sent rfl (.inr (.inr rfl))

theorem stated_setNeedsReset (b : Bool) : Keeps (Stated p) (setNeedsReset b) :=
  Keeps.modify fun c => stated_needsReset c b

theorem stated_read : Keeps (Stated p) readMessage := by
  intro c
  have h : Read c _ _ := wp_readMessage c
  generalize readMessage c = r at h
  obtain ⟨o, c'⟩ := r
  cases h with
  | refused => exact refl_of (Stated p) c'
  | message hb _ _ hs => exact stated_of_sent hs (.inr (.inl hb))
  | stopped hb _ hsh => exact stated_of_sent hsh.sent (.inr (.inl hb))
  | lost hb _ hb' hs => exact stated_of_sent hs (.inl hb')

/-- What the peer gets of frames that are cut short. -/
theorem received_cut {bytes : List UInt8} {fs₀ : List Frame}
    (h : bytes = fs₀.flatMap Frame.bytes) (fs : List Frame) (k : ℕ) :
    ∃ n, received (bytes ++ (fs.flatMap Frame.bytes).take k) =
      received bytes ++ (fs.map Frame.body).take n := by
  have hpre := received_isPrefix ((fs.flatMap Frame.bytes).take k) ((fs.flatMap Frame.bytes).drop k)
  rw [List.take_append_drop, received_flatMap] at hpre
  rw [received_append h]
  exact ⟨_, congrArg _ (List.prefix_iff_eq_take.mp hpre)⟩

theorem stated_write {reqs : List Request}
    (h : ∀ req ∈ reqs, ∀ b, Packed req b → p b) :
    Keeps (Stated p) (writeMessages peer reqs) := by
  intro c hf
  have hw : Wrote peer reqs c _ _ := wp_writeMessages reqs c
  generalize writeMessages peer reqs c = r at hw
  obtain ⟨o, c'⟩ := r
  have hall : ∀ {fs : List Frame}, List.Forall₂ Packed reqs (fs.map Frame.body) →
      ∀ b ∈ fs.map Frame.body, p b :=
    fun hfs => forall_partly (.all hfs) h
  cases hw with
  | refused => exact ⟨hf, [], (List.append_nil _).symm, by simp⟩
  | unencodable => exact ⟨hf, [], (List.append_nil _).symm, by simp⟩
  | @whole out sched hb he =>
    obtain ⟨fs, hfs, rfl, -⟩ := encodeAll_eq_ok he
    obtain ⟨fs₀, hfs₀⟩ := hf.resolve_left (by simp [hb])
    rw [List.nil_append]
    refine ⟨.inr ⟨fs₀ ++ fs, ?_⟩, fs.map Frame.body, ?_, hall (packed_map hfs)⟩
    · rw [List.flatMap_append, ← hfs₀]
      rfl
    · change received (c.stream.sent ++ fs.flatMap Frame.bytes) = _
      rw [received_append hfs₀, received_flatMap, log]
  | @cut out sched k o hb he ho =>
    obtain ⟨fs, hfs, rfl, -⟩ := encodeAll_eq_ok he
    obtain ⟨fs₀, hfs₀⟩ := hf.resolve_left (by simp [hb])
    rw [List.nil_append]
    obtain ⟨n, hn⟩ := received_cut hfs₀ fs k
    exact ⟨.inl rfl, _, hn, fun b hb => hall (packed_map hfs) b (List.mem_of_mem_take hb)⟩

theorem stated_reset (hp : Admits p) : Keeps (Stated p) (reset peer) := by
  refine (stated_write ?_).bind fun _ => Keeps.loop (fun _ => ?_) ()
  · intro req hreq b hb
    obtain rfl := List.mem_singleton.mp hreq
    exact packed_reset hb ▸ hp.reset
  · refine stated_read.bind fun response => Keeps.get.bind fun c => ?_
    split_ifs
    · exact Keeps.pure _
    · cases response with
      | success m => exact (stated_setNeedsReset false).bind fun _ => Keeps.pure _
      | record v => exact Keeps.throw _
      | failure code message => exact Keeps.throw _
      | ignored => exact Keeps.throw _

theorem stated_failReset (hp : Admits p) (code message : String) :
    Keeps (Stated p) (failReset peer code message) :=
  (stated_reset hp).attempt.bind fun _ => Keeps.pure _

/-- Statements that ended early. -/
theorem stated_ended {reqs : List Request} {c c' : BoltConnection} (h : Ended S reqs c c')
    (ht : Tracked S c') (hp : Admits p) (hreqs : ∀ req ∈ reqs, ∀ b, Packed req b → p b) :
    Stated p c c' := by
  obtain ⟨bodies, last, hpart, hlast, hlog⟩ := h.log_eq
  intro _
  refine ⟨ht.framed, bodies ++ last, hlog, ?_⟩
  intro b hb
  rcases List.mem_append.mp hb with hb | hb
  · exact forall_partly hpart hreqs b hb
  · rcases hlast with rfl | rfl
    · cases hb
    · exact List.mem_singleton.mp hb ▸ hp.reset

end BoltConnection

namespace RecordStream
variable {peer : Peer} {p : Body → Prop}

theorem stated_drop (s : RecordStream) : Rel (Stated p) s s.drop := by
  unfold drop
  split_ifs
  · exact refl_of (Stated p) s.conn
  · exact stated_needsReset s.conn true

theorem stated_surface (hp : Admits p) (code message : String) {α : Type} :
    Keeps (Rel (Stated p))
    (do throw (← onConn (BoltConnection.failReset peer code message)) : Op α) :=
  (keeps_onConn (stated_failReset hp code message)).bind fun _ => Keeps.throw _

theorem stated_fetchBatch (hp : Admits p) : Keeps (Rel (Stated p)) (fetchBatch peer) := by
  have hloop :
      Keeps (Rel (Stated p)) (Future.loop (fun s => s.conn.budget) (fetchRound peer) ()) := by
    refine Keeps.loop (fun _ => (keeps_onConn stated_read).bind fun response => ?_) ()
    cases response with
    | record v => exact (keeps_fields (by intro s; rfl)).bind fun _ => Keeps.pure _
    | success m =>
      refine (keeps_fields (by intro s; rfl)).bind fun _ => ?_
      split_ifs
      · refine (keeps_fields (by intro s; rfl)).bind fun _ => ?_
        exact (keeps_onConn (stated_setNeedsReset false)).bind fun _ => Keeps.pure _
      · exact Keeps.pure _
    | failure code message =>
      exact (keeps_fields (by intro s; rfl)).bind fun _ => stated_surface hp _ _
    | ignored => exact (keeps_fields (by intro s; rfl)).bind fun _ => Keeps.throw _
  refine Keeps.get.bind fun s => ?_
  have hpull : Keeps (Stated p) (writeMessage peer (Request.pull s.batch s.qid)) := by
    apply stated_write
    intro req hreq b hb
    obtain rfl := List.mem_singleton.mp hreq
    exact hp.pull hb
  split_ifs
  · exact (keeps_onConn hpull).bind fun _ => (keeps_fields (by intro s; rfl)).bind fun _ => hloop
  · exact (Keeps.pure _).bind fun _ => hloop

theorem stated_next (hp : Admits p) : Keeps (Rel (Stated p)) (next peer) := by
  refine Keeps.loop (fun _ => Keeps.get.bind fun s => ?_) ()
  split
  · exact (keeps_fields (by intro s; rfl)).bind fun _ => Keeps.pure _
  · split_ifs
    · exact (keeps_fields (by intro s; rfl)).bind fun _ => Keeps.pure _
    · exact (stated_fetchBatch hp).bind fun _ => Keeps.pure _

theorem stated_discardRest (hp : Admits p) : Keeps (Rel (Stated p)) (discardRest peer) := by
  refine (keeps_fields (by intro s; rfl)).bind fun _ => Keeps.get.bind fun s => ?_
  have hdiscard : Keeps (Stated p) (writeMessage peer (Request.discard (-1) s.qid)) := by
    apply stated_write
    intro req hreq b hb
    obtain rfl := List.mem_singleton.mp hreq
    exact hp.discard hb
  refine (keeps_onConn hdiscard).bind fun _ => Keeps.loop (fun _ => ?_) ()
  refine (keeps_onConn stated_read).bind fun response => ?_
  cases response with
  | success m => exact (keeps_onConn (stated_setNeedsReset false)).bind fun _ => Keeps.pure _
  | record v => exact Keeps.pure _
  | failure code message => exact stated_surface hp _ _
  | ignored => exact Keeps.throw _

theorem stated_finish (hp : Admits p) : Keeps (Rel (Stated p)) (finish peer) := by
  refine Keeps.dropping ?_ stated_drop
  refine keeps_takeSummary.bind fun summary => ?_
  cases summary with
  | some m => exact Keeps.pure _
  | none =>
    refine Keeps.get.bind fun s => ?_
    split_ifs
    · exact Keeps.pure _
    · refine (stated_fetchBatch hp).bind fun _ => (keeps_fields (by intro s; rfl)).bind fun _ => ?_
      refine keeps_takeSummary.bind fun summary => ?_
      cases summary with
      | some m => exact Keeps.pure _
      | none => exact stated_discardRest hp
    · exact stated_discardRest hp

end RecordStream

namespace Transaction
variable {S : Server} {t t' : Transaction} {p : Body → Prop}

theorem stated_drop (t : Transaction) : Rel (Stated p) t t.drop := by
  unfold drop
  split_ifs
  · exact refl_of (Stated p) t.conn
  · exact stated_needsReset t.conn true

theorem TurnedAway.stated {e : Option BoltError} (h : TurnedAway t e t') : Rel (Stated p) t t' := by
  rcases h.2 with rfl | ⟨-, rfl⟩
  · exact refl_of (Stated p) t'.conn
  · exact refl_of (Stated p) t.conn

theorem Abandoned.stated {reqs : List Request} {e : Option BoltError} (h : Abandoned S reqs t e t')
    (ht : Tracked S t'.conn) (hp : Admits p)
    (hreqs : ∀ req ∈ reqs, ∀ b, Packed req b → p b) :
    Rel (Stated p) t t' := by
  have harmed : Stated p t.conn t.conn.armed := stated_needsReset t.conn true
  cases h with
  | turnedAway h => exact h.stated
  | failed _ h => exact trans_of (Stated p) harmed (stated_ended h.ended ht hp hreqs)
  | dropped _ h => exact trans_of (Stated p) harmed (stated_ended h.ended ht hp hreqs)

end Transaction

/-- The calls that can be made through `&mut Transaction`, or a stream of it. -/
def Call.works : Call → Bool
  | .txRun .. | .txRunStream .. | .next | .finish | .dropStream => true
  | _ => false

def Client.transacting : Client → Bool
  | .inTx _ _ | .txStreaming _ _ _ _ => true
  | _ => false

namespace Client.Effect
variable {S : Server} {L : Law S} {call : Call} {client client' : Client}
  {o : Outcome BoltError Reply}

theorem transacting (h : Effect S.peer call client o client') (hcall : call.works = true)
    (hclient : client.transacting = true) : client'.transacting = true := by
  cases h with
  | txRun | txOpened | txUnopened | txNext | txFinish | txDropStream => rfl
  | next | finish | dropStream => cases hclient
  | _ => cases hcall

theorem stated (h : Effect S.peer call client o client') (hi : Inv L client)
    (hcall : call.works = true) : Stated isStatement client.conn client'.conn := by
  have hi' : call.works = true → Inv L client' :=
    fun hcall => h.inv hi fun _ => by cases h <;> trivial
  have hrun : ∀ {query parameters batch}, ∀ req ∈ [Request.run query parameters [],
      Request.pull batch none], ∀ b, Packed req b → isStatement b := by
    intro query parameters batch req hreq b hb
    rcases List.mem_cons.mp hreq with rfl | hreq
    · exact isStatement_run hb
    · obtain rfl := List.mem_singleton.mp hreq
      exact isStatement_pull hb
  cases h with
  | @txRun query parameters h t t' o hf =>
    have ht' : Tracked S t'.conn := (hi' hcall).tracked
    have ht : TxInv L h t := hi
    rcases post_elim
      (wp_of_eq (Transaction.post_run (fun hs => (ht.opened hs).1) query parameters) hf)
      with ⟨_, -, -, -, -, m, m', b₁, b₂, -, hran⟩ | ⟨-, ha⟩
    · intro _
      refine ⟨ht'.framed, [b₁, b₂], hran.log, ?_⟩
      exact forall_partly (.all (.cons hran.run (.cons hran.pull .nil))) hrun
    · exact ha.stated ht' admits_isStatement hrun
  | @txOpened query parameters batch h t t' s hf =>
    have ht' : Tracked S t'.conn := (hi' hcall).2.2.tracked
    have ht : TxInv L h t := hi
    obtain ⟨-, -, m, b₁, b₂, -, hpipe⟩ :=
      wp_of_eq (Transaction.post_runStream (fun hs => (ht.opened hs).1) query parameters batch) hf
    intro _
    refine ⟨ht'.framed, [b₁, b₂], hpipe.log, ?_⟩
    exact forall_partly (.all (.cons hpipe.run (.cons hpipe.pull .nil))) hrun
  | @txUnopened query parameters batch h t t' o hf hne =>
    have ht' : Tracked S t'.conn := (hi' hcall).tracked
    have ht : TxInv L h t := hi
    rcases post_elim (wp_of_eq (Transaction.post_runStream (fun hs => (ht.opened hs).1) query
      parameters batch) hf) with ⟨s, rfl, -⟩ | ⟨-, ha⟩
    · exact absurd rfl (hne s)
    · exact ha.stated ht' admits_isStatement hrun
  | next h => exact Keeps.of_eq (RecordStream.stated_next admits_isStatement) h
  | finish h => exact Keeps.of_eq (RecordStream.stated_finish admits_isStatement) h
  | dropStream => exact RecordStream.stated_drop _
  | txNext h => exact Keeps.of_eq (RecordStream.stated_next admits_isStatement) h
  | txFinish h => exact Keeps.of_eq (RecordStream.stated_finish admits_isStatement) h
  | txDropStream => exact RecordStream.stated_drop _
  | _ => cases hcall

end Client.Effect

end Boltwire
