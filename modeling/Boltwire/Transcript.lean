import Boltwire.Containment
import Boltwire.Managed

namespace Boltwire
open Future Server BoltConnection Transition Execute

/-- A transaction was begun with these options, and since then there were only
statements. -/
def Underway (S : Server) (opts : TxOptions) (before sent : List Body) : Prop :=
  ∃ b statements m, sent = b :: statements ∧ Packed (Request.begin opts.intoMeta) b ∧
    (S.answer before b).summary = .success m ∧ ∀ s ∈ statements, isStatement s

def Tail (req : Request) (bodies : List Body) : Prop :=
  ∃ first last, Partly [req] first ∧ (last = [] ∨ last = [resetBody]) ∧
    bodies = first ++ last

/-- What the server of an attempt can have received, by what the work returned. -/
inductive Transcript (S : Server) (before : List Body) :
    Option (Except BoltError Unit) → List Body → Prop
  | unbegun {opts : TxOptions} {sent : List Body} : Tail (Request.begin opts.intoMeta) sent →
    Transcript S before none sent
  | underway {opts : TxOptions} {sent : List Body} : Underway S opts before sent →
    Transcript S before none sent
  | committing {opts : TxOptions} {sent bodies : List Body} : Underway S opts before sent →
    Tail Request.commit bodies → Transcript S before (some (.ok ())) (sent ++ bodies)
  | rollingBack {opts : TxOptions} {sent bodies : List Body} {x : BoltError} :
    Underway S opts before sent → Tail Request.rollback bodies →
    Transcript S before (some (.error x)) (sent ++ bodies)

variable {S : Server} {opts : TxOptions} {before sent bodies : List Body}

theorem Tail.nil (req : Request) : Tail req [] := ⟨[], [], Partly.nil _, .inl rfl, rfl⟩

theorem Tail.one {req : Request} {b : Body} (h : Packed req b) : Tail req [b] :=
  ⟨[b], [], Partly.all (.cons h .nil), .inl rfl, rfl⟩

theorem Tail.of_ended {req : Request} {c c' : BoltConnection} (h : Ended S [req] c c') :
    ∃ bodies, c'.log = c.log ++ bodies ∧ Tail req bodies := by
  obtain ⟨first, last, hpart, hlast, hlog⟩ := h.log_eq
  exact ⟨first ++ last, hlog, first, last, hpart, hlast, rfl⟩

theorem Tail.signature {req : Request} (h : Tail req bodies) (hplain : Plain req) :
    ∀ b ∈ bodies, signature b = req.signature ∨ signature b = RESET := by
  obtain ⟨first, last, hpart, hlast, rfl⟩ := h
  intro b hb
  rcases List.mem_append.mp hb with hb | hb
  · rcases partly_singleton hpart with rfl | ⟨b', hb', rfl⟩
    · cases hb
    · obtain rfl := List.mem_singleton.mp hb
      exact .inl (hb'.signature hplain.2)
  · rcases hlast with rfl | rfl
    · cases hb
    · obtain rfl := List.mem_singleton.mp hb
      exact .inr rfl

/-- No statement is a COMMIT. -/
theorem isStatement.ne_commit {b : Body} (h : isStatement b) : signature b ≠ COMMIT := by
  rcases h with h | h | h | h <;> rw [h] <;> decide

theorem Underway.begin {b : Body} {m : Meta} (hb : Packed (Request.begin opts.intoMeta) b)
    (hm : (S.answer before b).summary = .success m) : Underway S opts before [b] :=
  ⟨b, [], m, rfl, hb, hm, by simp⟩

theorem Underway.append (h : Underway S opts before sent) (hb : ∀ b ∈ bodies, isStatement b) :
    Underway S opts before (sent ++ bodies) := by
  obtain ⟨b, statements, m, rfl, hpacked, hm, hall⟩ := h
  refine ⟨b, statements ++ bodies, m, rfl, hpacked, hm, ?_⟩
  intro s hs
  exact (List.mem_append.mp hs).elim (hall s) (hb s)

theorem Underway.ne_commit (h : Underway S opts before sent) :
    ∀ b ∈ sent, Boltwire.signature b ≠ COMMIT := by
  obtain ⟨b, statements, m, rfl, hpacked, -, hall⟩ := h
  intro s hs
  rcases List.mem_cons.mp hs with rfl | hs
  · rw [hpacked.signature (plain_begin _).2]
    exact show BEGIN ≠ COMMIT by decide
  · exact (hall s hs).ne_commit

theorem Underway.take {b : Body} {rest : List Body} (h : Underway S opts before (sent ++ b :: rest))
    (hb : Boltwire.signature b ≠ BEGIN) : Underway S opts before sent := by
  obtain ⟨b₀, statements, m, heq, hpacked, hm, hall⟩ := h
  cases sent with
  | nil =>
    obtain ⟨rfl, -⟩ := List.cons.inj heq
    exact absurd (hpacked.signature (plain_begin _).2) hb
  | cons b₁ sent =>
    obtain ⟨rfl, rfl⟩ := List.cons.inj heq
    exact ⟨b₁, sent, m, rfl, hpacked, hm, fun s hs => hall s (List.mem_append_left _ hs)⟩

/-- The transaction is open until a RESET, and not after. -/
theorem Underway.openTx (h : Underway S opts before sent) :
    S.openTx (before ++ sent) = if ∀ b ∈ sent, Boltwire.signature b ≠ RESET then
      some (before.length + 1) else none := by
  obtain ⟨b, statements, m, rfl, hpacked, hm, hall⟩ := h
  have hb : Boltwire.signature b = BEGIN := hpacked.signature (plain_begin _).2
  induction statements using List.reverseRecOn with
  | nil =>
    rw [openTx_concat, txNext, hm, hb]
    simp [hb, BEGIN, RESET, ROLLBACK, COMMIT]
  | append_singleton statements s ih =>
    have hs := hall s (by simp)
    have ih' := ih fun s' hs' => hall s' (List.mem_append_left _ hs')
    rw [← List.cons_append, ← List.append_assoc, openTx_concat, txNext, ih']
    have hne : Boltwire.signature s ≠ BEGIN ∧ Boltwire.signature s ≠ ROLLBACK ∧
        Boltwire.signature s ≠ COMMIT := by
      rcases hs with hs | hs | hs | hs <;> rw [hs] <;> decide
    by_cases hr : Boltwire.signature s = RESET
    · rw [if_pos (.inl hr), if_neg]
      intro hnone
      exact hnone s (by simp) hr
    · rw [if_neg (by simp [hr, hne])]
      have hiff : (∀ b' ∈ b :: statements ++ [s], Boltwire.signature b' ≠ RESET) ↔
          ∀ b' ∈ b :: statements, Boltwire.signature b' ≠ RESET := by
        simp only [List.mem_append, List.mem_singleton, or_imp, forall_and, forall_eq]
        exact and_iff_left hr
      rw [if_congr hiff rfl rfl, if_neg hne.1]
      split <;> rfl

/-- A COMMIT in the transcript is what the work asked for by returning a value. -/
theorem Transcript.commit {worked : Option (Except BoltError Unit)} {b : Body} {rest : List Body}
    (h : Transcript S before worked (sent ++ b :: rest)) (hb : Boltwire.signature b = COMMIT) :
    worked = some (.ok ()) ∧ (∃ opts, Underway S opts before sent) ∧
      Packed Request.commit b ∧ (rest = [] ∨ rest = [resetBody]) := by
  have hmem : ∀ {l : List Body}, l = sent ++ b :: rest → b ∈ l := by
    rintro l rfl
    simp
  generalize hall : sent ++ b :: rest = all at h
  cases h with
  | unbegun ht =>
    rcases ht.signature (plain_begin _) b (hmem hall.symm) with hsig | hsig
    · exact absurd (hb.symm.trans hsig) (show COMMIT ≠ BEGIN by decide)
    · exact absurd (hb.symm.trans hsig) (show COMMIT ≠ RESET by decide)
  | underway hway => exact absurd hb (hway.ne_commit b (hmem hall.symm))
  | rollingBack hway ht =>
    rcases List.mem_append.mp (hmem hall.symm) with hin | hin
    · exact absurd hb (hway.ne_commit b hin)
    · rcases ht.signature plain_rollback b hin with hsig | hsig
      · exact absurd (hb.symm.trans hsig) (show COMMIT ≠ ROLLBACK by decide)
      · exact absurd (hb.symm.trans hsig) (show COMMIT ≠ RESET by decide)
  | @committing opts sent₀ bodies hway ht =>
    obtain ⟨first, last, hpart, hlast, rfl⟩ := ht
    have hreset : b ∉ last := by
      rcases hlast with rfl | rfl
      · simp
      · rw [List.mem_singleton]
        rintro rfl
        cases hb
    rcases partly_singleton hpart with rfl | ⟨b', hb', rfl⟩
    · have hin := hmem hall.symm
      rw [List.nil_append] at hin
      exact absurd hb ((List.mem_append.mp hin).elim (hway.ne_commit b) fun h => absurd h hreset)
    · -- what is before the COMMIT and has none is all of `sent₀`
      rcases List.append_eq_append_iff.mp hall with ⟨mid, rfl, heq⟩ | ⟨mid, rfl, heq⟩
      · cases mid with
        | nil =>
          obtain ⟨rfl, rfl⟩ := List.cons.inj heq
          rw [List.append_nil] at hway
          exact ⟨rfl, ⟨opts, hway⟩, hb', hlast⟩
        | cons b₁ mid =>
          obtain ⟨rfl, -⟩ := List.cons.inj heq
          exact absurd hb (hway.ne_commit b (by simp))
      · cases mid with
        | nil =>
          obtain ⟨rfl, rfl⟩ := List.cons.inj heq
          rw [List.append_nil]
          exact ⟨rfl, ⟨opts, hway⟩, hb', hlast⟩
        | cons b₁ mid =>
          obtain ⟨-, hrest⟩ := List.cons.inj heq
          have hin : b ∈ [] ++ last := by
            rw [show [] ++ last = mid ++ b :: rest from hrest]
            simp
          exact absurd hin hreset

namespace Session

/-- Requests that are no COMMIT are not counted. -/
theorem follow_countApplied {S : Server} (n : ℕ) (before : List Body) {bodies : List Body}
    (h : ∀ b ∈ bodies, signature b ≠ COMMIT) :
    follow (countApplied S) n before bodies = n := by
  induction bodies generalizing before with
  | nil => rfl
  | cons b bodies ih =>
    rw [follow, countApplied, if_neg (h b (List.mem_cons_self ..))]
    exact ih _ fun b' hb' => h b' (List.mem_cons_of_mem _ hb')

/-- What is behind the statements is at most one COMMIT. -/
theorem follow_countApplied_tail (n : ℕ) (h : Underway S opts before sent)
    (ht : Tail Request.commit bodies) : ∃ applied : Bool,
      follow (countApplied S) n before (sent ++ bodies) = n + applied.toNat := by
  obtain ⟨first, last, hpart, hlast, rfl⟩ := ht
  have hreset : ∀ (k : ℕ) (before : List Body), follow (countApplied S) k before last = k := by
    intro k before
    apply follow_countApplied
    rcases hlast with rfl | rfl
    · simp
    · simp [signature, resetBody, COMMIT]
  rw [follow_append, follow_countApplied n before h.ne_commit, follow_append, hreset]
  rcases partly_singleton hpart with rfl | ⟨b, -, rfl⟩
  · exact ⟨false, rfl⟩
  · change ∃ applied : Bool, countApplied S n (before ++ sent) b = n + applied.toNat
    unfold countApplied
    split_ifs
    · split
      · exact ⟨true, rfl⟩
      · exact ⟨false, rfl⟩
    · exact ⟨false, rfl⟩

/-- A COMMIT that is answered with SUCCESS counts. -/
theorem follow_countApplied_commit (n : ℕ) (h : Underway S opts before sent) {b : Body} {m : Meta}
    (hb : Packed Request.commit b) (hm : (S.answer (before ++ sent) b).summary = .success m) :
    follow (countApplied S) n before (sent ++ [b]) = n + 1 := by
  have hsig : signature b = COMMIT := hb.signature plain_commit.2
  rw [follow_append, follow_countApplied n before h.ne_commit]
  change countApplied S n (before ++ sent) b = n + 1
  rw [countApplied, if_pos hsig, hm]

end Session

section Calls
variable {client client' : Client} {o : Outcome BoltError Reply} {sched : List Choice}

/-- BEGIN on a connection at rest: no RESET goes before it. -/
theorem post_beginWith_ready {c : BoltConnection} (hl : Live S c []) (hn : c.needsReset = false)
    (opts : TxOptions) : wp (beginWith S.peer opts)
      (post (fun _ c' => ∃ m b,
          Answered S (Request.begin opts.intoMeta) c.armed b (.success m) c'.armed)
        (Stop S [Request.begin opts.intoMeta] c.armed)) c := by
  have hp : c.pending = 0 := hl.owed
  have hclean : ensureClean S.peer c = (.ok (), c) := by
    simp [ensureClean, checkIntact, bind, pure, Future.get, hl.intact, hn, hp]
  have hbind : wp (ensureClean S.peer) (fun o c₁ => o = .ok () ∧ c₁ = c) c := by
    rw [Future.wp, hclean]
    exact ⟨rfl, rfl⟩
  rw [beginWith, Future.wp_bind]
  refine wp_mono hbind ?_
  rintro _ _ ⟨rfl, rfl⟩
  rw [Future.andThen, Future.wp_bind, setNeedsReset, Future.wp_modify, Future.andThen]
  refine post_request (.inr hl.armed) (plain_begin _) (show BEGIN ≠ PULL by decide)
    (show BEGIN ≠ DISCARD by decide) (fun _ _ h => h) ?_
  intro r b c' ha
  cases r with
  | success m => exact ⟨m, b, ha.armed⟩
  | failure code message => exact ha.stop (.inr ⟨code, message, rfl, rfl⟩)
  | record v => exact ha.stop (.inl (by simp))
  | ignored => exact ha.stop (.inl (by simp))

theorem atRest_withSched {c : BoltConnection} (h : Pooled.AtRest S c) (sched : List Choice) :
    Pooled.AtRest S { c with stream := { c.stream with sched } } :=
  ⟨h.ready, live_withSched sched h.live, h.phase, h.noTx⟩

theorem exec_beginWith {c : BoltConnection} (hr : Pooled.AtRest S c)
    (h : Client.exec S.peer (.beginWith opts) ((Client.free c).withSched sched) =
      some (o, client')) :
    ∃ bodies, client'.conn.log = c.log ++ bodies ∧
      ((∃ r, o = .ok r) → Inv S.law client' ∧ client'.transacting = true ∧
        Underway S opts c.log bodies) ∧
      ((∀ r, o ≠ .ok r) → Tail (Request.begin opts.intoMeta) bodies) := by
  have hr' := atRest_withSched hr sched
  have hn : c.needsReset = false := by
    have hready : c.broken = false ∧ c.needsReset = false ∧ c.pending = 0 := by
      simpa [isReady, and_assoc] using hr.ready
    exact hready.2.1
  have hfree : FreeInv S.law { c with stream := { c.stream with sched } } :=
    .of_live hr'.live fun _ => hr'.phase
  cases Client.exec_effect h with
  | begun hf =>
    obtain ⟨m, b, ha⟩ := wp_of_eq (post_beginWith_ready hr'.live hn opts) hf
    have hinv := wp_of_eq (inv_beginWith hfree
      (fun hl _ _ => hl.reset _ _ rfl) opts) hf
    exact ⟨[b], ha.log, fun _ => ⟨hinv, rfl, .begin ha.packed ha.summary⟩,
      fun hne => absurd rfl (hne _)⟩
  | @unbegun _ _ c' o hf hne =>
    rcases post_elim (wp_of_eq (post_beginWith_ready hr'.live hn opts) hf)
      with ⟨_, rfl, -⟩ | ⟨hno, hs⟩
    · exact absurd rfl hne
    · obtain ⟨bodies, hlog, htail⟩ := Tail.of_ended hs.ended
      refine ⟨bodies, hlog, ?_, fun _ => htail⟩
      rintro ⟨r, hr⟩
      cases o with
      | ok a => exact absurd rfl (hno a)
      | err e => cases hr
      | dropped => cases hr

theorem Inv.framed (h : Inv S.law client) (hc : client.transacting = true) :
    Framed client.conn := by
  cases client with
  | inTx _ t => exact Tracked.framed (TxInv.tracked h)
  | txStreaming _ _ _ s => exact Tracked.framed h.2.2.tracked
  | _ => cases hc

/-- A call of the work. -/
theorem exec_works {call : Call} (hi : Inv S.law client) (hc : client.transacting = true)
    (hcall : call.works = true)
    (h : Client.exec S.peer call (client.withSched sched) = some (o, client')) :
    Inv S.law client' ∧ client'.transacting = true ∧ ∃ bodies,
      client'.conn.log = client.conn.log ++ bodies ∧ ∀ b ∈ bodies, isStatement b := by
  have hi' := inv_withSched sched hi
  have hc' : (client.withSched sched).transacting = true := by
    cases client with
    | inTx _ _ | txStreaming _ _ _ _ => rfl
    | _ => cases hc
  have he := Client.exec_effect h
  refine ⟨?_, he.transacting hcall hc', ?_⟩
  · exact he.inv hi' fun hl => hl.forewarned call _
  · obtain ⟨bodies, hlog, hb⟩ := (he.stated hi' hcall (Inv.framed hi' hc')).2
    rw [Client.log_withSched] at hlog
    exact ⟨bodies, hlog, hb⟩

theorem exec_rollback {hist : TxHistory} {t : Transaction} (hi : Inv S.law (.inTx hist t))
    (h : Client.exec S.peer .rollback ((Client.inTx hist t).withSched sched) = some (o, client')) :
    ∃ bodies, client'.conn.log = t.conn.log ++ bodies ∧ Tail Request.rollback bodies := by
  have hi' : TxInv S.law hist _ := inv_withSched sched hi
  obtain ⟨rs, hs⟩ := hi'.tracked
  cases Client.exec_effect h with
  | rollback hf =>
    rcases post_elim (wp_of_eq (Transaction.post_rollback hs) hf) with
      ⟨-, -, ⟨-, rfl⟩ | ⟨-, -, m, b, rs', hclose⟩⟩ | ⟨-, -, hu⟩
    · exact ⟨[], (List.append_nil _).symm, .nil _⟩
    · exact ⟨[b], hclose.log, .one hclose.packed⟩
    · obtain ⟨bodies, hlog, htail⟩ := Tail.of_ended hu.ended
      exact ⟨bodies, hlog, htail⟩

theorem exec_commit {hist : TxHistory} {t : Transaction} (hi : Inv S.law (.inTx hist t))
    (h : Client.exec S.peer .commit ((Client.inTx hist t).withSched sched) = some (o, client')) :
    ∃ bodies, client'.conn.log = t.conn.log ++ bodies ∧ Tail Request.commit bodies ∧
      ∀ r, o = .ok r → ∃ b m, bodies = [b] ∧ Packed Request.commit b ∧
        (S.answer t.conn.log b).summary = .success m ∧ r = .bookmark (metaStr m "bookmark") := by
  have hi' : TxInv S.law hist _ := inv_withSched sched hi
  cases Client.exec_effect h with
  | @commit _ _ t' o hf =>
    rcases post_elim (wp_of_eq (Transaction.post_commit fun hs => (hi'.opened hs).1) hf) with
      ⟨bookmark, rfl, -, -, m, b, rfl, ha⟩ | ⟨hno, hu⟩
    · refine ⟨[b], ha.log, .one ha.packed, ?_⟩
      rintro r ⟨⟩
      exact ⟨b, m, rfl, ha.packed, ha.summary, rfl⟩
    · have hnone : ∀ r, o.map Reply.bookmark ≠ .ok r := by
        intro r hr
        cases o with
        | ok a => exact absurd rfl (hno a)
        | err e => cases hr
        | dropped => cases hr
      rcases hu with ⟨t₁, hturn, rfl⟩ | ⟨-, hu⟩
      · refine ⟨[], ?_, .nil _, fun r hr => absurd hr (hnone r)⟩
        change t₁.drop.conn.log = _
        rw [Transaction.drop_log, List.append_nil]
        exact hturn.log
      · obtain ⟨bodies, hlog, htail⟩ := Tail.of_ended hu.ended
        exact ⟨bodies, hlog, htail, fun r hr => absurd hr (hnone r)⟩

end Calls
end Boltwire
