import Boltwire.Connection
import Boltwire.Frames

namespace Boltwire
open Incremental
namespace BoltConnection
variable {peer : Peer}

/-- The frames of an encoded list of requests, and the body of each. -/
theorem encodeAll_eq_ok {reqs : List Request} {out buf : List UInt8}
    (h : encodeAll reqs out = .ok buf) : ∃ fs : List Frame,
      List.Forall₂ (fun req f => PackStream.pack req.value [] = .ok f.body) reqs fs ∧
      buf = out ++ fs.flatMap Frame.bytes ∧
      ∀ out, encodeAll reqs out = .ok (out ++ fs.flatMap Frame.bytes) := by
  induction reqs generalizing out with
  | nil =>
    cases h
    exact ⟨[], .nil, by simp, fun out => by simp [encodeAll]⟩
  | cons req reqs ih =>
    obtain ⟨out₁, h₁, h₂⟩ := except_bind_eq_ok h
    obtain ⟨f, -, hf, rfl, hall⟩ := encode_eq_ok h₁
    obtain ⟨fs, hfs, rfl, hrest⟩ := ih h₂
    refine ⟨f :: fs, .cons hf hfs, by simp, fun out => ?_⟩
    rw [encodeAll, hall]
    simpa [bind, Except.bind] using hrest (out ++ f.bytes)

/-- One request that cannot be encoded spoils the whole buffer. -/
theorem encodeAll_error {reqs : List Request} {req : Request} {e : BoltError} (hm : req ∈ reqs)
    (h : encode req [] = .error e) (out : List UInt8) : ∃ e', encodeAll reqs out = .error e' := by
  induction reqs generalizing out with
  | nil => cases hm
  | cons r reqs ih =>
    rw [encodeAll]
    cases hr : encode r out with
    | error e' => exact ⟨e', rfl⟩
    | ok out₁ =>
      rcases List.mem_cons.mp hm with rfl | hm
      · cases hr.symm.trans (encode_error h out)
      · exact ih hm out₁

inductive Wrote (peer : Peer) (reqs : List Request) (c : BoltConnection) :
    Outcome BoltError Unit → BoltConnection → Prop
  | refused (m : String) : c.broken = true → Wrote peer reqs c (.err (.closed m)) c
  | unencodable {e : BoltError} :
    c.broken = false → encodeAll reqs [] = .error e → Wrote peer reqs c (.err e) c
  | whole {out : List UInt8} {sched : List Choice} :
    c.broken = false → encodeAll reqs [] = .ok out →
    Wrote peer reqs c (.ok ()) { c with
      stream := { c.stream.deliver peer out with
        sched, offered := c.stream.offered ++ [reqs] }
      pending := c.pending + (reqs.filter fun r => r.signature ≠ GOODBYE).length }
  | cut {out : List UInt8} {sched : List Choice} {k : ℕ} {o : Outcome BoltError Unit} :
    c.broken = false → encodeAll reqs [] = .ok out →
    (o = .dropped ∨ ∃ kind, o = .err (.io kind)) →
    Wrote peer reqs c o { c with
      stream := { c.stream.deliver peer (out.take k) with
        sched, offered := c.stream.offered ++ [reqs] }
      broken := true }

theorem wp_checkIntact {Q : Outcome BoltError Unit → BoltConnection → Prop} {c : BoltConnection}
    (hb : c.broken = true → ∀ m, Q (.err (.closed m)) c)
    (hi : c.broken = false → Q (.ok ()) c) :
    Future.wp checkIntact Q c := by
  rw [checkIntact, Future.wp_bind, Future.wp_get, Future.andThen]
  cases h : c.broken with
  | true => simpa using hb h _
  | false => simpa using hi h

theorem deliver_nil (st : Stream) : st.deliver peer [] = st := by
  simp [Stream.deliver, Peer.replies]

/-- `write_all` completes, or leaves part of the buffer delivered. -/
theorem wp_writeAll (bytes : List UInt8) (c : BoltConnection) :
    Future.wp (writeAll peer bytes) (fun o c' =>
      (o = .ok () ∧ ∃ sched, c' = { c with stream :=
        { c.stream.deliver peer bytes with sched } }) ∨
      ((o = .dropped ∨ ∃ kind, o = .err (.io kind)) ∧ ∃ sched k, c' =
        { c with stream := { c.stream.deliver peer (bytes.take k) with sched } })) c := by
  unfold Future.wp writeAll
  cases hs : c.stream.sched with
  | nil =>
    exact .inr ⟨.inl rfl, c.stream.sched, 0, by rw [List.take_zero, deliver_nil]⟩
  | cons choice sched =>
    cases choice with
    | ready n => exact .inl ⟨rfl, sched, rfl⟩
    | fail k kind => exact .inr ⟨.inr ⟨kind, rfl⟩, sched, k, rfl⟩
    | drop k => exact .inr ⟨.inl rfl, sched, k, rfl⟩
    | timeout => exact .inr ⟨.inl rfl, sched, 0, by rw [List.take_zero, deliver_nil]⟩
    | eof => exact .inr ⟨.inl rfl, sched, 0, by rw [List.take_zero, deliver_nil]⟩

theorem wp_flush (c : BoltConnection) :
    Future.wp flush (fun o c' => (o = .ok () ∨ o = .dropped ∨ ∃ kind, o = .err (.io kind)) ∧
      ∃ sched, c' = { c with stream := { c.stream with sched } }) c := by
  unfold Future.wp flush
  cases hs : c.stream.sched with
  | nil => exact ⟨.inr (.inl rfl), c.stream.sched, rfl⟩
  | cons choice sched =>
    cases choice with
    | ready n => exact ⟨.inl rfl, sched, rfl⟩
    | fail k kind => exact ⟨.inr (.inr ⟨kind, rfl⟩), sched, rfl⟩
    | drop k => exact ⟨.inr (.inl rfl), sched, rfl⟩
    | timeout => exact ⟨.inr (.inl rfl), sched, rfl⟩
    | eof => exact ⟨.inr (.inl rfl), sched, rfl⟩

/-- `write_bytes` leaves the connection broken unless it completes. -/
theorem wp_writeBytes (bytes : List UInt8) (c : BoltConnection) :
    Future.wp (writeBytes peer bytes) (fun o c' =>
      (o = .ok () ∧ ∃ sched, c' =
        { c with stream := { c.stream.deliver peer bytes with sched }, broken := false }) ∨
      ((o = .dropped ∨ ∃ kind, o = .err (.io kind)) ∧ ∃ sched k, c' =
        { c with stream := { c.stream.deliver peer (bytes.take k) with sched }
                 broken := true })) c := by
  rw [writeBytes, Future.wp_bind, setBroken, Future.wp_modify, Future.andThen, Future.wp_bind]
  refine Future.wp_mono (wp_writeAll bytes _) ?_
  rintro o c₁ (⟨rfl, sched, rfl⟩ | ⟨ho, sched, k, rfl⟩)
  · rw [Future.andThen, Future.wp_bind]
    refine Future.wp_mono (wp_flush _) ?_
    rintro o c₂ ⟨rfl | rfl | ⟨kind, rfl⟩, sched', rfl⟩
    · exact .inl ⟨rfl, sched', rfl⟩
    · exact .inr ⟨.inl rfl, sched', bytes.length, by rw [List.take_length]⟩
    · exact .inr ⟨.inr ⟨kind, rfl⟩, sched', bytes.length, by rw [List.take_length]⟩
  · rcases ho with rfl | ⟨kind, rfl⟩
    · exact .inr ⟨.inl rfl, sched, k, rfl⟩
    · exact .inr ⟨.inr ⟨kind, rfl⟩, sched, k, rfl⟩

theorem wp_writeMessages (reqs : List Request) (c : BoltConnection) :
    Future.wp (writeMessages peer reqs) (Wrote peer reqs c) c := by
  rw [writeMessages, Future.wp_bind]
  apply wp_checkIntact
  · intro hb m
    exact .refused m hb
  intro hi
  rw [Future.andThen, Future.wp_bind]
  cases he : encodeAll reqs [] with
  | error e => exact .unencodable hi he
  | ok out =>
    rw [Future.ofExcept, Future.wp_pure, Future.andThen, Future.wp_bind, offer, Future.wp_modify,
      Future.andThen, Future.wp_bind]
    refine Future.wp_mono (wp_writeBytes out _) ?_
    rintro o c₁ (⟨rfl, sched, rfl⟩ | ⟨ho, sched, k, rfl⟩)
    · have h := @Wrote.whole peer reqs c out sched hi he
      simpa [Future.andThen, Stream.deliver, hi] using h
    · have h := @Wrote.cut peer reqs c out sched k o hi he ho
      rcases ho with rfl | ⟨kind, rfl⟩
      · exact h
      · exact h

/-- The bytes received and not yet cut into messages, buffered or on the way. -/
def unread (c : BoltConnection) : List UInt8 := c.rbuf ++ c.stream.inbound

/-- Reading may move bytes into the buffer and drop NOOPs, and nothing else. -/
structure Shifted (c c' : BoltConnection) : Prop where
  sent : c'.stream.sent = c.stream.sent
  offered : c'.stream.offered = c.stream.offered
  needsReset : c'.needsReset = c.needsReset
  pending : c'.pending = c.pending
  broken : c'.broken = c.broken
  noops : ∃ n, c.unread = List.replicate (2 * n) 0 ++ c'.unread

theorem Shifted.refl (c : BoltConnection) : Shifted c c :=
  ⟨rfl, rfl, rfl, rfl, rfl, 0, rfl⟩

theorem Shifted.trans {c₁ c₂ c₃ : BoltConnection} (h : Shifted c₁ c₂)
    (h' : Shifted c₂ c₃) :
    Shifted c₁ c₃ := by
  obtain ⟨n, hn⟩ := h.noops
  obtain ⟨m, hm⟩ := h'.noops
  refine ⟨h'.sent.trans h.sent, h'.offered.trans h.offered, h'.needsReset.trans h.needsReset,
    h'.pending.trans h.pending, h'.broken.trans h.broken, n + m, ?_⟩
  rw [hn, hm, ← List.append_assoc, List.replicate_append_replicate, Nat.mul_add]

theorem Shifted.cutMessage {c c' : BoltConnection} (h : Shifted c c') (limit : Option ℕ) :
    cutMessage limit c.unread = cutMessage limit c'.unread := by
  obtain ⟨n, hn⟩ := h.noops
  rw [hn]
  unfold Boltwire.cutMessage
  rw [dropNoops_replicate]

inductive Read (c : BoltConnection) : Outcome BoltError Response → BoltConnection → Prop
  | refused (m : String) : c.broken = true → Read c (.err (.closed m)) c
  | message {c' : BoltConnection} {body : Body} {r : Response} :
    c.broken = false → Boltwire.takeMessage c.unread = .item body c'.unread →
    decode body = .ok r →
    c'.stream.sent = c.stream.sent → c'.stream.offered = c.stream.offered →
    c'.needsReset = c.needsReset → c'.broken = false →
    c'.pending = (if r.isSummary then c.pending - 1 else c.pending) → Read c (.ok r) c'
  | stopped {c' : BoltConnection} {o : Outcome BoltError Response} :
    c.broken = false → (o = .dropped ∨ o = .err (.timeout "read")) → Shifted c c' →
    Read c o c'
  | lost {c' : BoltConnection} {e : BoltError} :
    c.broken = false → (∀ code message, e ≠ .failure code message) → c'.broken = true →
    c'.stream.sent = c.stream.sent → c'.stream.offered = c.stream.offered →
    c'.needsReset = c.needsReset → c'.pending = c.pending → Read c (.err e) c'

/-- What the loop of `read_message` can do, given the connection it started from. -/
inductive ReadBody (c : BoltConnection) : Outcome BoltError Body → BoltConnection → Prop
  | message {c' : BoltConnection} {body : Body} :
    Boltwire.takeMessage c.unread = .item body c'.unread →
    c'.stream.sent = c.stream.sent → c'.stream.offered = c.stream.offered →
    c'.needsReset = c.needsReset → c'.broken = c.broken → c'.pending = c.pending →
    ReadBody c (.ok body) c'
  | stopped {c' : BoltConnection} {o : Outcome BoltError Body} :
    (o = .dropped ∨ o = .err (.timeout "read")) → Shifted c c' → ReadBody c o c'
  | lost {c' : BoltConnection} {e : BoltError} :
    (∀ code message, e ≠ .failure code message) → c'.broken = true →
    c'.stream.sent = c.stream.sent → c'.stream.offered = c.stream.offered →
    c'.needsReset = c.needsReset → c'.pending = c.pending → ReadBody c (.err e) c'

theorem wp_fill {c c₁ : BoltConnection} (h : Shifted c c₁) :
    Future.wp fill (fun
      | .ok _ => Shifted c
      | .err e => ReadBody c (.err e)
      | .dropped => ReadBody c .dropped) c₁ := by
  unfold Future.wp fill
  cases hs : c₁.stream.sched with
  | nil => exact .stopped (.inl rfl) h
  | cons choice sched =>
    have h' : Shifted c₁ { c₁ with stream := { c₁.stream with sched } } :=
      ⟨rfl, rfl, rfl, rfl, rfl, 0, rfl⟩
    cases choice with
    | ready n =>
      simp only
      split_ifs with hin
      · exact .stopped (.inl rfl) (h.trans h')
      · refine h.trans ⟨rfl, rfl, rfl, rfl, rfl, 0, ?_⟩
        simp [unread]
    | timeout => exact .stopped (.inr rfl) (h.trans h')
    | eof => exact .lost (by simp) rfl h.sent h.offered h.needsReset h.pending
    | fail k kind => exact .lost (by simp) rfl h.sent h.offered h.needsReset h.pending
    | drop k => exact .stopped (.inl rfl) (h.trans h')

theorem wp_readRound {c c₁ : BoltConnection} (h : Shifted c c₁) :
    Future.wp (readRound ()) (Future.nextRound (fun _ => Shifted c) (ReadBody c)) c₁ := by
  rw [readRound, Future.wp_bind]
  unfold Future.wp takeMessage
  have hcut := h.cutMessage (some MAX_MESSAGE)
  cases ht : Boltwire.takeMessage c₁.rbuf with
  | more rest =>
    have h' : Shifted c₁ { c₁ with rbuf := rest } := by
      refine ⟨rfl, rfl, rfl, rfl, rfl, noops c₁.rbuf, ?_⟩
      rw [unread, unread, cutMessage_more ht, ← List.append_assoc, replicate_append_dropNoops]
    simp only [Future.andThen]
    rw [Future.wp_bind]
    refine Future.wp_mono (wp_fill (h.trans h')) ?_
    rintro (_ | e | _) c₂ h₂
    · exact h₂
    · exact h₂
    · exact h₂
  | item body rest =>
    refine .message (hcut.trans ?_) h.sent h.offered h.needsReset h.broken h.pending
    exact cutMessage_item_append ht _
  | fail e rest =>
    obtain ⟨-, rfl, -⟩ := cutMessage_fail ht
    exact .lost (by simp) rfl h.sent h.offered h.needsReset h.pending

theorem wp_readBody (c : BoltConnection) : Future.wp readBody (ReadBody c) c :=
  Future.wp_loop (fun _ => Shifted c) (.refl c) (fun _ _ => wp_readRound)
    fun _ _ => .stopped (.inl rfl)

theorem acceptBody_ok {body : Body} {r : Response} (h : decode body = .ok r) (c : BoltConnection) :
    acceptBody body c =
      (.ok r, { c with pending := if r.isSummary then c.pending - 1 else c.pending }) := by
  rw [acceptBody, h]
  cases hr : r.isSummary <;> simp [hr, bind, pure, Future.modify]

theorem acceptBody_error {body : Body} {e : BoltError} (h : decode body = .error e)
    (c : BoltConnection) : acceptBody body c = (.err e, { c with broken := true }) := by
  rw [acceptBody, h]
  rfl

theorem wp_readMessage (c : BoltConnection) : Future.wp readMessage (Read c) c := by
  rw [readMessage, Future.wp_bind]
  apply wp_checkIntact
  · intro hb m
    exact .refused m hb
  intro hi
  rw [Future.andThen, Future.wp_bind]
  refine Future.wp_mono (wp_readBody c) ?_
  rintro o c₁ (⟨hcut, hs, hof, hn, hb, hp⟩ | ⟨ho, hsh⟩ | ⟨hne, hb, hs, hof, hn, hp⟩)
  · rename_i body
    rw [Future.andThen, Future.wp]
    cases hd : decode body with
    | error e =>
      rw [acceptBody_error hd]
      exact .lost hi (decode_error hd) rfl hs hof hn hp
    | ok r =>
      rw [acceptBody_ok hd]
      exact .message hi hcut hd hs hof hn (hb.trans hi) (by rw [hp])
  · rcases ho with rfl | rfl
    · exact .stopped hi (.inl rfl) hsh
    · exact .stopped hi (.inr rfl) hsh
  · exact .lost hi hne hb hs hof hn hp

end BoltConnection
end Boltwire
