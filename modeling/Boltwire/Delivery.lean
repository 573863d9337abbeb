import Boltwire.Exchange
import Boltwire.Operations
import Boltwire.PackStreamRefusal

namespace Boltwire
open Future
namespace BoltConnection

/-- The bytes delivered are the frames of every request offered; on a broken
connection the last buffer may be cut short. -/
def Delivered (c : BoltConnection) : Prop :=
  encodeAll c.stream.offered.flatten [] = .ok c.stream.sent ∨
  c.broken = true ∧ ∃ before reqs out buf k, c.stream.offered = before ++ [reqs] ∧
    encodeAll before.flatten [] = .ok out ∧ encodeAll reqs [] = .ok buf ∧ k < buf.length ∧
    c.stream.sent = out ++ buf.take k

/-- Broken for good: nothing is written or read any more. -/
structure Silent (c c' : BoltConnection) : Prop where
  broken : c'.broken = true
  sent : c'.stream.sent = c.stream.sent
  inbound : c'.stream.inbound = c.stream.inbound
  rbuf : c'.rbuf = c.rbuf

def Keeping (c c' : BoltConnection) : Prop :=
  (Delivered c → Delivered c') ∧ (c.broken = true → Silent c c')

instance : IsPreorder BoltConnection Keeping where
  refl c := ⟨id, fun h => ⟨h, rfl, rfl, rfl⟩⟩
  trans c₁ c₂ c₃ h h' := by
    refine ⟨h'.1 ∘ h.1, fun hb => ?_⟩
    have s := h.2 hb
    have s' := h'.2 s.broken
    exact ⟨s'.broken, s'.sent.trans s.sent, s'.inbound.trans s.inbound, s'.rbuf.trans s.rbuf⟩

variable {peer : Peer}

theorem encodeAll_append (reqs reqs' : List Request) (out : List UInt8) :
    encodeAll (reqs ++ reqs') out = encodeAll reqs out >>= encodeAll reqs' := by
  induction reqs generalizing out with
  | nil => rfl
  | cons req reqs ih => simp only [List.cons_append, encodeAll, ih, bind_assoc]

/-- A further buffer, appended whole. -/
theorem encodeAll_offer {offered : List (List Request)} {reqs : List Request} {out buf : List UInt8}
    (h : encodeAll offered.flatten [] = .ok out) (hbuf : encodeAll reqs [] = .ok buf) :
    encodeAll (offered ++ [reqs]).flatten [] = .ok (out ++ buf) := by
  obtain ⟨fs, -, rfl, hall⟩ := encodeAll_eq_ok hbuf
  rw [List.flatten_append, List.flatten_singleton, encodeAll_append, h]
  exact hall out

/-- An intact connection has no buffer cut short. -/
theorem Delivered.intact {c : BoltConnection} (h : Delivered c) (hb : c.broken = false) :
    encodeAll c.stream.offered.flatten [] = .ok c.stream.sent := by
  rcases h with h | ⟨hb', -⟩
  · exact h
  · rw [hb] at hb'
    cases hb'

/-- An operation that sends nothing on an intact connection. -/
theorem Keeping.of_unsent {c c' : BoltConnection} (hb : c.broken = false)
    (hs : c'.stream.sent = c.stream.sent) (ho : c'.stream.offered = c.stream.offered) :
    Keeping c c' := by
  refine ⟨fun h => .inl ?_, fun h => ?_⟩
  · rw [hs, ho]
    exact h.intact hb
  · rw [hb] at h
    cases h

theorem keeping_of_wrote {reqs : List Request} {c c' : BoltConnection} {o : Outcome BoltError Unit}
    (h : Wrote peer reqs c o c') : Keeping c c' := by
  cases h with
  | refused m hb => exact refl_of Keeping c
  | unencodable hb he => exact refl_of Keeping c
  | whole hb he =>
    refine ⟨fun h => .inl (encodeAll_offer (h.intact hb) he), fun h => ?_⟩
    rw [hb] at h
    cases h
  | @cut out sched k o hb he ho =>
    refine ⟨fun h => ?_, fun h => ?_⟩
    · by_cases hk : k < out.length
      · exact .inr ⟨rfl, _, _, _, _, k, rfl, h.intact hb, he, hk, rfl⟩
      · left
        have hall := encodeAll_offer (h.intact hb) he
        rwa [← List.take_of_length_le (Nat.le_of_not_lt hk)] at hall
    · rw [hb] at h
      cases h

theorem keeping_of_read {c c' : BoltConnection} {o : Outcome BoltError Response}
    (h : Read c o c') : Keeping c c' := by
  cases h with
  | refused m hb => exact refl_of Keeping c
  | message hb _ _ hs ho => exact .of_unsent hb hs ho
  | stopped hb _ hsh => exact .of_unsent hb hsh.sent hsh.offered
  | lost hb _ _ hs ho => exact .of_unsent hb hs ho

theorem keeping_sched (c : BoltConnection) (sched : List Choice) :
    Keeping c { c with stream := { c.stream with sched } } :=
  ⟨id, fun h => ⟨h, rfl, rfl, rfl⟩⟩

theorem primitive_keeping : Primitive peer Keeping where
  needsReset c b := ⟨id, fun h => ⟨h, rfl, rfl, rfl⟩⟩
  write reqs c := keeping_of_wrote (wp_writeMessages reqs c)
  read c := keeping_of_read (wp_readMessage c)
  flush c := by
    obtain ⟨-, sched, h⟩ := wp_flush c
    rw [h]
    exact keeping_sched c sched
  sched := keeping_sched

end BoltConnection

open BoltConnection

/-- Over every history: what is delivered is whole frames, in order, except that
the last buffer of a broken connection may be cut short; a broken connection
stays silent; and requests that cannot all be encoded are not sent at all. -/
theorem delivered_whole_frames (peer : Peer) (inbound rbuf : List UInt8) :
    (∀ client, Client.History peer (.free (connected inbound rbuf)) client →
      Delivered client.conn ∧
      ∀ client', client.conn.broken = true → Client.History peer client client' →
        Silent client.conn client'.conn) ∧
    ∀ (c : BoltConnection) (reqs : List Request),
      (∃ req ∈ reqs, ∃ e, encode req [] = .error e) →
      ∃ e, writeMessages peer reqs c = (.err e, c) := by
  refine ⟨fun client h => ⟨?_, fun client' hb h' => ?_⟩, ?_⟩
  · exact (Client.Run.rel primitive_keeping h).1 (.inl rfl)
  · exact (Client.Run.rel primitive_keeping h').2 hb
  · rintro c reqs ⟨req, hm, e, he⟩
    obtain ⟨e', hall⟩ := encodeAll_error hm he []
    cases hw : writeMessages peer reqs c with
    | mk o c' =>
      have h : Future.wp (writeMessages peer reqs) (Wrote peer reqs c) c := wp_writeMessages reqs c
      have hwrote : Wrote peer reqs c o c' := by rwa [Future.wp, hw] at h
      cases hwrote with
      | refused m hb => exact ⟨_, rfl⟩
      | unencodable hb he => exact ⟨_, rfl⟩
      | whole hb he => cases he.symm.trans hall
      | cut hb he => cases he.symm.trans hall

def oversized (items : List BoltValue) : Request := .run "a" [("x", .list items)] []

theorem encode_oversized {items : List BoltValue} (h : 2 ^ 32 ≤ items.length) :
    ∃ e, encode (oversized items) [] = .error e := by
  have hnot : ¬ (oversized items).value.Forall BoltValue.NodeChecked := by
    intro hall
    simp only [oversized, Request.run, Request.value, BoltValue.Forall, BoltValue.ForallSeq,
      BoltValue.ForallEntries, BoltValue.NodeChecked] at hall
    obtain ⟨-, -, ⟨-, ⟨hitems, -⟩, -⟩, -⟩ := hall
    exact absurd hitems (Nat.not_lt.mpr h)
  obtain ⟨e, he⟩ := (PackStream.refused_iff _ []).mpr hnot
  exact ⟨e, by rw [encode, he]; rfl⟩

/-- The write of a query is cut off in its first frame; another query is too long. -/
theorem delivered_whole_frames_cut : ∃ client : Client,
    (client.conn.broken = true ∧ 0 < client.conn.stream.sent.length ∧
      ∃ out, encodeAll client.conn.stream.offered.flatten [] = .ok out ∧
        client.conn.stream.sent.length < out.length) ∧
    (Delivered client.conn ∧ ∀ client', Client.History (fun _ _ => []) client client' →
      Silent client.conn client'.conn) ∧
    ∃ e, writeMessages (fun _ _ => []) [oversized (List.replicate (2 ^ 32) .null)]
      (connected [] []) = (.err e, connected [] []) := by
  have hplay : Client.observe (fun _ _ => []) (.free (connected [] [])) [] (.runWith "a" [] [])
      [.drop 9] (fun _ _ client => client.conn.broken && (0 < client.conn.stream.sent.length &&
        (encodeAll client.conn.stream.offered.flatten []).toOption.any fun out =>
          client.conn.stream.sent.length < out.length)) = some true := by
    decide +kernel
  obtain ⟨client₀, o, client, hrun, hstep, hlook⟩ := Client.observe_history hplay
  simp only [Bool.and_eq_true, decide_eq_true_eq, Option.any_eq_true] at hlook
  obtain ⟨hb, hsome, out, hout, hless⟩ := hlook
  have hout' : encodeAll client.conn.stream.offered.flatten [] = .ok out := by
    cases he : encodeAll client.conn.stream.offered.flatten [] with
    | ok out' =>
      rw [he] at hout
      cases hout
      rfl
    | error e =>
      rw [he] at hout
      cases hout
  obtain ⟨hall, hrefused⟩ := delivered_whole_frames (fun _ _ => []) [] []
  obtain ⟨hd, hsilent⟩ := hall client (hrun.step trivial hstep)
  have hlong : 2 ^ 32 ≤ (List.replicate (2 ^ 32) BoltValue.null).length := by
    rw [List.length_replicate]
  exact ⟨client, ⟨hb, hsome, out, hout', hless⟩, ⟨hd, fun client' => hsilent client' hb⟩,
    hrefused (connected [] []) _ ⟨_, List.mem_singleton_self _, encode_oversized hlong⟩⟩

end Boltwire
