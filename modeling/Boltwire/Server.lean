import Boltwire.Connection
import Boltwire.Frames

namespace Boltwire
open Incremental

theorem Frame.dropNoops_core (f : Frame) (rest : List UInt8) :
    dropNoops (f.core ++ rest) = f.core ++ rest := by
  have h := f.dropNoops_bytes rest
  rwa [bytes, List.append_assoc, dropNoops_replicate] at h

theorem Frame.cutMessage_of_dropNoops {f : Frame} {bytes rest : List UInt8} {limit : Option ℕ}
    (h : dropNoops bytes = f.core ++ rest) :
    cutMessage limit bytes = cutMessage limit (f.bytes ++ rest) := by
  rw [cutMessage, cutMessage, h, f.dropNoops_bytes]

/-- The bytes are frames of exactly these responses, with NOOPs between them. -/
inductive Carries : List Response → List UInt8 → Prop
  | nil {bytes : List UInt8} : dropNoops bytes = [] → Carries [] bytes
  | cons {bytes rest : List UInt8} {r : Response} {rs : List Response} (f : Frame) :
    dropNoops bytes = f.core ++ rest → decode f.body = .ok r → Carries rs rest →
    Carries (r :: rs) bytes

namespace Carries
variable {rs rs' : List Response} {bytes bytes' : List UInt8}

/-- Leading NOOPs do not matter. -/
theorem congr (h : Carries rs bytes) (he : dropNoops bytes = dropNoops bytes') :
    Carries rs bytes' := by
  cases h with
  | nil h => exact .nil (he.symm.trans h)
  | cons f h hd hr => exact .cons f (he.symm.trans h) hd hr

theorem append (h : Carries rs bytes) (h' : Carries rs' bytes') :
    Carries (rs ++ rs') (bytes ++ bytes') := by
  induction h with
  | @nil bytes h =>
    refine h'.congr ?_
    rw [dropNoops_append, h, List.nil_append]
  | @cons bytes rest r rs f h hd _ ih =>
    refine .cons f ?_ hd ih
    rw [dropNoops_append, h, List.append_assoc, f.dropNoops_core]

/-- The next message is the next response. -/
theorem takeMessage {body : Body} {rest : List UInt8} (h : Carries rs bytes)
    (ht : Boltwire.takeMessage bytes = .item body rest) :
    ∃ r rs', rs = r :: rs' ∧ decode body = .ok r ∧ Carries rs' rest := by
  cases h with
  | nil h =>
    have hw : walk (some MAX_MESSAGE) (dropNoops bytes) 0 0 = .incomplete := by
      rw [h, walk]
      rfl
    cases (cutMessage_incomplete hw).symm.trans ht
  | @cons _ rest' r rs f h hd hr =>
    have ht' := (Frame.cutMessage_of_dropNoops h).symm.trans ht
    rw [f.cutMessage_bytes] at ht'
    split_ifs at ht' with hx
    cases ht'
    exact ⟨r, rs, rfl, hd, hr⟩

/-- The next response is all there. -/
theorem exists_frame {r : Response} (h : Carries (r :: rs) bytes) :
    ∃ (f : Frame) (rest : List UInt8), dropNoops bytes = f.core ++ rest := by
  cases h with
  | @cons _ rest _ _ f h _ _ => exact ⟨f, rest, h⟩

/-- Every response takes some bytes. -/
theorem length_le (h : Carries rs bytes) : rs.length ≤ bytes.length := by
  induction h with
  | nil => exact Nat.zero_le _
  | @cons bytes rest r rs f h _ _ ih =>
    have hlen := congrArg List.length h
    rw [dropNoops, List.length_drop, Frame.core, List.length_append, List.length_append,
      List.length_cons, List.length_singleton] at hlen
    rw [List.length_cons]
    omega

end Carries

/-- The signature of a request: no request has more than 15 fields, so its
header is one byte and the signature follows it. -/
def signature (body : Body) : UInt8 := body.getD 1 0

structure Answer where
  records : List (List BoltValue)
  summary : Response

def Answer.responses (a : Answer) : List Response := a.records.map .record ++ [a.summary]

/-- A server answers the complete requests it receives in order, each with records and one
summary, and with records only where it is asked for them. How the answers are framed,
and where NOOPs stand between them, is left open. GOODBYE is not answered. -/
structure Server where
  peer : Peer
  /-- The answer to a request, given the requests before it. -/
  answer : List Body → Body → Answer
  isSummary : ∀ before body, (answer before body).summary.isSummary = true
  records : ∀ before body, signature body ≠ PULL → signature body ≠ DISCARD →
    (answer before body).records = []
  wire : ∀ before body, signature body ≠ GOODBYE →
    Carries (answer before body).responses (peer before body)

namespace Server
variable (S : Server)

/-- The responses to `bodies`, after the requests `before`. -/
def replies : List Body → List Body → List Response
  | _, [] => []
  | before, body :: bodies => (S.answer before body).responses ++ replies (before ++ [body]) bodies

def since (k : ℕ) (log : List Body) : List Response := S.replies (log.take k) (log.drop k)

variable {S}

theorem replies_append (before bodies bodies' : List Body) :
    S.replies before (bodies ++ bodies') =
      S.replies before bodies ++ S.replies (before ++ bodies) bodies' := by
  induction bodies generalizing before with
  | nil => simp [replies]
  | cons body bodies ih => simp [replies, ih]

theorem since_append (log bodies : List Body) :
    S.since log.length (log ++ bodies) = S.replies log bodies := by
  rw [since, List.take_left, List.drop_left]

/-- More requests only add responses. -/
theorem since_append_of_le {k : ℕ} {log : List Body} (h : k ≤ log.length) (bodies : List Body) :
    S.since k (log ++ bodies) = S.since k log ++ S.replies log bodies := by
  rw [since, since, List.take_append_of_le_length h, List.drop_append_of_le_length h,
    replies_append, List.take_append_drop]

/-- Starting to count earlier only adds responses. -/
theorem since_isSuffix {k k' : ℕ} (h : k ≤ k') (log : List Body) :
    S.since k' log <:+ S.since k log := by
  obtain ⟨d, rfl⟩ := Nat.exists_eq_add_of_le h
  have hd : log.drop k = (log.drop k).take d ++ log.drop (k + d) := by
    rw [← List.drop_drop, List.take_append_drop]
  rw [since, since, hd, replies_append, ← List.take_add]
  exact List.suffix_append _ _

theorem replies_singleton (before : List Body) (body : Body) :
    S.replies before [body] = (S.answer before body).responses := by
  simp [replies]

theorem carries_replies {before bodies : List Body}
    (h : ∀ b ∈ bodies, signature b ≠ GOODBYE) :
    Carries (S.replies before bodies) (S.peer.replies before bodies) := by
  induction bodies generalizing before with
  | nil => exact .nil rfl
  | cons body bodies ih =>
    refine (S.wire before body (h body (List.mem_cons_self ..))).append ?_
    exact ih fun b hb => h b (List.mem_cons_of_mem _ hb)

def summaries (rs : List Response) : ℕ := (rs.filter Response.isSummary).length

theorem summaries_append (rs rs' : List Response) :
    summaries (rs ++ rs') = summaries rs + summaries rs' := by
  simp [summaries]

theorem summaries_cons (r : Response) (rs : List Response) :
    summaries (r :: rs) = (if r.isSummary then 1 else 0) + summaries rs := by
  cases h : r.isSummary <;> simp [summaries, h, Nat.add_comm]

theorem summaries_records (rows : List (List BoltValue)) :
    summaries (rows.map Response.record) = 0 := by
  simp [summaries, Response.isSummary]

theorem summaries_responses (before : List Body) (body : Body) :
    summaries (S.answer before body).responses = 1 := by
  rw [Answer.responses, summaries_append, summaries_records, summaries_cons, S.isSummary]
  rfl

theorem summaries_replies (before bodies : List Body) :
    summaries (S.replies before bodies) = bodies.length := by
  induction bodies generalizing before with
  | nil => rfl
  | cons body bodies ih =>
    rw [replies, summaries_append, summaries_responses, ih, List.length_cons, Nat.add_comm]

/-- Every reply ends with its summary, so what is left of some replies and has
no summary is nothing. -/
theorem eq_nil_of_summaries {before bodies : List Body} {rs : List Response}
    (h : rs <:+ S.replies before bodies) (h0 : summaries rs = 0) : rs = [] := by
  rcases List.eq_nil_or_concat bodies with rfl | ⟨init, last, rfl⟩
  · exact List.suffix_nil.mp h
  · rw [List.concat_eq_append, replies_append, replies_singleton, Answer.responses,
      ← List.append_assoc, List.suffix_concat_iff] at h
    rcases h with rfl | ⟨t, rfl, -⟩
    · rfl
    · rw [summaries_append, summaries_cons, S.isSummary] at h0
      simp at h0

end Server

inductive Phase
  | ready | streaming | txReady | txStreaming | failed
  deriving Repr, DecidableEq

/-- Where a request leaves the session, by its signature and summary. A FAILURE
leads to FAILED, which only a RESET leaves; an IGNORED request changes nothing. -/
def Phase.next (phase : Phase) (sig : UInt8) : Response → Phase
  | .failure _ _ => .failed
  | .success metadata =>
    if sig = RESET then .ready
    else match phase with
      | .failed => .failed
      | .ready =>
        if sig = RUN then .streaming else if sig = BEGIN then .txReady else .ready
      | .streaming =>
        if sig = COMMIT ∨ sig = ROLLBACK then .ready
        else if (sig = PULL ∨ sig = DISCARD) ∧
          RecordStream.hasMoreOf metadata = false then .ready
        else .streaming
      | .txReady =>
        if sig = COMMIT ∨ sig = ROLLBACK then .ready
        else if sig = RUN then .txStreaming else .txReady
      | .txStreaming =>
        if sig = COMMIT ∨ sig = ROLLBACK then .ready
        else if (sig = PULL ∨ sig = DISCARD) ∧
          RecordStream.hasMoreOf metadata = false then .txReady
        else .txStreaming
  | _ => phase

/-- Fold over a log; each request is seen with the requests before it. -/
def follow {σ : Type} (next : σ → List Body → Body → σ) : σ → List Body →
    List Body → σ
  | s, _, [] => s
  | s, before, body :: bodies => follow next (next s before body) (before ++ [body]) bodies

theorem follow_append {σ : Type} (next : σ → List Body → Body → σ) (s : σ)
    (before bodies bodies' : List Body) : follow next s before (bodies ++ bodies') =
      follow next (follow next s before bodies) (before ++ bodies) bodies' := by
  induction bodies generalizing s before with
  | nil => simp [follow]
  | cons body bodies ih => simp [follow, ih]

theorem follow_concat {σ : Type} (next : σ → List Body → Body → σ) (s : σ)
    (log : List Body)
    (body : Body) : follow next s [] (log ++ [body]) = next (follow next s [] log) log body := by
  rw [follow_append]
  simp [follow]

namespace Server
variable (S : Server)

def phase : List Body → Phase :=
  follow (fun p before body => p.next (signature body) (S.answer before body).summary) .ready []

/-- Where a request leaves the open transaction. A transaction is named by the
number of requests up to its BEGIN. -/
def txNext (tx : Option ℕ) (before : List Body) (body : Body) : Option ℕ :=
  if signature body = RESET ∨ signature body = ROLLBACK ∨ signature body = COMMIT then none
  else match (S.answer before body).summary with
    | .success _ => if signature body = BEGIN then some (before.length + 1) else tx
    | _ => tx

def openTx : List Body → Option ℕ := follow S.txNext none []

/-- A session as the protocol has it: RESET succeeds, a failed session ignores
all else, and a request for all the records of a result leaves none. -/
structure Lawful : Prop where
  reset : ∀ before body, signature body = RESET →
    ∃ m, (S.answer before body).summary = .success m
  ignores : ∀ before body, S.phase before = .failed → signature body ≠ RESET →
    (S.answer before body).summary = .ignored
  complete : ∀ before body qid, (PackStream.pack (Request.pull (-1) qid).value [] = .ok body ∨
      PackStream.pack (Request.discard (-1) qid).value [] = .ok body) →
    ∀ m, (S.answer before body).summary = .success m → RecordStream.hasMoreOf m = false

/-- The same of a server that may also fail a RESET. -/
structure Orderly : Prop where
  ignores : ∀ before body, S.phase before = .failed → signature body ≠ RESET →
    (S.answer before body).summary = .ignored
  complete : ∀ before body qid, (PackStream.pack (Request.pull (-1) qid).value [] = .ok body ∨
      PackStream.pack (Request.discard (-1) qid).value [] = .ok body) →
    ∀ m, (S.answer before body).summary = .success m → RecordStream.hasMoreOf m = false

variable {S}

theorem Lawful.orderly (h : S.Lawful) : S.Orderly := ⟨h.ignores, h.complete⟩

theorem phase_concat (log : List Body) (body : Body) :
    S.phase (log ++ [body]) = (S.phase log).next (signature body) (S.answer log body).summary :=
  follow_concat _ _ log body

theorem openTx_concat (log : List Body) (body : Body) :
    S.openTx (log ++ [body]) = S.txNext (S.openTx log) log body :=
  follow_concat _ _ log body

end Server

def Packed (req : Request) (body : Body) : Prop := PackStream.pack req.value [] = .ok body

theorem Packed.signature {req : Request} {body : Body} (h : Packed req body)
    (hl : req.fields.length < 16) : signature body = req.signature := by
  obtain ⟨out, hh, hs⟩ := except_bind_eq_ok h
  rw [PackStream.packHeader, if_pos hl] at hh
  cases hh
  obtain ⟨e, rfl, -⟩ := (PackStream.appends_packSeq req.fields).ok hs
  simp [Boltwire.signature]

def resetBody : Body := [0xB0, 0x0F]

theorem packed_reset {body : Body} (h : Packed Request.reset body) : body = resetBody := by
  cases h
  rfl

end Boltwire
