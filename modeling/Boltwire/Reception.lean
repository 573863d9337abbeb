import Mathlib.Data.List.TakeWhile
import Boltwire.Connection
import Boltwire.Frames
import Boltwire.PackStreamRoundTrip

namespace Boltwire
open Incremental
namespace BoltConnection

def takeMessages : ℕ → BoltConnection →
    List (Outcome BoltError (Option Body)) × BoltConnection
  | 0, c => ([], c)
  | n + 1, c =>
    let (result, c) := takeMessage c
    let (results, c) := takeMessages n c
    (result :: results, c)

def fits (f : Frame) : Bool := f.body.length ≤ MAX_MESSAGE

theorem takeMessage_frame {f : Frame} (h : fits f = true) (c : BoltConnection) (rest : List UInt8) :
    takeMessage { c with rbuf := f.bytes ++ rest } =
    (.ok (some f.body), { c with rbuf := rest }) := by
  have hx : exceeds (some MAX_MESSAGE) f.body.length = false := by
    simpa [fits, exceeds] using h
  simp only [takeMessage, Boltwire.takeMessage, f.cutMessage_bytes, hx]
  rfl

theorem takeMessage_tooLong {f : Frame} (h : fits f = false) (c : BoltConnection)
    (rest : List UInt8) : takeMessage { c with rbuf := f.bytes ++ rest } =
      (.err (.protocol .messageTooLong), { c with rbuf := f.core ++ rest, broken := true }) := by
  have hx : exceeds (some MAX_MESSAGE) f.body.length = true := by
    simpa [fits, exceeds] using h
  simp only [takeMessage, Boltwire.takeMessage, f.cutMessage_bytes, hx]
  rfl

theorem takeMessages_frames (fs : List Frame) (hfs : ∀ f ∈ fs, fits f = true)
    (c : BoltConnection)
    (rest : List UInt8) : takeMessages fs.length { c with rbuf := fs.flatMap Frame.bytes ++ rest } =
      (fs.map fun f => .ok (some f.body), { c with rbuf := rest }) := by
  induction fs with
  | nil => rfl
  | cons f fs ih =>
    have hf := hfs f (List.mem_cons_self ..)
    have ih := ih fun f h => hfs f (List.mem_cons_of_mem _ h)
    rw [List.flatMap_cons, List.append_assoc, List.length_cons, takeMessages, takeMessage_frame hf]
    simp only [ih, List.map_cons]

/-- What is read back from an encoded request is the request. -/
theorem takeMessage_encode {req : Request} {body : Body}
    (hp : PackStream.pack req.value [] = .ok body)
    (hl : body.length ≤ MAX_MESSAGE) (hk : req.value.KeysDistinct) (c : BoltConnection)
    (rest : List UInt8) : ∃ out, encode req [] = .ok out ∧
      takeMessage { c with rbuf := out ++ rest } = (.ok (some body), { c with rbuf := rest }) ∧
      ∃ r, PackStream.Reader.unpack (.new body) = .ok (.struct req.signature req.fields, r) := by
  have he : encode req [] = .ok ((chunks body).flatMap chunkBytes ++ [0x00, 0x00]) := by
    rw [encode, hp]
    rfl
  obtain ⟨f, hn, hb, hout, -⟩ := encode_eq_ok he
  have hfb : f.body = body := Except.ok.inj (hb.symm.trans hp)
  rw [List.nil_append] at hout
  rw [hout] at he
  refine ⟨f.bytes, he, ?_, ?_⟩
  · rw [takeMessage_frame (by simpa [fits, hfb] using hl), hfb]
  · have hs := PackStream.sized_of_pack _ hp (by unfold MAX_MESSAGE at hl; omega)
    obtain ⟨e, he⟩ := PackStream.roundTrips req.value hk hs
    have hbe : e = body := by simpa using Except.ok.inj ((he.pack_eq []).symm.trans hp)
    have hu := he.unpack [] []
    rw [List.nil_append, List.append_nil, hbe] at hu
    exact ⟨_, hu⟩

/-- A stream of frames is cut into the bodies before the first one over the
limit, byte for byte, and that one breaks the connection. -/
theorem takeMessages_exact (c : BoltConnection) (fs : List Frame) (rest : List UInt8) :
    takeMessages (fs.takeWhile fits).length { c with rbuf := fs.flatMap Frame.bytes ++ rest } =
      ((fs.takeWhile fits).map fun f => .ok (some f.body),
        { c with rbuf := (fs.dropWhile fits).flatMap Frame.bytes ++ rest }) ∧
    (∀ f fs', fs.dropWhile fits = f :: fs' → ∃ rbuf,
      takeMessage { c with rbuf := (fs.dropWhile fits).flatMap Frame.bytes ++ rest } =
        (.err (.protocol .messageTooLong), { c with rbuf, broken := true })) ∧
    ∀ (req : Request) (body : Body), req.value.KeysDistinct →
      PackStream.pack req.value [] = .ok body → body.length ≤ MAX_MESSAGE →
      ∃ out, encode req [] = .ok out ∧
        takeMessage { c with rbuf := out ++ rest } = (.ok (some body), { c with rbuf := rest }) ∧
        ∃ r, PackStream.Reader.unpack (.new body) =
          .ok (.struct req.signature req.fields, r) := by
  refine ⟨?_, ?_, fun req body hk hp hl => takeMessage_encode hp hl hk c rest⟩
  · have h := takeMessages_frames (fs.takeWhile fits) (fun f hf => List.mem_takeWhile_imp hf) c
      ((fs.dropWhile fits).flatMap Frame.bytes ++ rest)
    rw [← List.append_assoc, ← List.flatMap_append, List.takeWhile_append_dropWhile] at h
    exact h
  · intro f fs' hd
    have hf : fits f = false := by
      have := List.head?_dropWhile_not fits fs
      rw [hd] at this
      simpa using this
    -- the message over the limit stays in the buffer, without its NOOPs
    refine ⟨f.core ++ (fs'.flatMap Frame.bytes ++ rest), ?_⟩
    rw [hd, List.flatMap_cons, List.append_assoc]
    exact takeMessage_tooLong hf c _

/-- A frame with two NOOPs and two chunks, and RESET. -/
theorem takeMessages_exact_reset : ∃ out, encode Request.reset [] = .ok out ∧
    takeMessages 1 ⟨⟨[], [], [], []⟩, false, 0, false,
      [0, 0, 0, 0, 0, 1, 0xB0, 0, 1, 0x0F, 0, 0, 7]⟩ =
        ([.ok (some [0xB0, 0x0F])], ⟨⟨[], [], [], []⟩, false, 0, false, [7]⟩) ∧
    takeMessage ⟨⟨[], [], [], []⟩, false, 0, false, out ++ [7]⟩ =
      (.ok (some [0xB0, 0x0F]), ⟨⟨[], [], [], []⟩, false, 0, false, [7]⟩) := by
  have h := takeMessages_exact ⟨⟨[], [], [], []⟩, false, 0, false, []⟩
    [⟨2, [[0xB0], [0x0F]], by simp, by simp [MAX_CHUNK]⟩] [7]
  obtain ⟨out, he, ht, -⟩ := h.2.2 Request.reset [0xB0, 0x0F]
    (by simp [Request.value, Request.reset, BoltValue.KeysDistinct, BoltValue.Forall,
      BoltValue.ForallSeq, BoltValue.NodeKeysDistinct])
    (by rfl) (by decide)
  exact ⟨out, he, h.1, ht⟩

/-- Segments appended to the read buffer, as `fill` does, interleaved with calls
of `take_message`: the bodies returned and the first `Err`, after which nothing
is read. -/
def receive : List (Cutter.Event UInt8) → BoltConnection →
    List (Except BoltError Body) × BoltConnection
  | [], c => ([], c)
  | .arrive segment :: es, c => receive es { c with rbuf := c.rbuf ++ segment }
  | .attempt :: es, c =>
    match takeMessage c with
    | (.ok none, c) => receive es c
    | (.ok (some body), c) => (.ok body :: (receive es c).1, (receive es c).2)
    | (.err e, c) => ([.error e], c)
    | (.dropped, c) => ([], c)

theorem takeMessage_shrinks {c c' : BoltConnection} {body : Body}
    (h : takeMessage c = (.ok (some body), c')) : c'.rbuf.length < c.rbuf.length := by
  unfold takeMessage at h
  cases hcut : Boltwire.takeMessage c.rbuf with
  | more rest => simp [hcut] at h
  | fail e rest => simp [hcut] at h
  | item b rest =>
    simp only [hcut, Prod.mk.injEq] at h
    obtain ⟨-, rfl⟩ := h
    exact cutMessage_shrinks hcut

def takeAll (c : BoltConnection) : List (Except BoltError Body) × BoltConnection :=
  match _h : takeMessage c with
  | (.ok none, c') => ([], c')
  | (.ok (some body), c') => (.ok body :: (takeAll c').1, (takeAll c').2)
  | (.err e, c') => ([.error e], c')
  | (.dropped, c') => ([], c')
termination_by c.rbuf.length
decreasing_by all_goals exact takeMessage_shrinks _h

def results (p : Produced UInt8 Body BoltError) : List (Except BoltError Body) :=
  p.items.map .ok ++ (p.failed.map Except.error).toList

abbrev replyCutter : Cutter UInt8 Body BoltError := messageCutter (some MAX_MESSAGE)

section Steps
variable {c : BoltConnection} {rest : List UInt8}

theorem takeMessage_of_more (h : replyCutter.cut c.rbuf = .more rest) :
    takeMessage c = (.ok none, { c with rbuf := rest }) := by
  rw [takeMessage, show Boltwire.takeMessage c.rbuf = _ from h]

theorem takeMessage_of_item {body : Body} (h : replyCutter.cut c.rbuf = .item body rest) :
    takeMessage c = (.ok (some body), { c with rbuf := rest }) := by
  rw [takeMessage, show Boltwire.takeMessage c.rbuf = _ from h]

theorem takeMessage_of_fail {e : BoltError} (h : replyCutter.cut c.rbuf = .fail e rest) :
    takeMessage c = (.err e, { c with rbuf := rest, broken := true }) := by
  rw [takeMessage, show Boltwire.takeMessage c.rbuf = _ from h]

end Steps

/-- A message over the limit is over the limit again. -/
theorem cut_of_fail {buf rest : List UInt8} {e : BoltError}
    (h : replyCutter.cut buf = .fail e rest) : replyCutter.cut rest = .fail e rest := by
  obtain ⟨hw, rfl, rfl⟩ := cutMessage_fail h
  have hd : dropNoops (dropNoops buf) = dropNoops buf := by
    rw [dropNoops, noops_dropNoops]
    rfl
  rw [← hd] at hw
  exact (cutMessage_tooLong hw).trans (by rw [hd])

/-- The connection's calls are the cutter's attempts on its read buffer. -/
theorem receive_eq (es : List (Cutter.Event UInt8)) (c : BoltConnection) :
    (receive es c).1 = results (replyCutter.run c.rbuf es) ∧
      ((replyCutter.run c.rbuf es).failed = none →
        (receive es c).2 = { c with rbuf := (replyCutter.run c.rbuf es).rest }) ∧
      ((replyCutter.run c.rbuf es).failed ≠ none →
        (takeMessage (receive es c).2).1 ≠ .ok none) := by
  induction es generalizing c with
  | nil => exact ⟨rfl, fun _ => rfl, fun h => absurd rfl h⟩
  | cons ev es ih =>
    cases ev with
    | arrive segment => exact ih { c with rbuf := c.rbuf ++ segment }
    | attempt =>
      cases hcut : replyCutter.cut c.rbuf with
      | more rest =>
        simp only [receive, Cutter.run, takeMessage_of_more hcut, hcut]
        exact ih { c with rbuf := rest }
      | item body rest =>
        obtain ⟨h₁, h₂⟩ := ih { c with rbuf := rest }
        simp only [receive, Cutter.run, takeMessage_of_item hcut, hcut]
        exact ⟨by rw [h₁]; rfl, h₂⟩
      | fail e rest =>
        simp only [receive, Cutter.run, takeMessage_of_fail hcut, hcut]
        -- what was refused is still in front of the buffer, and is refused again
        refine ⟨rfl, fun h => (by cases h), fun _ => ?_⟩
        rw [takeMessage_of_fail (cut_of_fail hcut)]
        simp

theorem takeAll_eq (c : BoltConnection) :
    (takeAll c).1 = results (replyCutter.drain c.rbuf) ∧
      ((replyCutter.drain c.rbuf).failed = none →
        (takeAll c).2 = { c with rbuf := (replyCutter.drain c.rbuf).rest }) := by
  induction hn : c.rbuf.length using Nat.strong_induction_on generalizing c with
  | _ n ih =>
    subst hn
    cases hcut : replyCutter.cut c.rbuf with
    | more rest =>
      rw [takeAll, Cutter.drain_more hcut]
      split <;> simp_all [takeMessage_of_more hcut, results]
    | item body rest =>
      have hlt : rest.length < c.rbuf.length := replyCutter.shrinks hcut
      obtain ⟨h₁, h₂⟩ := ih _ hlt { c with rbuf := rest } rfl
      have ht := takeMessage_of_item hcut
      rw [takeAll, Cutter.drain_item hcut]
      split <;> rename_i c' heq <;> rw [ht] at heq <;> cases heq
      exact ⟨by rw [h₁]; rfl, h₂⟩
    | fail e rest =>
      rw [takeAll, Cutter.drain_fail hcut]
      split <;> simp_all [takeMessage_of_fail hcut, results]

theorem results_eq_of_mem {p : Produced UInt8 Body BoltError} {e : BoltError}
    (h : .error e ∈ results p) : p.failed = some e := by
  unfold results at h
  rcases List.mem_append.mp h with h | h
  · simp at h
  · cases hf : p.failed with
    | none => simp [hf] at h
    | some e' => simpa [hf, eq_comm] using h

/-- However a stream is cut into segments, and whenever `take_message` is called
between them, the results are the first ones of the whole stream; with an `Err`,
or with `None` once all has arrived, they are all of them. -/
theorem receive_independent (c : BoltConnection) (es : List (Cutter.Event UInt8)) :
    (∀ rest, (receive es { c with rbuf := [] }).1 <+:
      (takeAll { c with rbuf := Cutter.arrived es ++ rest }).1) ∧
    (∀ rest e, .error e ∈ (receive es { c with rbuf := [] }).1 →
      (receive es { c with rbuf := [] }).1 =
        (takeAll { c with rbuf := Cutter.arrived es ++ rest }).1) ∧
    ∀ c', takeMessage (receive es { c with rbuf := [] }).2 = (.ok none, c') →
      takeAll { c with rbuf := Cutter.arrived es } =
      ((receive es { c with rbuf := [] }).1, c') := by
  obtain ⟨hr, hc, hfail⟩ := receive_eq es { c with rbuf := [] }
  -- a message that is refused ends both in the same place
  have herr : ∀ rest e, (replyCutter.run [] es).failed = some e →
      results (replyCutter.run [] es) =
        (takeAll { c with rbuf := Cutter.arrived es ++ rest }).1 := by
    intro rest e he
    obtain ⟨h₁, h₂⟩ := Cutter.run_failed he rest
    rw [(takeAll_eq _).1, results, results, h₁, h₂, he]
  rw [hr]
  refine ⟨?_, fun rest e he => herr rest e (results_eq_of_mem he), ?_⟩
  · intro rest
    cases hf : (replyCutter.run [] es).failed with
    | some e => exact (herr rest e hf).subst List.prefix_rfl
    | none =>
      have hpre := Cutter.run_items_isPrefix (c := replyCutter) es rest
      rw [(takeAll_eq _).1, results, results, hf, Option.map_none, Option.toList_none,
        List.append_nil]
      exact (hpre.map _).trans (List.prefix_append _ _)
  · intro c' hnone
    cases hf : (replyCutter.run [] es).failed with
    | some e => exact absurd (congrArg Prod.fst hnone) (hfail (by simp [hf]))
    | none =>
      rw [hc hf] at hnone
      cases hcut : replyCutter.cut (replyCutter.run [] es).rest with
      | item body rest => rw [takeMessage_of_item hcut] at hnone; cases hnone
      | fail e rest => rw [takeMessage_of_fail hcut] at hnone; cases hnone
      | more rest =>
        rw [takeMessage_of_more hcut] at hnone
        cases hnone
        have hd := Cutter.run_complete hf hcut
        obtain ⟨h₁, h₂⟩ := takeAll_eq { c with rbuf := Cutter.arrived es }
        simp only [hd] at h₁ h₂
        rw [results, hf]
        exact Prod.ext h₁ (h₂ trivial)

end BoltConnection
end Boltwire
