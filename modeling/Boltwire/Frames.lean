import Boltwire.Framing
import Boltwire.PackStreamOutput

namespace Boltwire
open Incremental

/-- One message as it may stand on the wire: any number of NOOPs, its body in any division
into non-empty chunks, and the terminator. -/
structure Frame where
  noops : ℕ
  chunks : List (List UInt8)
  nonempty : chunks ≠ []
  sized : ∀ c ∈ chunks, 0 < c.length ∧ c.length ≤ MAX_CHUNK

namespace Frame

def body (f : Frame) : List UInt8 := f.chunks.flatten

def bytes (f : Frame) : List UInt8 :=
  List.replicate (2 * f.noops) 0 ++ (f.chunks.flatMap chunkBytes ++ [0x00, 0x00])

end Frame

variable {limit : Option ℕ}

theorem chunkBytes_length (c : List UInt8) : (chunkBytes c).length = 2 + c.length := by
  simp [chunkBytes]

/-- The header in front of a chunk, wherever it stands. -/
theorem header_chunk {c : List UInt8} (hc : c.length ≤ MAX_CHUNK) (pre rest : List UInt8) :
    header (pre ++ (chunkBytes c ++ rest)) pre.length = some c.length := by
  refine header_eq_some.mpr ⟨?_, ?_⟩
  · simp only [List.length_append, chunkBytes_length]
    omega
  · rw [List.drop_left, chunkBytes, List.append_assoc, List.take_left' (by simp)]
    exact BigEndian.decode_encode_of_lt (by unfold MAX_CHUNK at hc; omega)

theorem header_terminator (pre rest : List UInt8) :
    header (pre ++ ([0x00, 0x00] ++ rest)) pre.length = some 0 := by
  refine header_eq_some.mpr ⟨?_, ?_⟩
  · simp
  · rw [List.drop_left]
    rfl

/-- The walk over a series of chunks ends at the terminator, unless the payload
goes over the limit on the way. -/
theorem walk_chunks (cs : List (List UInt8)) (hcs : ∀ c ∈ cs, 0 < c.length ∧
    c.length ≤ MAX_CHUNK)
    (pre rest : List UInt8) (total : ℕ) (ht : ¬ exceeds limit total) :
    walk limit (pre ++ (cs.flatMap chunkBytes ++ ([0x00, 0x00] ++ rest))) pre.length total =
      if exceeds limit (total + cs.flatten.length) then .tooLong
      else .complete (pre.length + (cs.flatMap chunkBytes).length) := by
  induction cs generalizing pre total with
  | nil =>
    rw [walk]
    simp only [List.flatMap_nil, List.nil_append, header_terminator]
    simp [ht]
  | cons c cs ih =>
    obtain ⟨hpos, hmax⟩ := hcs c (List.mem_cons_self ..)
    have hcs' : ∀ c ∈ cs, 0 < c.length ∧ c.length ≤ MAX_CHUNK := fun c h =>
      hcs c (List.mem_cons_of_mem _ h)
    rw [walk, List.flatMap_cons, List.append_assoc, header_chunk hmax]
    simp only [if_neg (show c.length ≠ 0 by omega)]
    -- the limit is checked at every header, before the chunk has arrived
    by_cases hx : exceeds limit (total + c.length)
    · have hx' : exceeds limit (total + (c :: cs).flatten.length) := by
        unfold exceeds at hx ⊢
        cases limit with
        | none => simp at hx
        | some l =>
          simp only [Option.any_some, decide_eq_true_eq, List.flatten_cons,
            List.length_append] at hx ⊢
          omega
      rw [if_pos hx, if_pos hx']
    · have hl :
        ¬ (pre ++ (chunkBytes c ++ (cs.flatMap chunkBytes ++ ([0x00, 0x00] ++ rest)))).length
          < pre.length + (2 + c.length) := by
        simp only [List.length_append, chunkBytes_length]
        omega
      rw [if_neg hx, dif_neg hl]
      have h := ih hcs' (pre ++ chunkBytes c) (total + c.length) hx
      rw [List.append_assoc, List.length_append, chunkBytes_length] at h
      rw [h, List.flatten_cons, List.length_append, List.length_append, chunkBytes_length,
        Nat.add_assoc total, Nat.add_assoc pre.length]

theorem copyBody_chunks (cs : List (List UInt8))
    (hcs : ∀ c ∈ cs, 0 < c.length ∧ c.length ≤ MAX_CHUNK) (pre rest : List UInt8) :
    copyBody (pre ++ (cs.flatMap chunkBytes ++ rest))
      (pre.length + (cs.flatMap chunkBytes).length) pre.length = cs.flatten := by
  induction cs generalizing pre with
  | nil =>
    rw [copyBody]
    simp
  | cons c cs ih =>
    have hmax := (hcs c (List.mem_cons_self ..)).2
    have hh := (header_eq_some.mp (header_chunk hmax pre (cs.flatMap chunkBytes ++ rest))).2
    have hlt : pre.length < pre.length + (chunkBytes c ++ cs.flatMap chunkBytes).length := by
      rw [List.length_append, chunkBytes_length]
      omega
    have h := ih (fun c h => hcs c (List.mem_cons_of_mem _ h)) (pre ++ chunkBytes c)
    rw [List.append_assoc, List.length_append, chunkBytes_length, Nat.add_assoc] at h
    rw [copyBody, List.flatMap_cons, dif_pos hlt, List.append_assoc]
    simp only [hh]
    rw [List.length_append, chunkBytes_length, h, List.flatten_cons]
    congr 1
    rw [← List.drop_drop, List.drop_left, chunkBytes, List.append_assoc,
      List.drop_left' (by simp), List.take_left]

theorem dropNoops_replicate (n : ℕ) (xs : List UInt8) :
    dropNoops (List.replicate (2 * n) 0 ++ xs) = dropNoops xs := by
  induction n with
  | zero => rfl
  | succ n ih =>
    rw [Nat.mul_succ, List.replicate_succ, List.replicate_succ]
    simpa [dropNoops_zero_zero] using ih

/-- A chunk is not mistaken for a NOOP: its length is not zero. -/
theorem dropNoops_chunk {c : List UInt8} (hc : 0 < c.length ∧ c.length ≤ MAX_CHUNK)
    (rest : List UInt8) : dropNoops (chunkBytes c ++ rest) = chunkBytes c ++ rest := by
  obtain ⟨a, b, hab⟩ : ∃ a b, BigEndian.encode 2 c.length = [a, b] :=
    List.length_eq_two.mp (BigEndian.encode_length 2 c.length)
  have hd := BigEndian.decode_encode_of_lt (w := 2) (n := c.length)
    (by unfold MAX_CHUNK at hc; omega)
  rw [chunkBytes, hab]
  apply dropNoops_of_ne
  rintro ⟨rfl, rfl⟩
  rw [hab] at hd
  simp [BigEndian.decode] at hd
  omega

namespace Frame

def core (f : Frame) : List UInt8 := f.chunks.flatMap chunkBytes ++ [0x00, 0x00]

theorem dropNoops_bytes (f : Frame) (rest : List UInt8) :
    dropNoops (f.bytes ++ rest) = f.core ++ rest := by
  rw [bytes, List.append_assoc, dropNoops_replicate, ← core]
  cases hcs : f.chunks with
  | nil => exact absurd hcs f.nonempty
  | cons c cs =>
    have hc := f.sized c (by rw [hcs]; exact List.mem_cons_self ..)
    simp only [core, hcs, List.flatMap_cons, List.append_assoc]
    exact dropNoops_chunk hc _

theorem walk_core (f : Frame) (limit : Option ℕ) (rest : List UInt8) :
    walk limit (f.core ++ rest) 0 0 = if exceeds limit f.body.length then .tooLong
      else .complete (f.chunks.flatMap chunkBytes).length := by
  have h0 : ¬ exceeds limit 0 := by cases limit <;> simp [exceeds]
  have h := walk_chunks f.chunks f.sized [] rest 0 h0
  simpa [core, body] using h

/-- Cutting a stream that starts with a frame. -/
theorem cutMessage_bytes (f : Frame) (rest : List UInt8) :
    cutMessage limit (f.bytes ++ rest) =
      if exceeds limit f.body.length then .fail (.protocol .messageTooLong) (f.core ++ rest)
      else .item f.body rest := by
  have hw := f.walk_core limit rest
  rw [← f.dropNoops_bytes] at hw
  by_cases hx : exceeds limit f.body.length
  · rw [if_pos hx] at hw ⊢
    rw [cutMessage_tooLong hw, f.dropNoops_bytes]
  · rw [if_neg hx] at hw ⊢
    have hcopy := copyBody_chunks f.chunks f.sized [] ([0x00, 0x00] ++ rest)
    simp only [List.nil_append, List.length_nil, Nat.zero_add] at hcopy
    rw [cutMessage_complete hw, f.dropNoops_bytes, core, List.append_assoc, hcopy,
      ← List.drop_drop, List.drop_left]
    rfl

end Frame

theorem chunks_flatten (bs : List UInt8) : (chunks bs).flatten = bs := by
  fun_induction chunks bs with
  | case1 => rfl
  | case2 bs h ih => rw [List.flatten_cons, ih, List.take_append_drop]

theorem chunks_sized (bs : List UInt8) :
    ∀ c ∈ chunks bs, 0 < c.length ∧ c.length ≤ MAX_CHUNK := by
  fun_induction chunks bs with
  | case1 => simp
  | case2 bs h ih =>
    have hb := List.length_pos_of_ne_nil h
    intro c hc
    rcases List.mem_cons.mp hc with rfl | hc
    · rw [List.length_take]
      unfold MAX_CHUNK
      omega
    · exact ih c hc

theorem chunks_ne_nil {bs : List UInt8} (h : bs ≠ []) : chunks bs ≠ [] := by
  rw [chunks, dif_neg h]
  simp

def frameOf (bs : List UInt8) (h : bs ≠ []) : Frame where
  noops := 0
  chunks := chunks bs
  nonempty := chunks_ne_nil h
  sized := chunks_sized bs

theorem frameOf_body (bs : List UInt8) (h : bs ≠ []) : (frameOf bs h).body = bs :=
  chunks_flatten bs

/-- A packed structure starts with its header byte. -/
theorem pack_struct_ne_nil {signature : UInt8} {fields : List BoltValue} {bs : List UInt8}
    (h : PackStream.pack (.struct signature fields) [] = .ok bs) : bs ≠ [] := by
  obtain ⟨out, -, h₂⟩ := except_bind_eq_ok h
  have hle := PackStream.length_le_of_appends (PackStream.appends_packSeq fields) h₂
  rintro rfl
  simp at hle

/-- What `encode` appends is one frame without NOOPs, around the packed request. -/
theorem encode_eq_ok {req : Request} {out out' : List UInt8} (h : encode req out = .ok out') :
    ∃ f : Frame, f.noops = 0 ∧ PackStream.pack req.value [] = .ok f.body ∧
    out' = out ++ f.bytes ∧ ∀ out, encode req out = .ok (out ++ f.bytes) := by
  obtain ⟨bs, hp, -⟩ := except_bind_eq_ok h
  have hne := pack_struct_ne_nil hp
  have hall : ∀ out, encode req out = .ok (out ++ (frameOf bs hne).bytes) := by
    intro out
    rw [encode, hp]
    simp [bind, Except.bind, pure, Except.pure, Frame.bytes, frameOf]
  exact ⟨frameOf bs hne,
    rfl, by rwa [frameOf_body], Except.ok.inj (h.symm.trans (hall out)), hall⟩

theorem encode_error {req : Request} {out : List UInt8} {e : BoltError}
    (h : encode req out = .error e) (out' : List UInt8) : encode req out' = .error e := by
  unfold encode at h ⊢
  cases hp : PackStream.pack req.value [] with
  | error e' => rw [hp] at h; cases h; rfl
  | ok bs => rw [hp] at h; cases h

end Boltwire
