import Boltwire.PackStreamRoundTrip
import Boltwire.Server

namespace Boltwire
open Incremental

namespace Response

def value : Response → BoltValue
  | success metadata => .struct SUCCESS [.map metadata]
  | record values => .struct RECORD [.list values]
  | failure code message =>
    .struct FAILURE [.map [("code", .string code), ("message", .string message)]]
  | ignored => .struct IGNORED []

def Packable (r : Response) : Prop := r.value.KeysDistinct ∧ r.value.Sized

def body (r : Response) : Body :=
  match PackStream.pack r.value [] with
  | .ok body => body
  | .error _ => []

def bytes (r : Response) : List UInt8 := (chunks r.body).flatMap chunkBytes ++ [0x00, 0x00]

theorem fromStructure_value (r : Response) :
    ∃ signature fields, r.value = .struct signature fields ∧
      fromStructure signature fields = some r := by
  cases r with
  | success metadata => exact ⟨_, _, rfl, rfl⟩
  | record values => exact ⟨_, _, rfl, rfl⟩
  | failure code message => exact ⟨_, _, rfl, rfl⟩
  | ignored => exact ⟨_, _, rfl, rfl⟩

theorem Packable.pack {r : Response} (h : r.Packable) :
    PackStream.pack r.value [] = .ok r.body ∧ decode r.body = .ok r := by
  obtain ⟨e, he⟩ := PackStream.roundTrips r.value h.1 h.2
  have hpack : PackStream.pack r.value [] = .ok e := he.pack_eq []
  have hbody : r.body = e := by rw [body, hpack]
  have hread := he.unpack [] []
  obtain ⟨signature, fields, hv, hs⟩ := r.fromStructure_value
  rw [List.append_nil, List.nil_append, hv] at hread
  refine ⟨hbody ▸ hpack, ?_⟩
  rw [hbody, decode, PackStream.Reader.new, show (0 : ℕ) = ([] : List UInt8).length
    from rfl, hread]
  simp [hs]

theorem Packable.carries {r : Response} {rs : List Response} {bytes : List UInt8} (h : r.Packable)
    (hr : Carries rs bytes) : Carries (r :: rs) (r.bytes ++ bytes) := by
  obtain ⟨hpack, hdecode⟩ := h.pack
  obtain ⟨signature, fields, hv, -⟩ := r.fromStructure_value
  rw [hv] at hpack
  have hne : r.body ≠ [] := pack_struct_ne_nil hpack
  refine .cons (frameOf r.body hne) ?_ ?_ hr
  · have h := (frameOf r.body hne).dropNoops_core bytes
    exact h
  · rwa [frameOf_body]

theorem carries_flatMap {rs : List Response} (h : ∀ r ∈ rs, r.Packable) :
    Carries rs (rs.flatMap bytes) := by
  induction rs with
  | nil => exact .nil rfl
  | cons r rs ih =>
    rw [List.flatMap_cons]
    exact (h r (List.mem_cons_self ..)).carries (ih fun r' hr' => h r' (List.mem_cons_of_mem _ hr'))

end Response

/-- The server that gives these answers. -/
def Server.answering (answer : List Body → Body → Answer)
    (isSummary : ∀ before body, (answer before body).summary.isSummary = true)
    (records : ∀ before body, signature body ≠ PULL → signature body ≠ DISCARD →
      (answer before body).records = [])
    (packable : ∀ before body, ∀ r ∈ (answer before body).responses, r.Packable) :
    Server where
  peer before body := (answer before body).responses.flatMap Response.bytes
  answer
  isSummary
  records
  wire before body _ := Response.carries_flatMap (packable before body)

theorem Response.packable_success : (success []).Packable := by
  simp [Packable, value, BoltValue.KeysDistinct, BoltValue.Sized, BoltValue.Forall,
    BoltValue.ForallSeq, BoltValue.ForallEntries, BoltValue.NodeKeysDistinct, BoltValue.NodeSized]

theorem Response.packable_failure : (failure "" "").Packable := by
  have hcode : (utf8 "code").length < 4294967296 := by decide
  have hmessage : (utf8 "message").length < 4294967296 := by decide
  have hempty : (utf8 "").length < 4294967296 := by decide
  simp [Packable, value, BoltValue.KeysDistinct, BoltValue.Sized, BoltValue.Forall,
    BoltValue.ForallSeq, BoltValue.ForallEntries, BoltValue.NodeKeysDistinct, BoltValue.NodeSized,
    hcode, hmessage, hempty]

/-- A server that has no records and fails the requests chosen. -/
def Server.terse (fails : List Body → Body → Bool) : Server :=
  answering (fun before body => ⟨[], if fails before body then .failure "" "" else .success []⟩)
    (fun before body => by split_ifs <;> rfl)
    (fun _ _ _ _ => rfl)
    (by
      intro before body r hr
      simp only [Answer.responses, List.map_nil, List.nil_append, List.mem_singleton] at hr
      subst hr
      split_ifs
      · exact Response.packable_failure
      · exact Response.packable_success)

def obliging : Server := .terse fun _ _ => false

def smooth : List Choice := List.replicate 20 (.ready 1000)

end Boltwire
