import Boltwire.PackStream

namespace Boltwire

def HELLO : UInt8 := 0x01
def GOODBYE : UInt8 := 0x02
def RESET : UInt8 := 0x0F
def RUN : UInt8 := 0x10
def BEGIN : UInt8 := 0x11
def COMMIT : UInt8 := 0x12
def ROLLBACK : UInt8 := 0x13
def DISCARD : UInt8 := 0x2F
def PULL : UInt8 := 0x3F
def ROUTE : UInt8 := 0x66
def LOGON : UInt8 := 0x6A

def SUCCESS : UInt8 := 0x70
def RECORD : UInt8 := 0x71
def IGNORED : UInt8 := 0x7E
def FAILURE : UInt8 := 0x7F

structure Request where
  signature : UInt8
  fields : List BoltValue
  deriving Repr

def stringMap (pairs : List (String × String)) : Meta :=
  pairs.foldl (fun m p => m.insert p.1 (.string p.2)) []

namespace Request

def withMeta (signature : UInt8) (metadata : Meta) : Request := ⟨signature, [.map metadata]⟩

/-- HELLO: metadata only, the credentials go in LOGON. The language is that of
the crate's `rust-version`. -/
def hello (userAgent : String) : Request :=
  let boltAgent := stringMap [("product", userAgent), ("language", "Rust/1.99")]
  let metadata := Meta.insert [] "user_agent" (.string userAgent)
  withMeta HELLO (metadata.insert "bolt_agent" (.map boltAgent))

def logonBasic (principal credentials : String) : Request :=
  withMeta LOGON (stringMap
    [("scheme", "basic"), ("principal", principal), ("credentials", credentials)])

/-- Servers without authentication still require a LOGON to go READY. -/
def logonNone : Request := withMeta LOGON (stringMap [("scheme", "none")])

def run (query : String) (parameters extra : Meta) : Request :=
  ⟨RUN, [.string query, .map parameters, .map extra]⟩

def withN (signature : UInt8) (n : Int64) (qid : Option Int64) : Request :=
  let metadata := Meta.insert [] "n" (.int n)
  withMeta signature (match qid with
    | some qid => metadata.insert "qid" (.int qid)
    | none => metadata)

def pull (n : Int64) (qid : Option Int64) : Request := withN PULL n qid

def discard (n : Int64) (qid : Option Int64) : Request := withN DISCARD n qid

def begin (extra : Meta) : Request := withMeta BEGIN extra

def route (context : Meta) (db : Option String) : Request :=
  ⟨ROUTE, [.map context, .list [], .map (match db with
    | some db => Meta.insert [] "db" (.string db)
    | none => [])]⟩

def commit : Request := ⟨COMMIT, []⟩
def rollback : Request := ⟨ROLLBACK, []⟩
def reset : Request := ⟨RESET, []⟩
def goodbye : Request := ⟨GOODBYE, []⟩

end Request

def takeMap : Option BoltValue → Meta
  | some (.map m) => m
  | _ => []

namespace Response

def fromStructure (signature : UInt8) (fields : List BoltValue) : Option Response :=
  let last := fields.getLast?
  if signature = SUCCESS then some (.success (takeMap last))
  else if signature = RECORD then
    match last with
    | some (.list values) => some (.record values)
    | _ => some (.record [])
  else if signature = IGNORED then some .ignored
  else if signature = FAILURE then
    let metadata := takeMap last
    let get := fun key default => ((metadata.get key).bind BoltValue.asStr).getD default
    some (.failure (get "code" "Unknown") (get "message" "(no message)"))
  else none

/-- SUCCESS, FAILURE and IGNORED end the reply to a request; a RECORD does not. -/
def isSummary : Response → Bool
  | record _ => false
  | _ => true

end Response

def decode (body : List UInt8) : Except BoltError Response :=
  match PackStream.Reader.unpack (.new body) with
  | .error e => .error e
  | .ok (.struct signature fields, _) =>
    match Response.fromStructure signature fields with
    | some response => .ok response
    | none => .error (.protocol (.unknownSignature signature))
  | .ok _ => .error (.protocol .notAStructure)

/-- An undecodable body is never reported as a server failure. -/
theorem decode_error {body : List UInt8} {e : BoltError} (h : decode body = .error e) :
    ∀ code message, e ≠ .failure code message := by
  unfold decode at h
  rintro code message rfl
  split at h
  · rename_i e hu
    cases h
    obtain ⟨_, hp⟩ := PackStream.ProtocolOnly.unpackWithin _ _ _ hu
    cases hp
  · split at h <;> cases h
  · cases h

end Boltwire
