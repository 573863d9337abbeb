import Mathlib.Tactic

namespace Boltwire

/-- A `HashMap<String, BoltValue>` is its list of entries in iteration order, so one
finite map has as many representations as it has iteration orders. Floats are kept
as their 64 bits. -/
inductive BoltValue
  | null
  | bool (b : Bool)
  | int (i : Int64)
  | float (bits : UInt64)
  | string (s : String)
  | bytes (b : List UInt8)
  | list (items : List BoltValue)
  | map (entries : List (String × BoltValue))
  | struct (signature : UInt8) (fields : List BoltValue)
  deriving Repr, Inhabited

/-- A list of entries whose keys are distinct. -/
theorem lookup_eq_some {β : Type} {entries : List (String × β)}
    (hkeys : (entries.map Prod.fst).Nodup) {key : String} {value : β} :
    entries.lookup key = some value ↔ (key, value) ∈ entries := by
  induction entries with
  | nil => simp
  | cons e entries ih =>
    obtain ⟨key', value'⟩ := e
    rw [List.map_cons, List.nodup_cons] at hkeys
    rw [List.lookup_cons, List.mem_cons]
    by_cases hkey : key = key'
    · subst hkey
      have hnot : (key, value) ∉ entries := fun h => hkeys.1 (List.mem_map.mpr ⟨_, h, rfl⟩)
      simp [hnot, eq_comm]
    · have hne : (key == key') = false := by simpa using hkey
      rw [hne]
      simp [ih hkeys.2, hkey]

/-- `HashMap<String, BoltValue>` -/
abbrev Meta := List (String × BoltValue)

/-- `HashMap::insert`: the last value written under a key stays. -/
def Meta.insert (m : Meta) (key : String) (value : BoltValue) : Meta :=
  if key ∈ m.map Prod.fst then m.map fun e => if e.1 = key then (key, value) else e
  else m ++ [(key, value)]

def Meta.get (m : Meta) (key : String) : Option BoltValue := m.lookup key

theorem Meta.insert_of_notMem {m : Meta} {key : String} (h : key ∉ m.map Prod.fst)
    (value : BoltValue) : m.insert key value = m ++ [(key, value)] := by
  unfold Meta.insert
  rw [if_neg h]

theorem Meta.get_insert_self (m : Meta) (key : String) (value : BoltValue) :
    (m.insert key value).get key = some value := by
  unfold Meta.insert Meta.get
  split
  case isTrue hmem =>
    induction m with
    | nil => cases hmem
    | cons e m ih =>
      rw [List.map_cons, List.lookup_cons]
      by_cases he : e.1 = key
      · simp [he]
      · have hne : (key == e.1) = false := by simpa using fun h => he h.symm
        rw [if_neg he, hne]
        exact ih ((List.mem_cons.mp hmem).resolve_left fun h => he h.symm)
  case isFalse hmem =>
    have hnone : m.lookup key = none := by
      rw [List.lookup_eq_none_iff]
      intro e he
      have hne : key ≠ e.1 := fun h => hmem (h ▸ List.mem_map_of_mem he)
      simpa using hne
    simp [List.lookup_append, hnone]

theorem Meta.get_insert_of_ne (m : Meta) {key key' : String} (value : BoltValue)
    (hne : key' ≠ key) : (m.insert key value).get key' = m.get key' := by
  have hkey : (key' == key) = false := by simpa using hne
  unfold Meta.insert Meta.get
  split
  case isTrue hmem =>
    clear hmem
    induction m with
    | nil => rfl
    | cons e m ih =>
      rw [List.map_cons, List.lookup_cons, List.lookup_cons, ih]
      by_cases he : e.1 = key
      · rw [if_pos he, he, hkey]
      · rw [if_neg he]
  case isFalse =>
    rw [List.lookup_append, List.lookup_cons, hkey]
    exact Option.or_none

namespace BoltValue

def asStr : BoltValue → Option String
  | string s => some s
  | _ => none

def asInt : BoltValue → Option Int64
  | int i => some i
  | _ => none

def asBool : BoltValue → Option Bool
  | bool b => some b
  | _ => none

def asMap : BoltValue → Option Meta
  | map m => some m
  | _ => none

def asList : BoltValue → Option (List BoltValue)
  | list l => some l
  | _ => none

def asStrings (v : BoltValue) : List String :=
  (v.asList.map fun l => l.filterMap asStr).getD []

mutual
def Forall (p : BoltValue → Prop) : BoltValue → Prop
  | list items => p (list items) ∧ ForallSeq p items
  | map entries => p (map entries) ∧ ForallEntries p entries
  | struct signature fields => p (struct signature fields) ∧ ForallSeq p fields
  | null => p null
  | bool b => p (bool b)
  | int i => p (int i)
  | float bits => p (float bits)
  | string s => p (string s)
  | bytes b => p (bytes b)

def ForallSeq (p : BoltValue → Prop) : List BoltValue → Prop
  | [] => True
  | v :: vs => Forall p v ∧ ForallSeq p vs

def ForallEntries (p : BoltValue → Prop) : List (String × BoltValue) → Prop
  | [] => True
  | (_, v) :: es => Forall p v ∧ ForallEntries p es
end

def NodeKeysDistinct : BoltValue → Prop
  | map entries => (entries.map Prod.fst).Nodup
  | _ => True

/-- Every map in the value has distinct keys: what `HashMap` guarantees. -/
def KeysDistinct (v : BoltValue) : Prop := v.Forall NodeKeysDistinct

end BoltValue

/-- The UTF-8 bytes of a string, `str::as_bytes`. -/
def utf8 (s : String) : List UInt8 := s.toUTF8.data.toList

def fromUtf8 (bs : List UInt8) : Option String := String.fromUTF8? ⟨bs.toArray⟩

theorem fromUtf8_utf8 (s : String) : fromUtf8 (utf8 s) = some s := by
  have h : (⟨(utf8 s).toArray⟩ : ByteArray) = s.toByteArray := by simp [utf8]
  rw [fromUtf8, h, String.fromUTF8?, dif_pos s.isValidUTF8]
  rfl

theorem utf8_of_fromUtf8 {bs : List UInt8} {s : String} (h : fromUtf8 bs = some s) :
    utf8 s = bs := by
  unfold fromUtf8 String.fromUTF8? at h
  split_ifs at h with hv
  cases h
  rfl

inductive Response
  /-- SUCCESS carries a metadata map. -/
  | success (metadata : Meta)
  /-- RECORD carries one row's values. -/
  | record (values : List BoltValue)
  | failure (code message : String)
  /-- The server skipped the request. -/
  | ignored
  deriving Repr, Inhabited

/-- The `std::io::ErrorKind`s that `is_transient` tells apart. -/
inductive ErrorKind
  | invalidInput | invalidData | permissionDenied | unsupported | other
  deriving Repr, DecidableEq

/-- The messages of `BoltError::Protocol`, with the data that their texts interpolate. -/
inductive ProtocolError
  /-- "{label} too large to pack ({size})" -/
  | tooLarge (label : String) (size : ℕ)
  /-- "unexpected end of stream: need {n} bytes at {at}, have {have}" -/
  | unexpectedEnd (need pos left : ℕ)
  | invalidSizeWidth
  /-- "unknown PackStream marker: 0x{marker:02x}" -/
  | unknownMarker (marker : UInt8)
  | invalidUtf8
  /-- "map key not a string: {other:?}" -/
  | mapKeyNotString (other : BoltValue)
  /-- "message exceeds 64MiB limit" -/
  | messageTooLong
  /-- "message body is not a structure" -/
  | notAStructure
  /-- "unknown message signature 0x{signature:02x}" -/
  | unknownSignature (signature : UInt8)
  /-- "unexpected {ctx} response: {other:?}" -/
  | unexpectedResponse (ctx : String) (other : Response)
  /-- "{ctx} ignored by server" -/
  | ignoredByServer (ctx : String)
  /-- "an earlier statement did not finish (cancelled, or its stream dropped); tx aborted" -/
  | statementUnfinished
  /-- "transaction already closed" -/
  | transactionClosed
  /-- "invalid batch size {batch}; use -1 or >= 1" -/
  | invalidBatch (batch : Int64)
  /-- "ROUTE response missing rt map" -/
  | missingRt
  /-- "ROUTE response missing servers" -/
  | missingServers
  deriving Repr

inductive BoltError
  | io (kind : ErrorKind)
  | protocol (message : ProtocolError)
  | closed (message : String)
  | version (agreed supported : String)
  | failure (code message : String)
  | tls (message : String)
  | timeout (what : String)
  deriving Repr

def containsText (code pattern : String) : Bool := decide (pattern.toList <:+: code.toList)

def BoltError.isTransient : BoltError → Bool
  | .io kind => kind != .invalidInput && kind != .invalidData && kind != .permissionDenied
      && kind != .unsupported
  | .closed _ | .timeout _ => true
  | .failure code _ => containsText code "TransientError"
  | .protocol _ | .version _ _ => false
  | .tls _ => false

theorem except_bind_eq_ok {ε α β : Type} {x : Except ε α} {f : α → Except ε β} {b : β}
    (h : x >>= f = .ok b) : ∃ a, x = .ok a ∧ f a = .ok b := by
  cases x with
  | error e => cases h
  | ok a => exact ⟨a, rfl, h⟩

theorem mapError_eq_ok {ε ε' α : Type} {x : Except ε α} {f : ε → ε'} {a : α}
    (h : x.mapError f = .ok a) : x = .ok a := by
  cases x with
  | error e => cases h
  | ok a => cases h; rfl

end Boltwire
