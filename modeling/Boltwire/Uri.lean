import Boltwire.Lib.Text
import Boltwire.RoutedPool

namespace Boltwire
open Text

inductive Scheme
  | bolt | boltS | boltSsc | neo4j | neo4jS | neo4jSsc
  deriving Repr, DecidableEq

inductive Tls
  | off | strict | acceptInvalid
  deriving Repr, DecidableEq

structure Auth where
  principal : String
  credentials : String
  deriving Repr, DecidableEq

def Auth.basic (principal credentials : String) : Auth := ⟨principal, credentials⟩

inductive ConfigError
  /-- `"invalid URI: {m}"` -/
  | invalidUri (m : String)
  /-- `"unknown URI scheme: {other}"` -/
  | unknownScheme (other : String)
  /-- `"neo4j:// schemes are routed; use Config::routed_pool"` -/
  | routed
  /-- `"invalid server address {server:?}: {m}"` -/
  | invalidServer (server m : String)
  deriving Repr, DecidableEq

namespace Scheme

def parse (s : String) : Except ConfigError Scheme :=
  match s with
  | "bolt" => .ok .bolt
  | "bolt+s" => .ok .boltS
  | "bolt+ssc" => .ok .boltSsc
  | "neo4j" => .ok .neo4j
  | "neo4j+s" => .ok .neo4jS
  | "neo4j+ssc" => .ok .neo4jSsc
  | other => .error (.unknownScheme other)

def routed : Scheme → Bool
  | .neo4j | .neo4jS | .neo4jSsc => true
  | _ => false

def tls : Scheme → Tls
  | .bolt | .neo4j => .off
  | .boltS | .neo4jS => .strict
  | .boltSsc | .neo4jSsc => .acceptInvalid

end Scheme

structure Config where
  scheme : Scheme
  host : String
  port : UInt16
  auth : Option Auth
  db : Option String
  deriving Repr, DecidableEq

def parsePort (p : String) : Except String UInt16 :=
  match parseUnsigned 65535 p with
  | some n => .ok (UInt16.ofNat n)
  | none => .error "bad port"

def splitBracketed (rest : String) : Except String (String × Option UInt16) :=
  match splitOnce rest "]" with
  | none => .error "unclosed IPv6 bracket"
  | some (host, after) =>
    match stripPrefix after ":" with
    | some p => (parsePort p).map fun port => (host, some port)
    | none => if after = "" then .ok (host, none) else .error "junk after IPv6 host"

def splitPlain (hostport : String) : Except String (String × Option UInt16) :=
  match splitOnce hostport ":" with
  | some (host, p) =>
    if ':' ∈ p.toList then .error "IPv6 hosts need [brackets]"
    else (parsePort p).map fun port => (host, some port)
  | none => .ok (hostport, none)

def splitHostPort (hostport : String) : Except String (String × Option UInt16) := do
  let (host, port) ← match stripPrefix hostport "[" with
    | some rest => splitBracketed rest
    | none => splitPlain hostport
  if host = "" then .error "empty host" else .ok (host, port)

namespace Config

def splitQuery (rest : String) : String × Option String :=
  match splitOnce rest "?" with
  | some (r, q) => (r, some q)
  | none => (rest, none)

def splitUserinfo (rest : String) : Except ConfigError (Option Auth × String) :=
  match rsplitOnce rest "@" with
  | some (userinfo, hp) =>
    match splitOnce userinfo ":" with
    | some (user, pass) => .ok (some (Auth.basic user pass), hp)
    | none => .error (.invalidUri "userinfo needs user:pass")
  | none => .ok (none, rest)

/-- The first `db=` of a query. -/
def dbName (query : String) : Option String := (split query '&').findSome? (stripPrefix · "db=")

/-- Parse `scheme://[user:pass@]host[:port][?db=name]`. -/
def fromUri (uri : String) : Except ConfigError Config :=
  match splitOnce uri "://" with
  | none => .error (.invalidUri "missing ://")
  | some (scheme, rest) => do
    let scheme ← Scheme.parse scheme
    let (rest, query) := splitQuery rest
    let (auth, hostport) ← splitUserinfo rest
    let (host, port) ← (splitHostPort hostport).mapError ConfigError.invalidUri
    .ok { scheme, host, port := port.getD 7687, auth, db := query.bind dbName }

def addr (c : Config) : String :=
  if ':' ∈ c.host.toList then "[" ++ c.host ++ "]:" ++ toString c.port.toNat
  else c.host ++ ":" ++ toString c.port.toNat

/-- The arguments of a `dial`; `host` is the TLS server name. -/
structure Dial where
  tls : Tls
  addr : String
  host : String
  auth : Option Auth
  deriving Repr, DecidableEq

def connect (c : Config) : Except ConfigError Dial :=
  if c.scheme.routed then .error .routed else .ok ⟨c.scheme.tls, c.addr, c.host, c.auth⟩

/-- What the closure that `routed_pool` passes on dials for the address of a server. -/
def routedConnect (c : Config) (server : String) : Except ConfigError Dial :=
  match splitHostPort server with
  | .ok (host, _) => .ok ⟨c.scheme.tls, server, host, c.auth⟩
  | .error m => .error (.invalidServer server m)

def routedPool (c : Config) (maxPerHost : ℕ) : RoutedPool := .new [c.addr] maxPerHost

end Config

/-- How the parts of an accepted URI are found. -/
theorem Config.fromUri_eq_ok {uri : String} {c : Config} : Config.fromUri uri = .ok c ↔
    ∃ scheme rest hostport port, splitOnce uri "://" = some (scheme, rest) ∧
      Scheme.parse scheme = .ok c.scheme ∧
      splitUserinfo (splitQuery rest).1 = .ok (c.auth, hostport) ∧
      splitHostPort hostport = .ok (c.host, port) ∧ c.port = port.getD 7687 ∧
      c.db = (splitQuery rest).2.bind dbName := by
  constructor
  · intro h
    unfold fromUri at h
    split at h
    case h_1 => contradiction
    case h_2 scheme rest hcut =>
      obtain ⟨s, hs, h⟩ := except_bind_eq_ok h
      obtain ⟨au, hu, h⟩ := except_bind_eq_ok h
      obtain ⟨hp, hhp, h⟩ := except_bind_eq_ok h
      cases h
      exact ⟨scheme, rest, au.2, hp.2, hcut, hs, hu, mapError_eq_ok hhp, rfl, rfl⟩
  · rintro ⟨scheme, rest, hostport, port, hcut, hs, hu, hhp, hport, hdb⟩
    rw [fromUri, hcut]
    change Scheme.parse scheme >>= _ = _
    rw [hs]
    change splitUserinfo (splitQuery rest).1 >>= _ = _
    rw [hu]
    change (splitHostPort hostport).mapError _ >>= _ = _
    rw [hhp]
    change Except.ok (Config.mk c.scheme c.host (port.getD 7687) c.auth
      ((splitQuery rest).2.bind dbName)) = _
    rw [← hport, ← hdb]

def portText : Option UInt16 → String
  | some port => ":" ++ toString port.toNat
  | none => ""

theorem parsePort_toString (port : UInt16) : parsePort (toString port.toNat) = .ok port := by
  have hle : port.toNat ≤ 65535 := Nat.le_of_lt_succ port.toNat_lt
  rw [parsePort, parseUnsigned_toString hle]
  exact congrArg Except.ok UInt16.ofNat_toNat

theorem not_mem_toString {c : Char} (hc : c.isDigit = false) (n : ℕ) :
    c ∉ (toString n).toList := by
  intro h
  rw [isDigit_of_mem_toString h] at hc
  contradiction

theorem not_mem_portText {c : Char} (hc : c.isDigit = false) (hne : c ≠ ':')
    (port : Option UInt16) : c ∉ (portText port).toList := by
  cases port with
  | none => simp [portText]
  | some port =>
    rw [portText, String.toList_append, List.mem_append, not_or]
    exact ⟨by simpa using hne, not_mem_toString hc _⟩

theorem head_append {a b : String} (ha : a ≠ "") : (a ++ b).toList.head? = a.toList.head? := by
  rw [String.toList_append]
  cases h : a.toList with
  | nil => exact absurd (String.toList_eq_nil_iff.mp h) ha
  | cons c l => rfl

theorem splitHostPort_bracket (rest : String) : splitHostPort ("[" ++ rest) =
    splitBracketed rest >>= fun r => if r.1 = "" then .error "empty host" else .ok r := by
  rw [splitHostPort, stripPrefix_append]

theorem splitHostPort_no_bracket {hostport : String} (h : hostport.toList.head? ≠ some '[') :
    splitHostPort hostport = splitPlain hostport >>= fun r =>
      if r.1 = "" then .error "empty host" else .ok r := by
  rw [splitHostPort, stripPrefix_eq_none rfl h]

theorem splitHostPort_plain {host : String} (hne : host ≠ "") (hcolon : ':' ∉ host.toList)
    (hbracket : host.toList.head? ≠ some '[') (port : Option UInt16) :
    splitHostPort (host ++ portText port) = .ok (host, port) := by
  have hsplit : splitPlain (host ++ portText port) = .ok (host, port) := by
    cases port with
    | none => rw [portText, String.append_empty, splitPlain, splitOnce_of_not_mem rfl hcolon]
    | some port =>
      rw [portText, ← String.append_assoc, splitPlain, splitOnce_append rfl hcolon]
      dsimp only
      rw [if_neg (not_mem_toString rfl _), parsePort_toString]
      rfl
  rw [splitHostPort_no_bracket (by rwa [head_append hne]), hsplit]
  exact if_neg hne

theorem splitHostPort_bracketed {host : String} (hne : host ≠ "") (hclose : ']' ∉ host.toList)
    (port : Option UInt16) :
    splitHostPort ("[" ++ (host ++ "]" ++ portText port)) = .ok (host, port) := by
  have hsplit : splitBracketed (host ++ "]" ++ portText port) = .ok (host, port) := by
    rw [splitBracketed, splitOnce_append rfl hclose]
    cases port with
    | none => rfl
    | some port =>
      dsimp only
      rw [portText, stripPrefix_append]
      dsimp only
      rw [parsePort_toString]
      rfl
  rw [splitHostPort_bracket, hsplit]
  exact if_neg hne

theorem eq_append_of_head {s : String} (h : s.toList.head? = some '[') :
    ∃ rest, s = "[" ++ rest := by
  obtain ⟨l, hl⟩ := List.head?_eq_some_iff.mp h
  refine ⟨String.ofList l, String.toList_inj.mp ?_⟩
  simp [hl]

theorem host_of_parsePort {p host host' : String} {port : Option UInt16}
    (h : (parsePort p).map (fun port => (host', some port)) = .ok (host, port)) :
    host' = host := by
  cases hp : parsePort p with
  | error m =>
    rw [hp] at h
    contradiction
  | ok n =>
    rw [hp] at h
    cases h
    rfl

/-- A host that has been split off was bracketed, or has neither a bracket in front nor a colon. -/
theorem host_of_splitHostPort {hostport host : String} {port : Option UInt16}
    (h : splitHostPort hostport = .ok (host, port)) : host ≠ "" ∧
      ((∃ after, hostport = "[" ++ (host ++ "]" ++ after) ∧ ']' ∉ host.toList) ∨
        hostport.toList.head? ≠ some '[' ∧ host.toList.head? ≠ some '[' ∧
          ':' ∉ host.toList) := by
  have hok : ∀ {x : Except String (String × Option UInt16)},
      (x >>= fun r => if r.1 = "" then .error "empty host" else .ok r) = .ok (host, port) →
        host ≠ "" ∧ x = .ok (host, port) := by
    intro x hx
    cases x with
    | error m => contradiction
    | ok r =>
      change (if r.1 = "" then Except.error "empty host" else .ok r) = _ at hx
      split_ifs at hx with hr
      cases hx
      exact ⟨hr, rfl⟩
  by_cases hhead : hostport.toList.head? = some '['
  · obtain ⟨rest, rfl⟩ := eq_append_of_head hhead
    rw [splitHostPort_bracket] at h
    obtain ⟨hne, hsplit⟩ := hok h
    rw [splitBracketed] at hsplit
    split at hsplit
    · contradiction
    case h_2 host' after hcut =>
      obtain ⟨hclose, hrest⟩ := not_mem_of_splitOnce (c := ']') rfl hcut
      have hhost : host' = host := by
        split at hsplit
        · exact host_of_parsePort hsplit
        · split_ifs at hsplit
          cases hsplit
          rfl
      subst hhost
      exact ⟨hne, .inl ⟨after, by rw [hrest], hclose⟩⟩
  · rw [splitHostPort_no_bracket hhead] at h
    obtain ⟨hne, hsplit⟩ := hok h
    refine ⟨hne, .inr ⟨hhead, ?_⟩⟩
    rw [splitPlain] at hsplit
    split at hsplit
    case h_1 host' p hcut =>
      obtain ⟨hcolon, hrest⟩ := not_mem_of_splitOnce (c := ':') rfl hcut
      split_ifs at hsplit
      have hhost := host_of_parsePort hsplit
      subst hhost
      rw [hrest, String.append_assoc, head_append hne] at hhead
      exact ⟨hhead, hcolon⟩
    case h_2 hcut =>
      cases hsplit
      exact ⟨hhead, not_mem_of_splitOnce_none rfl hcut⟩

end Boltwire
