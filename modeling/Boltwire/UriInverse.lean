import Boltwire.Uri

namespace Boltwire
open Text

def Scheme.text : Scheme → String
  | .bolt => "bolt"
  | .boltS => "bolt+s"
  | .boltSsc => "bolt+ssc"
  | .neo4j => "neo4j"
  | .neo4jS => "neo4j+s"
  | .neo4jSsc => "neo4j+ssc"

theorem Scheme.parse_text (s : Scheme) : Scheme.parse s.text = .ok s := by
  cases s <;> rfl

theorem Scheme.colon_text (s : Scheme) : ':' ∉ s.text.toList := by
  cases s <;> decide

structure Userinfo where
  user : String
  pass : String
  user_plain : ':' ∉ user.toList ∧ '?' ∉ user.toList
  pass_plain : '?' ∉ pass.toList

inductive HostPart
  | bare (host : String) (hne : host ≠ "") (hhead : host.toList.head? ≠ some '[')
    (hplain : ':' ∉ host.toList ∧ '@' ∉ host.toList ∧ '?' ∉ host.toList)
  | bracketed (host : String) (hne : host ≠ "")
    (hplain : ']' ∉ host.toList ∧ '@' ∉ host.toList ∧ '?' ∉ host.toList)

namespace HostPart

def host : HostPart → String
  | bare host _ _ _ | bracketed host _ _ => host

def render : HostPart → String
  | bare host _ _ _ => host
  | bracketed host _ _ => "[" ++ host ++ "]"

theorem not_mem_render (h : HostPart) : '@' ∉ h.render.toList ∧ '?' ∉ h.render.toList := by
  cases h with
  | bare host hne hhead hplain => exact hplain.2
  | bracketed host hne hplain =>
    simp only [render, String.toList_append, List.mem_append, not_or]
    exact ⟨⟨⟨by decide, hplain.2.1⟩, by decide⟩,
      ⟨⟨by decide, hplain.2.2⟩, by decide⟩⟩

theorem splitHostPort_render (h : HostPart) (port : Option UInt16) :
    splitHostPort (h.render ++ portText port) = .ok (h.host, port) := by
  cases h with
  | bare host hne hhead hplain => exact splitHostPort_plain hne hplain.1 hhead port
  | bracketed host hne hplain =>
    have hassoc : "[" ++ host ++ "]" ++ portText port = "[" ++ (host ++ "]" ++ portText port) := by
      simp only [String.append_assoc]
    rw [render, hassoc]
    exact splitHostPort_bracketed hne hplain.1 port

end HostPart

/-- `scheme://[user:pass@]host[:port][?db=name]` -/
structure UriTemplate where
  scheme : Scheme
  userinfo : Option Userinfo
  host : HostPart
  port : Option UInt16
  db : Option {name : String // '&' ∉ name.toList}

namespace UriTemplate
variable (t : UriTemplate)

def hostport : String := t.host.render ++ portText t.port

def authority : String :=
  match t.userinfo with
  | some u => u.user ++ ":" ++ u.pass ++ "@" ++ t.hostport
  | none => t.hostport

def render : String :=
  match t.db with
  | some name => t.scheme.text ++ "://" ++ (t.authority ++ "?" ++ ("db=" ++ name.val))
  | none => t.scheme.text ++ "://" ++ t.authority

def config : Config where
  scheme := t.scheme
  host := t.host.host
  port := t.port.getD 7687
  auth := t.userinfo.map fun u => Auth.basic u.user u.pass
  db := t.db.map Subtype.val

theorem not_mem_hostport : '@' ∉ t.hostport.toList ∧ '?' ∉ t.hostport.toList := by
  obtain ⟨hat, hquery⟩ := t.host.not_mem_render
  simp only [hostport, String.toList_append, List.mem_append, not_or]
  exact ⟨⟨hat, not_mem_portText rfl (by decide) _⟩,
    ⟨hquery, not_mem_portText rfl (by decide) _⟩⟩

theorem not_mem_authority : '?' ∉ t.authority.toList := by
  unfold authority
  split
  case h_1 u _ =>
    simp only [String.toList_append, List.mem_append, not_or]
    exact ⟨⟨⟨⟨u.user_plain.2, by decide⟩, u.pass_plain⟩, by decide⟩,
      t.not_mem_hostport.2⟩
  case h_2 => exact t.not_mem_hostport.2

/-- The last `@` is the one after the password, whatever stands before it. -/
theorem splitUserinfo_authority : Config.splitUserinfo t.authority =
    .ok (t.userinfo.map (fun u => Auth.basic u.user u.pass), t.hostport) := by
  have hat := t.not_mem_hostport.1
  unfold authority
  split
  case h_1 u hu =>
    rw [Config.splitUserinfo, rsplitOnce_append rfl hat]
    dsimp only
    rw [splitOnce_append rfl u.user_plain.1, hu]
    rfl
  case h_2 hu =>
    rw [Config.splitUserinfo, rsplitOnce_of_not_mem rfl hat, hu]
    rfl

theorem dbName_append {name : String} (h : '&' ∉ name.toList) :
    Config.dbName ("db=" ++ name) = some name := by
  have hplain : '&' ∉ ("db=" ++ name).toList := by
    simp only [String.toList_append, List.mem_append, not_or]
    exact ⟨by decide, h⟩
  rw [Config.dbName, split_of_not_mem hplain, List.findSome?_singleton, stripPrefix_append]

/-- A URI made of its parts is taken apart into the same parts. -/
theorem fromUri_render : Config.fromUri t.render = .ok t.config := by
  have hscheme := t.scheme.colon_text
  have huser := t.splitUserinfo_authority
  have hhost := t.host.splitHostPort_render t.port
  apply Config.fromUri_eq_ok.mpr
  cases hdb : t.db with
  | none =>
    have hquery : Config.splitQuery t.authority = (t.authority, none) := by
      rw [Config.splitQuery, splitOnce_of_not_mem rfl t.not_mem_authority]
    refine ⟨t.scheme.text, t.authority, t.hostport, t.port, ?_, t.scheme.parse_text, ?_, hhost,
      rfl, ?_⟩
    · rw [render, hdb]
      exact splitOnce_append rfl hscheme
    · rw [hquery]
      exact huser
    · rw [hquery, config, hdb]
      rfl
  | some name =>
    have hquery : Config.splitQuery (t.authority ++ "?" ++ ("db=" ++ name.val)) =
        (t.authority, some ("db=" ++ name.val)) := by
      rw [Config.splitQuery, splitOnce_append rfl t.not_mem_authority]
    refine ⟨t.scheme.text, t.authority ++ "?" ++ ("db=" ++ name.val), t.hostport, t.port, ?_,
      t.scheme.parse_text, ?_, hhost, rfl, ?_⟩
    · rw [render, hdb]
      exact splitOnce_append rfl hscheme
    · rw [hquery]
      exact huser
    · rw [hquery, config, hdb]
      exact (dbName_append name.property).symm

/-- A ':' and an '@' in the password, and colons in the host. -/
def ipv6 : UriTemplate where
  scheme := .neo4jS
  userinfo := some ⟨"neo4j", "a:b@c", by decide, by decide⟩
  host := .bracketed "::1" (by decide) (by decide)
  port := some 7688
  db := some ⟨"people", by decide⟩

theorem fromUri_render_ipv6 :
    ipv6.render = "neo4j+s://neo4j:a:b@c@[::1]:7688?db=people" ∧
    (ipv6.config.host = "::1" ∧ ipv6.config.port = 7688 ∧ ipv6.config.db = some "people" ∧
      ipv6.config.auth = some (Auth.basic "neo4j" "a:b@c")) ∧
    Config.fromUri "neo4j+s://neo4j:a:b@c@[::1]:7688?db=people" = .ok ipv6.config := by
  have hrender : ipv6.render = "neo4j+s://neo4j:a:b@c@[::1]:7688?db=people" := by decide
  refine ⟨hrender, ⟨rfl, rfl, rfl, rfl⟩, ?_⟩
  rw [← hrender]
  exact fromUri_render ipv6

end UriTemplate

def hostSection (uri : String) : String :=
  let rest := (Config.splitQuery (((splitOnce uri "://").map Prod.snd).getD "")).1
  ((rsplitOnce rest "@").map Prod.snd).getD rest

/-- A bracketed host that starts with a bracket of its own and has no colon. -/
def DoubleBracket (uri : String) : Prop :=
  ∃ inner after, hostSection uri = "[" ++ ("[" ++ inner ++ "]" ++ after) ∧
    ':' ∉ inner.toList ∧ ']' ∉ inner.toList

/-- The address is split into the host and the port again, and dialled with the host as the
server name when it is the seed of the routed pool. -/
def Config.DialsBack (c : Config) : Prop :=
  splitHostPort c.addr = .ok (c.host, some c.port) ∧
    ∀ maxPerHost, ∀ seed ∈ (c.routedPool maxPerHost).inner.seeds,
      c.routedConnect seed = .ok ⟨c.scheme.tls, c.addr, c.host, c.auth⟩

theorem Config.dialsBack_iff {c : Config} :
    c.DialsBack ↔ splitHostPort c.addr = .ok (c.host, some c.port) := by
  constructor
  · intro h
    exact h.1
  · intro h
    refine ⟨h, ?_⟩
    intro n seed hseed
    rw [List.mem_singleton.mp hseed, routedConnect, h]

theorem splitHostPort_hostSection {uri : String} {c : Config} (h : Config.fromUri uri = .ok c) :
    ∃ port, splitHostPort (hostSection uri) = .ok (c.host, port) := by
  obtain ⟨scheme, rest, hostport, port, hcut, -, huser, hhost, -⟩ := Config.fromUri_eq_ok.mp h
  refine ⟨port, ?_⟩
  have hsection : hostSection uri = hostport := by
    simp only [hostSection, hcut, Option.map_some, Option.getD_some]
    unfold Config.splitUserinfo at huser
    split at huser
    case h_1 userinfo hp hcut =>
      split at huser
      · rw [hcut]
        exact (Prod.mk.inj (Except.ok.inj huser)).2
      · contradiction
    case h_2 hcut =>
      rw [hcut]
      exact (Prod.mk.inj (Except.ok.inj huser)).2
  rw [hsection, hhost]

/-- With a colon in the host the brackets are put back. -/
theorem addr_of_colon {c : Config} (h : ':' ∈ c.host.toList) :
    c.addr = "[" ++ (c.host ++ "]" ++ portText (some c.port)) := by
  rw [Config.addr, if_pos h, portText]
  simp only [String.append_assoc]
  rfl

theorem addr_of_no_colon {c : Config} (h : ':' ∉ c.host.toList) :
    c.addr = c.host ++ portText (some c.port) := by
  rw [Config.addr, if_neg h, portText, String.append_assoc]

theorem host_of_doubleBracket {inner after host : String} {port : Option UInt16}
    (hclose : ']' ∉ inner.toList)
    (h : splitHostPort ("[" ++ ("[" ++ inner ++ "]" ++ after)) = .ok (host, port)) :
    host = "[" ++ inner := by
  obtain ⟨-, ⟨after', heq, hhost⟩ | ⟨hhead, -⟩⟩ := host_of_splitHostPort h
  · have heq' : "[" ++ inner ++ "]" ++ after = host ++ "]" ++ after' :=
      (String.append_right_inj _).mp heq
    have hinner : ']' ∉ ("[" ++ inner).toList := by
      rw [String.toList_append, List.mem_append, not_or]
      exact ⟨by decide, hclose⟩
    -- both sides are cut at the same first closing bracket
    have hcut : splitOnce ("[" ++ inner ++ "]" ++ after) "]" = some ("[" ++ inner, after) :=
      splitOnce_append rfl hinner
    rw [heq', splitOnce_append rfl hhost] at hcut
    cases hcut
    rfl
  · exact absurd (by rw [String.toList_append]; rfl) hhead

/-- A host with a bracket in front and no colon is written without its outer brackets, and its
own bracket is taken for one of them. -/
theorem splitHostPort_addr_unclosed {c : Config} {inner : String} (hhost : c.host = "[" ++ inner)
    (hcolon : ':' ∉ inner.toList) (hclose : ']' ∉ inner.toList) :
    splitHostPort c.addr = .error "unclosed IPv6 bracket" := by
  have hno : ':' ∉ c.host.toList := by
    rw [hhost, String.toList_append, List.mem_append, not_or]
    exact ⟨by decide, hcolon⟩
  have hrest : ']' ∉ (inner ++ portText (some c.port)).toList := by
    rw [String.toList_append, List.mem_append, not_or]
    exact ⟨hclose, not_mem_portText rfl (by decide) _⟩
  rw [addr_of_no_colon hno, hhost, String.append_assoc, splitHostPort_bracket, splitBracketed,
    splitOnce_of_not_mem rfl hrest]
  rfl

/-- The address of an accepted URI is split back into its host and port, and dialled under the
host as the server name, exactly if the host is no bracket in brackets without a colon. -/
theorem dialsBack_iff_not_doubleBracket {uri : String} {c : Config}
    (h : Config.fromUri uri = .ok c) : c.DialsBack ↔ ¬ DoubleBracket uri := by
  obtain ⟨port, hsplit⟩ := splitHostPort_hostSection h
  rw [Config.dialsBack_iff]
  constructor
  · rintro hback ⟨inner, after, hsection, hcolon, hclose⟩
    rw [hsection] at hsplit
    have hhost := host_of_doubleBracket hclose hsplit
    rw [splitHostPort_addr_unclosed hhost hcolon hclose] at hback
    contradiction
  · intro hdouble
    obtain ⟨hne, hform⟩ := host_of_splitHostPort hsplit
    by_cases hcolon : ':' ∈ c.host.toList
    · have hclose : ']' ∉ c.host.toList := by
        cases hform with
        | inl hbracket => exact hbracket.choose_spec.2
        | inr hplain => exact absurd hcolon hplain.2.2
      rw [addr_of_colon hcolon]
      exact splitHostPort_bracketed hne hclose _
    · have hhead : c.host.toList.head? ≠ some '[' := by
        intro hhead
        cases hform with
        | inr hplain => exact hplain.2.1 hhead
        | inl hbracket =>
          obtain ⟨after, hsection, hclose⟩ := hbracket
          obtain ⟨inner, hinner⟩ := eq_append_of_head hhead
          rw [hinner] at hsection hclose hcolon
          rw [String.toList_append, List.mem_append, not_or] at hclose hcolon
          exact hdouble ⟨inner, after, hsection, hcolon.2, hclose.2⟩
      rw [addr_of_no_colon hcolon]
      exact splitHostPort_plain hne hcolon hhead _

theorem dialsBack_ipv6 : ∃ c, Config.fromUri "neo4j+ssc://[fe80::1]:9999" = .ok c ∧
    c.DialsBack := by
  refine ⟨⟨.neo4jSsc, "fe80::1", 9999, none, none⟩, by decide, ?_⟩
  apply (dialsBack_iff_not_doubleBracket (by decide : Config.fromUri
    "neo4j+ssc://[fe80::1]:9999" = .ok _)).mpr
  rintro ⟨inner, after, hsection, -⟩
  have hfirst := congrArg (fun s => s.toList[1]?) hsection
  have hhost : hostSection "neo4j+ssc://[fe80::1]:9999" = "[fe80::1]:9999" := by decide
  simp only [hhost, String.toList_append] at hfirst
  have hsecond : some 'f' = some '[' := hfirst
  contradiction

/-- The seed `[a:7687` that the routed pool hands on is refused as an address. -/
theorem seed_refused : ∃ c, Config.fromUri "neo4j://[[a]" = .ok c ∧
    c.routedConnect c.addr = .error (.invalidServer "[a:7687" "unclosed IPv6 bracket") ∧
    ¬ c.DialsBack := by
  refine ⟨⟨.neo4j, "[a", 7687, none, none⟩, by decide, by decide, ?_⟩
  intro h
  have hsplit := h.1
  contradiction

end Boltwire
