import Boltwire.Acquire
import Boltwire.Connects

namespace Boltwire
open Future Server BoltConnection

namespace Setup
variable (negotiate : List UInt8 → List UInt8) (peer : Peer)

def routeVia (db : Option String) (dialled : Except BoltError Unit) (auth : Option Auth)
    (passed : Bool) : Op RoutingTable := do
  connect negotiate peer dialled auth passed
  let table ← onConn (route peer [] db)
  let _ ← Future.attempt (onConn (close peer))
  return table

end Setup

/-- The server takes part up to LOGON, and answers ROUTE with a SUCCESS. -/
structure Listener.Routes (L : Listener) (auth : Option Auth) (db : Option String)
    (metadata : Meta) : Prop where
  agreed : L.Agreed
  answers : ∃ b₁ b₂ b₃ m₁ m₂, Packed greetingRequest b₁ ∧
    Packed (.logon auth) b₂ ∧
    Packed (Request.route [] db) b₃ ∧ (L.answer [] b₁).summary = .success m₁ ∧
    (L.answer [b₁] b₂).summary = .success m₂ ∧
    (L.answer [b₁, b₂] b₃).summary = .success metadata

/-- Its SUCCESS for ROUTE is this table. -/
def Listener.Gives (L : Listener) (auth : Option Auth) (db : Option String)
    (table : RoutingTable) : Prop :=
  ∃ metadata, L.Routes auth db metadata ∧ RoutingTable.fromMeta metadata = .ok table

namespace BoltConnection
variable {S : Server} {c : BoltConnection} {more : ℕ}

theorem ensureClean_ready (h : Live S c []) (hn : c.needsReset = false) :
    ensureClean S.peer c = (.ok (), c) := by
  have hp : c.pending = 0 := h.owed
  simp [ensureClean, checkIntact, Future.get, bind, h.intact, hn, hp, pure]

/-- ROUTE on a connection that is ready. -/
theorem post_route_ready (h : Live S c []) (hn : c.needsReset = false) (context : Meta)
    (db : Option String) : wp (route S.peer context db)
      (post (fun table _ => ∃ b m, Packed (Request.route context db) b ∧
        (S.answer c.log b).summary = .success m ∧ RoutingTable.fromMeta m = .ok table)
        fun _ _ => True) c := by
  rw [route, Future.wp_bind, Future.wp, ensureClean_ready h hn, andThen, Future.wp_bind,
    setNeedsReset, Future.wp_modify, andThen]
  refine post_request (.inr h.armed) (plain_route _ _) (show ROUTE ≠ PULL by decide)
    (show ROUTE ≠ DISCARD by decide) (fun _ _ _ => trivial) ?_
  intro r b c' ha
  cases r with
  | success m =>
    rw [Future.wp_bind, setNeedsReset, Future.wp_modify, andThen]
    cases ht : RoutingTable.fromMeta m with
    | ok table => exact ⟨b, m, ha.packed, ha.summary, ht⟩
    | error e => trivial
  | failure code message => exact post_mono ha.surface (fun _ _ h => h) fun _ _ _ => trivial
  | record v => trivial
  | ignored => trivial

/-- With the awaits for it, a SUCCESS with a table is returned. -/
theorem prompt_route (h : Live S c []) (hn : c.needsReset = false) {context : Meta}
    {db : Option String} {b : Body} {m : Meta} {table : RoutingTable}
    (hb : Packed (Request.route context db) b) (hm : (S.answer c.log b).summary = .success m)
    (ht : RoutingTable.fromMeta m = .ok table)
    (hp : Prompt (2 + (S.peer c.log b).length + more) c) :
    wp (route S.peer context db)
      (post (fun table' c' => table' = table ∧ Live S c' [] ∧ c'.log = c.log ++ [b] ∧
        Prompt more c')
        TooLong) c := by
  rw [route, Future.wp_bind, Future.wp, ensureClean_ready h hn, andThen, Future.wp_bind,
    setNeedsReset, Future.wp_modify, andThen]
  have hprompt : Prompt (2 + (S.peer c.log b).length + more) c.armed := ⟨hp.ready, hp.enough⟩
  refine post_bind (post_mono (post_and
    (post_send (.inr h.armed) (by simpa using plain_route context db))
    (prompt_send h.armed hb hprompt)) (fun _ _ h => h) fun _ _ h => h.2.elim) ?_
  rintro _ c₁ ⟨⟨bodies, hs⟩, hp₁⟩
  obtain ⟨b', hb', rfl⟩ := packed_one hs.packed
  cases Except.ok.inj (hb'.symm.trans hb)
  have hlive := hs.live
  rw [List.nil_append, replies_singleton,
    responses_of_signature (hb.signature (plain_route _ _).2) (show ROUTE ≠ PULL by decide)
      (show ROUTE ≠ DISCARD by decide), armed_log, hm] at hlive
  refine post_bind
    (post_mono (post_and (post_receive (.inr hlive)) (prompt_readMessage hlive hp₁))
    (fun _ _ h => h) fun _ _ h => h.2) ?_
  rintro _ c₂ ⟨⟨rfl, hg, -⟩, hp₂⟩
  rw [Future.wp_bind, setNeedsReset, Future.wp_modify, andThen, ht]
  exact ⟨rfl, hg.live.congr rfl rfl rfl rfl, hg.log.trans hs.log, hp₂.ready, hp₂.enough⟩

/-- GOODBYE goes out and the socket is closed. -/
theorem prompt_close (h : Live S c []) {b : Body} (hb : Packed Request.goodbye b)
    (hp : Prompt (2 + (S.peer c.log b).length + 1) c) :
    wp (close S.peer) (post (fun _ _ => True) fun _ _ => False) c := by
  rw [close, Future.wp_bind, Future.wp_get, andThen, h.intact]
  refine post_bind (prompt_send h hb hp) ?_
  intro _ c₁ hp₁
  have henough := hp₁.enough
  obtain ⟨i, sched, hs, -⟩ := hp₁.ready.eq_cons (by omega)
  have hflush : flush c₁ = (.ok (), { c₁ with stream := { c₁.stream with sched } }) := by
    simp [flush, hs]
  have hend : wp flush (post (fun _ _ => True) fun _ _ => False) c₁ := by
    rw [Future.wp, hflush]
    trivial
  exact hend

end BoltConnection

namespace Setup
variable {L : Listener} {auth : Option Auth} {db : Option String}

theorem post_routeVia (L : Listener) (auth : Option Auth) (db : Option String)
    (dialled : Except BoltError Unit) (passed : Bool) (sched : List Choice) :
    wp (routeVia L.negotiate L.peer db dialled auth passed)
      (post (fun table _ => L.Gives auth db table) fun _ _ => True) (opened sched) := by
  have hconnect : wp (connect L.negotiate L.peer dialled auth passed)
      (post (fun _ s => Established L auth s) fun _ _ => True) (opened sched) := by
    refine wp_mono (wp_connect L dialled auth passed sched) ?_
    rintro (_ | e | _) s h
    · exact h.2.2 rfl
    · trivial
    · trivial
  refine post_bind hconnect ?_
  intro _ s₁ he
  rw [onConn]
  refine post_zoom (post_mono (post_route_ready he.live he.needsReset [] db) (fun _ _ h => h)
    fun _ _ h => h) ?_
  rintro table c ⟨b₃, m₃, hb₃, hm₃, ht⟩
  obtain ⟨b₁, b₂, m₁, m₂, hb₁, hb₂, hlog, hm₁, hm₂, -⟩ := he.requests
  rw [hlog] at hm₃
  have hgives : L.Gives auth db table :=
    ⟨m₃, ⟨he.agreed, b₁, b₂, b₃, m₁, m₂, hb₁, hb₂, hb₃, hm₁, hm₂,
      hm₃⟩, ht⟩
  -- however GOODBYE goes, the table is returned
  refine post_bind (post_attempt (P := fun _ => True) (fun _ => trivial) fun _ => trivial) ?_
  intro _ _ _
  exact hgives

theorem prompt_connect (auth : Option Auth) (passed : Bool) {sched : List Choice} {b₁ b₂ : Body}
    {m₁ m₂ : Meta} (hready : AllReady sched) (henough : 2 + (L.negotiate clientHello).length +
      (2 + (L.peer [] b₁).length + (2 + (L.peer [b₁] b₂).length + more)) ≤ sched.length)
    (hb₁ : Packed greetingRequest b₁) (hb₂ : Packed (.logon auth) b₂) (ha : L.Agreed)
    (hm₁ : (L.answer [] b₁).summary = .success m₁)
    (hm₂ : (L.answer [b₁] b₂).summary = .success m₂) :
    wp (connect L.negotiate L.peer (.ok ()) auth passed)
      (post (fun _ s => Established L auth s ∧ Prompt more s.conn) fun e s => TooLong e s.conn)
      (opened sched) := by
  have hspec : wp (connect L.negotiate L.peer (.ok ()) auth passed)
      (post (fun _ s => Established L auth s) fun _ _ => True) (opened sched) := by
    refine wp_mono (wp_connect L (.ok ()) auth passed sched) ?_
    rintro (_ | e | _) s h
    · exact h.2.2 rfl
    · trivial
    · trivial
  have hprompt : wp (connect L.negotiate L.peer (.ok ()) auth passed)
      (post (fun _ s => Prompt more s.conn) fun e s => TooLong e s.conn) (opened sched) := by
    apply wp_deadline (prompt_establish auth hready henough hb₁ hb₂ ha hm₁ hm₂)
    rintro s' ⟨he, -⟩
    cases he
  exact post_mono (post_and hspec hprompt) (fun _ _ h => h) fun _ _ h => h.2

/-- With every await left to complete, a router's table is returned exactly if it gives it,
unless one of its answers is over the limit for a message. -/
theorem routeVia_iff_given (L : Listener) (auth : Option Auth) (db : Option String) (passed : Bool)
    {sched : List Choice} {b₁ b₂ b₃ b₄ : Body} (hb₁ : Packed greetingRequest b₁)
    (hb₂ : Packed (.logon auth) b₂) (hb₃ : Packed (Request.route [] db) b₃)
    (hb₄ : Packed Request.goodbye b₄) (hready : AllReady sched)
    (henough : 2 + (L.negotiate clientHello).length + (2 + (L.peer [] b₁).length +
      (2 + (L.peer [b₁] b₂).length + (2 + (L.peer [b₁, b₂] b₃).length +
        (2 + (L.peer [b₁, b₂, b₃] b₄).length + 1)))) ≤ sched.length)
    {o : Outcome BoltError RoutingTable} {s : Setup}
    (h : routeVia L.negotiate L.peer db (.ok ()) auth passed (opened sched) = (o, s))
    (hlimit : ¬ OverLimit s.conn) (table : RoutingTable) :
    o = .ok table ↔ L.Gives auth db table := by
  constructor
  · rintro rfl
    exact wp_of_eq (post_routeVia L auth db (.ok ()) passed sched) h
  · rintro ⟨m₃, ⟨ha, b₁', b₂', b₃', m₁, m₂, hb₁', hb₂', hb₃', hm₁, hm₂,
      hm₃⟩, ht⟩
    cases Except.ok.inj (hb₁'.symm.trans hb₁)
    cases Except.ok.inj (hb₂'.symm.trans hb₂)
    cases Except.ok.inj (hb₃'.symm.trans hb₃)
    suffices hend : wp (routeVia L.negotiate L.peer db (.ok ()) auth passed)
        (post (fun table' _ => table' = table) fun e s => TooLong e s.conn) (opened sched) by
      rcases post_elim (wp_of_eq hend h) with ⟨table', ho, rfl⟩ | ⟨-, htoo⟩
      · exact ho
      · exact absurd htoo.2 hlimit
    refine post_bind (prompt_connect auth passed hready henough hb₁ hb₂ ha hm₁ hm₂) ?_
    rintro _ s₁ ⟨he, hp₁⟩
    have hlog : s₁.conn.log = [b₁, b₂] := by
      obtain ⟨b₁', b₂', -, -, hb₁', hb₂', hlog, -⟩ := he.requests
      rw [hlog, Except.ok.inj (hb₁'.symm.trans hb₁), Except.ok.inj (hb₂'.symm.trans hb₂)]
    rw [← hlog] at hm₃ hp₁
    rw [onConn]
    refine post_zoom (post_mono (prompt_route he.live he.needsReset hb₃ hm₃ ht hp₁)
      (fun _ _ h => h) fun _ _ h => h) ?_
    rintro table' c ⟨rfl, hlive, hlog', hp₂⟩
    rw [hlog, List.cons_append, List.cons_append, List.nil_append] at hlog'
    rw [← hlog'] at hp₂
    have hclose := prompt_close hlive hb₄ hp₂
    refine post_bind (post_attempt (P := fun _ => True) (fun _ => trivial) ?_) ?_
    · rw [onConn, wp_zoom]
      refine wp_mono hclose ?_
      rintro (_ | e | _) c' hc' ho
      · cases ho
      · cases ho
      · exact hc'.elim
    · intro _ _ _
      rfl

end Setup

def soleEntry (role : String) : BoltValue :=
  .map [("role", .string role), ("addresses", .list [.string "a"])]

def soleMeta : Meta :=
  [("rt", .map [("ttl", .int 300),
    ("servers", .list [soleEntry "ROUTE", soleEntry "READ", soleEntry "WRITE"])])]

theorem packable_soleMeta : (Response.success soleMeta).Packable := by
  have hsized :
      ∀ text ∈ ["rt", "ttl", "servers", "role", "addresses", "a", "ROUTE", "READ", "WRITE"],
      (utf8 text).length < 4294967296 := by
    decide
  simp only [List.forall_mem_cons] at hsized
  simp [Response.Packable, Response.value, BoltValue.KeysDistinct, BoltValue.Sized,
    BoltValue.Forall, BoltValue.ForallSeq, BoltValue.ForallEntries, BoltValue.NodeKeysDistinct,
    BoltValue.NodeSized, soleMeta, soleEntry, hsized]

def routing : Server where
  peer _ body := if signature body = GOODBYE then []
    else (Response.success (if signature body = ROUTE then soleMeta else [])).bytes
  answer _ body := ⟨[], .success (if signature body = ROUTE then soleMeta else [])⟩
  isSummary _ _ := rfl
  records _ _ _ _ := rfl
  wire _ body h := by
    rw [if_neg h, ← List.append_nil (Response.bytes _)]
    apply Response.Packable.carries _ (.nil rfl)
    split_ifs
    · exact packable_soleMeta
    · exact Response.packable_success

def routingListener : Listener :=
  { routing with negotiate := obligingListener.negotiate, quiet := obligingListener.quiet }

namespace Setup

def asksSole : Outcome BoltError RoutingTable × Setup :=
  routeVia routingListener.negotiate routingListener.peer none (.ok ())
    (some (Auth.basic "neo4j" "secret")) false (opened (List.replicate 500 (.ready 1000)))

def readersOf : Outcome BoltError RoutingTable → Option (List String)
  | .ok table => some table.readers
  | _ => none

theorem routeVia_iff_given_sole : ∃ table : RoutingTable, table.readers = ["a"] ∧
    routingListener.Gives (some (Auth.basic "neo4j" "secret")) none table := by
  have hready : AllReady (List.replicate 500 (.ready 1000)) := by
    intro choice hc
    exact ⟨1000, List.eq_of_mem_replicate hc⟩
  have hpacked : ∀ req : Request, (PackStream.pack req.value []).toBool = true →
      ∃ b, Packed req b := by
    intro req h
    cases hp : PackStream.pack req.value [] with
    | ok b => exact ⟨b, hp⟩
    | error e => rw [hp] at h; cases h
  obtain ⟨b₁, hb₁⟩ := hpacked greetingRequest (by decide +kernel)
  obtain ⟨b₂, hb₂⟩ := hpacked (.logon (some (Auth.basic "neo4j" "secret")))
    (by decide +kernel)
  obtain ⟨b₃, hb₃⟩ := hpacked (Request.route [] none) (by decide +kernel)
  obtain ⟨b₄, hb₄⟩ := hpacked Request.goodbye (by decide +kernel)
  have hpeer : ∀ before body, (routingListener.peer before body).length ≤ 110 := by
    intro before body
    have htable : (Response.success soleMeta).bytes.length ≤ 110 := by decide +kernel
    have hempty : (Response.success []).bytes.length ≤ 110 := by decide +kernel
    change (if signature body = GOODBYE then [] else
      (Response.success (if signature body = ROUTE then soleMeta else [])).bytes).length ≤ 110
    split_ifs
    · exact Nat.zero_le _
    · exact htable
    · exact hempty
  have hend : readersOf asksSole.1 = some ["a"] ∧ asksSole.2.conn.unread = [] := by decide +kernel
  cases hvia : asksSole with
  | mk o s =>
    rw [hvia] at hend
    cases o with
    | err e => cases hend.1
    | dropped => cases hend.1
    | ok table =>
      obtain ⟨hreaders, hunread⟩ := hend
      have hlimit : ¬ OverLimit s.conn := by
        rintro ⟨f, rest, hu, -⟩
        rw [hunread] at hu
        have hlen := congrArg List.length hu
        simp [Frame.core] at hlen
      have h₁ := hpeer [] b₁
      have h₂ := hpeer [b₁] b₂
      have h₃ := hpeer [b₁, b₂] b₃
      have h₄ := hpeer [b₁, b₂, b₃] b₄
      have hagreed : (routingListener.negotiate clientHello).length = 4 := rfl
      have hiff := routeVia_iff_given routingListener _ none false hb₁ hb₂ hb₃ hb₄ hready
        (by rw [List.length_replicate]; omega) hvia hlimit table
      exact ⟨table, Option.some.inj hreaders, hiff.mp rfl⟩

end Setup
end Boltwire
