import Boltwire.Value

namespace Boltwire

structure RoutingTable where
  ttlSeconds : Int64
  db : Option String
  routers : List String
  readers : List String
  writers : List String

namespace RoutingTable

def addServer (table : RoutingTable) (server : BoltValue) : RoutingTable :=
  let get := fun key => server.asMap.bind fun m => m.get key
  let role := ((get "role").bind BoltValue.asStr).getD ""
  let addresses := ((get "addresses").map BoltValue.asStrings).getD []
  if role = "ROUTE" then { table with routers := table.routers ++ addresses }
  else if role = "READ" then { table with readers := table.readers ++ addresses }
  else if role = "WRITE" then { table with writers := table.writers ++ addresses }
  else table

def fromMeta (metadata : Meta) : Except BoltError RoutingTable :=
  match (metadata.get "rt").bind BoltValue.asMap with
  | none => .error (.protocol .missingRt)
  | some rt =>
    let table : RoutingTable :=
      { ttlSeconds := ((rt.get "ttl").bind BoltValue.asInt).getD 0
        db := (rt.get "db").bind BoltValue.asStr
        routers := [], readers := [], writers := [] }
    match (rt.get "servers").bind BoltValue.asList with
    | none => .error (.protocol .missingServers)
    | some servers => .ok (servers.foldl addServer table)

def remove (table : RoutingTable) (addr : String) : RoutingTable :=
  { table with
    routers := table.routers.filter (· ≠ addr)
    readers := table.readers.filter (· ≠ addr)
    writers := table.writers.filter (· ≠ addr) }

/-- A malformed table is a protocol error. -/
theorem fromMeta_error {metadata : Meta} {e : BoltError} (h : fromMeta metadata = .error e) :
    ∃ message, e = .protocol message := by
  unfold fromMeta at h
  split at h
  · cases h
    exact ⟨_, rfl⟩
  · dsimp only at h
    split at h <;> cases h
    exact ⟨_, rfl⟩

/-- The addresses that an entry of the server list has under this role. -/
def listed (role : String) (server : BoltValue) : List String :=
  let get := fun key => server.asMap.bind fun m => m.get key
  if ((get "role").bind BoltValue.asStr).getD "" = role then
    ((get "addresses").map BoltValue.asStrings).getD []
  else []

theorem addServer_eq (table : RoutingTable) (server : BoltValue) :
    table.addServer server = { table with
      routers := table.routers ++ listed "ROUTE" server
      readers := table.readers ++ listed "READ" server
      writers := table.writers ++ listed "WRITE" server } := by
  unfold addServer listed
  dsimp only
  split_ifs with h₁ h₂ h₃ <;> simp_all

/-- Every role gets the addresses of its entries, in their order. -/
theorem foldl_addServer (servers : List BoltValue) (table : RoutingTable) :
    servers.foldl addServer table = { table with
      routers := table.routers ++ servers.flatMap (listed "ROUTE")
      readers := table.readers ++ servers.flatMap (listed "READ")
      writers := table.writers ++ servers.flatMap (listed "WRITE") } := by
  induction servers generalizing table with
  | nil => simp
  | cons server servers ih =>
    rw [List.foldl_cons, ih, addServer_eq]
    simp only [List.flatMap_cons, List.append_assoc]

def serverList (metadata : Meta) : Option (List BoltValue) :=
  ((metadata.get "rt").bind BoltValue.asMap).bind fun rt => (rt.get "servers").bind BoltValue.asList

theorem fromMeta_eq_ok {metadata : Meta} {table : RoutingTable}
    (h : fromMeta metadata = .ok table) : ∃ servers, serverList metadata = some servers ∧
      table.routers = servers.flatMap (listed "ROUTE") ∧
      table.readers = servers.flatMap (listed "READ") ∧
      table.writers = servers.flatMap (listed "WRITE") := by
  unfold fromMeta at h
  split at h
  case h_1 => cases h
  case h_2 rt hrt =>
    dsimp only at h
    split at h
    case h_1 => cases h
    case h_2 servers hservers =>
      cases h
      rw [foldl_addServer]
      refine ⟨servers, ?_, rfl, rfl, rfl⟩
      rw [serverList, hrt, Option.bind_some, hservers]

end RoutingTable
end Boltwire
