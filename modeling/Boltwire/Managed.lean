import Boltwire.Execute
import Boltwire.Handover
import Boltwire.Statements

namespace Boltwire
open Transition Execute

/-- The connection of an attempt. -/
structure Session where
  server : Server
  client : Client
  /-- Ghost: what the server had received when the connection was handed out. -/
  before : List Body
  /-- Ghost: what the work returned, once it has. -/
  worked : Option (Except BoltError Unit)

namespace Session

/-- What the server has received since. -/
def sent (s : Session) : List Body := s.client.conn.log.drop s.before.length

/-- One more if the request is a COMMIT that is answered with SUCCESS. -/
def countApplied (S : Server) (n : ℕ) (before : List Body) (body : Body) : ℕ :=
  if signature body = COMMIT then
    match (S.answer before body).summary with
    | .success _ => n + 1
    | _ => n
  else n

def applied (s : Session) : ℕ := follow (countApplied s.server) 0 s.before s.sent

end Session

structure Execution where
  mode : AccessMode
  attempt : ℕ
  task : Execute.Task
  /-- The connections of its attempts, the latest first; those before are ghosts. -/
  sessions : List Session

namespace Execution

def goto (e : Execution) (task : Execute.Task) : Execution := { e with task }

def exec (call : Boltwire.Call) (sched : List Choice) (e : Execution) :
    Option (Outcome BoltError Reply × Execution) :=
  match e.sessions with
  | [] => none
  | session :: past =>
    (Client.exec session.server.peer call (session.client.withSched sched)).map fun r =>
      (r.1, { e with sessions := { session with client := r.2 } :: past })

/-- The work returns. Its streams are gone by then. -/
def finishWork (r : Except BoltError Unit) (e : Execution) : Option Execution :=
  match e.sessions with
  | [] => none
  | session :: past => match session.client with
    | .inTx _ _ => some { e with sessions := { session with worked := some r } :: past }
    | _ => none

end Execution

structure Managed where
  inner : Execute.Inner
  executions : List Execution

namespace Managed

inductive Move
  | acquired (r : Except BoltError (Server × BoltConnection))
  | read
  | begin (sched : List Choice)
  | call (call : Boltwire.Call) (sched : List Choice)
  | worked (r : Except BoltError Unit)
  | rollback (sched : List Choice)
  | commit (sched : List Choice)
  | merge
  | refreshed
  | backoff
  | cancel

section
-- whether the backoff has a delay after this attempt
variable (granted : ℕ → Bool)

/-- What `Execute.move` takes from outside, how BEGIN, the work, ROLLBACK and COMMIT end,
is what the connection of the attempt makes of them. The work makes any calls that a
borrowed transaction allows, and then returns whatever it likes. -/
def move (m : Move) (s : Inner) (e : Execution) : Option (Inner × Execution) :=
  match m, e.task with
  | .acquired (.ok (server, conn)), .acquiring =>
    some (s, { e with
      task := .reading
      sessions := ⟨server, .free conn, conn.log, none⟩ :: e.sessions })
  | .acquired (.error x), .acquiring => some (s, e.goto (failedWith x))
  | .read, .reading => some (s, e.goto (.beginning (s.options e.mode)))
  | .begin sched, .beginning opts => (e.exec (.beginWith opts) sched).map fun r =>
    (s, r.2.goto (match r.1 with
      | .ok _ => .working opts
      | .err x => failedWith x
      | .dropped => .cancelled))
  | .call call sched, .working _ =>
    if call.works then (e.exec call sched).map fun r => (s, r.2) else none
  | .worked (.ok ()), .working opts => (e.finishWork (.ok ())).map fun e =>
      (s, e.goto (.committing opts))
  | .worked (.error x), .working _ => (e.finishWork (.error x)).map fun e =>
      (s, e.goto (.rollingBack x))
  | .rollback sched, .rollingBack x => (e.exec .rollback sched).map fun r =>
    (s, r.2.goto (match r.1 with
      | .dropped => .cancelled
      | _ => failedWith x))
  | .commit sched, .committing opts => (e.exec .commit sched).bind fun r =>
    match r.1 with
    | .ok (.bookmark none) => some (s, r.2.goto (.returned none))
    | .ok (.bookmark (some bookmark)) =>
      some ({ s with commits := s.commits ++ [(bookmark, Request.begin opts.intoMeta)] },
        r.2.goto (.merging bookmark))
    | .ok _ => none
    | .err x => some (s, r.2.goto (failedWith x))
    | .dropped => some (s, r.2.goto .cancelled)
  | .merge, .merging bookmark =>
    some ({ s with bookmarks := mergeBookmark s.bookmarks bookmark },
      e.goto (.returned (some bookmark)))
  | .refreshed, .refreshing x => some (s, e.goto (.waiting x))
  | .backoff, .waiting x =>
    if granted e.attempt then some (s, { e with attempt := e.attempt + 1, task := .acquiring })
    else some (s, e.goto (.failed x))
  | .cancel, task => if task.pending then some (s, e.goto .cancelled) else none
  | _, _ => none

end

inductive Action
  | execute (mode : AccessMode)
  | move (i : ℕ) (m : Move)

def new (db : Option String) : Managed := ⟨⟨db, [], []⟩, []⟩

def step (granted : ℕ → Bool) : Action → Managed → Option Managed
  | .execute mode, s => some { s with executions :=
      s.executions ++ [⟨mode, 1, .acquiring, []⟩] }
  | .move i m, s => (onTask (move granted m) i s.inner s.executions).map fun r => ⟨r.1, r.2⟩

/-- The connections handed out are at rest. -/
def Handed : Action → Managed → Prop
  | .move _ (.acquired (.ok (server, conn))), _ => Pooled.AtRest server conn
  | _, _ => True

end Managed

/-- The call as `Boltwire.Execute` has it; what it has applied is counted over the
logs of its servers. -/
def Execution.abstract (e : Execution) : Execute.Call :=
  ⟨e.mode, e.attempt, e.task, (e.sessions.map Session.applied).sum⟩

def Managed.abstract (s : Managed) : Execute := ⟨s.inner, s.executions.map Execution.abstract⟩

end Boltwire
