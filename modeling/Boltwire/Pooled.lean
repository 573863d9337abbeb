import Boltwire.Disclosure
import Boltwire.PoolSafety

namespace Boltwire
open Transition

def Call.borrows : Call → Bool
  | .close | .release _ | .checkout _ => false
  | _ => true

structure Pooled where
  pool : Pool
  /-- The connections, by the order in which they were minted. -/
  sessions : List Client

namespace Pooled

inductive Action
  | get
  | close
  | acquire (i : ℕ)
  | pop (i created idled : ℕ)
  | probe (i : ℕ) (sched : List Choice)
  | connect (i : ℕ) (dialled : Except BoltError Unit) (auth : Option Auth) (passed : Bool)
    (sched : List Choice) (again : Bool)
  | cancel (i : ℕ) (sched : List Choice)
  | timeout (i : ℕ) (sched : List Choice)
  | release (i : ℕ)
  | drop (i : ℕ)
  | detach (i : ℕ)
  | test (i : ℕ)
  | push (i : ℕ)
  | take (i : ℕ)
  | goodbye (i : ℕ) (sched : List Choice)
  | call (i : ℕ) (call : Call) (sched : List Choice)

def withConfig (config : PoolConfig) (acquireTimeout : Option ℕ) : Pooled :=
  ⟨.withConfig config acquireTimeout, []⟩

def task (s : Pooled) (i : ℕ) : Option Pool.Task := s.pool.tasks[i]?

def holding (s : Pooled) (i : ℕ) : Option ℕ :=
  match s.task i with
  | some (.held n) => some n
  | _ => none

theorem holding_eq_some {s : Pooled} {i n : ℕ} :
    s.holding i = some n ↔ s.task i = some (.held n) := by
  unfold holding
  split <;> simp_all

def moved (i : ℕ) (m : Pool.Move) (s : Pooled) : Option Pooled :=
  (Pool.step (.move i m) s.pool).map fun pool => { s with pool }

section
variable (L : ℕ → Listener)

def onSession (n : ℕ) (call : Call) (sched : List Choice) (s : Pooled) :
    Option (Outcome BoltError Reply × Pooled) :=
  match s.sessions[n]? with
  | none => none
  | some client => (Client.exec (L n).peer call (client.withSched sched)).map fun r =>
    (r.1, { s with sessions := s.sessions.set n r.2 })

/-- The checkout is given up; a probe that is under way does not get to its end. -/
def abandoned (i : ℕ) (m : Pool.Move) (sched : List Choice) (s : Pooled) : Option Pooled :=
  match s.task i with
  | some (.probing n) => (s.onSession L n (.checkout false) sched).bind fun r =>
    if r.1.isOk then none else r.2.moved i m
  | _ => s.moved i m

def popped (i created idled : ℕ) (s : Pooled) : Option Pooled :=
  match s.pool.inner.idle with
  | [] => s.moved i (.pop created idled true)
  | n :: _ => match s.sessions[n]? with
    | some (.idle c) =>
      if s.pool.inner.config.expired created idled || !c.isReusable then
        (s.onSession L n (.checkout true) []).bind fun r =>
          r.2.moved i (.pop created idled c.isReusable)
      else s.moved i (.pop created idled c.isReusable)
    | _ => none

/-- Whether a connection is reusable, and how a probe and a connect attempt end, is what
its session says. Whoever holds a connection makes the calls of the API on it, one at
a time. -/
def step : Action → Pooled → Option Pooled
  | .get, s => (Pool.step .get s.pool).map fun pool => { s with pool }
  | .close, s => (Pool.step .close s.pool).map fun pool => { s with pool }
  | .acquire i, s => s.moved i .acquire
  | .pop i created idled, s => s.popped L i created idled
  | .probe i sched, s =>
    match s.task i with
    | some (.probing n) => (s.onSession L n (.checkout false) sched).bind fun r =>
      r.2.moved i (.probed r.1.isOk)
    | _ => none
  | .connect i dialled auth passed sched again, s =>
    match s.task i with
    | some .minting =>
      let l := L s.pool.inner.minted
      match Setup.connect l.negotiate l.peer dialled auth passed (.opened sched) with
      | (.ok _, setup) => { s with sessions := s.sessions ++ [Client.free setup.conn] }.moved i
          .connected
      | (.err e, _) => s.moved i (.refused e again)
      | (.dropped, _) => none
    | _ => none
  | .cancel i sched, s => s.abandoned L i .cancel sched
  | .timeout i sched, s => s.abandoned L i .timeout sched
  | .release i, s => s.moved i .release
  | .drop i, s =>
    match s.task i with
    | some (.held n) => match s.sessions[n]? with
      | some (.free c) =>
        if c.isReusable then s.moved i (.drop true)
        else (s.onSession L n (.release false) []).bind fun r => r.2.moved i (.drop false)
      | _ => none
    | _ => none
  | .detach i, s =>
    match s.task i with
    | some (.held n) => match s.sessions[n]? with
      | some (.free _) => s.moved i .detach
      | _ => none
    | _ => none
  | .test i, s =>
    match s.task i with
    | some (.testing n) =>
      if s.pool.inner.closed then
        (s.onSession L n (.release true) []).bind fun r => r.2.moved i .test
      else s.moved i .test
    | _ => none
  | .push i, s =>
    match s.task i with
    | some (.pushing n) =>
      (s.onSession L n (.release false) []).bind fun r => r.2.moved i .push
    | _ => none
  | .take i, s => s.moved i .take
  | .goodbye i sched, s =>
    match s.task i with
    | some (.parting (n :: _)) =>
      (s.onSession L n .close sched).bind fun r => r.2.moved i .goodbye
    | _ => s.moved i .goodbye
  | .call i call sched, s =>
    match s.task i with
    | some (.held n) =>
      if call.borrows then (s.onSession L n call sched).map Prod.snd else none
    | _ => none

end

end Pooled
end Boltwire
