import KvStore.Kv.Replicas
import KvStore.Rsm.Linearizable

set_option autoImplicit false

/-! The kvraft clerks, the handlers `Get` and `Put` and the RPCs between them, over the
replicated state machine. -/

namespace KvStore.KvRaft

open Linearizability

/-- What an application asks of a clerk. -/
inductive ClientOp
  | get (key : String)
  | put (key value : String) (version : Nat)
  deriving DecidableEq, Repr

/-- What a handler sends back. -/
inductive Answer
  | get (reply : GetReply)
  | put (reply : PutReply)
  deriving DecidableEq, Repr

def Answer.err : Answer → Err
  | .get reply => reply.err
  | .put reply => reply.err

structure Clerk (n : Nat) where
  leader : Fin n
  requestId : Nat
  putMutex : Bool
  deriving DecidableEq, Repr

/-- Where one call of `Get` or `Put` stands. In `calling` it waits for the RPC `attempt`. -/
inductive CallPhase (n : Nat)
  | locking
  | trying (leader : Fin n) (attempts : Nat)
  | calling (leader : Fin n) (attempts : Nat) (attempt : Nat)
  | returned (answer : Answer)
  | panicked
  deriving DecidableEq, Repr

structure ClerkCall (n : Nat) where
  clientId : Nat
  op : ClientOp
  requestId : Nat
  phase : CallPhase n
  deriving DecidableEq, Repr

/-- The arguments of the RPCs of the call. -/
def ClerkCall.request {n : Nat} (call : ClerkCall n) : Request :=
  match call.op with
  | .get key => .get { key }
  | .put key value version =>
    .put { clientId := call.clientId, requestId := call.requestId, key, value, version }

/-- The life of one RPC: the request is on its way, its handler runs, or the handler has
returned. A request, a reply or a handler that is lost stays where it is. -/
inductive AttemptStatus (n : Nat)
  | sent
  | serving (op : Op n Request)
  | replied (op : Op n Request) (answer : Answer)
  deriving DecidableEq, Repr

/-- The command that the handler has submitted. -/
def AttemptStatus.op {n : Nat} : AttemptStatus n → Option (Op n Request)
  | .sent => none
  | .serving op => some op
  | .replied op _ => some op

structure Attempt (n : Nat) where
  call : Nat
  server : Fin n
  request : Request
  status : AttemptStatus n
  deriving DecidableEq, Repr

/-- The servers, the clerks by their client id, their calls and RPCs, and what the
applications have seen, newest first. Client ids are drawn at random by the source and
taken to differ here. -/
structure System (n : Nat) where
  service : Service n KVServer Request Reply
  clerks : Nat → Clerk n
  calls : List (ClerkCall n)
  attempts : List (Attempt n)
  history : List (Event Nat ClientOp Answer)

inductive Action (n : Nat)
  | service (action : ServiceAction n Request)
  | invoke (clientId : Nat) (op : ClientOp)
  | lock (call : Nat)
  | send (call : Nat)
  | serve (attempt : Nat)
  | reply (attempt : Nat)
  | receive (call : Nat)
  | fail (call : Nat)
  deriving Repr

/-- The end of the handlers `KVServer.Get` and `KVServer.Put`, on what `Submit` has
returned. `none` is a type assertion that fails and ends the process. -/
def handlerReply : Request → SubmitErr → Option Reply → Option Answer
  | .get _, .ok, some (.get reply) => some (.get reply)
  | .get _, .ok, _ => none
  | .get _, .wrongLeader, _ => some (.get { value := "", version := 0, err := .wrongLeader })
  | .put _, .ok, some (.put reply) => some (.put reply)
  | .put _, .ok, _ => none
  | .put _, .wrongLeader, _ => some (.put { err := .wrongLeader })
  | .unknown, _, _ => none

/-- What a clerk does about an error: return it, try the next server, or panic. -/
inductive Verdict
  | returns
  | next
  | panics
  deriving DecidableEq, Repr

def verdict : ClientOp → Err → Verdict
  | .get _, .ok => .returns
  | .get _, .noKey => .returns
  | .put _ _ _, .ok => .returns
  | .put _ _ _, .noKey => .returns
  | .put _ _ _, .version => .returns
  | _, .wrongLeader => .next
  | _, _ => .panics

variable {n : Nat}

/-- `(leader + 1) % len(ck.servers)` -/
def nextServer (leader : Fin n) : Fin n := ⟨(leader.val + 1) % n, Nat.mod_lt _ leader.pos⟩

namespace System

variable (gob : Gob) (σ : System n)

def init (positive : 0 < n) : System n where
  service := .init (machine gob) n
  clerks _ := { leader := ⟨0, positive⟩, requestId := 0, putMutex := false }
  calls := []
  attempts := []
  history := []

def setCall (i : Nat) (call : ClerkCall n) : System n :=
  { σ with calls := σ.calls.set i call }

def setClerk (clientId : Nat) (clerk : Clerk n) : System n :=
  { σ with clerks := Function.update σ.clerks clientId clerk }

/-- The servers move without a call of a handler. -/
def serviceStep (action : ServiceAction n Request) : Option (System n) :=
  match action with
  | .submit _ _ => none
  | action => (σ.service.step (machine gob) action).map fun service => { σ with service }

/-- A Get reads the leader at once, a Put has to wait for the mutex first. -/
def invoke (clientId : Nat) (op : ClientOp) : System n :=
  let phase := match op with
    | .get _ => .trying (σ.clerks clientId).leader 0
    | .put _ _ _ => .locking
  { σ with
    calls := σ.calls ++ [{ clientId, op, requestId := 0, phase }]
    history := .invoke σ.calls.length op :: σ.history }

/-- `putMutex.Lock()`, `nextReqId()` -/
def lock (i : Nat) : Option (System n) := do
  let call ← σ.calls[i]?
  let clerk := σ.clerks call.clientId
  match call.phase with
  | .locking =>
    if clerk.putMutex then none
    else some ((σ.setClerk call.clientId
        { clerk with putMutex := true, requestId := clerk.requestId + 1 }).setCall i
      { call with requestId := clerk.requestId + 1, phase := .trying clerk.leader 0 })
  | _ => none

/-- `ck.clnt.Call` -/
def send (i : Nat) : Option (System n) := do
  let call ← σ.calls[i]?
  match call.phase with
  | .trying leader attempts =>
    some { σ.setCall i { call with phase := .calling leader attempts σ.attempts.length } with
      attempts := σ.attempts ++
        [{ call := i, server := leader, request := call.request, status := .sent }] }
  | _ => none

/-- The request reaches its server, whose handler calls `Submit`. -/
def serve (a : Nat) : Option (System n) := do
  let attempt ← σ.attempts[a]?
  match attempt.status with
  | .sent =>
    let op : Op n Request :=
      { me := attempt.server, id := (σ.service.rsm attempt.server).nextOpId,
        req := attempt.request, incarnation := σ.service.raft.incarnation attempt.server }
    some { σ with
      service := σ.service.submit attempt.server attempt.request
      attempts := σ.attempts.set a { attempt with status := .serving op } }
  | _ => none

/-- `Submit` has returned to the handler of a process that still runs. -/
def handlerAt (a : Nat) : Option (Attempt n × Op n Request × SubmitErr × Option Reply) := do
  let attempt ← σ.attempts[a]?
  match attempt.status with
  | .serving op =>
    if op.incarnation = σ.service.raft.incarnation op.me then
      let submission ← (σ.service.rsm op.me).submits[op.id - 1]?
      match submission.phase with
      | .returned err value => some (attempt, op, err, value)
      | _ => none
    else none
  | _ => none

/-- The handler returns, or its type assertion fails and the process dies. -/
def reply (a : Nat) : Option (System n) := do
  let (attempt, op, err, value) ← σ.handlerAt a
  match handlerReply attempt.request err value with
  | some answer =>
    some { σ with attempts := σ.attempts.set a { attempt with status := .replied op answer } }
  | none =>
    let service ← σ.service.step (machine gob) (.raft (.crash op.me))
    some { σ with service }

/-- The clerk gets the reply it waits for. A Put gives up the mutex as it returns. -/
def receive (i : Nat) : Option (System n) := do
  let call ← σ.calls[i]?
  match call.phase with
  | .calling leader attempts a =>
    let attempt ← σ.attempts[a]?
    match attempt.status with
    | .replied _ answer =>
      match verdict call.op answer.err with
      | .returns =>
        let clerk := σ.clerks call.clientId
        let putMutex := match call.op with
          | .get _ => clerk.putMutex
          | .put _ _ _ => false
        some { (σ.setClerk call.clientId { clerk with leader, putMutex }).setCall i
            { call with phase := .returned answer } with
          history := .respond i answer :: σ.history }
      | .next =>
        some (σ.setCall i { call with phase := .trying (nextServer leader) (attempts + 1) })
      | .panics => some (σ.setCall i { call with phase := .panicked })
    | _ => none
  | _ => none

/-- The RPC fails: the request, the handler or the reply is lost or late. -/
def fail (i : Nat) : Option (System n) := do
  let call ← σ.calls[i]?
  match call.phase with
  | .calling leader attempts _ =>
    some (σ.setCall i { call with phase := .trying (nextServer leader) (attempts + 1) })
  | _ => none

def step (σ : System n) : Action n → Option (System n)
  | .service action => σ.serviceStep gob action
  | .invoke clientId op => some (σ.invoke clientId op)
  | .lock i => σ.lock i
  | .send i => σ.send i
  | .serve a => σ.serve a
  | .reply a => σ.reply gob a
  | .receive i => σ.receive i
  | .fail i => σ.fail i

/-- An `AppendEntries` or `InstallSnapshot` reply that raises a match index is handled in the
term of its request, and a command with the id of the `Submit` that waits at its index was
created by the same process, not by another server or an earlier process of this one. -/
def admitted (σ : System n) : Action n → Bool
  | .service action => σ.service.freshAck action && σ.service.ownResult action
  | _ => true

abbrev Run (gob : Gob) (positive : 0 < n) (trace : List (System n)) : Prop :=
  Runs.Run (step gob) (fun σ action => σ.admitted action = true) (init gob positive) trace

end System

/-- One versioned map that executes one operation after the other. -/
def plainMap : Object (KvMap String String) ClientOp Answer where
  init := KvMap.empty
  apply kvm
    | .get key => (kvm, .get (getReply (kvm key)))
    | .put key value version =>
      ((kvm.put key value version).1, .put { err := (kvm.put key value version).2 })

end KvStore.KvRaft
