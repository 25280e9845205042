import KvStore.Lib.Runs
import KvStore.Raft.Handlers
import Mathlib.Algebra.GroupWithZero.Nat

set_option autoImplicit false

/-! A cluster of Raft peers, the RPCs between them and the service above them. -/

namespace KvStore

variable {n : Nat} {C : Type}

/-- The life of one RPC: the request is on its way, the reply is on its way, the
caller has handled the reply, or the callee died handling the request. A lost
request or reply simply stays where it is. -/
inductive CallStatus (Reply : Type)
  | sent
  | replied (reply : Reply)
  | received (reply : Reply)
  | lost
  deriving DecidableEq, Repr

/-- One `Call`; `incarnation` is that of the caller, whose goroutine waits for the reply. -/
structure Call (n : Nat) (Args Reply : Type) where
  src : Fin n
  dst : Fin n
  incarnation : Nat
  args : Args
  status : CallStatus Reply
  deriving DecidableEq, Repr

/-- An `InstallSnapshot` request with the log entries its data stands for. -/
structure Shipment (n : Nat) (C : Type) where
  request : InstallSnapshotArgs n
  covered : List (LogEntry C)
  deriving DecidableEq, Repr

/-- The peers, every RPC issued so far, and the record of what the services saw.
`logical` is each peer's log from index 0 on with the compacted entries included;
no peer reads it. `delivered` is the index last delivered to the service of the
running incarnation. -/
structure Cluster (n : Nat) (C : Type) where
  nodes : Fin n → Raft n C
  logical : Fin n → List (LogEntry C)
  incarnation : Fin n → Nat
  delivered : Fin n → Nat
  voteCalls : List (Call n (RequestVoteArgs n) RequestVoteReply)
  appendCalls : List (Call n (AppendEntriesArgs n C) AppendEntriesReply)
  snapshotCalls : List (Call n (Shipment n C) InstallSnapshotReply)
  applied : List (Fin n × ApplyMsg C)
  started : List (Fin n × Nat × Nat × Option C)

inductive Action (n : Nat) (C : Type)
  | startElection (server : Fin n)
  | handleRequestVote (call : Nat)
  | receiveRequestVote (call : Nat)
  | replicateToFollower (server follower : Fin n)
  | handleAppendEntries (call : Nat)
  | receiveAppendEntries (call : Nat)
  | handleInstallSnapshot (call : Nat)
  | receiveInstallSnapshot (call : Nat)
  | start (server : Fin n) (command : Option C)
  | snapshot (server : Fin n) (index : Nat) (data : Bytes)
  | applierRead (server : Fin n)
  | applierSend (server : Fin n)
  | applierAck (server : Fin n)
  | crash (server : Fin n)
  deriving Repr

namespace Cluster

/-- All peers freshly started on empty stable storage. -/
def init (n : Nat) (C : Type) : Cluster n C where
  nodes _ := Raft.make { raftstate := none, snapshot := [] }
  logical _ := [{ term := 0, command := none }]
  incarnation _ := 0
  delivered _ := 0
  voteCalls := []
  appendCalls := []
  snapshotCalls := []
  applied := []
  started := []

def setNode (σ : Cluster n C) (server : Fin n) (rf : Raft n C) : Cluster n C :=
  { σ with nodes := Function.update σ.nodes server rf }

/-- The process of `server` dies and is started again on its stable storage. -/
def restart (σ : Cluster n C) (server : Fin n) (persister : Persister n C) : Cluster n C :=
  { σ with
    nodes := Function.update σ.nodes server (Raft.make persister)
    incarnation := Function.update σ.incarnation server (σ.incarnation server + 1)
    delivered := Function.update σ.delivered server
      (Raft.make persister : Raft n C).lastIncludedIndex }

/-- A critical section ends in a state of its peer or in the death of the process. -/
def settle (σ : Cluster n C) (server : Fin n) : Except (Raft n C) (Raft n C) → Cluster n C
  | .ok rf => σ.setNode server rf
  | .error rf => σ.restart server rf.persister

/-- The entries below the compaction point with the retained log above it. -/
def relog (logical : List (LogEntry C)) (rf : Raft n C) : List (LogEntry C) :=
  logical.take (rf.lastIncludedIndex + 1) ++ rf.log.tail

def setLogical (σ : Cluster n C) (server : Fin n) (log : List (LogEntry C)) : Cluster n C :=
  { σ with logical := Function.update σ.logical server log }

def startElection (σ : Cluster n C) (server : Fin n) : Cluster n C :=
  match (σ.nodes server).startElection server with
  | .error rf => σ.restart server rf.persister
  | .ok (rf, args) =>
    { σ.setNode server rf with
      voteCalls := σ.voteCalls ++ ((List.finRange n).filter (· ≠ server)).map fun i =>
        { src := server, dst := i, incarnation := σ.incarnation server, args, status := .sent } }

/-- The request of call `k` reaches its callee, whose handler replies or kills the process. -/
def handleCall {Args Reply : Type} (calls : List (Call n Args Reply)) (k : Nat)
    (handler : Call n Args Reply → Except (Raft n C) (Raft n C × Reply))
    (replied : Call n Args Reply → Raft n C → Reply → Cluster n C)
    (died : Call n Args Reply → Raft n C → Cluster n C) : Option (Cluster n C) := do
  let call ← calls[k]?
  match call.status with
  | .sent =>
    match handler call with
    | .ok (rf, reply) => some (replied call rf reply)
    | .error rf => some (died call rf)
  | _ => none

/-- The reply to call `k` reaches its caller, if that process still runs. -/
def receiveReply {Args Reply : Type} (σ : Cluster n C) (calls : List (Call n Args Reply)) (k : Nat)
    (received : Call n Args Reply → Reply → Cluster n C) : Option (Cluster n C) := do
  let call ← calls[k]?
  match call.status with
  | .replied reply =>
    if call.incarnation = σ.incarnation call.src then some (received call reply) else none
  | _ => none

def handleRequestVote (σ : Cluster n C) (k : Nat) : Option (Cluster n C) :=
  handleCall σ.voteCalls k (fun call => (σ.nodes call.dst).requestVote call.args)
    (fun call rf reply => { σ.setNode call.dst rf with
      voteCalls := σ.voteCalls.set k { call with status := .replied reply } })
    (fun call rf => { σ.restart call.dst rf.persister with
      voteCalls := σ.voteCalls.set k { call with status := .lost } })

def receiveRequestVote (σ : Cluster n C) (k : Nat) : Option (Cluster n C) :=
  σ.receiveReply σ.voteCalls k fun call reply =>
    { σ.setNode call.src ((σ.nodes call.src).onRequestVoteReply call.args reply) with
      voteCalls := σ.voteCalls.set k { call with status := .received reply } }

/-- The sending half of `replicateToFollower`. -/
def replicateToFollower (σ : Cluster n C) (server follower : Fin n) : Option (Cluster n C) :=
  let rf := σ.nodes server
  if server = follower ∨ rf.state ≠ .leader then none
  else if rf.nextIndex follower ≤ rf.lastIncludedIndex then
    match rf.newInstallSnapshotArgs server with
    | .error rf => some (σ.restart server rf.persister)
    | .ok request =>
      some { σ with
        snapshotCalls := σ.snapshotCalls ++
          [{ src := server, dst := follower, incarnation := σ.incarnation server,
             args := { request, covered := (σ.logical server).take (rf.lastIncludedIndex + 1) },
             status := .sent }] }
  else
    match rf.newAppendEntriesArgsFor server follower with
    | .error rf => some (σ.restart server rf.persister)
    | .ok args =>
      some { σ with
        appendCalls := σ.appendCalls ++
          [{ src := server, dst := follower, incarnation := σ.incarnation server, args,
             status := .sent }] }

def handleAppendEntries (σ : Cluster n C) (k : Nat) : Option (Cluster n C) :=
  handleCall σ.appendCalls k (fun call => (σ.nodes call.dst).appendEntries call.args)
    (fun call rf reply =>
      { (σ.setNode call.dst rf).setLogical call.dst (relog (σ.logical call.dst) rf) with
        appendCalls := σ.appendCalls.set k { call with status := .replied reply } })
    (fun call rf => { σ.restart call.dst rf.persister with
      appendCalls := σ.appendCalls.set k { call with status := .lost } })

def receiveAppendEntries (σ : Cluster n C) (k : Nat) : Option (Cluster n C) :=
  σ.receiveReply σ.appendCalls k fun call reply =>
    { σ.settle call.src
        ((σ.nodes call.src).onAppendEntriesReply call.src call.dst call.args reply) with
      appendCalls := σ.appendCalls.set k { call with status := .received reply } }

def handleInstallSnapshot (σ : Cluster n C) (k : Nat) : Option (Cluster n C) := do
  let call ← σ.snapshotCalls[k]?
  match call.status with
  | .sent =>
    let rf := σ.nodes call.dst
    let (after, reply) := rf.installSnapshot call.args.request
    let log :=
      if rf.lastIncludedIndex < after.lastIncludedIndex then
        call.args.covered ++ after.log.tail
      else σ.logical call.dst
    some { (σ.setNode call.dst after).setLogical call.dst log with
      snapshotCalls := σ.snapshotCalls.set k { call with status := .replied reply } }
  | _ => none

def receiveInstallSnapshot (σ : Cluster n C) (k : Nat) : Option (Cluster n C) :=
  σ.receiveReply σ.snapshotCalls k fun call reply =>
    { σ.settle call.src
        ((σ.nodes call.src).onInstallSnapshotReply call.src call.dst call.args.request reply) with
      snapshotCalls := σ.snapshotCalls.set k { call with status := .received reply } }

def start (σ : Cluster n C) (server : Fin n) (command : Option C) : Cluster n C :=
  let rf := σ.nodes server
  let (after, reply) := rf.start command
  if reply.isLeader then
    { (σ.setNode server after).setLogical server
        (σ.logical server ++ [{ term := rf.currentTerm, command }]) with
      started := (server, reply.index.toNat, reply.term.toNat, command) :: σ.started }
  else σ

/-- The service snapshots at an index that has been delivered to it. -/
def snapshot (σ : Cluster n C) (server : Fin n) (index : Nat) (data : Bytes) :
    Option (Cluster n C) :=
  if index ≤ σ.delivered server then
    some (σ.settle server ((σ.nodes server).snapshot index data))
  else none

def applierRead (σ : Cluster n C) (server : Fin n) : Option (Cluster n C) :=
  match (σ.nodes server).applierRead with
  | .error rf => some (σ.restart server rf.persister)
  | .ok none => none
  | .ok (some rf) => some (σ.setNode server rf)

/-- The message in flight reaches the service. -/
def applierSend (σ : Cluster n C) (server : Fin n) : Option (Cluster n C) :=
  match (σ.nodes server).applier with
  | .sending msg =>
    some { σ.setNode server { σ.nodes server with applier := .sent msg } with
      delivered := Function.update σ.delivered server msg.index
      applied := (server, msg) :: σ.applied }
  | _ => none

def applierAck (σ : Cluster n C) (server : Fin n) : Option (Cluster n C) :=
  (σ.nodes server).applierAck.map (σ.setNode server)

def step (σ : Cluster n C) : Action n C → Option (Cluster n C)
  | .startElection server => some (σ.startElection server)
  | .handleRequestVote k => σ.handleRequestVote k
  | .receiveRequestVote k => σ.receiveRequestVote k
  | .replicateToFollower server follower => σ.replicateToFollower server follower
  | .handleAppendEntries k => σ.handleAppendEntries k
  | .receiveAppendEntries k => σ.receiveAppendEntries k
  | .handleInstallSnapshot k => σ.handleInstallSnapshot k
  | .receiveInstallSnapshot k => σ.receiveInstallSnapshot k
  | .start server command => some (σ.start server command)
  | .snapshot server index data => σ.snapshot server index data
  | .applierRead server => σ.applierRead server
  | .applierSend server => σ.applierSend server
  | .applierAck server => σ.applierAck server
  | .crash server => some (σ.restart server (σ.nodes server).persister)

/-- Every run of the cluster. -/
abbrev Run (trace : List (Cluster n C)) : Prop :=
  Runs.Run step (fun _ _ => True) (init n C) trace

/-- For the runs of three and of five servers that are written out. -/
instance neZero_three : NeZero 3 := ⟨by decide⟩

instance neZero_five : NeZero 5 := ⟨by decide⟩

/-- The state after the given actions, if all of them are possible. -/
def perform (σ : Cluster n C) (actions : List (Action n C)) : Option (Cluster n C) :=
  Runs.execute (Runs.guarded step fun _ _ => true) σ actions

theorem run_through (first second : List (Action n C)) (begun : ((init n C).perform first).isSome)
    (done : ((((init n C).perform first).get begun).perform second).isSome) :
    ∃ trace, Run trace ∧ ((init n C).perform first).get begun ∈ trace ∧
      ((((init n C).perform first).get begun).perform second).get done ∈ trace := by
  obtain ⟨trace, run, passed, ended⟩ := Runs.Run.through step (fun _ _ => true) _ first
    second begun done
  exact ⟨trace, run.mono fun _ _ _ => trivial, passed, ended⟩

/-- All states passed by the given actions, newest first. -/
def record (actions : List (Action n C)) : Option (List (Cluster n C)) :=
  Runs.record (Runs.guarded step fun _ _ => true) [init n C] actions

theorem run_recorded (actions : List (Action n C)) (done : (record actions).isSome) :
    Run ((record actions).get done) :=
  (Runs.Run.recorded .start (Option.some_get done).symm).mono fun _ _ _ => trivial

end Cluster

end KvStore
