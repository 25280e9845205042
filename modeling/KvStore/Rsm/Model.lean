import KvStore.Raft.Cluster

set_option autoImplicit false

/-! The replicated state machine on top of Raft: `Submit`, `readApply`, the lock
`rsm.mu`, the map of waiting submissions and their channels of capacity one. -/

namespace KvStore

/-- A command as it goes through Raft. `incarnation` is not in the source: it
names the process that created the command, and no function reads it. -/
structure Op (n : Nat) (Req : Type) where
  me : Fin n
  id : Nat
  req : Req
  incarnation : Nat
  deriving DecidableEq, Repr

/-- What the server above implements. -/
structure StateMachine (M Req Val : Type) where
  init : M
  doOp : M → Req → M × Val
  snapshot : M → Bytes
  restore : Bytes → M → M

/-- `opId` is -1 when a snapshot has passed the index waited for. -/
structure ApplyResult (Val : Type) where
  opId : Int
  value : Option Val
  deriving DecidableEq, Repr

inductive SubmitErr
  | ok
  | wrongLeader
  deriving DecidableEq, Repr

/-- Where one call of `Submit` stands. It leaves its select with a result or
without one, and then needs the lock to take itself off the map. `stopSubmit` is
left out: it is closed with `applyCh`, and the applier never closes that. -/
inductive SubmitPhase (Val : Type)
  | created
  | waiting
  | leaving
  | taken (result : ApplyResult Val)
  | returned (err : SubmitErr) (value : Option Val)
  deriving DecidableEq, Repr

/-- One call of `Submit` with its result channel. -/
structure Submission (n : Nat) (Req Val : Type) where
  op : Op n Req
  commandId : Nat
  resultCh : Option (ApplyResult Val)
  phase : SubmitPhase Val
  deriving DecidableEq, Repr

/-- Where `readApply` stands. In `expiring` it holds the lock and has yet to
notify the channels listed. -/
inductive Reader (n : Nat) (Req Val : Type)
  | receiving
  | executed (commandId : Nat) (op : Op n Req) (value : Val)
  | sending (channel : Nat) (result : ApplyResult Val)
  | restored (snapshotIndex : Nat)
  | expiring (channels : List Nat)
  deriving DecidableEq, Repr

/-- The RSM of one process. A channel is named by the position of its submission.
`done` records every execution of `DoOp` in this process. -/
structure RSM (n : Nat) (M Req Val : Type) where
  opId : Nat
  resultByCommandId : List (Nat × Nat)
  submits : List (Submission n Req Val)
  reader : Reader n Req Val
  sm : M
  done : List (Nat × Op n Req × Val)

/-- The servers: Raft below, one RSM each. `created` records every command that
any `Submit` of any process has made. -/
structure Service (n : Nat) (M Req Val : Type) where
  raft : Cluster n (Op n Req)
  rsm : Fin n → RSM n M Req Val
  created : List (Op n Req)

inductive ServiceAction (n : Nat) (Req : Type)
  | raft (action : Action n (Op n Req))
  | submit (server : Fin n) (req : Req)
  | refuse (server : Fin n) (channel : Nat)
  | start (server : Fin n) (channel : Nat)
  | leave (server : Fin n) (channel : Nat)
  | take (server : Fin n) (channel : Nat)
  | finish (server : Fin n) (channel : Nat)
  | receive (server : Fin n)
  | snapshot (server : Fin n)
  | lookup (server : Fin n)
  | send (server : Fin n)
  | lock (server : Fin n)
  | expire (server : Fin n) (position : Nat)
  | unlock (server : Fin n)
  deriving Repr

variable {n : Nat} {M Req Val : Type}

namespace RSM

/-- `MakeRSM` on the snapshot found on disk. -/
def make (machine : StateMachine M Req Val) (snapshot : Bytes) : RSM n M Req Val where
  opId := 0
  resultByCommandId := []
  submits := []
  reader := .receiving
  sm := if snapshot = [] then machine.init else machine.restore snapshot machine.init
  done := []

def nextOpId (rsm : RSM n M Req Val) : Nat :=
  rsm.opId + 1

/-- A call of `Submit` has drawn its id and made its `Op`. -/
def enter (rsm : RSM n M Req Val) (op : Op n Req) : RSM n M Req Val :=
  { rsm with
    opId := rsm.nextOpId
    submits := rsm.submits ++ [{ op, commandId := 0, resultCh := none, phase := .created }] }

/-- `resultByCommandId[commandId]` -/
def channelAt (rsm : RSM n M Req Val) (commandId : Nat) : Option Nat :=
  rsm.resultByCommandId.lookup commandId

/-- `delete(rsm.resultByCommandId, commandId)` -/
def forget (rsm : RSM n M Req Val) (commandId : Nat) : RSM n M Req Val :=
  { rsm with resultByCommandId := rsm.resultByCommandId.filter (·.1 ≠ commandId) }

def setSubmission (rsm : RSM n M Req Val) (channel : Nat) (submission : Submission n Req Val) :
    RSM n M Req Val :=
  { rsm with submits := rsm.submits.set channel submission }

/-- `resultByCommandId[commandId] = resultCh`, and the submission starts to wait. -/
def register (rsm : RSM n M Req Val) (channel : Nat) (submission : Submission n Req Val)
    (commandId : Nat) : RSM n M Req Val :=
  { (rsm.forget commandId).setSubmission channel
      { submission with commandId, phase := .waiting } with
    resultByCommandId := (commandId, channel) :: (rsm.forget commandId).resultByCommandId }

/-- The lock is held across steps only while a snapshot is being announced. -/
def muFree (rsm : RSM n M Req Val) : Bool :=
  match rsm.reader with
  | .expiring _ => false
  | _ => true

/-- A send to a channel; it blocks while the channel is full. -/
def deliver (rsm : RSM n M Req Val) (channel : Nat) (result : ApplyResult Val) :
    Option (RSM n M Req Val) := do
  let submission ← rsm.submits[channel]?
  match submission.resultCh with
  | none => some (rsm.setSubmission channel { submission with resultCh := some result })
  | some _ => none

end RSM

namespace Service

variable (machine : StateMachine M Req Val) (σ : Service n M Req Val)

def init (n : Nat) : Service n M Req Val where
  raft := Cluster.init n (Op n Req)
  rsm _ := RSM.make machine []
  created := []

/-- The given Raft state, with the RSM of every process that has died made anew. -/
def withRaft (raft : Cluster n (Op n Req)) : Service n M Req Val :=
  { σ with
    raft
    rsm := fun s =>
      if raft.incarnation s = σ.raft.incarnation s then σ.rsm s
      else RSM.make machine (raft.nodes s).persister.snapshot }

def setRsm (server : Fin n) (rsm : RSM n M Req Val) : Service n M Req Val :=
  { σ with rsm := Function.update σ.rsm server rsm }

/-- The Raft actions that take place without the RSM. -/
def internal : Action n (Op n Req) → Bool
  | .start _ _ | .snapshot _ _ _ | .applierSend _ => false
  | _ => true

/-- A new call of `Submit`, up to the creation of its `Op`. -/
def submit (server : Fin n) (req : Req) : Service n M Req Val :=
  let op : Op n Req :=
    { me := server, id := (σ.rsm server).nextOpId, req, incarnation := σ.raft.incarnation server }
  { σ.setRsm server ((σ.rsm server).enter op) with created := op :: σ.created }

/-- `GetState` says that this server does not lead. -/
def refuse (server : Fin n) (channel : Nat) : Option (Service n M Req Val) := do
  let submission ← (σ.rsm server).submits[channel]?
  match submission.phase with
  | .created =>
    if (σ.raft.nodes server).state ≠ .leader then
      some (σ.setRsm server ((σ.rsm server).setSubmission channel
        { submission with phase := .returned .wrongLeader none }))
    else none
  | _ => none

/-- The critical section around `Start`. -/
def start (server : Fin n) (channel : Nat) : Option (Service n M Req Val) := do
  let rsm := σ.rsm server
  let submission ← rsm.submits[channel]?
  match submission.phase, rsm.muFree with
  | .created, true =>
    let (_, reply) := (σ.raft.nodes server).start (some submission.op)
    if reply.isLeader then
      some { σ.setRsm server (rsm.register channel submission reply.index.toNat) with
        raft := σ.raft.start server (some submission.op) }
    else
      some (σ.setRsm server (rsm.setSubmission channel
        { submission with phase := .returned .wrongLeader none }))
  | _, _ => none

/-- The poll finds leadership or term changed, or the deadline has passed. -/
def leave (server : Fin n) (channel : Nat) : Option (Service n M Req Val) := do
  let submission ← (σ.rsm server).submits[channel]?
  match submission.phase with
  | .waiting =>
    some (σ.setRsm server ((σ.rsm server).setSubmission channel
      { submission with phase := .leaving }))
  | _ => none

/-- The select receives from the result channel. -/
def take (server : Fin n) (channel : Nat) : Option (Service n M Req Val) := do
  let submission ← (σ.rsm server).submits[channel]?
  match submission.phase, submission.resultCh with
  | .waiting, some result =>
    some (σ.setRsm server ((σ.rsm server).setSubmission channel
      { submission with phase := .taken result, resultCh := none }))
  | _, _ => none

/-- The last critical section of `Submit`. -/
def finish (server : Fin n) (channel : Nat) : Option (Service n M Req Val) := do
  let rsm := σ.rsm server
  let submission ← rsm.submits[channel]?
  if rsm.muFree then
    let returns := fun err value =>
      some (σ.setRsm server ((rsm.forget submission.commandId).setSubmission channel
        { submission with phase := .returned err value }))
    match submission.phase with
    | .leaving => returns .wrongLeader none
    | .taken result =>
      if result.opId ≠ submission.op.id then returns .wrongLeader none
      else returns .ok result.value
    | _ => none
  else none

/-- `readApply` receives the next message and executes or restores. A nil command
fails the type assertion and kills the process. -/
def receive (server : Fin n) : Option (Service n M Req Val) :=
  let rsm := σ.rsm server
  match rsm.reader, (σ.raft.nodes server).applier, σ.raft.applierSend server with
  | .receiving, .sending (.command (some op) commandId), some raft =>
    let (sm, value) := machine.doOp rsm.sm op.req
    some { σ.setRsm server { rsm with
        sm
        reader := .executed commandId op value
        done := (commandId, op, value) :: rsm.done } with
      raft }
  | .receiving, .sending (.command none _), some raft =>
    some (σ.withRaft machine (raft.restart server (raft.nodes server).persister))
  | .receiving, .sending (.snapshot data _ snapshotIndex), some raft =>
    some { σ.setRsm server { rsm with
        sm := machine.restore data rsm.sm
        reader := .restored snapshotIndex } with
      raft }
  | _, _, _ => none

/-- The log has grown past `maxraftstate`; sizes are not modelled, so it may have
done so after any command. A second snapshot at the same index changes nothing. -/
def snapshot (server : Fin n) : Option (Service n M Req Val) :=
  match (σ.rsm server).reader with
  | .executed commandId _ _ => do
    let raft ← σ.raft.snapshot server commandId (machine.snapshot (σ.rsm server).sm)
    some (σ.withRaft machine raft)
  | _ => none

/-- `readApply` looks for a submission waiting at the index just applied. -/
def lookup (server : Fin n) : Option (Service n M Req Val) :=
  let rsm := σ.rsm server
  match rsm.reader with
  | .executed commandId op value =>
    match rsm.channelAt commandId with
    | some channel =>
      some (σ.setRsm server { rsm with
        reader := .sending channel { opId := op.id, value := some value } })
    | none => some (σ.setRsm server { rsm with reader := .receiving })
  | _ => none

def send (server : Fin n) : Option (Service n M Req Val) :=
  let rsm := σ.rsm server
  match rsm.reader with
  | .sending channel result => do
    let rsm ← rsm.deliver channel result
    some (σ.setRsm server { rsm with reader := .receiving })
  | _ => none

/-- After a snapshot: every submission at or below it is to be told. -/
def lock (server : Fin n) : Option (Service n M Req Val) :=
  let rsm := σ.rsm server
  match rsm.reader with
  | .restored snapshotIndex =>
    some (σ.setRsm server { rsm with
      reader := .expiring
        ((rsm.resultByCommandId.filter (·.1 ≤ snapshotIndex)).map (·.2)) })
  | _ => none

/-- The map is iterated in any order. -/
def expire (server : Fin n) (position : Nat) : Option (Service n M Req Val) :=
  let rsm := σ.rsm server
  match rsm.reader with
  | .expiring channels => do
    let channel ← channels[position]?
    let rsm ← rsm.deliver channel { opId := -1, value := none }
    some (σ.setRsm server { rsm with reader := .expiring (channels.eraseIdx position) })
  | _ => none

def unlock (server : Fin n) : Option (Service n M Req Val) :=
  match (σ.rsm server).reader with
  | .expiring [] => some (σ.setRsm server { σ.rsm server with reader := .receiving })
  | _ => none

def step : ServiceAction n Req → Option (Service n M Req Val)
  | .raft action =>
    if internal action then (σ.raft.step action).map (σ.withRaft machine) else none
  | .submit server req => some (σ.submit server req)
  | .refuse server channel => σ.refuse server channel
  | .start server channel => σ.start server channel
  | .leave server channel => σ.leave server channel
  | .take server channel => σ.take server channel
  | .finish server channel => σ.finish server channel
  | .receive server => σ.receive machine server
  | .snapshot server => σ.snapshot machine server
  | .lookup server => σ.lookup server
  | .send server => σ.send server
  | .lock server => σ.lock server
  | .expire server position => σ.expire server position
  | .unlock server => σ.unlock server

end Service

end KvStore
