import KvStore.Rsm.Linearizable
import KvStore.Shard.Group
import KvStore.Shard.System

set_option autoImplicit false

/-! The sharded store as it is deployed: every shard group is a set of replicas that
execute requests in the order of their Raft log, with elections, crashes, snapshots and
restarts, where `System` has one state that executes them at once. -/

namespace KvStore.Shard

/-- The request as it goes through the log; everything that travels is finite. -/
noncomputable def Request.command : Request → Option Command
  | .get key => some ⟨.get key, trivial⟩
  | .put clientId requestId key value version =>
    some ⟨.put clientId requestId key value version, trivial⟩
  | .freezeShard shard num => some ⟨.freezeShard shard num, trivial⟩
  | .installShard shard none num => some ⟨.installShard shard none num, trivial⟩
  | .installShard shard (some state) num =>
    open Classical in
    if small : Finitary state.kv then some ⟨.installShard shard (some state) num, small⟩ else none
  | .deleteShard shard num => some ⟨.deleteShard shard num, trivial⟩

theorem Request.command_val {request : Request} {req : Command}
    (sent : request.command = some req) : req.val = request := by
  unfold command at sent
  split at sent
  case h_5 =>
    split at sent
    · rw [← Option.some.inj sent]
    · cases sent
  all_goals rw [← Option.some.inj sent]

theorem Request.Finite.command {request : Request} (small : request.Finite) :
    request.command = some ⟨request, small⟩ := by
  cases request with
  | installShard shard state num =>
    cases state with
    | none => rfl
    | some state => exact dif_pos small
  | _ => rfl

/-- An RPC that has reached a replica: the request it carries, and the command that the
handler there has submitted. -/
structure Attempt (n : Nat) where
  gid : Gid
  call : Nat
  op : Op n Command

/-- `front` holds the clerks, the controllers, the config store and the messages; its own
groups take no part. -/
structure Deployed (n : Nat) where
  front : System
  services : Gid → Service n Replica Command (Option Reply)
  attempts : List (Attempt n)

namespace Deployed

inductive Action (n : Nat)
  | front (action : Shard.Action)
  | service (gid : Gid) (action : ServiceAction n Command)
  | serve (call : Nat) (server : Fin n)
  | reply (attempt : Nat)

variable {n : Nat} (gob : ReplicaGob) (δ : Deployed n)

def init (n : Nat) (servers : List String) : Deployed n where
  front := .init servers
  services gid := .init (group gob gid) n
  attempts := []

def setService (gid : Gid) (service : Service n Replica Command (Option Reply)) : Deployed n :=
  { δ with services := Function.update δ.services gid service }

/-- Clerks, controllers and the config store move as they do in `System`. -/
def frontStep (action : Shard.Action) : Option (Deployed n) :=
  match action with
  | .execute _ => none
  | action => (δ.front.step action).map fun front => { δ with front }

/-- The replicas of a group move without a call of a handler. -/
def serviceStep (gid : Gid) (action : ServiceAction n Command) : Option (Deployed n) :=
  match action with
  | .submit _ _ => none
  | action => ((δ.services gid).step (group gob gid) action).map (δ.setService gid)

/-- The command that a `Submit` at the replica would make now. -/
def nextOp (gid : Gid) (server : Fin n) (req : Command) : Op n Command where
  me := server
  id := ((δ.services gid).rsm server).nextOpId
  req := req
  incarnation := (δ.services gid).raft.incarnation server

/-- A request reaches a replica of its group, whose handler calls `Submit`. The clerk of
the group tries its servers in turn, so it may reach any of them and do so again. -/
noncomputable def serve (k : Nat) (server : Fin n) : Option (Deployed n) := do
  let call ← δ.front.groupCalls[k]?
  let command ← call.request.command
  some { δ.setService call.gid ((δ.services call.gid).submit server command) with
    attempts := δ.attempts ++
      [{ gid := call.gid, call := k, op := δ.nextOp call.gid server command }] }

/-- `Submit` has returned to the handler with OK, in a process that still runs, and the
handler answers. After an error the clerk of the group tries another server. -/
def reply (a : Nat) : Option (Deployed n) := do
  let attempt ← δ.attempts[a]?
  let service := δ.services attempt.gid
  if attempt.op.incarnation = service.raft.incarnation attempt.op.me then
    let submission ← (service.rsm attempt.op.me).submits[attempt.op.id - 1]?
    match submission.phase with
    | .returned .ok (some (some reply)) =>
      some { δ with front := { δ.front with
        groupReplies := (attempt.call, reply) :: δ.front.groupReplies } }
    | _ => none
  else none

noncomputable def step (δ : Deployed n) : Action n → Option (Deployed n)
  | .front action => δ.frontStep action
  | .service gid action => δ.serviceStep gob gid action
  | .serve k server => δ.serve k server
  | .reply a => δ.reply a

/-- In every group, an `AppendEntries` or `InstallSnapshot` reply that raises a match index is
handled in the term of its request, and a command with the id of the `Submit` that waits at
its index was created by the same process, not by another server or an earlier process of
this one. -/
def admitted (δ : Deployed n) : Action n → Bool
  | .service gid action => (δ.services gid).freshAck action && (δ.services gid).ownResult action
  | _ => true

abbrev Run (gob : ReplicaGob) (servers : List String) (trace : List (Deployed n)) : Prop :=
  Runs.Run (step gob) (fun δ action => δ.admitted action = true) (init gob n servers) trace

variable {gob δ} {δ' : Deployed n}

@[simp] theorem setService_self (gid : Gid) (service : Service n Replica Command (Option Reply)) :
    (δ.setService gid service).services gid = service :=
  Function.update_self ..

@[simp] theorem setService_of_ne {gid g : Gid} (other : g ≠ gid)
    (service : Service n Replica Command (Option Reply)) :
    (δ.setService gid service).services g = δ.services g :=
  Function.update_of_ne other ..

theorem frontStep_inversion {action : Shard.Action} (moved : δ.frontStep action = some δ') :
    (∀ k, action ≠ .execute k) ∧ ∃ front, δ.front.step action = some front ∧
      δ' = { δ with front } := by
  unfold frontStep at moved
  split at moved
  · cases moved
  · rename_i other
    obtain ⟨front, below, rfl⟩ := Option.map_eq_some_iff.mp moved
    exact ⟨fun k same => other k same, front, below, rfl⟩

theorem serviceStep_inversion {gid : Gid} {action : ServiceAction n Command}
    (moved : δ.serviceStep gob gid action = some δ') :
    (∀ server req, action ≠ .submit server req) ∧
      ∃ service, (δ.services gid).step (group gob gid) action = some service ∧
      δ' = δ.setService gid service := by
  unfold serviceStep at moved
  split at moved
  · cases moved
  · rename_i other
    obtain ⟨service, below, rfl⟩ := Option.map_eq_some_iff.mp moved
    exact ⟨fun server req same => other server req same, service, below, rfl⟩

theorem serve_inversion {k : Nat} {server : Fin n} (moved : δ.serve k server = some δ') :
    ∃ call command, δ.front.groupCalls[k]? = some call ∧ call.request.command = some command ∧
      δ' = { δ.setService call.gid ((δ.services call.gid).submit server command) with
        attempts := δ.attempts ++
          [{ gid := call.gid, call := k, op := δ.nextOp call.gid server command }] } := by
  obtain ⟨call, found, rest⟩ := Option.bind_eq_some_iff.mp moved
  obtain ⟨command, sent, rest⟩ := Option.bind_eq_some_iff.mp rest
  exact ⟨call, command, found, sent, (Option.some.inj rest).symm⟩

theorem reply_inversion {a : Nat} (moved : δ.reply a = some δ') :
    ∃ attempt submission reply, δ.attempts[a]? = some attempt ∧
      attempt.op.incarnation = (δ.services attempt.gid).raft.incarnation attempt.op.me ∧
      ((δ.services attempt.gid).rsm attempt.op.me).submits[attempt.op.id - 1]? =
        some submission ∧
      submission.phase = .returned .ok (some (some reply)) ∧
      δ' = { δ with front := { δ.front with
        groupReplies := (attempt.call, reply) :: δ.front.groupReplies } } := by
  obtain ⟨attempt, found, rest⟩ := Option.bind_eq_some_iff.mp moved
  dsimp only at rest
  split at rest
  · rename_i alive
    obtain ⟨submission, there, rest⟩ := Option.bind_eq_some_iff.mp rest
    split at rest
    · rename_i reply back
      exact ⟨attempt, submission, reply, found, alive, there, back, (Option.some.inj rest).symm⟩
    · cases rest
  · cases rest

end Deployed

end KvStore.Shard
