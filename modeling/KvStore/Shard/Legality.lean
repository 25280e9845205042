import KvStore.Shard.Controllers
import KvStore.Shard.Migration

set_option autoImplicit false

/-! When no group refuses a migration request as illegal. A goroutine that moves a shard
from one configuration to the very next one always sends a legal request; one that skips
a configuration need not. -/

namespace KvStore.Shard

/-- The error of an answer to a migration request. -/
def Reply.migrationErr : Reply → Option Err
  | .freezeShard _ _ err | .installShard err | .deleteShard err => some err
  | .get _ _ _ | .put _ => none

/-- An answer to a migration request says that all is well. -/
def Reply.Fine (reply : Reply) : Prop :=
  ∀ err, reply.migrationErr = some err → err = .ok

namespace KVServer

variable {kv kv' : KVServer} {shid : Shid} {num : Nat} {reply : Reply}

theorem doFreezeShard_fine (done : kv.doFreezeShard shid num = some (kv', reply))
    (fresh : kv.cfgNumByShid shid < num → kv.shardStatuses shid = .serving)
    (again : kv.cfgNumByShid shid = num → kv.shardStatuses shid ≠ .serving) : reply.Fine := by
  have good : ∀ state at_, (Reply.freezeShard state at_ .ok).Fine :=
    fun state at_ err same => (Option.some.inj same).symm
  unfold doFreezeShard at done
  dsimp only at done
  split at done
  · rename_i later
    rw [fresh later] at done
    obtain ⟨state, _, rest⟩ := Option.bind_eq_some_iff.mp done
    obtain ⟨_, rfl⟩ := Prod.mk.inj (Option.some.inj rest)
    exact good _ _
  · split at done
    · rename_i same
      split at done
      · rename_i serving
        exact absurd serving (again same.symm)
      · obtain ⟨state, _, rest⟩ := Option.bind_eq_some_iff.mp done
        obtain ⟨_, rfl⟩ := Prod.mk.inj (Option.some.inj rest)
        exact good _ _
    · obtain ⟨_, rfl⟩ := Prod.mk.inj (Option.some.inj done)
      exact good _ _

theorem doInstallShard_fine {state : Packed}
    (done : kv.doInstallShard shid state num = some (kv', reply))
    (fresh : kv.cfgNumByShid shid < num → kv.shardStatuses shid = .absent)
    (again : kv.cfgNumByShid shid = num → kv.shardStatuses shid = .serving) : reply.Fine := by
  have good : (Reply.installShard .ok).Fine := fun err same => (Option.some.inj same).symm
  rcases doInstallShard_cases done with ⟨_, _, _, _, _, rfl⟩ | ⟨_, _, rfl⟩ | ⟨_, _, rfl⟩
  · exact good
  · exact good
  · unfold doInstallShard at done
    dsimp only at done
    split at done
    · rename_i later
      rw [fresh later] at done
      obtain ⟨loaded, _, rest⟩ := Option.bind_eq_some_iff.mp done
      cases rest
    · split at done
      · rename_i same
        rw [again same.symm] at done
        cases done
      · cases done

theorem doDeleteShard_fine (passed : num ≤ kv.cfgNumByShid shid)
    (again : kv.cfgNumByShid shid = num → kv.shardStatuses shid ≠ .serving) :
    (kv.doDeleteShard shid num).2.Fine := by
  have good : (Reply.deleteShard .ok).Fine := fun err same => (Option.some.inj same).symm
  unfold doDeleteShard
  dsimp only
  split
  · rename_i same
    split
    · exact good
    · exact good
    · rename_i serving
      exact absurd serving (again same.symm)
  · rename_i differs
    split
    · omega
    · exact good

end KVServer

variable {a a' : Shid → Protocol} {σ σ' : System} {action : Action} {i k : Nat}

/-- The number is the next one after a number with another owner. -/
def Moves (a : Shid → Protocol) (s : Shid) (prev num : Nat) : Prop :=
  num = prev + 1 ∧ (a s).owner prev ≠ (a s).owner num ∧ num ≤ (a s).next

/-- A migration request moves a shard by one configuration, and goes to the right group. -/
def Successive (a : Shid → Protocol) (call : GroupCall) : Prop :=
  match call.request with
  | .freezeShard s num | .deleteShard s num =>
    ∃ prev, Moves a s prev num ∧ call.gid = (a s).owner prev
  | .installShard s _ num => ∃ prev, Moves a s prev num
  | _ => True

theorem Moves.mono {s : Shid} {prev num : Nat} (moves : Moves a s prev num)
    (growth : Growth a a') : Moves a' s prev num := by
  obtain ⟨succ, differs, known⟩ := moves
  refine ⟨succ, ?_, known.trans (growth.grows s).next⟩
  rw [(growth.grows s).owner num known, (growth.grows s).owner prev (by omega)]
  exact differs

theorem Successive.mono {call : GroupCall} (successive : Successive a call)
    (growth : Growth a a') : Successive a' call := by
  have there : ∀ {s prev num}, Moves a s prev num ∧ call.gid = (a s).owner prev →
      Moves a' s prev num ∧ call.gid = (a' s).owner prev := by
    intro s prev num ⟨moves, target⟩
    have known := moves.2.2
    have succ := moves.1
    exact ⟨moves.mono growth, by rw [target, (growth.grows s).owner prev (by omega)]⟩
  unfold Successive at successive ⊢
  split at successive
  · obtain ⟨prev, moves⟩ := successive
    exact ⟨prev, there moves⟩
  · obtain ⟨prev, moves⟩ := successive
    exact ⟨prev, there moves⟩
  · obtain ⟨prev, moves⟩ := successive
    exact ⟨prev, moves.mono growth⟩
  · trivial

/-- A request that moves a shard by one configuration is not refused. -/
theorem Rel.answers_fine (rel : Rel a σ) {call : GroupCall} {kv' : KVServer} {reply : Reply}
    (found : σ.groupCalls[k]? = some call) (successive : Successive a call)
    (done : (σ.groups call.gid).doOp call.request = some (kv', reply)) : reply.Fine := by
  have sent := rel.promises.calls call (List.mem_of_getElem? found)
  obtain ⟨gid, request, caller⟩ := call
  have held : ∀ s g, (σ.groups g).cfgNumByShid s = ((a s).holders g).num ∧
      (σ.groups g).shardStatuses s = ((a s).holders g).status := by
    intro s g
    rw [rel.holders]
    exact ⟨rfl, rfl⟩
  cases request with
  | get key =>
    obtain rfl : ((σ.groups gid).doGet key).2 = reply := congrArg Prod.snd (Option.some.inj done)
    unfold KVServer.doGet getReply
    dsimp only
    split
    · exact nofun
    · split <;> exact nofun
  | put clientId requestId key value version =>
    rcases KVServer.doPut_cases done with ⟨_, _, rfl⟩ | ⟨_, _, _, _, rfl⟩ |
      ⟨_, _, _, _, _, _, _, _, rfl⟩ <;> exact nofun
  | freezeShard s num =>
    obtain ⟨prev, ⟨rfl, differs, known⟩, rfl⟩ := successive
    have legal := (rel.inv s).freeze_legal differs known
    rw [← (held s _).1, ← (held s _).2] at legal
    exact KVServer.doFreezeShard_fine done legal.1 legal.2
  | installShard s state num =>
    obtain ⟨prev, rfl, differs, known⟩ := successive
    obtain ⟨rfl, installs⟩ : CallRel a _ := sent
    have legal := (rel.inv s).install_legal differs ((rel.inv s).installs _ _ installs)
    rw [← (held s _).1, ← (held s _).2] at legal
    exact KVServer.doInstallShard_fine done legal.1 legal.2
  | deleteShard s num =>
    obtain ⟨prev, ⟨rfl, differs, known⟩, rfl⟩ := successive
    have deletes : (a s).deletes ((a s).owner prev) (prev + 1) := sent
    have legal := (rel.inv s).delete_legal differs ((rel.inv s).deletes _ _ deletes)
    rw [← (held s _).1, ← (held s _).2] at legal
    obtain rfl : ((σ.groups ((a s).owner prev)).doDeleteShard s (prev + 1)).2 = reply :=
      congrArg Prod.snd (Option.some.inj done)
    exact KVServer.doDeleteShard_fine legal.1 legal.2

/-- A migrating operation goes from one configuration to the next. -/
def Operation.Successive : Operation → Prop
  | .migrate newCfg old _ _ => newCfg.num = old.num + 1
  | _ => True

/-- The goroutines of an operation that goes to the next configuration send requests that
move a shard by one configuration. -/
theorem stage_successive {newCfg old : ShardConfig} {ver : Nat} {s : Shid} {stage : Stage}
    (past : Past a old ver) (known : Known a newCfg) (succ : newCfg.num = old.num + 1)
    (moves : old.shards s ≠ newCfg.shards s) (i : Nat) :
    Successive a (System.callOf newCfg old i s stage) := by
  obtain ⟨_, source⟩ := past.2 s
  obtain ⟨bound, target⟩ := known s
  have moved : Moves a s old.num newCfg.num :=
    ⟨succ, by rw [← source, ← target]; exact moves, bound⟩
  cases stage with
  | freeze => exact ⟨old.num, moved, source⟩
  | install state => exact ⟨old.num, moved⟩
  | delete => exact ⟨old.num, moved, source⟩

/-- Every migration under way goes to the next configuration, so every request does, and
no answer is a refusal. -/
structure Careful (a : Shid → Protocol) (σ : System) : Prop where
  operations : ∀ operation ∈ σ.operations, operation.Successive
  calls : ∀ call ∈ σ.groupCalls, Successive a call
  replies : ∀ k reply, (k, reply) ∈ σ.groupReplies → reply.Fine

namespace System

/-- `InitController` reads a next configuration at most one ahead of the current
configuration it has read before. -/
def resumesNext (σ : System) : Action → Bool
  | .read i =>
    match σ.operations[i]?, σ.configStore .nextConfig with
    | some (.initNext old _), some held => held.value.num ≤ old.num + 1
    | _, _ => true
  | _ => true

theorem resumesNext_read {old : ShardConfig} {ver : Nat} {held : VersionedValue ShardConfig}
    (admitted : σ.resumesNext (.read i) = true)
    (found : σ.operations[i]? = some (.initNext old ver))
    (stored : σ.configStore .nextConfig = some held) : held.value.num ≤ old.num + 1 := by
  simp only [resumesNext, found, stored, decide_eq_true_eq] at admitted
  exact admitted

theorem advances_successive {operation operation' : Operation}
    (admitted : σ.resumesNext action = true) (found : σ.operations[i]? = some operation)
    (rel : OperationRel a σ.storePuts σ.groupCalls operation) (before : operation.Successive)
    (advances : Advances σ action i operation operation') : operation'.Successive := by
  cases advances with
  | resume reads stored pending =>
    subst reads
    have bound := resumesNext_read admitted found stored
    exact Nat.le_antisymm bound pending
  | saved => exact rel.2.1
  | saveCheck => exact rel.2
  | worker => exact before
  | _ => trivial

theorem operations_successive (rel : Rel a σ) (careful : Careful a σ)
    (admitted : σ.resumesNext action = true) (control : ControlStep σ action σ') :
    ∀ operation ∈ σ'.operations, operation.Successive := by
  intro operation member
  cases control with
  | elsewhere _ operations | executed _ operations =>
    rw [operations] at member
    exact careful.operations operation member
  | begun _ operations first =>
    rw [operations] at member
    rcases List.mem_append.mp member with old | new
    · exact careful.operations operation old
    · rw [List.mem_singleton.mp new]
      rcases first with rfl | ⟨newCfg, rfl⟩ <;> trivial
  | advanced _ found operations advances =>
    rw [operations] at member
    rcases List.mem_or_eq_of_mem_set member with old | rfl
    · exact careful.operations operation old
    · have there := List.mem_of_getElem? found
      exact advances_successive admitted found (rel.promises.operations _ there)
        (careful.operations _ there) advances
  | sent _ _ _ operations _ sends =>
    rw [operations] at member
    rcases List.mem_or_eq_of_mem_set member with old | rfl
    · exact careful.operations operation old
    · cases sends <;> trivial

theorem calls_successive (rel : Rel a σ) (growth : Growth a a') (careful : Careful a σ)
    (moved : σ.step action = some σ') : ∀ call ∈ σ'.groupCalls, Successive a' call := by
  intro call member
  cases calls_sent moved call member with
  | before old => exact (careful.calls call old).mono growth
  | client client request _ =>
    obtain ⟨clerk, op, requestId, phase⟩ := client
    unfold Successive
    rw [request]
    cases op <;> trivial
  | @worker i newCfg old ver workers s stage waiting found running same =>
    rw [same]
    have there := List.mem_of_getElem? found
    obtain ⟨past, known, _, others⟩ := rel.promises.operations _ there
    have worker := others s
    rw [running] at worker
    exact stage_successive (past.mono growth) (known.mono growth)
      (careful.operations _ there) worker.1 i

theorem replies_fine (rel : Rel a σ) (careful : Careful a σ) (moved : σ.step action = some σ') :
    ∀ k reply, (k, reply) ∈ σ'.groupReplies → reply.Fine := by
  intro k reply member
  rcases step_cases moved with controls | ⟨k', executes⟩ | ⟨clerk, op, rfl⟩ | ⟨i, acquires⟩ |
    ⟨i, q, attempts⟩ | ⟨i, j, answers⟩
  · rw [controls.replies] at member
    exact careful.replies k reply member
  · obtain ⟨call, found, outcome⟩ := execute_cases executes
    rcases outcome with ⟨kv', answer, done, rfl⟩ | ⟨_, rfl⟩
    · rcases List.mem_cons.mp member with new | old
      · obtain ⟨rfl, rfl⟩ := Prod.mk.inj new
        exact rel.answers_fine found (careful.calls call (List.mem_of_getElem? found)) done
      · exact careful.replies k reply old
    · exact careful.replies k reply member
  · exact careful.replies k reply member
  · obtain ⟨_, _, _, _, rfl⟩ := acquire_inversion acquires
    exact careful.replies k reply member
  · obtain ⟨_, _, _, _, _, rfl⟩ := attempt_inversion attempts
    exact careful.replies k reply member
  · obtain ⟨_, _, _, _, _, _, _, rfl⟩ := answer_inversion answers
    exact careful.replies k reply member

end System

theorem Careful.step (careful : Careful a σ) (rel : Rel a σ) (growth : Growth a a')
    (admitted : σ.resumesNext action = true) (moved : σ.step action = some σ') :
    Careful a' σ' where
  operations := System.operations_successive rel careful admitted (System.control_step moved)
  calls := System.calls_successive rel growth careful moved
  replies := System.replies_fine rel careful moved

/-- With an answer that is fine a goroutine goes on. -/
theorem stage_goes_on {newCfg old : ShardConfig} {s : Shid} {stage : Stage} {call : GroupCall}
    {reply : Reply} (mine : (call.gid, call.request) = stage.target newCfg old s)
    (answered : ReplyRel a call reply) (fine : reply.Fine) : stage.next reply ≠ none := by
  obtain ⟨gid, request, caller⟩ := call
  cases stage with
  | freeze =>
    obtain ⟨rfl, rfl⟩ := Prod.mk.inj mine
    cases reply with
    | freezeShard state num err =>
      obtain rfl := fine err rfl
      exact nofun
    | _ => exact answered.elim
  | install state =>
    obtain ⟨rfl, rfl⟩ := Prod.mk.inj mine
    cases reply with
    | installShard err =>
      obtain rfl := fine err rfl
      exact nofun
    | _ => exact answered.elim
  | delete =>
    obtain ⟨rfl, rfl⟩ := Prod.mk.inj mine
    cases reply with
    | deleteShard err =>
      obtain rfl := fine err rfl
      exact nofun
    | _ => exact answered.elim

namespace System

variable {servers : List String} {trace : List System}

/-- The runs in which no `InitController` pairs a current configuration with a next one
further ahead than the very next. -/
abbrev CarefulRun (servers : List String) (trace : List System) : Prop :=
  Runs.Run step (fun σ action => σ.resumesNext action = true) (init servers) trace

theorem CarefulRun.careful (run : CarefulRun servers trace) :
    ∀ σ ∈ trace, ∃ a, Rel a σ ∧ Careful a σ := by
  refine Runs.Run.invariant run ⟨_, init_rel servers, nofun, nofun, nofun⟩ ?_
  intro before action after admitted moved ⟨a, rel, careful⟩
  obtain ⟨a', follows, rel'⟩ := rel.step moved
  exact ⟨a', rel', careful.step rel (follows.growth rel.inv) admitted moved⟩

/-- No migration request is answered as illegal, and no clerk panics over an answer. -/
theorem migrations_legal (run : CarefulRun servers trace) :
    ∀ σ ∈ trace,
      (∀ k reply, (k, reply) ∈ σ.groupReplies →
        reply.migrationErr ≠ some .illegalOperation) ∧
      ∀ (i : Nat) (newCfg old : ShardConfig) (ver : Nat) (workers : Shid → Worker) (s : Shid)
        (stage : Stage) (k : Nat) (reply : Reply),
        σ.operations[i]? = some (.migrate newCfg old ver workers) →
        workers s = .running stage (some k) → (k, reply) ∈ σ.groupReplies →
        stage.next reply ≠ none := by
  intro σ member
  obtain ⟨a, rel, careful⟩ := run.careful σ member
  constructor
  · intro k reply replied illegal
    cases careful.replies k reply replied _ illegal
  · intro i newCfg old ver workers s stage k reply found running replied
    obtain ⟨_, _, _, others⟩ := rel.promises.operations _ (List.mem_of_getElem? found)
    have worker := others s
    rw [running] at worker
    obtain ⟨call, sent, mine⟩ := worker.2.2 k rfl
    obtain ⟨call', sent', answered⟩ := rel.promises.replies k reply replied
    obtain rfl : call = call' := Option.some.inj (sent.symm.trans sent')
    exact stage_goes_on mine answered (careful.replies k reply replied)

/-- A controller saves a configuration and stops; another one finds it and moves shard 4. -/
def recovering : List Action :=
  calledMove ++ ([.read 0, .read 0, .put 0, .storeExecute 0, .initController, .read 1, .read 1,
    .send 1 4, .execute 0, .receive 1 4 0, .send 1 4, .execute 1, .receive 1 4 0, .send 1 4,
    .execute 2] : List Action)

theorem recovering_done :
    (Runs.execute (Runs.guarded step resumesNext) (init ["a"]) recovering).isSome := by
  decide +kernel

theorem migrations_legal_recovered :
    ∃ trace σ, CarefulRun ["a"] trace ∧ σ ∈ trace ∧ (2, .deleteShard .ok) ∈ σ.groupReplies ∧
      ∀ k reply, (k, reply) ∈ σ.groupReplies →
        reply.migrationErr ≠ some .illegalOperation := by
  obtain ⟨past, run⟩ := Runs.Run.reached step resumesNext (init ["a"]) recovering recovering_done
  refine ⟨_, _, run, List.mem_cons_self .., List.mem_of_getElem? (i := 0) rfl, ?_⟩
  exact (migrations_legal run _ (List.mem_cons_self ..)).1

/-- Group 3 joins groups 1 and 2. -/
def joinedAgain : ShardConfig :=
  ((joined.joinBalance [(3, ["c"])]).getD (joined, false)).1

/-- A new controller reads the first configuration as the current one and stalls. Another
one moves on to the second configuration, and a third one saves the third. The first one
now finds the third as the next one and asks `gid1` to freeze a shard it has given away. -/
def skippedConfig : List Action :=
  calledMove ++ ([.initController, .read 1, .read 0, .read 0, .put 0, .storeExecute 0,
    .putReply 0 0] : List Action) ++
  moveShard 0 0 ++ moveShard 1 3 ++ moveShard 2 6 ++ moveShard 3 9 ++ moveShard 4 12 ++
  moveShard 5 15 ++ ([.join 0, .put 0, .storeExecute 1, .query, .changeConfigTo 1 joinedAgain,
    .read 2, .read 2, .put 2, .storeExecute 2, .read 1, .send 1 0, .execute 18,
    .receive 1 0 0] : List Action)

theorem skippedConfig_done :
    (joining [[(2, ["b"])], [(3, ["c"])]] skippedConfig).isSome := by decide +kernel

/-- The freeze is refused as illegal, and the clerk of the controller panics. -/
theorem migrations_illegal :
    ∃ trace σ call, Runs.Run step Callers (init ["a"]) trace ∧ σ ∈ trace ∧
      σ.groupCalls[18]? = some call ∧ call = ⟨gid1, .freezeShard 0 3, .worker 1 0⟩ ∧
      (18, .freezeShard none 2 .illegalOperation) ∈ σ.groupReplies ∧
      σ.operations[1]? = some .stopped := by
  obtain ⟨past, run⟩ := joining_reached _ skippedConfig skippedConfig_done
  exact ⟨_, _, _, run, List.mem_cons_self .., rfl, rfl, List.mem_of_getElem? (i := 0) rfl, rfl⟩

end System

end KvStore.Shard
