import KvStore.Shard.ConfigStore
import KvStore.Shard.Legality
import KvStore.Shard.Representation

set_option autoImplicit false

/-! Recovery: no request kills a group, so a controller that finds a pending
configuration and is left alone can finish the migration, if the groups concerned have
servers. -/

namespace KvStore.Shard

variable {a : Shid → Protocol} {σ σ' : System} {servers : List String} {trace past : List System}

theorem KVServer.doInstallShard_idle {kv : KVServer} {shid : Shid} {num : Nat} (state : Packed)
    (idle : ¬(kv.cfgNumByShid shid < num ∧ kv.shardStatuses shid = .absent)) :
    ∃ result, kv.doInstallShard shid state num = some result := by
  unfold doInstallShard
  dsimp only
  split
  · rename_i later
    split
    · rename_i absent
      exact absurd ⟨later, absent⟩ idle
    · exact ⟨_, rfl⟩
  · split
    · split <;> exact ⟨_, rfl⟩
    · exact ⟨_, rfl⟩

/-- A nil state is only ever sent for a number the group has passed. -/
theorem Rel.doOp_total (rel : Rel a σ) {k : Nat} {call : GroupCall}
    (intact : (σ.groups call.gid).Intact) (found : σ.groupCalls[k]? = some call) :
    ∃ result, (σ.groups call.gid).doOp call.request = some result := by
  obtain ⟨gid, request, caller⟩ := call
  cases request with
  | installShard s state num =>
    by_cases accepted : (σ.groups gid).cfgNumByShid s < num ∧
        (σ.groups gid).shardStatuses s = .absent
    · obtain ⟨_, packed, _, rfl, _⟩ := rel.installed_justified found accepted.1 accepted.2
      exact (σ.groups gid).doInstallShard_total s packed num
    · exact KVServer.doInstallShard_idle state accepted
  | _ => exact intact.doOp_total (by simp)

namespace System

/-- The handoff protocol is followed and every group is alive, with its maps in place. -/
structure Healthy (σ : System) : Prop where
  simulated : ∃ a, Rel a σ
  intact : ∀ g, (σ.groups g).Intact
  alive : σ.halted = []

theorem init_healthy (servers : List String) : (init servers).Healthy :=
  ⟨⟨_, init_rel servers⟩, KVServer.start_intact, rfl⟩

/-- Only the execution of a request touches a group. -/
theorem step_groups {action : Action} (moved : σ.step action = some σ') :
    (σ'.groups = σ.groups ∧ σ'.halted = σ.halted) ∨ ∃ k, σ.execute k = some σ' := by
  cases action with
  | execute k => exact Or.inr ⟨k, moved⟩
  | query =>
    obtain ⟨_, _, rfl⟩ := query_inversion moved
    exact Or.inl ⟨rfl, rfl⟩
  | storeExecute k =>
    obtain ⟨_, _, rfl⟩ := storeExecute_inversion moved
    exact Or.inl ⟨rfl, rfl⟩
  | initController | invoke =>
    obtain rfl := Option.some.inj moved
    exact Or.inl ⟨rfl, rfl⟩
  | changeConfigTo q newCfg =>
    obtain ⟨_, _, _, rfl⟩ := changeConfigTo_inversion moved
    exact Or.inl ⟨rfl, rfl⟩
  | read i =>
    obtain ⟨_, _, _, _, rfl⟩ := read_cases moved
    exact Or.inl ⟨rfl, rfl⟩
  | put i =>
    rcases put_cases moved with ⟨_, _, _, _, _, _, _, rfl⟩ | ⟨_, _, _, _, rfl⟩ <;>
      exact Or.inl ⟨rfl, rfl⟩
  | putReply i j =>
    obtain ⟨_, _, _, _, rfl⟩ := putReply_cases moved
    exact Or.inl ⟨rfl, rfl⟩
  | send i s =>
    obtain ⟨_, _, _, _, _, _, _, _, rfl⟩ := send_inversion moved
    exact Or.inl ⟨rfl, rfl⟩
  | receive i s j =>
    obtain ⟨_, _, _, _, _, _, _, _, _, _, ⟨_, _, rfl⟩ | ⟨_, rfl⟩⟩ := receive_cases moved <;>
      exact Or.inl ⟨rfl, rfl⟩
  | check i s =>
    obtain ⟨_, _, _, _, _, rfl⟩ := check_inversion moved
    exact Or.inl ⟨rfl, rfl⟩
  | join i =>
    obtain ⟨_, _, _, _, _, _, _, rfl⟩ := join_cases moved
    exact Or.inl ⟨rfl, rfl⟩
  | acquire i =>
    obtain ⟨_, _, _, _, rfl⟩ := acquire_inversion moved
    exact Or.inl ⟨rfl, rfl⟩
  | attempt i q =>
    obtain ⟨_, _, _, _, _, rfl⟩ := attempt_inversion moved
    exact Or.inl ⟨rfl, rfl⟩
  | answer i j =>
    obtain ⟨_, _, _, _, _, _, _, rfl⟩ := answer_inversion moved
    exact Or.inl ⟨rfl, rfl⟩

theorem Healthy.step (healthy : σ.Healthy) {action : Action} (moved : σ.step action = some σ') :
    σ'.Healthy := by
  obtain ⟨a, rel⟩ := healthy.simulated
  obtain ⟨a', _, rel'⟩ := rel.step moved
  rcases step_groups moved with ⟨groups, halted⟩ | ⟨k, executes⟩
  · exact ⟨⟨a', rel'⟩, groups ▸ healthy.intact, halted ▸ healthy.alive⟩
  · obtain ⟨call, found, outcome⟩ := execute_cases executes
    rcases outcome with ⟨kv', reply, done, rfl⟩ | ⟨died, rfl⟩
    · refine ⟨⟨a', rel'⟩, fun g => ?_, healthy.alive⟩
      dsimp only [replied]
      by_cases here : g = call.gid
      · rw [here, Function.update_self]
        exact KVServer.doOp_intact (healthy.intact call.gid) done
      · rw [Function.update_of_ne here]
        exact healthy.intact g
    · obtain ⟨result, done⟩ := rel.doOp_total (healthy.intact call.gid) found
      rw [died] at done
      cases done

theorem Run.healthy (run : Run servers trace) : ∀ σ ∈ trace, σ.Healthy := by
  refine run.invariant (init_healthy servers) ?_
  intro before action after _ moved healthy
  exact healthy.step moved

variable {reply : Reply}

/-- A request that is on its way is executed. -/
theorem Healthy.executes (healthy : σ.Healthy) {k : Nat} {call : GroupCall} {kv' : KVServer}
    (found : σ.groupCalls[k]? = some call)
    (done : (σ.groups call.gid).doOp call.request = some (kv', reply)) :
    σ.execute k = some (σ.replied k call kv' reply) := by
  simp only [execute, found, healthy.alive, List.not_mem_nil, ↓reduceIte, done, replied,
    Option.bind_eq_bind, Option.bind_some]

/-- No group ever dies: every request that is on its way, however late and however often
it arrives, finds the maps it writes to and a state it can decode, and is answered. -/
theorem groups_never_die (run : Run servers trace) :
    ∀ σ ∈ trace, σ.halted = [] ∧ ∀ (k : Nat) (call : GroupCall), σ.groupCalls[k]? = some call →
      ∃ σ' reply, σ.execute k = some σ' ∧ σ'.groupReplies = (k, reply) :: σ.groupReplies := by
  intro σ member
  have healthy := run.healthy σ member
  refine ⟨healthy.alive, fun k call found => ?_⟩
  obtain ⟨a, rel⟩ := healthy.simulated
  obtain ⟨⟨kv', reply⟩, done⟩ := rel.doOp_total (healthy.intact call.gid) found
  exact ⟨_, reply, healthy.executes found done, rfl⟩

/-- The install of a shard that has moved is executed once more. -/
theorem groups_never_die_late :
    ∃ trace σ call, Run ["a"] trace ∧ σ ∈ trace ∧ σ.groupCalls[2]? = some call ∧
      (σ.groups call.gid).shardStatuses 4 = .serving ∧
      ∃ σ' reply, σ.execute 2 = some σ' ∧ σ'.groupReplies = (2, reply) :: σ.groupReplies := by
  obtain ⟨past, run⟩ := reached movingShard movingShard_done
  have sent : (((afterwards movingShard).get movingShard_done).groupCalls[2]?).any
      (fun call => ((((afterwards movingShard).get movingShard_done).groups call.gid).shardStatuses
        4 = .serving : Bool)) = true := by decide +kernel
  obtain ⟨call, found, serving⟩ := (Option.any_eq_true _ _).mp sent
  refine ⟨_, _, call, run, List.mem_cons_self .., found, of_decide_eq_true serving, ?_⟩
  exact (groups_never_die run _ (List.mem_cons_self ..)).2 2 call found

/-- What one operation has changed since `σ` when it has sent some requests and nobody
else has moved. -/
structure Alone (σ σ' : System) (i sent : Nat) (operation : Operation) : Prop where
  operation : σ'.operations[i]? = some operation
  calls : σ'.groupCalls.length = σ.groupCalls.length + sent
  configStore : σ'.configStore = σ.configStore
  storePuts : σ'.storePuts = σ.storePuts
  data : mapOf σ'.log = mapOf σ.log

theorem Alone.trans {middle : System} {i first second : Nat} {operation operation' : Operation}
    (one : σ.Alone middle i first operation) (two : middle.Alone σ' i second operation') :
    σ.Alone σ' i (first + second) operation' where
  operation := two.operation
  calls := by rw [two.calls, one.calls, Nat.add_assoc]
  configStore := two.configStore.trans one.configStore
  storePuts := two.storePuts.trans one.storePuts
  data := two.data.trans one.data

variable {newCfg old : ShardConfig} {ver i : Nat} {workers : Shid → Worker} {s : Shid}
  {stage : Stage} {call : Option Nat} {worker : Worker}

end System

end KvStore.Shard
