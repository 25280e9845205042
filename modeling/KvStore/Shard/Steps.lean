import KvStore.Shard.System

set_option autoImplicit false

/-! What each action of the sharded store can do, guards included. -/

namespace KvStore.Shard

/-- Every element stays where it is. -/
def Keeps {α : Type} (list list' : List α) : Prop :=
  ∀ (k : Nat) (x : α), list[k]? = some x → list'[k]? = some x

theorem Keeps.refl {α : Type} (list : List α) : Keeps list list := fun _ _ => id

theorem Keeps.append {α : Type} (list more : List α) : Keeps list (list ++ more) := by
  intro k x found
  rw [List.getElem?_append_left (List.getElem?_eq_some_iff.mp found).1, found]

namespace System

variable {σ σ' : System} {i j k q : Nat} {s : Shid}

theorem query_inversion (moved : σ.query = some σ') :
    ∃ held, σ.configStore .currentConfig = some held ∧
      σ' = { σ with queries := σ.queries ++ [held.value] } := by
  obtain ⟨held, found, rest⟩ := Option.bind_eq_some_iff.mp moved
  exact ⟨held, found, (Option.some.inj rest).symm⟩

theorem storeExecute_inversion (moved : σ.storeExecute k = some σ') :
    ∃ put, σ.storePuts[k]? = some put ∧
      σ' = { σ with
        configStore := (σ.configStore.put put.key put.value put.version).1
        storeReplies :=
          (k, (σ.configStore.put put.key put.value put.version).2) :: σ.storeReplies } := by
  obtain ⟨put, found, rest⟩ := Option.bind_eq_some_iff.mp moved
  exact ⟨put, found, (Option.some.inj rest).symm⟩

/-- The system once a group has executed a call. -/
def replied (σ : System) (k : Nat) (call : GroupCall) (kv' : KVServer) (reply : Reply) : System :=
  { σ with
    groups := Function.update σ.groups call.gid kv'
    groupReplies := (k, reply) :: σ.groupReplies
    log := (σ.groups call.gid).accepted call.gid call.request ++
      (σ.groups call.gid).answered call.gid reply call ++ σ.log }

theorem execute_cases (moved : σ.execute k = some σ') :
    ∃ call, σ.groupCalls[k]? = some call ∧
      ((∃ kv' reply, (σ.groups call.gid).doOp call.request = some (kv', reply) ∧
        σ' = σ.replied k call kv' reply) ∨
      ((σ.groups call.gid).doOp call.request = none ∧
        σ' = { σ with
          halted := call.gid :: σ.halted
          log := (σ.groups call.gid).accepted call.gid call.request ++ σ.log })) := by
  obtain ⟨call, found, rest⟩ := Option.bind_eq_some_iff.mp moved
  refine ⟨call, found, ?_⟩
  dsimp only at rest
  split at rest
  · cases rest
  · split at rest
    · rename_i kv' reply done
      exact Or.inl ⟨kv', reply, done, (Option.some.inj rest).symm⟩
    · rename_i died
      exact Or.inr ⟨died, (Option.some.inj rest).symm⟩

theorem changeConfigTo_inversion {newCfg : ShardConfig}
    (moved : σ.changeConfigTo q newCfg = some σ') :
    ∃ queried ∈ σ.queries, newCfg.num = queried.num + 1 ∧
      σ' = { σ with operations := σ.operations ++ [.changeCurrent newCfg] } := by
  obtain ⟨queried, found, rest⟩ := Option.bind_eq_some_iff.mp moved
  split at rest
  · rename_i next
    exact ⟨queried, List.mem_of_getElem? found, next, (Option.some.inj rest).symm⟩
  · cases rest

/-- Where an operation goes from a read of the config store. -/
inductive ReadOutcome (store : KvMap ConfigKey ShardConfig) : Operation → Operation → Prop
  | initCurrent {held : VersionedValue ShardConfig}
      (found : store .currentConfig = some held) :
      ReadOutcome store .initCurrent (.initNext held.value held.version)
  | resume {old : ShardConfig} {ver : Nat} {held : VersionedValue ShardConfig}
      (found : store .nextConfig = some held) (pending : old.num < held.value.num) :
      ReadOutcome store (.initNext old ver) (.migrateShards held.value old ver)
  | returned {operation : Operation} {ok : Bool} :
      ReadOutcome store operation (.returned ok)
  | changeCurrent {newCfg : ShardConfig} {held : VersionedValue ShardConfig}
      (found : store .currentConfig = some held) (later : held.value.num < newCfg.num) :
      ReadOutcome store (.changeCurrent newCfg) (.saveQuery newCfg held.value held.version)
  | saveQuery {newCfg old : ShardConfig} {ver : Nat} {held : VersionedValue ShardConfig}
      (found : store .nextConfig = some held) (later : held.value.num < newCfg.num) :
      ReadOutcome store (.saveQuery newCfg old ver)
        (.savePut newCfg old ver held.version none false)
  | saveCheck {newCfg old : ShardConfig} {ver : Nat} {held : VersionedValue ShardConfig}
      (found : store .nextConfig = some held) (same : held.value.equalTo newCfg = true) :
      ReadOutcome store (.saveCheck newCfg old ver) (.migrateShards newCfg old ver)

theorem read_cases (moved : σ.read i = some σ') :
    ∃ operation operation', σ.operations[i]? = some operation ∧
      ReadOutcome σ.configStore operation operation' ∧ σ' = σ.setOperation i operation' := by
  obtain ⟨operation, found, rest⟩ := Option.bind_eq_some_iff.mp moved
  refine ⟨operation, ?_⟩
  split at rest
  · obtain ⟨held, stored, rest⟩ := Option.bind_eq_some_iff.mp rest
    exact ⟨_, found, .initCurrent stored, (Option.some.inj rest).symm⟩
  · obtain ⟨held, stored, rest⟩ := Option.bind_eq_some_iff.mp rest
    split at rest
    · rename_i pending
      exact ⟨_, found, .resume stored pending, (Option.some.inj rest).symm⟩
    · exact ⟨_, found, .returned, (Option.some.inj rest).symm⟩
  · obtain ⟨held, stored, rest⟩ := Option.bind_eq_some_iff.mp rest
    split at rest
    · exact ⟨_, found, .returned, (Option.some.inj rest).symm⟩
    · rename_i later
      exact ⟨_, found, .changeCurrent stored (Nat.lt_of_not_le later),
        (Option.some.inj rest).symm⟩
  · obtain ⟨held, stored, rest⟩ := Option.bind_eq_some_iff.mp rest
    split at rest
    · exact ⟨_, found, .returned, (Option.some.inj rest).symm⟩
    · rename_i later
      exact ⟨_, found, .saveQuery stored (Nat.lt_of_not_le later), (Option.some.inj rest).symm⟩
  · obtain ⟨held, stored, rest⟩ := Option.bind_eq_some_iff.mp rest
    split at rest
    · rename_i same
      exact ⟨_, found, .saveCheck stored same, (Option.some.inj rest).symm⟩
    · exact ⟨_, found, .returned, (Option.some.inj rest).symm⟩
  · cases rest

/-- The system with one more Put on its way to the config store. -/
def withPut (σ : System) (i : Nat) (operation : Operation) (put : StorePut) : System :=
  { σ.setOperation i operation with storePuts := σ.storePuts ++ [put] }

theorem put_cases (moved : σ.put i = some σ') :
    (∃ newCfg old ver nextVer call resent,
      σ.operations[i]? = some (.savePut newCfg old ver nextVer call resent) ∧
      σ' = σ.withPut i (.savePut newCfg old ver nextVer (some σ.storePuts.length) call.isSome)
        { key := .nextConfig, value := newCfg, version := nextVer }) ∨
    (∃ newCfg ver call, σ.operations[i]? = some (.finalPut newCfg ver call) ∧
      σ' = σ.withPut i (.finalPut newCfg ver (some σ.storePuts.length))
        { key := .currentConfig, value := newCfg, version := ver }) := by
  obtain ⟨operation, found, rest⟩ := Option.bind_eq_some_iff.mp moved
  dsimp only at rest
  split at rest
  · exact Or.inl ⟨_, _, _, _, _, _, found, (Option.some.inj rest).symm⟩
  · exact Or.inr ⟨_, _, _, found, (Option.some.inj rest).symm⟩
  · cases rest

theorem putReply_cases (moved : σ.putReply i j = some σ') :
    ∃ operation operation', σ.operations[i]? = some operation ∧
      ((∃ newCfg old ver nextVer k, operation = .savePut newCfg old ver nextVer (some k) false ∧
          (k, .ok) ∈ σ.storeReplies ∧ operation' = .migrateShards newCfg old ver) ∨
        (∃ newCfg old ver nextVer call, operation = .savePut newCfg old ver nextVer call true ∧
          operation' = .saveCheck newCfg old ver) ∨
        (∃ ok, operation' = .returned ok) ∨ operation' = .stopped) ∧
      σ' = σ.setOperation i operation' := by
  obtain ⟨operation, found, body⟩ := Option.bind_eq_some_iff.mp moved
  obtain ⟨⟨k, err⟩, replied, rest⟩ := Option.bind_eq_some_iff.mp body
  clear body moved
  dsimp only at rest
  split at rest
  · rename_i newCfg old ver nextVer call resent
    split at rest
    · rename_i mine
      subst mine
      refine ⟨_, _, found, ?_, (Option.some.inj rest).symm⟩
      cases resent with
      | true => exact Or.inr (Or.inl ⟨_, _, _, _, _, rfl, rfl⟩)
      | false =>
        cases err with
        | ok => exact Or.inl ⟨_, _, _, _, _, rfl, List.mem_of_getElem? replied, rfl⟩
        | version => exact Or.inr (Or.inr (Or.inl ⟨_, rfl⟩))
        | _ => exact Or.inr (Or.inr (Or.inr rfl))
    · cases rest
  · split at rest
    · exact ⟨_, _, found, Or.inr (Or.inr (Or.inl ⟨_, rfl⟩)), (Option.some.inj rest).symm⟩
    · cases rest
  · cases rest

/-- The system with one more request on its way to a group. -/
def withCall (σ : System) (call : GroupCall) : System :=
  { σ with groupCalls := σ.groupCalls ++ [call] }

/-- The request of a goroutine at a stage. -/
def callOf (newCfg old : ShardConfig) (i : Nat) (s : Shid) (stage : Stage) : GroupCall where
  gid := (stage.target newCfg old s).1
  request := (stage.target newCfg old s).2
  caller := .worker i s

theorem send_inversion (moved : σ.send i s = some σ') :
    ∃ newCfg old ver workers stage call,
      σ.operations[i]? = some (.migrate newCfg old ver workers) ∧
      workers s = .running stage call ∧
      σ' = (σ.setWorker i newCfg old ver workers s
        (.running stage (some σ.groupCalls.length))).withCall (callOf newCfg old i s stage) := by
  obtain ⟨operation, found, rest⟩ := Option.bind_eq_some_iff.mp moved
  split at rest
  · rename_i newCfg old ver workers
    split at rest
    · rename_i stage call running
      exact ⟨newCfg, old, ver, workers, stage, call, found, running,
        (Option.some.inj rest).symm⟩
    · cases rest
  · cases rest

theorem receive_cases (moved : σ.receive i s j = some σ') :
    ∃ newCfg old ver workers stage k reply,
      σ.operations[i]? = some (.migrate newCfg old ver workers) ∧
      workers s = .running stage (some k) ∧ (k, reply) ∈ σ.groupReplies ∧
      ((∃ worker, stage.next reply = some worker ∧
          σ' = σ.setWorker i newCfg old ver workers s worker) ∨
        (stage.next reply = none ∧ σ' = σ.setOperation i .stopped)) := by
  obtain ⟨operation, found, body⟩ := Option.bind_eq_some_iff.mp moved
  obtain ⟨⟨k, reply⟩, replied, rest⟩ := Option.bind_eq_some_iff.mp body
  clear body moved
  dsimp only at rest
  split at rest
  · rename_i newCfg old ver workers
    split at rest
    · rename_i stage call running
      split at rest
      · rename_i mine
        subst mine
        refine ⟨newCfg, old, ver, workers, stage, k, reply, found, running,
          List.mem_of_getElem? replied, ?_⟩
        split at rest
        · rename_i worker next
          exact Or.inl ⟨worker, next, (Option.some.inj rest).symm⟩
        · rename_i panics
          exact Or.inr ⟨panics, (Option.some.inj rest).symm⟩
      · cases rest
    · cases rest
  · cases rest

theorem check_inversion (moved : σ.check i s = some σ') :
    ∃ newCfg old ver workers, σ.operations[i]? = some (.migrate newCfg old ver workers) ∧
      σ' = σ.setWorker i newCfg old ver workers s .superseded := by
  obtain ⟨operation, found, rest⟩ := Option.bind_eq_some_iff.mp moved
  split at rest
  · rename_i newCfg old ver workers
    split at rest
    · obtain ⟨held, _, rest⟩ := Option.bind_eq_some_iff.mp rest
      split at rest
      · exact ⟨newCfg, old, ver, workers, found, (Option.some.inj rest).symm⟩
      · cases rest
    · cases rest
  · cases rest

/-- The final Put is reached only when every goroutine has finished. -/
theorem join_cases (moved : σ.join i = some σ') :
    ∃ newCfg old ver workers operation',
      σ.operations[i]? = some (.migrate newCfg old ver workers) ∧
      (operation' = .returned false ∨
        (∀ s, workers s = .finished) ∧ operation' = .finalPut newCfg ver none) ∧
      σ' = σ.setOperation i operation' := by
  obtain ⟨operation, found, rest⟩ := Option.bind_eq_some_iff.mp moved
  split at rest
  · rename_i newCfg old ver workers
    split at rest
    · cases rest
    · rename_i idle
      refine ⟨newCfg, old, ver, workers, _, found, ?_, (Option.some.inj rest).symm⟩
      split
      · exact Or.inl rfl
      · rename_i current
        refine Or.inr ⟨fun s => ?_, rfl⟩
        simp only [List.any_eq_true, List.mem_finRange, true_and, not_exists,
          Bool.not_eq_true] at idle current
        have still := idle s
        have valid := current s
        cases state : workers s with
        | running stage call => simp [state, Worker.isRunning] at still
        | superseded => simp [state, Worker.isSuperseded] at valid
        | finished => rfl
  · cases rest

theorem acquire_inversion (moved : σ.acquire i = some σ') :
    ∃ client, σ.clients[i]? = some client ∧ client.phase = .queued ∧
      (∀ other ∈ σ.clients, other.clerk = client.clerk → other.op.isPut = true →
        other.phase.isActive = false) ∧
      σ' = { σ.setClient i { client with
          requestId := σ.requestIds client.clerk + 1, phase := .active none } with
        requestIds := Function.update σ.requestIds client.clerk
          (σ.requestIds client.clerk + 1) } := by
  obtain ⟨client, found, rest⟩ := Option.bind_eq_some_iff.mp moved
  split at rest
  · rename_i queued
    split at rest
    · cases rest
    · rename_i free
      refine ⟨client, found, queued, ?_, (Option.some.inj rest).symm⟩
      intro other member same isPut
      by_contra active
      rw [Bool.not_eq_false] at active
      refine free (List.any_eq_true.mpr ⟨other, member, ?_⟩)
      simp [same, isPut, active]
  · cases rest

theorem attempt_inversion (moved : σ.attempt i q = some σ') :
    ∃ client call gid, σ.clients[i]? = some client ∧ client.phase = .active call ∧
      σ' = (σ.setClient i
        { client with phase := .active (some σ.groupCalls.length) }).withCall
          { gid, request := client.request, caller := .client i } := by
  obtain ⟨client, found, rest⟩ := Option.bind_eq_some_iff.mp moved
  obtain ⟨cached, _, rest⟩ := Option.bind_eq_some_iff.mp rest
  dsimp only at rest
  split at rest
  · rename_i call active
    split at rest
    · exact ⟨client, call, _, found, active, (Option.some.inj rest).symm⟩
    · cases rest
  · cases rest

theorem answer_inversion (moved : σ.answer i j = some σ') :
    ∃ client k reply, σ.clients[i]? = some client ∧ client.phase = .active (some k) ∧
      (k, reply) ∈ σ.groupReplies ∧ final reply = true ∧
      σ' = { σ.setClient i { client with phase := .returned reply } with
        log := .returned i reply :: σ.log } := by
  obtain ⟨client, found, rest⟩ := Option.bind_eq_some_iff.mp moved
  obtain ⟨⟨k, reply⟩, replied, rest⟩ := Option.bind_eq_some_iff.mp rest
  dsimp only at rest
  split at rest
  · rename_i call active
    split at rest
    · rename_i mine
      obtain ⟨rfl, last⟩ := mine
      exact ⟨client, k, reply, found, active, List.mem_of_getElem? replied, last,
        (Option.some.inj rest).symm⟩
    · cases rest
  · cases rest

end System

end KvStore.Shard
