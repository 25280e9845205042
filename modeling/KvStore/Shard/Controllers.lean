import KvStore.Shard.Steps

set_option autoImplicit false

/-! What one step means for the controllers, the config store and the requests to the
groups. -/

namespace KvStore.Shard.System

variable {σ σ' : System} {action : Action} {i : Nat}

/-- How operation `i` goes on without sending a Put. -/
inductive Advances (σ : System) (action : Action) (i : Nat) : Operation → Operation → Prop
  | initCurrent {held : VersionedValue ShardConfig}
      (found : σ.configStore .currentConfig = some held) :
      Advances σ action i .initCurrent (.initNext held.value held.version)
  | resume {old : ShardConfig} {ver : Nat} {held : VersionedValue ShardConfig}
      (reads : action = .read i) (found : σ.configStore .nextConfig = some held)
      (pending : old.num < held.value.num) :
      Advances σ action i (.initNext old ver) (.migrateShards held.value old ver)
  | recovered {old : ShardConfig} {ver : Nat} :
      Advances σ action i (.initNext old ver) (.returned true)
  | refused {operation : Operation} : Advances σ action i operation (.returned false)
  | stopped {operation : Operation} : Advances σ action i operation .stopped
  | changeCurrent {newCfg : ShardConfig} {held : VersionedValue ShardConfig}
      (found : σ.configStore .currentConfig = some held) (later : held.value.num < newCfg.num) :
      Advances σ action i (.changeCurrent newCfg) (.saveQuery newCfg held.value held.version)
  | saveQuery {newCfg old : ShardConfig} {ver : Nat} {held : VersionedValue ShardConfig}
      (found : σ.configStore .nextConfig = some held) (later : held.value.num < newCfg.num) :
      Advances σ action i (.saveQuery newCfg old ver)
        (.savePut newCfg old ver held.version none false)
  | saved {newCfg old : ShardConfig} {ver nextVer k : Nat} (good : (k, .ok) ∈ σ.storeReplies) :
      Advances σ action i (.savePut newCfg old ver nextVer (some k) false)
        (.migrateShards newCfg old ver)
  | uncertain {newCfg old : ShardConfig} {ver nextVer : Nat} {call : Option Nat} :
      Advances σ action i (.savePut newCfg old ver nextVer call true) (.saveCheck newCfg old ver)
  | saveCheck {newCfg old : ShardConfig} {ver : Nat} {held : VersionedValue ShardConfig}
      (reads : action = .read i) (found : σ.configStore .nextConfig = some held)
      (same : held.value.equalTo newCfg = true) :
      Advances σ action i (.saveCheck newCfg old ver) (.migrateShards newCfg old ver)
  | worker {newCfg old : ShardConfig} {ver : Nat} {workers workers' : Shid → Worker} :
      Advances σ action i (.migrate newCfg old ver workers) (.migrate newCfg old ver workers')
  | joined {newCfg old : ShardConfig} {ver : Nat} {workers : Shid → Worker} :
      Advances σ action i (.migrate newCfg old ver workers) (.finalPut newCfg ver none)
  | stored {newCfg : ShardConfig} {ver k : Nat} {err : Err} (replied : (k, err) ∈ σ.storeReplies) :
      Advances σ action i (.finalPut newCfg ver (some k)) (.returned true)

/-- How an operation goes on when its Put becomes the one at position `k`. -/
inductive SendsPut (k : Nat) : Operation → Operation → StorePut → Prop
  | next {newCfg old : ShardConfig} {ver nextVer : Nat} {call : Option Nat} {resent : Bool} :
      SendsPut k (.savePut newCfg old ver nextVer call resent)
        (.savePut newCfg old ver nextVer (some k) call.isSome)
        { key := .nextConfig, value := newCfg, version := nextVer }
  | current {newCfg : ShardConfig} {ver : Nat} {call : Option Nat} :
      SendsPut k (.finalPut newCfg ver call) (.finalPut newCfg ver (some k))
        { key := .currentConfig, value := newCfg, version := ver }

/-- The config store with its Puts and their answers stays as it is. -/
structure StoreSame (σ σ' : System) : Prop where
  configStore : σ'.configStore = σ.configStore
  storePuts : σ'.storePuts = σ.storePuts
  storeReplies : σ'.storeReplies = σ.storeReplies

/-- The part a step plays for the controllers and the config store. -/
inductive ControlStep (σ : System) (action : Action) (σ' : System) : Prop
  | elsewhere (same : StoreSame σ σ') (operations : σ'.operations = σ.operations)
  | begun {operation : Operation} (same : StoreSame σ σ')
      (operations : σ'.operations = σ.operations ++ [operation])
      (first : operation = .initCurrent ∨ ∃ newCfg, operation = .changeCurrent newCfg)
  | advanced {i : Nat} {operation operation' : Operation} (same : StoreSame σ σ')
      (found : σ.operations[i]? = some operation)
      (operations : σ'.operations = σ.operations.set i operation')
      (advances : Advances σ action i operation operation')
  | sent {i : Nat} {operation operation' : Operation} {put : StorePut}
      (configStore : σ'.configStore = σ.configStore)
      (storeReplies : σ'.storeReplies = σ.storeReplies)
      (found : σ.operations[i]? = some operation)
      (operations : σ'.operations = σ.operations.set i operation')
      (storePuts : σ'.storePuts = σ.storePuts ++ [put])
      (sends : SendsPut σ.storePuts.length operation operation' put)
  | executed {k : Nat} {put : StorePut} (found : σ.storePuts[k]? = some put)
      (operations : σ'.operations = σ.operations) (storePuts : σ'.storePuts = σ.storePuts)
      (configStore : σ'.configStore = (σ.configStore.put put.key put.value put.version).1)
      (storeReplies : σ'.storeReplies =
        (k, (σ.configStore.put put.key put.value put.version).2) :: σ.storeReplies)

/-- No Put is ever taken back. -/
theorem ControlStep.storePuts (control : ControlStep σ action σ') :
    Keeps σ.storePuts σ'.storePuts := by
  cases control with
  | elsewhere same | begun same | advanced same =>
    rw [same.storePuts]
    exact .refl _
  | sent _ _ _ _ storePuts =>
    rw [storePuts]
    exact .append _ _
  | executed _ _ storePuts =>
    rw [storePuts]
    exact .refl _

theorem read_advances (moved : σ.read i = some σ') : ControlStep σ (.read i) σ' := by
  have advanced : ∀ {operation operation' : Operation}, σ.operations[i]? = some operation →
      Advances σ (.read i) i operation operation' → some (σ.setOperation i operation') = some σ' →
      ControlStep σ (.read i) σ' := by
    intro operation operation' found advances same
    obtain rfl := Option.some.inj same
    exact .advanced ⟨rfl, rfl, rfl⟩ found rfl advances
  obtain ⟨operation, found, rest⟩ := Option.bind_eq_some_iff.mp moved
  split at rest
  · obtain ⟨held, stored, rest⟩ := Option.bind_eq_some_iff.mp rest
    exact advanced found (.initCurrent stored) rest
  · obtain ⟨held, stored, rest⟩ := Option.bind_eq_some_iff.mp rest
    split at rest
    · rename_i pending
      exact advanced found (.resume rfl stored pending) rest
    · exact advanced found .recovered rest
  · obtain ⟨held, stored, rest⟩ := Option.bind_eq_some_iff.mp rest
    split at rest
    · exact advanced found .refused rest
    · rename_i later
      exact advanced found (.changeCurrent stored (Nat.lt_of_not_le later)) rest
  · obtain ⟨held, stored, rest⟩ := Option.bind_eq_some_iff.mp rest
    split at rest
    · exact advanced found .refused rest
    · rename_i later
      exact advanced found (.saveQuery stored (Nat.lt_of_not_le later)) rest
  · obtain ⟨held, stored, rest⟩ := Option.bind_eq_some_iff.mp rest
    split at rest
    · rename_i same
      exact advanced found (.saveCheck rfl stored same) rest
    · exact advanced found .refused rest
  · cases rest

theorem putReply_advances {j : Nat} (moved : σ.putReply i j = some σ') :
    ControlStep σ (.putReply i j) σ' := by
  obtain ⟨operation, found, body⟩ := Option.bind_eq_some_iff.mp moved
  obtain ⟨⟨k, err⟩, replied, rest⟩ := Option.bind_eq_some_iff.mp body
  have answered := List.mem_of_getElem? replied
  clear body moved
  dsimp only at rest
  split at rest
  · rename_i newCfg old ver nextVer call resent
    split at rest
    · rename_i mine
      subst mine
      obtain rfl := Option.some.inj rest
      refine .advanced ⟨rfl, rfl, rfl⟩ found rfl ?_
      cases resent with
      | true => exact .uncertain
      | false =>
        cases err with
        | ok => exact .saved answered
        | version => exact .refused
        | _ => exact .stopped
    · cases rest
  · split at rest
    · rename_i mine
      subst mine
      obtain rfl := Option.some.inj rest
      exact .advanced ⟨rfl, rfl, rfl⟩ found rfl (.stored answered)
    · cases rest
  · cases rest

/-- Every step plays one of these parts. -/
theorem control_step (moved : σ.step action = some σ') : ControlStep σ action σ' := by
  cases action with
  | query =>
    obtain ⟨held, _, rfl⟩ := query_inversion moved
    exact .elsewhere ⟨rfl, rfl, rfl⟩ rfl
  | storeExecute k =>
    obtain ⟨put, found, rfl⟩ := storeExecute_inversion moved
    exact .executed found rfl rfl rfl rfl
  | execute k =>
    obtain ⟨call, _, outcome⟩ := execute_cases moved
    rcases outcome with ⟨_, _, _, rfl⟩ | ⟨_, rfl⟩ <;> exact .elsewhere ⟨rfl, rfl, rfl⟩ rfl
  | initController =>
    obtain rfl := Option.some.inj moved
    exact .begun ⟨rfl, rfl, rfl⟩ rfl (Or.inl rfl)
  | changeConfigTo q newCfg =>
    obtain ⟨queried, _, _, rfl⟩ := changeConfigTo_inversion moved
    exact .begun ⟨rfl, rfl, rfl⟩ rfl (Or.inr ⟨newCfg, rfl⟩)
  | read i => exact read_advances moved
  | put i =>
    rcases put_cases moved with ⟨_, _, _, _, _, _, found, rfl⟩ | ⟨_, _, _, found, rfl⟩
    · exact .sent rfl rfl found rfl rfl .next
    · exact .sent rfl rfl found rfl rfl .current
  | putReply i j => exact putReply_advances moved
  | send i s =>
    obtain ⟨_, _, _, _, _, _, found, _, rfl⟩ := send_inversion moved
    exact .advanced ⟨rfl, rfl, rfl⟩ found rfl .worker
  | receive i s j =>
    obtain ⟨_, _, _, _, _, _, _, found, _, _, outcome⟩ := receive_cases moved
    rcases outcome with ⟨worker, _, rfl⟩ | ⟨_, rfl⟩
    · exact .advanced ⟨rfl, rfl, rfl⟩ found rfl .worker
    · exact .advanced ⟨rfl, rfl, rfl⟩ found rfl .stopped
  | check i s =>
    obtain ⟨_, _, _, _, found, rfl⟩ := check_inversion moved
    exact .advanced ⟨rfl, rfl, rfl⟩ found rfl .worker
  | join i =>
    obtain ⟨_, _, _, _, _, found, outcome, rfl⟩ := join_cases moved
    rcases outcome with rfl | ⟨_, rfl⟩
    · exact .advanced ⟨rfl, rfl, rfl⟩ found rfl .refused
    · exact .advanced ⟨rfl, rfl, rfl⟩ found rfl .joined
  | invoke clerk op =>
    obtain rfl := Option.some.inj moved
    exact .elsewhere ⟨rfl, rfl, rfl⟩ rfl
  | acquire i =>
    obtain ⟨_, _, _, _, rfl⟩ := acquire_inversion moved
    exact .elsewhere ⟨rfl, rfl, rfl⟩ rfl
  | attempt i q =>
    obtain ⟨_, _, _, _, _, rfl⟩ := attempt_inversion moved
    exact .elsewhere ⟨rfl, rfl, rfl⟩ rfl
  | answer i j =>
    obtain ⟨_, _, _, _, _, _, _, rfl⟩ := answer_inversion moved
    exact .elsewhere ⟨rfl, rfl, rfl⟩ rfl

/-- Where a request to a group comes from: it was there, a client made it, or the
goroutine of a migrating operation did. -/
inductive Sent (σ : System) (call : GroupCall) : Prop
  | before (member : call ∈ σ.groupCalls)
  | client {i : Nat} (client : ClientCall) (request : call.request = client.request)
      (caller : call.caller = .client i)
  | worker {i : Nat} {newCfg old : ShardConfig} {ver : Nat} {workers : Shid → Worker} {s : Shid}
      {stage : Stage} {waiting : Option Nat}
      (found : σ.operations[i]? = some (.migrate newCfg old ver workers))
      (running : workers s = .running stage waiting) (same : call = callOf newCfg old i s stage)

theorem calls_sent (moved : σ.step action = some σ') : ∀ call ∈ σ'.groupCalls, Sent σ call := by
  intro call member
  cases action with
  | send i s =>
    obtain ⟨_, _, _, _, _, _, found, running, rfl⟩ := send_inversion moved
    rcases List.mem_append.mp member with old | new
    · exact .before old
    · exact .worker found running (List.mem_singleton.mp new)
  | attempt i q =>
    obtain ⟨client, _, gid, _, _, rfl⟩ := attempt_inversion moved
    rcases List.mem_append.mp member with old | new
    · exact .before old
    · rw [List.mem_singleton.mp new]
      exact .client client rfl rfl
  | query =>
    obtain ⟨_, _, rfl⟩ := query_inversion moved
    exact .before member
  | storeExecute k =>
    obtain ⟨_, _, rfl⟩ := storeExecute_inversion moved
    exact .before member
  | execute k =>
    obtain ⟨_, _, outcome⟩ := execute_cases moved
    rcases outcome with ⟨_, _, _, rfl⟩ | ⟨_, rfl⟩ <;> exact .before member
  | initController =>
    obtain rfl := Option.some.inj moved
    exact .before member
  | changeConfigTo q newCfg =>
    obtain ⟨_, _, _, rfl⟩ := changeConfigTo_inversion moved
    exact .before member
  | read i =>
    obtain ⟨_, _, _, _, rfl⟩ := read_cases moved
    exact .before member
  | put i =>
    rcases put_cases moved with ⟨_, _, _, _, _, _, _, rfl⟩ | ⟨_, _, _, _, rfl⟩ <;>
      exact .before member
  | putReply i j =>
    obtain ⟨_, _, _, _, rfl⟩ := putReply_cases moved
    exact .before member
  | receive i s j =>
    obtain ⟨_, _, _, _, _, _, _, _, _, _, outcome⟩ := receive_cases moved
    rcases outcome with ⟨_, _, rfl⟩ | ⟨_, rfl⟩ <;> exact .before member
  | check i s =>
    obtain ⟨_, _, _, _, _, rfl⟩ := check_inversion moved
    exact .before member
  | join i =>
    obtain ⟨_, _, _, _, _, _, _, rfl⟩ := join_cases moved
    exact .before member
  | invoke clerk op =>
    obtain rfl := Option.some.inj moved
    exact .before member
  | acquire i =>
    obtain ⟨_, _, _, _, rfl⟩ := acquire_inversion moved
    exact .before member
  | answer i j =>
    obtain ⟨_, _, _, _, _, _, _, rfl⟩ := answer_inversion moved
    exact .before member

end KvStore.Shard.System
