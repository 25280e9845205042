import KvStore.Shard.Server

set_option autoImplicit false

/-! What each request can do to a shard group, and how the records of last Puts
travel with a shard. -/

namespace KvStore.Shard

namespace KVServer

variable {kv kv' : KVServer} {shid : Shid} {num : Nat} {reply : Reply}
  {lastPuts : ClientId → Option LastPut} {records : List (ClientId × LastPut)} {client : ClientId}

@[simp] theorem doGet_state (kv : KVServer) (key : String) : (kv.doGet key).1 = kv := by
  unfold doGet
  dsimp only
  split <;> rfl

/-- A serving group answers with what it holds. -/
theorem doGet_serving {key : String} (serving : kv.shardStatuses (key2Shard key) = .serving) :
    (kv.doGet key).2 = getReply ((kv.kvm (key2Shard key)).bind (· key)) := by
  unfold doGet
  simp only [serving, ne_eq, not_true_eq_false, ↓reduceIte]

theorem doGet_refused {key : String} (other : kv.shardStatuses (key2Shard key) ≠ .serving) :
    (kv.doGet key).2 = .get "" 0 .wrongGroup := by
  unfold doGet
  simp only [other, ne_eq, not_false_eq_true, ↓reduceIte]

/-- The state after a Put that passed the duplicate check. -/
def afterPut (kv : KVServer) (clientId requestId : Nat) (key : String)
    (kvshard : Option (KvMap String String)) (err : Err) (clients : List ClientId) : KVServer :=
  { kv with
    kvm := Function.update kv.kvm (key2Shard key) kvshard
    lastPutByClientId :=
      Function.update kv.lastPutByClientId clientId (some { requestId, err })
    shardClients := Function.update kv.shardClients (key2Shard key)
      (some (if clientId ∈ clients then clients else clientId :: clients)) }

theorem doPut_cases {clientId requestId : Nat} {key value : String} {version : Nat}
    (done : kv.doPut clientId requestId key value version = some (kv', reply)) :
    (kv.shardStatuses (key2Shard key) ≠ .serving ∧ kv' = kv ∧ reply = .put .wrongGroup) ∨
    (kv.shardStatuses (key2Shard key) = .serving ∧ ∃ lastPut,
      kv.duplicate clientId requestId = some lastPut ∧ kv' = kv ∧ reply = .put lastPut.err) ∨
    (kv.shardStatuses (key2Shard key) = .serving ∧ kv.duplicate clientId requestId = none ∧
      ∃ kvshard err clients,
        kv.writeShard (key2Shard key) key value version = some (kvshard, err) ∧
        kv.shardClients (key2Shard key) = some clients ∧
        kv' = kv.afterPut clientId requestId key kvshard err clients ∧ reply = .put err) := by
  unfold doPut at done
  dsimp only at done
  split at done
  · rename_i refused
    obtain ⟨rfl, rfl⟩ := Prod.mk.inj (Option.some.inj done)
    exact Or.inl ⟨refused, rfl, rfl⟩
  rename_i serving
  rw [not_not] at serving
  split at done
  · rename_i lastPut known
    obtain ⟨rfl, rfl⟩ := Prod.mk.inj (Option.some.inj done)
    exact Or.inr (Or.inl ⟨serving, lastPut, known, rfl, rfl⟩)
  · rename_i fresh
    obtain ⟨⟨kvshard, err⟩, written, rest⟩ := Option.bind_eq_some_iff.mp done
    obtain ⟨clients, present, rest⟩ := Option.bind_eq_some_iff.mp rest
    obtain ⟨rfl, rfl⟩ := Prod.mk.inj (Option.some.inj rest)
    exact Or.inr (Or.inr ⟨serving, fresh, kvshard, err, clients, written, present, rfl, rfl⟩)

theorem doFreezeShard_cases (done : kv.doFreezeShard shid num = some (kv', reply)) :
    (kv.cfgNumByShid shid < num ∧ kv.shardStatuses shid = .serving ∧ ∃ state,
      kv.marshallShardState shid = some state ∧ kv' = kv.setShard shid .frozen num ∧
      reply = .freezeShard (some state) num .ok) ∨
    (num = kv.cfgNumByShid shid ∧ kv.shardStatuses shid ≠ .serving ∧ ∃ state,
      kv.marshallShardState shid = some state ∧ kv' = kv ∧
      reply = .freezeShard (some state) num .ok) ∨
    (num < kv.cfgNumByShid shid ∧ kv' = kv ∧
      reply = .freezeShard none (kv.cfgNumByShid shid) .ok) ∨
    (¬(kv.cfgNumByShid shid < num ∧ kv.shardStatuses shid = .serving) ∧ kv' = kv ∧ ∃ at_,
      reply = .freezeShard none at_ .illegalOperation) := by
  unfold doFreezeShard at done
  dsimp only at done
  split at done
  · rename_i later
    split at done
    · rename_i serving
      obtain ⟨state, packed, rest⟩ := Option.bind_eq_some_iff.mp done
      obtain ⟨rfl, rfl⟩ := Prod.mk.inj (Option.some.inj rest)
      exact Or.inl ⟨later, serving, state, packed, rfl, rfl⟩
    · rename_i other
      obtain ⟨rfl, rfl⟩ := Prod.mk.inj (Option.some.inj done)
      exact Or.inr (Or.inr (Or.inr ⟨fun ⟨_, serving⟩ => other serving, rfl, _, rfl⟩))
  · rename_i notLater
    split at done
    · rename_i same
      split at done
      · obtain ⟨rfl, rfl⟩ := Prod.mk.inj (Option.some.inj done)
        exact Or.inr (Or.inr (Or.inr ⟨fun ⟨later, _⟩ => notLater later, rfl, _, rfl⟩))
      · rename_i idle
        obtain ⟨state, packed, rest⟩ := Option.bind_eq_some_iff.mp done
        obtain ⟨rfl, rfl⟩ := Prod.mk.inj (Option.some.inj rest)
        exact Or.inr (Or.inl ⟨same, idle, state, packed, rfl, rfl⟩)
    · rename_i differs
      obtain ⟨rfl, rfl⟩ := Prod.mk.inj (Option.some.inj done)
      exact Or.inr (Or.inr (Or.inl ⟨by omega, rfl, rfl⟩))

theorem doInstallShard_cases {state : Packed}
    (done : kv.doInstallShard shid state num = some (kv', reply)) :
    (kv.cfgNumByShid shid < num ∧ kv.shardStatuses shid = .absent ∧ ∃ loaded,
      kv.installShardState shid state = some loaded ∧ kv' = loaded.setShard shid .serving num ∧
      reply = .installShard .ok) ∨
    ((kv.shardStatuses shid = .serving ∧ num = kv.cfgNumByShid shid ∨
        num < kv.cfgNumByShid shid) ∧ kv' = kv ∧ reply = .installShard .ok) ∨
    (¬(kv.cfgNumByShid shid < num ∧ kv.shardStatuses shid = .absent) ∧ kv' = kv ∧
      reply = .installShard .illegalOperation) := by
  unfold doInstallShard at done
  dsimp only at done
  split at done
  · rename_i later
    split at done
    · rename_i absent
      obtain ⟨loaded, unpacked, rest⟩ := Option.bind_eq_some_iff.mp done
      obtain ⟨rfl, rfl⟩ := Prod.mk.inj (Option.some.inj rest)
      exact Or.inl ⟨later, absent, loaded, unpacked, rfl, rfl⟩
    · rename_i other
      obtain ⟨rfl, rfl⟩ := Prod.mk.inj (Option.some.inj done)
      exact Or.inr (Or.inr ⟨fun ⟨_, absent⟩ => other absent, rfl, rfl⟩)
  · rename_i notLater
    split at done
    · rename_i same
      split at done
      · rename_i serving
        obtain ⟨rfl, rfl⟩ := Prod.mk.inj (Option.some.inj done)
        exact Or.inr (Or.inl ⟨Or.inl ⟨serving, same⟩, rfl, rfl⟩)
      · obtain ⟨rfl, rfl⟩ := Prod.mk.inj (Option.some.inj done)
        exact Or.inr (Or.inr ⟨fun ⟨later, _⟩ => notLater later, rfl, rfl⟩)
    · obtain ⟨rfl, rfl⟩ := Prod.mk.inj (Option.some.inj done)
      exact Or.inr (Or.inl ⟨Or.inr (by omega), rfl, rfl⟩)

theorem doInstallShard_held {packed : ShardState} (later : kv.cfgNumByShid shid < num)
    (absent : kv.shardStatuses shid = .absent) :
    (kv.doInstallShard shid (some packed) num).bind (·.1.kvm shid) = some packed.kv := by
  simp [doInstallShard, installShardState, setShard, later, absent]

/-- The state once the shard is erased. -/
def erased (kv : KVServer) (shid : Shid) (num : Nat) : KVServer :=
  { kv.setShard shid .absent num with
    kvm := Function.update kv.kvm shid none
    shardClients := Function.update kv.shardClients shid none }

theorem doDeleteShard_cases (kv : KVServer) (shid : Shid) (num : Nat) :
    (kv.shardStatuses shid = .frozen ∧ num = kv.cfgNumByShid shid ∧
      kv.doDeleteShard shid num = (kv.erased shid num, .deleteShard .ok)) ∨
    ((kv.shardStatuses shid = .absent ∧ num = kv.cfgNumByShid shid ∨
        num < kv.cfgNumByShid shid) ∧ kv.doDeleteShard shid num = (kv, .deleteShard .ok)) ∨
    (¬(num = kv.cfgNumByShid shid ∧ kv.shardStatuses shid = .frozen) ∧
      kv.doDeleteShard shid num = (kv, .deleteShard .illegalOperation)) := by
  unfold doDeleteShard
  dsimp only
  split
  · rename_i same
    split
    · rename_i frozen
      exact Or.inl ⟨frozen, same, rfl⟩
    · rename_i absent
      exact Or.inr (Or.inl ⟨Or.inl ⟨absent, same⟩, rfl⟩)
    · rename_i serving
      exact Or.inr (Or.inr ⟨fun ⟨_, frozen⟩ => by simp [serving] at frozen, rfl⟩)
  · rename_i differs
    split
    · exact Or.inr (Or.inr ⟨fun ⟨same, _⟩ => differs same, rfl⟩)
    · exact Or.inr (Or.inl ⟨Or.inr (by omega), rfl⟩)

theorem installShardState_cases {state : Packed}
    (unpacked : kv.installShardState shid state = some kv') :
    ∃ shardState, state = some shardState ∧
      kv' = { kv with
        kvm := Function.update kv.kvm shid (some shardState.kv)
        shardClients := Function.update kv.shardClients shid
          (some (shardState.lastPutByClientId.map (·.1)))
        lastPutByClientId :=
          shardState.lastPutByClientId.foldl keepLatest kv.lastPutByClientId } := by
  obtain ⟨shardState, found, rest⟩ := Option.bind_eq_some_iff.mp unpacked
  exact ⟨shardState, found, (Option.some.inj rest).symm⟩

theorem keepLatest_cases (lastPuts : ClientId → Option LastPut) (record : ClientId × LastPut) :
    (keepLatest lastPuts record = lastPuts ∧ ∃ existing, lastPuts record.1 = some existing ∧
      record.2.requestId ≤ existing.requestId) ∨
    (keepLatest lastPuts record = Function.update lastPuts record.1 (some record.2) ∧
      ∀ existing, lastPuts record.1 = some existing →
        existing.requestId ≤ record.2.requestId) := by
  unfold keepLatest
  split
  · rename_i missing
    exact Or.inr ⟨rfl, fun existing found => by rw [missing] at found; cases found⟩
  · rename_i existing found
    split
    · refine Or.inr ⟨rfl, fun other same => ?_⟩
      rw [found] at same
      obtain rfl := Option.some.inj same
      omega
    · exact Or.inl ⟨rfl, existing, found, by omega⟩

/-- A record of a client with at least the given request id. -/
def Reached (lastPuts : ClientId → Option LastPut) (client : ClientId) (requestId : Nat) : Prop :=
  ∃ lastPut, lastPuts client = some lastPut ∧ requestId ≤ lastPut.requestId

theorem keepLatest_reached {requestId : Nat} (reached : Reached lastPuts client requestId)
    (record : ClientId × LastPut) : Reached (keepLatest lastPuts record) client requestId := by
  obtain ⟨lastPut, found, bound⟩ := reached
  rcases keepLatest_cases lastPuts record with ⟨same, _⟩ | ⟨updated, later⟩
  · rw [same]
    exact ⟨lastPut, found, bound⟩
  · rw [updated]
    by_cases here : client = record.1
    · subst here
      exact ⟨record.2, Function.update_self .., bound.trans (later lastPut found)⟩
    · exact ⟨lastPut, by rw [Function.update_of_ne here, found], bound⟩

/-- Merging records never loses one. -/
theorem merged_reached {requestId : Nat} (reached : Reached lastPuts client requestId) :
    Reached (records.foldl keepLatest lastPuts) client requestId := by
  induction records generalizing lastPuts with
  | nil => exact reached
  | cons record rest ih => exact ih (keepLatest_reached reached record)

/-- Every record merged in is known afterwards. -/
theorem merged_record {lastPut : LastPut} (member : (client, lastPut) ∈ records) :
    Reached (records.foldl keepLatest lastPuts) client lastPut.requestId := by
  induction records generalizing lastPuts with
  | nil => cases member
  | cons record rest ih =>
    rcases List.mem_cons.mp member with rfl | later
    · rw [List.foldl_cons]
      refine merged_reached ?_
      rcases keepLatest_cases lastPuts (client, lastPut) with
        ⟨same, existing, found, bound⟩ | ⟨updated, _⟩
      · exact ⟨existing, by rw [same, found], bound⟩
      · exact ⟨lastPut, by rw [updated, Function.update_self], le_rfl⟩
    · exact ih later

/-- Nothing else is known afterwards. -/
theorem merged_origin {lastPut : LastPut}
    (found : records.foldl keepLatest lastPuts client = some lastPut) :
    lastPuts client = some lastPut ∨ (client, lastPut) ∈ records := by
  induction records generalizing lastPuts with
  | nil => exact Or.inl found
  | cons record rest ih =>
    rcases ih found with before | later
    · rcases keepLatest_cases lastPuts record with ⟨same, _⟩ | ⟨updated, _⟩
      · exact Or.inl (same ▸ before)
      · rw [updated] at before
        by_cases here : client = record.1
        · subst here
          rw [Function.update_self] at before
          rw [← Option.some.inj before]
          exact Or.inr (List.mem_cons_self ..)
        · rw [Function.update_of_ne here] at before
          exact Or.inl before
    · exact Or.inr (List.mem_cons_of_mem _ later)

theorem collect_cases {clients : List ClientId}
    (collected : (clients.mapM fun client => (lastPuts client).map (client, ·)) = some records) :
    (∀ client ∈ clients, ∃ lastPut, lastPuts client = some lastPut ∧
      (client, lastPut) ∈ records) ∧
    ∀ client lastPut, (client, lastPut) ∈ records →
      client ∈ clients ∧ lastPuts client = some lastPut := by
  induction clients generalizing records with
  | nil =>
    obtain rfl : [] = records := by simpa using collected
    exact ⟨nofun, nofun⟩
  | cons first rest ih =>
    rw [List.mapM_cons] at collected
    obtain ⟨pair, head, tail⟩ := Option.bind_eq_some_iff.mp collected
    obtain ⟨others, remaining, same⟩ := Option.bind_eq_some_iff.mp tail
    obtain ⟨lastPut, found, rfl⟩ := Option.map_eq_some_iff.mp head
    obtain rfl := Option.some.inj same
    obtain ⟨covered, genuine⟩ := ih remaining
    refine ⟨?_, ?_⟩
    · intro client member
      rcases List.mem_cons.mp member with rfl | member
      · exact ⟨lastPut, found, List.mem_cons_self ..⟩
      · obtain ⟨other, known, listed⟩ := covered client member
        exact ⟨other, known, List.mem_cons_of_mem _ listed⟩
    · intro client other member
      rcases List.mem_cons.mp member with same | member
      · obtain ⟨rfl, rfl⟩ := Prod.mk.inj same
        exact ⟨List.mem_cons_self .., found⟩
      · obtain ⟨listed, known⟩ := genuine client other member
        exact ⟨List.mem_cons_of_mem _ listed, known⟩

/-- A packed state holds the data of the shard and a record of each of its clients. -/
theorem marshallShardState_cases {state : ShardState}
    (packed : kv.marshallShardState shid = some state) :
    state.kv = (kv.kvm shid).getD KvMap.empty ∧
      (∀ client ∈ (kv.shardClients shid).getD [], ∃ lastPut,
        kv.lastPutByClientId client = some lastPut ∧
        (client, lastPut) ∈ state.lastPutByClientId) ∧
      ∀ client lastPut, (client, lastPut) ∈ state.lastPutByClientId →
        client ∈ (kv.shardClients shid).getD [] ∧ kv.lastPutByClientId client = some lastPut := by
  obtain ⟨lastPuts, collected, rest⟩ := Option.bind_eq_some_iff.mp packed
  obtain rfl := Option.some.inj rest
  exact ⟨rfl, collect_cases collected⟩

/-- Every client listed for a shard has a record. -/
def Packable (kv : KVServer) : Prop :=
  ∀ shid, ∀ client ∈ (kv.shardClients shid).getD [], kv.lastPutByClientId client ≠ none

theorem collect_total {clients : List ClientId}
    (recorded : ∀ client ∈ clients, lastPuts client ≠ none) :
    ∃ records, (clients.mapM fun client => (lastPuts client).map (client, ·)) = some records := by
  induction clients with
  | nil => exact ⟨[], rfl⟩
  | cons first rest ih =>
    obtain ⟨records, collected⟩ := ih fun client member =>
      recorded client (List.mem_cons_of_mem _ member)
    obtain ⟨lastPut, found⟩ :=
      Option.ne_none_iff_exists'.mp (recorded first (List.mem_cons_self ..))
    exact ⟨(first, lastPut) :: records, by simp [List.mapM_cons, found, collected]⟩

theorem Packable.marshall (packable : kv.Packable) (shid : Shid) :
    ∃ state, kv.marshallShardState shid = some state := by
  obtain ⟨records, collected⟩ := collect_total (packable shid)
  exact ⟨_, by rw [marshallShardState, collected]; rfl⟩

theorem Reached.recorded {requestId : Nat} (reached : Reached lastPuts client requestId) :
    lastPuts client ≠ none := by
  obtain ⟨lastPut, found, _⟩ := reached
  rw [found]
  nofun

theorem afterPut_packable {clientId requestId : Nat} {key : String}
    {kvshard : Option (KvMap String String)} {err : Err} {clients : List ClientId}
    (packable : kv.Packable) (present : kv.shardClients (key2Shard key) = some clients) :
    (kv.afterPut clientId requestId key kvshard err clients).Packable := by
  have known : ∀ client, client = clientId ∨ kv.lastPutByClientId client ≠ none →
      (kv.afterPut clientId requestId key kvshard err clients).lastPutByClientId client ≠ none := by
    intro client recorded
    dsimp only [afterPut]
    by_cases here : client = clientId
    · rw [here, Function.update_self]
      nofun
    · rw [Function.update_of_ne here]
      exact recorded.resolve_left here
  intro shid client member
  refine known client ?_
  dsimp only [afterPut] at member
  by_cases here : shid = key2Shard key
  · rw [here, Function.update_self, Option.getD_some] at member
    have listed := packable (key2Shard key)
    rw [present, Option.getD_some] at listed
    split at member
    · exact Or.inr (listed client member)
    · exact (List.mem_cons.mp member).imp_right (listed client)
  · rw [Function.update_of_ne here] at member
    exact Or.inr (packable shid client member)

theorem installShardState_packable {state : Packed} {loaded : KVServer} (packable : kv.Packable)
    (unpacked : kv.installShardState shid state = some loaded) : loaded.Packable := by
  obtain ⟨shardState, rfl, rfl⟩ := installShardState_cases unpacked
  intro shid' client member
  dsimp only at member ⊢
  by_cases here : shid' = shid
  · rw [here, Function.update_self, Option.getD_some] at member
    obtain ⟨⟨_, lastPut⟩, record, rfl⟩ := List.mem_map.mp member
    exact (merged_record record).recorded
  · rw [Function.update_of_ne here] at member
    obtain ⟨lastPut, found⟩ := Option.ne_none_iff_exists'.mp (packable shid' client member)
    exact (merged_reached ⟨lastPut, found, le_rfl⟩).recorded

theorem erased_packable (packable : kv.Packable) (shid : Shid) (num : Nat) :
    (kv.erased shid num).Packable := by
  intro shid' client member
  dsimp only [erased, setShard] at member ⊢
  by_cases here : shid' = shid
  · rw [here, Function.update_self] at member
    cases member
  · rw [Function.update_of_ne here] at member
    exact packable shid' client member

end KVServer

end KvStore.Shard
