import KvStore.Shard.Replay

set_option autoImplicit false

/-! Snapshots of a shard group: a replica rebuilt from one answers every later request
as the replica that took it. -/

namespace KvStore.Shard

structure SnapshotData where
  kvm : Shid → KvMap String String
  lastPutByClientId : ClientId → Option LastPut
  cfgNumByShid : Shid → Nat
  shardStatuses : Shid → ShardStatus
  shardClients : Shid → List ClientId

/-- Equal as the maps they are: the order in which clients are listed does not count. -/
structure SnapshotData.Same (data data' : SnapshotData) : Prop where
  kvm : data.kvm = data'.kvm
  lastPutByClientId : data.lastPutByClientId = data'.lastPutByClientId
  cfgNumByShid : data.cfgNumByShid = data'.cfgNumByShid
  shardStatuses : data.shardStatuses = data'.shardStatuses
  shardClients : ∀ shid client,
    client ∈ data.shardClients shid ↔ client ∈ data'.shardClients shid

theorem SnapshotData.Same.refl (data : SnapshotData) : data.Same data :=
  ⟨rfl, rfl, rfl, rfl, fun _ _ => Iff.rfl⟩

/-- The encoder of snapshots; `D` is the type of what it writes. -/
structure SnapshotGob (D : Type) where
  encode : SnapshotData → D
  decode : D → Option SnapshotData
  isEmpty : D → Bool
  encode_nonempty : ∀ data, isEmpty (encode data) = false
  decode_encode : ∀ data, ∃ decoded, decode (encode data) = some decoded ∧ data.Same decoded

/-- What two packed states have in common once decoded. -/
structure ShardState.Same (state state' : ShardState) : Prop where
  kv : state.kv = state'.kv
  lastPutByClientId : ∀ record,
    record ∈ state.lastPutByClientId ↔ record ∈ state'.lastPutByClientId

/-- Equal replies, the state of a Freeze compared after decoding. -/
inductive Reply.Same : Reply → Reply → Prop
  | equal (reply : Reply) : Same reply reply
  | frozen {state state' : ShardState} (alike : state.Same state') (num : Nat) (err : Err) :
      Same (.freezeShard (some state) num err) (.freezeShard (some state') num err)

namespace KVServer

section Codec

variable {D : Type} (gob : SnapshotGob D)

/-- `Snapshot`: the copies it makes hold empty maps where the server has nil. -/
def snapshot (kv : KVServer) : D :=
  gob.encode
    { kvm := fun shid => (kv.kvm shid).getD KvMap.empty
      lastPutByClientId := kv.lastPutByClientId
      cfgNumByShid := kv.cfgNumByShid
      shardStatuses := kv.shardStatuses
      shardClients := fun shid => (kv.shardClients shid).getD [] }

/-- `Restore`; `none` is the fatal error of data that does not decode. -/
def restore (kv : KVServer) (data : D) : Option KVServer :=
  if gob.isEmpty data then some kv
  else (gob.decode data).map fun snapshot =>
    { kvm := fun shid => some (snapshot.kvm shid)
      lastPutByClientId := snapshot.lastPutByClientId
      cfgNumByShid := snapshot.cfgNumByShid
      shardStatuses := snapshot.shardStatuses
      shardClients := fun shid => some (snapshot.shardClients shid) }

end Codec

/-- The two servers hold the same, nil counted as empty. -/
structure Equivalent (kv kv' : KVServer) : Prop where
  kvm : ∀ shid, (kv.kvm shid).getD KvMap.empty = (kv'.kvm shid).getD KvMap.empty
  lastPutByClientId : kv.lastPutByClientId = kv'.lastPutByClientId
  cfgNumByShid : kv.cfgNumByShid = kv'.cfgNumByShid
  shardStatuses : kv.shardStatuses = kv'.shardStatuses
  shardClients : ∀ shid client,
    client ∈ (kv.shardClients shid).getD [] ↔ client ∈ (kv'.shardClients shid).getD []

/-- No map of a shard the group has is nil, and every client listed has a record. -/
structure Intact (kv : KVServer) : Prop where
  kvm : ∀ shid, kv.shardStatuses shid ≠ .absent → ∃ kvshard, kv.kvm shid = some kvshard
  shardClients : ∀ shid, kv.shardStatuses shid ≠ .absent →
    ∃ clients, kv.shardClients shid = some clients
  packable : kv.Packable

variable {kv kv' later : KVServer} {shid : Shid} {num : Nat}

theorem Equivalent.symm (same : kv.Equivalent kv') : kv'.Equivalent kv where
  kvm shid := (same.kvm shid).symm
  lastPutByClientId := same.lastPutByClientId.symm
  cfgNumByShid := same.cfgNumByShid.symm
  shardStatuses := same.shardStatuses.symm
  shardClients shid client := (same.shardClients shid client).symm

theorem Equivalent.trans (same : kv.Equivalent kv') (next : kv'.Equivalent later) :
    kv.Equivalent later where
  kvm shid := (same.kvm shid).trans (next.kvm shid)
  lastPutByClientId := same.lastPutByClientId.trans next.lastPutByClientId
  cfgNumByShid := same.cfgNumByShid.trans next.cfgNumByShid
  shardStatuses := same.shardStatuses.trans next.shardStatuses
  shardClients shid client := (same.shardClients shid client).trans (next.shardClients shid client)

theorem Equivalent.packable (same : kv.Equivalent kv') (packable : kv.Packable) :
    kv'.Packable := by
  intro shid client member
  rw [← same.lastPutByClientId]
  exact packable shid client ((same.shardClients shid client).mpr member)

/-- What a snapshot brings back, whatever the server it is restored on held. -/
theorem restore_snapshot {D : Type} (gob : SnapshotGob D) (packable : kv.Packable)
    (target : KVServer) : ∃ restored, target.restore gob (kv.snapshot gob) = some restored ∧
      kv.Equivalent restored ∧ restored.Intact := by
  unfold restore snapshot
  rw [gob.encode_nonempty, if_neg Bool.false_ne_true]
  generalize written : SnapshotData.mk _ _ _ _ _ = data
  obtain ⟨decoded, back, alike⟩ := gob.decode_encode data
  subst written
  rw [back, Option.map_some]
  have same : kv.Equivalent
      { kvm := fun shid => some (decoded.kvm shid)
        lastPutByClientId := decoded.lastPutByClientId
        cfgNumByShid := decoded.cfgNumByShid
        shardStatuses := decoded.shardStatuses
        shardClients := fun shid => some (decoded.shardClients shid) } :=
    { kvm := congrFun alike.kvm
      lastPutByClientId := alike.lastPutByClientId
      cfgNumByShid := alike.cfgNumByShid
      shardStatuses := alike.shardStatuses
      shardClients := alike.shardClients }
  exact ⟨_, rfl, same, fun _ _ => ⟨_, rfl⟩, fun _ _ => ⟨_, rfl⟩, same.packable packable⟩

theorem start_intact (gid : Gid) : (start gid).Intact where
  kvm _ _ := ⟨_, rfl⟩
  shardClients _ _ := ⟨_, rfl⟩
  packable _ _ member := by cases member

/-- A request touches the maps and the status of one shard only. -/
theorem Intact.update {shard : Shid} (intact : kv.Intact) (packable : kv'.Packable)
    (here : kv'.shardStatuses shard ≠ .absent →
      (∃ kvshard, kv'.kvm shard = some kvshard) ∧ ∃ clients, kv'.shardClients shard = some clients)
    (elsewhere : ∀ other, other ≠ shard → kv'.shardStatuses other = kv.shardStatuses other ∧
      kv'.kvm other = kv.kvm other ∧ kv'.shardClients other = kv.shardClients other) :
    kv'.Intact where
  kvm other has := by
    by_cases same : other = shard
    · subst same
      exact (here has).1
    · obtain ⟨status, kvshard, -⟩ := elsewhere other same
      rw [kvshard]
      exact intact.kvm other (status ▸ has)
  shardClients other has := by
    by_cases same : other = shard
    · subst same
      exact (here has).2
    · obtain ⟨status, -, clients⟩ := elsewhere other same
      rw [clients]
      exact intact.shardClients other (status ▸ has)
  packable := packable

theorem doOp_intact {request : Request} {reply : Reply} (intact : kv.Intact)
    (done : kv.doOp request = some (kv', reply)) : kv'.Intact := by
  have packable : kv'.Packable := doOp_packable intact.packable done
  cases request with
  | get key =>
    rw [doOp_get_state done]
    exact intact
  | put clientId requestId key value version =>
    rcases doPut_cases done with ⟨_, rfl, _⟩ | ⟨_, _, _, rfl, _⟩ |
      ⟨serving, _, kvshard, err, clients, written, _, rfl, _⟩
    · exact intact
    · exact intact
    · obtain ⟨held, known⟩ := intact.kvm (key2Shard key) (by rw [serving]; simp)
      rw [writeShard, known] at written
      obtain ⟨rfl, -⟩ := Prod.mk.inj (Option.some.inj written)
      exact intact.update packable
        (fun _ => ⟨⟨_, Function.update_self ..⟩, ⟨_, Function.update_self ..⟩⟩)
        fun other apart =>
          ⟨rfl, Function.update_of_ne apart .., Function.update_of_ne apart ..⟩
  | freezeShard shard num =>
    rcases doFreezeShard_cases done with ⟨_, serving, _, _, rfl, _⟩ | ⟨_, _, _, _, rfl, _⟩ |
      ⟨_, rfl, _⟩ | ⟨_, rfl, _⟩
    · have has : kv.shardStatuses shard ≠ .absent := by rw [serving]; simp
      exact intact.update packable (fun _ => ⟨intact.kvm shard has, intact.shardClients shard has⟩)
        fun other apart => ⟨(kv.setShard_elsewhere apart .frozen num).2, rfl, rfl⟩
    all_goals exact intact
  | installShard shard state num =>
    rcases doInstallShard_cases done with ⟨_, _, loaded, unpacked, rfl, _⟩ | ⟨_, rfl, _⟩ |
      ⟨_, rfl, _⟩
    · obtain ⟨shardState, -, rfl⟩ := installShardState_cases unpacked
      exact intact.update packable
        (fun _ => ⟨⟨_, Function.update_self ..⟩, ⟨_, Function.update_self ..⟩⟩)
        fun other apart => ⟨Function.update_of_ne apart .., Function.update_of_ne apart ..,
          Function.update_of_ne apart ..⟩
    all_goals exact intact
  | deleteShard shard num =>
    rcases doOp_delete_cases done with ⟨_, _, rfl⟩ | rfl
    · refine intact.update packable (fun has => absurd ?_ has) fun other apart =>
        ⟨Function.update_of_ne apart .., Function.update_of_ne apart ..,
          Function.update_of_ne apart ..⟩
      exact (kv.setShard_here shard .absent num).2
    · exact intact

theorem reached_intact {gid : Gid} (reached : Relation.ReflTransGen Executes (start gid) kv) :
    kv.Intact := by
  induction reached with
  | refl => exact start_intact gid
  | tail _ step intact =>
    obtain ⟨request, reply, done⟩ := step
    exact doOp_intact intact done

/-- On a shard the group has, a Put is that of the versioned map. -/
theorem Intact.writeShard (intact : kv.Intact) (has : kv.shardStatuses shid ≠ .absent)
    (key value : String) (version : Nat) :
    kv.writeShard shid key value version =
      some (some (((kv.kvm shid).getD KvMap.empty).put key value version).1,
        (((kv.kvm shid).getD KvMap.empty).put key value version).2) := by
  obtain ⟨kvshard, held⟩ := intact.kvm shid has
  rw [KVServer.writeShard, held, Option.getD_some]

/-- The two results are both fatal or the same. -/
def SameOutcome : Option (KVServer × Reply) → Option (KVServer × Reply) → Prop :=
  Option.Rel fun left right => left.1.Equivalent right.1 ∧ left.2.Same right.2

section

variable (same : kv.Equivalent kv')

include same

theorem SameOutcome.unchanged (reply : Reply) :
    SameOutcome (some (kv, reply)) (some (kv', reply)) := .some ⟨same, .equal reply⟩

theorem Equivalent.held (key : String) :
    (kv.kvm shid).bind (· key) = (kv'.kvm shid).bind (· key) := by
  have filled : ∀ kvshard : Option (KvMap String String),
      kvshard.bind (· key) = kvshard.getD KvMap.empty key := by
    intro kvshard
    cases kvshard <;> rfl
  rw [filled, filled, same.kvm]

theorem Equivalent.doGet (key : String) :
    SameOutcome (some (kv.doGet key)) (some (kv'.doGet key)) := by
  unfold KVServer.doGet
  dsimp only
  rw [same.shardStatuses, same.held key]
  split
  · exact .unchanged same _
  · exact .unchanged same _

theorem Equivalent.afterPut {clientId requestId : Nat} {key : String}
    {kvshard : Option (KvMap String String)} {err : Err} {clients clients' : List ClientId}
    (present : kv.shardClients (key2Shard key) = some clients)
    (present' : kv'.shardClients (key2Shard key) = some clients') :
    (kv.afterPut clientId requestId key kvshard err clients).Equivalent
      (kv'.afterPut clientId requestId key kvshard err clients') where
  kvm shid := by
    dsimp only [KVServer.afterPut]
    by_cases here : shid = key2Shard key
    · rw [here, Function.update_self, Function.update_self]
    · rw [Function.update_of_ne here, Function.update_of_ne here, same.kvm]
  lastPutByClientId := by
    dsimp only [KVServer.afterPut]
    rw [same.lastPutByClientId]
  cfgNumByShid := same.cfgNumByShid
  shardStatuses := same.shardStatuses
  shardClients shid client := by
    have listed := same.shardClients (key2Shard key)
    rw [present, present'] at listed
    have added : ∀ clients : List ClientId,
        client ∈ (if clientId ∈ clients then clients else clientId :: clients) ↔
          client = clientId ∨ client ∈ clients := by
      intro clients
      split <;> grind
    dsimp only [KVServer.afterPut]
    by_cases here : shid = key2Shard key
    · rw [here, Function.update_self, Function.update_self, Option.getD_some, Option.getD_some,
        added, added]
      exact or_congr_right (listed client)
    · rw [Function.update_of_ne here, Function.update_of_ne here]
      exact same.shardClients shid client

theorem Equivalent.doPut (intact : kv.Intact) (intact' : kv'.Intact) (clientId requestId : Nat)
    (key value : String) (version : Nat) :
    SameOutcome (kv.doPut clientId requestId key value version)
      (kv'.doPut clientId requestId key value version) := by
  by_cases serving : kv.shardStatuses (key2Shard key) = .serving
  · have serving' : kv'.shardStatuses (key2Shard key) = .serving := by rwa [← same.shardStatuses]
    have has : kv.shardStatuses (key2Shard key) ≠ .absent := by rw [serving]; simp
    have has' : kv'.shardStatuses (key2Shard key) ≠ .absent := by rw [serving']; simp
    obtain ⟨clients, present⟩ := intact.shardClients _ has
    obtain ⟨clients', present'⟩ := intact'.shardClients _ has'
    have records : kv.duplicate clientId requestId = kv'.duplicate clientId requestId := by
      rw [duplicate, duplicate, same.lastPutByClientId]
    unfold KVServer.doPut
    dsimp only
    rw [if_neg (not_not.mpr serving), if_neg (not_not.mpr serving'), records]
    split
    · exact .unchanged same _
    · rw [intact.writeShard has, intact'.writeShard has', present, present', same.kvm]
      exact .some ⟨same.afterPut present present', .equal _⟩
  · unfold KVServer.doPut
    dsimp only
    rw [← same.shardStatuses, if_pos serving, if_pos serving]
    exact .unchanged same _

theorem Equivalent.setShard (shid : Shid) (status : ShardStatus) (num : Nat) :
    (kv.setShard shid status num).Equivalent (kv'.setShard shid status num) where
  kvm := same.kvm
  lastPutByClientId := same.lastPutByClientId
  cfgNumByShid := by rw [KVServer.setShard, KVServer.setShard, same.cfgNumByShid]
  shardStatuses := by rw [KVServer.setShard, KVServer.setShard, same.shardStatuses]
  shardClients := same.shardClients

theorem Equivalent.marshallShardState {state state' : ShardState}
    (packed : kv.marshallShardState shid = some state)
    (packed' : kv'.marshallShardState shid = some state') : state.Same state' := by
  obtain ⟨data, covered, genuine⟩ := marshallShardState_cases packed
  obtain ⟨data', covered', genuine'⟩ := marshallShardState_cases packed'
  refine ⟨by rw [data, data', same.kvm],
    fun ⟨client, lastPut⟩ => ⟨fun member => ?_, fun member => ?_⟩⟩
  · obtain ⟨listed, known⟩ := genuine client lastPut member
    obtain ⟨other, found, record⟩ := covered' client ((same.shardClients shid client).mp listed)
    rw [← same.lastPutByClientId, known] at found
    rwa [Option.some.inj found]
  · obtain ⟨listed, known⟩ := genuine' client lastPut member
    obtain ⟨other, found, record⟩ := covered client ((same.shardClients shid client).mpr listed)
    rw [same.lastPutByClientId, known] at found
    rwa [Option.some.inj found]

theorem Equivalent.doFreezeShard (packable : kv.Packable) (shid : Shid) (num : Nat) :
    SameOutcome (kv.doFreezeShard shid num) (kv'.doFreezeShard shid num) := by
  obtain ⟨state, packed⟩ := packable.marshall shid
  obtain ⟨state', packed'⟩ := (same.packable packable).marshall shid
  have alike : state.Same state' := same.marshallShardState packed packed'
  -- the state is packed after the status has changed, which marshalling does not read
  have later : (kv.setShard shid .frozen num).marshallShardState shid = some state := packed
  have later' : (kv'.setShard shid .frozen num).marshallShardState shid = some state' := packed'
  unfold KVServer.doFreezeShard
  dsimp only
  rw [later, later', packed, packed', ← same.cfgNumByShid, ← same.shardStatuses]
  split
  · split
    · exact .some ⟨same.setShard shid .frozen num, .frozen alike num .ok⟩
    · exact .unchanged same _
  · split
    · split
      · exact .unchanged same _
      · exact .some ⟨same, .frozen alike num .ok⟩
    · exact .unchanged same _

theorem Equivalent.installShardState (shid : Shid) (state : Packed) :
    Option.Rel Equivalent (kv.installShardState shid state) (kv'.installShardState shid state) := by
  cases state with
  | none => exact .none
  | some shardState =>
    refine .some ⟨fun other => ?_, ?_, same.cfgNumByShid, same.shardStatuses,
      fun other client => ?_⟩
    · dsimp only
      by_cases here : other = shid
      · rw [here, Function.update_self, Function.update_self]
      · rw [Function.update_of_ne here, Function.update_of_ne here, same.kvm]
    · dsimp only
      rw [same.lastPutByClientId]
    · dsimp only
      by_cases here : other = shid
      · rw [here, Function.update_self, Function.update_self]
      · rw [Function.update_of_ne here, Function.update_of_ne here]
        exact same.shardClients other client

theorem Equivalent.doInstallShard (shid : Shid) (state : Packed) (num : Nat) :
    SameOutcome (kv.doInstallShard shid state num) (kv'.doInstallShard shid state num) := by
  unfold KVServer.doInstallShard
  dsimp only
  rw [← same.cfgNumByShid, ← same.shardStatuses]
  split
  · split
    · have loaded := same.installShardState shid state
      generalize kv.installShardState shid state = left at loaded ⊢
      generalize kv'.installShardState shid state = right at loaded ⊢
      cases loaded with
      | none => exact .none
      | some alike => exact .some ⟨alike.setShard shid .serving num, .equal _⟩
    · exact .unchanged same _
  · split
    · split
      · exact .unchanged same _
      · exact .unchanged same _
    · exact .unchanged same _

theorem Equivalent.erased (shid : Shid) (num : Nat) :
    (kv.erased shid num).Equivalent (kv'.erased shid num) where
  kvm other := by
    dsimp only [KVServer.erased, KVServer.setShard]
    by_cases here : other = shid
    · rw [here, Function.update_self, Function.update_self]
    · rw [Function.update_of_ne here, Function.update_of_ne here, same.kvm]
  lastPutByClientId := same.lastPutByClientId
  cfgNumByShid := (same.setShard shid .absent num).cfgNumByShid
  shardStatuses := (same.setShard shid .absent num).shardStatuses
  shardClients other client := by
    dsimp only [KVServer.erased, KVServer.setShard]
    by_cases here : other = shid
    · rw [here, Function.update_self, Function.update_self]
    · rw [Function.update_of_ne here, Function.update_of_ne here]
      exact same.shardClients other client

theorem Equivalent.doDeleteShard (shid : Shid) (num : Nat) :
    SameOutcome (some (kv.doDeleteShard shid num)) (some (kv'.doDeleteShard shid num)) := by
  unfold KVServer.doDeleteShard
  dsimp only
  rw [← same.cfgNumByShid, ← same.shardStatuses]
  split
  · split
    · exact .some ⟨same.erased shid num, .equal _⟩
    · exact .unchanged same _
    · exact .unchanged same _
  · split
    · exact .unchanged same _
    · exact .unchanged same _

/-- Equivalent servers answer every request alike and stay equivalent. -/
theorem Equivalent.doOp (intact : kv.Intact) (intact' : kv'.Intact) (request : Request) :
    SameOutcome (kv.doOp request) (kv'.doOp request) := by
  cases request with
  | get key => exact same.doGet key
  | put clientId requestId key value version =>
    exact same.doPut intact intact' clientId requestId key value version
  | freezeShard shard num => exact same.doFreezeShard intact.packable shard num
  | installShard shard state num => exact same.doInstallShard shard state num
  | deleteShard shard num => exact same.doDeleteShard shard num

end

end KVServer

/-- What a replica goes through: it executes a request, or its process is replaced by
another one that restores a snapshot of it. -/
inductive ReplicaEvent
  | request (request : Request)
  | rebuilt (target : KVServer)

/-- The requests among the events, in their order. -/
def requestsOf : List ReplicaEvent → List Request
  | [] => []
  | .request request :: rest => request :: requestsOf rest
  | .rebuilt _ :: rest => requestsOf rest

namespace KVServer

variable {D : Type} (gob : SnapshotGob D)

/-- The state and the replies of a replica after the events; `none` once it has died. -/
def runEvents (kv : KVServer) : List ReplicaEvent → Option (KVServer × List Reply)
  | [] => some (kv, [])
  | .request request :: rest => do
    let (kv', reply) ← kv.doOp request
    let (last, replies) ← kv'.runEvents rest
    some (last, reply :: replies)
  | .rebuilt target :: rest => do
    let kv' ← target.restore gob (kv.snapshot gob)
    kv'.runEvents rest

/-- Both runs died, or they gave the same replies and equivalent states. -/
def SameRun : Option (KVServer × List Reply) → Option (KVServer × List Reply) → Prop :=
  Option.Rel fun left right => left.1.Equivalent right.1 ∧ List.Forall₂ Reply.Same left.2 right.2

variable {kv kv' : KVServer}

theorem runEvents_rebuilt (packable : kv.Packable) (target : KVServer)
    (rest : List ReplicaEvent) : ∃ restored, kv.Equivalent restored ∧ restored.Intact ∧
      kv.runEvents gob (.rebuilt target :: rest) = restored.runEvents gob rest := by
  obtain ⟨restored, back, same, intact⟩ := restore_snapshot gob packable target
  refine ⟨restored, same, intact, ?_⟩
  rw [runEvents, back]
  rfl

theorem SameRun.request {request : Request} {rest rest' : List ReplicaEvent}
    (outcome : SameOutcome (kv.doOp request) (kv'.doOp request))
    (runs : ∀ next reply next' reply', kv.doOp request = some (next, reply) →
      kv'.doOp request = some (next', reply') → next.Equivalent next' →
      SameRun (next.runEvents gob rest) (next'.runEvents gob rest')) :
    SameRun (kv.runEvents gob (.request request :: rest))
      (kv'.runEvents gob (.request request :: rest')) := by
  rw [runEvents, runEvents]
  generalize kv.doOp request = left at outcome runs ⊢
  generalize kv'.doOp request = right at outcome runs ⊢
  cases outcome with
  | none => exact .none
  | @some left right both =>
    obtain ⟨next, reply⟩ := left
    obtain ⟨next', reply'⟩ := right
    obtain ⟨same, replied⟩ := both
    have remaining := runs next reply next' reply' rfl rfl same
    rw [Option.bind_eq_bind, Option.bind_eq_bind, Option.bind_some, Option.bind_some]
    dsimp only
    generalize next.runEvents gob rest = ended at remaining ⊢
    generalize next'.runEvents gob rest' = ended' at remaining ⊢
    cases remaining with
    | none => exact .none
    | some both => exact .some ⟨both.1, .cons replied both.2⟩

/-- Equivalent replicas that execute the same requests, rebuilt at whatever points. -/
theorem runEvents_equivalent {kv kv' : KVServer} (same : kv.Equivalent kv')
    (intact : kv.Intact) (intact' : kv'.Intact) (events events' : List ReplicaEvent)
    (requests : requestsOf events = requestsOf events') :
    SameRun (kv.runEvents gob events) (kv'.runEvents gob events') := by
  match events, events' with
  | .rebuilt target :: rest, events' =>
    obtain ⟨restored, alike, whole, ran⟩ := runEvents_rebuilt gob intact.packable target rest
    rw [ran]
    exact runEvents_equivalent (alike.symm.trans same) whole intact' rest _ requests
  | events, .rebuilt target :: rest =>
    obtain ⟨restored, alike, whole, ran⟩ := runEvents_rebuilt gob intact'.packable target rest
    rw [ran]
    exact runEvents_equivalent (same.trans alike) intact whole events rest requests
  | [], [] => exact .some ⟨same, .nil⟩
  | .request request :: rest, .request request' :: rest' =>
    obtain ⟨rfl, remaining⟩ := List.cons.inj requests
    refine SameRun.request gob (same.doOp intact intact' request) ?_
    intro next reply next' reply' done done' alike
    exact runEvents_equivalent alike (doOp_intact intact done) (doOp_intact intact' done') rest
      rest' remaining
termination_by events.length + events'.length

/-- A replica restored from a snapshot of any state that requests lead to, on whatever
server, is equivalent to it; the two then answer the same requests alike and stay
equivalent, rebuilt as often as they may be. -/
theorem snapshot_exact {gid : Gid} (reached : Relation.ReflTransGen Executes (start gid) kv)
    (target : KVServer) : ∃ restored, target.restore gob (kv.snapshot gob) = some restored ∧
      kv.Equivalent restored ∧ ∀ events events', requestsOf events = requestsOf events' →
        SameRun (kv.runEvents gob events) (restored.runEvents gob events') := by
  have intact : kv.Intact := reached_intact reached
  obtain ⟨restored, back, same, whole⟩ := restore_snapshot gob intact.packable target
  exact ⟨restored, back, same, runEvents_equivalent gob same intact whole⟩

/-- Data written down as it is. -/
def verbatim : SnapshotGob SnapshotData where
  encode := id
  decode := some
  isEmpty _ := false
  encode_nonempty _ := rfl
  decode_encode data := ⟨data, rfl, .refl data⟩

/-- The maps of shard 4 are nil, shard 1 has a key, and the client has a record. -/
theorem snapshot_exact_handedOver :
    (handedOver.kvm 4).isNone ∧ (handedOver.kvm 1).bind (· "b") = some ⟨"w", 1⟩ ∧
      handedOver.lastPutByClientId 7 = some ⟨2, .ok⟩ ∧
      ∃ restored, (start 2).restore verbatim (handedOver.snapshot verbatim) = some restored ∧
        handedOver.Equivalent restored ∧
        ∀ events events', requestsOf events = requestsOf events' →
          SameRun (handedOver.runEvents verbatim events)
            (restored.runEvents verbatim events') := by
  refine ⟨by decide +kernel, by decide +kernel, by decide +kernel, ?_⟩
  have frozen := holdingKeys_reached.tail ⟨_, _, holdingKeys_freeze⟩
  exact snapshot_exact verbatim (frozen.tail handedOver_executes) (start 2)

end KVServer

end KvStore.Shard
