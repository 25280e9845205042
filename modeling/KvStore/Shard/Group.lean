import Mathlib.Data.Set.Finite.Basic
import Mathlib.Logic.Equiv.List
import KvStore.Kv.KvRaft
import KvStore.Rsm.ReplicaState
import KvStore.Shard.Representation

set_option autoImplicit false

/-! A shard group as the state machine that its replicas execute through their log, and
why a replica rebuilt from a snapshot cannot be told from the one that took it.

What a server holds and what a request carries is finite, as everything that travels as
bytes is. The order in which the clients of a shard are listed stands for nothing, so the
encoder is taken to keep it. -/

namespace KvStore.Shard

/-- A map with finitely many keys. -/
def Finitary {K V : Type} (map : K → Option V) : Prop := {key | map key ≠ none}.Finite

namespace Finitary

variable {K V : Type} {map : K → Option V}

theorem empty : Finitary fun _ : K => (none : Option V) := by
  simp only [Finitary, ne_eq, not_true_eq_false, Set.ofPred_false, Set.finite_empty]

theorem update [DecidableEq K] (finitary : Finitary map) (key : K) (value : Option V) :
    Finitary (Function.update map key value) := by
  refine (Set.Finite.insert key finitary).subset fun other held => ?_
  by_cases same : other = key
  · exact Or.inl same
  · rw [Set.mem_ofPred_eq, Function.update_of_ne same] at held
    exact Or.inr held

end Finitary

namespace KVServer

/-- Every shard has finitely many keys, and finitely many clients have a record. -/
structure Finite (kv : KVServer) : Prop where
  kvm : ∀ shid kvshard, kv.kvm shid = some kvshard → Finitary kvshard
  lastPuts : Finitary kv.lastPutByClientId

end KVServer

/-- What can be sent: an install carries finitely many keys. -/
def Request.Finite : Request → Prop
  | .installShard _ (some state) _ => Finitary state.kv
  | _ => True

/-- A request as it goes through the log. -/
abbrev Command := { request : Request // request.Finite }

/-- The state of a replica. -/
abbrev Replica := { kv : KVServer // kv.Intact ∧ kv.Finite }

namespace KVServer

variable {kv kv' : KVServer} {shid : Shid}

theorem start_finite (gid : Gid) : (start gid).Finite where
  kvm _ _ found := Option.some.inj found ▸ Finitary.empty
  lastPuts := Finitary.empty

theorem Finite.held (finite : kv.Finite) (shid : Shid) :
    Finitary ((kv.kvm shid).getD KvMap.empty) := by
  cases found : kv.kvm shid with
  | none => exact Finitary.empty
  | some kvshard => exact finite.kvm shid kvshard found

/-- A request changes the map of one shard at most. -/
theorem Finite.update (finite : kv.Finite) {kvshard : Option (KvMap String String)}
    (maps : kv'.kvm = Function.update kv.kvm shid kvshard)
    (here : ∀ new, kvshard = some new → Finitary new) (lastPuts : Finitary kv'.lastPutByClientId) :
    kv'.Finite := by
  refine ⟨fun other new found => ?_, lastPuts⟩
  rw [maps] at found
  by_cases same : other = shid
  · rw [same, Function.update_self] at found
    exact here new found
  · rw [Function.update_of_ne same] at found
    exact finite.kvm other new found

theorem put_finitary {kvshard : KvMap String String} (finitary : Finitary kvshard)
    (key value : String) (version : Nat) : Finitary (kvshard.put key value version).1 := by
  rcases kvshard.put_cases key value version with ⟨-, written⟩ | ⟨-, err, -, refused⟩
  · rw [written]
    exact finitary.update key _
  · rw [refused]
    exact finitary

theorem merged_finitary (records : List (ClientId × LastPut))
    {lastPuts : ClientId → Option LastPut} (finitary : Finitary lastPuts) :
    Finitary (records.foldl keepLatest lastPuts) := by
  induction records generalizing lastPuts with
  | nil => exact finitary
  | cons record rest ih =>
    refine ih ?_
    rcases keepLatest_cases lastPuts record with ⟨same, _⟩ | ⟨updated, _⟩
    · rw [same]
      exact finitary
    · rw [updated]
      exact finitary.update record.1 _

theorem Finite.doPut (finite : kv.Finite) {clientId requestId : Nat} {key value : String}
    {version : Nat} {reply : Reply}
    (done : kv.doPut clientId requestId key value version = some (kv', reply)) : kv'.Finite := by
  rcases doPut_cases done with ⟨_, rfl, _⟩ | ⟨_, _, _, rfl, _⟩ |
    ⟨_, _, kvshard, err, clients, written, _, rfl, _⟩
  · exact finite
  · exact finite
  · refine finite.update rfl (fun new found => ?_) (finite.lastPuts.update clientId _)
    unfold writeShard at written
    split at written
    · rename_i old known
      rw [← (Prod.mk.inj (Option.some.inj written)).1] at found
      rw [← Option.some.inj found]
      exact put_finitary (finite.kvm _ old known) key value version
    · split at written
      · cases written
      · rw [← (Prod.mk.inj (Option.some.inj written)).1] at found
        cases found

theorem Finite.doOp (finite : kv.Finite) {request : Request} (small : request.Finite)
    {reply : Reply} (done : kv.doOp request = some (kv', reply)) : kv'.Finite := by
  cases request with
  | get key =>
    rw [doOp_get_state done]
    exact finite
  | put clientId requestId key value version => exact finite.doPut done
  | freezeShard shard num =>
    rcases doFreezeShard_cases done with ⟨_, _, _, _, rfl, _⟩ | ⟨_, _, _, _, rfl, _⟩ |
      ⟨_, rfl, _⟩ | ⟨_, rfl, _⟩
    all_goals exact ⟨finite.kvm, finite.lastPuts⟩
  | installShard shard state num =>
    rcases doInstallShard_cases done with ⟨_, _, loaded, unpacked, rfl, _⟩ | ⟨_, rfl, _⟩ |
      ⟨_, rfl, _⟩
    · obtain ⟨shardState, rfl, rfl⟩ := installShardState_cases unpacked
      refine finite.update rfl (fun new found => ?_) (merged_finitary _ finite.lastPuts)
      rw [← Option.some.inj found]
      exact small
    · exact finite
    · exact finite
  | deleteShard shard num =>
    rcases doOp_delete_cases done with ⟨_, _, rfl⟩ | rfl
    · exact finite.update rfl (fun new found => by cases found) finite.lastPuts
    · exact finite

/-- The server with empty maps in the place of nil: what its snapshot brings back. -/
def filled (kv : KVServer) : KVServer :=
  { kv with
    kvm := fun shid => some ((kv.kvm shid).getD KvMap.empty)
    shardClients := fun shid => some ((kv.shardClients shid).getD []) }

/-- An outcome up to nil maps. -/
def settle : KVServer × Reply → KVServer × Reply := Prod.map filled id

@[simp] theorem filled_status (kv : KVServer) (shid : Shid) :
    kv.filled.shardStatuses shid = kv.shardStatuses shid := rfl

@[simp] theorem filled_num (kv : KVServer) (shid : Shid) :
    kv.filled.cfgNumByShid shid = kv.cfgNumByShid shid := rfl

@[simp] theorem filled_duplicate (kv : KVServer) (clientId requestId : Nat) :
    kv.filled.duplicate clientId requestId = kv.duplicate clientId requestId := rfl

@[simp] theorem filled_marshall (kv : KVServer) (shid : Shid) :
    kv.filled.marshallShardState shid = kv.marshallShardState shid := rfl

@[simp] theorem filled_setShard (kv : KVServer) (shid : Shid) (status : ShardStatus) (num : Nat) :
    kv.filled.setShard shid status num = (kv.setShard shid status num).filled := rfl

@[simp] theorem filled_filled (kv : KVServer) : kv.filled.filled = kv.filled := rfl

@[simp] theorem settle_mk (kv : KVServer) (reply : Reply) :
    settle (kv, reply) = (kv.filled, reply) := rfl

theorem fill_update {α : Type} (map : Shid → Option α) (shid : Shid) (value : Option α)
    (empty : α) :
    (fun s => some ((Function.update map shid value s).getD empty)) =
      Function.update (fun s => some ((map s).getD empty)) shid (some (value.getD empty)) := by
  funext s
  by_cases same : s = shid
  · rw [same, Function.update_self, Function.update_self]
  · rw [Function.update_of_ne same, Function.update_of_ne same]

/-- On a shard the group has, nothing is filled in. -/
theorem Intact.filled_here (intact : kv.Intact) (has : kv.shardStatuses shid ≠ .absent) :
    kv.filled.kvm shid = kv.kvm shid ∧ kv.filled.shardClients shid = kv.shardClients shid := by
  obtain ⟨kvshard, held⟩ := intact.kvm shid has
  obtain ⟨clients, listed⟩ := intact.shardClients shid has
  dsimp only [filled]
  rw [held, listed]
  exact ⟨rfl, rfl⟩

theorem filled_get (kv : KVServer) (key : String) :
    settle (kv.filled.doGet key) = settle (kv.doGet key) := by
  have held : (kv.filled.kvm (key2Shard key)).bind (· key) =
      (kv.kvm (key2Shard key)).bind (· key) := by
    dsimp only [filled]
    cases kv.kvm (key2Shard key) <;> rfl
  unfold doGet
  dsimp only
  rw [held]
  split <;> split <;> first | rfl | contradiction

theorem Intact.filled_put (intact : kv.Intact) (clientId requestId : Nat) (key value : String)
    (version : Nat) :
    (kv.filled.doPut clientId requestId key value version).map settle =
      (kv.doPut clientId requestId key value version).map settle := by
  unfold KVServer.doPut KVServer.writeShard
  by_cases serving : kv.shardStatuses (key2Shard key) = .serving
  · have has : kv.shardStatuses (key2Shard key) ≠ .absent := by simp [serving]
    obtain ⟨maps, clients⟩ := intact.filled_here has
    obtain ⟨kvshard, held⟩ := intact.kvm _ has
    obtain ⟨listed, there⟩ := intact.shardClients _ has
    cases known : kv.duplicate clientId requestId with
    | some lastPut => simp [serving, known]
    | none =>
      simp only [serving, known, maps, clients, held, there, filled_status, filled_duplicate]
      simp [filled, fill_update]
  · simp [serving]

theorem filled_freeze (kv : KVServer) (shid : Shid) (num : Nat) :
    (kv.filled.doFreezeShard shid num).map settle = (kv.doFreezeShard shid num).map settle := by
  unfold doFreezeShard
  by_cases later : num > kv.cfgNumByShid shid
  · cases status : kv.shardStatuses shid with
    | serving =>
      cases packed : (kv.setShard shid .frozen num).marshallShardState shid <;>
        simp [later, status, packed]
    | absent => simp [later, status]
    | frozen => simp [later, status]
  · by_cases same : num = kv.cfgNumByShid shid
    · cases status : kv.shardStatuses shid with
      | serving => simp [same, status]
      | absent => cases packed : kv.marshallShardState shid <;> simp [same, status, packed]
      | frozen => cases packed : kv.marshallShardState shid <;> simp [same, status, packed]
    · simp [later, same]

theorem filled_install (kv : KVServer) (shid : Shid) (state : Packed) (num : Nat) :
    (kv.filled.doInstallShard shid state num).map settle =
      (kv.doInstallShard shid state num).map settle := by
  unfold doInstallShard
  by_cases later : num > kv.cfgNumByShid shid
  · cases status : kv.shardStatuses shid with
    | absent => cases state <;>
        simp [later, status, installShardState, setShard, filled, fill_update]
    | _ => simp [later, status]
  · by_cases same : num = kv.cfgNumByShid shid
    · cases status : kv.shardStatuses shid <;> simp [same, status]
    · simp [later, same]

theorem filled_delete (kv : KVServer) (shid : Shid) (num : Nat) :
    settle (kv.filled.doDeleteShard shid num) = settle (kv.doDeleteShard shid num) := by
  unfold doDeleteShard
  by_cases same : num = kv.cfgNumByShid shid
  · cases status : kv.shardStatuses shid with
    | frozen => simp [same, status, filled, fill_update, setShard]
    | _ => simp [same, status]
  · by_cases later : num > kv.cfgNumByShid shid <;> simp [same, later]

/-- Nil or empty, the request is answered alike. -/
theorem Intact.filled_doOp (intact : kv.Intact) (request : Request) :
    (kv.filled.doOp request).map settle = (kv.doOp request).map settle := by
  cases request with
  | get key => exact congrArg some (filled_get kv key)
  | put clientId requestId key value version => exact intact.filled_put ..
  | freezeShard shard num => exact filled_freeze kv shard num
  | installShard shard state num => exact filled_install kv shard state num
  | deleteShard shard num => exact congrArg some (filled_delete kv shard num)

end KVServer

/-- A snapshot that can be restored: finite, and every client listed has a record. -/
structure SnapshotData.Sealed (data : SnapshotData) : Prop where
  kvm : ∀ shid, Finitary (data.kvm shid)
  lastPuts : Finitary data.lastPutByClientId
  recorded : ∀ shid, ∀ client ∈ data.shardClients shid, data.lastPutByClientId client ≠ none

abbrev Snapshot := { data : SnapshotData // data.Sealed }

/-- What `Snapshot` encodes. -/
def Replica.snapshot (kv : Replica) : Snapshot where
  val := kv.val.snapshot KVServer.verbatim
  property := ⟨kv.property.2.held, kv.property.2.lastPuts, kv.property.1.packable⟩

/-- What `Restore` makes of a decoded snapshot. -/
def Snapshot.replica (snapshot : Snapshot) : Replica where
  val :=
    { kvm := fun shid => some (snapshot.val.kvm shid)
      lastPutByClientId := snapshot.val.lastPutByClientId
      cfgNumByShid := snapshot.val.cfgNumByShid
      shardStatuses := snapshot.val.shardStatuses
      shardClients := fun shid => some (snapshot.val.shardClients shid) }
  property := by
    refine ⟨⟨fun shid _ => ⟨_, rfl⟩, fun shid _ => ⟨_, rfl⟩, snapshot.property.recorded⟩,
      ⟨fun shid kvshard found => ?_, snapshot.property.lastPuts⟩⟩
    rw [← Option.some.inj found]
    exact snapshot.property.kvm shid

/-- The encoder of snapshots, to bytes: decoding undoes encoding, and nothing is encoded
to nothing. -/
structure ReplicaGob where
  encode : Snapshot → Bytes
  decode : Bytes → Option Snapshot
  decode_encode : ∀ snapshot, decode (encode snapshot) = some snapshot
  encode_nonempty : ∀ snapshot, encode snapshot ≠ []

section Countable

instance countable_finitary {K V : Type} [Countable K] [Countable V] :
    Countable { map : K → Option V // Finitary map } := by
  have graph (map : { map : K → Option V // Finitary map }) :
      {pair : K × V | map.val pair.1 = some pair.2}.Finite := by
    refine Set.Finite.of_finite_image (f := Prod.fst) (Set.Finite.subset map.property ?_) ?_
    · rintro key ⟨pair, held, rfl⟩
      rw [Set.mem_ofPred_eq] at held ⊢
      simp [held]
    · rintro ⟨key, value⟩ held ⟨key', value'⟩ held' rfl
      rw [Set.mem_ofPred_eq] at held held'
      rw [Prod.mk.injEq]
      exact ⟨rfl, Option.some.inj (held.symm.trans held')⟩
  refine Function.Injective.countable (f := fun map => (graph map).toFinset) fun map map' same => ?_
  have pairs : ∀ key value, map.val key = some value ↔ map'.val key = some value := by
    intro key value
    have here := congrArg ((key, value) ∈ ·) same
    simpa using here
  refine Subtype.ext (funext fun key => Option.ext fun value => ?_)
  exact pairs key value

instance countable_lastPut : Countable LastPut :=
  Function.Injective.countable (f := fun put => (put.requestId, put.err)) fun put put' same => by
    cases put
    cases put'
    cases same
    rfl

instance countable_status : Countable ShardStatus :=
  Function.Injective.countable (f := Handoff.Status.ctorIdx) fun status status' same => by
    cases status <;> cases status' <;> first | rfl | cases same

instance countable_snapshot : Countable Snapshot := by
  refine Function.Injective.countable (f := fun snapshot : Snapshot =>
    ((fun shid => (⟨snapshot.val.kvm shid, snapshot.property.kvm shid⟩ :
        { map : String → Option (VersionedValue String) // Finitary map }),
      (⟨snapshot.val.lastPutByClientId, snapshot.property.lastPuts⟩ :
        { map : ClientId → Option LastPut // Finitary map })),
      (snapshot.val.cfgNumByShid, snapshot.val.shardStatuses, snapshot.val.shardClients)))
    fun snapshot snapshot' same => ?_
  obtain ⟨⟨kvm, lastPuts, cfgNums, statuses, clients⟩, _⟩ := snapshot
  obtain ⟨⟨kvm', lastPuts', cfgNums', statuses', clients'⟩, _⟩ := snapshot'
  simp only [Prod.mk.injEq, funext_iff, Subtype.mk.injEq] at same
  obtain ⟨⟨maps, records⟩, nums, status, listed⟩ := same
  obtain rfl : kvm = kvm' := funext fun shid => funext (maps shid)
  obtain rfl : lastPuts = lastPuts' := funext records
  obtain rfl : cfgNums = cfgNums' := funext nums
  obtain rfl : statuses = statuses' := funext status
  obtain rfl : clients = clients' := funext listed
  rfl

end Countable

/-- Any numbering of the snapshots gives an encoding. -/
noncomputable def ReplicaGob.unary : ReplicaGob :=
  have numbered := Countable.exists_injective_nat Snapshot
  let encode (snapshot : Snapshot) : Bytes := List.replicate (numbered.choose snapshot + 1) 0
  { encode
    decode := Function.partialInv encode
    decode_encode := Function.partialInv_left fun snapshot snapshot' same => by
      apply numbered.choose_spec
      have sizes := congrArg List.length same
      simp only [encode, List.length_replicate] at sizes
      omega
    encode_nonempty := fun _ => List.cons_ne_nil _ _ }

/-- The server as the replicated state machine calls it. A request that kills the replica
gives no reply; no group is ever sent one. A snapshot that does not decode ends the
process; the servers are only handed snapshots they have taken. -/
def group (gob : ReplicaGob) (gid : Gid) : StateMachine Replica Command (Option Reply) where
  init := ⟨.start gid, KVServer.start_intact gid, KVServer.start_finite gid⟩
  doOp kv request :=
    match done : kv.val.doOp request.val with
    | some (kv', reply) =>
      (⟨kv', KVServer.doOp_intact kv.property.1 done, kv.property.2.doOp request.property done⟩,
        some reply)
    | none => (kv, none)
  snapshot kv := gob.encode kv.snapshot
  restore data kv :=
    if data = [] then kv
    else match gob.decode data with
      | some snapshot => snapshot.replica
      | none => kv

section Machine

variable {gob : ReplicaGob} {gid : Gid} {kv kv' : Replica}

@[simp] theorem group_reply (request : Command) :
    ((group gob gid).doOp kv request).2 = (kv.val.doOp request.val).map Prod.snd := by
  dsimp only [group]
  split
  · rename_i done
    exact (congrArg (Option.map Prod.snd) done).symm
  · rename_i died
    exact (congrArg (Option.map Prod.snd) died).symm

@[simp] theorem group_state (request : Command) :
    ((group gob gid).doOp kv request).1.val =
      ((kv.val.doOp request.val).map Prod.fst).getD kv.val := by
  have after : ∀ {outcome}, kv.val.doOp request.val = outcome →
      (outcome.map Prod.fst).getD kv.val =
        ((kv.val.doOp request.val).map Prod.fst).getD kv.val := by
    rintro _ rfl
    rfl
  dsimp only [group]
  split
  · rename_i done
    exact after done
  · rename_i died
    exact after died

/-- States that differ in nil maps only answer alike and stay so. -/
theorem filled_step (gob : ReplicaGob) (gid : Gid) (same : kv.val.filled = kv'.val.filled)
    (request : Command) :
    ((group gob gid).doOp kv request).2 = ((group gob gid).doOp kv' request).2 ∧
      ((group gob gid).doOp kv request).1.val.filled =
        ((group gob gid).doOp kv' request).1.val.filled := by
  have outcomes : (kv.val.doOp request.val).map KVServer.settle =
      (kv'.val.doOp request.val).map KVServer.settle := by
    rw [← kv.property.1.filled_doOp, ← kv'.property.1.filled_doOp, same]
  rw [group_reply, group_reply, group_state, group_state]
  cases here : kv.val.doOp request.val with
  | none =>
    rw [here] at outcomes
    rw [Option.map_eq_none_iff.mp outcomes.symm]
    exact ⟨rfl, same⟩
  | some outcome =>
    rw [here] at outcomes
    obtain ⟨outcome', there, settled⟩ := Option.map_eq_some_iff.mp outcomes.symm
    rw [there]
    have replies : (KVServer.settle outcome).2 = (KVServer.settle outcome').2 :=
      congrArg Prod.snd settled.symm
    exact ⟨congrArg some replies, congrArg Prod.fst settled.symm⟩

theorem filled_obsEq (same : kv.val.filled = kv'.val.filled) : (group gob gid).ObsEq kv kv' := by
  intro requests
  induction requests generalizing kv kv' with
  | nil => rfl
  | cons request rest ih =>
    have step := filled_step gob gid same request
    exact congrArg₂ List.cons step.1 (ih step.2)

theorem group_recoverable (gob : ReplicaGob) (gid : Gid) : (group gob gid).Recoverable where
  restored kv kv' := by
    have back : (group gob gid).restore ((group gob gid).snapshot kv) kv' =
        kv.snapshot.replica := by
      simp only [group, gob.encode_nonempty, ↓reduceIte, gob.decode_encode]
    rw [back]
    exact filled_obsEq rfl
  empty kv nothing := absurd nothing (gob.encode_nonempty _)

end Machine

end KvStore.Shard
