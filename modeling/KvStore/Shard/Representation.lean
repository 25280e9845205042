import KvStore.Shard.Snapshots

set_option autoImplicit false

/-! The representation of a shard group's state: no request of a reachable group finds a
nil map to write to or a client without a record. -/

namespace KvStore.Shard.KVServer

variable {kv kv' : KVServer} {shid : Shid}

/-- Every key is one of the shard's, and every version that of a write. -/
def Stored (shid : Shid) (kvshard : KvMap String String) : Prop :=
  ∀ key held, kvshard key = some held → key2Shard key = shid ∧ 1 ≤ held.version

structure Represented (kv : KVServer) : Prop extends kv.Intact where
  stored : ∀ shid kvshard, kv.kvm shid = some kvshard → Stored shid kvshard

/-- The states of a group: after its start, after a request, and after `Restore` of a
snapshot of such a state on any server. What is installed is what some group packed of
the same shard, as it is once decoded. -/
inductive Reachable {D : Type} (gob : SnapshotGob D) : KVServer → Prop
  | start (gid : Gid) : Reachable gob (start gid)
  | request {kv kv' : KVServer} {request : Request} {reply : Reply} (reached : Reachable gob kv)
      (noInstall : ∀ shard state num, request ≠ .installShard shard state num)
      (done : kv.doOp request = some (kv', reply)) : Reachable gob kv'
  | install {kv kv' source : KVServer} {shard : Shid} {packed state : ShardState} {num : Nat}
      {reply : Reply} (reached : Reachable gob kv) (origin : Reachable gob source)
      (marshalled : source.marshallShardState shard = some packed) (decoded : packed.Same state)
      (done : kv.doOp (.installShard shard (some state) num) = some (kv', reply)) :
      Reachable gob kv'
  | restore {kv target restored : KVServer} (reached : Reachable gob kv)
      (done : target.restore gob (kv.snapshot gob) = some restored) : Reachable gob restored

theorem Stored.empty (shid : Shid) : Stored shid KvMap.empty := by
  intro key held found
  cases found

theorem Stored.put {kvshard : KvMap String String} {key : String}
    (stored : Stored (key2Shard key) kvshard) (value : String) (version : Nat) :
    Stored (key2Shard key) (kvshard.put key value version).1 := by
  rcases kvshard.put_cases key value version with ⟨-, written⟩ | ⟨-, err, -, refused⟩
  · rw [written]
    intro other held found
    dsimp only at found
    by_cases same : other = key
    · rw [same, Function.update_self] at found
      rw [same, ← Option.some.inj found]
      exact ⟨rfl, Nat.le_add_left 1 version⟩
    · rw [Function.update_of_ne same] at found
      exact stored other held found
  · rw [refused]
    exact stored

namespace Represented

theorem start (gid : Gid) : (start gid).Represented :=
  ⟨start_intact gid, fun shid _ found => Option.some.inj found ▸ Stored.empty shid⟩

section

variable (represented : kv.Represented)

include represented

theorem held (shid : Shid) : Stored shid ((kv.kvm shid).getD KvMap.empty) := by
  cases found : kv.kvm shid with
  | none => exact Stored.empty shid
  | some kvshard => exact represented.stored shid kvshard found

/-- A packed shard has only its own keys. -/
theorem marshall {state : ShardState} (packed : kv.marshallShardState shid = some state) :
    Stored shid state.kv := by
  rw [(marshallShardState_cases packed).1]
  exact represented.held shid

/-- A request changes the map of one shard at most. -/
theorem update {shard : Shid} (intact : kv'.Intact) {kvshard : Option (KvMap String String)}
    (maps : kv'.kvm = Function.update kv.kvm shard kvshard)
    (here : ∀ new, kvshard = some new → Stored shard new) : kv'.Represented := by
  refine ⟨intact, fun shid new found => ?_⟩
  rw [maps] at found
  by_cases same : shid = shard
  · rw [same, Function.update_self] at found
    rw [same]
    exact here new found
  · rw [Function.update_of_ne same] at found
    exact represented.stored shid new found

theorem same (intact : kv'.Intact) (maps : kv'.kvm = kv.kvm) : kv'.Represented :=
  ⟨intact, fun shid kvshard found => represented.stored shid kvshard (maps ▸ found)⟩

theorem doPut (intact : kv'.Intact) {clientId requestId : Nat} {key value : String} {version : Nat}
    {reply : Reply} (done : kv.doPut clientId requestId key value version = some (kv', reply)) :
    kv'.Represented := by
  rcases doPut_cases done with ⟨_, rfl, _⟩ | ⟨_, _, _, rfl, _⟩ |
    ⟨_, _, kvshard, err, clients, written, _, rfl, _⟩
  · exact represented
  · exact represented
  · refine represented.update intact rfl fun new found => ?_
    cases known : kv.kvm (key2Shard key) with
    | none =>
      rw [writeShard, known] at written
      dsimp only at written
      split at written
      · cases written
      · rw [← (Prod.mk.inj (Option.some.inj written)).1] at found
        cases found
    | some old =>
      rw [writeShard, known] at written
      rw [← (Prod.mk.inj (Option.some.inj written)).1] at found
      rw [← Option.some.inj found]
      exact (represented.stored _ old known).put value version

theorem doInstallShard (intact : kv'.Intact) {state : ShardState} (stored : Stored shid state.kv)
    {num : Nat} {reply : Reply}
    (done : kv.doInstallShard shid (some state) num = some (kv', reply)) :
    kv'.Represented := by
  rcases doInstallShard_cases done with ⟨_, _, loaded, unpacked, rfl, _⟩ | ⟨_, rfl, _⟩ | ⟨_, rfl, _⟩
  · obtain ⟨shardState, same, rfl⟩ := installShardState_cases unpacked
    refine represented.update intact rfl fun new found => ?_
    rw [← Option.some.inj found, ← Option.some.inj same]
    exact stored
  · exact represented
  · exact represented

theorem doOp {request : Request} {reply : Reply}
    (noInstall : ∀ shard state num, request ≠ .installShard shard state num)
    (done : kv.doOp request = some (kv', reply)) : kv'.Represented := by
  have intact : kv'.Intact := doOp_intact represented.toIntact done
  cases request with
  | get key =>
    rw [doOp_get_state done]
    exact represented
  | put clientId requestId key value version => exact represented.doPut intact done
  | freezeShard shard num =>
    rcases doFreezeShard_cases done with ⟨_, _, _, _, rfl, _⟩ | ⟨_, _, _, _, rfl, _⟩ |
      ⟨_, rfl, _⟩ | ⟨_, rfl, _⟩
    all_goals exact represented.same intact rfl
  | installShard shard state num => exact absurd rfl (noInstall shard state num)
  | deleteShard shard num =>
    rcases doOp_delete_cases done with ⟨_, _, rfl⟩ | rfl
    · exact represented.update intact rfl fun new found => by cases found
    · exact represented

/-- Empty maps come back where nil was. -/
theorem restore {D : Type} {gob : SnapshotGob D} {target restored : KVServer}
    (done : target.restore gob (kv.snapshot gob) = some restored) : restored.Represented := by
  obtain ⟨back, same, equivalent, intact⟩ := restore_snapshot gob represented.packable target
  obtain rfl : back = restored := Option.some.inj (same.symm.trans done)
  refine ⟨intact, fun shid kvshard found => ?_⟩
  have held := represented.held shid
  rw [equivalent.kvm shid, found] at held
  exact held

end

end Represented

/-- The invariant along every history, by induction on how the state was reached; the
group a packed state came from is one of the induction's cases. -/
theorem Reachable.represented {D : Type} {gob : SnapshotGob D} (reached : Reachable gob kv) :
    kv.Represented := by
  induction reached with
  | start gid => exact Represented.start gid
  | request _ noInstall done represented => exact represented.doOp noInstall done
  | install _ _ marshalled decoded done represented origin =>
    have stored := origin.marshall marshalled
    rw [decoded.kv] at stored
    exact represented.doInstallShard (doOp_intact represented.toIntact done) stored done
  | restore _ done represented => exact represented.restore done

/-- A group whose maps are there answers every Put. -/
theorem Intact.doPut_total (intact : kv.Intact) (clientId requestId : Nat) (key value : String)
    (version : Nat) : ∃ result, kv.doPut clientId requestId key value version = some result := by
  unfold doPut
  dsimp only
  split
  · exact ⟨_, rfl⟩
  · rename_i serving
    rw [not_not] at serving
    have has : kv.shardStatuses (key2Shard key) ≠ .absent := by rw [serving]; simp
    split
    · exact ⟨_, rfl⟩
    · obtain ⟨clients, listed⟩ := intact.shardClients _ has
      rw [intact.writeShard has, listed]
      exact ⟨_, rfl⟩

theorem Packable.doFreezeShard_total (packable : kv.Packable) (shard : Shid) (num : Nat) :
    ∃ result, kv.doFreezeShard shard num = some result := by
  obtain ⟨state, packed⟩ := packable.marshall shard
  have frozen : (kv.setShard shard .frozen num).marshallShardState shard = some state := packed
  unfold doFreezeShard
  dsimp only
  rw [frozen, packed]
  split <;> split <;> first | exact ⟨_, rfl⟩ | (split <;> exact ⟨_, rfl⟩)

theorem doInstallShard_total (kv : KVServer) (shard : Shid) (state : ShardState) (num : Nat) :
    ∃ result, kv.doInstallShard shard (some state) num = some result := by
  unfold doInstallShard
  dsimp only
  split <;> split <;> first | exact ⟨_, rfl⟩ | (split <;> exact ⟨_, rfl⟩)

theorem Intact.doOp_total (intact : kv.Intact) {request : Request}
    (decodes : ∀ shard num, request ≠ .installShard shard none num) :
    ∃ result, kv.doOp request = some result := by
  cases request with
  | get key => exact ⟨_, rfl⟩
  | put clientId requestId key value version => exact intact.doPut_total ..
  | freezeShard shard num => exact intact.packable.doFreezeShard_total shard num
  | installShard shard state num =>
    cases state with
    | none => exact absurd rfl (decodes shard num)
    | some state => exact kv.doInstallShard_total shard state num
  | deleteShard shard num => exact ⟨_, rfl⟩

/-- In every reachable state the maps of a serving shard are there, a shard's map has only
its keys and versions from 1 on, and every client listed has a record. So no request
kills the replica, unless what it is to install is nil, and every shard can be packed. -/
theorem representation_holds {D : Type} {gob : SnapshotGob D} (reached : Reachable gob kv) :
    (∀ shid, kv.shardStatuses shid = .serving →
      ∃ kvshard clients, kv.kvm shid = some kvshard ∧ kv.shardClients shid = some clients) ∧
    (∀ shid kvshard key held, kv.kvm shid = some kvshard → kvshard key = some held →
      key2Shard key = shid ∧ 1 ≤ held.version) ∧
    (∀ shid clients client, kv.shardClients shid = some clients → client ∈ clients →
      ∃ lastPut, kv.lastPutByClientId client = some lastPut) ∧
    (∀ request, (∀ shard num, request ≠ .installShard shard none num) →
      ∃ result, kv.doOp request = some result) ∧
    ∀ shid, ∃ state, kv.marshallShardState shid = some state := by
  have represented := reached.represented
  refine ⟨fun shid serving => ?_,
    fun shid kvshard key held found => represented.stored shid kvshard found key held,
    fun shid clients client listed member => ?_,
    fun request decodes => represented.doOp_total decodes, represented.packable.marshall⟩
  · have has : kv.shardStatuses shid ≠ .absent := by rw [serving]; simp
    obtain ⟨kvshard, found⟩ := represented.kvm shid has
    obtain ⟨clients, listed⟩ := represented.shardClients shid has
    exact ⟨kvshard, clients, found, listed⟩
  · refine Option.ne_none_iff_exists'.mp (represented.packable shid client ?_)
    rwa [listed]

/-- Group 2 once it has installed what the first group packed of shard 4. -/
def installedKeys : KVServer :=
  (((start 2).doOp (.installShard 4 (holdingKeys.marshallShardState 4) 2)).get
    (by decide +kernel)).1

/-- It is rebuilt from a snapshot. -/
def rebuiltKeys : KVServer :=
  ((start 2).restore verbatim (installedKeys.snapshot verbatim)).get (by decide +kernel)

theorem rebuiltKeys_reached : Reachable verbatim rebuiltKeys := by
  have first : Reachable verbatim _ := (Reachable.start gid1).request (by simp)
    (rfl : (start gid1).doOp (.put 7 1 "a" "v" 0) = some (_, .put .ok))
  have both : Reachable verbatim holdingKeys := first.request (by simp)
    (rfl : KVServer.doOp _ (.put 7 2 "b" "w" 0) = some (holdingKeys, .put .ok))
  have frozen := both.request (by simp) holdingKeys_freeze
  obtain ⟨packed, marshalled⟩ := frozen.represented.packable.marshall 4
  have done : (start 2).doOp (.installShard 4 (some packed) 2) =
      some (installedKeys, .installShard .ok) := by
    rw [← marshalled]
    rfl
  have installed := (Reachable.start 2).install frozen marshalled ⟨rfl, fun _ => Iff.rfl⟩ done
  exact installed.restore (Option.some_get _).symm

theorem representation_holds_moved :
    rebuiltKeys.shardStatuses 4 = .serving ∧ rebuiltKeys.cfgNumByShid 4 = 2 ∧
      ∃ kvshard held clients lastPut, rebuiltKeys.kvm 4 = some kvshard ∧
        kvshard "a" = some held ∧ 1 ≤ held.version ∧
        rebuiltKeys.shardClients 4 = some clients ∧ 7 ∈ clients ∧
        rebuiltKeys.lastPutByClientId 7 = some lastPut := by
  obtain ⟨maps, keys, records, -⟩ := representation_holds rebuiltKeys_reached
  have serving : rebuiltKeys.shardStatuses 4 = .serving := by decide +kernel
  have key : ((rebuiltKeys.kvm 4).bind (· "a")).isSome := by decide +kernel
  have client : 7 ∈ (rebuiltKeys.shardClients 4).getD [] := by decide +kernel
  obtain ⟨kvshard, clients, found, listed⟩ := maps 4 serving
  rw [found] at key
  rw [listed] at client
  obtain ⟨held, stored⟩ := Option.isSome_iff_exists.mp key
  obtain ⟨lastPut, record⟩ := records 4 clients 7 listed client
  exact ⟨serving, by decide +kernel, kvshard, held, clients, lastPut, found, stored,
    (keys 4 kvshard "a" held found stored).2, listed, client, record⟩

end KvStore.Shard.KVServer
