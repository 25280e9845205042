import Mathlib.Logic.Relation
import KvStore.Shard.Outcomes

set_option autoImplicit false

/-! Migration requests executed again: how the number and the status of a shard move,
and why a request that was accepted once is harmless ever after. -/

namespace KvStore.Shard

def Reply.err : Reply → Err
  | .get _ _ err => err
  | .put err => err
  | .freezeShard _ _ err => err
  | .installShard err => err
  | .deleteShard err => err

namespace KVServer

variable {kv kv' : KVServer} {shid : Shid} {request : Request} {reply : Reply} {num : Nat}

/-- Some request takes one state to the other. -/
def Executes (kv kv' : KVServer) : Prop := ∃ request reply, kv.doOp request = some (kv', reply)

/-- The state after the requests, if the replica survives them. -/
def executeAll (kv : KVServer) (requests : List Request) : Option KVServer :=
  requests.foldlM (fun kv request => (kv.doOp request).map Prod.fst) kv

theorem executeAll_executes {kv kv' : KVServer} {requests : List Request}
    (done : kv.executeAll requests = some kv') : Relation.ReflTransGen Executes kv kv' := by
  induction requests generalizing kv with
  | nil =>
    obtain rfl := Option.some.inj done
    exact .refl
  | cons request rest ih =>
    obtain ⟨next, executed, done⟩ := Option.bind_eq_some_iff.mp done
    obtain ⟨⟨_, reply⟩, outcome, rfl⟩ := Option.map_eq_some_iff.mp executed
    exact .head ⟨request, reply, outcome⟩ (ih done)

/-- How the number and the status of a shard may change in one step: along Absent,
Serving, Frozen, Absent, with a higher number on the first two moves. -/
inductive Advances (kv kv' : KVServer) (shid : Shid) : Prop
  | stays (num : kv'.cfgNumByShid shid = kv.cfgNumByShid shid)
      (status : kv'.shardStatuses shid = kv.shardStatuses shid)
  | installed (later : kv.cfgNumByShid shid < kv'.cfgNumByShid shid)
      (before : kv.shardStatuses shid = .absent) (after : kv'.shardStatuses shid = .serving)
  | frozen (later : kv.cfgNumByShid shid < kv'.cfgNumByShid shid)
      (before : kv.shardStatuses shid = .serving) (after : kv'.shardStatuses shid = .frozen)
  | deleted (num : kv'.cfgNumByShid shid = kv.cfgNumByShid shid)
      (before : kv.shardStatuses shid = .frozen) (after : kv'.shardStatuses shid = .absent)

theorem Advances.refl (kv : KVServer) (shid : Shid) : Advances kv kv shid := .stays rfl rfl

theorem setShard_elsewhere (kv : KVServer) {other : Shid} (apart : other ≠ shid)
    (status : ShardStatus) (num : Nat) :
    (kv.setShard shid status num).cfgNumByShid other = kv.cfgNumByShid other ∧
      (kv.setShard shid status num).shardStatuses other = kv.shardStatuses other :=
  ⟨Function.update_of_ne apart .., Function.update_of_ne apart ..⟩

theorem setShard_here (kv : KVServer) (shid : Shid) (status : ShardStatus) (num : Nat) :
    (kv.setShard shid status num).cfgNumByShid shid = num ∧
      (kv.setShard shid status num).shardStatuses shid = status :=
  ⟨Function.update_self .., Function.update_self ..⟩

theorem doOp_get_state {key : String} (done : kv.doOp (.get key) = some (kv', reply)) :
    kv' = kv := by
  rw [← kv.doGet_state key]
  exact (congrArg Prod.fst (Option.some.inj done)).symm

theorem doOp_delete_cases (done : kv.doOp (.deleteShard shid num) = some (kv', reply)) :
    (kv.shardStatuses shid = .frozen ∧ num = kv.cfgNumByShid shid ∧ kv' = kv.erased shid num) ∨
      kv' = kv := by
  have outcome := Option.some.inj done
  rcases kv.doDeleteShard_cases shid num with ⟨frozen, same, result⟩ | ⟨_, result⟩ | ⟨_, result⟩
  · exact Or.inl ⟨frozen, same, (Prod.mk.inj (outcome.symm.trans result)).1⟩
  all_goals exact Or.inr (Prod.mk.inj (outcome.symm.trans result)).1

/-- Every request moves every shard along the cycle, one case for each kind. -/
theorem doOp_advances (done : kv.doOp request = some (kv', reply)) (shid : Shid) :
    Advances kv kv' shid := by
  cases request with
  | get key =>
    rw [doOp_get_state done]
    exact .refl kv shid
  | put clientId requestId key value version =>
    rcases doPut_cases done with ⟨_, rfl, _⟩ | ⟨_, _, _, rfl, _⟩ | ⟨_, _, _, _, _, _, _, rfl, _⟩
    · exact .refl kv' shid
    · exact .refl kv' shid
    · exact .stays rfl rfl
  | freezeShard shard num =>
    rcases doFreezeShard_cases done with ⟨later, serving, _, _, rfl, _⟩ | ⟨_, _, _, _, rfl, _⟩ |
      ⟨_, rfl, _⟩ | ⟨_, rfl, _⟩
    · by_cases here : shid = shard
      · subst here
        obtain ⟨number, status⟩ := kv.setShard_here shid .frozen num
        exact .frozen (number.symm ▸ later) serving status
      · obtain ⟨number, status⟩ := kv.setShard_elsewhere here .frozen num
        exact .stays number status
    all_goals exact .refl kv' shid
  | installShard shard state num =>
    rcases doInstallShard_cases done with ⟨later, absent, loaded, unpacked, rfl, _⟩ |
      ⟨_, rfl, _⟩ | ⟨_, rfl, _⟩
    · by_cases here : shid = shard
      · subst here
        obtain ⟨number, status⟩ := loaded.setShard_here shid .serving num
        exact .installed (number.symm ▸ later) absent status
      · obtain ⟨number, status⟩ := loaded.setShard_elsewhere here .serving num
        obtain ⟨shardState, -, rfl⟩ := installShardState_cases unpacked
        exact .stays number status
    all_goals exact .refl kv' shid
  | deleteShard shard num =>
    rcases doOp_delete_cases done with ⟨frozen, same, rfl⟩ | rfl
    · by_cases here : shid = shard
      · subst here
        exact .deleted ((Function.update_self ..).trans same) frozen (Function.update_self ..)
      · exact .stays (Function.update_of_ne here ..) (Function.update_of_ne here ..)
    · exact .refl kv' shid

/-- The shard is past the request: at a higher number, or at its number with the
status the request brings about or one that only comes after it. -/
def Settled (kv : KVServer) : Request → Prop
  | .get _ => False
  | .put _ _ _ _ _ => False
  | .freezeShard shard num => num < kv.cfgNumByShid shard ∨
      num = kv.cfgNumByShid shard ∧ kv.shardStatuses shard ≠ .serving
  | .installShard shard _ num => num < kv.cfgNumByShid shard ∨
      num = kv.cfgNumByShid shard ∧ kv.shardStatuses shard = .serving
  | .deleteShard shard num => num < kv.cfgNumByShid shard ∨
      num = kv.cfgNumByShid shard ∧ kv.shardStatuses shard = .absent

/-- An accepted request is settled. -/
theorem settled_of_accepted (done : kv.doOp request = some (kv', reply))
    (changed : ∃ shid, kv'.shardStatuses shid ≠ kv.shardStatuses shid) : kv'.Settled request := by
  obtain ⟨shid, moved⟩ := changed
  cases request with
  | get key =>
    rw [doOp_get_state done] at moved
    exact absurd rfl moved
  | put clientId requestId key value version =>
    rcases doPut_cases done with ⟨_, rfl, _⟩ | ⟨_, _, _, rfl, _⟩ | ⟨_, _, _, _, _, _, _, rfl, _⟩ <;>
      exact absurd rfl moved
  | freezeShard shard num =>
    rcases doFreezeShard_cases done with ⟨_, _, _, _, rfl, _⟩ | ⟨_, _, _, _, rfl, _⟩ |
      ⟨_, rfl, _⟩ | ⟨_, rfl, _⟩
    · obtain ⟨number, status⟩ := kv.setShard_here shard .frozen num
      exact Or.inr ⟨number.symm, by rw [status]; exact fun same => by cases same⟩
    all_goals exact absurd rfl moved
  | installShard shard state num =>
    rcases doInstallShard_cases done with ⟨_, _, loaded, _, rfl, _⟩ | ⟨_, rfl, _⟩ | ⟨_, rfl, _⟩
    · obtain ⟨number, status⟩ := loaded.setShard_here shard .serving num
      exact Or.inr ⟨number.symm, status⟩
    all_goals exact absurd rfl moved
  | deleteShard shard num =>
    rcases doOp_delete_cases done with ⟨_, _, rfl⟩ | rfl
    · obtain ⟨number, status⟩ := kv.setShard_here shard .absent num
      exact Or.inr ⟨number.symm, status⟩
    · exact absurd rfl moved

/-- A settled request stays settled: no move of the cycle leads back at one number. -/
theorem Settled.step (settled : kv.Settled request) (advances : ∀ shid, Advances kv kv' shid) :
    kv'.Settled request := by
  cases request with
  | get key => exact settled
  | put clientId requestId key value version => exact settled
  | freezeShard shard num =>
    simp only [Settled] at settled ⊢
    cases advances shard with
    | stays number status => rwa [number, status]
    | installed later _ _ => omega
    | frozen later _ _ => omega
    | deleted number _ after =>
      rcases settled with past | ⟨same, -⟩
      · omega
      · exact Or.inr ⟨by omega, by rw [after]; exact fun same => by cases same⟩
  | installShard shard state num =>
    simp only [Settled] at settled ⊢
    cases advances shard with
    | stays number status => rwa [number, status]
    | installed later _ _ => omega
    | frozen later _ _ => omega
    | deleted number before _ =>
      rcases settled with past | ⟨-, serving⟩
      · omega
      · rw [before] at serving
        cases serving
  | deleteShard shard num =>
    simp only [Settled] at settled ⊢
    cases advances shard with
    | stays number status => rwa [number, status]
    | installed later _ _ => omega
    | frozen later _ _ => omega
    | deleted number _ after =>
      rcases settled with past | ⟨same, -⟩
      · omega
      · exact Or.inr ⟨by omega, after⟩

theorem doFreezeShard_settled (packable : kv.Packable)
    (settled : kv.Settled (.freezeShard shid num)) :
    ∃ reply, kv.doFreezeShard shid num = some (kv, reply) ∧ reply.err = .ok := by
  unfold doFreezeShard
  dsimp only
  rcases settled with past | ⟨same, idle⟩
  · rw [if_neg (by omega), if_neg (by omega)]
    exact ⟨_, rfl, rfl⟩
  · obtain ⟨state, packed⟩ := packable.marshall shid
    rw [if_neg (by omega), if_pos same]
    split
    · contradiction
    · rw [packed]
      exact ⟨_, rfl, rfl⟩

theorem doInstallShard_settled {state : Packed}
    (settled : kv.Settled (.installShard shid state num)) :
    kv.doInstallShard shid state num = some (kv, .installShard .ok) := by
  unfold doInstallShard
  dsimp only
  rcases settled with past | ⟨same, serving⟩
  · rw [if_neg (by omega), if_neg (by omega)]
  · rw [if_neg (by omega), if_pos same, serving]

theorem doDeleteShard_settled (settled : kv.Settled (.deleteShard shid num)) :
    kv.doDeleteShard shid num = (kv, .deleteShard .ok) := by
  unfold doDeleteShard
  dsimp only
  rcases settled with past | ⟨same, absent⟩
  · rw [if_neg (by omega), if_neg (by omega)]
  · rw [if_pos same, absent]

/-- A settled request changes nothing and is answered with OK. -/
theorem Settled.harmless (settled : kv.Settled request) (packable : kv.Packable) :
    ∃ reply, kv.doOp request = some (kv, reply) ∧ reply.err = .ok := by
  cases request with
  | get key => exact settled.elim
  | put clientId requestId key value version => exact settled.elim
  | freezeShard shard num => exact doFreezeShard_settled packable settled
  | installShard shard state num => exact ⟨_, doInstallShard_settled settled, rfl⟩
  | deleteShard shard num => exact ⟨_, congrArg some (doDeleteShard_settled settled), rfl⟩

theorem doOp_packable (packable : kv.Packable) (done : kv.doOp request = some (kv', reply)) :
    kv'.Packable := by
  cases request with
  | get key =>
    rw [doOp_get_state done]
    exact packable
  | put clientId requestId key value version =>
    rcases doPut_cases done with ⟨_, rfl, _⟩ | ⟨_, _, _, rfl, _⟩ |
      ⟨_, _, _, _, _, _, present, rfl, _⟩
    · exact packable
    · exact packable
    · exact afterPut_packable packable present
  | freezeShard shard num =>
    rcases doFreezeShard_cases done with ⟨_, _, _, _, rfl, _⟩ | ⟨_, _, _, _, rfl, _⟩ |
      ⟨_, rfl, _⟩ | ⟨_, rfl, _⟩
    all_goals exact packable
  | installShard shard state num =>
    rcases doInstallShard_cases done with ⟨_, _, loaded, unpacked, rfl, _⟩ | ⟨_, rfl, _⟩ |
      ⟨_, rfl, _⟩
    · have held : loaded.Packable := installShardState_packable packable unpacked
      exact held
    all_goals exact packable
  | deleteShard shard num =>
    rcases doOp_delete_cases done with ⟨_, _, rfl⟩ | rfl
    · exact erased_packable packable shard num
    · exact packable

theorem reached_packable {gid : Gid} (reached : Relation.ReflTransGen Executes (start gid) kv) :
    kv.Packable := by
  induction reached with
  | refl => exact fun shid client member => by cases member
  | tail _ step packable =>
    obtain ⟨request, reply, done⟩ := step
    exact doOp_packable packable done

/-- Once settled, settled in every later state. -/
theorem Settled.run {later : KVServer} (settled : kv.Settled request)
    (run : Relation.ReflTransGen Executes kv later) : later.Settled request := by
  induction run with
  | refl => exact settled
  | tail _ step earlier =>
    obtain ⟨_, _, done⟩ := step
    exact earlier.step (doOp_advances done)

/-- In a state that requests lead to, every request moves every shard along the cycle,
and one that changed a status is answered with OK and changes nothing wherever it is
executed again. -/
theorem migration_replays {gid : Gid}
    (reached : Relation.ReflTransGen Executes (start gid) kv)
    (done : kv.doOp request = some (kv', reply)) :
    (∀ shid, Advances kv kv' shid) ∧
      ((∃ shid, kv'.shardStatuses shid ≠ kv.shardStatuses shid) →
        ∀ later, Relation.ReflTransGen Executes kv' later →
          ∃ again, later.doOp request = some (later, again) ∧ again.err = .ok) := by
  refine ⟨doOp_advances done, fun changed later run => ?_⟩
  have packable : later.Packable := reached_packable ((reached.tail ⟨_, _, done⟩).trans run)
  exact ((settled_of_accepted done changed).run run).harmless packable

/-- The first group after Puts to shards 4 and 1. -/
def holdingKeys : KVServer :=
  ((start gid1).executeAll [.put 7 1 "a" "v" 0, .put 7 2 "b" "w" 0]).get (by decide +kernel)

theorem holdingKeys_reached : Relation.ReflTransGen Executes (start gid1) holdingKeys :=
  executeAll_executes (Option.some_get _).symm

theorem holdingKeys_freeze : holdingKeys.doOp (.freezeShard 4 2) =
    some (holdingKeys.setShard 4 .frozen 2,
      .freezeShard (holdingKeys.marshallShardState 4) 2 .ok) := rfl

/-- It has handed shard 4 over: the maps of the shard are nil. -/
def handedOver : KVServer := (holdingKeys.setShard 4 .frozen 2).erased 4 2

theorem handedOver_executes : Executes (holdingKeys.setShard 4 .frozen 2) handedOver :=
  ⟨.deleteShard 4 2, .deleteShard .ok, rfl⟩

/-- Asked to freeze the shard once more, it answers OK and stays as it is. -/
theorem migration_replays_freeze :
    ∃ again, handedOver.doOp (.freezeShard 4 2) = some (handedOver, again) ∧ again.err = .ok :=
  (migration_replays holdingKeys_reached holdingKeys_freeze).2 ⟨4, by decide +kernel⟩ _
    (.single handedOver_executes)

end KVServer

end KvStore.Shard
