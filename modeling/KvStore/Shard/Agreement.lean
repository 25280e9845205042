import KvStore.Kv.KvRaft
import KvStore.Kv.KvSrv
import KvStore.Shard.Representation

set_option autoImplicit false

/-! The three key/value servers run on one sequence of requests: the single server, the
replicated one, and the first shard group, which may hand its shards out and take them
back in between. -/

namespace KvStore.Shard

open Runs

/-- What the three servers answered to one request. -/
structure Answers where
  srv : KvSrv.Reply
  raft : KvRaft.Reply
  group : Reply

/-- The answers are the same. -/
inductive Answers.Agree : Answers → Prop
  | get (value : String) (version : Nat) (err : Err) :
      Agree ⟨.get value version err, .get ⟨value, version, err⟩, .get value version err⟩
  | put (err : Err) : Agree ⟨.put err, .put ⟨err⟩, .put err⟩

/-- The three servers, with what the group's Freezes returned, the Puts so far and the
answers so far, newest first. -/
structure Trio where
  srv : KvMap String String
  raft : KvRaft.KVServer
  group : KVServer
  frozen : Shid → Packed
  puts : List KvRaft.PutArgs
  answers : List Answers

/-- A request that goes to all three servers, or one that moves a shard of the group. -/
inductive Trio.Event
  | get (key : String)
  | put (args : KvRaft.PutArgs)
  | freeze (shard : Shid) (num : Nat)
  | delete (shard : Shid) (num : Nat)
  | install (shard : Shid) (state : ShardState) (num : Nat)

/-- The state a Freeze returned. -/
def Reply.packed : Reply → Packed
  | .freezeShard state _ _ => state
  | _ => none

def Trio.Event.isInstall : Trio.Event → Bool
  | .install _ _ _ => true
  | _ => false

namespace Trio

def start : Trio where
  srv := KvMap.empty
  raft := .start
  group := .start gid1
  frozen _ := none
  puts := []
  answers := []

/-- The request at each server. -/
def serve (σ : Trio) (args : KvSrv.Args) (request : KvRaft.Request) (op : Request)
    (puts : List KvRaft.PutArgs) : Option Trio :=
  (σ.group.doOp op).map fun result =>
    { σ with
      srv := (KvSrv.handle σ.srv args).1
      raft := (σ.raft.doOp request).1
      group := result.1
      puts
      answers := ⟨(KvSrv.handle σ.srv args).2, (σ.raft.doOp request).2, result.2⟩ :: σ.answers }

/-- `none` when the request kills the replica of the group. -/
def step (σ : Trio) : Event → Option Trio
  | .get key => σ.serve (.get key) (.get ⟨key⟩) (.get key) σ.puts
  | .put args =>
    σ.serve (.put args.key args.value args.version) (.put args)
      (.put args.clientId args.requestId args.key args.value args.version) (args :: σ.puts)
  | .freeze shard num =>
    (σ.group.doOp (.freezeShard shard num)).map fun result =>
      { σ with group := result.1, frozen := Function.update σ.frozen shard result.2.packed }
  | .delete shard num =>
    (σ.group.doOp (.deleteShard shard num)).map fun result => { σ with group := result.1 }
  | .install shard state num =>
    (σ.group.doOp (.installShard shard (some state) num)).map fun result =>
      { σ with group := result.1 }

/-- No Put of the client so far has this request id or a higher one. -/
def Fresh (puts : List KvRaft.PutArgs) (args : KvRaft.PutArgs) : Prop :=
  ∀ past ∈ puts, past.clientId = args.clientId → past.requestId < args.requestId

instance decidableFresh (puts : List KvRaft.PutArgs) (args : KvRaft.PutArgs) :
    Decidable (Fresh puts args) :=
  inferInstanceAs (Decidable (∀ past ∈ puts, past.clientId = args.clientId →
    past.requestId < args.requestId))

/-- Requests are for shards the group serves, the request ids of a client's Puts go up,
and a shard is frozen and installed with higher numbers. -/
def due (σ : Trio) : Event → Bool
  | .get key => σ.group.shardStatuses (key2Shard key) = .serving
  | .put args => σ.group.shardStatuses (key2Shard args.key) = .serving ∧ Fresh σ.puts args
  | .freeze shard num =>
      σ.group.shardStatuses shard = .serving ∧ σ.group.cfgNumByShid shard < num
  | .delete shard num =>
      σ.group.shardStatuses shard = .frozen ∧ num = σ.group.cfgNumByShid shard
  | .install shard _ num => σ.group.shardStatuses shard = .absent ∧ σ.group.cfgNumByShid shard < num

/-- What is installed is what the Freeze returned, as it is once decoded. -/
def Permitted (σ : Trio) (event : Event) : Prop :=
  σ.due event = true ∧ ∀ shard state num, event = .install shard state num →
    ∃ packed, σ.frozen shard = some packed ∧ packed.Same state

/-- A Put of the client with this request id has been executed. -/
def Recorded (puts : List KvRaft.PutArgs) (client requestId : Nat) : Prop :=
  ∃ past ∈ puts, past.clientId = client ∧ past.requestId = requestId

/-- The group's data of a shard, nil counted as empty. -/
def held (σ : Trio) (shard : Shid) : KvMap String String :=
  (σ.group.kvm shard).getD KvMap.empty

/-- The map of the single server is what all data of the others agrees with, also that of
shards on their way, and every record of a last Put is that of a Put executed. -/
structure Agree (σ : Trio) : Prop where
  answers : ∀ answers ∈ σ.answers, answers.Agree
  intact : σ.group.Intact
  raft : σ.raft.kvm.view = σ.srv
  group : ∀ key, σ.group.shardStatuses (key2Shard key) ≠ .absent →
    σ.held (key2Shard key) key = σ.srv key
  moving : ∀ shard, σ.group.shardStatuses shard ≠ .serving →
    ∃ packed, σ.frozen shard = some packed ∧
      ∀ key, key2Shard key = shard → packed.kv key = σ.srv key
  raftPuts : ∀ client lastPut, σ.raft.lastPutByClientId.lookup client = some lastPut →
    Recorded σ.puts client lastPut.requestId
  groupPuts : ∀ client lastPut, σ.group.lastPutByClientId client = some lastPut →
    Recorded σ.puts client lastPut.requestId
  packedPuts : ∀ shard packed, σ.frozen shard = some packed → ∀ client lastPut,
    (client, lastPut) ∈ packed.lastPutByClientId → Recorded σ.puts client lastPut.requestId

variable {σ after : Trio}

theorem serve_cases {args : KvSrv.Args} {request : KvRaft.Request} {op : Request}
    {puts : List KvRaft.PutArgs} (moved : σ.serve args request op puts = some after) :
    ∃ group reply, σ.group.doOp op = some (group, reply) ∧
      after = { σ with
        srv := (KvSrv.handle σ.srv args).1
        raft := (σ.raft.doOp request).1
        group
        puts
        answers := ⟨(KvSrv.handle σ.srv args).2, (σ.raft.doOp request).2, reply⟩ ::
          σ.answers } := by
  obtain ⟨⟨group, reply⟩, done, rfl⟩ := Option.map_eq_some_iff.mp moved
  exact ⟨group, reply, done, rfl⟩

theorem Fresh.newer {puts : List KvRaft.PutArgs} {args : KvRaft.PutArgs}
    (fresh : Fresh puts args) {requestId : Nat}
    (recorded : Recorded puts args.clientId requestId) : requestId < args.requestId := by
  obtain ⟨past, member, client, rfl⟩ := recorded
  exact fresh past member client

theorem Recorded.more {puts : List KvRaft.PutArgs} {client requestId : Nat}
    (recorded : Recorded puts client requestId) (args : KvRaft.PutArgs) :
    Recorded (args :: puts) client requestId := by
  obtain ⟨past, member, same⟩ := recorded
  exact ⟨past, List.mem_cons_of_mem _ member, same⟩

/-- Where two maps agree on the key that is written, a Put keeps them in agreement. -/
theorem put_pointwise {kvm kvm' : KvMap String String} {key other : String}
    (written : kvm key = kvm' key) (same : kvm other = kvm' other) (value : String)
    (version : Nat) :
    (kvm.put key value version).1 other = (kvm'.put key value version).1 other := by
  by_cases here : other = key
  · rw [here]
    exact (KvMap.put_congr written value version).1
  · rw [KvMap.put_other kvm value version here, KvMap.put_other kvm' value version here, same]

namespace Agree

theorem start : Agree start where
  answers _ member := absurd member List.not_mem_nil
  intact := KVServer.start_intact gid1
  raft := KvRaft.Table.view_empty
  group _ _ := rfl
  moving _ elsewhere := absurd rfl elsewhere
  raftPuts client lastPut found := by
    rw [Trio.start, KvRaft.KVServer.start, Finmap.lookup_empty] at found
    cases found
  groupPuts _ _ found := by cases found
  packedPuts _ _ found := by cases found

/-- The three servers read the same. -/
theorem get_answers (agree : σ.Agree) {key : String}
    (serving : σ.group.shardStatuses (key2Shard key) = .serving) :
    Answers.Agree ⟨(KvSrv.handle σ.srv (.get key)).2, (σ.raft.doOp (.get ⟨key⟩)).2,
      (σ.group.doGet key).2⟩ := by
  have has : σ.group.shardStatuses (key2Shard key) ≠ .absent := by rw [serving]; simp
  have replicated : σ.raft.kvm.lookup key = σ.srv key := congrFun agree.raft key
  obtain ⟨kvshard, found⟩ := agree.intact.kvm _ has
  have sharded : (σ.group.kvm (key2Shard key)).bind (· key) = σ.srv key := by
    rw [← agree.group key has, held, found]
    rfl
  rw [KVServer.doGet_serving serving, sharded]
  unfold KvSrv.handle KvSrv.get KvRaft.KVServer.doOp
  dsimp only
  rw [replicated]
  cases σ.srv key with
  | none => exact .get "" 0 .noKey
  | some value => exact .get value.value value.version .ok

theorem get (agree : σ.Agree) {key : String}
    (serving : σ.group.shardStatuses (key2Shard key) = .serving)
    (moved : σ.step (.get key) = some after) : after.Agree := by
  obtain ⟨group, reply, done, rfl⟩ := serve_cases moved
  have same : group = σ.group := KVServer.doOp_get_state done
  have answered : reply = (σ.group.doGet key).2 :=
    (congrArg Prod.snd (Option.some.inj done)).symm
  rw [same, answered]
  exact { agree with
    answers := List.forall_mem_cons.mpr ⟨agree.get_answers serving, agree.answers⟩ }

variable {args : KvRaft.PutArgs}

theorem not_duplicate (agree : σ.Agree) (fresh : Fresh σ.puts args) :
    σ.group.duplicate args.clientId args.requestId = none := by
  unfold KVServer.duplicate
  rw [Option.filter_eq_none_iff]
  intro lastPut found
  have later := fresh.newer (agree.groupPuts _ lastPut found)
  rw [decide_eq_true_eq, Nat.not_le]
  exact later

/-- A fresh Put to a serving shard is carried out on the shard's map. -/
theorem put_group (agree : σ.Agree) {group : KVServer} {reply : Reply}
    (serving : σ.group.shardStatuses (key2Shard args.key) = .serving) (fresh : Fresh σ.puts args)
    (done : σ.group.doOp (.put args.clientId args.requestId args.key args.value args.version) =
      some (group, reply)) :
    ∃ clients, group = σ.group.afterPut args.clientId args.requestId args.key
        (some ((σ.held (key2Shard args.key)).put args.key args.value args.version).1)
        ((σ.held (key2Shard args.key)).put args.key args.value args.version).2 clients ∧
      reply = .put ((σ.held (key2Shard args.key)).put args.key args.value args.version).2 := by
  rcases KVServer.doPut_cases done with ⟨refused, _⟩ | ⟨_, lastPut, known, _⟩ |
    ⟨_, _, kvshard, err, clients, written, _, rfl, rfl⟩
  · exact absurd serving refused
  · rw [agree.not_duplicate fresh] at known
    cases known
  · have has : σ.group.shardStatuses (key2Shard args.key) ≠ .absent := by rw [serving]; simp
    rw [agree.intact.writeShard has] at written
    obtain ⟨rfl, rfl⟩ := Prod.mk.inj (Option.some.inj written)
    exact ⟨clients, rfl, rfl⟩

/-- The replicated server carries a fresh Put out on its map. -/
theorem put_raft (agree : σ.Agree) (fresh : Fresh σ.puts args) :
    σ.raft.doOp (.put args) = σ.raft.executePut args :=
  KvRaft.KVServer.doOp_put_executed fun lastPut found =>
    fresh.newer (agree.raftPuts _ lastPut found)

section Put

variable {args : KvRaft.PutArgs}

/-- The three servers answer with the error of the Put on the single server's map. -/
theorem put_answers (agree : σ.Agree)
    (serving : σ.group.shardStatuses (key2Shard args.key) = .serving) :
    Answers.Agree ⟨.put (σ.srv.put args.key args.value args.version).2,
      .put (σ.raft.write args).2,
      .put ((σ.held (key2Shard args.key)).put args.key args.value args.version).2⟩ := by
  have replicated := (σ.raft.write_plain args).2
  have here := agree.group args.key (by rw [serving]; simp)
  rw [agree.raft] at replicated
  rw [(KvMap.put_congr here args.value args.version).2, ← replicated]
  exact .put _

/-- Each key of a shard the group has is as it is at the single server. -/
theorem put_held (agree : σ.Agree)
    (serving : σ.group.shardStatuses (key2Shard args.key) = .serving) {key : String}
    (present : σ.group.shardStatuses (key2Shard key) ≠ .absent) :
    (Function.update σ.group.kvm (key2Shard args.key)
        (some ((σ.held (key2Shard args.key)).put args.key args.value args.version).1)
        (key2Shard key)).getD KvMap.empty key =
      (σ.srv.put args.key args.value args.version).1 key := by
  have here := agree.group args.key (by rw [serving]; simp)
  have before : σ.held (key2Shard key) key = σ.srv key := agree.group key present
  by_cases same : key2Shard key = key2Shard args.key
  · rw [same] at before ⊢
    rw [Function.update_self, Option.getD_some]
    exact put_pointwise here before args.value args.version
  · have other : key ≠ args.key := fun equal => same (congrArg key2Shard equal)
    rw [Function.update_of_ne same, KvMap.put_other σ.srv args.value args.version other]
    exact before

/-- A Put to a shard the group serves is to none that is on its way. -/
theorem put_moving (agree : σ.Agree)
    (serving : σ.group.shardStatuses (key2Shard args.key) = .serving) {shard : Shid}
    (elsewhere : σ.group.shardStatuses shard ≠ .serving) :
    ∃ packed, σ.frozen shard = some packed ∧ ∀ key, key2Shard key = shard →
      packed.kv key = (σ.srv.put args.key args.value args.version).1 key := by
  obtain ⟨packed, found, data⟩ := agree.moving shard elsewhere
  refine ⟨packed, found, fun key inside => ?_⟩
  rw [data key inside]
  refine (KvMap.put_other σ.srv args.value args.version ?_).symm
  rintro rfl
  exact elsewhere (inside ▸ serving)

theorem put_raftPuts (agree : σ.Agree) {client : Nat} {lastPut : KvRaft.LastPut}
    (found : (σ.raft.executePut args).1.lastPutByClientId.lookup client = some lastPut) :
    Recorded (args :: σ.puts) client lastPut.requestId := by
  rw [KvRaft.KVServer.executePut] at found
  by_cases own : client = args.clientId
  · rw [own, Finmap.lookup_insert] at found
    exact ⟨args, List.mem_cons_self .., own.symm, congrArg (·.requestId) (Option.some.inj found)⟩
  · rw [Finmap.lookup_insert_of_ne _ own] at found
    exact (agree.raftPuts client lastPut found).more args

theorem put_groupPuts (agree : σ.Agree) {client : Nat} {lastPut : LastPut} {err : Err}
    (found : Function.update σ.group.lastPutByClientId args.clientId
      (some { requestId := args.requestId, err }) client = some lastPut) :
    Recorded (args :: σ.puts) client lastPut.requestId := by
  by_cases own : client = args.clientId
  · rw [own, Function.update_self] at found
    exact ⟨args, List.mem_cons_self .., own.symm, congrArg (·.requestId) (Option.some.inj found)⟩
  · rw [Function.update_of_ne own] at found
    exact (agree.groupPuts client lastPut found).more args

theorem put (agree : σ.Agree)
    (serving : σ.group.shardStatuses (key2Shard args.key) = .serving)
    (fresh : Fresh σ.puts args) (moved : σ.step (.put args) = some after) : after.Agree := by
  obtain ⟨group, reply, done, rfl⟩ := serve_cases moved
  have intact : group.Intact := KVServer.doOp_intact agree.intact done
  have view := (σ.raft.write_plain args).1
  rw [agree.raft] at view
  obtain ⟨clients, rfl, rfl⟩ := agree.put_group serving fresh done
  rw [agree.put_raft fresh]
  exact
    { answers := List.forall_mem_cons.mpr ⟨agree.put_answers serving, agree.answers⟩
      intact
      raft := view
      group := fun _ present => agree.put_held serving present
      moving := fun _ elsewhere => agree.put_moving serving elsewhere
      raftPuts := fun _ _ found => agree.put_raftPuts found
      groupPuts := fun _ _ found => agree.put_groupPuts found
      packedPuts := fun shard packed found client lastPut member =>
        (agree.packedPuts shard packed found client lastPut member).more args }

end Put

/-- What Freeze packs is what the group holds of the shard. -/
theorem freeze (agree : σ.Agree) {shard : Shid} {num : Nat}
    (serving : σ.group.shardStatuses shard = .serving) (later : σ.group.cfgNumByShid shard < num)
    (moved : σ.step (.freeze shard num) = some after) : after.Agree := by
  obtain ⟨⟨group, reply⟩, done, rfl⟩ := Option.map_eq_some_iff.mp moved
  have intact : group.Intact := KVServer.doOp_intact agree.intact done
  rcases KVServer.doFreezeShard_cases done with ⟨_, _, state, packed, rfl, rfl⟩ | ⟨same, _⟩ |
    ⟨old, _⟩ | ⟨refused, _⟩
  · obtain ⟨data, -, genuine⟩ := KVServer.marshallShardState_cases packed
    have elsewhere : ∀ {other}, other ≠ shard →
        (σ.group.setShard shard .frozen num).shardStatuses other = σ.group.shardStatuses other :=
      fun apart => (σ.group.setShard_elsewhere apart .frozen num).2
    refine
      { agree with
        intact
        group := fun key present => agree.group key ?_
        moving := fun other away => ?_
        packedPuts := fun other packed' found client lastPut member => ?_ }
    · by_cases here : key2Shard key = shard
      · rw [here, serving]
        simp
      · rwa [elsewhere here] at present
    · by_cases here : other = shard
      · subst here
        refine ⟨state, Function.update_self .., fun key inside => ?_⟩
        subst inside
        rw [data]
        exact agree.group key (by rw [serving]; simp)
      · rw [elsewhere here] at away
        obtain ⟨old, found, same⟩ := agree.moving other away
        exact ⟨old, (Function.update_of_ne here ..).trans found, same⟩
    · change Function.update σ.frozen shard (some state) other = some packed' at found
      by_cases here : other = shard
      · rw [here, Function.update_self] at found
        rw [← Option.some.inj found] at member
        exact agree.groupPuts client lastPut (genuine client lastPut member).2
      · rw [Function.update_of_ne here] at found
        exact agree.packedPuts other packed' found client lastPut member
  · exact absurd same later.ne'
  · exact absurd old (Nat.not_lt_of_lt later)
  · exact absurd ⟨later, serving⟩ refused

/-- The data of an erased shard is where the Freeze left it. -/
theorem delete (agree : σ.Agree) {shard : Shid} {num : Nat}
    (frozen : σ.group.shardStatuses shard = .frozen)
    (moved : σ.step (.delete shard num) = some after) : after.Agree := by
  rw [Trio.step] at moved
  obtain ⟨⟨group, reply⟩, done, rfl⟩ := Option.map_eq_some_iff.mp moved
  have intact : group.Intact := KVServer.doOp_intact agree.intact done
  rcases KVServer.doOp_delete_cases done with ⟨_, _, rfl⟩ | rfl
  · have elsewhere : ∀ {other}, other ≠ shard →
        (σ.group.erased shard num).shardStatuses other = σ.group.shardStatuses other :=
      fun apart => (σ.group.setShard_elsewhere apart .absent num).2
    refine
      { agree with
        intact
        group := fun key present => ?_
        moving := fun other away => ?_ }
    · have apart : key2Shard key ≠ shard := by
        rintro rfl
        exact present (σ.group.setShard_here _ .absent num).2
      rw [elsewhere apart] at present
      change (Function.update σ.group.kvm shard none (key2Shard key)).getD KvMap.empty key =
        σ.srv key
      rw [Function.update_of_ne apart]
      exact agree.group key present
    · by_cases here : other = shard
      · subst here
        exact agree.moving other (by rw [frozen]; simp)
      · rw [elsewhere here] at away
        exact agree.moving other away
  · exact agree

/-- What comes back is what left. -/
theorem install (agree : σ.Agree) {shard : Shid} {state packed : ShardState} {num : Nat}
    (absent : σ.group.shardStatuses shard = .absent)
    (found : σ.frozen shard = some packed) (decoded : packed.Same state)
    (moved : σ.step (.install shard state num) = some after) : after.Agree := by
  obtain ⟨⟨group, reply⟩, done, rfl⟩ := Option.map_eq_some_iff.mp moved
  have intact : group.Intact := KVServer.doOp_intact agree.intact done
  rcases KVServer.doInstallShard_cases done with ⟨_, _, loaded, unpacked, rfl, _⟩ | ⟨_, rfl, _⟩ |
    ⟨_, rfl, _⟩
  · obtain ⟨shardState, same, rfl⟩ := KVServer.installShardState_cases unpacked
    obtain rfl : state = shardState := Option.some.inj same
    have elsewhere : ∀ {other}, other ≠ shard →
        Function.update σ.group.shardStatuses shard .serving other = σ.group.shardStatuses other :=
      fun apart => Function.update_of_ne apart ..
    refine
      { agree with
        intact
        group := fun key present => ?_
        moving := fun other away => ?_
        groupPuts := fun client lastPut recorded => ?_ }
    · change (Function.update σ.group.kvm shard (some state.kv) (key2Shard key)).getD
        KvMap.empty key = σ.srv key
      by_cases here : key2Shard key = shard
      · obtain ⟨packed', found', data⟩ := agree.moving shard (by rw [absent]; simp)
        obtain rfl : packed = packed' := Option.some.inj (found.symm.trans found')
        rw [here, Function.update_self, Option.getD_some, ← decoded.kv]
        exact data key here
      · rw [Function.update_of_ne here]
        exact agree.group key fun gone => present ((elsewhere here).trans gone)
    · have apart : other ≠ shard := by
        rintro rfl
        exact away (Function.update_self ..)
      exact agree.moving other fun serving => away ((elsewhere apart).trans serving)
    · rcases KVServer.merged_origin recorded with before | brought
      · exact agree.groupPuts client lastPut before
      · exact agree.packedPuts shard packed found client lastPut
          ((decoded.lastPutByClientId _).mpr brought)
  · exact agree
  · exact agree

theorem step (agree : σ.Agree) {event : Event} (permitted : σ.Permitted event)
    (moved : σ.step event = some after) : after.Agree := by
  obtain ⟨due, genuine⟩ := permitted
  cases event with
  | get key => exact agree.get (of_decide_eq_true due) moved
  | put args => exact agree.put (of_decide_eq_true due).1 (of_decide_eq_true due).2 moved
  | freeze shard num => exact agree.freeze (of_decide_eq_true due).1 (of_decide_eq_true due).2 moved
  | delete shard num => exact agree.delete (of_decide_eq_true due).1 moved
  | install shard state num =>
    obtain ⟨packed, found, decoded⟩ := genuine shard state num rfl
    exact agree.install (of_decide_eq_true due).1 found decoded moved

/-- No permitted request kills the group's replica. -/
theorem step_total (agree : σ.Agree) (event : Event) : ∃ after, σ.step event = some after := by
  have total : ∀ request, (∀ shard num, request ≠ .installShard shard none num) →
      ∃ result, σ.group.doOp request = some result := fun request decodes =>
    agree.intact.doOp_total decodes
  cases event with
  | get key =>
    obtain ⟨result, done⟩ := total (.get key) (by simp)
    exact ⟨_, by rw [Trio.step, serve, done, Option.map_some]⟩
  | put args =>
    obtain ⟨result, done⟩ := total
      (.put args.clientId args.requestId args.key args.value args.version) (by simp)
    exact ⟨_, by rw [Trio.step, serve, done, Option.map_some]⟩
  | freeze shard num =>
    obtain ⟨result, done⟩ := total (.freezeShard shard num) (by simp)
    exact ⟨_, by rw [Trio.step, done, Option.map_some]⟩
  | delete shard num =>
    obtain ⟨result, done⟩ := total (.deleteShard shard num) (by simp)
    exact ⟨_, by rw [Trio.step, done, Option.map_some]⟩
  | install shard state num =>
    obtain ⟨result, done⟩ := total (.installShard shard (some state) num) (by simp)
    exact ⟨_, by rw [Trio.step, done, Option.map_some]⟩

end Agree

/-- In every run of the three servers on one sequence of requests, with shards of the
group handed out and taken back in between: all answers agree, every key has one value
and version at the three servers, for the group as long as it has the key's shard, and
the group's replica survives the next request, whatever it is. -/
theorem implementations_agree {trace : List Trio} (run : Run step Permitted start trace) :
    ∀ σ ∈ trace,
      (∀ answers ∈ σ.answers, answers.Agree) ∧
      (∀ key, σ.raft.kvm.lookup key = σ.srv key) ∧
      (∀ key, σ.group.shardStatuses (key2Shard key) ≠ .absent →
        (σ.group.kvm (key2Shard key)).bind (· key) = σ.srv key) ∧
      ∀ event, ∃ after, σ.step event = some after := by
  have agreed : ∀ σ ∈ trace, σ.Agree :=
    run.invariant Agree.start fun _ _ _ permitted moved agree => agree.step permitted moved
  intro σ member
  have agree := agreed σ member
  refine ⟨agree.answers, congrFun agree.raft, fun key present => ?_, agree.step_total⟩
  obtain ⟨kvshard, found⟩ := agree.intact.kvm _ present
  rw [← agree.group key present, held, found]
  rfl

/-- Whether an event that installs nothing is permitted. -/
def ready (σ : Trio) (event : Event) : Bool :=
  σ.due event && !event.isInstall

theorem ready_permitted (σ : Trio) (event : Event) (isReady : σ.ready event = true) :
    σ.Permitted event := by
  obtain ⟨due, other⟩ := Bool.and_eq_true_iff.mp isReady
  refine ⟨due, fun shard state num installed => ?_⟩
  rw [installed] at other
  cases other

/-- A key is written, its shard frozen, erased and installed again: the group has the
value the single server has. -/
theorem implementations_agree_returned :
    ∃ trace : List Trio, Run step Permitted start trace ∧ ∃ σ ∈ trace,
      σ.group.cfgNumByShid (key2Shard "k") = 3 ∧
      (σ.group.kvm (key2Shard "k")).bind (· "k") = some { value := "v", version := 1 } := by
  obtain ⟨σ, past, run, ended⟩ := Run.ends step ready start
    [.put ⟨⟨7, 1⟩, "k", "v", 0⟩, .freeze (key2Shard "k") 2, .delete (key2Shard "k") 2]
    (fun σ => σ.group.shardStatuses (key2Shard "k") = .absent ∧
      σ.group.cfgNumByShid (key2Shard "k") = 2 ∧ σ.srv "k" = some { value := "v", version := 1 })
    (by decide +kernel)
  obtain ⟨absent, num, written⟩ := of_decide_eq_true ended
  have run' := run.mono ready_permitted
  have agree : σ.Agree := run'.invariant Agree.start
    (fun _ _ _ permitted moved agree => agree.step permitted moved) σ (List.mem_cons_self ..)
  obtain ⟨packed, found, -⟩ := agree.moving (key2Shard "k") (by rw [absent]; simp)
  obtain ⟨after, moved⟩ := agree.step_total (.install (key2Shard "k") packed 3)
  have permitted : σ.Permitted (.install (key2Shard "k") packed 3) :=
    ⟨decide_eq_true ⟨absent, by rw [num]; decide⟩, fun _ _ _ same => by
      cases same
      exact ⟨packed, found, rfl, fun _ => Iff.rfl⟩⟩
  have back := run'.step permitted moved
  obtain ⟨⟨group, reply⟩, done, rfl⟩ := Option.map_eq_some_iff.mp moved
  rcases KVServer.doInstallShard_cases done with ⟨_, _, loaded, _, rfl, _⟩ | ⟨old, _⟩ | ⟨refused, _⟩
  · have here := loaded.setShard_here (key2Shard "k") .serving 3
    have held := (implementations_agree back _ (List.mem_cons_self ..)).2.2.1 "k"
      (by rw [here.2]; simp)
    exact ⟨_, back, _, List.mem_cons_self .., here.1, held.trans written⟩
  · rw [absent, num] at old
    exact absurd old (by simp)
  · exact absurd ⟨by rw [num]; decide, absent⟩ refused

end Trio

end KvStore.Shard
