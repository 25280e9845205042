import KvStore.Shard.Outcomes
import KvStore.Shard.Steps

set_option autoImplicit false

/-! What a step adds to the log of events, and what that says of the state before it. -/

namespace KvStore.Shard

/-- A goroutine of the operation holds the packed state. -/
def Operation.Holds (state : Packed) : Operation → Prop
  | .migrate _ _ _ workers => ∃ s call, workers s = .running (.install state) call
  | _ => False

namespace System

variable {σ σ' : System} {k i : Nat}

def Holds (σ : System) (state : Packed) : Prop :=
  ∃ operation ∈ σ.operations, operation.Holds state

/-- A step of a controller or of the config store. Groups and clients stay as they are;
a packed state comes out of a reply and goes into a request. -/
structure Controls (σ σ' : System) : Prop where
  clients : σ'.clients = σ.clients
  requestIds : σ'.requestIds = σ.requestIds
  groups : σ'.groups = σ.groups
  replies : σ'.groupReplies = σ.groupReplies
  log : σ'.log = σ.log
  calls : Keeps σ.groupCalls σ'.groupCalls
  sent : ∀ call ∈ σ'.groupCalls, call ∈ σ.groupCalls ∨
    (∃ i s, call.caller = .worker i s) ∧
      ∀ s state num, call.request = .installShard s state num → σ.Holds state
  holds : ∀ state, σ'.Holds state →
    σ.Holds state ∨ ∃ k num err, (k, .freezeShard state num err) ∈ σ.groupReplies

/-- Operations may change, but not what is held. -/
theorem Controls.still {σ σ' : System} (clients : σ'.clients = σ.clients)
    (requestIds : σ'.requestIds = σ.requestIds) (groups : σ'.groups = σ.groups)
    (replies : σ'.groupReplies = σ.groupReplies) (log : σ'.log = σ.log)
    (calls : σ'.groupCalls = σ.groupCalls)
    (holds : ∀ state, σ'.Holds state →
      σ.Holds state ∨ ∃ k num err, (k, .freezeShard state num err) ∈ σ.groupReplies) :
    Controls σ σ' where
  clients := clients
  requestIds := requestIds
  groups := groups
  replies := replies
  log := log
  calls := calls ▸ .refl _
  sent _ member := Or.inl (calls ▸ member)
  holds := holds

theorem holds_set {operation : Operation} {state : Packed}
    (held : (σ.setOperation i operation).Holds state) : operation.Holds state ∨ σ.Holds state := by
  obtain ⟨other, member, mine⟩ := held
  rcases List.mem_or_eq_of_mem_set member with old | rfl
  · exact Or.inr ⟨other, old, mine⟩
  · exact Or.inl mine

theorem holds_add {operation : Operation} {state : Packed}
    (held : { σ with operations := σ.operations ++ [operation] }.Holds state) :
    operation.Holds state ∨ σ.Holds state := by
  obtain ⟨other, member, mine⟩ := held
  rcases List.mem_append.mp member with old | new
  · exact Or.inr ⟨other, old, mine⟩
  · rw [List.mem_singleton.mp new] at mine
    exact Or.inl mine

theorem migrateShards_holds (newCfg old : ShardConfig) (ver : Nat) (state : Packed) :
    ¬(Operation.migrateShards newCfg old ver).Holds state := by
  rintro ⟨s, call, running⟩
  dsimp only at running
  split at running <;> cases running

/-- One goroutine changes. -/
theorem holds_setWorker {newCfg old : ShardConfig} {ver : Nat} {workers : Shid → Worker} {s : Shid}
    {worker : Worker} {state : Packed}
    (found : σ.operations[i]? = some (.migrate newCfg old ver workers))
    (held : (σ.setWorker i newCfg old ver workers s worker).Holds state) :
    (∃ call, worker = .running (.install state) call) ∨ σ.Holds state := by
  rcases holds_set held with ⟨s', call, running⟩ | before
  · by_cases here : s' = s
    · rw [here, Function.update_self] at running
      exact Or.inl ⟨call, running⟩
    · rw [Function.update_of_ne here] at running
      exact Or.inr ⟨_, List.mem_of_getElem? found, s', call, running⟩
  · exact Or.inr before

theorem read_controls (moved : σ.read i = some σ') : Controls σ σ' := by
  obtain ⟨operation, operation', _, outcome, rfl⟩ := read_cases moved
  refine .still rfl rfl rfl rfl rfl rfl fun state held => Or.inl ?_
  refine (holds_set held).resolve_left fun mine => ?_
  cases outcome with
  | resume => exact migrateShards_holds _ _ _ _ mine
  | saveCheck => exact migrateShards_holds _ _ _ _ mine
  | _ => exact mine

theorem putReply_controls {i j : Nat} (moved : σ.putReply i j = some σ') : Controls σ σ' := by
  obtain ⟨operation, operation', _, outcome, rfl⟩ := putReply_cases moved
  refine .still rfl rfl rfl rfl rfl rfl fun state held => Or.inl ?_
  refine (holds_set held).resolve_left fun mine => ?_
  rcases outcome with ⟨_, _, _, _, _, _, _, rfl⟩ | ⟨_, _, _, _, _, _, rfl⟩ | ⟨_, rfl⟩ | rfl
  · exact migrateShards_holds _ _ _ _ mine
  all_goals exact mine

theorem put_controls (moved : σ.put i = some σ') : Controls σ σ' := by
  rcases put_cases moved with ⟨_, _, _, _, _, _, _, rfl⟩ | ⟨_, _, _, _, rfl⟩ <;>
    exact .still rfl rfl rfl rfl rfl rfl fun state held =>
      Or.inl ((holds_set held).resolve_left id)

theorem send_controls {s : Shid} (moved : σ.send i s = some σ') : Controls σ σ' := by
  obtain ⟨newCfg, old, ver, workers, stage, call, found, running, rfl⟩ := send_inversion moved
  refine ⟨rfl, rfl, rfl, rfl, rfl, .append _ _, ?_, ?_⟩
  · intro other member
    refine (List.mem_append.mp member).imp_right fun new => ?_
    rw [List.mem_singleton.mp new]
    refine ⟨⟨i, s, rfl⟩, fun s' state num request => ?_⟩
    cases stage with
    | install =>
      cases request
      exact ⟨_, List.mem_of_getElem? found, s, call, running⟩
    | _ => cases request
  · intro state held
    refine Or.inl ((holds_setWorker found held).elim ?_ id)
    rintro ⟨_, same⟩
    cases same
    exact ⟨_, List.mem_of_getElem? found, s, call, running⟩

theorem receive_controls {i j : Nat} {s : Shid} (moved : σ.receive i s j = some σ') :
    Controls σ σ' := by
  obtain ⟨newCfg, old, ver, workers, stage, k, reply, found, _, replied, outcome⟩ :=
    receive_cases moved
  rcases outcome with ⟨worker, next, rfl⟩ | ⟨_, rfl⟩
  · refine .still rfl rfl rfl rfl rfl rfl fun state held => ?_
    refine (holds_setWorker found held).symm.imp_right ?_
    rintro ⟨call, rfl⟩
    -- only the answer to a freeze hands a packed state to its goroutine
    unfold Stage.next at next
    split at next
    · split at next
      · cases next
        exact ⟨k, _, _, replied⟩
      · cases next
    · split at next <;> cases next
    · split at next <;> cases next
    · cases next
  · exact .still rfl rfl rfl rfl rfl rfl fun state held =>
      Or.inl ((holds_set held).resolve_left id)

theorem check_controls {s : Shid} (moved : σ.check i s = some σ') : Controls σ σ' := by
  obtain ⟨newCfg, old, ver, workers, found, rfl⟩ := check_inversion moved
  refine .still rfl rfl rfl rfl rfl rfl fun state held => Or.inl ?_
  refine (holds_setWorker found held).resolve_left ?_
  rintro ⟨call, same⟩
  cases same

theorem join_controls (moved : σ.join i = some σ') : Controls σ σ' := by
  obtain ⟨_, _, _, _, operation', _, outcome, rfl⟩ := join_cases moved
  refine .still rfl rfl rfl rfl rfl rfl fun state held => Or.inl ?_
  refine (holds_set held).resolve_left fun mine => ?_
  rcases outcome with rfl | ⟨_, rfl⟩ <;> exact mine

/-- A step is one of a controller or the config store, of a group, or of a client. -/
theorem step_cases {action : Action} (moved : σ.step action = some σ') :
    Controls σ σ' ∨ (∃ k, σ.execute k = some σ') ∨ (∃ clerk op, σ' = σ.invoke clerk op) ∨
      (∃ i, σ.acquire i = some σ') ∨ (∃ i q, σ.attempt i q = some σ') ∨
      ∃ i j, σ.answer i j = some σ' := by
  cases action with
  | query =>
    obtain ⟨held, _, rfl⟩ := query_inversion moved
    exact Or.inl (.still rfl rfl rfl rfl rfl rfl fun state => Or.inl)
  | storeExecute k =>
    obtain ⟨put, _, rfl⟩ := storeExecute_inversion moved
    exact Or.inl (.still rfl rfl rfl rfl rfl rfl fun state => Or.inl)
  | execute k => exact Or.inr (Or.inl ⟨k, moved⟩)
  | initController =>
    obtain rfl := Option.some.inj moved
    exact Or.inl (.still rfl rfl rfl rfl rfl rfl fun state held =>
      Or.inl ((holds_add held).resolve_left id))
  | changeConfigTo q newCfg =>
    obtain ⟨queried, _, _, rfl⟩ := changeConfigTo_inversion moved
    exact Or.inl (.still rfl rfl rfl rfl rfl rfl fun state held =>
      Or.inl ((holds_add held).resolve_left id))
  | read i => exact Or.inl (read_controls moved)
  | put i => exact Or.inl (put_controls moved)
  | putReply i j => exact Or.inl (putReply_controls moved)
  | send i s => exact Or.inl (send_controls moved)
  | receive i s j => exact Or.inl (receive_controls moved)
  | check i s => exact Or.inl (check_controls moved)
  | join i => exact Or.inl (join_controls moved)
  | invoke clerk op =>
    exact Or.inr (Or.inr (Or.inl ⟨clerk, op, (Option.some.inj moved).symm⟩))
  | acquire i => exact Or.inr (Or.inr (Or.inr (Or.inl ⟨i, moved⟩)))
  | attempt i q => exact Or.inr (Or.inr (Or.inr (Or.inr (Or.inl ⟨i, q, moved⟩))))
  | answer i j => exact Or.inr (Or.inr (Or.inr (Or.inr (Or.inr ⟨i, j, moved⟩))))

/-- An event of a group and the state in which it happens. -/
inductive Performs (σ : System) : Event → Prop
  | get {k i : Nat} {gid : Gid} {key : String}
      (found : σ.groupCalls[k]? = some ⟨gid, .get key, .client i⟩)
      (serving : (σ.groups gid).shardStatuses (key2Shard key) = .serving) :
      Performs σ (.executed gid i (.get key)
        (getReply (((σ.groups gid).kvm (key2Shard key)).bind (· key))))
  | put {k i clientId requestId version : Nat} {gid : Gid} {key value : String}
      {kvshard : Option (KvMap String String)} {err : Err}
      (found : σ.groupCalls[k]? =
        some ⟨gid, .put clientId requestId key value version, .client i⟩)
      (serving : (σ.groups gid).shardStatuses (key2Shard key) = .serving)
      (fresh : (σ.groups gid).duplicate clientId requestId = none)
      (written : (σ.groups gid).writeShard (key2Shard key) key value version =
        some (kvshard, err)) :
      Performs σ (.executed gid i (.put clientId requestId key value version) (.put err))
  | froze {k num : Nat} {gid : Gid} {s : Shid} {caller : Caller}
      (found : σ.groupCalls[k]? = some ⟨gid, .freezeShard s num, caller⟩)
      (later : (σ.groups gid).cfgNumByShid s < num)
      (serving : (σ.groups gid).shardStatuses s = .serving) :
      Performs σ (.froze gid s num (((σ.groups gid).kvm s).getD KvMap.empty))
  | installed {k num : Nat} {gid : Gid} {s : Shid} {state : Packed} {caller : Caller}
      (found : σ.groupCalls[k]? = some ⟨gid, .installShard s state num, caller⟩)
      (later : (σ.groups gid).cfgNumByShid s < num)
      (absent : (σ.groups gid).shardStatuses s = .absent) :
      Performs σ (.installed gid s num state
        (((σ.groups gid).doInstallShard s state num).bind (·.1.kvm s)))
  | deleted {k num : Nat} {gid : Gid} {s : Shid} {caller : Caller}
      (found : σ.groupCalls[k]? = some ⟨gid, .deleteShard s num, caller⟩)
      (same : num = (σ.groups gid).cfgNumByShid s)
      (frozen : (σ.groups gid).shardStatuses s = .frozen) :
      Performs σ (.deleted gid s num)

/-- An event and the state in which it happens. -/
inductive Emits (σ : System) : Event → Prop
  | invoked (op : ClientOp) : Emits σ (.invoked σ.clients.length op)
  | performed {event : Event} (performs : Performs σ event) : Emits σ event
  | returned {i k : Nat} {client : ClientCall} {reply : Reply}
      (found : σ.clients[i]? = some client) (active : client.phase = .active (some k))
      (answered : (k, reply) ∈ σ.groupReplies) (last : final reply = true) :
      Emits σ (.returned i reply)

/-- The log stays as it is or gains an event of a group. -/
def Extends (σ : System) (log : List Event) : Prop :=
  log = σ.log ∨ ∃ event, log = event :: σ.log ∧ Performs σ event

theorem accepted_emits {call : GroupCall} (found : σ.groupCalls[k]? = some call) :
    σ.Extends ((σ.groups call.gid).accepted call.gid call.request ++ σ.log) := by
  obtain ⟨gid, request, caller⟩ := call
  dsimp only [KVServer.accepted]
  split
  · split
    · rename_i taken
      exact Or.inr ⟨_, rfl, .froze found taken.1 taken.2⟩
    · exact Or.inl rfl
  · split
    · rename_i taken
      exact Or.inr ⟨_, rfl, .installed found taken.1 taken.2⟩
    · exact Or.inl rfl
  · split
    · rename_i taken
      exact Or.inr ⟨_, rfl, .deleted found taken.1 taken.2⟩
    · exact Or.inl rfl
  · exact Or.inl rfl

theorem answered_emits {call : GroupCall} {kv' : KVServer} {reply : Reply}
    (found : σ.groupCalls[k]? = some call)
    (done : (σ.groups call.gid).doOp call.request = some (kv', reply)) :
    σ.Extends ((σ.groups call.gid).answered call.gid reply call ++ σ.log) := by
  unfold KVServer.answered
  split
  · rename_i gid key i
    split
    · rename_i serving
      have outcome : ((σ.groups gid).doGet key).2 = reply :=
        congrArg Prod.snd (Option.some.inj done)
      rw [← outcome, KVServer.doGet_serving serving]
      exact Or.inr ⟨_, rfl, .get found serving⟩
    · exact Or.inl rfl
  · rename_i gid clientId requestId key value version i
    split
    · rename_i executed
      obtain ⟨serving, fresh⟩ := executed
      rw [Option.isNone_iff_eq_none] at fresh
      rcases KVServer.doPut_cases done with ⟨refused, _⟩ | ⟨_, lastPut, known, _⟩ |
        ⟨_, _, kvshard, err, clients, written, _, _, rfl⟩
      · exact absurd serving refused
      · rw [fresh] at known
        cases known
      · exact Or.inr ⟨_, rfl, .put found serving fresh written⟩
    · exact Or.inl rfl
  · exact Or.inl rfl

/-- A request is either one of a migration or one of a client. -/
theorem accepted_or_answered (call : GroupCall) (kv : KVServer) (reply : Reply) :
    kv.accepted call.gid call.request = [] ∨ kv.answered call.gid reply call = [] := by
  obtain ⟨gid, request, caller⟩ := call
  cases request with
  | get => exact Or.inl rfl
  | put => exact Or.inl rfl
  | _ => exact Or.inr rfl

theorem execute_extends (moved : σ.execute k = some σ') : σ.Extends σ'.log := by
  obtain ⟨call, found, outcome⟩ := execute_cases moved
  rcases outcome with ⟨kv', reply, done, rfl⟩ | ⟨_, rfl⟩
  · dsimp only [replied]
    rcases accepted_or_answered call (σ.groups call.gid) reply with quiet | silent
    · rw [quiet, List.nil_append]
      exact answered_emits found done
    · rw [silent, List.append_nil]
      exact accepted_emits found
  · exact accepted_emits found

/-- A step logs at most one event. -/
theorem step_emits {action : Action} (moved : σ.step action = some σ') :
    σ'.log = σ.log ∨ ∃ event, σ'.log = event :: σ.log ∧ Emits σ event := by
  rcases step_cases moved with controls | ⟨k, executes⟩ | ⟨clerk, op, rfl⟩ | ⟨i, acquires⟩ |
    ⟨i, q, attempts⟩ | ⟨i, j, answers⟩
  · exact Or.inl controls.log
  · exact (execute_extends executes).imp_right fun ⟨event, more, performs⟩ =>
      ⟨event, more, .performed performs⟩
  · exact Or.inr ⟨_, rfl, .invoked op⟩
  · obtain ⟨_, _, _, _, rfl⟩ := acquire_inversion acquires
    exact Or.inl rfl
  · obtain ⟨_, _, _, _, _, rfl⟩ := attempt_inversion attempts
    exact Or.inl rfl
  · obtain ⟨client, k, reply, found, active, answered, last, rfl⟩ := answer_inversion answers
    exact Or.inr ⟨_, rfl, .returned found active answered last⟩

end System

/-- What happens to a group's status of a shard, and the event that tells it. What is
frozen stays as it is until it is deleted. -/
inductive StatusChange (gid : Gid) (shid : Shid) (kv kv' : KVServer) : List Event → Prop
  | kept {events : List Event} (same : kv'.shardStatuses shid = kv.shardStatuses shid)
      (stays : kv.shardStatuses shid = .frozen → kv'.kvm shid = kv.kvm shid) :
      StatusChange gid shid kv kv' events
  | froze (num : Nat) (before : kv.shardStatuses shid = .serving)
      (after : kv'.shardStatuses shid = .frozen) (stays : kv'.kvm shid = kv.kvm shid) :
      StatusChange gid shid kv kv' [.froze gid shid num ((kv.kvm shid).getD KvMap.empty)]
  | installed (num : Nat) (state : Packed) (before : kv.shardStatuses shid = .absent)
      (after : kv'.shardStatuses shid = .serving) :
      StatusChange gid shid kv kv' [.installed gid shid num state (kv'.kvm shid)]
  | deleted (num : Nat) (before : kv.shardStatuses shid = .frozen)
      (after : kv'.shardStatuses shid = .absent) :
      StatusChange gid shid kv kv' [.deleted gid shid num]

theorem StatusChange.refl (gid : Gid) (shid : Shid) (kv : KVServer) (events : List Event) :
    StatusChange gid shid kv kv events :=
  .kept rfl fun _ => rfl

namespace KVServer

/-- Every change of a status is what `accepted` tells. -/
theorem doOp_status {kv kv' : KVServer} {request : Request} {reply : Reply}
    (done : kv.doOp request = some (kv', reply)) (gid : Gid) (shid : Shid) :
    StatusChange gid shid kv kv' (kv.accepted gid request) := by
  cases request with
  | get key =>
    have same : kv' = kv := by
      rw [← kv.doGet_state key]
      exact (congrArg Prod.fst (Option.some.inj done)).symm
    rw [same]
    exact .refl ..
  | put clientId requestId key value version =>
    rcases doPut_cases done with ⟨_, rfl, _⟩ | ⟨_, _, _, rfl, _⟩ |
      ⟨serving, _, _, _, _, _, _, rfl, _⟩
    · exact .refl ..
    · exact .refl ..
    · refine .kept rfl fun frozen => Function.update_of_ne ?_ ..
      rintro rfl
      rw [serving] at frozen
      cases frozen
  | freezeShard shard num =>
    rcases doFreezeShard_cases done with ⟨later, serving, _, _, rfl, _⟩ | ⟨_, _, _, _, rfl, _⟩ |
      ⟨_, rfl, _⟩ | ⟨_, rfl, _⟩
    · by_cases here : shid = shard
      · subst here
        rw [accepted, if_pos ⟨later, serving⟩]
        exact .froze num serving (Function.update_self ..) rfl
      · exact .kept (Function.update_of_ne here ..) fun _ => rfl
    all_goals exact .refl ..
  | installShard shard state num =>
    rcases doInstallShard_cases done with ⟨later, absent, loaded, unpacked, rfl, _⟩ |
      ⟨_, rfl, _⟩ | ⟨_, rfl, _⟩
    · by_cases here : shid = shard
      · subst here
        rw [doOp] at done
        rw [accepted, if_pos ⟨later, absent⟩, done]
        exact .installed num state absent (Function.update_self ..)
      · obtain ⟨_, _, rfl⟩ := installShardState_cases unpacked
        exact .kept (Function.update_of_ne here ..) fun _ => Function.update_of_ne here ..
    all_goals exact .refl ..
  | deleteShard shard num =>
    have outcome := Option.some.inj done
    rcases kv.doDeleteShard_cases shard num with ⟨frozen, same, result⟩ | ⟨_, result⟩ |
      ⟨_, result⟩ <;> obtain ⟨rfl, rfl⟩ := Prod.mk.inj (outcome.symm.trans result)
    · by_cases here : shid = shard
      · subst here
        rw [accepted, if_pos ⟨same, frozen⟩]
        exact .deleted num frozen (Function.update_self ..)
      · exact .kept (Function.update_of_ne here ..) fun _ => Function.update_of_ne here ..
    all_goals exact .refl ..

end KVServer

/-- A status changes only by an event of the log. -/
theorem System.status_logged {σ σ' : System} {action : Action} (moved : σ.step action = some σ')
    (g : Gid) (s : Shid) :
    ∃ events, σ'.log = events ++ σ.log ∧ StatusChange g s (σ.groups g) (σ'.groups g) events := by
  by_cases same : σ'.groups g = σ.groups g
  · obtain ⟨events, logged⟩ : ∃ events, σ'.log = events ++ σ.log := by
      rcases step_emits moved with quiet | ⟨event, more, _⟩
      · exact ⟨[], quiet⟩
      · exact ⟨[event], more⟩
    rw [same]
    exact ⟨events, logged, .refl ..⟩
  rcases step_cases moved with controls | ⟨k, executes⟩ | ⟨clerk, op, rfl⟩ | ⟨i, acquires⟩ |
    ⟨i, q, attempts⟩ | ⟨i, j, answers⟩
  · exact absurd (by rw [controls.groups]) same
  · obtain ⟨call, found, outcome⟩ := execute_cases executes
    rcases outcome with ⟨kv', reply, done, rfl⟩ | ⟨_, rfl⟩
    · have here : g = call.gid := by
        by_contra apart
        exact same (Function.update_of_ne apart ..)
      subst here
      have change := KVServer.doOp_status done call.gid s
      dsimp only [replied]
      rw [Function.update_self]
      refine ⟨_, rfl, ?_⟩
      rcases accepted_or_answered call (σ.groups call.gid) reply with quiet | silent
      · rw [quiet] at change
        cases change with
        | kept same stays => exact .kept same stays
      · rw [silent, List.append_nil]
        exact change
    · exact absurd rfl same
  · exact absurd rfl same
  · obtain ⟨_, _, _, _, rfl⟩ := acquire_inversion acquires
    exact absurd rfl same
  · obtain ⟨_, _, _, _, _, rfl⟩ := attempt_inversion attempts
    exact absurd rfl same
  · obtain ⟨_, _, _, _, _, _, _, rfl⟩ := answer_inversion answers
    exact absurd rfl same

end KvStore.Shard
