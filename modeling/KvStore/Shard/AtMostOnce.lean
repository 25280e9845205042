import KvStore.Shard.Clients
import KvStore.Shard.Migration

set_option autoImplicit false

/-! A Put is executed at most once, wherever its shard goes, and its clerk learns the
result of that execution. -/

namespace KvStore.Shard

variable {a : Shid → Protocol} {σ σ' : System} {i k : Nat} {log log' : List Event}
  {servers : List String} {trace : List System}

/-- The execution of a Put of the client with the request id. -/
def Event.isPutOf (clientId requestId : Nat) : Event → Bool
  | .executed _ _ (.put client id _ _ _) _ => client = clientId && id = requestId
  | _ => false

/-- A record of a last Put is what some execution has answered. -/
def Recorded (log : List Event) (clientId : ClientId) (lastPut : LastPut) : Prop :=
  ∃ g i key value version,
    .executed g i (.put clientId lastPut.requestId key value version) (.put lastPut.err) ∈ log

def Genuine (log : List Event) (state : Packed) : Prop :=
  ∀ packed, state = some packed → ∀ clientId lastPut,
    (clientId, lastPut) ∈ packed.lastPutByClientId → Recorded log clientId lastPut

theorem Recorded.mono {clientId : ClientId} {lastPut : LastPut}
    (recorded : Recorded log clientId lastPut) (more : log ⊆ log') :
    Recorded log' clientId lastPut := by
  obtain ⟨g, i, key, value, version, member⟩ := recorded
  exact ⟨g, i, key, value, version, more member⟩

theorem Genuine.mono {state : Packed} (genuine : Genuine log state) (more : log ⊆ log') :
    Genuine log' state :=
  fun packed same clientId lastPut member =>
    (genuine packed same clientId lastPut member).mono more

namespace KVServer

variable {kv kv' : KVServer} {request : Request} {reply : Reply}

/-- Where a record comes from. -/
theorem doOp_records (done : kv.doOp request = some (kv', reply)) {clientId : ClientId}
    {lastPut : LastPut} (found : kv'.lastPutByClientId clientId = some lastPut) :
    kv.lastPutByClientId clientId = some lastPut ∨
    (∃ key value version,
      request = .put clientId lastPut.requestId key value version ∧
      kv.shardStatuses (key2Shard key) = .serving ∧
      kv.duplicate clientId lastPut.requestId = none ∧ reply = .put lastPut.err) ∨
    ∃ s packed num, request = .installShard s (some packed) num ∧
      (clientId, lastPut) ∈ packed.lastPutByClientId := by
  cases request with
  | get key =>
    have same : kv' = kv := by
      rw [← kv.doGet_state key]
      exact (congrArg Prod.fst (Option.some.inj done)).symm
    exact Or.inl (same ▸ found)
  | put client id key value version =>
    rcases doPut_cases done with ⟨_, rfl, _⟩ | ⟨_, _, _, rfl, _⟩ |
      ⟨serving, fresh, kvshard, err, clients, _, _, rfl, rfl⟩
    · exact Or.inl found
    · exact Or.inl found
    · dsimp only [afterPut] at found
      by_cases here : clientId = client
      · subst here
        rw [Function.update_self] at found
        obtain rfl := Option.some.inj found
        exact Or.inr (Or.inl ⟨key, value, version, rfl, serving, fresh, rfl⟩)
      · rw [Function.update_of_ne here] at found
        exact Or.inl found
  | freezeShard s num =>
    rcases doFreezeShard_cases done with ⟨_, _, _, _, rfl, _⟩ | ⟨_, _, _, _, rfl, _⟩ |
      ⟨_, rfl, _⟩ | ⟨_, rfl, _⟩ <;> exact Or.inl found
  | installShard s state num =>
    rcases doInstallShard_cases done with ⟨_, _, loaded, unpacked, rfl, _⟩ | ⟨_, rfl, _⟩ |
      ⟨_, rfl, _⟩
    · obtain ⟨packed, rfl, rfl⟩ := installShardState_cases unpacked
      rcases merged_origin found with old | shipped
      · exact Or.inl old
      · exact Or.inr (Or.inr ⟨s, packed, num, rfl, shipped⟩)
    · exact Or.inl found
    · exact Or.inl found
  | deleteShard s num =>
    have outcome := Option.some.inj done
    rcases kv.doDeleteShard_cases s num with ⟨_, _, result⟩ | ⟨_, result⟩ | ⟨_, result⟩ <;>
      obtain ⟨rfl, rfl⟩ := Prod.mk.inj (outcome.symm.trans result) <;> exact Or.inl found

/-- Only a freeze packs the state of a shard. -/
theorem doOp_marshalled {packed : ShardState} {num : Nat} {err : Err}
    (done : kv.doOp request = some (kv', .freezeShard (some packed) num err)) :
    ∃ s, kv.marshallShardState s = some packed := by
  cases request with
  | get key =>
    have outcome := congrArg Prod.snd (Option.some.inj done)
    by_cases serving : kv.shardStatuses (key2Shard key) = .serving
    · rw [doGet_serving serving] at outcome
      unfold getReply at outcome
      split at outcome <;> cases outcome
    · rw [doGet_refused serving] at outcome
      cases outcome
  | put client id key value version =>
    rcases doPut_cases done with ⟨_, _, same⟩ | ⟨_, _, _, _, same⟩ |
      ⟨_, _, _, _, _, _, _, _, same⟩ <;> cases same
  | freezeShard s num =>
    rcases doFreezeShard_cases done with ⟨_, _, state, marshalled, _, same⟩ |
      ⟨_, _, state, marshalled, _, same⟩ | ⟨_, _, same⟩ | ⟨_, _, _, same⟩
    · cases same
      exact ⟨s, marshalled⟩
    · cases same
      exact ⟨s, marshalled⟩
    · cases same
    · cases same
  | installShard s state num =>
    rcases doInstallShard_cases done with ⟨_, _, _, _, _, same⟩ | ⟨_, _, same⟩ | ⟨_, _, same⟩ <;>
      cases same
  | deleteShard s num =>
    have outcome := Option.some.inj done
    rcases kv.doDeleteShard_cases s num with ⟨_, _, result⟩ | ⟨_, result⟩ | ⟨_, result⟩ <;>
      cases (Prod.mk.inj (outcome.symm.trans result)).2

/-- What a freeze packs is what the group has. -/
theorem doOp_packed {packed : ShardState} {num : Nat} {err : Err}
    (done : kv.doOp request = some (kv', .freezeShard (some packed) num err))
    {clientId : ClientId} {lastPut : LastPut}
    (member : (clientId, lastPut) ∈ packed.lastPutByClientId) :
    kv.lastPutByClientId clientId = some lastPut := by
  obtain ⟨s, marshalled⟩ := doOp_marshalled done
  exact ((marshallShardState_cases marshalled).2.2 clientId lastPut member).2

end KVServer

/-- All records of last Puts are genuine, those of the groups and those that travel. -/
structure RecordInv (σ : System) : Prop where
  groups : ∀ g clientId lastPut, (σ.groups g).lastPutByClientId clientId = some lastPut →
    Recorded σ.log clientId lastPut
  replies : ∀ k state num err, (k, .freezeShard state num err) ∈ σ.groupReplies →
    Genuine σ.log state
  held : ∀ state, σ.Holds state → Genuine σ.log state
  calls : ∀ call ∈ σ.groupCalls, ∀ s state num, call.request = .installShard s state num →
    Genuine σ.log state

namespace System

theorem step_grows {action : Action} (moved : σ.step action = some σ') : σ.log ⊆ σ'.log := by
  rcases step_emits moved with same | ⟨event, more, _⟩
  · rw [same]
    exact fun _ => id
  · rw [more]
    exact List.subset_cons_self ..

/-- A Put that passes the duplicate check is logged. -/
theorem replied_put {gid : Gid} {clientId requestId version : Nat} {key value : String}
    {kv' : KVServer} {reply : Reply}
    (serving : (σ.groups gid).shardStatuses (key2Shard key) = .serving)
    (fresh : (σ.groups gid).duplicate clientId requestId = none) :
    .executed gid i (.put clientId requestId key value version) reply ∈
      (σ.replied k ⟨gid, .put clientId requestId key value version, .client i⟩ kv' reply).log := by
  simp [replied, KVServer.accepted, KVServer.answered, serving, fresh]

theorem replied_get {gid : Gid} {key : String} {kv' : KVServer} {reply : Reply}
    (serving : (σ.groups gid).shardStatuses (key2Shard key) = .serving) :
    .executed gid i (.get key) reply ∈
      (σ.replied k ⟨gid, .get key, .client i⟩ kv' reply).log := by
  simp [replied, KVServer.accepted, KVServer.answered, serving]

end System

namespace RecordInv

theorem init (servers : List String) : RecordInv (System.init servers) := by
  refine ⟨nofun, nofun, ?_, nofun⟩
  rintro state ⟨operation, member, _⟩
  cases member

theorem logged (inv : RecordInv σ) (more : σ.log ⊆ log') : RecordInv { σ with log := log' } where
  groups g clientId lastPut known := (inv.groups g clientId lastPut known).mono more
  replies k state num err member := (inv.replies k state num err member).mono more
  held state held := (inv.held state held).mono more
  calls call member s state num request := (inv.calls call member s state num request).mono more

theorem replied (inv : RecordInv σ) (rel : Rel a σ) {call : GroupCall} {kv' : KVServer}
    {reply : Reply} (found : σ.groupCalls[k]? = some call)
    (done : (σ.groups call.gid).doOp call.request = some (kv', reply))
    (more : σ.log ⊆ (σ.replied k call kv' reply).log) :
    RecordInv (σ.replied k call kv' reply) where
  groups g clientId lastPut known := by
    dsimp only [System.replied] at known
    by_cases here : g = call.gid
    · rw [here, Function.update_self] at known
      rcases KVServer.doOp_records done known with
        old | ⟨key, value, version, request, serving, fresh, rfl⟩ |
          ⟨s, packed, num, request, shipped⟩
      · exact (inv.groups _ clientId lastPut old).mono more
      · have sent : CallRel a call := rel.promises.calls call (List.mem_of_getElem? found)
        obtain ⟨gid, _, caller⟩ := call
        dsimp only at request
        subst request
        obtain ⟨i, same⟩ := sent
        dsimp only at same
        subst same
        exact ⟨gid, i, key, value, version, System.replied_put serving fresh⟩
      · exact (inv.calls call (List.mem_of_getElem? found) s _ num request packed rfl clientId
          lastPut shipped).mono more
    · rw [Function.update_of_ne here] at known
      exact (inv.groups g clientId lastPut known).mono more
  replies k' state num err member := by
    rcases List.mem_cons.mp member with same | old
    · obtain ⟨_, rfl⟩ := Prod.mk.inj same
      rintro packed rfl clientId lastPut shipped
      exact (inv.groups _ clientId lastPut (KVServer.doOp_packed done shipped)).mono more
    · exact (inv.replies k' state num err old).mono more
  held state held := (inv.held state held).mono more
  calls other member s state num request := (inv.calls other member s state num request).mono more

theorem step (inv : RecordInv σ) (rel : Rel a σ) {action : Action}
    (moved : σ.step action = some σ') : RecordInv σ' := by
  have more := System.step_grows moved
  rcases System.step_cases moved with controls | ⟨k, executes⟩ | ⟨clerk, op, rfl⟩ |
    ⟨i, acquires⟩ | ⟨i, q, attempts⟩ | ⟨i, j, answers⟩
  · refine ⟨?_, ?_, ?_, ?_⟩
    · rw [controls.groups, controls.log]
      exact inv.groups
    · rw [controls.replies, controls.log]
      exact inv.replies
    · intro state held
      rw [controls.log]
      rcases controls.holds state held with old | ⟨k, num, err, answered⟩
      · exact inv.held state old
      · exact inv.replies k state num err answered
    · intro call member s state num request
      rw [controls.log]
      rcases controls.sent call member with old | ⟨_, mine⟩
      · exact inv.calls call old s state num request
      · exact inv.held state (mine s state num request)
  · obtain ⟨call, found, outcome⟩ := System.execute_cases executes
    rcases outcome with ⟨kv', reply, done, rfl⟩ | ⟨died, _⟩
    · exact inv.replied rel found done more
    · exact absurd died (rel.lives found)
  · exact { inv.logged more with }
  · obtain ⟨_, _, _, _, rfl⟩ := System.acquire_inversion acquires
    exact ⟨inv.groups, inv.replies, inv.held, inv.calls⟩
  · obtain ⟨client, _, _, _, _, rfl⟩ := System.attempt_inversion attempts
    refine ⟨inv.groups, inv.replies, inv.held, ?_⟩
    intro call member s state num request
    rcases List.mem_append.mp member with old | new
    · exact inv.calls call old s state num request
    · rw [List.mem_singleton.mp new] at request
      dsimp only [ClientCall.request] at request
      split at request <;> cases request
  · obtain ⟨_, _, _, _, _, _, _, rfl⟩ := System.answer_inversion answers
    exact { inv.logged more with }

end RecordInv

/-- Nobody has executed a Put that passes the duplicate check where its shard is served. -/
theorem Rel.put_new (rel : Rel a σ) (clients : ClientInv σ) {gid : Gid}
    {clientId requestId version : Nat} {key value : String}
    (found : σ.groupCalls[k]? = some ⟨gid, .put clientId requestId key value version, .client i⟩)
    (serving : (σ.groups gid).shardStatuses (key2Shard key) = .serving)
    (fresh : (σ.groups gid).duplicate clientId requestId = none) :
    ∀ event ∈ σ.log, event.isPutOf clientId requestId = false := by
  intro event member
  by_contra executed
  rw [Bool.not_eq_false] at executed
  unfold Event.isPutOf at executed
  split at executed
  · rename_i g j client id key' value' version' reply
    simp only [Bool.and_eq_true, decide_eq_true_eq] at executed
    obtain ⟨rfl, rfl⟩ := executed
    -- both are the one Put of the clerk with this id, so they are on the same shard
    obtain ⟨_, rfl, _, _⟩ := clients.same_request
      (clients.calls _ (List.mem_of_getElem? found) i rfl)
      (clients.executed _ _ _ _ member)
    obtain ⟨_, _, _, reached⟩ := rel.serving_faithful serving
    rw [rel.truth] at reached
    obtain ⟨_, lastPut, known, bound⟩ := reached client id
      ⟨g, j, _, value', version', reply, member, rfl⟩
    have known' : (σ.groups gid).lastPutByClientId client = some lastPut := known
    simp only [KVServer.duplicate, known', Option.filter_eq_none_iff, Option.some.injEq,
      forall_eq', decide_eq_true_eq] at fresh
    exact fresh bound
  · cases executed

/-- The reply is one with which the call returns and its request is still the newest of
the clerk: then it is the result of the execution. -/
def Answered (σ : System) (call : GroupCall) (reply : Reply) : Prop :=
  ∀ i, call.caller = .client i → System.final reply = true →
    (∀ clientId requestId key value version,
      call.request = .put clientId requestId key value version →
      requestId = σ.requestIds clientId) →
    ∃ g, .executed g i call.request reply ∈ σ.log

theorem Answered.mono {call : GroupCall} {reply : Reply} (answered : Answered σ call reply)
    (ids : σ'.requestIds = σ.requestIds) (more : σ.log ⊆ σ'.log) : Answered σ' call reply := by
  intro i mine last newest
  rw [ids] at newest
  obtain ⟨g, member⟩ := answered i mine last newest
  exact ⟨g, more member⟩

structure OnceInv (σ : System) : Prop where
  once : ∀ clientId requestId, σ.log.countP (·.isPutOf clientId requestId) ≤ 1
  answers : ∀ k reply, (k, reply) ∈ σ.groupReplies →
    ∃ call, σ.groupCalls[k]? = some call ∧ Answered σ call reply
  returned : ∀ (i : Nat) (client : ClientCall) (reply : Reply), σ.clients[i]? = some client →
    client.phase = .returned reply → ∃ g, .executed g i client.request reply ∈ σ.log

namespace OnceInv

theorem init (servers : List String) : OnceInv (System.init servers) where
  once _ _ := Nat.zero_le _
  answers := nofun
  returned _ _ _ found := by cases found

variable {action : Action}

theorem once_step (inv : OnceInv σ) (rel : Rel a σ) (clients : ClientInv σ)
    (moved : σ.step action = some σ') (clientId requestId : Nat) :
    σ'.log.countP (·.isPutOf clientId requestId) ≤ 1 := by
  rcases System.step_emits moved with same | ⟨event, more, emits⟩
  · rw [same]
    exact inv.once clientId requestId
  · rw [more]
    by_cases executed : event.isPutOf clientId requestId = true
    · have none_before : ∀ old ∈ σ.log, ¬old.isPutOf clientId requestId = true := by
        intro old member
        rw [Bool.not_eq_true]
        cases emits with
        | performed performs =>
          cases performs with
          | put found serving fresh _ =>
            simp only [Event.isPutOf, Bool.and_eq_true, decide_eq_true_eq] at executed
            obtain ⟨rfl, rfl⟩ := executed
            exact rel.put_new clients found serving fresh old member
          | _ => cases executed
        | _ => cases executed
      rw [List.countP_cons_of_pos executed, List.countP_eq_zero.mpr none_before]
    · rw [List.countP_cons_of_neg executed]
      exact inv.once clientId requestId

/-- A group answers a Put from its records: if the Put is still the newest of its clerk,
the record is its own. -/
theorem duplicate_answered (records : RecordInv σ) (clients : ClientInv σ) {gid : Gid}
    {clientId requestId version : Nat} {key value : String} {lastPut : LastPut}
    (issued : σ.Issued i (.put clientId requestId key value version))
    (known : (σ.groups gid).duplicate clientId requestId = some lastPut)
    (newest : requestId = σ.requestIds clientId) :
    ∃ g, .executed g i (.put clientId requestId key value version) (.put lastPut.err) ∈ σ.log := by
  obtain ⟨found, bound⟩ := Option.filter_eq_some_iff.mp known
  rw [decide_eq_true_eq] at bound
  obtain ⟨g, j, key', value', version', member⟩ := records.groups gid clientId lastPut found
  have executed := clients.executed _ _ _ _ member
  have same : lastPut.requestId = requestId := by
    have := clients.issued_bounded executed
    omega
  rw [same] at executed member
  obtain ⟨rfl, rfl, rfl, rfl⟩ := clients.same_request issued executed
  exact ⟨g, member⟩

theorem execute_answered (records : RecordInv σ) (clients : ClientInv σ) {call : GroupCall}
    {kv' : KVServer} {reply : Reply} (found : σ.groupCalls[k]? = some call)
    (done : (σ.groups call.gid).doOp call.request = some (kv', reply))
    (more : σ.log ⊆ (σ.replied k call kv' reply).log) :
    Answered (σ.replied k call kv' reply) call reply := by
  intro i mine last newest
  have issued := clients.calls call (List.mem_of_getElem? found) i mine
  obtain ⟨gid, request, caller⟩ := call
  dsimp only at mine done newest issued ⊢
  subst mine
  cases request with
  | get key =>
    have outcome : ((σ.groups gid).doGet key).2 = reply :=
      congrArg Prod.snd (Option.some.inj done)
    by_cases serving : (σ.groups gid).shardStatuses (key2Shard key) = .serving
    · exact ⟨gid, System.replied_get serving⟩
    · rw [KVServer.doGet_refused serving] at outcome
      rw [← outcome] at last
      cases last
  | put clientId requestId key value version =>
    rcases KVServer.doPut_cases done with ⟨_, _, rfl⟩ | ⟨_, lastPut, known, rfl, rfl⟩ |
      ⟨serving, fresh, _, _, _, _, _, _, _⟩
    · cases last
    · obtain ⟨g, member⟩ := duplicate_answered records clients issued known
        (newest _ _ _ _ _ rfl)
      exact ⟨g, more member⟩
    · exact ⟨gid, System.replied_put serving fresh⟩
  | _ =>
    obtain ⟨client, _, _, request⟩ := issued
    unfold ClientCall.request at request
    split at request <;> cases request

theorem answers_step (inv : OnceInv σ) (rel : Rel a σ) (clients : ClientInv σ)
    (records : RecordInv σ) (moved : σ.step action = some σ') :
    ∀ k reply, (k, reply) ∈ σ'.groupReplies →
      ∃ call, σ'.groupCalls[k]? = some call ∧ Answered σ' call reply := by
  have more := System.step_grows moved
  intro k reply member
  rcases System.step_cases moved with controls | ⟨k', executes⟩ | ⟨clerk, op, rfl⟩ |
    ⟨i, acquires⟩ | ⟨i, q, attempts⟩ | ⟨i, j, answers⟩
  · rw [controls.replies] at member
    obtain ⟨call, found, answered⟩ := inv.answers k reply member
    exact ⟨call, controls.calls _ _ found, answered.mono controls.requestIds more⟩
  · obtain ⟨call', found', outcome⟩ := System.execute_cases executes
    rcases outcome with ⟨kv', reply', done, rfl⟩ | ⟨died, _⟩
    · rcases List.mem_cons.mp member with same | old
      · obtain ⟨rfl, rfl⟩ := Prod.mk.inj same
        exact ⟨call', found', execute_answered records clients found' done more⟩
      · obtain ⟨call, found, answered⟩ := inv.answers k reply old
        exact ⟨call, found, answered.mono rfl more⟩
    · exact absurd died (rel.lives found')
  · obtain ⟨call, found, answered⟩ := inv.answers k reply member
    exact ⟨call, found, answered.mono rfl more⟩
  · obtain ⟨client, _, _, _, rfl⟩ := System.acquire_inversion acquires
    obtain ⟨call, found, answered⟩ := inv.answers k reply member
    refine ⟨call, found, fun j mine last newest => answered j mine last ?_⟩
    intro clientId requestId key value version request
    have now := newest clientId requestId key value version request
    have issued := clients.calls call (List.mem_of_getElem? found) j mine
    rw [request] at issued
    have bound := clients.issued_bounded issued
    dsimp only at now
    -- no Put has the request id that is drawn here
    by_cases here : clientId = client.clerk
    · rw [here, Function.update_self] at now
      rw [here] at bound
      omega
    · rwa [Function.update_of_ne here] at now
  · obtain ⟨client, _, _, _, _, rfl⟩ := System.attempt_inversion attempts
    obtain ⟨call, found, answered⟩ := inv.answers k reply member
    exact ⟨call, Keeps.append _ _ k call found, answered.mono rfl more⟩
  · obtain ⟨client, _, _, _, _, _, _, rfl⟩ := System.answer_inversion answers
    obtain ⟨call, found, answered⟩ := inv.answers k reply member
    exact ⟨call, found, answered.mono rfl more⟩

/-- Whatever a client can be answered now is the result of its execution. -/
theorem answered_now (inv : OnceInv σ) (clients : ClientInv σ) {client : ClientCall}
    {call : GroupCall} {reply : Reply} (found : σ.clients[i]? = some client)
    (active : client.phase.isActive = true) (sent : σ.groupCalls[k]? = some call)
    (mine : call.caller = .client i) (same : call.request = client.request)
    (replied : (k, reply) ∈ σ.groupReplies) (last : System.final reply = true) :
    ∃ g, .executed g i client.request reply ∈ σ.log := by
  obtain ⟨call', found', answered⟩ := inv.answers k reply replied
  obtain rfl := Option.some.inj (sent.symm.trans found')
  rw [← same]
  refine answered i mine last ?_
  intro clientId requestId key value version request
  rw [same] at request
  unfold ClientCall.request at request
  split at request
  · cases request
  · rename_i op
    cases request
    refine clients.latest i client ⟨found, by rw [op]; rfl, ?_⟩ active
    intro queued
    rw [queued] at active
    cases active

theorem returned_step (inv : OnceInv σ) (rel : Rel a σ) (clients : ClientInv σ)
    (moved : σ.step action = some σ') :
    ∀ (i : Nat) (client : ClientCall) (reply : Reply), σ'.clients[i]? = some client →
      client.phase = .returned reply → ∃ g, .executed g i client.request reply ∈ σ'.log := by
  have more := System.step_grows moved
  have before : ∀ (i : Nat) (client : ClientCall) (reply : Reply), σ.clients[i]? = some client →
      client.phase = .returned reply → ∃ g, .executed g i client.request reply ∈ σ'.log := by
    intro i client reply found done
    obtain ⟨g, member⟩ := inv.returned i client reply found done
    exact ⟨g, more member⟩
  intro i client reply found done
  rcases System.step_cases moved with controls | ⟨k', executes⟩ | ⟨clerk, op, rfl⟩ |
    ⟨j, acquires⟩ | ⟨j, q, attempts⟩ | ⟨j, j', answers⟩
  · rw [controls.clients] at found
    exact before i client reply found done
  · obtain ⟨call, found', outcome⟩ := System.execute_cases executes
    rcases outcome with ⟨kv', reply', _, rfl⟩ | ⟨died, _⟩
    · exact before i client reply found done
    · exact absurd died (rel.lives found')
  · rcases System.invoke_cases found with old | ⟨_, _, _, waiting⟩
    · exact before i client reply old done
    · exact absurd done (waiting.2 reply)
  · obtain ⟨other, there, _, _, rfl⟩ := System.acquire_inversion acquires
    rcases System.setClient_cases there found with ⟨_, rfl⟩ | ⟨_, old⟩
    · cases done
    · exact before i client reply old done
  · obtain ⟨other, _, _, there, _, rfl⟩ := System.attempt_inversion attempts
    rcases System.setClient_cases there found with ⟨_, rfl⟩ | ⟨_, old⟩
    · cases done
    · exact before i client reply old done
  · obtain ⟨other, k, reply', there, active, replied, last, rfl⟩ :=
      System.answer_inversion answers
    rcases System.setClient_cases there found with ⟨rfl, rfl⟩ | ⟨_, old⟩
    · cases done
      obtain ⟨gid, sent⟩ := clients.outstanding i other k there active
      obtain ⟨g, member⟩ := inv.answered_now clients there (by rw [active]; rfl) sent rfl rfl
        replied last
      exact ⟨g, more member⟩
    · exact before i client reply old done

end OnceInv

/-- Everything that holds along a run. -/
structure Sound (σ : System) : Prop where
  rel : ∃ a, Rel a σ
  clients : ClientInv σ
  records : RecordInv σ
  once : OnceInv σ

theorem Sound.step (sound : Sound σ) {action : Action} (moved : σ.step action = some σ') :
    Sound σ' := by
  obtain ⟨⟨a, rel⟩, clients, records, once⟩ := sound
  obtain ⟨a', _, rel'⟩ := rel.step moved
  exact ⟨⟨a', rel'⟩, clients.step moved, records.step rel moved,
    ⟨once.once_step rel clients moved, once.answers_step rel clients records moved,
      once.returned_step rel clients moved⟩⟩

namespace System

theorem Run.sound (run : Run servers trace) : ∀ σ ∈ trace, Sound σ := by
  refine run.invariant ?_ fun before action after _ moved sound => sound.step moved
  exact ⟨⟨_, init_rel servers⟩, .init servers, .init servers, .init servers⟩

/-- The reply to a Put is lost, all shards of the new configuration move, and the clerk
tries again at the new group. -/
def retriedElsewhere : List Action :=
  [.query, .invoke 7 (.put "a" "v" 0), .acquire 0, .attempt 0 0, .execute 0,
    .changeConfigTo 0 joined, .read 0, .read 0, .put 0, .storeExecute 0, .putReply 0 0] ++
  moveShard 0 1 ++ moveShard 1 4 ++ moveShard 2 7 ++ moveShard 3 10 ++ moveShard 4 13 ++
  moveShard 5 16 ++ [.join 0, .put 0, .storeExecute 1, .query, .attempt 0 1, .execute 19]

theorem retriedElsewhere_done : (afterwards retriedElsewhere).isSome := by decide +kernel

/-- Of every request id of every client at most one Put is executed, over all groups and
migrations, and every reply a clerk can return with is the result of that execution. -/
theorem at_most_once (run : Run servers trace) :
    ∀ σ ∈ trace,
      (∀ clientId requestId, σ.log.countP (·.isPutOf clientId requestId) ≤ 1) ∧
      ∀ (i : Nat) (client : ClientCall), σ.clients[i]? = some client → client.op.isPut = true →
        (client.phase.isActive = true → ∀ (k : Nat) (call : GroupCall) (reply : Reply),
          σ.groupCalls[k]? = some call → call.request = client.request →
          (k, reply) ∈ σ.groupReplies → final reply = true →
          ∃ g, .executed g i client.request reply ∈ σ.log) ∧
        ∀ reply, client.phase = .returned reply →
          ∃ g, .executed g i client.request reply ∈ σ.log := by
  intro σ member
  obtain ⟨⟨a, rel⟩, clients, records, once⟩ := run.sound σ member
  refine ⟨once.once, fun i client found isPut => ⟨?_, ?_⟩⟩
  · intro active k call reply sent same replied last
    have begun : client.phase ≠ .queued := by
      intro queued
      rw [queued] at active
      cases active
    have mine : call.caller = .client i := by
      have known : CallRel a call := rel.promises.calls call (List.mem_of_getElem? sent)
      have issued : σ.Issued i client.request := ⟨client, found, begun, rfl⟩
      obtain ⟨gid, request, caller⟩ := call
      dsimp only at same ⊢
      cases op : client.op with
      | get key =>
        rw [op] at isPut
        cases isPut
      | put key value version =>
        have shape : client.request = .put client.clerk client.requestId key value version := by
          unfold ClientCall.request
          rw [op]
        rw [shape] at same issued
        subst same
        obtain ⟨j, rfl⟩ := known
        obtain ⟨rfl, _⟩ := clients.same_request issued
          (clients.calls _ (List.mem_of_getElem? sent) j rfl)
        rfl
    exact once.answered_now clients found active sent mine same replied last
  · intro reply done
    exact once.returned i client reply found done

theorem at_most_once_retried :
    ∃ trace σ, Run ["a"] trace ∧ σ ∈ trace ∧
      σ.groupCalls[19]?.map (·.gid) = some 2 ∧
      (19, .put .ok) ∈ σ.groupReplies ∧
      σ.log.countP (·.isPutOf 7 1) ≤ 1 ∧
      ∃ g, .executed g 0 (.put 7 1 "a" "v" 0) (.put .ok) ∈ σ.log := by
  obtain ⟨past, run⟩ := reached retriedElsewhere retriedElsewhere_done
  obtain ⟨once, answered⟩ := at_most_once run _ (List.mem_cons_self ..)
  have replied : (19, .put .ok) ∈
      ((afterwards retriedElsewhere).get retriedElsewhere_done).groupReplies :=
    List.mem_of_getElem? (i := 0) rfl
  refine ⟨_, _, run, List.mem_cons_self .., rfl, replied, once 7 1, ?_⟩
  exact (answered 0 ⟨7, .put "a" "v" 0, 1, .active (some 19)⟩ rfl rfl).1 rfl 19
    ⟨2, .put 7 1 "a" "v" 0, .client 0⟩ (.put .ok) rfl rfl replied rfl

end System

end KvStore.Shard
