import KvStore.Lib.HandoffMoves
import KvStore.Shard.Outcomes
import KvStore.Shard.Steps

set_option autoImplicit false

/-! How the sharded store follows the handoff protocol, once for every shard. -/

namespace KvStore.Shard

/-- The map after the Puts executed so far, the newest event first. -/
def mapOf : List Event → KvMap String String
  | [] => KvMap.empty
  | .executed _ _ (.put _ _ key value version) _ :: log => ((mapOf log).put key value version).1
  | _ :: log => mapOf log

/-- What one shard really is: its data and the Puts executed on it. -/
structure Truth where
  kv : KvMap String String
  puts : ClientId → Nat → Prop

/-- The part of a map that belongs to a shard. -/
def onShard (s : Shid) (kvm : KvMap String String) : KvMap String String :=
  fun key => if key2Shard key = s then kvm key else none

/-- A Put of the client with this request id has been executed on the shard. -/
def ExecutedOn (log : List Event) (s : Shid) (client : ClientId) (requestId : Nat) : Prop :=
  ∃ gid call key value version reply,
    .executed gid call (.put client requestId key value version) reply ∈ log ∧ key2Shard key = s

def truthOf (log : List Event) (s : Shid) : Truth where
  kv := onShard s (mapOf log)
  puts := ExecutedOn log s

/-- What a group holds for one shard. The records of last Puts are shared by all
shards of the group. -/
structure Copy where
  kvm : Option (KvMap String String)
  clients : Option (List ClientId)
  lastPuts : ClientId → Option LastPut

def KVServer.holder (kv : KVServer) (s : Shid) : Handoff.Holder Copy where
  status := kv.shardStatuses s
  num := kv.cfgNumByShid s
  copy := { kvm := kv.kvm s, clients := kv.shardClients s, lastPuts := kv.lastPutByClientId }

/-- A group has the data of the shard, and a record at least as new as every Put
executed on it, for a client that it would pack. -/
def Faithful (truth : Truth) (copy : Copy) : Prop :=
  copy.kvm = some truth.kv ∧ ∃ clients, copy.clients = some clients ∧
    ∀ client requestId, truth.puts client requestId →
      client ∈ clients ∧ KVServer.Reached copy.lastPuts client requestId

/-- A packed state decodes to the data of the shard, with such records. -/
def Carries (truth : Truth) (packed : Packed) : Prop :=
  ∃ state, packed = some state ∧ state.kv = truth.kv ∧
    ∀ client requestId, truth.puts client requestId →
      ∃ lastPut, (client, lastPut) ∈ state.lastPutByClientId ∧ requestId ≤ lastPut.requestId

abbrev Protocol := Handoff.State Gid Truth Copy Packed

abbrev Step := Handoff.Step (G := Gid) Faithful Carries

abbrev Inv (a : Protocol) : Prop := Handoff.Inv Faithful Carries a

theorem Faithful.packed {truth : Truth} {kv : KVServer} {s : Shid} {state : ShardState}
    (faithful : Faithful truth (kv.holder s).copy)
    (packed : kv.marshallShardState s = some state) : Carries truth (some state) := by
  obtain ⟨data, clients, listed, reached⟩ := faithful
  obtain ⟨same, covered, _⟩ := KVServer.marshallShardState_cases packed
  have held : kv.kvm s = some truth.kv := data
  have known : kv.shardClients s = some clients := listed
  rw [held, Option.getD_some] at same
  rw [known, Option.getD_some] at covered
  refine ⟨state, rfl, same, ?_⟩
  intro client requestId executed
  obtain ⟨member, lastPut, found, bound⟩ := reached client requestId executed
  obtain ⟨other, found', shipped⟩ := covered client member
  obtain rfl : lastPut = other := Option.some.inj (found.symm.trans found')
  exact ⟨lastPut, shipped, bound⟩

theorem Carries.unpacked {truth : Truth} {kv loaded : KVServer} {s : Shid} {packed : Packed}
    {num : Nat} {status : ShardStatus} (carries : Carries truth packed)
    (unpacked : kv.installShardState s packed = some loaded) :
    Faithful truth ((loaded.setShard s status num).holder s).copy := by
  obtain ⟨state, rfl, data, covered⟩ := carries
  obtain ⟨state', same, rfl⟩ := KVServer.installShardState_cases unpacked
  obtain rfl := Option.some.inj same
  refine ⟨?_, state.lastPutByClientId.map (·.1), ?_, ?_⟩
  · simp [KVServer.holder, KVServer.setShard, data]
  · simp [KVServer.holder, KVServer.setShard]
  · intro client requestId executed
    obtain ⟨lastPut, member, bound⟩ := covered client requestId executed
    obtain ⟨merged, found, later⟩ := KVServer.merged_record member
    exact ⟨List.mem_map.mpr ⟨_, member, rfl⟩, merged, found, bound.trans later⟩

/-- Newer records keep a copy faithful. -/
theorem Faithful.mono {truth : Truth} {copy copy' : Copy} (faithful : Faithful truth copy)
    (data : copy'.kvm = copy.kvm) (clients : copy'.clients = copy.clients)
    (newer : ∀ client requestId, KVServer.Reached copy.lastPuts client requestId →
      KVServer.Reached copy'.lastPuts client requestId) : Faithful truth copy' := by
  obtain ⟨held, listed, same, reached⟩ := faithful
  refine ⟨data.trans held, listed, clients.trans same, ?_⟩
  intro client requestId executed
  obtain ⟨member, known⟩ := reached client requestId executed
  exact ⟨member, newer client requestId known⟩

variable (a : Shid → Protocol)

/-- A configuration that was current, with the version it had. -/
def Past (cfg : ShardConfig) (ver : Nat) : Prop :=
  ver = cfg.num ∧ ∀ s, cfg.num ≤ (a s).current ∧ cfg.shards s = (a s).owner cfg.num

/-- A configuration that has been stored as the next one. -/
def Known (cfg : ShardConfig) : Prop :=
  ∀ s, cfg.num ≤ (a s).next ∧ cfg.shards s = (a s).owner cfg.num

/-- A Put to the config store. One of a next configuration was built on what was
current; one of a current configuration is sent when all its shards have moved. -/
def PutRel (put : StorePut) : Prop :=
  match put.key with
  | .nextConfig => put.version + 1 = put.value.num ∧ ∀ s, put.version ≤ (a s).current
  | .currentConfig => Known a put.value ∧ put.version < put.value.num ∧ ∀ s,
      put.version ≤ (a s).current ∧ ((a s).owner put.version = put.value.shards s ∨
        (a s).erased ((a s).owner put.version) put.value.num)

def CallRel (call : GroupCall) : Prop :=
  match call.request with
  | .freezeShard s num => (a s).freezes call.gid num
  | .installShard s state num => call.gid = (a s).owner num ∧ (a s).installs num state
  | .deleteShard s num => (a s).deletes call.gid num
  | _ => ∃ i, call.caller = .client i

/-- What an answer to a migration request that is not a refusal tells. -/
def ReplyRel (call : GroupCall) (reply : Reply) : Prop :=
  match call.request, reply with
  | .freezeShard s num, .freezeShard state _ err =>
      err = .illegalOperation ∨ (a s).shipped num state
  | .installShard s _ num, .installShard err => err = .illegalOperation ∨ (a s).accepted num
  | .deleteShard s num, .deleteShard err => err = .illegalOperation ∨ (a s).erased call.gid num
  | .get _, .get _ _ _ => True
  | .put _ _ _ _ _, .put _ => True
  | _, _ => False

def StageRel (newCfg : ShardConfig) (s : Shid) : Stage → Prop
  | .freeze => True
  | .install state => (a s).shipped newCfg.num state
  | .delete => (a s).accepted newCfg.num

def WorkerRel (calls : List GroupCall) (newCfg old : ShardConfig) (s : Shid) : Worker → Prop
  | .running stage call => old.shards s ≠ newCfg.shards s ∧ StageRel a newCfg s stage ∧
      ∀ k, call = some k → ∃ sent, calls[k]? = some sent ∧
        (sent.gid, sent.request) = stage.target newCfg old s
  | .superseded => True
  | .finished => old.shards s = newCfg.shards s ∨ (a s).erased (old.shards s) newCfg.num

def OperationRel (puts : List StorePut) (calls : List GroupCall) : Operation → Prop
  | .initNext old ver => Past a old ver
  | .changeCurrent newCfg => ∀ s, newCfg.num ≤ (a s).current + 1
  | .saveQuery newCfg old ver => Past a old ver ∧ newCfg.num = old.num + 1
  | .savePut newCfg old ver nextVer call _ => Past a old ver ∧ newCfg.num = old.num + 1 ∧
      nextVer = old.num ∧ ∀ k, call = some k →
        puts[k]? = some { key := .nextConfig, value := newCfg, version := nextVer }
  | .saveCheck newCfg old ver => Past a old ver ∧ newCfg.num = old.num + 1
  | .migrate newCfg old ver workers => Past a old ver ∧ Known a newCfg ∧ old.num < newCfg.num ∧
      ∀ s, WorkerRel a calls newCfg old s (workers s)
  | .finalPut newCfg ver _ => PutRel a { key := .currentConfig, value := newCfg, version := ver }
  | _ => True

/-- The two keys of the config store hold what the protocol calls current and next;
their versions are the numbers of what they hold. -/
structure StoreRel (store : KvMap ConfigKey ShardConfig) (cur nxt : ShardConfig) : Prop where
  current : store .currentConfig = some { value := cur, version := cur.num }
  next : store .nextConfig = some { value := nxt, version := nxt.num }
  currentAt : ∀ s, (a s).current = cur.num ∧ cur.shards s = (a s).owner cur.num
  nextAt : ∀ s, (a s).next = nxt.num ∧ nxt.shards s = (a s).owner nxt.num

/-- The record of the protocol and the log of events tell the same story. -/
structure LogRel (log : List Event) : Prop where
  froze : ∀ g s num kv, .froze g s num kv ∈ log →
    ∃ truth, (a s).frozenAs num = some (g, truth) ∧ truth.kv = kv
  frozenAs : ∀ s num g truth, (a s).frozenAs num = some (g, truth) →
    .froze g s num truth.kv ∈ log
  installed : ∀ s num, (a s).installed num →
    ∃ g state held, .installed g s num state held ∈ log

/-- What controllers and messages rely on. All of it stays true as the protocol moves. -/
structure Promises (σ : System) : Prop where
  queries : ∀ cfg ∈ σ.queries, ∀ s, cfg.num ≤ (a s).current
  puts : ∀ put ∈ σ.storePuts, PutRel a put
  stored : ∀ k, (k, .ok) ∈ σ.storeReplies → ∃ put, σ.storePuts[k]? = some put ∧
    (put.key = .nextConfig → Known a put.value)
  operations : ∀ operation ∈ σ.operations, OperationRel a σ.storePuts σ.groupCalls operation
  calls : ∀ call ∈ σ.groupCalls, CallRel a call
  replies : ∀ k reply, (k, reply) ∈ σ.groupReplies → ∃ call, σ.groupCalls[k]? = some call ∧
    ReplyRel a call reply

structure Rel (σ : System) : Prop where
  inv : ∀ s, Inv (a s)
  store : ∃ cur nxt, StoreRel a σ.configStore cur nxt
  holders : ∀ s g, (a s).holders g = (σ.groups g).holder s
  packable : ∀ g, (σ.groups g).Packable
  truth : ∀ s, (a s).truth = truthOf σ.log s
  log : LogRel a σ.log
  promises : Promises a σ

variable {a} {a' : Shid → Protocol} {σ : System}

/-- Every shard makes a move of the protocol or stays as it is. -/
def Follows (a a' : Shid → Protocol) : Prop :=
  ∀ s, a' s = a s ∨ Step (a s) (a' s)

/-- The protocol states of all shards before and after some moves. -/
structure Growth (a a' : Shid → Protocol) : Prop where
  inv : ∀ s, Inv (a s)
  grows : ∀ s, Handoff.Grows (a s) (a' s)

theorem Follows.inv (follows : Follows a a') (inv : ∀ s, Inv (a s)) : ∀ s, Inv (a' s) := by
  intro s
  rcases follows s with same | step
  · rw [same]
    exact inv s
  · exact (inv s).step step

theorem Follows.growth (follows : Follows a a') (inv : ∀ s, Inv (a s)) : Growth a a' := by
  refine ⟨inv, fun s => ?_⟩
  rcases follows s with same | step
  · rw [same]
    exact .refl _
  · exact (inv s).grows step

theorem Past.mono {cfg : ShardConfig} {ver : Nat} (past : Past a cfg ver) (growth : Growth a a') :
    Past a' cfg ver := by
  refine ⟨past.1, fun s => ?_⟩
  obtain ⟨early, owned⟩ := past.2 s
  have ordered := (growth.inv s).ordered
  rw [(growth.grows s).owner cfg.num (by omega)]
  exact ⟨early.trans (growth.grows s).current, owned⟩

theorem Known.mono {cfg : ShardConfig} (known : Known a cfg) (growth : Growth a a') :
    Known a' cfg := by
  intro s
  obtain ⟨early, owned⟩ := known s
  rw [(growth.grows s).owner cfg.num early]
  exact ⟨early.trans (growth.grows s).next, owned⟩

theorem PutRel.mono {put : StorePut} (rel : PutRel a put) (growth : Growth a a') :
    PutRel a' put := by
  unfold PutRel at rel ⊢
  split at rel
  · exact ⟨rel.1, fun s => (rel.2 s).trans (growth.grows s).current⟩
  · obtain ⟨known, later, settled⟩ := rel
    refine ⟨known.mono growth, later, fun s => ?_⟩
    obtain ⟨early, moved⟩ := settled s
    have ordered := (growth.inv s).ordered
    rw [(growth.grows s).owner put.version (by omega)]
    exact ⟨early.trans (growth.grows s).current,
      moved.imp_right ((growth.grows s).erased _ _)⟩

theorem CallRel.mono {call : GroupCall} (rel : CallRel a call) (growth : Growth a a') :
    CallRel a' call := by
  unfold CallRel at rel ⊢
  split at rel
  · exact (growth.grows _).freezes _ _ rel
  · rename_i s state num _
    obtain ⟨there, sent⟩ := rel
    have known := (growth.inv s).shipped _ _ ((growth.inv s).installs _ _ sent)
    rw [(growth.grows s).owner num known]
    exact ⟨there, (growth.grows s).installs _ _ sent⟩
  · exact (growth.grows _).deletes _ _ rel
  · exact rel

theorem ReplyRel.mono {call : GroupCall} {reply : Reply} (rel : ReplyRel a call reply)
    (growth : Growth a a') : ReplyRel a' call reply := by
  unfold ReplyRel at rel ⊢
  split at rel
  · exact rel.imp_right ((growth.grows _).shipped _ _)
  · exact rel.imp_right ((growth.grows _).accepted _)
  · exact rel.imp_right ((growth.grows _).erased _ _)
  · trivial
  · trivial
  · exact rel

theorem WorkerRel.mono {calls calls' : List GroupCall} {newCfg old : ShardConfig} {s : Shid}
    {worker : Worker} (rel : WorkerRel a calls newCfg old s worker) (growth : Growth a a')
    (more : Keeps calls calls') : WorkerRel a' calls' newCfg old s worker := by
  cases worker with
  | running stage call =>
    obtain ⟨moves, reached, sent⟩ := rel
    refine ⟨moves, ?_, ?_⟩
    · cases stage with
      | freeze => trivial
      | install state => exact (growth.grows s).shipped _ _ reached
      | delete => exact (growth.grows s).accepted _ reached
    · intro k mine
      obtain ⟨request, found, same⟩ := sent k mine
      exact ⟨request, more _ _ found, same⟩
  | superseded => trivial
  | finished => exact Or.imp_right ((growth.grows s).erased _ _) rel

theorem OperationRel.mono {puts puts' : List StorePut} {calls calls' : List GroupCall}
    {operation : Operation} (rel : OperationRel a puts calls operation) (growth : Growth a a')
    (morePuts : Keeps puts puts') (moreCalls : Keeps calls calls') :
    OperationRel a' puts' calls' operation := by
  cases operation with
  | initNext old ver => exact Past.mono rel growth
  | changeCurrent newCfg =>
    intro s
    have := (growth.grows s).current
    have := rel s
    omega
  | saveQuery newCfg old ver => exact ⟨rel.1.mono growth, rel.2⟩
  | savePut newCfg old ver nextVer call resent =>
    obtain ⟨past, next, version, sent⟩ := rel
    exact ⟨past.mono growth, next, version,
      fun k mine => morePuts _ _ (sent k mine)⟩
  | saveCheck newCfg old ver => exact ⟨rel.1.mono growth, rel.2⟩
  | migrate newCfg old ver workers =>
    obtain ⟨past, known, later, workers⟩ := rel
    exact ⟨past.mono growth, known.mono growth, later,
      fun s => (workers s).mono growth moreCalls⟩
  | finalPut newCfg ver call =>
    have settled : PutRel a { key := .currentConfig, value := newCfg, version := ver } := rel
    exact settled.mono growth
  | initCurrent | returned _ | stopped => trivial

theorem Promises.mono (promises : Promises a σ) (growth : Growth a a') : Promises a' σ where
  queries cfg member s := (promises.queries cfg member s).trans (growth.grows s).current
  puts put member := (promises.puts put member).mono growth
  stored k good := by
    obtain ⟨put, found, known⟩ := promises.stored k good
    exact ⟨put, found, fun next => (known next).mono growth⟩
  operations operation member :=
    (promises.operations operation member).mono growth (.refl _) (.refl _)
  calls call member := (promises.calls call member).mono growth
  replies k reply member := by
    obtain ⟨call, found, rel⟩ := promises.replies k reply member
    exact ⟨call, found, rel.mono growth⟩

/-- The event is the execution of a Put. -/
def Event.isPut : Event → Bool
  | .executed _ _ (.put _ _ _ _ _) _ => true
  | _ => false

def Event.isFroze : Event → Bool
  | .froze _ _ _ _ => true
  | _ => false

theorem truthOf_quiet {event : Event} (quiet : event.isPut = false) (log : List Event)
    (s : Shid) : truthOf (event :: log) s = truthOf log s := by
  have map : mapOf (event :: log) = mapOf log := by
    cases event with
    | executed gid call request reply =>
      cases request with
      | put => cases quiet
      | _ => rfl
    | _ => rfl
  have puts : ExecutedOn (event :: log) s = ExecutedOn log s := by
    funext client requestId
    refine propext ⟨?_, ?_⟩
    · rintro ⟨gid, call, key, value, version, reply, member, here⟩
      rcases List.mem_cons.mp member with rfl | old
      · cases quiet
      · exact ⟨gid, call, key, value, version, reply, old, here⟩
    · rintro ⟨gid, call, key, value, version, reply, old, here⟩
      exact ⟨gid, call, key, value, version, reply, List.mem_cons_of_mem _ old, here⟩
  unfold truthOf
  rw [map, puts]

theorem LogRel.cons {log : List Event} (rel : LogRel a log) {event : Event}
    (quiet : event.isFroze = false) : LogRel a (event :: log) where
  froze g s num kv member := by
    rcases List.mem_cons.mp member with rfl | old
    · cases quiet
    · exact rel.froze g s num kv old
  frozenAs s num g truth recorded := List.mem_cons_of_mem _ (rel.frozenAs s num g truth recorded)
  installed s num done := by
    obtain ⟨g, state, held, member⟩ := rel.installed s num done
    exact ⟨g, state, held, List.mem_cons_of_mem _ member⟩

end KvStore.Shard
