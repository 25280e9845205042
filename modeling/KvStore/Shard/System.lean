import KvStore.Lib.Runs
import KvStore.Shard.Server

set_option autoImplicit false

/-! The sharded store as a whole: the config store, the shard groups, any number of
controllers and clerks, and the network between them.

A request that has been sent can be executed any number of times and at any later
time, and so can a reply be received; a lost one is one that never is. Each group
executes `DoOp` on a single state. A read of the config store takes effect when the
store executes it, and its caller goes on at any later time. -/

namespace KvStore.Shard

inductive ConfigKey
  | currentConfig
  | nextConfig
  deriving DecidableEq, Repr

/-- One attempt of a Put to the config store. -/
structure StorePut where
  key : ConfigKey
  value : ShardConfig
  version : Nat

/-- The step a migrating goroutine is at; `install` carries what the freeze returned. -/
inductive Stage
  | freeze
  | install (state : Packed)
  | delete

/-- The goroutine for one shard, with the call it waits for. -/
inductive Worker
  | running (stage : Stage) (call : Option Nat)
  | superseded
  | finished

/-- Where an invocation of `InitController` or `ChangeConfigTo` stands. `old` and `ver`
are the current configuration and its version as read at the start. -/
inductive Operation
  | initCurrent
  | initNext (old : ShardConfig) (ver : Nat)
  | changeCurrent (newCfg : ShardConfig)
  | saveQuery (newCfg old : ShardConfig) (ver : Nat)
  | savePut (newCfg old : ShardConfig) (ver nextVer : Nat) (call : Option Nat) (resent : Bool)
  | saveCheck (newCfg old : ShardConfig) (ver : Nat)
  | migrate (newCfg old : ShardConfig) (ver : Nat) (workers : Shid → Worker)
  | finalPut (newCfg : ShardConfig) (ver : Nat) (call : Option Nat)
  | returned (ok : Bool)
  | stopped

inductive Caller
  | worker (operation : Nat) (shard : Shid)
  | client (call : Nat)

/-- A request to a shard group and who waits for the reply. -/
structure GroupCall where
  gid : Gid
  request : Request
  caller : Caller

inductive ClientOp
  | get (key : String)
  | put (key value : String) (version : Nat)
  deriving DecidableEq, Repr

/-- A Put is queued until it holds `putMutex`; `call` is the attempt waited for. -/
inductive ClientPhase
  | queued
  | active (call : Option Nat)
  | returned (reply : Reply)

/-- One call of `Clerk.Get` or `Clerk.Put`. Only a Put that has left the queue has a
request id. -/
structure ClientCall where
  clerk : ClientId
  op : ClientOp
  requestId : Nat
  phase : ClientPhase

/-- What an observer of the whole system sees; nothing in the system reads it. -/
inductive Event
  | invoked (call : Nat) (op : ClientOp)
  | executed (gid : Gid) (call : Nat) (request : Request) (reply : Reply)
  | returned (call : Nat) (reply : Reply)
  | froze (gid : Gid) (shard : Shid) (num : Nat) (kv : KvMap String String)
  | installed (gid : Gid) (shard : Shid) (num : Nat) (state : Packed)
      (held : Option (KvMap String String))
  | deleted (gid : Gid) (shard : Shid) (num : Nat)

/-- `queries` holds what `Query` has returned so far and `log` the events, newest
first. A group whose replicas have died is `halted`. -/
structure System where
  configStore : KvMap ConfigKey ShardConfig
  storePuts : List StorePut
  storeReplies : List (Nat × Err)
  queries : List ShardConfig
  operations : List Operation
  groups : Gid → KVServer
  halted : List Gid
  groupCalls : List GroupCall
  groupReplies : List (Nat × Reply)
  requestIds : ClientId → Nat
  clients : List ClientCall
  log : List Event

inductive Action
  | query
  | storeExecute (put : Nat)
  | execute (call : Nat)
  | initController
  | changeConfigTo (query : Nat) (newCfg : ShardConfig)
  | read (operation : Nat)
  | put (operation : Nat)
  | putReply (operation reply : Nat)
  | send (operation : Nat) (shard : Shid)
  | receive (operation : Nat) (shard : Shid) (reply : Nat)
  | check (operation : Nat) (shard : Shid)
  | join (operation : Nat)
  | invoke (clerk : ClientId) (op : ClientOp)
  | acquire (client : Nat)
  | attempt (client query : Nat)
  | answer (client reply : Nat)

/-- The request of a stage and the group it goes to. -/
def Stage.target (newCfg old : ShardConfig) (s : Shid) : Stage → Gid × Request
  | .freeze => (old.shards s, .freezeShard s newCfg.num)
  | .install state => (newCfg.shards s, .installShard s state newCfg.num)
  | .delete => (old.shards s, .deleteShard s newCfg.num)

/-- What the goroutine does with a reply; `none` is the panic of the clerk. -/
def Stage.next : Stage → Reply → Option Worker
  | .freeze, .freezeShard state _ err =>
    if err = .ok ∨ err = .wrongGroup then some (.running (.install state) none) else none
  | .install _, .installShard err =>
    if err = .ok ∨ err = .wrongGroup then some (.running .delete none) else none
  | .delete, .deleteShard err =>
    if err = .ok ∨ err = .wrongGroup then some .finished else none
  | _, _ => none

def Worker.isSuperseded : Worker → Bool
  | .superseded => true
  | _ => false

def Worker.isRunning : Worker → Bool
  | .running _ _ => true
  | _ => false

/-- `migrateShards` begins: a goroutine for every shard that changes its group. -/
def Operation.migrateShards (newCfg old : ShardConfig) (ver : Nat) : Operation :=
  .migrate newCfg old ver fun s =>
    if newCfg.shards s = old.shards s then .finished else .running .freeze none

def ClientPhase.isActive : ClientPhase → Bool
  | .active _ => true
  | _ => false

def ClientOp.isPut : ClientOp → Bool
  | .put _ _ _ => true
  | .get _ => false

def ClientOp.key : ClientOp → String
  | .get key => key
  | .put key _ _ => key

def ClientCall.request (client : ClientCall) : Request :=
  match client.op with
  | .get key => .get key
  | .put key value version => .put client.clerk client.requestId key value version

/-- What a group accepts, told before it is executed; an install with what the group
then holds. -/
def KVServer.accepted (kv : KVServer) (gid : Gid) : Request → List Event
  | .freezeShard s num =>
    if num > kv.cfgNumByShid s ∧ kv.shardStatuses s = .serving then
      [.froze gid s num ((kv.kvm s).getD KvMap.empty)] else []
  | .installShard s state num =>
    if num > kv.cfgNumByShid s ∧ kv.shardStatuses s = .absent then
      [.installed gid s num state ((kv.doInstallShard s state num).bind (·.1.kvm s))] else []
  | .deleteShard s num =>
    if num = kv.cfgNumByShid s ∧ kv.shardStatuses s = .frozen then
      [.deleted gid s num] else []
  | _ => []

/-- The Gets a serving group answers and the Puts that pass its duplicate check. -/
def KVServer.answered (kv : KVServer) (gid : Gid) (reply : Reply) : GroupCall → List Event
  | { request := .get key, caller := .client i, .. } =>
    if kv.shardStatuses (key2Shard key) = .serving then
      [.executed gid i (.get key) reply] else []
  | { request := .put clientId requestId key value version, caller := .client i, .. } =>
    if kv.shardStatuses (key2Shard key) = .serving ∧
        (kv.duplicate clientId requestId).isNone then
      [.executed gid i (.put clientId requestId key value version) reply] else []
  | _ => []

namespace System

/-- All shards on `gid1`, stored as current and next configuration. -/
def initialConfig (servers : List String) : ShardConfig where
  num := 1
  shards _ := gid1
  groups := [(gid1, servers)]

def init (servers : List String) : System where
  configStore _ := some { value := initialConfig servers, version := 1 }
  storePuts := []
  storeReplies := []
  queries := []
  operations := []
  groups := KVServer.start
  halted := []
  groupCalls := []
  groupReplies := []
  requestIds _ := 0
  clients := []
  log := []

variable (σ : System)

def setOperation (i : Nat) (operation : Operation) : System :=
  { σ with operations := σ.operations.set i operation }

def setClient (i : Nat) (client : ClientCall) : System :=
  { σ with clients := σ.clients.set i client }

def query : Option System := do
  let held ← σ.configStore .currentConfig
  some { σ with queries := σ.queries ++ [held.value] }

/-- The config store executes a Put that was sent. -/
def storeExecute (k : Nat) : Option System := do
  let put ← σ.storePuts[k]?
  some { σ with
    configStore := (σ.configStore.put put.key put.value put.version).1
    storeReplies := (k, (σ.configStore.put put.key put.value put.version).2) :: σ.storeReplies }

/-- A shard group executes a request that was sent. -/
def execute (k : Nat) : Option System := do
  let call ← σ.groupCalls[k]?
  let kv := σ.groups call.gid
  if call.gid ∈ σ.halted then none
  else
    match kv.doOp call.request with
    | some (kv', reply) =>
      some { σ with
        groups := Function.update σ.groups call.gid kv'
        groupReplies := (k, reply) :: σ.groupReplies
        log := kv.accepted call.gid call.request ++ kv.answered call.gid reply call ++ σ.log }
    | none =>
      some { σ with
        halted := call.gid :: σ.halted
        log := kv.accepted call.gid call.request ++ σ.log }

def initController : System :=
  { σ with operations := σ.operations ++ [.initCurrent] }

/-- Callers pass a configuration with the number after that of an earlier `Query`. -/
def changeConfigTo (q : Nat) (newCfg : ShardConfig) : Option System := do
  let queried ← σ.queries[q]?
  if newCfg.num = queried.num + 1 then
    some { σ with operations := σ.operations ++ [.changeCurrent newCfg] }
  else none

/-- An operation reads the config store. -/
def read (i : Nat) : Option System := do
  let operation ← σ.operations[i]?
  match operation with
  | .initCurrent =>
    let held ← σ.configStore .currentConfig
    some (σ.setOperation i (.initNext held.value held.version))
  | .initNext old ver =>
    let held ← σ.configStore .nextConfig
    some (σ.setOperation i (if old.num < held.value.num then
      .migrateShards held.value old ver else .returned true))
  | .changeCurrent newCfg =>
    let held ← σ.configStore .currentConfig
    some (σ.setOperation i (if newCfg.num ≤ held.value.num then .returned false
      else .saveQuery newCfg held.value held.version))
  | .saveQuery newCfg old ver =>
    let held ← σ.configStore .nextConfig
    some (σ.setOperation i (if held.value.num ≥ newCfg.num then .returned false
      else .savePut newCfg old ver held.version none false))
  | .saveCheck newCfg old ver =>
    let held ← σ.configStore .nextConfig
    some (σ.setOperation i (if held.value.equalTo newCfg then
      .migrateShards newCfg old ver else .returned false))
  | _ => none

/-- An operation sends its Put to the config store, or sends it again. -/
def put (i : Nat) : Option System := do
  let operation ← σ.operations[i]?
  let k := σ.storePuts.length
  match operation with
  | .savePut newCfg old ver nextVer call _ =>
    some { σ.setOperation i (.savePut newCfg old ver nextVer (some k) call.isSome) with
      storePuts := σ.storePuts ++
        [{ key := .nextConfig, value := newCfg, version := nextVer }] }
  | .finalPut newCfg ver _ =>
    some { σ.setOperation i (.finalPut newCfg ver (some k)) with
      storePuts := σ.storePuts ++
        [{ key := .currentConfig, value := newCfg, version := ver }] }
  | _ => none

/-- The reply to the last attempt arrives. On a resend the clerk answers ErrMaybe
whatever it says; the result of the final Put is not looked at. -/
def putReply (i j : Nat) : Option System := do
  let operation ← σ.operations[i]?
  let (k, err) ← σ.storeReplies[j]?
  match operation with
  | .savePut newCfg old ver _ call resent =>
    if call = some k then
      some (σ.setOperation i (if resent then .saveCheck newCfg old ver
        else match err with
          | .ok => .migrateShards newCfg old ver
          | .version => .returned false
          | _ => .stopped))
    else none
  | .finalPut _ _ call => if call = some k then some (σ.setOperation i (.returned true)) else none
  | _ => none

def setWorker (i : Nat) (newCfg old : ShardConfig) (ver : Nat) (workers : Shid → Worker)
    (s : Shid) (worker : Worker) : System :=
  σ.setOperation i (.migrate newCfg old ver (Function.update workers s worker))

/-- A goroutine sends the request of its stage, or sends it again. -/
def send (i : Nat) (s : Shid) : Option System := do
  let operation ← σ.operations[i]?
  match operation with
  | .migrate newCfg old ver workers =>
    match workers s with
    | .running stage _ =>
      let (gid, request) := stage.target newCfg old s
      some { σ.setWorker i newCfg old ver workers s (.running stage (some σ.groupCalls.length)) with
        groupCalls := σ.groupCalls ++ [{ gid, request, caller := .worker i s }] }
    | _ => none
  | _ => none

/-- A goroutine receives the reply it waits for; a panic stops the controller. -/
def receive (i : Nat) (s : Shid) (j : Nat) : Option System := do
  let operation ← σ.operations[i]?
  let (k, reply) ← σ.groupReplies[j]?
  match operation with
  | .migrate newCfg old ver workers =>
    match workers s with
    | .running stage call =>
      if call = some k then
        match stage.next reply with
        | some worker => some (σ.setWorker i newCfg old ver workers s worker)
        | none => some (σ.setOperation i .stopped)
      else none
    | _ => none
  | _ => none

/-- A clerk has exhausted its retries and the goroutine finds itself superseded. -/
def check (i : Nat) (s : Shid) : Option System := do
  let operation ← σ.operations[i]?
  match operation with
  | .migrate newCfg old ver workers =>
    match workers s with
    | .running _ _ =>
      let held ← σ.configStore .currentConfig
      if held.value.num ≥ newCfg.num then
        some (σ.setWorker i newCfg old ver workers s .superseded)
      else none
    | _ => none
  | _ => none

/-- `wg.Wait()` returns. -/
def join (i : Nat) : Option System := do
  let operation ← σ.operations[i]?
  match operation with
  | .migrate newCfg _ ver workers =>
    if (List.finRange NShards).any fun s => (workers s).isRunning then none
    else
      some (σ.setOperation i
        (if (List.finRange NShards).any fun s => (workers s).isSuperseded then .returned false
        else .finalPut newCfg ver none))
  | _ => none

/-- A client calls `Get` or `Put`. -/
def invoke (clerk : ClientId) (op : ClientOp) : System :=
  let phase := match op with
    | .get _ => .active none
    | .put _ _ _ => .queued
  { σ with
    clients := σ.clients ++ [{ clerk, op, requestId := 0, phase }]
    log := .invoked σ.clients.length op :: σ.log }

/-- A Put takes `putMutex` and draws the next request id. -/
def acquire (i : Nat) : Option System := do
  let client ← σ.clients[i]?
  match client.phase with
  | .queued =>
    if σ.clients.any fun other => other.clerk = client.clerk && other.op.isPut &&
        other.phase.isActive then none
    else
      let requestId := σ.requestIds client.clerk + 1
      some { σ.setClient i { client with requestId, phase := .active none } with
        requestIds := Function.update σ.requestIds client.clerk requestId }
  | _ => none

/-- The call is sent to the group that some earlier configuration names. -/
def attempt (i q : Nat) : Option System := do
  let client ← σ.clients[i]?
  let cached ← σ.queries[q]?
  let gid := cached.shards (key2Shard client.op.key)
  match client.phase with
  | .active _ =>
    if cached.isListed gid then
      some { σ.setClient i { client with phase := .active (some σ.groupCalls.length) } with
        groupCalls := σ.groupCalls ++
          [{ gid, request := client.request, caller := .client i }] }
    else none
  | _ => none

/-- The replies with which a call returns; on any other it is tried again. -/
def final : Reply → Bool
  | .get _ _ err => err = .ok || err = .noKey
  | .put err => err = .ok || err = .version || err = .noKey
  | _ => false

def answer (i j : Nat) : Option System := do
  let client ← σ.clients[i]?
  let (k, reply) ← σ.groupReplies[j]?
  match client.phase with
  | .active call =>
    if call = some k ∧ final reply then
      some { σ.setClient i { client with phase := .returned reply } with
        log := .returned i reply :: σ.log }
    else none
  | _ => none

def step : Action → Option System
  | .query => σ.query
  | .storeExecute k => σ.storeExecute k
  | .execute k => σ.execute k
  | .initController => some σ.initController
  | .changeConfigTo q newCfg => σ.changeConfigTo q newCfg
  | .read i => σ.read i
  | .put i => σ.put i
  | .putReply i j => σ.putReply i j
  | .send i s => σ.send i s
  | .receive i s j => σ.receive i s j
  | .check i s => σ.check i s
  | .join i => σ.join i
  | .invoke clerk op => some (σ.invoke clerk op)
  | .acquire i => σ.acquire i
  | .attempt i q => σ.attempt i q
  | .answer i j => σ.answer i j

/-- Every run of the sharded store. -/
abbrev Run (servers : List String) (trace : List System) : Prop :=
  Runs.Run step (fun _ _ => True) (init servers) trace

end System

end KvStore.Shard
