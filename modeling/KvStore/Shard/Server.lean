import KvStore.Kv.Versioned
import KvStore.Lib.Handoff
import KvStore.Shard.Config

set_option autoImplicit false

/-! One shard group: the state its replicas share and `DoOp`, which they execute in
the order of their log. -/

namespace KvStore.Shard

abbrev ClientId := Nat

/-- The last Put executed for a client, with its reply. -/
structure LastPut where
  requestId : Nat
  err : Err
  deriving DecidableEq, Repr

abbrev ShardStatus := Handoff.Status

/-- What `FreezeShard` packs: the data of one shard and the last Puts of the clients
that wrote to it, one for each client. -/
structure ShardState where
  kv : KvMap String String
  lastPutByClientId : List (ClientId × LastPut)

/-- A packed state as it travels; `none` stands for nil, which does not decode. -/
abbrev Packed := Option ShardState

/-- The maps of a shard are `none` where the source has nil. -/
structure KVServer where
  kvm : Shid → Option (KvMap String String)
  lastPutByClientId : ClientId → Option LastPut
  cfgNumByShid : Shid → Nat
  shardStatuses : Shid → ShardStatus
  shardClients : Shid → Option (List ClientId)

inductive Request
  | get (key : String)
  | put (clientId requestId : Nat) (key value : String) (version : Nat)
  | freezeShard (shard : Shid) (num : Nat)
  | installShard (shard : Shid) (state : Packed) (num : Nat)
  | deleteShard (shard : Shid) (num : Nat)

inductive Reply
  | get (value : String) (version : Nat) (err : Err)
  | put (err : Err)
  | freezeShard (state : Packed) (num : Nat) (err : Err)
  | installShard (err : Err)
  | deleteShard (err : Err)

/-- The answer to a Get for what the map holds under the key. -/
def getReply : Option (VersionedValue String) → Reply
  | none => .get "" 0 .noKey
  | some held => .get held.value held.version .ok

namespace KVServer

/-- `StartServerShardGrp` -/
def start (gid : Gid) : KVServer where
  kvm _ := some KvMap.empty
  lastPutByClientId _ := none
  cfgNumByShid _ := if gid = gid1 then 1 else 0
  shardStatuses _ := if gid = gid1 then .serving else .absent
  shardClients _ := some []

variable (kv : KVServer)

def doGet (key : String) : KVServer × Reply :=
  let shid := key2Shard key
  if kv.shardStatuses shid ≠ .serving then (kv, .get "" 0 .wrongGroup)
  else (kv, getReply ((kv.kvm shid).bind (· key)))

/-- The client has a record that answers the request. -/
def duplicate (clientId requestId : Nat) : Option LastPut :=
  (kv.lastPutByClientId clientId).filter (requestId ≤ ·.requestId)

/-- The write of a Put; `none` is the panic of a write to a nil map. -/
def writeShard (shid : Shid) (key value : String) (version : Nat) :
    Option (Option (KvMap String String) × Err) :=
  match kv.kvm shid with
  | some kvshard => some (some (kvshard.put key value version).1, (kvshard.put key value version).2)
  | none => if version = 0 then none else some (none, .noKey)

def doPut (clientId requestId : Nat) (key value : String) (version : Nat) :
    Option (KVServer × Reply) :=
  let shid := key2Shard key
  if kv.shardStatuses shid ≠ .serving then some (kv, .put .wrongGroup)
  else
    match kv.duplicate clientId requestId with
    | some lastPut => some (kv, .put lastPut.err)
    | none => do
      let (kvshard, err) ← kv.writeShard shid key value version
      let clients ← kv.shardClients shid
      some ({ kv with
        kvm := Function.update kv.kvm shid kvshard
        lastPutByClientId :=
          Function.update kv.lastPutByClientId clientId (some { requestId, err })
        shardClients := Function.update kv.shardClients shid
          (some (if clientId ∈ clients then clients else clientId :: clients)) }, .put err)

/-- Only the clients that wrote to the shard are packed; `none` is the fatal error of
encoding a record that is not there. -/
def marshallShardState (shid : Shid) : Option ShardState := do
  let lastPuts ← ((kv.shardClients shid).getD []).mapM fun client =>
    (kv.lastPutByClientId client).map (client, ·)
  some { kv := (kv.kvm shid).getD KvMap.empty, lastPutByClientId := lastPuts }

/-- Of two records of a client the one with the larger request id is kept. -/
def keepLatest (lastPuts : ClientId → Option LastPut) (record : ClientId × LastPut) :
    ClientId → Option LastPut :=
  match lastPuts record.1 with
  | none => Function.update lastPuts record.1 (some record.2)
  | some existing =>
    if record.2.requestId > existing.requestId then
      Function.update lastPuts record.1 (some record.2)
    else lastPuts

/-- `none` is the fatal error of a state that does not decode. -/
def installShardState (shid : Shid) (state : Packed) : Option KVServer := do
  let shardState ← state
  some { kv with
    kvm := Function.update kv.kvm shid (some shardState.kv)
    shardClients := Function.update kv.shardClients shid
      (some (shardState.lastPutByClientId.map (·.1)))
    lastPutByClientId := shardState.lastPutByClientId.foldl keepLatest kv.lastPutByClientId }

def setShard (shid : Shid) (status : ShardStatus) (num : Nat) : KVServer :=
  { kv with
    shardStatuses := Function.update kv.shardStatuses shid status
    cfgNumByShid := Function.update kv.cfgNumByShid shid num }

def doFreezeShard (shid : Shid) (num : Nat) : Option (KVServer × Reply) :=
  let localCfgNum := kv.cfgNumByShid shid
  if num > localCfgNum then
    match kv.shardStatuses shid with
    | .serving => do
      let state ← (kv.setShard shid .frozen num).marshallShardState shid
      some (kv.setShard shid .frozen num, .freezeShard (some state) num .ok)
    | _ => some (kv, .freezeShard none localCfgNum .illegalOperation)
  else if num = localCfgNum then
    match kv.shardStatuses shid with
    | .serving => some (kv, .freezeShard none num .illegalOperation)
    | _ => do
      let state ← kv.marshallShardState shid
      some (kv, .freezeShard (some state) num .ok)
  else some (kv, .freezeShard none localCfgNum .ok)

def doInstallShard (shid : Shid) (state : Packed) (num : Nat) : Option (KVServer × Reply) :=
  let localCfgNum := kv.cfgNumByShid shid
  if num > localCfgNum then
    match kv.shardStatuses shid with
    | .absent => do
      let kv ← kv.installShardState shid state
      some (kv.setShard shid .serving num, .installShard .ok)
    | _ => some (kv, .installShard .illegalOperation)
  else if num = localCfgNum then
    match kv.shardStatuses shid with
    | .serving => some (kv, .installShard .ok)
    | _ => some (kv, .installShard .illegalOperation)
  else some (kv, .installShard .ok)

def doDeleteShard (shid : Shid) (num : Nat) : KVServer × Reply :=
  let localCfgNum := kv.cfgNumByShid shid
  if num = localCfgNum then
    match kv.shardStatuses shid with
    | .frozen =>
      ({ kv.setShard shid .absent num with
          kvm := Function.update kv.kvm shid none
          shardClients := Function.update kv.shardClients shid none }, .deleteShard .ok)
    | .absent => (kv, .deleteShard .ok)
    | .serving => (kv, .deleteShard .illegalOperation)
  else if num > localCfgNum then (kv, .deleteShard .illegalOperation)
  else (kv, .deleteShard .ok)

/-- `none` when executing the request kills the replica. -/
def doOp : Request → Option (KVServer × Reply)
  | .get key => some (kv.doGet key)
  | .put clientId requestId key value version => kv.doPut clientId requestId key value version
  | .freezeShard shard num => kv.doFreezeShard shard num
  | .installShard shard state num => kv.doInstallShard shard state num
  | .deleteShard shard num => some (kv.doDeleteShard shard num)

end KVServer

end KvStore.Shard
