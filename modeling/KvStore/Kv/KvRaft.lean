import Mathlib.Data.Countable.Basic
import Mathlib.Data.Finmap
import Mathlib.Logic.Equiv.List
import KvStore.Kv.Versioned
import KvStore.Raft.Types

set_option autoImplicit false

/-! The kvraft server: `DoOp` with its table of last Puts, `Snapshot` and `Restore`. -/

namespace KvStore.KvRaft

structure RequestInfo where
  clientId : Nat
  requestId : Nat
  deriving DecidableEq, Repr

structure PutArgs extends RequestInfo where
  key : String
  value : String
  version : Nat
  deriving DecidableEq, Repr

structure GetArgs where
  key : String
  deriving DecidableEq, Repr

structure PutReply where
  err : Err
  deriving DecidableEq, Repr

structure GetReply where
  value : String
  version : Nat
  err : Err
  deriving DecidableEq, Repr

/-- What `DoOp` is handed; `unknown` is a value of any other type. -/
inductive Request
  | get (args : GetArgs)
  | put (args : PutArgs)
  | unknown
  deriving DecidableEq, Repr

inductive Reply
  | get (reply : GetReply)
  | put (reply : PutReply)
  | nil
  deriving DecidableEq, Repr

structure LastPut where
  requestId : Nat
  reply : PutReply
  deriving DecidableEq, Repr

abbrev Table := Finmap fun _ : String => VersionedValue String

structure SnapshotData where
  kvm : Table
  lastPutByClientId : Finmap fun _ : Nat => LastPut
  deriving DecidableEq

section Countable

instance countable_string : Countable String :=
  have : Countable Char :=
    Function.Injective.countable (f := Char.toNat) fun _ _ => Char.toNat_inj.mp
  Function.Injective.countable (f := String.toList) fun _ _ => String.toList_inj.mp

instance countable_err : Countable Err :=
  Function.Injective.countable (f := Err.ctorIdx) fun err err' same => by
    cases err <;> cases err' <;> first | rfl | cases same

instance countable_versionedValue : Countable (VersionedValue String) :=
  Function.Injective.countable (f := fun held => (held.value, held.version))
      fun held held' same => by
    cases held
    cases held'
    cases same
    rfl

instance countable_lastPut : Countable LastPut :=
  Function.Injective.countable (f := fun put => (put.requestId, put.reply.err))
      fun put put' same => by
    cases put with
    | mk requestId reply =>
      cases reply
      cases same
      rfl

instance countable_finmap {K V : Type} [Countable K] [Countable V] :
    Countable (Finmap fun _ : K => V) :=
  have : Countable (Multiset ((_ : K) × V)) := inferInstanceAs (Countable (Quotient _))
  Function.Injective.countable (f := Finmap.entries) fun _ _ => Finmap.ext

instance countable_snapshotData : Countable SnapshotData :=
  Function.Injective.countable (f := fun data => (data.kvm, data.lastPutByClientId))
    fun data data' same => by
      cases data
      cases data'
      cases same
      rfl

end Countable

/-- Encoding a snapshot and decoding it: what the standard encoder documents, that
decoding undoes encoding and that a value is never encoded to nothing. -/
structure Gob where
  encode : SnapshotData → Bytes
  decode : Bytes → Option SnapshotData
  decode_encode : ∀ data, decode (encode data) = some data
  encode_nonempty : ∀ data, encode data ≠ []

/-- Any numbering of the snapshots gives an encoding. -/
noncomputable def Gob.unary : Gob :=
  have numbered := Countable.exists_injective_nat SnapshotData
  let encode (data : SnapshotData) : Bytes := List.replicate (numbered.choose data + 1) 0
  { encode
    decode := Function.partialInv encode
    decode_encode := Function.partialInv_left fun data data' same => by
      apply numbered.choose_spec
      have sizes := congrArg List.length same
      simp only [encode, List.length_replicate] at sizes
      omega
    encode_nonempty := fun _ => List.cons_ne_nil _ _ }

structure KVServer where
  kvm : Table
  lastPutByClientId : Finmap fun _ : Nat => LastPut
  deriving DecidableEq

/-- The answer to a Get for what the map holds under the key. -/
def getReply : Option (VersionedValue String) → GetReply
  | none => { value := "", version := 0, err := .noKey }
  | some verVal => { value := verVal.value, version := verVal.version, err := .ok }

/-- The versioned map that a table holds. -/
def Table.view (table : Table) : KvMap String String := fun key => table.lookup key

theorem Table.view_empty : Table.view ∅ = KvMap.empty := by
  funext key
  exact Finmap.lookup_empty key

@[simp] theorem Table.view_insert (table : Table) (key : String) (verVal : VersionedValue String) :
    Table.view (table.insert key verVal) = Function.update table.view key (some verVal) := by
  funext other
  by_cases same : other = key
  · rw [same, Function.update_self]
    exact Finmap.lookup_insert table
  · rw [Function.update_of_ne same]
    exact Finmap.lookup_insert_of_ne table same

namespace KVServer

/-- `StartKVServer` -/
def start : KVServer where
  kvm := ∅
  lastPutByClientId := ∅

variable (kv : KVServer)

/-- The map and the reply after the Put has been carried out. -/
def write (args : PutArgs) : Table × PutReply :=
  match kv.kvm.lookup args.key with
  | some v =>
    if v.version = args.version then
      (kv.kvm.insert args.key { value := args.value, version := v.version + 1 }, { err := .ok })
    else (kv.kvm, { err := .version })
  | none =>
    if args.version = 0 then
      (kv.kvm.insert args.key { value := args.value, version := 1 }, { err := .ok })
    else (kv.kvm, { err := .noKey })

def executePut (args : PutArgs) : KVServer × Reply :=
  ({ kvm := (kv.write args).1
     lastPutByClientId := kv.lastPutByClientId.insert args.clientId
       { requestId := args.requestId, reply := (kv.write args).2 } },
    .put (kv.write args).2)

def doOp : Request → KVServer × Reply
  | .get args => (kv, .get (getReply (kv.kvm.lookup args.key)))
  | .put args =>
    match kv.lastPutByClientId.lookup args.clientId with
    | some lastPut =>
      -- also for an older Put, whose own reply is no longer known
      if args.requestId ≤ lastPut.requestId then (kv, .put lastPut.reply)
      else kv.executePut args
    | none => kv.executePut args
  | .unknown => (kv, .nil)

def snapshot (gob : Gob) : Bytes :=
  gob.encode { kvm := kv.kvm, lastPutByClientId := kv.lastPutByClientId }

/-- `none` is the fatal error of data that does not decode. -/
def restore (gob : Gob) (data : Bytes) : Option KVServer :=
  if data = [] then some kv
  else (gob.decode data).map fun snapshot =>
    { kvm := snapshot.kvm, lastPutByClientId := snapshot.lastPutByClientId }

@[simp] theorem restore_snapshot (gob : Gob) (other : KVServer) :
    other.restore gob (kv.snapshot gob) = some kv := by
  unfold restore snapshot
  rw [if_neg (gob.encode_nonempty _), gob.decode_encode]
  rfl

variable {kv}

theorem doOp_put_answered {args : PutArgs} {lastPut : LastPut}
    (found : kv.lastPutByClientId.lookup args.clientId = some lastPut)
    (old : args.requestId ≤ lastPut.requestId) :
    kv.doOp (.put args) = (kv, .put lastPut.reply) := by
  simp only [doOp, found, if_pos old]

theorem doOp_put_executed {args : PutArgs}
    (fresh : ∀ lastPut, kv.lastPutByClientId.lookup args.clientId = some lastPut →
      lastPut.requestId < args.requestId) :
    kv.doOp (.put args) = kv.executePut args := by
  cases found : kv.lastPutByClientId.lookup args.clientId with
  | none => simp only [doOp, found]
  | some lastPut =>
    have newer := fresh lastPut found
    simp only [doOp, found, if_neg (by omega : ¬args.requestId ≤ lastPut.requestId)]

/-- The write of a Put is that of the plain versioned map. -/
theorem write_plain (kv : KVServer) (args : PutArgs) :
    (kv.write args).1.view = (kv.kvm.view.put args.key args.value args.version).1 ∧
      (kv.write args).2.err = (kv.kvm.view.put args.key args.value args.version).2 := by
  unfold write KvMap.put
  cases found : kv.kvm.lookup args.key with
  | none =>
    have absent : kv.kvm.view args.key = none := found
    by_cases zero : args.version = 0
    · simp only [absent, if_pos zero, Table.view_insert, and_self]
    · simp only [absent, if_neg zero, and_self]
  | some v =>
    have held : kv.kvm.view args.key = some v := found
    by_cases same : v.version = args.version
    · simp only [held, if_pos same, Table.view_insert, and_self]
    · simp only [held, if_neg same, and_self]

end KVServer

end KvStore.KvRaft
