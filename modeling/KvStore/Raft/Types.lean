import Mathlib.Data.Fintype.Card
import Mathlib.Tactic.Common

set_option autoImplicit false

/-! The data of one Raft peer and of its RPCs. -/

namespace KvStore

variable {n : Nat} {C : Type}

abbrev Bytes := List UInt8

/-- A log entry; `none` is the nil command of a dummy entry. -/
structure LogEntry (C : Type) where
  term : Nat
  command : Option C
  deriving DecidableEq, Repr

/-- What `persist` encodes; `none` in `votedFor` is -1. -/
structure PersistedState (n : Nat) (C : Type) where
  currentTerm : Nat
  votedFor : Option (Fin n)
  log : List (LogEntry C)
  snapshotIndex : Nat
  deriving DecidableEq, Repr

/-- Stable storage. Nothing has been saved while `raftstate` is `none`; a nil and
an empty snapshot are the same. Encoding and decoding are taken to be inverse. -/
structure Persister (n : Nat) (C : Type) where
  raftstate : Option (PersistedState n C)
  snapshot : Bytes
  deriving DecidableEq, Repr

inductive State
  | follower
  | candidate
  | leader
  deriving DecidableEq, Repr

/-- A message on `applyCh`; exactly one of the two kinds. -/
inductive ApplyMsg (C : Type)
  | command (command : Option C) (commandIndex : Nat)
  | snapshot (data : Bytes) (snapshotTerm snapshotIndex : Nat)
  deriving DecidableEq, Repr

def ApplyMsg.index : ApplyMsg C → Nat
  | .command _ index => index
  | .snapshot _ _ index => index

/-- Where the applier goroutine stands: it reads a message under the lock, sends
it without the lock, and takes the lock again to update `lastApplied`. -/
inductive Applier (C : Type)
  | idle
  | sending (msg : ApplyMsg C)
  | sent (msg : ApplyMsg C)
  deriving DecidableEq, Repr

/-- The variables captured by the goroutines of one call of `startElection`. -/
structure Ballot where
  voteCount : Nat
  won : Bool
  deriving DecidableEq, Repr

/-- One peer. Timers and wake-up channels are left out: the goroutines they
pace may run at any time. `ballots` is indexed by the term of the election. -/
structure Raft (n : Nat) (C : Type) where
  persister : Persister n C
  currentTerm : Nat
  votedFor : Option (Fin n)
  log : List (LogEntry C)
  snapshotData : Bytes
  lastIncludedIndex : Nat
  commitIndex : Nat
  lastApplied : Nat
  state : State
  nextIndex : Fin n → Nat
  matchIndex : Fin n → Nat
  snapshotPending : Bool
  ballots : Nat → Ballot
  applier : Applier C

structure RequestVoteArgs (n : Nat) where
  term : Nat
  candidateId : Fin n
  lastLogIndex : Nat
  lastLogTerm : Nat
  deriving DecidableEq, Repr

structure RequestVoteReply where
  term : Nat
  voteGranted : Bool
  deriving DecidableEq, Repr

structure AppendEntriesArgs (n : Nat) (C : Type) where
  term : Nat
  leaderId : Fin n
  prevLogIndex : Nat
  prevLogTerm : Nat
  entries : List (LogEntry C)
  leaderCommit : Nat
  deriving DecidableEq, Repr

structure AppendEntriesReply where
  term : Nat
  success : Bool
  conflictTerm : Int
  conflictIndex : Nat
  deriving DecidableEq, Repr

structure InstallSnapshotArgs (n : Nat) where
  term : Nat
  leaderId : Fin n
  lastIncludedIndex : Nat
  lastIncludedTerm : Nat
  data : Bytes
  deriving DecidableEq, Repr

structure InstallSnapshotReply where
  term : Nat
  deriving DecidableEq, Repr

/-- What `Start` returns. -/
structure StartReply where
  index : Int
  term : Int
  isLeader : Bool
  deriving DecidableEq, Repr

end KvStore
