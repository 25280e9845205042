import KvStore.Raft.Types

set_option autoImplicit false

/-! The critical sections of one Raft peer. A function that may index its log
out of range returns in `Except`: the error is the state the process dies in. -/

namespace KvStore

variable {n : Nat} {C : Type}

namespace Raft

def lastLogIndex (rf : Raft n C) : Nat := rf.log.length + rf.lastIncludedIndex - 1

/-- The position of a logical index in `log`; negative positions are `none`. -/
def sliceIndex (rf : Raft n C) (i : Nat) : Option Nat :=
  if rf.lastIncludedIndex ≤ i then some (i - rf.lastIncludedIndex) else none

/-- `rf.Log[rf.sliceIndex(i)]` -/
def entryAt? (rf : Raft n C) (i : Nat) : Option (LogEntry C) :=
  (rf.sliceIndex i).bind (rf.log[·]?)

/-- An out-of-range access kills the process. -/
def orPanic {α : Type} (rf : Raft n C) : Option α → Except (Raft n C) α
  | some value => .ok value
  | none => .error rf

def entry (rf : Raft n C) (i : Nat) : Except (Raft n C) (LogEntry C) := rf.orPanic (rf.entryAt? i)

/-- `rf.Log[rf.sliceIndex(i):]` -/
def suffix? (rf : Raft n C) (i : Nat) : Option (List (LogEntry C)) :=
  (rf.sliceIndex i).bind fun k => if k ≤ rf.log.length then some (rf.log.drop k) else none

def lastLogTerm (rf : Raft n C) : Option Nat := rf.log.getLast?.map (·.term)

def persist (rf : Raft n C) : Raft n C :=
  { rf with
    persister :=
      { raftstate := some
          { currentTerm := rf.currentTerm
            votedFor := rf.votedFor
            log := rf.log
            snapshotIndex := rf.lastIncludedIndex }
        snapshot := rf.snapshotData } }

def readPersist (rf : Raft n C) (persister : Persister n C) : Raft n C :=
  match persister.raftstate with
  | none => rf
  | some raftState =>
    { rf with
      currentTerm := raftState.currentTerm
      votedFor := raftState.votedFor
      log := raftState.log
      lastIncludedIndex := raftState.snapshotIndex
      lastApplied := raftState.snapshotIndex
      commitIndex := raftState.snapshotIndex
      snapshotData := persister.snapshot }

/-- `Make`: a peer started on the given stable storage. -/
def make (persister : Persister n C) : Raft n C :=
  readPersist
    { persister := persister
      currentTerm := 0
      votedFor := none
      log := [{ term := 0, command := none }]
      snapshotData := []
      lastIncludedIndex := 0
      commitIndex := 0
      lastApplied := 0
      state := .follower
      nextIndex := fun _ => 0
      matchIndex := fun _ => 0
      snapshotPending := false
      ballots := fun _ => { voteCount := 0, won := false }
      applier := .idle }
    persister

def becomeFollowerWithTerm (rf : Raft n C) (term : Nat) : Raft n C :=
  persist { rf with state := .follower, currentTerm := term, votedFor := none }

/-- The service's `Snapshot(index, snapshot)`. -/
def snapshot (rf : Raft n C) (index : Nat) (data : Bytes) : Except (Raft n C) (Raft n C) :=
  if index ≤ rf.lastIncludedIndex then .ok rf
  else do
    let truncatedLog ← rf.orPanic (rf.suffix? index)
    return persist
      { rf with log := truncatedLog, lastIncludedIndex := index, snapshotData := data }

/-- Stepping down on an `AppendEntries` of a term that is not lower. -/
def heardLeader (rf : Raft n C) (term : Nat) : Raft n C :=
  if rf.currentTerm < term then rf.becomeFollowerWithTerm term
  else if rf.state = .candidate then { rf with state := .follower }
  else rf

/-- The backward scan for the first entry of the conflicting term. -/
def conflictStart (rf : Raft n C) (conflictTerm : Nat) : Nat → Nat
  | 0 => 0
  | i + 1 =>
    if rf.lastIncludedIndex < i + 1 ∧ (rf.entryAt? (i + 1)).map (·.term) = some conflictTerm then
      rf.conflictStart conflictTerm i
    else i + 1

/-- The consistency check: `none` is success, and a refusal carries its
`ConflictTerm` and `ConflictIndex`. -/
def checkPrev (rf : Raft n C) (args : AppendEntriesArgs n C) :
    Except (Raft n C) (Option (Int × Nat)) :=
  if args.prevLogIndex < rf.lastIncludedIndex then .ok (some (-1, rf.lastIncludedIndex + 1))
  else if rf.lastLogIndex < args.prevLogIndex then .ok (some (-1, rf.lastLogIndex + 1))
  else do
    let prev ← rf.entry args.prevLogIndex
    if args.prevLogTerm ≠ prev.term then
      return some (prev.term, rf.conflictStart prev.term args.prevLogIndex + 1)
    else return none

/-- The merge loop from logical index `j` on: it truncates at the first conflict
and returns the entries that remain to be appended. -/
def mergeEntries (rf : Raft n C) (j : Nat) :
    List (LogEntry C) → Except (Raft n C) (Raft n C × List (LogEntry C))
  | [] => .ok (rf, [])
  | entry :: rest =>
    if rf.lastLogIndex < j then .ok (rf, entry :: rest)
    else do
      let mine ← rf.entry j
      if entry.term ≠ mine.term then
        return ({ rf with log := rf.log.take (j - rf.lastIncludedIndex) }, entry :: rest)
      else rf.mergeEntries (j + 1) rest

def appendRemaining (rf : Raft n C) : List (LogEntry C) → Raft n C
  | [] => rf
  | entry :: rest => persist { rf with log := rf.log ++ entry :: rest }

def followCommit (rf : Raft n C) (leaderCommit : Nat) : Raft n C :=
  if rf.commitIndex < leaderCommit then
    { rf with commitIndex := min leaderCommit rf.lastLogIndex }
  else rf

def appendEntries (rf : Raft n C) (args : AppendEntriesArgs n C) :
    Except (Raft n C) (Raft n C × AppendEntriesReply) :=
  if args.term < rf.currentTerm then
    .ok (rf, { term := rf.currentTerm, success := false, conflictTerm := 0, conflictIndex := 0 })
  else do
    let rf := rf.heardLeader args.term
    match ← rf.checkPrev args with
    | some (conflictTerm, conflictIndex) =>
      return (rf, { term := rf.currentTerm, success := false, conflictTerm, conflictIndex })
    | none =>
      let (merged, remaining) ← rf.mergeEntries (args.prevLogIndex + 1) args.entries
      return ((merged.appendRemaining remaining).followCommit args.leaderCommit,
        { term := rf.currentTerm, success := true, conflictTerm := 0, conflictIndex := 0 })

/-- Replacing the log by the snapshot: the matching suffix is kept, anything else dropped. -/
def replaceLog (rf : Raft n C) (args : InstallSnapshotArgs n) : Raft n C :=
  if args.lastIncludedIndex ≤ rf.lastLogIndex ∧
      (rf.entryAt? args.lastIncludedIndex).map (·.term) = some args.lastIncludedTerm then
    { rf with
      snapshotData := args.data
      log := rf.log.drop (args.lastIncludedIndex - rf.lastIncludedIndex)
      lastIncludedIndex := args.lastIncludedIndex }
  else
    { rf with
      snapshotData := args.data
      log := [{ term := args.lastIncludedTerm, command := none }]
      lastIncludedIndex := args.lastIncludedIndex }

/-- The log replaced by the snapshot, and the snapshot announced to the applier
unless the service is already past it. -/
def installed (rf : Raft n C) (args : InstallSnapshotArgs n) : Raft n C :=
  let rf := rf.replaceLog args
  if rf.lastApplied < args.lastIncludedIndex then
    { rf with
      commitIndex := max args.lastIncludedIndex rf.commitIndex
      snapshotPending := true }
  else rf

/-- Stepping down for a higher term. -/
def raised (rf : Raft n C) (term : Nat) : Raft n C :=
  if rf.currentTerm < term then rf.becomeFollowerWithTerm term else rf

def installSnapshot (rf : Raft n C) (args : InstallSnapshotArgs n) :
    Raft n C × InstallSnapshotReply :=
  if args.term < rf.currentTerm then (rf, { term := rf.currentTerm })
  else
    let rf := rf.raised args.term
    if rf.lastIncludedIndex < args.lastIncludedIndex then
      (persist (rf.installed args), { term := rf.currentTerm })
    else (rf, { term := rf.currentTerm })

/-- The decision of `RequestVote`. A voter free to vote whose log is more recent
leaves the reply at its zero value. -/
def castVote (rf : Raft n C) (args : RequestVoteArgs n) :
    Except (Raft n C) (Raft n C × RequestVoteReply) :=
  if rf.currentTerm ≤ args.term ∧ (rf.votedFor = some args.candidateId ∨ rf.votedFor = none) then do
    let lastLogTerm ← rf.orPanic rf.lastLogTerm
    if lastLogTerm < args.lastLogTerm ∨
        (args.lastLogTerm = lastLogTerm ∧ rf.lastLogIndex ≤ args.lastLogIndex) then
      return (persist { rf with votedFor := some args.candidateId, state := .follower },
        { term := rf.currentTerm, voteGranted := true })
    else return (rf, { term := 0, voteGranted := false })
  else .ok (rf, { term := rf.currentTerm, voteGranted := false })

def requestVote (rf : Raft n C) (args : RequestVoteArgs n) :
    Except (Raft n C) (Raft n C × RequestVoteReply) :=
  (rf.raised args.term).castVote args

/-- `Start(command)`. -/
def start (rf : Raft n C) (command : Option C) : Raft n C × StartReply :=
  if rf.state = .leader then
    let rf := persist { rf with log := rf.log ++ [{ term := rf.currentTerm, command }] }
    (rf, { index := rf.lastLogIndex, term := rf.currentTerm, isLeader := true })
  else (rf, { index := -1, term := -1, isLeader := false })

def newAppendEntriesArgsFor (me : Fin n) (rf : Raft n C) (svrIndex : Fin n) :
    Except (Raft n C) (AppendEntriesArgs n C) := do
  let entries ← rf.orPanic (rf.suffix? (rf.nextIndex svrIndex))
  let prev ← rf.entry (rf.nextIndex svrIndex - 1)
  return {
    term := rf.currentTerm
    leaderId := me
    prevLogIndex := rf.nextIndex svrIndex - 1
    prevLogTerm := prev.term
    entries
    leaderCommit := rf.commitIndex }

def newInstallSnapshotArgs (me : Fin n) (rf : Raft n C) :
    Except (Raft n C) (InstallSnapshotArgs n) := do
  let dummy ← rf.entry rf.lastIncludedIndex
  return {
    term := rf.currentTerm
    leaderId := me
    lastIncludedIndex := rf.lastIncludedIndex
    lastIncludedTerm := dummy.term
    data := rf.snapshotData }

/-- The servers counted for index `N`: this one and every peer known to match. -/
def replicas (me : Fin n) (rf : Raft n C) (N : Nat) : Nat :=
  1 + (Finset.univ.filter fun j => j ≠ me ∧ N ≤ rf.matchIndex j).card

/-- The descending loop of `advanceCommitIndex`, at index `N`. -/
def advanceFrom (me : Fin n) (rf : Raft n C) : Nat → Except (Raft n C) (Raft n C)
  | 0 => .ok rf
  | N + 1 =>
    if N + 1 ≤ rf.commitIndex then .ok rf
    else do
      let entry ← rf.entry (N + 1)
      if entry.term ≠ rf.currentTerm then return rf
      else if n / 2 < replicas me rf (N + 1) then return { rf with commitIndex := N + 1 }
      else advanceFrom me rf N

def advanceCommitIndex (me : Fin n) (rf : Raft n C) : Except (Raft n C) (Raft n C) :=
  rf.advanceFrom me rf.lastLogIndex

/-- The reply of an `InstallSnapshot` sent to peer `i` by `replicateToFollower`. -/
def onInstallSnapshotReply (me : Fin n) (rf : Raft n C) (i : Fin n)
    (args : InstallSnapshotArgs n) (reply : InstallSnapshotReply) :
    Except (Raft n C) (Raft n C) :=
  if rf.currentTerm < reply.term then .ok (rf.becomeFollowerWithTerm reply.term)
  else if rf.matchIndex i < args.lastIncludedIndex then
    advanceCommitIndex me
      { rf with
        matchIndex := Function.update rf.matchIndex i args.lastIncludedIndex
        nextIndex := Function.update rf.nextIndex i (args.lastIncludedIndex + 1) }
  else .ok rf

/-- The backward scan of the leader's log for the follower's conflicting term,
from `j` down to the larger of the two lower bounds. -/
def scanConflict (rf : Raft n C) (reply : AppendEntriesReply) :
    Nat → Except (Raft n C) Nat
  | 0 =>
    if rf.lastIncludedIndex ≤ 0 ∧ reply.conflictIndex ≤ 0 then do
      let entry ← rf.entry 0
      return if (entry.term : Int) = reply.conflictTerm then 1 else reply.conflictIndex
    else return reply.conflictIndex
  | j + 1 =>
    if rf.lastIncludedIndex ≤ j + 1 ∧ reply.conflictIndex ≤ j + 1 then do
      let entry ← rf.entry (j + 1)
      if (entry.term : Int) = reply.conflictTerm then return j + 2
      else rf.scanConflict reply j
    else return reply.conflictIndex

/-- The reply of an `AppendEntries` sent to peer `i` by `replicateToFollower`. -/
def onAppendEntriesReply (me : Fin n) (rf : Raft n C) (i : Fin n)
    (args : AppendEntriesArgs n C) (reply : AppendEntriesReply) :
    Except (Raft n C) (Raft n C) :=
  if rf.currentTerm < reply.term then .ok (rf.becomeFollowerWithTerm reply.term)
  else if reply.success then
    let matched := args.prevLogIndex + args.entries.length
    if matched ≤ rf.matchIndex i then .ok rf
    else
      advanceCommitIndex me
        { rf with
          matchIndex := Function.update rf.matchIndex i matched
          nextIndex := Function.update rf.nextIndex i (matched + 1) }
  else if args.prevLogIndex ≤ rf.matchIndex i then .ok rf
  else do
    let nextIndex ←
      if reply.conflictTerm ≠ -1 then rf.scanConflict reply args.prevLogIndex
      else .ok reply.conflictIndex
    return { rf with
      nextIndex := Function.update rf.nextIndex i (max nextIndex (rf.matchIndex i + 1)) }

/-- The first critical section of `startElection`. -/
def startElection (me : Fin n) (rf : Raft n C) :
    Except (Raft n C) (Raft n C × RequestVoteArgs n) := do
  let rf := persist
    { rf with
      currentTerm := rf.currentTerm + 1
      state := .candidate
      votedFor := some me
      ballots := Function.update rf.ballots (rf.currentTerm + 1) { voteCount := 1, won := false } }
  let lastLogTerm ← rf.orPanic rf.lastLogTerm
  return (rf, {
    term := rf.currentTerm
    candidateId := me
    lastLogIndex := rf.lastLogIndex
    lastLogTerm })

/-- One more vote in the election of the given term. -/
def tallied (rf : Raft n C) (term : Nat) (won : Bool) : Raft n C :=
  { rf with
    ballots := Function.update rf.ballots term
      { voteCount := (rf.ballots term).voteCount + 1, won } }

/-- Becoming leader, with the volatile state of leaders reinitialised. -/
def elected (rf : Raft n C) : Raft n C :=
  { rf with
    state := .leader
    nextIndex := fun _ => rf.lastLogIndex + 1
    matchIndex := fun _ => 0 }

/-- The reply of a `RequestVote` of the election held with `args`. -/
def onRequestVoteReply (rf : Raft n C) (args : RequestVoteArgs n) (reply : RequestVoteReply) :
    Raft n C :=
  if rf.currentTerm < reply.term then rf.becomeFollowerWithTerm reply.term
  else if reply.voteGranted then
    if rf.state ≠ .candidate ∨ reply.term ≠ rf.currentTerm then rf
    else if n / 2 < (rf.ballots args.term).voteCount + 1 ∧ (rf.ballots args.term).won = false then
      (rf.tallied args.term true).elected
    else rf.tallied args.term (rf.ballots args.term).won
  else rf

/-- The applier's first critical section: it picks the next message. -/
def applierRead (rf : Raft n C) : Except (Raft n C) (Option (Raft n C)) :=
  match rf.applier with
  | .idle =>
    if rf.snapshotPending then do
      let dummy ← rf.entry rf.lastIncludedIndex
      return some { rf with
        snapshotPending := false
        applier := .sending (.snapshot rf.snapshotData dummy.term rf.lastIncludedIndex) }
    else if rf.lastApplied < rf.commitIndex then do
      let entry ← rf.entry (rf.lastApplied + 1)
      return some { rf with applier := .sending (.command entry.command (rf.lastApplied + 1)) }
    else return none
  | _ => return none

/-- The applier's last critical section: it records what it has sent. -/
def applierAck (rf : Raft n C) : Option (Raft n C) :=
  match rf.applier with
  | .sent (.command _ _) => some { rf with lastApplied := rf.lastApplied + 1, applier := .idle }
  | .sent (.snapshot _ _ index) => some { rf with lastApplied := index, applier := .idle }
  | _ => none

end Raft

end KvStore
