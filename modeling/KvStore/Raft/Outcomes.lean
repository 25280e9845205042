import KvStore.Raft.Slice

set_option autoImplicit false

/-! What each critical section can do to its peer, stated once per function. -/

namespace KvStore

open ReplicatedLog

variable {n : Nat} {C : Type}

namespace Raft

variable {rf dead : Raft n C}

/-- The state a critical section ends in, alive or dying. -/
def settled : Except (Raft n C) (Raft n C) → Raft n C
  | .ok rf => rf
  | .error rf => rf

/-- Nothing that elections and the log depend on has changed. -/
structure Quiet (rf rf' : Raft n C) : Prop where
  persister : rf'.persister = rf.persister
  currentTerm : rf'.currentTerm = rf.currentTerm
  votedFor : rf'.votedFor = rf.votedFor
  log : rf'.log = rf.log
  snapshotData : rf'.snapshotData = rf.snapshotData
  lastIncludedIndex : rf'.lastIncludedIndex = rf.lastIncludedIndex
  state : rf'.state = rf.state
  ballots : rf'.ballots = rf.ballots

theorem Quiet.refl (rf : Raft n C) : Quiet rf rf := ⟨rfl, rfl, rfl, rfl, rfl, rfl, rfl, rfl⟩

/-- Nothing that the applier depends on has changed, the commit index apart, and
anything saved has been saved with the snapshot the peer has. -/
structure Unmoved (rf rf' : Raft n C) : Prop where
  applier : rf'.applier = rf.applier
  lastApplied : rf'.lastApplied = rf.lastApplied
  lastIncludedIndex : rf'.lastIncludedIndex = rf.lastIncludedIndex
  snapshotPending : rf'.snapshotPending = rf.snapshotPending
  snapshotData : rf'.snapshotData = rf.snapshotData
  stored : rf'.persister = rf.persister ∨ rf'.persister.snapshot = rf'.snapshotData

theorem Unmoved.refl (rf : Raft n C) : Unmoved rf rf := ⟨rfl, rfl, rfl, rfl, rfl, Or.inl rfl⟩

theorem Unmoved.trans {rf' rf'' : Raft n C} (first : Unmoved rf rf') (second : Unmoved rf' rf'') :
    Unmoved rf rf'' :=
  ⟨second.applier.trans first.applier, second.lastApplied.trans first.lastApplied,
    second.lastIncludedIndex.trans first.lastIncludedIndex,
    second.snapshotPending.trans first.snapshotPending,
    second.snapshotData.trans first.snapshotData, by
      rcases second.stored with same | saved
      · rw [same, second.snapshotData]
        exact first.stored
      · exact Or.inr saved⟩

@[simp] theorem persist_log (rf : Raft n C) : rf.persist.log = rf.log := rfl

@[simp] theorem persist_lastIncludedIndex (rf : Raft n C) :
    rf.persist.lastIncludedIndex = rf.lastIncludedIndex := rfl

theorem orPanic_cases {α : Type} (rf : Raft n C) (found : Option α) :
    (∃ value, found = some value ∧ rf.orPanic found = .ok value) ∨
      found = none ∧ rf.orPanic found = .error rf := by
  cases found with
  | none => exact Or.inr ⟨rfl, rfl⟩
  | some value => exact Or.inl ⟨value, rfl, rfl⟩

theorem advanceFrom_cases (me : Fin n) (rf : Raft n C) (N : Nat) :
    (rf.advanceFrom me N = .ok rf ∨ rf.advanceFrom me N = .error rf) ∨
      ∃ k entry, rf.commitIndex < k ∧ k ≤ N ∧ rf.entryAt? k = some entry ∧
        entry.term = rf.currentTerm ∧ n / 2 < replicas me rf k ∧
        rf.advanceFrom me N = .ok { rf with commitIndex := k } := by
  induction N with
  | zero => exact Or.inl (Or.inl rfl)
  | succ N ih =>
    unfold advanceFrom
    split
    · exact Or.inl (Or.inl rfl)
    rename_i above
    rcases orPanic_cases rf (rf.entryAt? (N + 1)) with ⟨entry, found, done⟩ | ⟨_, died⟩
    · simp only [Raft.entry, done, bind, Except.bind, pure, Except.pure]
      split
      · exact Or.inl (Or.inl rfl)
      rename_i own
      split
      · rename_i enough
        exact Or.inr ⟨N + 1, entry, by omega, Nat.le_refl _, found, not_not.mp own, enough, rfl⟩
      · rcases ih with same | ⟨k, entry, higher, low, rest⟩
        · exact Or.inl same
        · exact Or.inr ⟨k, entry, higher, by omega, rest⟩
    · exact Or.inl (Or.inr (by simp only [Raft.entry, died, bind, Except.bind]))

theorem advanceCommitIndex_quiet (me : Fin n) (rf : Raft n C) :
    Quiet rf (settled (rf.advanceCommitIndex me)) := by
  unfold advanceCommitIndex
  rcases advanceFrom_cases me rf rf.lastLogIndex with (same | same) | ⟨k, _, _, _, _, _, _, done⟩
  · rw [same]
    exact .refl rf
  · rw [same]
    exact .refl rf
  · rw [done]
    exact ⟨rfl, rfl, rfl, rfl, rfl, rfl, rfl, rfl⟩

theorem scanConflict_error {reply : AppendEntriesReply} {j : Nat}
    (failed : rf.scanConflict reply j = .error dead) : dead = rf := by
  induction j with
  | zero =>
    unfold scanConflict at failed
    split at failed
    · rcases orPanic_cases rf (rf.entryAt? 0) with ⟨entry, _, done⟩ | ⟨_, died⟩
      · simp [Raft.entry, done, bind, Except.bind, pure, Except.pure] at failed
      · simpa [Raft.entry, died, bind, Except.bind, eq_comm] using failed
    · cases failed
  | succ j ih =>
    unfold scanConflict at failed
    split at failed
    · rcases orPanic_cases rf (rf.entryAt? (j + 1)) with ⟨entry, _, done⟩ | ⟨_, died⟩
      · simp only [Raft.entry, done, bind, Except.bind, pure, Except.pure] at failed
        split at failed
        · cases failed
        · exact ih failed
      · simpa [Raft.entry, died, bind, Except.bind, eq_comm] using failed
    · cases failed

/-- How the reply of a replication RPC may change the caller. -/
inductive ReplyOutcome (rf : Raft n C) : Except (Raft n C) (Raft n C) → Prop
  | stepDown (term : Nat) (higher : rf.currentTerm < term) :
      ReplyOutcome rf (.ok (rf.becomeFollowerWithTerm term))
  | quiet (result : Except (Raft n C) (Raft n C)) (quiet : Quiet rf (settled result)) :
      ReplyOutcome rf result

theorem onInstallSnapshotReply_outcome (me : Fin n) (rf : Raft n C) (i : Fin n)
    (args : InstallSnapshotArgs n) (reply : InstallSnapshotReply) :
    ReplyOutcome rf (rf.onInstallSnapshotReply me i args reply) := by
  unfold onInstallSnapshotReply
  split
  · exact .stepDown _ ‹_›
  split
  · refine .quiet _ ?_
    have quiet := advanceCommitIndex_quiet me { rf with
      matchIndex := Function.update rf.matchIndex i args.lastIncludedIndex
      nextIndex := Function.update rf.nextIndex i (args.lastIncludedIndex + 1) }
    exact ⟨quiet.1, quiet.2, quiet.3, quiet.4, quiet.5, quiet.6, quiet.7, quiet.8⟩
  · exact .quiet _ (.refl rf)

theorem onAppendEntriesReply_outcome (me : Fin n) (rf : Raft n C) (i : Fin n)
    (args : AppendEntriesArgs n C) (reply : AppendEntriesReply) :
    ReplyOutcome rf (rf.onAppendEntriesReply me i args reply) := by
  unfold onAppendEntriesReply
  split
  · exact .stepDown _ ‹_›
  split
  · dsimp only
    split
    · exact .quiet _ (.refl rf)
    · refine .quiet _ ?_
      have quiet := advanceCommitIndex_quiet me { rf with
        matchIndex := Function.update rf.matchIndex i (args.prevLogIndex + args.entries.length)
        nextIndex := Function.update rf.nextIndex i (args.prevLogIndex + args.entries.length + 1) }
      exact ⟨quiet.1, quiet.2, quiet.3, quiet.4, quiet.5, quiet.6, quiet.7, quiet.8⟩
  split
  · exact .quiet _ (.refl rf)
  refine .quiet _ ?_
  split
  · cases scanned : rf.scanConflict reply args.prevLogIndex with
    | ok next => exact ⟨rfl, rfl, rfl, rfl, rfl, rfl, rfl, rfl⟩
    | error dead =>
      rw [scanConflict_error scanned]
      exact .refl rf
  · exact ⟨rfl, rfl, rfl, rfl, rfl, rfl, rfl, rfl⟩

theorem advanceCommitIndex_unmoved (me : Fin n) (rf : Raft n C) :
    Unmoved rf (settled (rf.advanceCommitIndex me)) := by
  unfold advanceCommitIndex
  rcases advanceFrom_cases me rf rf.lastLogIndex with (same | same) | ⟨k, _, _, _, _, _, _, done⟩
  · rw [same]
    exact .refl rf
  · rw [same]
    exact .refl rf
  · rw [done]
    exact ⟨rfl, rfl, rfl, rfl, rfl, Or.inl rfl⟩

/-- Replies leave the applier alone. -/
theorem onInstallSnapshotReply_unmoved (me : Fin n) (rf : Raft n C) (i : Fin n)
    (args : InstallSnapshotArgs n) (reply : InstallSnapshotReply) :
    Unmoved rf (settled (rf.onInstallSnapshotReply me i args reply)) := by
  unfold onInstallSnapshotReply
  split
  · exact ⟨rfl, rfl, rfl, rfl, rfl, Or.inr rfl⟩
  split
  · have advanced := advanceCommitIndex_unmoved me { rf with
      matchIndex := Function.update rf.matchIndex i args.lastIncludedIndex
      nextIndex := Function.update rf.nextIndex i (args.lastIncludedIndex + 1) }
    exact ⟨advanced.1, advanced.2, advanced.3, advanced.4, advanced.5, advanced.6⟩
  · exact .refl rf

theorem onAppendEntriesReply_unmoved (me : Fin n) (rf : Raft n C) (i : Fin n)
    (args : AppendEntriesArgs n C) (reply : AppendEntriesReply) :
    Unmoved rf (settled (rf.onAppendEntriesReply me i args reply)) := by
  unfold onAppendEntriesReply
  split
  · exact ⟨rfl, rfl, rfl, rfl, rfl, Or.inr rfl⟩
  split
  · dsimp only
    split
    · exact .refl rf
    · have advanced := advanceCommitIndex_unmoved me { rf with
        matchIndex := Function.update rf.matchIndex i (args.prevLogIndex + args.entries.length)
        nextIndex := Function.update rf.nextIndex i (args.prevLogIndex + args.entries.length + 1) }
      exact ⟨advanced.1, advanced.2, advanced.3, advanced.4, advanced.5, advanced.6⟩
  split
  · exact .refl rf
  split
  · cases scanned : rf.scanConflict reply args.prevLogIndex with
    | ok next => exact ⟨rfl, rfl, rfl, rfl, rfl, Or.inl rfl⟩
    | error dead =>
      rw [scanConflict_error scanned]
      exact .refl rf
  · exact ⟨rfl, rfl, rfl, rfl, rfl, Or.inl rfl⟩

theorem newInstallSnapshotArgs_error {me : Fin n}
    (failed : rf.newInstallSnapshotArgs me = .error dead) : dead = rf := by
  rcases orPanic_cases rf (rf.entryAt? rf.lastIncludedIndex) with ⟨dummy, _, done⟩ | ⟨_, died⟩
  · simp [newInstallSnapshotArgs, Raft.entry, done, bind, Except.bind, pure, Except.pure] at failed
  · simpa [newInstallSnapshotArgs, Raft.entry, died, bind, Except.bind, eq_comm] using failed

theorem newInstallSnapshotArgs_ok {me : Fin n} {request : InstallSnapshotArgs n}
    (built : rf.newInstallSnapshotArgs me = .ok request) :
    ∃ dummy, rf.entryAt? rf.lastIncludedIndex = some dummy ∧
      { term := rf.currentTerm
        leaderId := me
        lastIncludedIndex := rf.lastIncludedIndex
        lastIncludedTerm := dummy.term
        data := rf.snapshotData } = request := by
  rcases orPanic_cases rf (rf.entryAt? rf.lastIncludedIndex) with ⟨dummy, found, done⟩ | ⟨_, died⟩
  · refine ⟨dummy, found, ?_⟩
    simpa [newInstallSnapshotArgs, Raft.entry, done, bind, Except.bind, pure, Except.pure]
      using built
  · simp [newInstallSnapshotArgs, Raft.entry, died, bind, Except.bind] at built

theorem newAppendEntriesArgsFor_error {me i : Fin n}
    (failed : rf.newAppendEntriesArgsFor me i = .error dead) : dead = rf := by
  rcases orPanic_cases rf (rf.suffix? (rf.nextIndex i)) with ⟨entries, _, cut⟩ | ⟨_, died⟩
  · rcases orPanic_cases rf (rf.entryAt? (rf.nextIndex i - 1)) with ⟨prev, _, done⟩ | ⟨_, died⟩
    · simp [newAppendEntriesArgsFor, Raft.entry, cut, done, bind, Except.bind, pure,
        Except.pure] at failed
    · simpa [newAppendEntriesArgsFor, Raft.entry, cut, died, bind, Except.bind, eq_comm]
        using failed
  · simpa [newAppendEntriesArgsFor, died, bind, Except.bind, eq_comm] using failed

/-- Building a request changes nothing, also where it panics. -/
theorem newArgs_error {me i : Fin n}
    (failed : rf.newInstallSnapshotArgs me = .error dead ∨
      rf.newAppendEntriesArgsFor me i = .error dead) : dead = rf := by
  rcases failed with snapshot | entries
  · exact newInstallSnapshotArgs_error snapshot
  · exact newAppendEntriesArgsFor_error entries

theorem newAppendEntriesArgsFor_ok {me i : Fin n} {args : AppendEntriesArgs n C}
    (built : rf.newAppendEntriesArgsFor me i = .ok args) :
    ∃ prev entries, rf.entryAt? (rf.nextIndex i - 1) = some prev ∧
      rf.suffix? (rf.nextIndex i) = some entries ∧
      { term := rf.currentTerm
        leaderId := me
        prevLogIndex := rf.nextIndex i - 1
        prevLogTerm := prev.term
        entries
        leaderCommit := rf.commitIndex } = args := by
  rcases orPanic_cases rf (rf.suffix? (rf.nextIndex i)) with ⟨entries, suffix, cut⟩ | ⟨_, died⟩
  · rcases orPanic_cases rf (rf.entryAt? (rf.nextIndex i - 1)) with ⟨prev, found, done⟩ | ⟨_, died⟩
    · refine ⟨prev, entries, found, suffix, ?_⟩
      simpa [newAppendEntriesArgsFor, Raft.entry, cut, done, bind, Except.bind, pure, Except.pure]
        using built
    · simp [newAppendEntriesArgsFor, Raft.entry, cut, died, bind, Except.bind] at built
  · simp [newAppendEntriesArgsFor, died, bind, Except.bind] at built

/-- What a leader ships from an index above its compaction point is the rest of its log. -/
theorem suffix?_retained {logical entries : List (LogEntry C)}
    (slice : Slice rf.log rf.lastIncludedIndex logical) {i : Nat}
    (above : rf.lastIncludedIndex < i) (suffix : rf.suffix? i = some entries) :
    entries = logical.drop i := by
  have low : rf.lastIncludedIndex ≤ i := by omega
  simp only [suffix?, sliceIndex, low, ↓reduceIte, Option.bind_some] at suffix
  split at suffix
  · obtain ⟨k, rfl⟩ : ∃ k, i = rf.lastIncludedIndex + 1 + k :=
      ⟨i - rf.lastIncludedIndex - 1, by omega⟩
    rw [← Option.some.inj suffix, ← List.drop_drop, ← slice.tail, ← List.drop_one, List.drop_drop,
      show rf.lastIncludedIndex + 1 + k - rf.lastIncludedIndex = 1 + k by omega]
  · cases suffix

/-- What `AppendEntries` does: it refuses an old term, fails the consistency
check, dies on an index out of range, or merges the entries. -/
inductive AppendOutcome (rf : Raft n C) (args : AppendEntriesArgs n C) :
    Except (Raft n C) (Raft n C × AppendEntriesReply) → Prop
  | stale (reply : AppendEntriesReply) (old : args.term < rf.currentTerm)
      (refused : reply.success = false) : AppendOutcome rf args (.ok (rf, reply))
  | refused (reply : AppendEntriesReply) (current : rf.currentTerm ≤ args.term)
      (refused : reply.success = false) :
      AppendOutcome rf args (.ok (rf.heardLeader args.term, reply))
  | dead (current : rf.currentTerm ≤ args.term) :
      AppendOutcome rf args (.error (rf.heardLeader args.term))
  | merged (reply : AppendEntriesReply) (prev : LogEntry C) (merged : Raft n C)
      (remaining : List (LogEntry C)) (current : rf.currentTerm ≤ args.term)
      (found : (rf.heardLeader args.term).entryAt? args.prevLogIndex = some prev)
      (same : prev.term = args.prevLogTerm)
      (merge : (rf.heardLeader args.term).mergeEntries (args.prevLogIndex + 1) args.entries =
        .ok (merged, remaining))
      (term : reply.term = args.term) :
      AppendOutcome rf args
        (.ok ((merged.appendRemaining remaining).followCommit args.leaderCommit, reply))

@[simp] theorem heardLeader_log (rf : Raft n C) (t : Nat) : (rf.heardLeader t).log = rf.log := by
  unfold heardLeader
  split
  · rfl
  split <;> rfl

@[simp] theorem heardLeader_lastIncludedIndex (rf : Raft n C) (t : Nat) :
    (rf.heardLeader t).lastIncludedIndex = rf.lastIncludedIndex := by
  unfold heardLeader
  split
  · rfl
  split <;> rfl

@[simp] theorem heardLeader_ballots (rf : Raft n C) (t : Nat) :
    (rf.heardLeader t).ballots = rf.ballots := by
  unfold heardLeader
  split
  · rfl
  split <;> rfl

theorem heardLeader_term {t : Nat} (current : rf.currentTerm ≤ t) :
    (rf.heardLeader t).currentTerm = t := by
  unfold heardLeader
  split
  · rfl
  have same : rf.currentTerm = t := by omega
  split
  · exact same
  · exact same

@[simp] theorem raised_ballots (rf : Raft n C) (t : Nat) : (rf.raised t).ballots = rf.ballots := by
  unfold raised
  split <;> rfl

/-- `checkPrev` leaves the peer alone and passes only on the entry asked for. -/
theorem checkPrev_cases (rf : Raft n C) (args : AppendEntriesArgs n C) :
    (∃ conflict, rf.checkPrev args = .ok (some conflict)) ∨ rf.checkPrev args = .error rf ∨
      ∃ prev, rf.entryAt? args.prevLogIndex = some prev ∧ prev.term = args.prevLogTerm ∧
        rf.checkPrev args = .ok none := by
  unfold checkPrev
  split
  · exact Or.inl ⟨_, rfl⟩
  split
  · exact Or.inl ⟨_, rfl⟩
  rcases orPanic_cases rf (rf.entryAt? args.prevLogIndex) with ⟨prev, found, done⟩ | ⟨_, died⟩
  · simp only [Raft.entry, done, bind, Except.bind, pure, Except.pure]
    split
    · exact Or.inl ⟨_, rfl⟩
    · rename_i same
      exact Or.inr (Or.inr ⟨prev, found, (not_not.mp same).symm, rfl⟩)
  · exact Or.inr (Or.inl (by simp only [Raft.entry, died, bind, Except.bind]))

theorem mergeEntries_error {j : Nat} {entries : List (LogEntry C)}
    (failed : rf.mergeEntries j entries = .error dead) : dead = rf := by
  induction entries generalizing j with
  | nil => cases failed
  | cons entry rest ih =>
    unfold mergeEntries at failed
    split at failed
    · cases failed
    rcases orPanic_cases rf (rf.entryAt? j) with ⟨mine, _, done⟩ | ⟨_, died⟩
    · simp only [Raft.entry, done, bind, Except.bind, pure, Except.pure] at failed
      split at failed
      · cases failed
      · exact ih failed
    · simpa [Raft.entry, died, bind, Except.bind, eq_comm] using failed

/-- Merging touches nothing but the log, and saves it if it has changed. -/
theorem mergeEntries_relogs {j : Nat} {entries remaining : List (LogEntry C)} {merged : Raft n C}
    (done : rf.mergeEntries j entries = .ok (merged, remaining)) :
    merged.appendRemaining remaining = rf ∨
      ∃ log, merged.appendRemaining remaining = persist { rf with log } := by
  induction entries generalizing j with
  | nil =>
    obtain ⟨rfl, rfl⟩ : rf = merged ∧ [] = remaining := by simpa [mergeEntries] using done
    exact Or.inl rfl
  | cons entry rest ih =>
    unfold mergeEntries at done
    split at done
    · obtain ⟨rfl, rfl⟩ : rf = merged ∧ entry :: rest = remaining := by simpa using done
      exact Or.inr ⟨_, rfl⟩
    rcases orPanic_cases rf (rf.entryAt? j) with ⟨mine, _, read⟩ | ⟨_, died⟩
    · simp only [Raft.entry, read, bind, Except.bind, pure, Except.pure] at done
      split at done
      · obtain ⟨rfl, rfl⟩ := Prod.mk.inj (Except.ok.inj done)
        exact Or.inr ⟨_, rfl⟩
      · exact ih done
    · simp only [Raft.entry, died, bind, Except.bind] at done
      cases done

theorem appendEntries_outcome (rf : Raft n C) (args : AppendEntriesArgs n C) :
    AppendOutcome rf args (rf.appendEntries args) := by
  unfold appendEntries
  split
  · exact .stale _ ‹_› rfl
  rename_i recent
  have current : rf.currentTerm ≤ args.term := by omega
  rcases checkPrev_cases (rf.heardLeader args.term) args with
    ⟨conflict, refused⟩ | died | ⟨prev, found, same, passed⟩
  · simp only [refused, bind, Except.bind, pure, Except.pure]
    exact .refused _ current rfl
  · simp only [died, bind, Except.bind]
    exact .dead current
  · simp only [passed, bind, Except.bind, pure, Except.pure]
    cases merge : (rf.heardLeader args.term).mergeEntries (args.prevLogIndex + 1) args.entries with
    | error dead =>
      rw [mergeEntries_error merge]
      exact .dead current
    | ok result =>
      exact .merged _ prev result.1 result.2 current found same merge (heardLeader_term current)

theorem raised_term {t : Nat} (current : rf.currentTerm ≤ t) : (rf.raised t).currentTerm = t := by
  unfold raised
  split
  · rfl
  · omega

@[simp] theorem raised_log (rf : Raft n C) (t : Nat) : (rf.raised t).log = rf.log := by
  unfold raised
  split <;> rfl

@[simp] theorem raised_lastIncludedIndex (rf : Raft n C) (t : Nat) :
    (rf.raised t).lastIncludedIndex = rf.lastIncludedIndex := by
  unfold raised
  split <;> rfl

@[simp] theorem raised_commitIndex (rf : Raft n C) (t : Nat) :
    (rf.raised t).commitIndex = rf.commitIndex := by
  unfold raised
  split <;> rfl

inductive InstallOutcome (rf : Raft n C) (args : InstallSnapshotArgs n) :
    Raft n C × InstallSnapshotReply → Prop
  | stale (old : args.term < rf.currentTerm) :
      InstallOutcome rf args (rf, { term := rf.currentTerm })
  | kept (current : rf.currentTerm ≤ args.term)
      (covered : args.lastIncludedIndex ≤ rf.lastIncludedIndex) :
      InstallOutcome rf args (rf.raised args.term, { term := args.term })
  | installed (current : rf.currentTerm ≤ args.term)
      (ahead : rf.lastIncludedIndex < args.lastIncludedIndex) :
      InstallOutcome rf args
        (persist ((rf.raised args.term).installed args), { term := args.term })

theorem installSnapshot_outcome (rf : Raft n C) (args : InstallSnapshotArgs n) :
    InstallOutcome rf args (rf.installSnapshot args) := by
  unfold installSnapshot
  split
  · exact .stale ‹_›
  rename_i recent
  have current : rf.currentTerm ≤ args.term := by omega
  dsimp only
  rw [raised_term current, raised_lastIncludedIndex]
  split
  · exact .installed current ‹_›
  · exact .kept current (by omega)

theorem followCommit_quiet (rf : Raft n C) (leaderCommit : Nat) :
    Quiet rf (rf.followCommit leaderCommit) := by
  unfold followCommit
  split
  · exact ⟨rfl, rfl, rfl, rfl, rfl, rfl, rfl, rfl⟩
  · exact .refl rf

/-- Apart from the log, the snapshot and what the applier has to do with them,
installing a snapshot leaves the peer as it was. -/
theorem installed_keeps (rf : Raft n C) (args : InstallSnapshotArgs n) :
    (rf.installed args).currentTerm = rf.currentTerm ∧
      (rf.installed args).votedFor = rf.votedFor ∧ (rf.installed args).state = rf.state ∧
      (rf.installed args).ballots = rf.ballots ∧
      (rf.installed args).log = (rf.replaceLog args).log ∧
      (rf.installed args).lastIncludedIndex = args.lastIncludedIndex := by
  have replaced : (rf.replaceLog args).currentTerm = rf.currentTerm ∧
      (rf.replaceLog args).votedFor = rf.votedFor ∧ (rf.replaceLog args).state = rf.state ∧
      (rf.replaceLog args).ballots = rf.ballots ∧
      (rf.replaceLog args).lastIncludedIndex = args.lastIncludedIndex := by
    unfold replaceLog
    split <;> exact ⟨rfl, rfl, rfl, rfl, rfl⟩
  obtain ⟨term, vote, state, ballots, index⟩ := replaced
  unfold installed
  dsimp only
  split <;> exact ⟨term, vote, state, ballots, rfl, index⟩

theorem le_raised_term (rf : Raft n C) (t : Nat) : t ≤ (rf.raised t).currentTerm := by
  unfold raised
  split
  · exact Nat.le_refl _
  · omega

/-- What `RequestVote` does once the voter has caught up with the term. -/
inductive VoteOutcome (rf : Raft n C) (args : RequestVoteArgs n) :
    Except (Raft n C) (Raft n C × RequestVoteReply) → Prop
  | refused (reply : RequestVoteReply) (refused : reply.voteGranted = false) :
      VoteOutcome rf args (.ok (rf, reply))
  | dead : VoteOutcome rf args (.error rf)
  | granted (lastLogTerm : Nat) (current : rf.currentTerm ≤ args.term)
      (free : rf.votedFor = some args.candidateId ∨ rf.votedFor = none)
      (last : rf.lastLogTerm = some lastLogTerm)
      (recent : lastLogTerm < args.lastLogTerm ∨
        args.lastLogTerm = lastLogTerm ∧ rf.lastLogIndex ≤ args.lastLogIndex) :
      VoteOutcome rf args (.ok
        (persist { rf with votedFor := some args.candidateId, state := .follower },
          { term := rf.currentTerm, voteGranted := true }))

theorem castVote_outcome (rf : Raft n C) (args : RequestVoteArgs n) :
    VoteOutcome rf args (rf.castVote args) := by
  unfold castVote
  split
  · rename_i open_
    rcases orPanic_cases rf rf.lastLogTerm with ⟨last, found, done⟩ | ⟨_, died⟩
    · simp only [done, bind, Except.bind, pure, Except.pure]
      split
      · exact .granted last open_.1 open_.2 found ‹_›
      · exact .refused _ rfl
    · simp only [died, bind, Except.bind]
      exact .dead
  · exact .refused _ rfl

/-- How the reply of a `RequestVote` may change the candidate. -/
inductive BallotOutcome (rf : Raft n C) (args : RequestVoteArgs n) (reply : RequestVoteReply) :
    Raft n C → Prop
  | stepDown (higher : rf.currentTerm < reply.term) :
      BallotOutcome rf args reply (rf.becomeFollowerWithTerm reply.term)
  | ignored : BallotOutcome rf args reply rf
  | counted (won : Bool) (granted : reply.voteGranted = true) (standing : rf.state = .candidate)
      (current : reply.term = rf.currentTerm) :
      BallotOutcome rf args reply (rf.tallied args.term won)
  | elected (granted : reply.voteGranted = true) (standing : rf.state = .candidate)
      (current : reply.term = rf.currentTerm)
      (enough : n / 2 < (rf.ballots args.term).voteCount + 1) :
      BallotOutcome rf args reply (rf.tallied args.term true).elected

theorem onRequestVoteReply_outcome (rf : Raft n C) (args : RequestVoteArgs n)
    (reply : RequestVoteReply) :
    BallotOutcome rf args reply (rf.onRequestVoteReply args reply) := by
  unfold onRequestVoteReply
  split
  · exact .stepDown ‹_›
  split
  · rename_i granted
    split
    · exact .ignored
    · rename_i valid
      rw [not_or, not_not, not_not] at valid
      split
      · rename_i wins
        exact .elected granted valid.1 valid.2 wins.1
      · exact .counted _ granted valid.1 valid.2
  · exact .ignored

/-- The candidate's state once it has voted for itself. -/
def standing (me : Fin n) (rf : Raft n C) : Raft n C :=
  persist { rf with
    currentTerm := rf.currentTerm + 1
    state := .candidate
    votedFor := some me
    ballots := Function.update rf.ballots (rf.currentTerm + 1) { voteCount := 1, won := false } }

theorem startElection_cases (me : Fin n) (rf : Raft n C) :
    rf.startElection me = .error (rf.standing me) ∨
      ∃ t, rf.lastLogTerm = some t ∧ rf.startElection me = .ok (rf.standing me,
        { term := rf.currentTerm + 1, candidateId := me, lastLogIndex := rf.lastLogIndex,
          lastLogTerm := t }) := by
  have same : (rf.standing me).lastLogTerm = rf.lastLogTerm := rfl
  rcases orPanic_cases (rf.standing me) (rf.standing me).lastLogTerm with
    ⟨t, found, done⟩ | ⟨_, died⟩
  · refine Or.inr ⟨t, same ▸ found, ?_⟩
    change ((rf.standing me).orPanic (rf.standing me).lastLogTerm).bind _ = _
    rw [done]
    rfl
  · refine Or.inl ?_
    change ((rf.standing me).orPanic (rf.standing me).lastLogTerm).bind _ = _
    rw [died]
    rfl

/-- The service's snapshot is ignored, kills the peer, or cuts its log. -/
theorem snapshot_cases (rf : Raft n C) (index : Nat) (data : Bytes) :
    rf.snapshot index data = .ok rf ∨ rf.snapshot index data = .error rf ∨
      rf.lastIncludedIndex < index ∧ index - rf.lastIncludedIndex ≤ rf.log.length ∧
        rf.snapshot index data = .ok (persist { rf with
          log := rf.log.drop (index - rf.lastIncludedIndex)
          lastIncludedIndex := index
          snapshotData := data }) := by
  unfold snapshot
  split
  · exact Or.inl rfl
  rename_i above
  have low : rf.lastIncludedIndex ≤ index := by omega
  refine Or.inr ?_
  simp only [suffix?, sliceIndex, low, ↓reduceIte, Option.bind_some]
  split
  · rename_i inside
    exact Or.inr ⟨by omega, inside, rfl⟩
  · exact Or.inl rfl

theorem applierRead_cases (rf : Raft n C) :
    rf.applierRead = .error rf ∨ rf.applierRead = .ok none ∨
    (rf.applier = .idle ∧ rf.snapshotPending = true ∧
      ∃ dummy, rf.entryAt? rf.lastIncludedIndex = some dummy ∧
        rf.applierRead = .ok (some { rf with
          snapshotPending := false
          applier := .sending (.snapshot rf.snapshotData dummy.term rf.lastIncludedIndex) })) ∨
    (rf.applier = .idle ∧ rf.snapshotPending = false ∧ rf.lastApplied < rf.commitIndex ∧
      ∃ entry, rf.entryAt? (rf.lastApplied + 1) = some entry ∧
        rf.applierRead = .ok (some { rf with
          applier := .sending (.command entry.command (rf.lastApplied + 1)) })) := by
  unfold applierRead
  split
  · rename_i idle
    split
    · rename_i pending
      rcases orPanic_cases rf (rf.entryAt? rf.lastIncludedIndex) with
        ⟨dummy, found, done⟩ | ⟨_, died⟩
      · refine Or.inr (Or.inr (Or.inl ⟨idle, pending, dummy, found, ?_⟩))
        simp only [Raft.entry, done, bind, Except.bind, pure, Except.pure]
      · exact Or.inl (by simp only [Raft.entry, died, bind, Except.bind])
    · rename_i calm
      split
      · rename_i behind
        rcases orPanic_cases rf (rf.entryAt? (rf.lastApplied + 1)) with
          ⟨entry, found, done⟩ | ⟨_, died⟩
        · refine Or.inr (Or.inr (Or.inr ⟨idle, by simpa using calm, behind, entry, found, ?_⟩))
          simp only [Raft.entry, done, bind, Except.bind, pure, Except.pure]
        · exact Or.inl (by simp only [Raft.entry, died, bind, Except.bind])
      · exact Or.inr (Or.inl rfl)
  · exact Or.inr (Or.inl rfl)

end Raft

/-- The applier dies, or reads the snapshot that is pending, or else the next entry. -/
theorem Cluster.applierRead_inversion {σ σ' : Cluster n C} {s : Fin n}
    (moved : σ.applierRead s = some σ') :
    σ' = σ.restart s (σ.nodes s).persister ∨
    ((σ.nodes s).applier = .idle ∧ (σ.nodes s).snapshotPending = true ∧
      ∃ dummy, (σ.nodes s).entryAt? (σ.nodes s).lastIncludedIndex = some dummy ∧
        σ' = σ.setNode s { σ.nodes s with
          snapshotPending := false
          applier := .sending
            (.snapshot (σ.nodes s).snapshotData dummy.term (σ.nodes s).lastIncludedIndex) }) ∨
    ((σ.nodes s).applier = .idle ∧ (σ.nodes s).snapshotPending = false ∧
      (σ.nodes s).lastApplied < (σ.nodes s).commitIndex ∧
      ∃ entry, (σ.nodes s).entryAt? ((σ.nodes s).lastApplied + 1) = some entry ∧
        σ' = σ.setNode s { σ.nodes s with
          applier := .sending (.command entry.command ((σ.nodes s).lastApplied + 1)) }) := by
  unfold Cluster.applierRead at moved
  rcases (σ.nodes s).applierRead_cases with
    died | idle | ⟨idle, pending, dummy, found, read⟩ | ⟨idle, calm, below, entry, found, read⟩
  · rw [died] at moved
    exact Or.inl (Option.some.inj moved).symm
  · rw [idle] at moved
    cases moved
  · rw [read] at moved
    exact Or.inr (Or.inl ⟨idle, pending, dummy, found, (Option.some.inj moved).symm⟩)
  · rw [read] at moved
    exact Or.inr (Or.inr ⟨idle, calm, below, entry, found, (Option.some.inj moved).symm⟩)

end KvStore
