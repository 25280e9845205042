import KvStore.Raft.Redelivery

set_option autoImplicit false

/-! Log compaction is transparent: a peer that has cut its log at `index` answers
as it would have with the longer log. -/

namespace KvStore

variable {n : Nat} {C : Type}

namespace Raft

/-- `compacted` is `rf` with its log cut at `index`. -/
structure CutAt (index : Nat) (rf compacted : Raft n C) : Prop where
  above : rf.lastIncludedIndex < index
  below : index ≤ rf.lastLogIndex
  lastIncludedIndex : compacted.lastIncludedIndex = index
  log : compacted.log = rf.log.drop (index - rf.lastIncludedIndex)
  currentTerm : compacted.currentTerm = rf.currentTerm
  votedFor : compacted.votedFor = rf.votedFor
  state : compacted.state = rf.state
  commitIndex : compacted.commitIndex = rf.commitIndex

variable {index : Nat} {rf compacted : Raft n C}

/-- `Snapshot` at an index of the log cuts it there. -/
theorem snapshot_cutAt (data : Bytes) (above : rf.lastIncludedIndex < index)
    (below : index ≤ rf.lastLogIndex) :
    ∃ compacted, rf.snapshot index data = .ok compacted ∧ CutAt index rf compacted := by
  have low : rf.lastIncludedIndex ≤ index := by omega
  have inside : index - rf.lastIncludedIndex ≤ rf.log.length := by
    unfold lastLogIndex at below
    omega
  refine ⟨persist { rf with
      log := rf.log.drop (index - rf.lastIncludedIndex)
      lastIncludedIndex := index
      snapshotData := data }, ?_, above, below, rfl, rfl, rfl, rfl, rfl, rfl⟩
  rw [snapshot, if_neg (by omega)]
  simp only [suffix?, sliceIndex, low, ↓reduceIte, Option.bind_some, inside, orPanic, bind,
    Except.bind, pure, Except.pure]

namespace CutAt

section

variable (cut : CutAt index rf compacted)

include cut

theorem length_pos : index - rf.lastIncludedIndex < rf.log.length := by
  have above := cut.above
  have below := cut.below
  unfold Raft.lastLogIndex at below
  omega

theorem lastLogIndex : compacted.lastLogIndex = rf.lastLogIndex := by
  have inside := cut.length_pos
  have above := cut.above
  unfold Raft.lastLogIndex
  rw [cut.log, cut.lastIncludedIndex, List.length_drop]
  omega

theorem entryAt? {i : Nat} (retained : index ≤ i) : compacted.entryAt? i = rf.entryAt? i := by
  have above := cut.above
  rw [entryAt?_eq (by rw [cut.lastIncludedIndex]; exact retained), entryAt?_eq (by omega),
    cut.log, cut.lastIncludedIndex, List.getElem?_drop,
    show index - rf.lastIncludedIndex + (i - index) = i - rf.lastIncludedIndex by omega]

theorem lastLogTerm : compacted.lastLogTerm = rf.lastLogTerm := by
  have inside := cut.length_pos
  unfold Raft.lastLogTerm
  rw [cut.log, List.getLast?_drop, if_neg (by omega)]

/-- The compacted peer looks no further back than `index`. -/
theorem conflictStart (t : Nat) {i : Nat} (retained : index ≤ i) :
    compacted.conflictStart t i = max (rf.conflictStart t i) index := by
  have above := cut.above
  induction i with
  | zero => omega
  | succ i ih =>
    have bound := rf.conflictStart_le t (i + 1)
    by_cases last : index = i + 1
    · have stops : compacted.conflictStart t (i + 1) = i + 1 := by
        rw [Raft.conflictStart, if_neg]
        rw [cut.lastIncludedIndex]
        omega
      rw [stops]
      omega
    · rw [Raft.conflictStart, Raft.conflictStart, cut.lastIncludedIndex, cut.entryAt? retained]
      have lower : index < i + 1 := by omega
      have lower' : rf.lastIncludedIndex < i + 1 := by omega
      simp only [lower, lower', true_and]
      split
      · exact ih (by omega)
      · omega

theorem becomeFollowerWithTerm (t : Nat) :
    CutAt index (rf.becomeFollowerWithTerm t) (compacted.becomeFollowerWithTerm t) :=
  ⟨cut.above, cut.below, cut.lastIncludedIndex, cut.log, rfl, rfl, rfl, cut.commitIndex⟩

theorem raised (t : Nat) : CutAt index (rf.raised t) (compacted.raised t) := by
  unfold Raft.raised
  rw [cut.currentTerm]
  split
  · exact cut.becomeFollowerWithTerm t
  · exact cut

theorem heardLeader (t : Nat) : CutAt index (rf.heardLeader t) (compacted.heardLeader t) := by
  unfold Raft.heardLeader
  rw [cut.currentTerm, cut.state]
  split
  · exact cut.becomeFollowerWithTerm t
  split
  · exact ⟨cut.above, cut.below, cut.lastIncludedIndex, cut.log, rfl, cut.votedFor, rfl,
      cut.commitIndex⟩
  · exact cut

theorem nonempty : rf.log ≠ [] :=
  List.length_pos_iff.mp (Nat.zero_lt_of_lt cut.length_pos)

/-- Votes depend on the last entry only. -/
theorem requestVote (args : RequestVoteArgs n) :
    ∃ after after' reply, rf.requestVote args = .ok (after, reply) ∧
      compacted.requestVote args = .ok (after', reply) ∧ CutAt index after after' := by
  have cut := cut.raised args.term
  obtain ⟨last, found⟩ := lastLogTerm_inside cut.nonempty
  unfold Raft.requestVote castVote
  rw [cut.lastLogTerm, cut.lastLogIndex, cut.currentTerm, cut.votedFor, found]
  split
  · simp only [orPanic, bind, Except.bind, pure, Except.pure]
    split
    · exact ⟨_, _, _, rfl, rfl, cut.above, cut.below, cut.lastIncludedIndex, cut.log, rfl, rfl, rfl,
        cut.commitIndex⟩
    · exact ⟨_, _, _, rfl, rfl, cut⟩
  · exact ⟨_, _, _, rfl, rfl, cut⟩

/-- Cutting both logs behind the cut point. -/
theorem take {j : Nat} (inside : index < j) :
    CutAt index { rf with log := rf.log.take (j - rf.lastIncludedIndex) }
      { compacted with log := compacted.log.take (j - compacted.lastIncludedIndex) } := by
  have above := cut.above
  have room := cut.length_pos
  refine ⟨above, ?_, cut.lastIncludedIndex, ?_, cut.currentTerm, cut.votedFor, cut.state,
    cut.commitIndex⟩
  · simp only [Raft.lastLogIndex, List.length_take]
    omega
  · simp only [cut.log, cut.lastIncludedIndex, List.drop_take]
    rw [show j - rf.lastIncludedIndex - (index - rf.lastIncludedIndex) = j - index by omega]

theorem append (entries : List (LogEntry C)) :
    CutAt index (rf.appendRemaining entries) (compacted.appendRemaining entries) := by
  cases entries with
  | nil => exact cut
  | cons entry rest =>
    have room := cut.length_pos
    have below := cut.below
    refine ⟨cut.above, ?_, cut.lastIncludedIndex, ?_, cut.currentTerm, cut.votedFor, cut.state,
      cut.commitIndex⟩
    · simp only [Raft.lastLogIndex, appendRemaining, persist, List.length_append] at below ⊢
      omega
    · simp only [appendRemaining, persist, cut.log]
      rw [List.drop_append_of_le_length (by omega)]

theorem followCommit (leaderCommit : Nat) :
    CutAt index (rf.followCommit leaderCommit) (compacted.followCommit leaderCommit) := by
  unfold Raft.followCommit
  rw [cut.commitIndex, cut.lastLogIndex]
  split
  · exact ⟨cut.above, cut.below, cut.lastIncludedIndex, cut.log, cut.currentTerm, cut.votedFor,
      cut.state, rfl⟩
  · exact cut

/-- The merge loop above the cut point takes the same decisions on both logs. -/
theorem mergeEntries {j : Nat} (inside : index < j) (entries : List (LogEntry C)) :
    ∃ merged merged' remaining, rf.mergeEntries j entries = .ok (merged, remaining) ∧
      compacted.mergeEntries j entries = .ok (merged', remaining) ∧
      CutAt index merged merged' := by
  have above := cut.above
  induction entries generalizing j with
  | nil => exact ⟨rf, compacted, [], rfl, rfl, cut⟩
  | cons entry rest ih =>
    unfold Raft.mergeEntries
    rw [cut.lastLogIndex]
    split
    · exact ⟨_, _, _, rfl, rfl, cut⟩
    rename_i present
    obtain ⟨mine, found⟩ := entryAt?_inside cut.nonempty (i := j) (by omega) (by omega)
    have found' := (cut.entryAt? (Nat.le_of_lt inside)).trans found
    simp only [Raft.entry, found, found', orPanic, bind, Except.bind, pure, Except.pure]
    split
    · exact ⟨_, _, _, rfl, rfl, cut.take inside⟩
    · exact ih (by omega)

end

end CutAt

/-- The request is current, and the entry it names is there with another term. -/
def TermMismatch (rf : Raft n C) (args : AppendEntriesArgs n C) : Prop :=
  rf.currentTerm ≤ args.term ∧ args.prevLogIndex ≤ rf.lastLogIndex ∧
    (rf.entryAt? args.prevLogIndex).map (·.term) ≠ some args.prevLogTerm

/-- How the two answers to one request compare. -/
structure SameAnswer (index : Nat) (mismatch : Prop) (reply reply' : AppendEntriesReply) :
    Prop where
  term : reply'.term = reply.term
  success : reply'.success = reply.success
  conflictTerm : reply'.conflictTerm = reply.conflictTerm
  mismatched : mismatch → reply'.conflictIndex = max reply.conflictIndex (index + 1)
  otherwise : ¬ mismatch → reply'.conflictIndex = reply.conflictIndex

theorem SameAnswer.refl {mismatch : Prop} (no : ¬ mismatch) (reply : AppendEntriesReply) :
    SameAnswer index mismatch reply reply :=
  ⟨rfl, rfl, rfl, fun yes => absurd yes no, fun _ => rfl⟩

theorem CutAt.appendEntries (cut : CutAt index rf compacted) {args : AppendEntriesArgs n C}
    (retained : index ≤ args.prevLogIndex) :
    ∃ after after' reply reply', rf.appendEntries args = .ok (after, reply) ∧
      compacted.appendEntries args = .ok (after', reply') ∧ CutAt index after after' ∧
      SameAnswer index (rf.TermMismatch args) reply reply' := by
  by_cases old : args.term < rf.currentTerm
  · refine ⟨rf, compacted, _, _, if_pos old, if_pos (by rwa [cut.currentTerm]), cut, ?_⟩
    rw [cut.currentTerm]
    exact .refl (fun mismatch => absurd mismatch.1 (by omega)) _
  have heard := cut.heardLeader args.term
  have above := heard.above
  have log : (rf.heardLeader args.term).lastLogIndex = rf.lastLogIndex :=
    lastLogIndex_congr (heardLeader_log _ _) (heardLeader_lastIncludedIndex _ _)
  have entryAt := heardLeader_entryAt? rf args.term args.prevLogIndex
  unfold Raft.appendEntries
  rw [if_neg old, if_neg (by rwa [cut.currentTerm])]
  unfold checkPrev
  simp only [heard.lastLogIndex, heard.lastIncludedIndex, heard.currentTerm,
    Nat.not_lt_of_le retained, Nat.not_lt_of_le (Nat.le_trans (Nat.le_of_lt above) retained),
    ↓reduceIte]
  by_cases short : (rf.heardLeader args.term).lastLogIndex < args.prevLogIndex
  · simp only [short, ↓reduceIte, bind, Except.bind, pure, Except.pure]
    refine ⟨_, _, _, _, rfl, rfl, heard, .refl (fun mismatch => ?_) _⟩
    have := mismatch.2.1
    omega
  obtain ⟨prev, found⟩ := entryAt?_inside heard.nonempty (i := args.prevLogIndex) (by omega)
    (by omega)
  have found' := (heard.entryAt? retained).trans found
  simp only [short, ↓reduceIte, Raft.entry, found, found', orPanic, bind, Except.bind, pure,
    Except.pure]
  by_cases differ : args.prevLogTerm = prev.term
  · -- the entry matches, and both merge the same entries
    have no : ¬ rf.TermMismatch args := fun mismatch =>
      mismatch.2.2 (by rw [← entryAt, found, Option.map_some, differ])
    obtain ⟨merged, merged', remaining, done, done', cut'⟩ :=
      heard.mergeEntries (Nat.lt_succ_of_le retained) args.entries
    simp only [differ, ne_eq, not_true_eq_false, ↓reduceIte, done, done']
    exact ⟨_, _, _, _, rfl, rfl, (cut'.append remaining).followCommit args.leaderCommit,
      .refl no _⟩
  · simp only [differ, ne_eq, not_false_eq_true, ↓reduceIte]
    refine ⟨_, _, _, _, rfl, rfl, heard, rfl, rfl, rfl, fun _ => ?_, fun no => absurd ?_ no⟩
    · rw [heard.conflictStart prev.term retained]
      exact (Nat.add_max_add_right _ _ _).symm
    · refine ⟨by omega, by omega, fun same => differ ?_⟩
      rw [← entryAt, found, Option.map_some] at same
      exact (Option.some.inj same).symm

/-- Cutting the log at an index it has: nothing from there on is lost, every vote
is cast alike, and every `AppendEntries` that starts from there on is answered
and merged alike, but that no conflict is reported below the cut. -/
theorem snapshot_transparent (rf : Raft n C) (index : Nat) (data : Bytes)
    (above : rf.lastIncludedIndex < index) (below : index ≤ rf.lastLogIndex) :
    ∃ compacted, rf.snapshot index data = .ok compacted ∧
      compacted.lastLogIndex = rf.lastLogIndex ∧ compacted.lastLogTerm = rf.lastLogTerm ∧
      (∀ i, index ≤ i → compacted.entryAt? i = rf.entryAt? i) ∧
      (∀ args, ∃ after after' reply, rf.requestVote args = .ok (after, reply) ∧
        compacted.requestVote args = .ok (after', reply) ∧ after'.votedFor = after.votedFor) ∧
      (∀ args, index ≤ args.prevLogIndex → ∃ after after' reply reply',
        rf.appendEntries args = .ok (after, reply) ∧
        compacted.appendEntries args = .ok (after', reply') ∧
        SameAnswer index (rf.TermMismatch args) reply reply' ∧
        after'.lastLogIndex = after.lastLogIndex ∧
        (∀ i, index < i → after'.entryAt? i = after.entryAt? i) ∧
        after'.commitIndex = after.commitIndex) := by
  obtain ⟨compacted, done, cut⟩ := snapshot_cutAt data above below
  refine ⟨compacted, done, cut.lastLogIndex, cut.lastLogTerm, fun i => cut.entryAt?,
    fun args => ?_, fun args retained => ?_⟩
  · obtain ⟨after, after', reply, voted, voted', cut'⟩ := cut.requestVote args
    exact ⟨after, after', reply, voted, voted', cut'.votedFor⟩
  · obtain ⟨after, after', reply, reply', once, once', cut', same⟩ := cut.appendEntries retained
    exact ⟨after, after', reply, reply', once, once', same, cut'.lastLogIndex,
      fun i strict => cut'.entryAt? (Nat.le_of_lt strict), cut'.commitIndex⟩

/-- A request that names an entry of term 2 where the follower has one of term 1. -/
def straddling : AppendEntriesArgs 3 Nat :=
  { aheadRequest with prevLogIndex := 3, prevLogTerm := 2 }

/-- The entries of term 1 lie on both sides of the cut: the conflict with a leader of
term 2 starts below it and is reported right above it. A candidate with a shorter log is
refused on both sides. -/
theorem snapshot_transparent_straddled :
    ∃ compacted, tailedFollower.snapshot 2 [] = .ok compacted ∧
      (∃ after after' reply reply',
        tailedFollower.appendEntries straddling = .ok (after, reply) ∧
        compacted.appendEntries straddling = .ok (after', reply') ∧
        reply.conflictIndex = 1 ∧ reply'.conflictIndex = 3 ∧
        reply'.conflictTerm = reply.conflictTerm) ∧
      ∃ after after' reply,
        tailedFollower.requestVote ⟨2, 0, 1, 1⟩ = .ok (after, reply) ∧
        compacted.requestVote ⟨2, 0, 1, 1⟩ = .ok (after', reply) ∧ reply.voteGranted = false := by
  obtain ⟨compacted, done, -, -, -, votes, appends⟩ :=
    snapshot_transparent tailedFollower 2 [] (by decide) (by decide)
  refine ⟨compacted, done, ?_, ?_⟩
  · obtain ⟨after, after', reply, reply', once, once', same, -⟩ :=
      appends straddling (by decide)
    have first : reply.conflictIndex = 1 := by
      obtain ⟨-, rfl⟩ := Prod.mk.inj (Except.ok.inj once)
      rfl
    have mismatch : tailedFollower.TermMismatch straddling :=
      ⟨by decide, by decide, by decide⟩
    refine ⟨after, after', reply, reply', once, once', first, ?_, same.conflictTerm⟩
    rw [same.mismatched mismatch, first]
    rfl
  · obtain ⟨after, after', reply, voted, voted', -⟩ := votes ⟨2, 0, 1, 1⟩
    refine ⟨after, after', reply, voted, voted', ?_⟩
    obtain ⟨-, rfl⟩ := Prod.mk.inj (Except.ok.inj voted)
    rfl

end Raft

end KvStore
