import Mathlib.Order.Bounds.Basic
import KvStore.Raft.IndexSafety

set_option autoImplicit false

/-! `advanceCommitIndex` against the commit rule: its loop stops at the first entry
of another term, which is right because terms never decrease along a log. -/

namespace KvStore

open ReplicatedLog

variable {n : Nat} {C : Type}

namespace Raft

variable {rf : Raft n C} (me : Fin n) {entry : LogEntry C} {N : Nat}

/-- The commit rule: an entry of the leader's own term above its commit index that
more than half of the servers hold, the leader counted. -/
structure Eligible (me : Fin n) (rf : Raft n C) (N : Nat) : Prop where
  above : rf.commitIndex < N
  below : N ≤ rf.lastLogIndex
  term : (rf.entryAt? N).map (·.term) = some rf.currentTerm
  majority : n < 2 * rf.replicas me N

theorem majority_iff (count : Nat) : n / 2 < count ↔ n < 2 * count := by omega

/-- Terms never decrease along the retained log and none is above the peer's own. -/
structure Ordered (rf : Raft n C) : Prop where
  sorted : Sorted LogEntry.term rf.log
  bounded : ∀ entry ∈ rf.log, entry.term ≤ rf.currentTerm

theorem entryAt?_mem {i : Nat} (found : rf.entryAt? i = some entry) : entry ∈ rf.log := by
  obtain ⟨position, -, read⟩ := Option.bind_eq_some_iff.mp found
  exact List.mem_of_getElem? read

theorem Ordered.entry_le (ordered : Ordered rf) {i j : Nat} {older newer : LogEntry C}
    (first : rf.entryAt? i = some older) (second : rf.entryAt? j = some newer) (order : i ≤ j) :
    older.term ≤ newer.term := by
  have above : rf.lastIncludedIndex ≤ i := by
    by_contra below
    rw [entryAt?_below (by omega)] at first
    cases first
  rw [entryAt?_eq above] at first
  rw [entryAt?_eq (by omega)] at second
  exact ordered.sorted.le ⟨older, first, rfl⟩ ⟨newer, second, rfl⟩ (by omega)

/-- Below an entry of another term nothing is eligible. -/
theorem Ordered.stop (ordered : Ordered rf) (found : rf.entryAt? N = some entry)
    (differ : entry.term ≠ rf.currentTerm) {k : Nat} (below : k ≤ N) : ¬ Eligible me rf k := by
  intro eligible
  obtain ⟨own, present, term⟩ := Option.map_eq_some_iff.mp eligible.term
  have rises := ordered.entry_le present found below
  have bound := ordered.bounded entry (entryAt?_mem found)
  omega

/-- `advanceCommitIndex` sets the commit index to the greatest eligible index, and leaves
the peer alone when there is none. -/
def FollowsRule (me : Fin n) (rf : Raft n C) : Prop :=
  (∀ N, IsGreatest {k | Eligible me rf k} N →
      rf.advanceCommitIndex me = .ok { rf with commitIndex := N }) ∧
    ((∀ N, ¬ Eligible me rf N) → rf.advanceCommitIndex me = .ok rf)

/-- The loop finds entries down to the commit index, or a dummy entry of another term. -/
def LoopEnds (rf : Raft n C) : Prop :=
  rf.lastIncludedIndex ≤ rf.commitIndex + 1 ∨
    ∃ dummy, rf.entryAt? rf.lastIncludedIndex = some dummy ∧ dummy.term ≠ rf.currentTerm

/-- The loop from `N` down meets no eligible index: it leaves the peer alone, or reads
below the compaction point and dies. -/
structure Fruitless (me : Fin n) (rf : Raft n C) (N : Nat) : Prop where
  none : ∀ l, l ≤ N → ¬ Eligible me rf l
  done : N ≤ rf.commitIndex → rf.advanceFrom me N = .ok rf
  ends : rf.lastIncludedIndex ≤ N → LoopEnds rf → rf.advanceFrom me N = .ok rf
  dies : rf.commitIndex < N → ¬ LoopEnds rf → rf.advanceFrom me N = .error rf

theorem advanceFrom_read (above : rf.commitIndex < N + 1)
    (found : rf.entryAt? (N + 1) = some entry) :
    rf.advanceFrom me (N + 1) =
      if entry.term ≠ rf.currentTerm then .ok rf
      else if n < 2 * rf.replicas me (N + 1) then .ok { rf with commitIndex := N + 1 }
      else rf.advanceFrom me N := by
  rw [advanceFrom, if_neg (by omega)]
  simp only [Raft.entry, found, orPanic, bind, Except.bind, pure, Except.pure, majority_iff]

theorem Fruitless.of_passed (passed : N ≤ rf.commitIndex) : Fruitless me rf N := by
  have done : rf.advanceFrom me N = .ok rf := by
    cases N with
    | zero => rfl
    | succ N => exact if_pos passed
  refine ⟨fun l low eligible => ?_, fun _ => done, fun _ _ => done, by omega⟩
  have := eligible.above
  omega

/-- Below the compaction point there is nothing to read. -/
theorem Fruitless.of_compacted (above : rf.commitIndex < N + 1)
    (low : N + 1 < rf.lastIncludedIndex) :
    Fruitless me rf (N + 1) := by
  refine ⟨fun l within eligible => ?_, by omega, by omega, fun _ _ => ?_⟩
  · have held := eligible.term
    rw [entryAt?_below (by omega)] at held
    cases held
  · rw [advanceFrom, if_neg (by omega), Raft.entry, entryAt?_below low]
    rfl

/-- An entry of another term ends the loop; then the dummy is of another term too. -/
theorem Fruitless.of_older (ordered : Ordered rf) (above : rf.commitIndex < N + 1)
    (kept : rf.lastIncludedIndex ≤ N + 1) (found : rf.entryAt? (N + 1) = some entry)
    (differ : entry.term ≠ rf.currentTerm) : Fruitless me rf (N + 1) := by
  have done : rf.advanceFrom me (N + 1) = .ok rf := by
    rw [advanceFrom_read me above found, if_pos differ]
  refine ⟨fun l low => ordered.stop me found differ low, fun _ => done, fun _ _ => done, ?_⟩
  intro _ stuck
  have positive := List.length_pos_of_mem (entryAt?_mem found)
  obtain ⟨dummy, first⟩ := entryAt?_inside (List.length_pos_iff.mp positive)
    (Nat.le_refl rf.lastIncludedIndex) (by rw [lastLogIndex]; omega)
  have rises := ordered.entry_le first found kept
  have bound := ordered.bounded entry (entryAt?_mem found)
  exact absurd (Or.inr ⟨dummy, first, by omega⟩) stuck

/-- An entry of the leader's own term that too few hold lets the loop go on. -/
theorem Fruitless.of_missed (fruitless : Fruitless me rf N) (above : rf.commitIndex < N + 1)
    (kept : rf.lastIncludedIndex ≤ N + 1) (found : rf.entryAt? (N + 1) = some entry)
    (own : entry.term = rf.currentTerm) (minority : ¬ n < 2 * rf.replicas me (N + 1)) :
    Fruitless me rf (N + 1) := by
  have next : rf.advanceFrom me (N + 1) = rf.advanceFrom me N := by
    rw [advanceFrom_read me above found, if_neg (not_not.mpr own), if_neg minority]
  refine ⟨fun l within eligible => ?_, by omega, fun _ ends => ?_, fun _ stuck => ?_⟩
  · by_cases top : l = N + 1
    · exact minority (top ▸ eligible.majority)
    · exact fruitless.none l (by omega) eligible
  · rw [next]
    by_cases passed : N ≤ rf.commitIndex
    · exact fruitless.done passed
    refine fruitless.ends ?_ ends
    rcases ends with near | ⟨dummy, first, differ⟩
    · omega
    · by_contra last
      have same : rf.lastIncludedIndex = N + 1 := by omega
      rw [same, found] at first
      exact differ (Option.some.inj first ▸ own)
  · rw [next]
    refine fruitless.dies ?_ stuck
    rw [LoopEnds, not_or] at stuck
    omega

/-- The loop from `N` down, by induction on `N`: it stops at the largest eligible
index up to `N`, if there is one. -/
theorem advanceFrom_exact (ordered : Ordered rf) (inside : N ≤ rf.lastLogIndex) :
    (∃ k, k ≤ N ∧ Eligible me rf k ∧ (∀ l, k < l → l ≤ N → ¬ Eligible me rf l) ∧
        rf.advanceFrom me N = .ok { rf with commitIndex := k }) ∨ Fruitless me rf N := by
  induction N with
  | zero => exact Or.inr (.of_passed me (Nat.zero_le _))
  | succ N ih =>
    by_cases passed : N + 1 ≤ rf.commitIndex
    · exact Or.inr (.of_passed me passed)
    by_cases low : N + 1 < rf.lastIncludedIndex
    · exact Or.inr (.of_compacted me (by omega) low)
    have nonempty : rf.log ≠ [] := by
      intro empty
      rw [lastLogIndex, empty, List.length_nil] at inside
      omega
    obtain ⟨entry, found⟩ := entryAt?_inside nonempty (i := N + 1) (by omega) inside
    by_cases differ : entry.term ≠ rf.currentTerm
    · exact Or.inr (.of_older me ordered (by omega) (by omega) found differ)
    rw [not_not] at differ
    by_cases majority : n < 2 * rf.replicas me (N + 1)
    · refine Or.inl ⟨N + 1, Nat.le_refl _, ⟨by omega, inside, ?_, majority⟩, by omega, ?_⟩
      · rw [found, Option.map_some, differ]
      · rw [advanceFrom_read me (by omega) found, if_neg (not_not.mpr differ), if_pos majority]
    rcases ih (by omega) with ⟨k, below, eligible, largest, result⟩ | fruitless
    · refine Or.inl ⟨k, by omega, eligible, fun l higher within other => ?_, ?_⟩
      · by_cases top : l = N + 1
        · exact majority (top ▸ other.majority)
        · exact largest l higher (by omega) other
      · rw [advanceFrom_read me (by omega) found, if_neg (not_not.mpr differ), if_neg majority]
        exact result
    · exact Or.inr (fruitless.of_missed me (by omega) (by omega) found differ majority)

/-- `advanceCommitIndex` is the commit rule on an ordered log exactly if its loop ends
within the log or there is something to commit. -/
theorem followsRule_iff (ordered : Ordered rf) :
    FollowsRule me rf ↔ LoopEnds rf ∨ ∃ N, Eligible me rf N := by
  rcases advanceFrom_exact me ordered (Nat.le_refl rf.lastLogIndex) with
    ⟨k, low, eligible, largest, result⟩ | fruitless
  · refine iff_of_true ⟨fun N greatest => ?_, fun absent => absurd eligible (absent k)⟩
      (Or.inr ⟨k, eligible⟩)
    have upper : k ≤ N := greatest.2 eligible
    have same : k = N := by
      by_contra differ
      exact largest N (by omega) greatest.1.below greatest.1
    rw [advanceCommitIndex, result, same]
  · have nothing : ∀ N, ¬ Eligible me rf N := fun N eligible =>
      fruitless.none N eligible.below eligible
    constructor
    · intro follows
      by_contra stuck
      rw [not_or] at stuck
      have above : rf.commitIndex < rf.lastLogIndex := by
        have far := stuck.1
        rw [LoopEnds, not_or] at far
        rw [lastLogIndex]
        omega
      have dies := fruitless.dies above stuck.1
      cases dies.symm.trans (follows.2 nothing)
    · rintro (ends | ⟨N, eligible⟩)
      · refine ⟨fun N greatest => absurd greatest.1 (nothing N), fun _ => ?_⟩
        by_cases retained : rf.lastIncludedIndex ≤ rf.lastLogIndex
        · exact fruitless.ends retained ends
        · refine fruitless.done ?_
          rcases ends with near | ⟨dummy, first, -⟩
          · omega
          · have positive := List.length_pos_of_mem (entryAt?_mem first)
            rw [lastLogIndex] at retained
            omega
      · exact absurd eligible (nothing N)

end Raft

/-- Every retained log of every reachable state is ordered. -/
theorem run_ordered {trace : List (Cluster n C)} (run : Cluster.Run trace) :
    ∀ σ ∈ trace, ∀ s, (σ.nodes s).Ordered := by
  intro σ member s
  obtain ⟨core, rel⟩ := run_related run σ member
  have node := rel.nodes s
  have sound := rel.safe.sound
  have terms := node.slice.terms
  rw [← node.log] at terms
  have sorted : Sorted LogEntry.term (core.log s) := (sound.coherent s).sorted sound.sortedLed
  constructor
  · -- the retained terms are those of the logical log from the compaction point on
    have dropped := sorted.sublist (List.drop_sublist (σ.nodes s).lastIncludedIndex _)
    exact List.pairwise_map.mp (terms ▸ List.pairwise_map.mpr dropped)
  · intro entry present
    have held : entry.term ∈ ((core.log s).drop (σ.nodes s).lastIncludedIndex).map (·.term) :=
      terms ▸ List.mem_map_of_mem present
    obtain ⟨other, inside, same⟩ := List.mem_map.mp held
    rw [← same, ← node.current]
    exact sound.boundLog s other (List.mem_of_mem_drop inside)

/-- In every state of every run the logs are ordered, and whatever a leader knows of its
peers, it commits exactly by the rule if and only if its loop ends within the log or there
is something to commit; where only acknowledgements of the leader's own term count, no log
is compacted beyond the commit index. -/
theorem commit_rule_exact {trace : List (Cluster n C)} (run : Cluster.Run trace) :
    (∀ σ ∈ trace, ∀ s, (σ.nodes s).Ordered) ∧
      (∀ σ ∈ trace, ∀ s, (σ.nodes s).state = .leader → ∀ matchIndex,
        let rf := { σ.nodes s with matchIndex }
        Raft.FollowsRule s rf ↔ rf.LoopEnds ∨ ∃ N, Raft.Eligible s rf N) ∧
      (Cluster.FreshRun trace → ∀ σ ∈ trace, ∀ s,
        (σ.nodes s).lastIncludedIndex ≤ (σ.nodes s).commitIndex) := by
  have ordered := run_ordered run
  refine ⟨ordered, fun σ member s _ matchIndex => ?_, fun fresh σ member s => ?_⟩
  · have same := ordered σ member s
    exact Raft.followsRule_iff s ⟨same.sorted, same.bounded⟩
  · obtain ⟨core, -, -, ledger⟩ := fresh_ledger fresh σ member
    exact (ledger.nodes s).applying.compacted

theorem commit_rule_exact_first :
    ∃ trace : List (Cluster 3 Nat), Cluster.Run trace ∧ ∃ σ ∈ trace,
      (σ.nodes 0).state = .leader ∧
      Raft.advanceCommitIndex 0 { σ.nodes 0 with matchIndex := fun _ => 1 } =
        .ok { σ.nodes 0 with matchIndex := fun _ => 1, commitIndex := 1 } := by
  obtain ⟨trace, run, _, last⟩ := Cluster.run_through replicatedOnce [] (by decide) (by decide)
  refine ⟨trace, run, _, last, by decide, ?_⟩
  have rule := ((commit_rule_exact run).2.1 _ last 0 (by decide) fun _ => 1).mpr
    (Or.inl (Or.inl (by decide)))
  refine rule.1 1 ⟨?_, ?_⟩
  · exact ⟨by decide, by decide, by decide, by decide⟩
  · intro N eligible
    exact eligible.below

/-- A vote asked for, given and counted. -/
def voteExchange (call : Nat) : List (Action 5 Nat) :=
  [.handleRequestVote call, .receiveRequestVote call]

/-- The applier passes on one message. -/
def delivery (server : Fin 5) : List (Action 5 Nat) :=
  [.applierRead server, .applierSend server, .applierAck server]

/-- Server 0 takes an old reply of server 2 for one of term 3 and so commits, with
server 1 only, entries that server 3 then overwrites on both. As leader again it
still announces the old commit index, and server 1, which has applied index 4, goes
back to commit index 2. Elected itself, server 1 writes new entries at 3 and 4, and
its service now takes the snapshot at 4. -/
def compactedPastCommit : List (Action 5 Nat) :=
  List.flatten (
    [[.startElection 0], voteExchange 1, voteExchange 2,
      [.start 0 (some 1), .start 0 (some 2), .start 0 (some 3), .start 0 (some 4),
        .start 0 (some 5), .replicateToFollower 0 2, .handleAppendEntries 0],
      [.startElection 3], voteExchange 5, voteExchange 7,
      [.start 3 (some 6), .replicateToFollower 3 0, .handleAppendEntries 1,
        .replicateToFollower 3 1, .handleAppendEntries 2,
        .replicateToFollower 3 2, .handleAppendEntries 3],
      [.startElection 0], voteExchange 8, voteExchange 10,
      [.start 0 (some 7), .start 0 (some 7), .start 0 (some 7),
        .replicateToFollower 0 1, .handleAppendEntries 4, .receiveAppendEntries 4,
        .receiveAppendEntries 0, .replicateToFollower 0 1, .handleAppendEntries 5],
      delivery 1, delivery 1, delivery 1, delivery 1,
      [.start 0 (some 7), .replicateToFollower 0 1, .handleAppendEntries 6,
        .receiveAppendEntries 6],
      [.startElection 3], voteExchange 14, voteExchange 15,
      [.start 3 (some 8), .replicateToFollower 3 0, .handleAppendEntries 7,
        .replicateToFollower 3 1, .handleAppendEntries 8],
      [.startElection 0], voteExchange 16, voteExchange 17,
      [.replicateToFollower 0 1, .handleAppendEntries 9],
      [.startElection 1], voteExchange 20, voteExchange 21,
      [.start 1 (some 9), .start 1 (some 9), .snapshot 1 4 []]] : List (List (Action 5 Nat)))

set_option maxRecDepth 100000 in
/-- A leader whose log is compacted two past its commit index: nothing is eligible, and
instead of leaving it at that the loop reads below the compaction point and dies. -/
theorem commit_rule_broken :
    ∃ trace : List (Cluster 5 Nat), Cluster.Run trace ∧ ∃ σ ∈ trace,
      (σ.nodes 1).state = .leader ∧ (∀ N, ¬ Raft.Eligible 1 (σ.nodes 1) N) ∧
      ((σ.nodes 1).advanceCommitIndex 1).isOk = false := by
  obtain ⟨σ, past, run, checked⟩ := Runs.Run.ends Cluster.step (fun _ _ => true)
    (Cluster.init 5 Nat) compactedPastCommit
    (fun σ => decide ((σ.nodes 1).state = .leader ∧ (∀ j, (σ.nodes 1).matchIndex j = 0) ∧
      ((σ.nodes 1).advanceCommitIndex 1).isOk = false))
    (by decide +kernel)
  obtain ⟨leads, alone, dies⟩ := of_decide_eq_true checked
  refine ⟨_, run.mono fun _ _ _ => trivial, σ, List.mem_cons_self .., leads, ?_, dies⟩
  intro N eligible
  have counted : (σ.nodes 1).replicas 1 N = 1 := by
    have above := eligible.above
    have nobody : Finset.univ.filter (fun j => j ≠ 1 ∧ N ≤ (σ.nodes 1).matchIndex j) = ∅ := by
      rw [Finset.filter_eq_empty_iff]
      intro j _ matched
      have := alone j
      omega
    rw [Raft.replicas, nobody, Finset.card_empty]
  have majority := eligible.majority
  omega

end KvStore
