import KvStore.Raft.Redelivery

set_option autoImplicit false

/-! Finding where a follower's log departs from the leader's: rounds of
`replicateToFollower` that are refused, until one is accepted or a snapshot is sent. -/

namespace KvStore

open ReplicatedLog

variable {n : Nat} {C : Type}

namespace Raft

variable {rf : Raft n C} {logical : List (LogEntry C)}

theorem conflictStart_congr {rf' : Raft n C} (log : rf'.log = rf.log)
    (lii : rf'.lastIncludedIndex = rf.lastIncludedIndex) (t i : Nat) :
    rf'.conflictStart t i = rf.conflictStart t i := by
  induction i with
  | zero => rfl
  | succ i ih =>
    rw [conflictStart, conflictStart, entryAt?, entryAt?, sliceIndex, sliceIndex, log, lii, ih]

/-- Everything from above the result up to `i` has the conflicting term. -/
theorem conflictStart_run (rf : Raft n C) (t : Nat) {i k : Nat} (above : rf.conflictStart t i < k)
    (below : k ≤ i) :
    rf.lastIncludedIndex < k ∧ (rf.entryAt? k).map (·.term) = some t := by
  induction i with
  | zero => omega
  | succ i ih =>
    unfold conflictStart at above
    split at above
    · rename_i inside
      by_cases last : k = i + 1
      · exact last ▸ inside
      · exact ih above (by omega)
    · omega

/-- The scan moves when it starts on an entry of the term. -/
theorem conflictStart_lt {t i : Nat} (inside : rf.lastIncludedIndex < i)
    (here : (rf.entryAt? i).map (·.term) = some t) : rf.conflictStart t i < i := by
  cases i with
  | zero => omega
  | succ i =>
    rw [conflictStart, if_pos ⟨inside, here⟩]
    exact Nat.lt_succ_of_le (rf.conflictStart_le t i)

/-- What the leader's scan from `j` finds: the last entry of the conflicting term
that is not below either bound, or nothing. -/
theorem scanConflict_spec (holds : rf.Holds logical) (retained : rf.log ≠ [])
    {reply : AppendEntriesReply} {t : Nat} (term : reply.conflictTerm = t) {j : Nat}
    (inside : j ≤ rf.lastLogIndex) :
    (∃ k, k ≤ j ∧ rf.lastIncludedIndex ≤ k ∧ reply.conflictIndex ≤ k ∧
        TermAt LogEntry.term logical k t ∧
        (∀ l, k < l → l ≤ j → ¬ TermAt LogEntry.term logical l t) ∧
        rf.scanConflict reply j = .ok (k + 1)) ∨
      (∀ l, l ≤ j → rf.lastIncludedIndex ≤ l → reply.conflictIndex ≤ l →
        ¬ TermAt LogEntry.term logical l t) ∧
        rf.scanConflict reply j = .ok reply.conflictIndex := by
  -- one look at the entry at `i`, for both equations of the scan
  have look : ∀ i, rf.lastIncludedIndex ≤ i → i ≤ rf.lastLogIndex →
      ∃ entry, rf.entry i = .ok entry ∧
        ((entry.term : Int) = reply.conflictTerm ↔ TermAt LogEntry.term logical i t) := by
    intro i above below
    obtain ⟨entry, found⟩ := entryAt?_inside retained above below
    obtain ⟨-, here⟩ := termAt_of_entryAt? holds.slice found
    refine ⟨entry, by rw [Raft.entry, found]; rfl, fun same => ?_, fun there => ?_⟩
    · rw [term] at same
      rwa [← Int.ofNat.inj same]
    · rw [term, here.unique there]
  induction j with
  | zero =>
    unfold scanConflict
    split
    · rename_i reached
      obtain ⟨entry, read, decides⟩ := look 0 reached.1 inside
      simp only [read, bind, Except.bind, pure, Except.pure]
      by_cases here : TermAt LogEntry.term logical 0 t
      · rw [if_pos (decides.mpr here)]
        exact Or.inl ⟨0, Nat.le_refl _, reached.1, reached.2, here, by omega, rfl⟩
      · rw [if_neg (fun same => here (decides.mp same))]
        refine Or.inr ⟨fun l low _ _ => ?_, rfl⟩
        rwa [Nat.le_zero.mp low]
    · rename_i reached
      exact Or.inr ⟨fun l low above above' => absurd ⟨by omega, by omega⟩ reached, rfl⟩
  | succ j ih =>
    unfold scanConflict
    split
    · rename_i reached
      obtain ⟨entry, read, decides⟩ := look (j + 1) reached.1 inside
      simp only [read, bind, Except.bind, pure, Except.pure]
      by_cases here : TermAt LogEntry.term logical (j + 1) t
      · rw [if_pos (decides.mpr here)]
        exact Or.inl ⟨j + 1, Nat.le_refl _, reached.1, reached.2, here, by omega, rfl⟩
      · rw [if_neg (fun same => here (decides.mp same))]
        rcases ih (by omega) with ⟨k, below, above, above', there, last, done⟩ | ⟨absent, done⟩
        · refine Or.inl ⟨k, by omega, above, above', there, fun l higher low => ?_, done⟩
          by_cases top : l = j + 1
          · rwa [top]
          · exact last l higher (by omega)
        · refine Or.inr ⟨fun l low above above' => ?_, done⟩
          by_cases top : l = j + 1
          · rwa [top]
          · exact absent l (by omega) above above'
    · rename_i reached
      exact Or.inr ⟨fun l low above above' => absurd ⟨by omega, by omega⟩ reached, rfl⟩

/-- Why a request is refused, and with what answer. -/
theorem checkPrev_refusal {args : AppendEntriesArgs n C} {conflict : Int × Nat}
    (refused : rf.checkPrev args = .ok (some conflict)) :
    (args.prevLogIndex < rf.lastIncludedIndex ∧ conflict = (-1, rf.lastIncludedIndex + 1)) ∨
      (rf.lastLogIndex < args.prevLogIndex ∧ conflict = (-1, rf.lastLogIndex + 1)) ∨
      rf.lastIncludedIndex ≤ args.prevLogIndex ∧
        ∃ prev, rf.entryAt? args.prevLogIndex = some prev ∧ args.prevLogTerm ≠ prev.term ∧
          conflict = (↑prev.term, rf.conflictStart prev.term args.prevLogIndex + 1) := by
  unfold checkPrev at refused
  split at refused
  · exact Or.inl ⟨‹_›, (Option.some.inj (Except.ok.inj refused)).symm⟩
  split at refused
  · exact Or.inr (Or.inl ⟨‹_›, (Option.some.inj (Except.ok.inj refused)).symm⟩)
  rename_i compacted short
  rcases orPanic_cases rf (rf.entryAt? args.prevLogIndex) with ⟨prev, found, read⟩ | ⟨_, died⟩
  · simp only [Raft.entry, read, bind, Except.bind, pure, Except.pure] at refused
    split at refused
    · rename_i differ
      exact Or.inr (Or.inr ⟨by omega, prev, found, differ,
        (Option.some.inj (Except.ok.inj refused)).symm⟩)
    · cases refused
  · simp only [Raft.entry, died, bind, Except.bind] at refused
    cases refused

/-- The leader with another place to start from for peer `i`. -/
def steer (rf : Raft n C) (i : Fin n) (next : Nat) : Raft n C :=
  { rf with nextIndex := Function.update rf.nextIndex i next }

@[simp] theorem steer_nextIndex (rf : Raft n C) (i : Fin n) (next : Nat) :
    (rf.steer i next).nextIndex i = next := Function.update_self ..

@[simp] theorem steer_self (rf : Raft n C) (i : Fin n) : rf.steer i (rf.nextIndex i) = rf := by
  rw [steer, Function.update_eq_self]

@[simp] theorem steer_lastIncludedIndex (rf : Raft n C) (i : Fin n) (next : Nat) :
    (rf.steer i next).lastIncludedIndex = rf.lastIncludedIndex := rfl

/-- A refusal of the leader's own term that is not taken for an old one. -/
theorem onAppendEntriesReply_refused {me i : Fin n} {args : AppendEntriesArgs n C}
    {reply : AppendEntriesReply} {next : Nat} (term : reply.term = rf.currentTerm)
    (refused : reply.success = false) (ahead : rf.matchIndex i < args.prevLogIndex)
    (scanned : (if reply.conflictTerm ≠ -1 then rf.scanConflict reply args.prevLogIndex
      else .ok reply.conflictIndex) = .ok next) :
    rf.onAppendEntriesReply me i args reply =
      .ok (rf.steer i (max next (rf.matchIndex i + 1))) := by
  rw [onAppendEntriesReply, if_neg (by omega), if_neg (by simp [refused]), if_neg (by omega)]
  split at scanned
  · rename_i conflicts
    simp only [if_pos conflicts, scanned, bind, Except.bind, pure, Except.pure, steer]
  · rename_i missing
    obtain rfl := Except.ok.inj scanned
    simp only [if_neg missing, bind, Except.bind, pure, Except.pure, steer]

/-- How a round of `replicateToFollower` of a leader ends when its call gets through:
it has sent a snapshot, its entries were accepted, or they were refused and the
leader has handled the refusal. -/
inductive Round (n : Nat) (C : Type)
  | installSnapshot
  | accepted (follower : Raft n C)
  | rejected (leader follower : Raft n C)

def replicateRound (me i : Fin n) (leader follower : Raft n C) :
    Except (Raft n C) (Round n C) :=
  if leader.nextIndex i ≤ leader.lastIncludedIndex then .ok .installSnapshot
  else do
    let args ← leader.newAppendEntriesArgsFor me i
    let (after, reply) ← follower.appendEntries args
    if reply.success then return .accepted after
    else return .rejected (← leader.onAppendEntriesReply me i args reply) after

/-- Some round among the first `rounds` is not refused. -/
def settles (me i : Fin n) : Nat → Raft n C → Raft n C → Bool
  | 0, _, _ => false
  | rounds + 1, leader, follower =>
    match replicateRound me i leader follower with
    | .ok .installSnapshot => true
    | .ok (.accepted _) => true
    | .ok (.rejected leader follower) => settles me i rounds leader follower
    | .error _ => false

/-- A refused round, from the two states before it to the two after it. -/
def Rejects (me i : Fin n) (before after : Raft n C × Raft n C) : Prop :=
  replicateRound me i before.1 before.2 = .ok (.rejected after.1 after.2)

/-- `m` is the last index at which the two logs have the same entry. -/
structure LastShared (left right : List (LogEntry C)) (m : Nat) : Prop where
  shared : ∃ entry, left[m]? = some entry ∧ right[m]? = some entry
  last : ∀ k entry, m < k → left[k]? = some entry → right[k]? ≠ some entry

/-- A leader in its term and a follower with log matching, where the leader has the
follower's snapshot point and knows no more of the follower's log than is shared. -/
structure Behind (leader follower : Raft n C) (led logical : List (LogEntry C)) (i : Fin n)
    (m : Nat) : Prop where
  sender : leader.Holds led
  receiver : follower.Holds logical
  matching : Matching LogEntry.term logical led
  term : follower.currentTerm ≤ leader.currentTerm
  snapshotPoint : ∃ t, TermAt LogEntry.term led follower.lastIncludedIndex t ∧
    TermAt LogEntry.term logical follower.lastIncludedIndex t
  lastShared : LastShared led logical m
  matched : leader.matchIndex i ≤ m
  behind : leader.matchIndex i < leader.nextIndex i
  within : leader.nextIndex i ≤ leader.lastLogIndex + 1

namespace Behind

variable {leader follower : Raft n C} {led : List (LogEntry C)} (me : Fin n) {i : Fin n} {m : Nat}

section

variable (pair : Behind leader follower led logical i m)

include pair

/-- No index above `m` has one term in both logs. -/
theorem differ {k t : Nat} (above : m < k) (theirs : TermAt LogEntry.term led k t) :
    ¬ TermAt LogEntry.term logical k t := by
  intro mine
  have agree := pair.matching k t mine theirs
  obtain ⟨entry, present, -⟩ := theirs
  refine pair.lastShared.last k entry above present ?_
  rw [← List.getElem?_take_of_lt (Nat.lt_succ_self k), agree,
    List.getElem?_take_of_lt (Nat.lt_succ_self k), present]

/-- At every index up to `m` the two logs have one term. -/
theorem same {k t : Nat} (below : k ≤ m) (mine : TermAt LogEntry.term logical k t) :
    TermAt LogEntry.term led k t := by
  obtain ⟨entry, left, right⟩ := pair.lastShared.shared
  have agree := pair.matching m entry.term ⟨entry, right, rfl⟩ ⟨entry, left, rfl⟩
  obtain ⟨own, present, rfl⟩ := mine
  refine ⟨own, ?_, rfl⟩
  rw [← List.getElem?_take_of_lt (Nat.lt_succ_of_le below), ← agree,
    List.getElem?_take_of_lt (Nat.lt_succ_of_le below), present]

theorem snapshotPoint_le : follower.lastIncludedIndex ≤ m := by
  by_contra above
  obtain ⟨t, theirs, mine⟩ := pair.snapshotPoint
  exact pair.differ (by omega) theirs mine

theorem log_nonempty (above : leader.lastIncludedIndex < leader.nextIndex i) : leader.log ≠ [] := by
  intro empty
  have size := pair.sender.slice.length
  have within := pair.within
  have positive := pair.sender.length_pos
  rw [lastLogIndex_of_slice pair.sender.slice] at within
  rw [empty, List.length_nil] at size
  omega

theorem steered {v : Nat} (above : leader.matchIndex i < v) (within : v ≤ leader.lastLogIndex + 1) :
    Behind (leader.steer i v) (follower.heardLeader leader.currentTerm) led logical i m where
  sender := pair.sender.congr rfl rfl
  receiver := pair.receiver.heardLeader _
  matching := pair.matching
  term := Nat.le_of_eq (heardLeader_term pair.term)
  snapshotPoint := by
    rw [heardLeader_lastIncludedIndex]
    exact pair.snapshotPoint
  lastShared := pair.lastShared
  matched := pair.matched
  behind := by rwa [steer_nextIndex]
  within := by rwa [steer_nextIndex]

theorem sends (above : leader.lastIncludedIndex < leader.nextIndex i) :
    ∃ args, leader.newAppendEntriesArgsFor me i = .ok args ∧ Offered led args ∧
      args.term = leader.currentTerm ∧ args.prevLogIndex = leader.nextIndex i - 1 := by
  have sends := newAppendEntriesArgsFor_inside me (pair.log_nonempty above) above pair.within
  cases built : leader.newAppendEntriesArgsFor me i with
  | error dead =>
    rw [built] at sends
    cases sends
  | ok args =>
    obtain ⟨ask, term, -, -⟩ := newAppendEntriesArgsFor_offered pair.sender above built
    obtain ⟨prev, entries, found, suffix, same⟩ := newAppendEntriesArgsFor_ok built
    exact ⟨args, rfl, ask, term, by rw [← same]⟩

/-- A refused round leaves the leader to handle a refusal of its own term. -/
theorem round_refused (above : leader.lastIncludedIndex < leader.nextIndex i)
    {args : AppendEntriesArgs n C} (built : leader.newAppendEntriesArgsFor me i = .ok args)
    (term : args.term = leader.currentTerm) {conflict : Int × Nat}
    (refused : (follower.heardLeader leader.currentTerm).checkPrev args = .ok (some conflict)) :
    replicateRound me i leader follower =
      (leader.onAppendEntriesReply me i args
        ⟨leader.currentTerm, false, conflict.1, conflict.2⟩).map
        (.rejected · (follower.heardLeader leader.currentTerm)) := by
  rw [← term] at refused
  obtain ⟨once, -⟩ := appendEntries_refused (term ▸ pair.term) refused
  rw [term] at once
  rw [replicateRound, if_neg (by omega)]
  simp only [built, once, bind, Except.bind, pure, Except.pure]
  cases leader.onAppendEntriesReply me i args _ <;> rfl

/-- A round that sends entries: they are accepted, or refused for a reason. -/
theorem round_cases (above : leader.lastIncludedIndex < leader.nextIndex i) :
    (∃ after, replicateRound me i leader follower = .ok (.accepted after)) ∨
      ∃ args conflict, args.prevLogIndex = leader.nextIndex i - 1 ∧
        TermAt LogEntry.term led args.prevLogIndex args.prevLogTerm ∧
        (follower.heardLeader leader.currentTerm).checkPrev args = .ok (some conflict) ∧
        replicateRound me i leader follower =
          (leader.onAppendEntriesReply me i args
            ⟨leader.currentTerm, false, conflict.1, conflict.2⟩).map
            (.rejected · (follower.heardLeader leader.currentTerm)) := by
  obtain ⟨args, built, ask, term, index⟩ := pair.sends me above
  have heard := pair.receiver.heardLeader leader.currentTerm
  rcases checkPrev_total heard args with ⟨conflict, refused⟩ | ⟨own, present, equal, passed⟩
  · exact Or.inr ⟨args, conflict, index, ask.prev, refused,
      pair.round_refused me above built term refused⟩
  · rw [← term] at present passed
    obtain ⟨after, once, -⟩ :=
      appendEntries_accepted pair.receiver ask pair.matching (term ▸ pair.term) present equal passed
    refine Or.inl ⟨after, ?_⟩
    rw [replicateRound, if_neg (by omega)]
    simp only [built, once, bind, Except.bind, pure, Except.pure, ↓reduceIte]

/-- Where a mismatch of terms sends the leader: not below `m + 1` unless its own
log is compacted there, and below where it was. -/
theorem scanned (reply : AppendEntriesReply) (above : leader.lastIncludedIndex < leader.nextIndex i)
    {prev t : Nat} (index : prev = leader.nextIndex i - 1)
    (retained : follower.lastIncludedIndex ≤ prev) (mine : TermAt LogEntry.term logical prev t)
    (theirs : ¬ TermAt LogEntry.term led prev t) (term : reply.conflictTerm = t)
    (start : reply.conflictIndex = follower.conflictStart t prev + 1) :
    m < prev ∧ ∃ next, leader.scanConflict reply prev = .ok next ∧ next ≤ prev ∧
      (m + 1 ≤ next ∨ next ≤ m ∧ m < leader.lastIncludedIndex) := by
  have later : m < prev := by
    by_contra low
    exact theirs (pair.same (by omega) mine)
  have strict : follower.lastIncludedIndex < prev := by
    have := pair.snapshotPoint_le
    omega
  -- the follower's entries from `conflictIndex` to `prev` all have term `t`
  have here : (follower.entryAt? prev).map (·.term) = some t := by
    rw [entryAt?_term pair.receiver.slice retained]
    obtain ⟨entry, present, same⟩ := mine
    rw [present, Option.map_some, same]
  have moved := conflictStart_lt strict here
  have within := pair.within
  have inRun : reply.conflictIndex ≤ m → TermAt LogEntry.term led m t := by
    intro low
    obtain ⟨inside, same⟩ :=
      follower.conflictStart_run t (k := m) (by omega) (Nat.le_of_lt later)
    obtain ⟨entry, found, equal⟩ := Option.map_eq_some_iff.mp same
    obtain ⟨-, there⟩ := termAt_of_entryAt? pair.receiver.slice found
    exact pair.same (Nat.le_refl m) (equal ▸ there)
  refine ⟨later, ?_⟩
  rcases scanConflict_spec pair.sender (pair.log_nonempty above) term
    (show prev ≤ leader.lastLogIndex by omega) with
    ⟨k, below, compacted, low, there, last, done⟩ | ⟨absent, done⟩
  · refine ⟨k + 1, done, ?_, Or.inl ?_⟩
    · have : k ≠ prev := fun same => theirs (same ▸ there)
      omega
    · by_contra short
      exact last m (by omega) (Nat.le_of_lt later) (inRun (by omega))
  · refine ⟨reply.conflictIndex, done, by omega, ?_⟩
    by_cases low : reply.conflictIndex ≤ m
    · refine Or.inr ⟨low, ?_⟩
      by_contra retained
      exact absent m (Nat.le_of_lt later) (by omega) low (inRun low)
    · exact Or.inl (by omega)

/-- A round whose entry before the first one sent is still in the follower's log. -/
theorem round_retained (above : leader.lastIncludedIndex < leader.nextIndex i)
    (retained : follower.lastIncludedIndex < leader.nextIndex i) :
    (∃ after, replicateRound me i leader follower = .ok (.accepted after)) ∨
      ∃ v, leader.matchIndex i < v ∧ v < leader.nextIndex i ∧
        (m + 1 ≤ v ∨ v ≤ leader.lastIncludedIndex ∧ m < leader.lastIncludedIndex) ∧
        replicateRound me i leader follower =
          .ok (.rejected (leader.steer i v) (follower.heardLeader leader.currentTerm)) := by
  rcases pair.round_cases me above with accepted | ⟨args, conflict, index, prev, refused, done⟩
  · exact Or.inl accepted
  have matched := pair.matched
  have heard := pair.receiver.heardLeader leader.currentTerm
  refine Or.inr ?_
  rcases checkPrev_refusal refused with
    ⟨compacted, -⟩ | ⟨short, rfl⟩ | ⟨-, own, found, differ, rfl⟩
  · rw [heardLeader_lastIncludedIndex] at compacted
    omega
  · rw [lastLogIndex_of_slice heard.slice] at short done
    have inside : m < logical.length := by
      obtain ⟨entry, -, right⟩ := pair.lastShared.shared
      exact (List.getElem?_eq_some_iff.mp right).1
    refine ⟨max (logical.length - 1 + 1) (leader.matchIndex i + 1), by omega, by omega,
      Or.inl (by omega), ?_⟩
    have ahead : leader.matchIndex i < args.prevLogIndex := by omega
    rw [done, onAppendEntriesReply_refused rfl rfl ahead (if_neg (by simp))]
    rfl
  · have found' : follower.entryAt? args.prevLogIndex = some own := by
      rw [← found, heardLeader_entryAt?]
    obtain ⟨low, mine⟩ := termAt_of_entryAt? pair.receiver.slice found'
    have start : (follower.heardLeader leader.currentTerm).conflictStart own.term
        args.prevLogIndex = follower.conflictStart own.term args.prevLogIndex := by
      rw [conflictStart_congr (heardLeader_log _ _) (heardLeader_lastIncludedIndex _ _)]
    rw [start] at done
    obtain ⟨later, next, scan, below, bound⟩ := pair.scanned
      ⟨leader.currentTerm, false, own.term, _⟩ above index low mine
      (fun theirs => differ (prev.unique theirs)) rfl rfl
    have ahead : leader.matchIndex i < args.prevLogIndex := by omega
    refine ⟨max next (leader.matchIndex i + 1), by omega, by omega, by omega, ?_⟩
    rw [done, onAppendEntriesReply_refused rfl rfl ahead ((if_pos ?_).trans scan)]
    · rfl
    · simp

/-- The answer to a round that starts below the follower's compaction point. -/
theorem round_compacted (above : leader.lastIncludedIndex < leader.nextIndex i)
    (compacted : leader.nextIndex i ≤ follower.lastIncludedIndex) :
    ∃ args : AppendEntriesArgs n C, args.prevLogIndex = leader.nextIndex i - 1 ∧
      replicateRound me i leader follower =
        (leader.onAppendEntriesReply me i args
          ⟨leader.currentTerm, false, -1, follower.lastIncludedIndex + 1⟩).map
          (.rejected · (follower.heardLeader leader.currentTerm)) := by
  obtain ⟨args, built, -, term, index⟩ := pair.sends me above
  have refused : (follower.heardLeader leader.currentTerm).checkPrev args =
      .ok (some (-1, follower.lastIncludedIndex + 1)) := by
    rw [checkPrev, heardLeader_lastIncludedIndex, if_pos (by omega)]
  exact ⟨args, index, pair.round_refused me above built term refused⟩

/-- A leader that knows a shorter match than it starts from jumps to the follower's
compaction point. -/
theorem round_jumps (above : leader.lastIncludedIndex < leader.nextIndex i)
    (compacted : leader.nextIndex i ≤ follower.lastIncludedIndex)
    (ahead : leader.matchIndex i + 1 < leader.nextIndex i) :
    replicateRound me i leader follower = .ok (.rejected
      (leader.steer i (follower.lastIncludedIndex + 1))
      (follower.heardLeader leader.currentTerm)) := by
  obtain ⟨args, index, done⟩ := pair.round_compacted me above compacted
  have ahead' : leader.matchIndex i < args.prevLogIndex := by omega
  rw [done, onAppendEntriesReply_refused rfl rfl ahead' (if_neg (by simp)),
    show max (follower.lastIncludedIndex + 1) (leader.matchIndex i + 1) =
      follower.lastIncludedIndex + 1 by omega]
  rfl

/-- A leader that starts right above the match it knows takes the answer for an
old one and changes nothing. -/
theorem round_stuck (above : leader.lastIncludedIndex < leader.nextIndex i)
    (compacted : leader.nextIndex i ≤ follower.lastIncludedIndex)
    (known : leader.nextIndex i = leader.matchIndex i + 1) :
    replicateRound me i leader follower =
      .ok (.rejected leader (follower.heardLeader leader.currentTerm)) := by
  obtain ⟨args, index, done⟩ := pair.round_compacted me above compacted
  rw [done, onAppendEntriesReply, if_neg (Nat.lt_irrefl _), if_neg (by simp), if_pos (by omega)]
  rfl

end

/-- The entry before the first one to be sent is still in the follower's log, or the
leader will send a snapshot. -/
def Retained (leader follower : Raft n C) (i : Fin n) : Prop :=
  follower.lastIncludedIndex < leader.nextIndex i ∨
    leader.nextIndex i ≤ leader.lastIncludedIndex

section

variable (pair : Behind leader follower led logical i m)

include pair

/-- A refused round goes back, but not past what is shared unless to a snapshot. -/
theorem rejects (retained : Retained leader follower i) {leader' follower' : Raft n C}
    (done : replicateRound me i leader follower = .ok (.rejected leader' follower')) :
    Behind leader' follower' led logical i m ∧ Retained leader' follower' i ∧
      leader'.lastIncludedIndex = leader.lastIncludedIndex ∧
      leader'.nextIndex i < leader.nextIndex i ∧
      (m + 1 ≤ leader'.nextIndex i ∨ leader'.nextIndex i ≤ leader.lastIncludedIndex) := by
  by_cases above : leader.lastIncludedIndex < leader.nextIndex i
  · have kept : follower.lastIncludedIndex < leader.nextIndex i := by
      unfold Retained at retained
      omega
    rcases pair.round_retained me above kept with ⟨_, accepted⟩ | ⟨v, known, less, bound, moved⟩
    · rw [accepted] at done
      cases done
    · rw [moved] at done
      obtain ⟨rfl, rfl⟩ := Round.rejected.inj (Except.ok.inj done)
      have within := pair.within
      have point := pair.snapshotPoint_le
      refine ⟨pair.steered known (by omega), ?_, rfl, by rwa [steer_nextIndex],
        by rw [steer_nextIndex]; omega⟩
      simp only [Retained, heardLeader_lastIncludedIndex, steer_nextIndex,
        steer_lastIncludedIndex]
      omega
  · rw [replicateRound, if_pos (by omega)] at done
    cases done

/-- Rounds go on for at most as long as `nextIndex` can go back. -/
theorem settles_of_retained (retained : Retained leader follower i) :
    ∃ rounds, settles me i rounds leader follower = true := by
  induction remaining : leader.nextIndex i using Nat.strongRecOn generalizing leader follower with
  | ind left ih =>
    by_cases above : leader.lastIncludedIndex < leader.nextIndex i
    · have kept : follower.lastIncludedIndex < leader.nextIndex i := by
        unfold Retained at retained
        omega
      rcases pair.round_retained me above kept with ⟨_, accepted⟩ | ⟨v, known, less, bound, moved⟩
      · exact ⟨1, by simp only [settles, accepted]⟩
      · obtain ⟨pair', retained', -, back, -⟩ := pair.rejects me retained moved
        obtain ⟨rounds, settled⟩ := ih _ (remaining ▸ back) pair' retained' rfl
        exact ⟨rounds + 1, by simp only [settles, moved, settled]⟩
    · exact ⟨1, by simp only [settles, replicateRound, if_pos (Nat.le_of_not_lt above)]⟩

/-- From below the follower's compaction point, but not right above the match it knows,
one round takes the leader to that point. -/
theorem jumped (compacted : ¬ Retained leader follower i)
    (ahead : leader.matchIndex i + 1 < leader.nextIndex i) :
    Behind (leader.steer i (follower.lastIncludedIndex + 1))
        (follower.heardLeader leader.currentTerm) led logical i m ∧
      Retained (leader.steer i (follower.lastIncludedIndex + 1))
        (follower.heardLeader leader.currentTerm) i ∧
      replicateRound me i leader follower = .ok (.rejected
        (leader.steer i (follower.lastIncludedIndex + 1))
        (follower.heardLeader leader.currentTerm)) := by
  obtain ⟨t, theirs, -⟩ := pair.snapshotPoint
  have inside := theirs.inside
  have last := lastLogIndex_of_slice pair.sender.slice
  unfold Retained at compacted
  refine ⟨pair.steered (by omega) (by omega), Or.inl ?_,
    pair.round_jumps me (by omega) (by omega) ahead⟩
  rw [heardLeader_lastIncludedIndex, steer_nextIndex]
  exact Nat.lt_succ_self _

theorem settles_of_ahead (ahead : leader.matchIndex i + 1 < leader.nextIndex i) :
    ∃ rounds, settles me i rounds leader follower = true := by
  by_cases retained : Retained leader follower i
  · exact pair.settles_of_retained me retained
  · obtain ⟨jumped, kept, moved⟩ := pair.jumped me retained ahead
    obtain ⟨rounds, settled⟩ := jumped.settles_of_retained me kept
    exact ⟨rounds + 1, by simp only [settles, moved, settled]⟩

/-- From below the follower's compaction point and right above the match it knows the
leader is refused for ever. -/
theorem never_settles (above : leader.lastIncludedIndex < leader.nextIndex i)
    (compacted : leader.nextIndex i ≤ follower.lastIncludedIndex)
    (known : leader.nextIndex i = leader.matchIndex i + 1) (rounds : Nat) :
    settles me i rounds leader follower = false := by
  induction rounds generalizing follower with
  | zero => rfl
  | succ rounds ih =>
    have stuck := pair.round_stuck me above compacted known
    have kept : Behind leader (follower.heardLeader leader.currentTerm) led logical i m := by
      have steered := pair.steered pair.behind pair.within
      rwa [steer_self] at steered
    simp only [settles, stuck]
    exact ih kept (by rwa [heardLeader_lastIncludedIndex])

end

/-- The leader will not be sent back to a place below what is shared. -/
def Fair (leader follower : Raft n C) (i : Fin n) (m : Nat) : Prop :=
  Retained leader follower i ∨
    leader.matchIndex i + 1 < leader.nextIndex i ∧ follower.lastIncludedIndex = m

/-- A refused round from a fair start does not overshoot, and the next one starts fair. -/
theorem rejects_fair (pair : Behind leader follower led logical i m)
    (fair : Fair leader follower i m) {leader' follower' : Raft n C}
    (done : replicateRound me i leader follower = .ok (.rejected leader' follower')) :
    Behind leader' follower' led logical i m ∧ Fair leader' follower' i m ∧
      leader'.lastIncludedIndex = leader.lastIncludedIndex ∧
      (m + 1 ≤ leader'.nextIndex i ∨ leader'.nextIndex i ≤ leader.lastIncludedIndex) := by
  by_cases retained : Retained leader follower i
  · obtain ⟨pair', retained', same, -, bound⟩ := pair.rejects me retained done
    exact ⟨pair', Or.inl retained', same, bound⟩
  · obtain ⟨ahead, point⟩ := fair.resolve_left retained
    obtain ⟨jumped, kept, moved⟩ := pair.jumped me retained ahead
    rw [moved] at done
    obtain ⟨rfl, rfl⟩ := Round.rejected.inj (Except.ok.inj done)
    refine ⟨jumped, Or.inl kept, rfl, Or.inl ?_⟩
    rw [steer_nextIndex, point]

/-- Every refused round after any number of refused rounds, from a fair start. -/
theorem reached_fair (pair : Behind leader follower led logical i m)
    (fair : Fair leader follower i m) {before after : Raft n C × Raft n C}
    (reached : Relation.ReflTransGen (Rejects me i) (leader, follower) before)
    (refused : Rejects me i before after) :
    m + 1 ≤ after.1.nextIndex i ∨ after.1.nextIndex i ≤ leader.lastIncludedIndex := by
  have situation : Behind before.1 before.2 led logical i m ∧ Fair before.1 before.2 i m ∧
      before.1.lastIncludedIndex = leader.lastIncludedIndex := by
    clear refused
    induction reached with
    | refl => exact ⟨pair, fair, rfl⟩
    | tail _ step ih =>
      obtain ⟨pair', fair', same⟩ := ih
      obtain ⟨pair'', fair'', same', -⟩ := pair'.rejects_fair me fair' step
      exact ⟨pair'', fair'', same'.trans same⟩
  obtain ⟨pair', fair', same⟩ := situation
  obtain ⟨-, -, -, bound⟩ := pair'.rejects_fair me fair' refused
  rwa [same] at bound

/-- Only a fair start keeps even the first refused round to its bound. -/
theorem fair_of_bound (pair : Behind leader follower led logical i m)
    (bound : ∀ after, Rejects me i (leader, follower) after →
      m + 1 ≤ after.1.nextIndex i ∨ after.1.nextIndex i ≤ leader.lastIncludedIndex) :
    Fair leader follower i m := by
  by_cases retained : Retained leader follower i
  · exact Or.inl retained
  have point := pair.snapshotPoint_le
  have behind := pair.behind
  by_cases ahead : leader.matchIndex i + 1 < leader.nextIndex i
  · obtain ⟨-, -, moved⟩ := pair.jumped me retained ahead
    have landed := bound (leader.steer i (follower.lastIncludedIndex + 1),
      follower.heardLeader leader.currentTerm) moved
    rw [steer_nextIndex] at landed
    unfold Retained at retained
    exact Or.inr ⟨ahead, by omega⟩
  · unfold Retained at retained
    have stuck := bound (leader, follower.heardLeader leader.currentTerm)
      (pair.round_stuck me (by omega) (by omega) (by omega))
    simp only at stuck
    omega

end Behind

/-- With both logs fixed, the two things that are asked of the back-up (every refused round
sets `nextIndex` above what is shared or to where the leader has only its snapshot, and some
round is accepted or sends the snapshot) hold exactly when the leader does not start below
the follower's compaction point, or has only its snapshot there, or starts higher than right
above the match it knows and nothing is shared above that point. The rounds alone end
unless the leader starts below that point and right above the match it knows. -/
theorem fast_backup_converges {leader follower : Raft n C} {led logical : List (LogEntry C)}
    (me : Fin n) {i : Fin n} {m : Nat} (pair : Behind leader follower led logical i m) :
    ((∀ before after, Relation.ReflTransGen (Rejects me i) (leader, follower) before →
        Rejects me i before after →
        m + 1 ≤ after.1.nextIndex i ∨ after.1.nextIndex i ≤ leader.lastIncludedIndex) ∧
      (∃ rounds, settles me i rounds leader follower = true) ↔
        follower.lastIncludedIndex < leader.nextIndex i ∨
          leader.nextIndex i ≤ leader.lastIncludedIndex ∨
          leader.matchIndex i + 1 < leader.nextIndex i ∧ follower.lastIncludedIndex = m) ∧
      ((∃ rounds, settles me i rounds leader follower = true) ↔
        follower.lastIncludedIndex < leader.nextIndex i ∨
          leader.nextIndex i ≤ leader.lastIncludedIndex ∨
          leader.matchIndex i + 1 < leader.nextIndex i) := by
  have ends : (∃ rounds, settles me i rounds leader follower = true) ↔
      follower.lastIncludedIndex < leader.nextIndex i ∨
        leader.nextIndex i ≤ leader.lastIncludedIndex ∨
        leader.matchIndex i + 1 < leader.nextIndex i := by
    refine ⟨fun ⟨rounds, settled⟩ => ?_, fun start => ?_⟩
    · by_contra low
      have behind := pair.behind
      rw [pair.never_settles me (by omega) (by omega) (by omega) rounds] at settled
      cases settled
    · rcases start with kept | snapshot | ahead
      · exact pair.settles_of_retained me (Or.inl kept)
      · exact pair.settles_of_retained me (Or.inr snapshot)
      · exact pair.settles_of_ahead me ahead
  refine ⟨⟨fun ⟨bound, _⟩ => ?_, fun fair => ⟨?_, ends.mpr (by omega)⟩⟩, ends⟩
  · exact or_assoc.mp (pair.fair_of_bound me fun after => bound _ after .refl)
  · intro before after reached refused
    exact pair.reached_fair me (or_assoc.mpr fair) reached refused

theorem aheadLeader_behind :
    Behind (aheadLeader.steer 1 3) tailedFollower aheadLeader.log tailedFollower.log 1 1 where
  sender := aheadLeader_holds.congr rfl rfl
  receiver := tailedFollower_holds
  matching := tailedFollower_matching
  term := by decide
  snapshotPoint := ⟨0, ⟨_, rfl, rfl⟩, ⟨_, rfl, rfl⟩⟩
  lastShared :=
    { shared := ⟨_, rfl, rfl⟩
      last := by
        intro k entry above present same
        match k with
        | 2 =>
          obtain rfl := Option.some.inj present
          cases same
        | k + 3 => cases present }
  matched := by decide
  behind := by decide
  within := by decide

/-- A leader that has just been elected is refused once. -/
theorem fast_backup_converges_tail :
    settles 0 1 1 (aheadLeader.steer 1 3) tailedFollower = false ∧
      ∃ rounds, settles 0 1 rounds (aheadLeader.steer 1 3) tailedFollower = true :=
  ⟨by decide +kernel, ((fast_backup_converges 0 aheadLeader_behind).1.mpr
    (Or.inl (by decide))).2⟩

/-- Server 0 gets its first entry to server 2 but not the replies, commits it with
server 1 and tells server 2, which applies it and compacts its log. -/
def compactedUnheard : List (Action 3 Nat) :=
  replicatedOnce ++ [.replicateToFollower 0 1, .handleAppendEntries 1, .receiveAppendEntries 1,
    .replicateToFollower 0 2, .handleAppendEntries 2, .applierRead 2, .applierSend 2,
    .applierAck 2, .snapshot 2 1 [7]]

/-- The follower compacts past `PrevLogIndex` before the leader hears of it: every
later round is refused, and every refusal is discarded as an old one. -/
theorem fast_backup_stuck :
    ∃ trace : List (Cluster 3 Nat), Cluster.FreshReplyRun trace ∧ ∃ σ ∈ trace,
      ∃ (led logical : List (LogEntry Nat)) (m : Nat), (σ.nodes 0).state = .leader ∧
        Behind (σ.nodes 0) (σ.nodes 2) led logical 2 m ∧
        Rejects 0 2 (σ.nodes 0, σ.nodes 2) (σ.nodes 0, σ.nodes 2) ∧
        ¬ m + 1 ≤ (σ.nodes 0).nextIndex 2 ∧
        ¬ (σ.nodes 0).nextIndex 2 ≤ (σ.nodes 0).lastIncludedIndex ∧
        ∀ rounds, settles 0 2 rounds (σ.nodes 0) (σ.nodes 2) = false := by
  obtain ⟨σ, past, run, checked⟩ := Runs.Run.ends Cluster.step Cluster.freshReply
    (Cluster.init 3 Nat) compactedUnheard
    (fun σ => decide ((σ.nodes 0).log = [⟨0, none⟩, ⟨1, some 7⟩] ∧
      (σ.nodes 0).lastIncludedIndex = 0 ∧ (σ.nodes 0).state = .leader ∧
      (σ.nodes 0).matchIndex 2 = 0 ∧ (σ.nodes 0).nextIndex 2 = 1 ∧
      (σ.nodes 2).log = [⟨1, some 7⟩] ∧ (σ.nodes 2).lastIncludedIndex = 1 ∧
      (σ.nodes 2).currentTerm = (σ.nodes 0).currentTerm ∧ (σ.nodes 2).state = .follower))
    (by decide +kernel)
  obtain ⟨log, lii, leads, known, next, log', lii', term, follows⟩ := of_decide_eq_true checked
  have last : (σ.nodes 0).lastLogIndex = 1 := by rw [lastLogIndex, log, lii]; rfl
  have pair : Behind (σ.nodes 0) (σ.nodes 2) [⟨0, none⟩, ⟨1, some 7⟩] [⟨0, none⟩, ⟨1, some 7⟩]
      2 1 :=
    { sender := ⟨by rw [log, lii]; exact ⟨rfl, rfl, rfl⟩, List.cons_ne_nil _ _⟩
      receiver := ⟨by rw [log', lii']; exact ⟨rfl, rfl, rfl⟩, List.cons_ne_nil _ _⟩
      matching := .of_shorter List.prefix_rfl
      term := Nat.le_of_eq term
      snapshotPoint := by
        rw [lii']
        exact ⟨1, ⟨_, rfl, rfl⟩, ⟨_, rfl, rfl⟩⟩
      lastShared :=
        { shared := ⟨_, rfl, rfl⟩
          last := by
            intro k entry above present
            have inside := (List.getElem?_eq_some_iff.mp present).1
            simp only [List.length_cons, List.length_nil] at inside
            omega }
      matched := by omega
      behind := by omega
      within := by omega }
  have stuck : Rejects 0 2 (σ.nodes 0, σ.nodes 2) (σ.nodes 0, σ.nodes 2) := by
    have round := pair.round_stuck 0 (by omega) (by omega) (by omega)
    rwa [heardLeader_of_follower term (by rw [follows]; exact fun same => by cases same)] at round
  exact ⟨_, run, σ, List.mem_cons_self .., _, _, 1, leads, pair, stuck, by omega, by omega,
    pair.never_settles 0 (by omega) (by omega) (by omega)⟩

end Raft

end KvStore
