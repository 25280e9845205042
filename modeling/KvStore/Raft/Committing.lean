import KvStore.Raft.Applying
import KvStore.Raft.Refinement

set_option autoImplicit false

/-! The ledger of a cluster: what its commit indices, match indices, messages and
deliveries are worth while no acknowledgement is credited to a later term. -/

namespace KvStore

open ReplicatedLog Quorum

variable {n : Nat} {C : Type}

abbrev RaftCommitted (core : RaftCore n C) (limit : Nat) (log : List (LogEntry C)) : Prop :=
  Committed LogEntry.term root core limit log

/-- A delivered command is the last entry of a committed prefix of its length. -/
def MsgSafe (core : RaftCore n C) : ApplyMsg C → Prop
  | .command command index => ∃ limit log entry, RaftCommitted core limit log ∧
      log.length = index + 1 ∧ log[index]? = some entry ∧ entry.command = command
  | .snapshot _ _ _ => True

theorem MsgSafe.extend {core core' : RaftCore n C} (ext : Extends core core') {msg : ApplyMsg C}
    (safe : MsgSafe core msg) : MsgSafe core' msg := by
  cases msg with
  | command command index =>
    obtain ⟨limit, log, entry, committed, rest⟩ := safe
    exact ⟨limit, log, entry, committed.extend ext, rest⟩
  | snapshot _ _ _ => trivial

/-- The books of one peer. -/
structure NodeLedger (rf : Raft n C) (logical : List (LogEntry C)) (delivered : Nat)
    (core : RaftCore n C) : Prop where
  applying : Applying rf delivered
  inside : rf.commitIndex < logical.length
  committed : RaftCommitted core rf.currentTerm (logical.take (rf.commitIndex + 1))
  flight : ∀ msg, rf.applier.InFlight msg → MsgSafe core msg
  matched : rf.state = .leader → ∀ j k, 0 < k → k ≤ rf.matchIndex j →
    core.acked j rf.currentTerm k

structure AppendLedger (call : Call n (AppendEntriesArgs n C) AppendEntriesReply)
    (core : RaftCore n C) : Prop where
  within : call.args.leaderCommit ≤ call.args.prevLogIndex + call.args.entries.length
  committed : RaftCommitted core call.args.term
    ((core.led call.args.term).take (call.args.leaderCommit + 1))
  acked : ∀ reply, call.Answered reply → reply.success = true →
    ∀ k ≤ call.args.prevLogIndex + call.args.entries.length, core.acked call.dst call.args.term k

structure SnapshotLedger (call : Call n (Shipment n C) InstallSnapshotReply)
    (core : RaftCore n C) : Prop where
  committed : RaftCommitted core call.args.request.term call.args.covered
  acked : ∀ reply, call.Answered reply → reply.term ≤ call.args.request.term →
    ∀ k ≤ call.args.request.lastIncludedIndex, core.acked call.dst call.args.request.term k

/-- The caller is still the leader it was when it sent the request, unless its
process or its term has changed. -/
def Session (nodes : Fin n → Raft n C) (incarnation : Fin n → Nat) (src : Fin n)
    (sentIn term : Nat) : Prop :=
  sentIn ≤ incarnation src ∧ term ≤ (nodes src).currentTerm ∧
    (sentIn = incarnation src → term = (nodes src).currentTerm → (nodes src).state = .leader)

structure Ledger (σ : Cluster n C) (core : RaftCore n C) : Prop where
  nodes : ∀ s, NodeLedger (σ.nodes s) (σ.logical s) (σ.delivered s) core
  applied : ∀ record ∈ σ.applied, MsgSafe core record.2
  appends : ∀ call ∈ σ.appendCalls, AppendLedger call core ∧
    Session σ.nodes σ.incarnation call.src call.incarnation call.args.term
  snapshots : ∀ call ∈ σ.snapshotCalls, SnapshotLedger call core ∧
    Session σ.nodes σ.incarnation call.src call.incarnation call.args.request.term

section extend

variable {core core' : RaftCore n C}

theorem NodeLedger.extend {rf : Raft n C} {logical : List (LogEntry C)} {delivered : Nat}
    (ext : Extends core core') (node : NodeLedger rf logical delivered core) :
    NodeLedger rf logical delivered core' where
  applying := node.applying
  inside := node.inside
  committed := node.committed.extend ext
  flight msg held := (node.flight msg held).extend ext
  matched leads j k positive low := ext.acked _ _ _ (node.matched leads j k positive low)

theorem AppendLedger.extend {call : Call n (AppendEntriesArgs n C) AppendEntriesReply}
    (ext : Extends core core') (ask : AppendRel call core) (books : AppendLedger call core) :
    AppendLedger call core' where
  within := books.within
  committed := by
    have length := ask.offer_length
    have fits := List.length_take_le' (call.args.prevLogIndex + 1 + call.args.entries.length)
      (core.led call.args.term)
    rw [← offer, length] at fits
    have within := books.within
    rw [prefix_take_of_getElem (ext.led _) (by omega)]
    exact books.committed.extend ext
  acked reply answered success k low := ext.acked _ _ _ (books.acked reply answered success k low)

theorem SnapshotLedger.extend {call : Call n (Shipment n C) InstallSnapshotReply}
    (ext : Extends core core') (books : SnapshotLedger call core) : SnapshotLedger call core' where
  committed := books.committed.extend ext
  acked reply answered valid k low := ext.acked _ _ _ (books.acked reply answered valid k low)

theorem Ledger.extend {σ : Cluster n C} (ext : Extends core core') (rel : Rel σ core)
    (ledger : Ledger σ core) : Ledger σ core' where
  nodes s := (ledger.nodes s).extend ext
  applied record member := (ledger.applied record member).extend ext
  appends call member :=
    ⟨(ledger.appends call member).1.extend ext (rel.appends call member),
      (ledger.appends call member).2⟩
  snapshots call member :=
    ⟨(ledger.snapshots call member).1.extend ext, (ledger.snapshots call member).2⟩

end extend

namespace NodeLedger

variable {core : RaftCore n C} {rf rf' : Raft n C} {logical logical' : List (LogEntry C)}
  {delivered : Nat}

section

variable (node : NodeLedger rf logical delivered core)

include node

/-- The peer's term rises, or it stops leading; nothing else that is booked changes. -/
theorem stepDown (applying : Applying rf' delivered) (applier : rf'.applier = rf.applier)
    (commit : rf'.commitIndex = rf.commitIndex) (term : rf.currentTerm ≤ rf'.currentTerm)
    (follower : rf'.state ≠ .leader) : NodeLedger rf' logical delivered core where
  applying := applying
  inside := commit ▸ node.inside
  committed := commit ▸ node.committed.later term
  flight := applier ▸ node.flight
  matched leads := absurd leads follower

theorem becomeFollower {t : Nat} (higher : rf.currentTerm < t) :
    NodeLedger (rf.becomeFollowerWithTerm t) logical delivered core :=
  node.stepDown (node.applying.keep rfl rfl rfl rfl (Nat.le_refl _)) rfl rfl (Nat.le_of_lt higher)
    nofun

theorem raised (t : Nat) : NodeLedger (rf.raised t) logical delivered core := by
  unfold Raft.raised
  split
  · exact node.becomeFollower ‹_›
  · exact node

theorem heardLeader (t : Nat) : NodeLedger (rf.heardLeader t) logical delivered core := by
  unfold Raft.heardLeader
  split
  · exact node.becomeFollower ‹_›
  split
  · exact node.stepDown (node.applying.keep rfl rfl rfl rfl (Nat.le_refl _)) rfl rfl
      (Nat.le_refl _) nofun
  · exact node

/-- After a restart only what the snapshot covers counts as committed. -/
theorem restart (saved : Saved rf) :
    NodeLedger (Raft.make rf.persister) logical
      (Raft.make rf.persister : Raft n C).lastIncludedIndex core := by
  have fresh : (Raft.make rf.persister : Raft n C).commitIndex =
        (Raft.make rf.persister : Raft n C).lastIncludedIndex ∧
      (Raft.make rf.persister : Raft n C).applier = .idle := by
    unfold Raft.make Raft.readPersist
    split <;> exact ⟨rfl, rfl⟩
  have low := node.applying.compacted
  have inside := node.inside
  refine ⟨.make _, ?_, ?_, ?_, ?_⟩
  · rw [fresh.1, saved.lastIncludedIndex]
    omega
  · rw [fresh.1, saved.lastIncludedIndex, saved.currentTerm]
    exact node.committed.shorten (List.take_prefix_take_left (by omega))
  · rw [fresh.2]
    rintro msg (flight | flight) <;> cases flight
  · rw [make_state]
    exact nofun

/-- A committed prefix of the old log is one of the new log. -/
theorem relog (kept : logical.take (rf.commitIndex + 1) <+: logical') :
    rf.commitIndex < logical'.length ∧
      logical'.take (rf.commitIndex + 1) = logical.take (rf.commitIndex + 1) := by
  have length : (logical.take (rf.commitIndex + 1)).length = rf.commitIndex + 1 := by
    have := node.inside
    rw [List.length_take]
    omega
  have long := kept.length_le
  refine ⟨by omega, ?_⟩
  rw [← length]
  exact (List.prefix_iff_eq_take.mp kept).symm.trans (by rw [length])

end

/-- Following a leader keeps what is committed. -/
theorem adopt_kept (safe : RaftSafe core) (node : NodeLedger rf logical delivered core)
    {offered : List (LogEntry C)} {t : Nat} (recent : rf.currentTerm ≤ t)
    (inside : offered <+: core.led t) (nonempty : offered ≠ []) :
    logical.take (rf.commitIndex + 1) <+: adopt logical offered := by
  have led : core.led t ≠ [] := by
    intro empty
    rw [empty, List.prefix_nil] at inside
    exact nonempty inside
  exact prefix_adopt (node.committed.prefix_led safe recent led) inside (List.take_prefix _ _)

/-- The log changes above what is committed. -/
theorem setLog (node : NodeLedger rf logical delivered core) (applying : Applying rf' delivered)
    (applier : rf'.applier = rf.applier) (commit : rf'.commitIndex = rf.commitIndex)
    (term : rf'.currentTerm = rf.currentTerm) (state : rf'.state = rf.state)
    (matched : rf'.matchIndex = rf.matchIndex)
    (kept : logical.take (rf.commitIndex + 1) <+: logical') :
    NodeLedger rf' logical' delivered core := by
  obtain ⟨inside, same⟩ := node.relog kept
  refine ⟨applying, commit ▸ inside, ?_, applier ▸ node.flight, ?_⟩
  · rw [commit, term, same]
    exact node.committed
  · rw [state, term, matched]
    exact node.matched

theorem commitTo (node : NodeLedger rf logical delivered core) {c : Nat}
    (up : rf.commitIndex ≤ c) (inside : c < logical.length)
    (committed : RaftCommitted core rf.currentTerm (logical.take (c + 1))) :
    NodeLedger { rf with commitIndex := c } logical delivered core where
  applying := node.applying.keep rfl rfl rfl rfl up
  inside := inside
  committed := committed
  flight := node.flight
  matched := node.matched

/-- A successful `AppendEntries`: the offer is adopted, and the leader's commit
index lies inside it. -/
theorem merged (safe : RaftSafe core) (node : NodeLedger rf logical delivered core)
    {call : Call n (AppendEntriesArgs n C) AppendEntriesReply} (ask : AppendRel call core)
    (books : AppendLedger call core) (term : rf.currentTerm = call.args.term) {after : Raft n C}
    (relogged : Raft.Relogged rf after (adopt logical (offer core call.args))) :
    NodeLedger (after.followCommit call.args.leaderCommit)
      (adopt logical (offer core call.args)) delivered core := by
  have kept := node.adopt_kept safe (Nat.le_of_eq term) (offer_led core call.args)
    ask.offer_nonempty
  have merged : NodeLedger after (adopt logical (offer core call.args)) delivered core ∧
      after.currentTerm = call.args.term ∧
      Slice after.log after.lastIncludedIndex (adopt logical (offer core call.args)) := by
    rcases relogged with ⟨rfl, slice⟩ | ⟨log, rfl, slice⟩
    · exact ⟨node.setLog node.applying rfl rfl rfl rfl rfl kept, term, slice⟩
    · refine ⟨node.setLog ?_ rfl rfl rfl rfl rfl kept, term, slice⟩
      exact node.applying.keep rfl rfl rfl rfl (Nat.le_refl _)
  obtain ⟨ledger, current, slice⟩ := merged
  have offered := offered_prefix_adopt logical (offer core call.args)
  have long := offered.length_le
  have within := books.within
  rw [ask.offer_length] at long
  unfold Raft.followCommit
  split
  · rename_i behind
    have target : min call.args.leaderCommit after.lastLogIndex = call.args.leaderCommit := by
      rw [Raft.lastLogIndex_of_slice slice]
      omega
    rw [target]
    refine ledger.commitTo (Nat.le_of_lt behind) (by omega) ?_
    have same : (adopt logical (offer core call.args)).take (call.args.leaderCommit + 1) =
        (core.led call.args.term).take (call.args.leaderCommit + 1) := by
      have inside : call.args.leaderCommit < (offer core call.args).length := by
        rw [ask.offer_length]
        omega
      rw [prefix_take_of_getElem offered inside,
        prefix_take_of_getElem (offer_led core call.args) inside]
    rw [current, same]
    exact books.committed
  · exact ledger

theorem installed (safe : RaftSafe core) (node : NodeLedger rf logical delivered core)
    {call : Call n (Shipment n C) InstallSnapshotReply} (ask : SnapshotRel call core)
    (books : SnapshotLedger call core) (term : rf.currentTerm = call.args.request.term)
    (ahead : rf.lastIncludedIndex < call.args.request.lastIncludedIndex) :
    NodeLedger (Raft.persist (rf.installed call.args.request)) (adopt logical call.args.covered)
      delivered core := by
  obtain ⟨current, _, state, _, _, _⟩ := rf.installed_keeps call.args.request
  obtain ⟨applying, applier, matched, commit⟩ := node.applying.installed ahead
  have nonempty : call.args.covered ≠ [] := by
    intro empty
    have := ask.length
    rw [empty, List.length_nil] at this
    omega
  have kept := node.adopt_kept safe (Nat.le_of_eq term) ask.covered nonempty
  have offered := offered_prefix_adopt logical call.args.covered
  have long := offered.length_le
  rw [ask.length] at long
  have applying : Applying (Raft.persist (rf.installed call.args.request)) delivered :=
    applying.keep rfl rfl rfl rfl (Nat.le_refl _)
  rcases commit with same | snapshot
  · exact node.setLog applying applier same current state matched kept
  · have prefix_ : (adopt logical call.args.covered).take
        (call.args.request.lastIncludedIndex + 1) = call.args.covered := by
      rw [← ask.length]
      exact (List.prefix_iff_eq_take.mp offered).symm
    refine ⟨applying, ?_, ?_, ?_, ?_⟩
    · change (rf.installed call.args.request).commitIndex < _
      rw [snapshot]
      omega
    · change RaftCommitted core (rf.installed call.args.request).currentTerm
        (List.take ((rf.installed call.args.request).commitIndex + 1) _)
      rw [snapshot, prefix_, current, term]
      exact books.committed
    · change ∀ msg, (rf.installed call.args.request).applier.InFlight msg → _
      rw [applier]
      exact node.flight
    · change (rf.installed call.args.request).state = .leader → ∀ j k, 0 < k →
        k ≤ (rf.installed call.args.request).matchIndex j →
        core.acked j (rf.installed call.args.request).currentTerm k
      rw [state, matched, current]
      exact node.matched

/-- The leader's commit rule: a majority has acknowledged an entry of its own term. -/
theorem advance (node : NodeLedger rf logical delivered core) {me : Fin n}
    (leads : rf.state = .leader) (led : logical <+: core.led rf.currentTerm)
    (own : ∀ k, k < logical.length → core.acked me rf.currentTerm k)
    (slice : Slice rf.log rf.lastIncludedIndex logical) :
    NodeLedger (Raft.settled (rf.advanceCommitIndex me)) logical delivered core := by
  unfold Raft.advanceCommitIndex
  rcases Raft.advanceFrom_cases me rf rf.lastLogIndex with
    (same | same) | ⟨k, entry, above, _, found, term, enough, done⟩
  · rw [same]
    exact node
  · rw [same]
    exact node
  · rw [done]
    obtain ⟨_, here⟩ := Raft.termAt_of_entryAt? slice found
    rw [term] at here
    refine node.commitTo (Nat.le_of_lt above) here.inside ?_
    refine .quorum rf.currentTerm k (Nat.le_refl _)
      (insert me (Finset.univ.filter fun j => j ≠ me ∧ k ≤ rf.matchIndex j)) ?_ ?_ ?_ ?_
    · rw [Majority, Fintype.card_fin, Finset.card_insert_of_notMem (by simp)]
      unfold Raft.replicas at enough
      omega
    · intro j member
      rcases Finset.mem_insert.mp member with rfl | counted
      · exact own k here.inside
      · exact node.matched leads j k (by omega) (Finset.mem_filter.mp counted).2.2
    · exact here.mono led
    · rw [prefix_take_of_getElem led here.inside]

/-- Crediting peer `i` with what it has acknowledged in the leader's term. -/
theorem credit (node : NodeLedger rf logical delivered core) {i : Fin n} {matched next : Nat}
    (acked : ∀ k ≤ matched, core.acked i rf.currentTerm k) :
    NodeLedger { rf with
      matchIndex := Function.update rf.matchIndex i matched
      nextIndex := Function.update rf.nextIndex i next } logical delivered core where
  applying := node.applying.keep rfl rfl rfl rfl (Nat.le_refl _)
  inside := node.inside
  committed := node.committed
  flight := node.flight
  matched leads j k positive low := by
    by_cases here : j = i
    · subst here
      simp only [Function.update_self] at low
      exact acked k low
    · simp only [Function.update_of_ne here] at low
      exact node.matched leads j k positive low

end NodeLedger

end KvStore
