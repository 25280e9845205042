import KvStore.Raft.StateMachineSafety

set_option autoImplicit false

/-! No access to a log is out of range, in runs whose replies are handled in the
term of their requests; and a run that breaks it. -/

namespace KvStore

open ReplicatedLog

variable {n : Nat} {C : Type} {σ : Cluster n C}

namespace Raft

variable {rf : Raft n C}

/-- Everything from the compaction point to the end of the log can be read. -/
theorem entryAt?_inside (nonempty : rf.log ≠ []) {i : Nat} (above : rf.lastIncludedIndex ≤ i)
    (below : i ≤ rf.lastLogIndex) : ∃ entry, rf.entryAt? i = some entry := by
  have positive := List.length_pos_iff.mpr nonempty
  unfold lastLogIndex at below
  have inside : i - rf.lastIncludedIndex < rf.log.length := by omega
  rw [entryAt?_eq above, List.getElem?_eq_getElem inside]
  exact ⟨_, rfl⟩

theorem entry_inside (nonempty : rf.log ≠ []) {i : Nat} (above : rf.lastIncludedIndex ≤ i)
    (below : i ≤ rf.lastLogIndex) : ∃ entry, rf.entry i = .ok entry := by
  obtain ⟨entry, found⟩ := entryAt?_inside nonempty above below
  exact ⟨entry, by rw [Raft.entry, found]; rfl⟩

theorem lastLogTerm_inside (nonempty : rf.log ≠ []) : ∃ t, rf.lastLogTerm = some t := by
  rw [lastLogTerm, List.getLast?_eq_some_getLast nonempty]
  exact ⟨_, rfl⟩

theorem startElection_ok (me : Fin n) (nonempty : rf.log ≠ []) : (rf.startElection me).isOk := by
  obtain ⟨t, found⟩ := lastLogTerm_inside nonempty
  rcases startElection_cases me rf with died | ⟨_, _, done⟩
  · have last : (rf.standing me).lastLogTerm = some t := found
    change ((rf.standing me).orPanic (rf.standing me).lastLogTerm).bind _ = _ at died
    rw [last] at died
    cases died
  · rw [done]
    rfl

theorem requestVote_ok (nonempty : rf.log ≠ []) (args : RequestVoteArgs n) :
    (rf.requestVote args).isOk := by
  have nonempty : (rf.raised args.term).log ≠ [] := by rwa [raised_log]
  obtain ⟨t, found⟩ := lastLogTerm_inside nonempty
  unfold requestVote castVote
  split
  · simp only [found, orPanic, bind, Except.bind, pure, Except.pure]
    split <;> rfl
  · rfl

theorem conflictStart_le (rf : Raft n C) (t i : Nat) : rf.conflictStart t i ≤ i := by
  induction i with
  | zero => exact Nat.le_refl _
  | succ i ih =>
    unfold conflictStart
    split
    · exact ih.trans (Nat.le_succ i)
    · exact Nat.le_refl _

/-- The consistency check reads only what is there, and tells the leader to retry
either right above the compaction point or no further than where it was. -/
theorem checkPrev_ok (nonempty : rf.log ≠ []) (args : AppendEntriesArgs n C) :
    ∃ result, rf.checkPrev args = .ok result ∧ ∀ conflict, result = some conflict →
      conflict.2 ≤ max rf.lastIncludedIndex args.prevLogIndex + 1 := by
  unfold checkPrev
  split
  · refine ⟨_, rfl, ?_⟩
    rintro _ ⟨⟩
    exact Nat.succ_le_succ (Nat.le_max_left _ _)
  split
  · refine ⟨_, rfl, ?_⟩
    rintro _ ⟨⟩
    simp only
    omega
  obtain ⟨prev, read⟩ := entry_inside nonempty (i := args.prevLogIndex) (by omega) (by omega)
  simp only [read, bind, Except.bind, pure, Except.pure]
  split
  · refine ⟨_, rfl, ?_⟩
    rintro _ ⟨⟩
    have start := rf.conflictStart_le prev.term args.prevLogIndex
    simp only
    omega
  · exact ⟨_, rfl, nofun⟩

theorem mergeEntries_ok (nonempty : rf.log ≠ []) {j : Nat} (above : rf.lastIncludedIndex ≤ j)
    (entries : List (LogEntry C)) : ∃ result, rf.mergeEntries j entries = .ok result := by
  induction entries generalizing j with
  | nil => exact ⟨_, rfl⟩
  | cons entry rest ih =>
    unfold mergeEntries
    split
    · exact ⟨_, rfl⟩
    obtain ⟨mine, read⟩ := entry_inside nonempty (i := j) above (by omega)
    simp only [read, bind, Except.bind, pure, Except.pure]
    split
    · exact ⟨_, rfl⟩
    · exact ih (by omega)

theorem appendEntries_ok (nonempty : rf.log ≠ []) (args : AppendEntriesArgs n C) :
    ∃ after reply, rf.appendEntries args = .ok (after, reply) ∧ (reply.success = false →
      reply.conflictIndex = 0 ∨ rf.currentTerm ≤ args.term ∧
        reply.conflictIndex ≤ max rf.lastIncludedIndex args.prevLogIndex + 1) := by
  unfold appendEntries
  split
  · exact ⟨_, _, rfl, fun _ => Or.inl rfl⟩
  rename_i recent
  have nonempty : (rf.heardLeader args.term).log ≠ [] := by rwa [heardLeader_log]
  obtain ⟨result, checked, bound⟩ := checkPrev_ok nonempty args
  rw [heardLeader_lastIncludedIndex] at bound
  simp only [checked, bind, Except.bind, pure, Except.pure]
  cases result with
  | some conflict =>
    exact ⟨_, _, rfl, fun _ => Or.inr ⟨Nat.le_of_not_lt recent, bound conflict rfl⟩⟩
  | none =>
    have passed : (rf.heardLeader args.term).lastIncludedIndex ≤ args.prevLogIndex := by
      unfold checkPrev at checked
      split at checked
      · cases checked
      · omega
    obtain ⟨merged, done⟩ := mergeEntries_ok nonempty (Nat.le_succ_of_le passed) args.entries
    simp only [done]
    exact ⟨_, _, rfl, nofun⟩

theorem advanceFrom_ok (me : Fin n) (nonempty : rf.log ≠ [])
    (compacted : rf.lastIncludedIndex ≤ rf.commitIndex) {N : Nat} (inside : N ≤ rf.lastLogIndex) :
    (rf.advanceFrom me N).isOk := by
  induction N with
  | zero => rfl
  | succ N ih =>
    unfold advanceFrom
    split
    · rfl
    obtain ⟨entry, read⟩ := entry_inside nonempty (i := N + 1) (by omega) inside
    simp only [read, bind, Except.bind, pure, Except.pure]
    split
    · rfl
    split
    · rfl
    · exact ih (by omega)

theorem advanceCommitIndex_ok (me : Fin n) (rf : Raft n C) (nonempty : rf.log ≠ [])
    (compacted : rf.lastIncludedIndex ≤ rf.commitIndex) :
    ∃ commitIndex, rf.advanceCommitIndex me = .ok { rf with commitIndex } := by
  have alive := advanceFrom_ok me nonempty compacted (Nat.le_refl rf.lastLogIndex)
  unfold advanceCommitIndex
  rcases advanceFrom_cases me rf rf.lastLogIndex with (same | died) | ⟨k, _, _, _, _, _, _, done⟩
  · exact ⟨rf.commitIndex, same⟩
  · rw [died] at alive
    cases alive
  · exact ⟨k, done⟩

theorem scanConflict_ok (nonempty : rf.log ≠ []) (reply : AppendEntriesReply) {j : Nat}
    (inside : j ≤ rf.lastLogIndex) :
    ∃ next, rf.scanConflict reply j = .ok next ∧ next ≤ max (j + 1) reply.conflictIndex := by
  induction j with
  | zero =>
    unfold scanConflict
    split
    · rename_i reached
      obtain ⟨entry, read⟩ := entry_inside nonempty reached.1 inside
      simp only [read, bind, Except.bind, pure, Except.pure]
      refine ⟨_, rfl, ?_⟩
      split <;> omega
    · exact ⟨_, rfl, Nat.le_max_right _ _⟩
  | succ j ih =>
    unfold scanConflict
    split
    · rename_i reached
      obtain ⟨entry, read⟩ := entry_inside nonempty reached.1 inside
      simp only [read, bind, Except.bind, pure, Except.pure]
      split
      · exact ⟨_, rfl, by omega⟩
      · obtain ⟨next, done, bound⟩ := ih (by omega)
        exact ⟨next, done, by omega⟩
    · exact ⟨_, rfl, Nat.le_max_right _ _⟩

theorem newAppendEntriesArgsFor_inside (me : Fin n) {i : Fin n} (nonempty : rf.log ≠ [])
    (above : rf.lastIncludedIndex < rf.nextIndex i) (below : rf.nextIndex i ≤ rf.lastLogIndex + 1) :
    (rf.newAppendEntriesArgsFor me i).isOk := by
  have positive := List.length_pos_iff.mpr nonempty
  obtain ⟨prev, read⟩ := entry_inside nonempty (i := rf.nextIndex i - 1) (by omega) (by omega)
  have low : rf.lastIncludedIndex ≤ rf.nextIndex i := by omega
  have high : rf.nextIndex i - rf.lastIncludedIndex ≤ rf.log.length := by
    unfold lastLogIndex at below
    omega
  simp only [newAppendEntriesArgsFor, suffix?, sliceIndex, low, ↓reduceIte, Option.bind_some, high,
    orPanic, read, bind, Except.bind, pure, Except.pure]
  rfl

theorem newInstallSnapshotArgs_inside (me : Fin n) (nonempty : rf.log ≠ []) :
    (rf.newInstallSnapshotArgs me).isOk := by
  have positive := List.length_pos_iff.mpr nonempty
  obtain ⟨dummy, read⟩ := entry_inside nonempty (Nat.le_refl rf.lastIncludedIndex) (by
    unfold lastLogIndex
    omega)
  simp only [newInstallSnapshotArgs, read, bind, Except.bind, pure, Except.pure]
  rfl

theorem snapshot_inside {index : Nat} (data : Bytes) (below : index ≤ rf.lastLogIndex) :
    (rf.snapshot index data).isOk := by
  unfold snapshot
  split
  · rfl
  rename_i above
  have low : rf.lastIncludedIndex ≤ index := by omega
  have high : index - rf.lastIncludedIndex ≤ rf.log.length := by
    unfold lastLogIndex at below
    omega
  simp only [suffix?, sliceIndex, low, ↓reduceIte, Option.bind_some, high, orPanic, bind,
    Except.bind, pure, Except.pure]
  rfl

theorem applierRead_inside (nonempty : rf.log ≠ [])
    (retained : rf.applier = .idle → rf.snapshotPending = false →
      rf.lastApplied < rf.commitIndex →
      rf.lastIncludedIndex ≤ rf.lastApplied + 1 ∧ rf.lastApplied + 1 ≤ rf.lastLogIndex) :
    rf.applierRead.isOk := by
  have positive := List.length_pos_iff.mpr nonempty
  unfold applierRead
  split
  · rename_i idle
    split
    · obtain ⟨dummy, read⟩ := entry_inside nonempty (Nat.le_refl rf.lastIncludedIndex) (by
        unfold lastLogIndex
        omega)
      simp only [read, bind, Except.bind, pure, Except.pure]
      rfl
    · rename_i calm
      split
      · rename_i behind
        obtain ⟨above, below⟩ := retained idle (by simpa using calm) behind
        obtain ⟨entry, read⟩ := entry_inside nonempty above below
        simp only [read, bind, Except.bind, pure, Except.pure]
        rfl
      · rfl
  · rfl

end Raft

/-- A reply that changes what its caller believes about a peer is handled in the
term of its request. -/
def Cluster.freshReply (σ : Cluster n C) : Action n C → Bool
  | .receiveAppendEntries k =>
    match σ.appendCalls[k]? with
    | some call =>
      match call.status with
      | .replied reply =>
        let rf := σ.nodes call.src
        let reach := if reply.success then call.args.prevLogIndex + call.args.entries.length
          else call.args.prevLogIndex
        decide (reply.term ≤ rf.currentTerm ∧ rf.matchIndex call.dst < reach →
          call.args.term = rf.currentTerm)
      | _ => true
    | none => true
  | action => σ.freshAck action

abbrev Cluster.FreshReplyRun (trace : List (Cluster n C)) : Prop :=
  Runs.Run Cluster.step (fun σ action => σ.freshReply action = true) (Cluster.init n C) trace

theorem Cluster.freshReply_ack {action : Action n C} (fresh : σ.freshReply action = true) :
    σ.freshAck action = true := by
  cases action with
  | receiveAppendEntries k =>
    simp only [freshReply] at fresh
    simp only [freshAck]
    cases found : σ.appendCalls[k]? with
    | none => rfl
    | some call =>
      simp only [found] at fresh ⊢
      cases status : call.status with
      | replied reply =>
        simp only [status, decide_eq_true_eq] at fresh ⊢
        rintro ⟨success, known, raises⟩
        simp only [success, ↓reduceIte] at fresh
        exact fresh ⟨known, raises⟩
      | _ => rfl
  | _ => exact fresh

theorem Cluster.freshReply_refused {k : Nat}
    {call : Call n (AppendEntriesArgs n C) AppendEntriesReply} {reply : AppendEntriesReply}
    (fresh : σ.freshReply (.receiveAppendEntries k) = true) (found : σ.appendCalls[k]? = some call)
    (replied : call.status = .replied reply) (refused : reply.success = false)
    (known : reply.term ≤ (σ.nodes call.src).currentTerm)
    (ahead : (σ.nodes call.src).matchIndex call.dst < call.args.prevLogIndex) :
    call.args.term = (σ.nodes call.src).currentTerm := by
  simp only [freshReply, found, replied, refused, decide_eq_true_eq] at fresh
  exact fresh ⟨known, ahead⟩

/-- A leader points no peer past the end of its log, and no refusal asks it to. -/
structure Indexed (σ : Cluster n C) (core : RaftCore n C) : Prop where
  next : ∀ s, (σ.nodes s).state = .leader → ∀ j,
    (σ.nodes s).nextIndex j ≤ (core.led (σ.nodes s).currentTerm).length
  refusals : ∀ call ∈ σ.appendCalls, ∀ reply, call.Answered reply → reply.success = false →
    reply.conflictIndex ≤ (core.led call.args.term).length

/-- A peer that leads afterwards led before, in the same term and with the same plans. -/
def Steered (rf rf' : Raft n C) : Prop :=
  rf'.state = .leader →
    rf.state = .leader ∧ rf'.currentTerm = rf.currentTerm ∧ rf'.nextIndex = rf.nextIndex

theorem Steered.refl (rf : Raft n C) : Steered rf rf := fun leads => ⟨leads, rfl, rfl⟩

theorem Steered.deposed {rf rf' : Raft n C} (deposed : rf'.state ≠ .leader) : Steered rf rf' :=
  fun leads => absurd leads deposed

theorem Steered.trans {rf rf' rf'' : Raft n C} (first : Steered rf rf')
    (second : Steered rf' rf'') : Steered rf rf'' := by
  intro leads
  obtain ⟨led, term, next⟩ := second leads
  obtain ⟨before, term', next'⟩ := first led
  exact ⟨before, term.trans term', next.trans next'⟩

theorem Steered.raised (rf : Raft n C) (t : Nat) : Steered rf (rf.raised t) := by
  unfold Raft.raised
  split
  · exact .deposed nofun
  · exact .refl rf

theorem Steered.heardLeader (rf : Raft n C) (t : Nat) : Steered rf (rf.heardLeader t) := by
  unfold Raft.heardLeader
  split
  · exact .deposed nofun
  split
  · exact .deposed nofun
  · exact .refl rf

theorem Steered.make (rf : Raft n C) (persister : Persister n C) :
    Steered rf (Raft.make persister) := by
  apply Steered.deposed
  rw [make_state]
  exact nofun

theorem Steered.installed (rf : Raft n C) (args : InstallSnapshotArgs n) :
    Steered rf (Raft.persist (rf.installed args)) := by
  obtain ⟨term, _, state, _⟩ := rf.installed_keeps args
  have next : (rf.installed args).nextIndex = rf.nextIndex := by
    unfold Raft.installed Raft.replaceLog
    dsimp only
    split <;> split <;> rfl
  exact fun leads => ⟨state ▸ leads, term, next⟩

namespace Indexed

variable {σ σ' : Cluster n C} {core core' : RaftCore n C}

section

variable (indexed : Indexed σ core)

include indexed

theorem extend (ext : Extends core core') : Indexed σ core' where
  next s leads j := (indexed.next s leads j).trans (ext.led _).length_le
  refusals call member reply answered refused :=
    (indexed.refusals call member reply answered refused).trans (ext.led _).length_le

/-- Peer `s` is now `rf`; its calls are those it had, or have been answered. -/
theorem update {s : Fin n} {rf : Raft n C} (nodes : σ'.nodes = Function.update σ.nodes s rf)
    (next : rf.state = .leader → ∀ j, rf.nextIndex j ≤ (core.led rf.currentTerm).length)
    (refusals : ∀ call ∈ σ'.appendCalls, ∀ reply, call.Answered reply → reply.success = false →
      reply.conflictIndex ≤ (core.led call.args.term).length) : Indexed σ' core := by
  refine ⟨?_, refusals⟩
  intro other leads j
  rw [nodes] at leads ⊢
  by_cases here : other = s
  · subst here
    rw [Function.update_self] at leads ⊢
    exact next leads j
  · rw [Function.update_of_ne here] at leads ⊢
    exact indexed.next other leads j

theorem steered_next {s : Fin n} {rf : Raft n C} (steered : Steered (σ.nodes s) rf)
    (leads : rf.state = .leader) (j : Fin n) :
    rf.nextIndex j ≤ (core.led rf.currentTerm).length := by
  obtain ⟨led, term, next⟩ := steered leads
  rw [term, next]
  exact indexed.next s led j

theorem setNode {s : Fin n} {rf : Raft n C} (nodes : σ'.nodes = Function.update σ.nodes s rf)
    (steered : Steered (σ.nodes s) rf) (appends : σ'.appendCalls = σ.appendCalls) :
    Indexed σ' core :=
  indexed.update nodes (indexed.steered_next steered) (appends ▸ indexed.refusals)

theorem congr (nodes : σ'.nodes = σ.nodes) (appends : σ'.appendCalls = σ.appendCalls) :
    Indexed σ' core :=
  ⟨nodes ▸ indexed.next, appends ▸ indexed.refusals⟩

/-- One call has a new status. -/
theorem setStatus {k : Nat} {call : Call n (AppendEntriesArgs n C) AppendEntriesReply}
    (status : CallStatus AppendEntriesReply)
    (bound : ∀ reply, status = .replied reply ∨ status = .received reply → reply.success = false →
      reply.conflictIndex ≤ (core.led call.args.term).length) :
    ∀ other ∈ σ.appendCalls.set k { call with status }, ∀ reply, other.Answered reply →
      reply.success = false → reply.conflictIndex ≤ (core.led other.args.term).length := by
  intro other member reply answered refused
  rcases List.mem_or_eq_of_mem_set member with old | rfl
  · exact indexed.refusals other old reply answered refused
  · exact bound reply answered refused

end

section replies

variable (rel : Rel σ core) (ledger : Ledger σ core) (indexed : Indexed σ core)

include rel ledger in
theorem log_nonempty (s : Fin n) : (σ.nodes s).log ≠ [] := by
  have long := (rel.nodes s).slice.length
  have compacted := (ledger.nodes s).applying.compacted
  have inside := (ledger.nodes s).inside
  apply List.length_pos_iff.mp
  omega

include rel in
/-- A leader's log is the log of its term. -/
theorem led_length {s : Fin n} (leads : (σ.nodes s).state = .leader) :
    (core.led (σ.nodes s).currentTerm).length = (σ.logical s).length := by
  rw [← rel.safe.sound.leaderLog _ _ ((rel.nodes s).leader leads) (rel.nodes s).current,
    (rel.nodes s).log]

include rel ledger in
theorem matched_inside {s : Fin n} (leads : (σ.nodes s).state = .leader) (j : Fin n) :
    (σ.nodes s).matchIndex j < (core.led (σ.nodes s).currentTerm).length := by
  by_cases zero : (σ.nodes s).matchIndex j = 0
  · rw [led_length rel leads, zero]
    exact Nat.zero_lt_of_lt (ledger.nodes s).inside
  · exact rel.safe.durable.inside _ _ _
      ((ledger.nodes s).matched leads j _ (Nat.pos_of_ne_zero zero) (Nat.le_refl _))

include rel ledger indexed in
/-- Crediting a peer of the current term's leader dies of nothing and points it
right above what it is credited with. -/
theorem credited_ok {s i : Fin n} {matched : Nat}
    (inside : matched + 1 ≤ (core.led (σ.nodes s).currentTerm).length) :
    ∃ after, Raft.advanceCommitIndex s { σ.nodes s with
        matchIndex := Function.update (σ.nodes s).matchIndex i matched
        nextIndex := Function.update (σ.nodes s).nextIndex i (matched + 1) } = .ok after ∧
      (after.state = .leader → ∀ j,
        after.nextIndex j ≤ (core.led after.currentTerm).length) := by
  obtain ⟨commitIndex, done⟩ := Raft.advanceCommitIndex_ok s { σ.nodes s with
      matchIndex := Function.update (σ.nodes s).matchIndex i matched
      nextIndex := Function.update (σ.nodes s).nextIndex i (matched + 1) }
    (log_nonempty rel ledger s) (ledger.nodes s).applying.compacted
  refine ⟨_, done, ?_⟩
  intro leads j
  by_cases here : j = i
  · subst here
    simp only [Function.update_self]
    exact inside
  · simp only [Function.update_of_ne here]
    exact indexed.next s leads j

include rel ledger indexed in
theorem onAppendEntriesReply_ok {k : Nat} {reply : AppendEntriesReply}
    {call : Call n (AppendEntriesArgs n C) AppendEntriesReply}
    (fresh : σ.freshReply (.receiveAppendEntries k) = true)
    (found : σ.appendCalls[k]? = some call) (replied : call.status = .replied reply)
    (alive : call.incarnation = σ.incarnation call.src) :
    ∃ after, (σ.nodes call.src).onAppendEntriesReply call.src call.dst call.args reply =
        .ok after ∧
      (after.state = .leader → ∀ j,
        after.nextIndex j ≤ (core.led after.currentTerm).length) := by
  have member := List.mem_of_getElem? found
  have ask := rel.appends call member
  obtain ⟨_, _, _, session⟩ := ledger.appends call member
  unfold Raft.onAppendEntriesReply
  split
  · exact ⟨_, rfl, nofun⟩
  rename_i known
  split
  · rename_i success
    dsimp only
    split
    · exact ⟨_, rfl, indexed.next call.src⟩
    · rename_i raises
      have term := Cluster.freshAck_append (Cluster.freshReply_ack fresh) found replied success
        (by omega) (by omega)
      refine credited_ok rel ledger indexed ?_
      have offered := (offer_led core call.args).length_le
      rw [ask.offer_length, term] at offered
      omega
  rename_i refused
  rw [Bool.not_eq_true] at refused
  split
  · exact ⟨_, rfl, indexed.next call.src⟩
  rename_i ahead
  have term := Cluster.freshReply_refused fresh found replied refused (by omega) (by omega)
  have leads := session alive term
  have inside := ask.prev.inside
  have bound := indexed.refusals call member reply (Or.inl replied) refused
  have matched := matched_inside rel ledger leads call.dst
  rw [term] at inside bound
  -- whatever the scan finds, the peer is pointed into the leader's log
  have pointed : ∀ next, next ≤ max (call.args.prevLogIndex + 1) reply.conflictIndex →
      ∀ j, Function.update (σ.nodes call.src).nextIndex call.dst
        (max next ((σ.nodes call.src).matchIndex call.dst + 1)) j ≤
        (core.led (σ.nodes call.src).currentTerm).length := by
    intro next low j
    by_cases here : j = call.dst
    · subst here
      rw [Function.update_self]
      omega
    · rw [Function.update_of_ne here]
      exact indexed.next call.src leads j
  split
  · have last : call.args.prevLogIndex ≤ (σ.nodes call.src).lastLogIndex := by
      rw [Raft.lastLogIndex_of_slice (rel.nodes call.src).slice, ← led_length rel leads]
      omega
    obtain ⟨next, scanned, low⟩ :=
      Raft.scanConflict_ok (log_nonempty rel ledger call.src) reply last
    rw [scanned]
    exact ⟨_, rfl, fun _ => pointed next low⟩
  · exact ⟨_, rfl, fun _ => pointed _ (Nat.le_max_right _ _)⟩

include rel ledger indexed in
theorem onInstallSnapshotReply_ok {k : Nat} {reply : InstallSnapshotReply}
    {call : Call n (Shipment n C) InstallSnapshotReply}
    (fresh : σ.freshReply (.receiveInstallSnapshot k) = true)
    (found : σ.snapshotCalls[k]? = some call) (replied : call.status = .replied reply) :
    ∃ after, (σ.nodes call.src).onInstallSnapshotReply call.src call.dst call.args.request
        reply = .ok after ∧
      (after.state = .leader → ∀ j,
        after.nextIndex j ≤ (core.led after.currentTerm).length) := by
  have ask := rel.snapshots call (List.mem_of_getElem? found)
  unfold Raft.onInstallSnapshotReply
  split
  · exact ⟨_, rfl, nofun⟩
  rename_i known
  split
  · rename_i raises
    have term := Cluster.freshAck_snapshot (Cluster.freshReply_ack fresh) found replied (by omega)
      raises
    refine credited_ok rel ledger indexed ?_
    have shipped := ask.covered.length_le
    rw [ask.length, term] at shipped
    exact shipped
  · exact ⟨_, rfl, indexed.next call.src⟩

include rel ledger indexed in
theorem handleAppendEntries {k : Nat} (moved : σ.handleAppendEntries k = some σ') :
    Indexed σ' core := by
  obtain ⟨call, found, _, outcome⟩ := Cluster.handleAppendEntries_cases moved
  have ask := rel.appends call (List.mem_of_getElem? found)
  have books := ledger.nodes call.dst
  obtain ⟨after, answer, done, bound⟩ :=
    Raft.appendEntries_ok (log_nonempty rel ledger call.dst) call.args
  rw [done] at outcome
  rcases outcome with ⟨_, _, same, rfl⟩ | ⟨_, died, _⟩
  · obtain ⟨rfl, rfl⟩ := Prod.mk.inj (Except.ok.inj same)
    have handled := (σ.nodes call.dst).appendEntries_outcome call.args
    rw [done] at handled
    refine indexed.update rfl (indexed.steered_next (s := call.dst) ?_) (indexed.setStatus _ ?_)
    · have heard := Steered.heardLeader (σ.nodes call.dst) call.args.term
      cases handled with
      | stale => exact .refl _
      | refused => exact heard
      | merged _ _ merged remaining _ _ _ merge _ =>
        refine heard.trans ?_
        unfold Raft.followCommit
        rcases Raft.mergeEntries_relogs merge with known | ⟨log, fresh⟩
        · rw [known]
          split <;> exact .refl _
        · rw [fresh]
          split <;> exact fun leads => ⟨leads, rfl, rfl⟩
    · rintro reply (answered | answered) refused
      · cases answered
        have inside := ask.prev.inside
        rcases bound refused with zero | ⟨recent, low⟩
        · omega
        · -- the leader of the request's term has everything this peer has committed
          have led : core.led call.args.term ≠ [] := by
            apply List.length_pos_iff.mp
            omega
          have shared := (books.committed.prefix_led rel.safe recent led).length_le
          have compacted := books.applying.compacted
          have long := books.inside
          rw [List.length_take] at shared
          omega
      · cases answered
  · cases died

include rel ledger indexed in
/-- One action with fresh replies, an election win apart. -/
theorem step_kept {action : Action n C} (fresh : σ.freshReply action = true)
    (moved : σ.step action = some σ')
    (other : ∀ k, action ≠ .receiveRequestVote k) : Indexed σ' core := by
  cases action with
  | startElection s =>
    rw [← Option.some.inj moved]
    rcases Raft.startElection_cases s (σ.nodes s) with died | ⟨_, _, stands⟩
    · simp only [Cluster.startElection, died]
      exact indexed.setNode rfl (.make _ _) rfl
    · simp only [Cluster.startElection, stands]
      exact indexed.setNode rfl (.deposed fun leads => by cases leads) rfl
  | handleRequestVote k =>
    obtain ⟨call, _, _, outcome⟩ := Cluster.handleRequestVote_cases moved
    have vote : Raft.VoteOutcome ((σ.nodes call.dst).raised call.args.term) call.args
        ((σ.nodes call.dst).requestVote call.args) := Raft.castVote_outcome _ _
    rcases outcome with ⟨rf, reply, done, rfl⟩ | ⟨rf, _, rfl⟩
    · rw [done] at vote
      refine indexed.setNode rfl ?_ rfl
      cases vote with
      | refused => exact .raised _ _
      | granted => exact .deposed fun leads => by cases leads
    · exact indexed.setNode rfl (.make _ _) rfl
  | receiveRequestVote k => exact absurd rfl (other k)
  | replicateToFollower s follower =>
    obtain ⟨_, _, outcome⟩ := Cluster.replicateToFollower_cases moved
    rcases outcome with ⟨rf, _, rfl⟩ | ⟨request, _, rfl⟩ | ⟨args, _, _, rfl⟩
    · exact indexed.setNode rfl (.make _ _) rfl
    · exact indexed.congr rfl rfl
    · refine ⟨indexed.next, ?_⟩
      intro call member reply answered
      rcases List.mem_append.mp member with old | new
      · exact indexed.refusals call old reply answered
      · rw [List.mem_singleton.mp new] at answered
        rcases answered with answered | answered <;> cases answered
  | handleAppendEntries k => exact handleAppendEntries rel ledger indexed moved
  | receiveAppendEntries k =>
    obtain ⟨call, reply, found, replied, alive, rfl⟩ := Cluster.receiveAppendEntries_cases moved
    obtain ⟨after, done, next⟩ :=
      onAppendEntriesReply_ok rel ledger indexed fresh found replied alive
    rw [done]
    refine indexed.update rfl next (indexed.setStatus _ ?_)
    rintro _ (answered | answered) refused
    · cases answered
    · cases answered
      exact indexed.refusals call (List.mem_of_getElem? found) reply (Or.inl replied) refused
  | handleInstallSnapshot k =>
    obtain ⟨call, _, _, after, reply, done, rfl⟩ := Cluster.handleInstallSnapshot_cases moved
    have outcome := Raft.installSnapshot_outcome (σ.nodes call.dst) call.args.request
    rw [done] at outcome
    refine indexed.setNode rfl ?_ rfl
    have raised := Steered.raised (σ.nodes call.dst) call.args.request.term
    cases outcome with
    | stale => exact .refl _
    | kept => exact raised
    | installed => exact raised.trans (.installed _ _)
  | receiveInstallSnapshot k =>
    obtain ⟨call, reply, found, replied, _, rfl⟩ := Cluster.receiveInstallSnapshot_cases moved
    obtain ⟨after, done, next⟩ := onInstallSnapshotReply_ok rel ledger indexed fresh found replied
    rw [done]
    exact indexed.update rfl next indexed.refusals
  | start s command =>
    rw [← Option.some.inj moved]
    rcases Cluster.start_cases σ s command with same | ⟨_, done⟩
    · rw [same]
      exact indexed
    · rw [done]
      exact indexed.setNode rfl (fun leads => ⟨leads, rfl, rfl⟩) rfl
  | snapshot s index data =>
    obtain ⟨_, rfl⟩ := Cluster.snapshot_inversion moved
    rcases Raft.snapshot_cases (σ.nodes s) index data with same | died | ⟨_, _, done⟩
    · rw [same]
      exact indexed.setNode rfl (.refl _) rfl
    · rw [died]
      exact indexed.setNode rfl (.make _ _) rfl
    · rw [done]
      exact indexed.setNode rfl (fun leads => ⟨leads, rfl, rfl⟩) rfl
  | applierRead s =>
    rcases Cluster.applierRead_inversion moved with
      rfl | ⟨_, _, _, _, rfl⟩ | ⟨_, _, _, _, _, rfl⟩
    · exact indexed.setNode rfl (.make _ _) rfl
    · exact indexed.setNode rfl (fun leads => ⟨leads, rfl, rfl⟩) rfl
    · exact indexed.setNode rfl (fun leads => ⟨leads, rfl, rfl⟩) rfl
  | applierSend s =>
    obtain ⟨msg, _, rfl⟩ := Cluster.applierSend_inversion moved
    exact indexed.setNode rfl (fun leads => ⟨leads, rfl, rfl⟩) rfl
  | applierAck s =>
    obtain ⟨msg, applied, _, _, rfl⟩ := Cluster.applierAck_inversion moved
    exact indexed.setNode rfl (fun leads => ⟨leads, rfl, rfl⟩) rfl
  | crash s =>
    rw [← Option.some.inj moved]
    exact indexed.setNode rfl (.make _ _) rfl

end replies

/-- A new leader points every peer right above its own log. -/
theorem receiveRequestVote (indexed : Indexed σ core) (after : Rel σ' core) {k : Nat}
    (moved : σ.receiveRequestVote k = some σ') : Indexed σ' core := by
  obtain ⟨call, reply, _, _, _, rfl⟩ := Cluster.receiveRequestVote_cases moved
  have outcome := Raft.onRequestVoteReply_outcome (σ.nodes call.src) call.args reply
  have node := after.nodes call.src
  have log := fun leads => led_length after (s := call.src) leads
  simp only [Cluster.setNode, Function.update_self] at node log
  generalize (σ.nodes call.src).onRequestVoteReply call.args reply = rf at *
  refine indexed.update rfl ?_ indexed.refusals
  cases outcome with
  | stepDown =>
    intro leads
    cases leads
  | ignored => exact indexed.next call.src
  | counted won _ standing _ =>
    intro leads
    rw [show ((σ.nodes call.src).tallied call.args.term won).state = (σ.nodes call.src).state from
      rfl, standing] at leads
    cases leads
  | elected =>
    intro leads j
    have last : ((σ.nodes call.src).tallied call.args.term true).elected.nextIndex j =
        ((σ.nodes call.src).tallied call.args.term true).elected.lastLogIndex + 1 := rfl
    have positive := after.safe.sound.log_nonempty call.src
    rw [(after.nodes call.src).log] at positive
    rw [last, log leads, Raft.lastLogIndex_of_slice node.slice]
    change 0 < (σ.logical call.src).length at positive
    omega

theorem step (indexed : Indexed σ core) (rel : Rel σ core) (ledger : Ledger σ core)
    (ext : Extends core core') (after : Rel σ' core') {action : Action n C}
    (fresh : σ.freshReply action = true) (moved : σ.step action = some σ') : Indexed σ' core' := by
  by_cases election : ∃ k, action = .receiveRequestVote k
  · obtain ⟨k, rfl⟩ := election
    exact (indexed.extend ext).receiveRequestVote after moved
  · exact (step_kept rel ledger indexed fresh moved (not_exists.mp election)).extend ext

end Indexed

/-- The books and the indices of a cluster are right. -/
def Cluster.Kept (σ : Cluster n C) : Prop :=
  ∃ core, (Rel σ core ∧ Observed core ∧ Ledger σ core) ∧ Indexed σ core

theorem Cluster.Kept.step {σ σ' : Cluster n C} {action : Action n C} (kept : σ.Kept)
    (fresh : σ.freshReply action = true) (moved : σ.step action = some σ') : σ'.Kept := by
  obtain ⟨core, ⟨rel, observed, ledger⟩, indexed⟩ := kept
  obtain ⟨middle, after, ext⟩ := rel.step moved
  obtain ⟨after, later⟩ := after.observe
  have ext := ext.trans later
  exact ⟨_, ⟨after, observe_observed _, (ledger.extend ext rel).step rel ext observed after
    (observe_observed _) (Cluster.freshReply_ack fresh) moved⟩,
    indexed.step rel ledger ext after fresh moved⟩

theorem Cluster.Kept.log_nonempty (kept : σ.Kept) (s : Fin n) : (σ.nodes s).log ≠ [] := by
  obtain ⟨core, ⟨rel, _, ledger⟩, _⟩ := kept
  exact Indexed.log_nonempty rel ledger s

theorem Cluster.Kept.applying (kept : σ.Kept) (s : Fin n) :
    Applying (σ.nodes s) (σ.delivered s) := by
  obtain ⟨_, ⟨_, _, ledger⟩, _⟩ := kept
  exact (ledger.nodes s).applying

theorem fresh_indexed {trace : List (Cluster n C)} (run : Cluster.FreshReplyRun trace) :
    ∀ σ ∈ trace, σ.Kept := by
  refine run.invariant ?_ fun _ _ _ fresh moved kept => kept.step fresh moved
  refine ⟨_, ⟨(Rel.init n C).observe.1, observe_observed _, Ledger.init n C⟩, ?_, nofun⟩
  intro s leads
  rw [show ((Cluster.init n C).nodes s).state = .follower from rfl] at leads
  cases leads

/-- The critical section that the action runs indexes a log out of range. -/
def Cluster.panics (σ : Cluster n C) : Action n C → Bool
  | .startElection s => !((σ.nodes s).startElection s).isOk
  | .handleRequestVote k =>
    σ.voteCalls[k]?.any fun call => !((σ.nodes call.dst).requestVote call.args).isOk
  | .replicateToFollower s follower =>
    (σ.nodes s).state = .leader &&
      if (σ.nodes s).nextIndex follower ≤ (σ.nodes s).lastIncludedIndex then
        !((σ.nodes s).newInstallSnapshotArgs s).isOk
      else !((σ.nodes s).newAppendEntriesArgsFor s follower).isOk
  | .handleAppendEntries k =>
    σ.appendCalls[k]?.any fun call => !((σ.nodes call.dst).appendEntries call.args).isOk
  | .receiveAppendEntries k =>
    σ.appendCalls[k]?.any fun call =>
      match call.status with
      | .replied reply =>
        call.incarnation = σ.incarnation call.src &&
          !((σ.nodes call.src).onAppendEntriesReply call.src call.dst call.args reply).isOk
      | _ => false
  | .receiveInstallSnapshot k =>
    σ.snapshotCalls[k]?.any fun call =>
      match call.status with
      | .replied reply =>
        call.incarnation = σ.incarnation call.src &&
          !((σ.nodes call.src).onInstallSnapshotReply call.src call.dst call.args.request
            reply).isOk
      | _ => false
  | .snapshot s index data =>
    index ≤ σ.delivered s && !((σ.nodes s).snapshot index data).isOk
  | .applierRead s => !(σ.nodes s).applierRead.isOk
  | _ => false

namespace Indexed

variable {σ : Cluster n C} {core : RaftCore n C}

section accesses

variable (rel : Rel σ core) (ledger : Ledger σ core) (indexed : Indexed σ core)

include rel indexed in
theorem next_le {s : Fin n} (leads : (σ.nodes s).state = .leader) (j : Fin n) :
    (σ.nodes s).nextIndex j ≤ (σ.nodes s).lastLogIndex + 1 := by
  have low := indexed.next s leads j
  rw [led_length rel leads] at low
  rw [Raft.lastLogIndex_of_slice (rel.nodes s).slice]
  omega

include rel ledger in
theorem commit_le (s : Fin n) : (σ.nodes s).commitIndex ≤ (σ.nodes s).lastLogIndex := by
  have inside := (ledger.nodes s).inside
  rw [Raft.lastLogIndex_of_slice (rel.nodes s).slice]
  omega

include rel ledger in
theorem delivered_le (s : Fin n) : σ.delivered s ≤ (σ.nodes s).lastLogIndex :=
  ((ledger.nodes s).applying.delivered.trans (ledger.nodes s).applying.committed).trans
    (commit_le rel ledger s)

include ledger in
theorem applier_above {s : Fin n} (idle : (σ.nodes s).applier = .idle)
    (calm : (σ.nodes s).snapshotPending = false) :
    (σ.nodes s).lastIncludedIndex < (σ.nodes s).lastApplied + 1 :=
  ((ledger.nodes s).applying.paced.readCommand idle calm none).2

include rel ledger indexed in
theorem not_panics {action : Action n C} (fresh : σ.freshReply action = true) :
    σ.panics action = false := by
  have nonempty := log_nonempty rel ledger
  cases action with
  | startElection s =>
    simp only [Cluster.panics, Raft.startElection_ok s (nonempty s), Bool.not_true]
  | handleRequestVote k =>
    simp only [Cluster.panics, Raft.requestVote_ok (nonempty _), Bool.not_true]
    cases σ.voteCalls[k]? <;> rfl
  | replicateToFollower s follower =>
    by_cases leads : (σ.nodes s).state = .leader
    · simp only [Cluster.panics, leads, decide_true, Bool.true_and]
      split
      · rw [Raft.newInstallSnapshotArgs_inside s (nonempty s)]
        rfl
      · rename_i above
        rw [Raft.newAppendEntriesArgsFor_inside s (nonempty s) (Nat.lt_of_not_le above)
          (next_le rel indexed leads follower)]
        rfl
    · simp only [Cluster.panics, leads, decide_false, Bool.false_and]
  | handleAppendEntries k =>
    simp only [Cluster.panics]
    cases found : σ.appendCalls[k]? with
    | none => rfl
    | some call =>
      obtain ⟨_, _, done, _⟩ := Raft.appendEntries_ok (nonempty call.dst) call.args
      simp only [Option.any_some, done]
      rfl
  | receiveAppendEntries k =>
    simp only [Cluster.panics]
    cases found : σ.appendCalls[k]? with
    | none => rfl
    | some call =>
      cases status : call.status with
      | replied reply =>
        simp only [Option.any_some, status]
        by_cases alive : call.incarnation = σ.incarnation call.src
        · obtain ⟨_, done, _⟩ :=
            onAppendEntriesReply_ok rel ledger indexed fresh found status alive
          rw [done]
          exact Bool.and_false _
        · simp only [alive, decide_false, Bool.false_and]
      | _ => simp only [Option.any_some, status]
  | receiveInstallSnapshot k =>
    simp only [Cluster.panics]
    cases found : σ.snapshotCalls[k]? with
    | none => rfl
    | some call =>
      cases status : call.status with
      | replied reply =>
        obtain ⟨_, done, _⟩ := onInstallSnapshotReply_ok rel ledger indexed fresh found status
        simp only [Option.any_some, status, done]
        exact Bool.and_false _
      | _ => simp only [Option.any_some, status]
  | snapshot s index data =>
    by_cases given : index ≤ σ.delivered s
    · simp only [Cluster.panics,
        Raft.snapshot_inside data (given.trans (delivered_le rel ledger s)), Bool.not_true,
        Bool.and_false]
    · simp only [Cluster.panics, given, decide_false, Bool.false_and]
  | applierRead s =>
    have inside := Raft.applierRead_inside (nonempty s) (by
      intro idle calm behind
      have above := applier_above ledger idle calm
      have last := commit_le rel ledger s
      omega)
    simp only [Cluster.panics, inside, Bool.not_true]
  | _ => rfl

end accesses

end Indexed

/-- Log index safety: in a run whose replies are handled in the term of their
requests, no critical section that may come next indexes a log out of range. -/
theorem log_index_safety {trace : List (Cluster n C)} (run : Cluster.FreshReplyRun trace) :
    ∀ σ ∈ trace,
      (∀ action, σ.freshReply action = true → σ.panics action = false) ∧
      (∀ s i, (σ.nodes s).lastIncludedIndex ≤ i → i ≤ (σ.nodes s).lastLogIndex →
        ∃ entry, (σ.nodes s).entryAt? i = some entry) ∧
      (∀ s follower, (σ.nodes s).state = .leader →
        (σ.nodes s).nextIndex follower ≤ (σ.nodes s).lastLogIndex + 1) ∧
      (∀ k call reply, σ.freshReply (.receiveAppendEntries k) = true →
        σ.appendCalls[k]? = some call → call.status = .replied reply →
        call.incarnation = σ.incarnation call.src → reply.success = false →
        reply.term ≤ (σ.nodes call.src).currentTerm →
        (σ.nodes call.src).matchIndex call.dst < call.args.prevLogIndex →
        call.args.prevLogIndex ≤ (σ.nodes call.src).lastLogIndex) ∧
      (∀ s, (σ.nodes s).applier = .idle → (σ.nodes s).snapshotPending = false →
        (σ.nodes s).lastApplied < (σ.nodes s).commitIndex →
        (σ.nodes s).lastIncludedIndex < (σ.nodes s).lastApplied + 1 ∧
          (σ.nodes s).lastApplied + 1 ≤ (σ.nodes s).lastLogIndex) ∧
      (∀ s index, index ≤ σ.delivered s → index ≤ (σ.nodes s).lastLogIndex) := by
  intro σ member
  obtain ⟨core, ⟨rel, _, ledger⟩, indexed⟩ := fresh_indexed run σ member
  refine ⟨?_, ?_, ?_, ?_, ?_, ?_⟩
  · intro action fresh
    exact indexed.not_panics rel ledger fresh
  · intro s i above below
    exact Raft.entryAt?_inside (Indexed.log_nonempty rel ledger s) above below
  · intro s follower leads
    exact Indexed.next_le rel indexed leads follower
  · intro k call reply fresh found replied alive refused known ahead
    have term := Cluster.freshReply_refused fresh found replied refused known ahead
    have inside := List.mem_of_getElem? found
    obtain ⟨_, _, _, session⟩ := ledger.appends call inside
    have prev := (rel.appends call inside).prev.inside
    rw [term, Indexed.led_length rel (session alive term)] at prev
    rw [Raft.lastLogIndex_of_slice (rel.nodes call.src).slice]
    omega
  · intro s idle calm behind
    exact ⟨Indexed.applier_above ledger idle calm,
      behind.trans_le (Indexed.commit_le rel ledger s)⟩
  · intro s index given
    exact given.trans (Indexed.delivered_le rel ledger s)

theorem log_index_safety_delivered :
    ∃ trace : List (Cluster 3 Nat), Cluster.FreshReplyRun trace ∧ ∃ σ ∈ trace,
      (σ.nodes 0).state = .leader ∧ (σ.nodes 0).nextIndex 2 = 2 ∧
      (σ.nodes 0).lastLogIndex = 1 ∧ σ.panics (.replicateToFollower 0 2) = false := by
  obtain ⟨past, run⟩ := Runs.Run.reached Cluster.step Cluster.freshReply (Cluster.init 3 Nat)
    deliveredTwice (by decide)
  refine ⟨_, run, _, List.mem_cons_self .., by decide, by decide, by decide, ?_⟩
  exact (log_index_safety run _ (List.mem_cons_self ..)).1 _ rfl

/-- As in `staleReply`, but server 0 handles the old reply before it starts a command. -/
def staleReplyShortLog : List (Action 3 Nat) :=
  staleReply.dropLast.dropLast ++ [.receiveAppendEntries 1]

set_option maxRecDepth 100000 in
/-- Without that condition a leader points a peer past the end of its log, and dies
building the next request. -/
theorem log_index_safety_broken :
    ∃ trace : List (Cluster 3 Nat), Cluster.Run trace ∧ ∃ σ ∈ trace,
      (σ.nodes 0).state = .leader ∧ (σ.nodes 0).nextIndex 2 = 3 ∧
      (σ.nodes 0).lastLogIndex = 1 ∧ σ.panics (.replicateToFollower 0 2) = true := by
  obtain ⟨trace, run, _, last⟩ := Cluster.run_through staleReplyShortLog []
    (by decide +kernel) (by decide +kernel)
  exact ⟨trace, run, _, last, by decide +kernel, by decide +kernel, by decide +kernel,
    by decide +kernel⟩

end KvStore
