import KvStore.ReplicatedLog.Moves
import KvStore.Raft.Adoption

set_option autoImplicit false

/-! How the abstract protocol describes a cluster: peer by peer and RPC by RPC. -/

namespace KvStore

open ReplicatedLog

variable {n : Nat} {C : Type} {rf : Raft n C}

/-- The entry every log starts with. -/
def root : LogEntry C := { term := 0, command := none }

abbrev RaftCore (n : Nat) (C : Type) := Core (Fin n) (LogEntry C)

abbrev RaftSafe (core : RaftCore n C) : Prop := Safe LogEntry.term root core

abbrev RaftMoved (s : Fin n) (core next : RaftCore n C) : Prop :=
  Moved LogEntry.term root s core next

/-- Reading back the stable storage gives what the peer has in memory. -/
structure Saved (rf : Raft n C) : Prop where
  currentTerm : (Raft.make rf.persister : Raft n C).currentTerm = rf.currentTerm
  votedFor : (Raft.make rf.persister : Raft n C).votedFor = rf.votedFor
  log : (Raft.make rf.persister : Raft n C).log = rf.log
  lastIncludedIndex :
    (Raft.make rf.persister : Raft n C).lastIncludedIndex = rf.lastIncludedIndex
  snapshotData : (Raft.make rf.persister : Raft n C).snapshotData = rf.snapshotData

theorem Saved.persist (rf : Raft n C) : Saved rf.persist := ⟨rfl, rfl, rfl, rfl, rfl⟩

theorem Saved.raised (saved : Saved rf) (t : Nat) : Saved (rf.raised t) := by
  unfold Raft.raised
  split
  · exact .persist _
  · exact saved

theorem Saved.heardLeader (saved : Saved rf) (t : Nat) : Saved (rf.heardLeader t) := by
  unfold Raft.heardLeader
  split
  · exact .persist _
  split
  · exact ⟨saved.1, saved.2, saved.3, saved.4, saved.5⟩
  · exact saved

theorem Saved.quiet {rf rf' : Raft n C} (saved : Saved rf) (quiet : Raft.Quiet rf rf') :
    Saved rf' := by
  obtain ⟨persister, currentTerm, votedFor, log, snapshotData, index, _, _⟩ := quiet
  refine ⟨?_, ?_, ?_, ?_, ?_⟩
  · rw [persister, currentTerm, saved.currentTerm]
  · rw [persister, votedFor, saved.votedFor]
  · rw [persister, log, saved.log]
  · rw [persister, index, saved.lastIncludedIndex]
  · rw [persister, snapshotData, saved.snapshotData]

theorem Saved.reply {result : Except (Raft n C) (Raft n C)} (saved : Saved rf)
    (outcome : Raft.ReplyOutcome rf result) : Saved (Raft.settled result) := by
  cases outcome with
  | stepDown term _ => exact .persist _
  | quiet result quiet => exact saved.quiet quiet

@[simp] theorem make_persister (persister : Persister n C) :
    (Raft.make persister : Raft n C).persister = persister := by
  unfold Raft.make Raft.readPersist
  split <;> rfl

@[simp] theorem make_state (persister : Persister n C) :
    (Raft.make persister : Raft n C).state = .follower := by
  unfold Raft.make Raft.readPersist
  split <;> rfl

@[simp] theorem make_voteCount (persister : Persister n C) (t : Nat) :
    ((Raft.make persister : Raft n C).ballots t).voteCount = 0 := by
  unfold Raft.make Raft.readPersist
  split <;> rfl

/-- Peer `s` as the abstract protocol sees it. A candidate may have installed a
snapshot since it stood, but only once its term had a leader. -/
structure NodeRel (s : Fin n) (rf : Raft n C) (logical : List (LogEntry C))
    (core : RaftCore n C) : Prop where
  current : core.current s = rf.currentTerm
  log : core.log s = logical
  vote : core.vote s rf.currentTerm = rf.votedFor
  slice : Slice rf.log rf.lastIncludedIndex logical
  saved : Saved rf
  leader : rf.state = .leader → core.leader rf.currentTerm = some s
  candidate : rf.state = .candidate → core.leader rf.currentTerm ≠ some s ∧
    ∃ log, core.stood s rf.currentTerm = some log ∧
      (core.leader rf.currentTerm = none → log = logical)

namespace NodeRel

variable {s : Fin n} {rf rf' : Raft n C} {logical : List (LogEntry C)} {core core' : RaftCore n C}

/-- Another server's moves do not disturb this peer. -/
theorem frame (node : NodeRel s rf logical core) {other : Fin n} (apart : s ≠ other)
    (moved : RaftMoved other core core') : NodeRel s rf logical core' where
  current := (moved.current s apart).trans node.current
  log := (moved.log s apart).trans node.log
  vote := (congrFun (moved.vote s apart) _).trans node.vote
  slice := node.slice
  saved := node.saved
  leader leads := moved.extended.leader _ _ (node.leader leads)
  candidate stands := by
    obtain ⟨notLeader, log, stood, unled⟩ := node.candidate stands
    refine ⟨fun leads => notLeader (moved.leader s apart _ leads), log,
      moved.extended.stood _ _ _ stood, fun vacant => unled ?_⟩
    cases old : core.leader rf.currentTerm with
    | none => rfl
    | some c =>
      rw [moved.extended.leader _ _ old] at vacant
      cases vacant

theorem quiet (node : NodeRel s rf logical core) (quiet : Raft.Quiet rf rf') :
    NodeRel s rf' logical core := by
  have saved := node.saved.quiet quiet
  obtain ⟨_, currentTerm, votedFor, log, _, index, state, _⟩ := quiet
  refine ⟨?_, node.log, ?_, ?_, saved, ?_, ?_⟩
  · rw [currentTerm, node.current]
  · rw [currentTerm, votedFor, node.vote]
  · rw [log, index]
    exact node.slice
  · rw [state, currentTerm]
    exact node.leader
  · rw [state, currentTerm]
    exact node.candidate

/-- A process that dies comes back as a follower with the same log and vote. -/
theorem restart (node : NodeRel s rf logical core) :
    NodeRel s (Raft.make rf.persister) logical core := by
  obtain ⟨savedTerm, savedVote, savedLog, savedIndex, savedData⟩ := node.saved
  refine ⟨?_, node.log, ?_, ?_, ⟨?_, ?_, ?_, ?_, ?_⟩, ?_, ?_⟩
  · rw [savedTerm, node.current]
  · rw [savedTerm, savedVote, node.vote]
  · rw [savedLog, savedIndex]
    exact node.slice
  all_goals try rw [make_persister]
  all_goals
    intro state
    rw [make_state] at state
    cases state

theorem becomeFollower (safe : RaftSafe core) (node : NodeRel s rf logical core) {t : Nat}
    (higher : rf.currentTerm < t) :
    RaftMoved s core (core.advance s t) ∧
      NodeRel s (rf.becomeFollowerWithTerm t) logical (core.advance s t) := by
  have below : core.current s < t := by rwa [node.current]
  refine ⟨.advance safe below, ?_, node.log, ?_, node.slice, .persist _, ?_, ?_⟩
  · simp [Core.advance, Raft.becomeFollowerWithTerm, Raft.persist]
  · -- no vote can have been cast in a term never reached
    change core.vote s t = none
    cases cast : core.vote s t with
    | none => rfl
    | some c =>
      have := safe.sound.voteBound s t c cast
      omega
  all_goals
    intro state
    cases state

/-- Catching up with the term of a request, whatever its outcome later. -/
theorem raised (safe : RaftSafe core) (node : NodeRel s rf logical core) (t : Nat) :
    ∃ core', RaftMoved s core core' ∧ NodeRel s (rf.raised t) logical core' := by
  unfold Raft.raised
  split
  · exact ⟨_, node.becomeFollower safe ‹_›⟩
  · exact ⟨core, .refl safe s, node⟩

theorem heardLeader (safe : RaftSafe core) (node : NodeRel s rf logical core) (t : Nat) :
    ∃ core', RaftMoved s core core' ∧ NodeRel s (rf.heardLeader t) logical core' := by
  unfold Raft.heardLeader
  split
  · exact ⟨_, node.becomeFollower safe ‹_›⟩
  split
  · have saved := node.saved
    refine ⟨core, .refl safe s, node.current, node.log, node.vote, node.slice,
      ⟨saved.currentTerm, saved.votedFor, saved.log, saved.lastIncludedIndex,
        saved.snapshotData⟩, ?_, ?_⟩
    all_goals
      intro state
      cases state
  · exact ⟨core, .refl safe s, node⟩

/-- The peer follows the leader of its term. -/
theorem accept (node : NodeRel s rf logical core) (led : core.leader rf.currentTerm ≠ none)
    (offered : List (LogEntry C)) (term : rf'.currentTerm = rf.currentTerm)
    (vote : rf'.votedFor = rf.votedFor) (state : rf'.state = rf.state) (saved : Saved rf')
    (slice : Slice rf'.log rf'.lastIncludedIndex (adopt logical offered)) :
    NodeRel s rf' (adopt logical offered) (core.accept s offered) := by
  refine ⟨?_, ?_, ?_, slice, saved, ?_, ?_⟩
  · rw [term]
    exact node.current
  · simp [Core.accept, node.log]
  · rw [term, vote]
    exact node.vote
  · rw [term, state]
    exact node.leader
  · rw [term, state]
    intro stands
    obtain ⟨notLeader, log, stood, _⟩ := node.candidate stands
    exact ⟨notLeader, log, stood, fun vacant => absurd vacant led⟩

end NodeRel

/-- The reply of a call, once there is one. -/
def Call.Answered {Args Reply : Type} (call : Call n Args Reply) (reply : Reply) : Prop :=
  call.status = .replied reply ∨ call.status = .received reply

structure VoteRel (call : Call n (RequestVoteArgs n) RequestVoteReply) (core : RaftCore n C) :
    Prop where
  apart : call.src ≠ call.dst
  candidate : call.args.candidateId = call.src
  stood : ∃ log, core.stood call.src call.args.term = some log ∧
    log.length = call.args.lastLogIndex + 1 ∧
    TermAt LogEntry.term log call.args.lastLogIndex call.args.lastLogTerm
  granted : ∀ reply, call.Answered reply → reply.voteGranted = true →
    reply.term = call.args.term ∧ core.vote call.dst call.args.term = some call.src

structure AppendRel (call : Call n (AppendEntriesArgs n C) AppendEntriesReply)
    (core : RaftCore n C) : Prop where
  leader : core.leader call.args.term = some call.src
  prev : TermAt LogEntry.term (core.led call.args.term) call.args.prevLogIndex
    call.args.prevLogTerm
  entries : call.args.entries <+: (core.led call.args.term).drop (call.args.prevLogIndex + 1)

structure SnapshotRel (call : Call n (Shipment n C) InstallSnapshotReply)
    (core : RaftCore n C) : Prop where
  leader : core.leader call.args.request.term = some call.src
  covered : call.args.covered <+: core.led call.args.request.term
  length : call.args.covered.length = call.args.request.lastIncludedIndex + 1
  last : TermAt LogEntry.term call.args.covered call.args.request.lastIncludedIndex
    call.args.request.lastIncludedTerm

theorem VoteRel.extend {call : Call n (RequestVoteArgs n) RequestVoteReply}
    {core core' : RaftCore n C} (rel : VoteRel call core) (ext : Extends core core') :
    VoteRel call core' where
  apart := rel.apart
  candidate := rel.candidate
  stood := by
    obtain ⟨log, standing, shape⟩ := rel.stood
    exact ⟨log, ext.stood _ _ _ standing, shape⟩
  granted reply answered yes :=
    ⟨(rel.granted reply answered yes).1, ext.vote _ _ _ (rel.granted reply answered yes).2⟩

theorem AppendRel.extend {call : Call n (AppendEntriesArgs n C) AppendEntriesReply}
    {core core' : RaftCore n C} (rel : AppendRel call core) (ext : Extends core core') :
    AppendRel call core' where
  leader := ext.leader _ _ rel.leader
  prev := rel.prev.mono (ext.led _)
  entries := rel.entries.trans ((ext.led _).drop _)

theorem SnapshotRel.extend {call : Call n (Shipment n C) InstallSnapshotReply}
    {core core' : RaftCore n C} (rel : SnapshotRel call core) (ext : Extends core core') :
    SnapshotRel call core' where
  leader := ext.leader _ _ rel.leader
  covered := rel.covered.trans (ext.led _)
  length := rel.length
  last := rel.last

/-- The part of the leader's log a request offers: through its last entry. -/
def offer (core : RaftCore n C) (args : AppendEntriesArgs n C) : List (LogEntry C) :=
  (core.led args.term).take (args.prevLogIndex + 1 + args.entries.length)

theorem offer_led (core : RaftCore n C) (args : AppendEntriesArgs n C) :
    offer core args <+: core.led args.term := List.take_prefix _ _

section offers

variable {call : Call n (AppendEntriesArgs n C) AppendEntriesReply} {core : RaftCore n C}

theorem AppendRel.offered (ask : AppendRel call core) :
    Raft.Offered (core.led call.args.term) call.args := ⟨ask.prev, ask.entries⟩

theorem AppendRel.offer_length (ask : AppendRel call core) :
    (offer core call.args).length = call.args.prevLogIndex + 1 + call.args.entries.length :=
  ask.offered.length

theorem AppendRel.offer_nonempty (ask : AppendRel call core) : offer core call.args ≠ [] := by
  intro empty
  have := ask.offer_length
  rw [empty, List.length_nil] at this
  omega

/-- Once the consistency check has passed, the peer ends with the offer adopted. -/
theorem AppendRel.merged (safe : RaftSafe core) (ask : AppendRel call core) {rf : Raft n C}
    {logical : List (LogEntry C)} (slice : Slice rf.log rf.lastIncludedIndex logical)
    (mine : Coherent LogEntry.term core.led logical) {prev : LogEntry C}
    (found : rf.entryAt? call.args.prevLogIndex = some prev)
    (same : prev.term = call.args.prevLogTerm) {merged : Raft n C}
    {remaining : List (LogEntry C)}
    (merge : rf.mergeEntries (call.args.prevLogIndex + 1) call.args.entries =
      .ok (merged, remaining)) :
    Raft.Relogged rf (merged.appendRemaining remaining) (adopt logical (offer core call.args)) ∧
      (adopt logical (offer core call.args)).take (rf.lastIncludedIndex + 1) =
        logical.take (rf.lastIncludedIndex + 1) :=
  ask.offered.merged slice (mine.matching (safe.sound.coherentLed call.args.term)) found same merge

/-- The logical log after the merge is the adopted one. -/
theorem AppendRel.merged_relog (safe : RaftSafe core) (ask : AppendRel call core) {rf : Raft n C}
    {logical : List (LogEntry C)} (slice : Slice rf.log rf.lastIncludedIndex logical)
    (mine : Coherent LogEntry.term core.led logical) {prev : LogEntry C}
    (found : rf.entryAt? call.args.prevLogIndex = some prev)
    (same : prev.term = call.args.prevLogTerm) {merged : Raft n C}
    {remaining : List (LogEntry C)}
    (merge : rf.mergeEntries (call.args.prevLogIndex + 1) call.args.entries =
      .ok (merged, remaining)) (leaderCommit : Nat) :
    Cluster.relog logical ((merged.appendRemaining remaining).followCommit leaderCommit) =
      adopt logical (offer core call.args) := by
  obtain ⟨relogged, below⟩ := ask.merged safe slice mine found same merge
  have quiet := Raft.followCommit_quiet (merged.appendRemaining remaining) leaderCommit
  rw [Cluster.relog, quiet.lastIncludedIndex, quiet.log]
  rcases relogged with ⟨same, slice'⟩ | ⟨log, same, slice'⟩
  · rw [same, ← below, slice'.relog]
  · rw [same, Raft.persist_log, Raft.persist_lastIncludedIndex, ← below]
    exact slice'.relog

end offers

/-- The election a `RequestVote` belongs to and the voter asked. -/
def voteKey (call : Call n (RequestVoteArgs n) RequestVoteReply) : Fin n × Nat × Fin n :=
  (call.src, call.args.term, call.dst)

/-- Behind every counted vote stands a granted reply the candidate has handled. -/
def Counted (nodes : Fin n → Raft n C)
    (calls : List (Call n (RequestVoteArgs n) RequestVoteReply)) :
    Prop :=
  ∀ s t, ∃ voters : Finset (Fin n), ((nodes s).ballots t).voteCount ≤ voters.card + 1 ∧
    ∀ voter ∈ voters, ∃ call ∈ calls, voteKey call = (s, t, voter) ∧
      ∃ reply, call.status = .received reply ∧ reply.voteGranted = true

/-- The abstract state `core` describes the cluster `σ`. -/
structure Rel (σ : Cluster n C) (core : RaftCore n C) : Prop where
  safe : RaftSafe core
  nodes : ∀ s, NodeRel s (σ.nodes s) (σ.logical s) core
  counted : Counted σ.nodes σ.voteCalls
  voteOnce : (σ.voteCalls.map voteKey).Nodup
  votes : ∀ call ∈ σ.voteCalls, VoteRel call core
  appends : ∀ call ∈ σ.appendCalls, AppendRel call core
  snapshots : ∀ call ∈ σ.snapshotCalls, SnapshotRel call core

theorem Counted.update {nodes : Fin n → Raft n C}
    {calls : List (Call n (RequestVoteArgs n) RequestVoteReply)} (counted : Counted nodes calls)
    {s : Fin n} (fewer : ∀ t, (rf.ballots t).voteCount ≤ ((nodes s).ballots t).voteCount) :
    Counted (Function.update nodes s rf) calls := by
  intro j t
  obtain ⟨voters, enough, known⟩ := counted j t
  refine ⟨voters, ?_, known⟩
  by_cases same : j = s
  · subst same
    simpa only [Function.update_self] using (fewer t).trans enough
  · simpa only [Function.update_of_ne same] using enough

namespace Rel

variable {σ : Cluster n C} {core core' : RaftCore n C} {rf : Raft n C} {s : Fin n}

/-- One peer and its logical log change while the abstract protocol moves there. -/
theorem move (rel : Rel σ core) (moved : RaftMoved s core core') {logical : List (LogEntry C)}
    (node : NodeRel s rf logical core')
    (counted : Counted (Function.update σ.nodes s rf) σ.voteCalls) :
    Rel { σ with
      nodes := Function.update σ.nodes s rf
      logical := Function.update σ.logical s logical } core' where
  safe := moved.safe
  nodes j := by
    by_cases same : j = s
    · subst same
      simpa only [Function.update_self] using node
    · simpa only [Function.update_of_ne same] using (rel.nodes j).frame same moved
  counted := counted
  voteOnce := rel.voteOnce
  votes call member := (rel.votes call member).extend moved.extended
  appends call member := (rel.appends call member).extend moved.extended
  snapshots call member := (rel.snapshots call member).extend moved.extended

/-- One peer changes and keeps its logical log. -/
theorem setNode (rel : Rel σ core) (moved : RaftMoved s core core')
    (node : NodeRel s rf (σ.logical s) core')
    (counted : Counted (Function.update σ.nodes s rf) σ.voteCalls) :
    Rel (σ.setNode s rf) core' := by
  have moved := rel.move moved node counted
  rw [Function.update_eq_self] at moved
  exact moved

theorem restart (rel : Rel σ core) (moved : RaftMoved s core core')
    (node : NodeRel s rf (σ.logical s) core') : Rel (σ.restart s rf.persister) core' := by
  have set := rel.setNode moved node.restart (rel.counted.update fun t => by
    rw [make_voteCount]
    exact Nat.zero_le _)
  exact ⟨set.safe, set.nodes, set.counted, set.voteOnce, set.votes, set.appends, set.snapshots⟩

theorem quiet (rel : Rel σ core) (quiet : Raft.Quiet (σ.nodes s) rf) : Rel (σ.setNode s rf) core :=
  rel.setNode (.refl rel.safe s) ((rel.nodes s).quiet quiet)
    (rel.counted.update fun t => by rw [quiet.ballots])

/-- A call that has been received is not the one that changes its status now. -/
theorem received_mem_set {calls : List (Call n (RequestVoteArgs n) RequestVoteReply)} {k : Nat}
    {call old fresh : Call n (RequestVoteArgs n) RequestVoteReply} (found : calls[k]? = some call)
    (open_ : ∀ reply, call.status ≠ .received reply) (present : old ∈ calls)
    {reply : RequestVoteReply} (received : old.status = .received reply) :
    old ∈ calls.set k fresh := by
  obtain ⟨j, bound, rfl⟩ := List.mem_iff_getElem.mp present
  have apart : k ≠ j := by
    rintro rfl
    rw [List.getElem?_eq_getElem bound] at found
    exact open_ reply (Option.some.inj found ▸ received)
  refine List.mem_iff_getElem?.mpr ⟨j, ?_⟩
  rw [List.getElem?_set_ne apart, List.getElem?_eq_getElem bound]

/-- A `RequestVote` changes its status; a vote once counted stays counted. -/
theorem setVote (rel : Rel σ core) {k : Nat}
    {call : Call n (RequestVoteArgs n) RequestVoteReply} (found : σ.voteCalls[k]? = some call)
    (status : CallStatus RequestVoteReply)
    (open_ : ∀ reply, call.status ≠ .received reply)
    (granted : ∀ reply, (status = .replied reply ∨ status = .received reply) →
      reply.voteGranted = true →
      reply.term = call.args.term ∧ core.vote call.dst call.args.term = some call.src) :
    Rel { σ with voteCalls := σ.voteCalls.set k { call with status } } core where
  safe := rel.safe
  nodes := rel.nodes
  counted s t := by
    obtain ⟨voters, enough, known⟩ := rel.counted s t
    refine ⟨voters, enough, fun voter member => ?_⟩
    obtain ⟨old, present, key, reply, received, yes⟩ := known voter member
    exact ⟨old, received_mem_set found open_ present received, key, reply, received, yes⟩
  voteOnce := by
    have same : (σ.voteCalls.set k { call with status }).map voteKey = σ.voteCalls.map voteKey := by
      have here : voteKey { call with status } = voteKey call := rfl
      rw [List.map_set, here]
      refine List.ext_getElem? fun j => ?_
      by_cases at_ : k = j
      · subst at_
        obtain ⟨bound, rfl⟩ := List.getElem?_eq_some_iff.mp found
        simp [bound]
      · rw [List.getElem?_set_ne at_]
    simpa only [same] using rel.voteOnce
  votes other member := by
    rcases List.mem_or_eq_of_mem_set member with old | rfl
    · exact rel.votes other old
    · have base := rel.votes call (List.mem_of_getElem? found)
      exact ⟨base.apart, base.candidate, base.stood, granted⟩
  appends := rel.appends
  snapshots := rel.snapshots

theorem setAppend (rel : Rel σ core) {k : Nat}
    {call : Call n (AppendEntriesArgs n C) AppendEntriesReply}
    (found : σ.appendCalls[k]? = some call) (status : CallStatus AppendEntriesReply) :
    Rel { σ with appendCalls := σ.appendCalls.set k { call with status } } core where
  safe := rel.safe
  nodes := rel.nodes
  counted := rel.counted
  voteOnce := rel.voteOnce
  votes := rel.votes
  appends other member := by
    rcases List.mem_or_eq_of_mem_set member with old | rfl
    · exact rel.appends other old
    · have base := rel.appends call (List.mem_of_getElem? found)
      exact ⟨base.leader, base.prev, base.entries⟩
  snapshots := rel.snapshots

theorem setSnapshot (rel : Rel σ core) {k : Nat}
    {call : Call n (Shipment n C) InstallSnapshotReply}
    (found : σ.snapshotCalls[k]? = some call) (status : CallStatus InstallSnapshotReply) :
    Rel { σ with snapshotCalls := σ.snapshotCalls.set k { call with status } } core where
  safe := rel.safe
  nodes := rel.nodes
  counted := rel.counted
  voteOnce := rel.voteOnce
  votes := rel.votes
  appends := rel.appends
  snapshots other member := by
    rcases List.mem_or_eq_of_mem_set member with old | rfl
    · exact rel.snapshots other old
    · have base := rel.snapshots call (List.mem_of_getElem? found)
      exact ⟨base.leader, base.covered, base.length, base.last⟩

end Rel

end KvStore
