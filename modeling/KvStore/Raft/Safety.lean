import KvStore.Raft.Simulation

set_option autoImplicit false

/-! Election safety, log matching and leader completeness, over whole runs. -/

namespace KvStore

open ReplicatedLog Quorum

variable {n : Nat} {C : Type} {σ : Cluster n C} {core : RaftCore n C}

/-- What an abstract state remembers of a cluster state of the past. -/
structure Seen (core : RaftCore n C) (σ : Cluster n C) : Prop where
  leader : ∀ s, (σ.nodes s).state = .leader →
    core.leader (σ.nodes s).currentTerm = some s ∧
      ∃ log, core.stood s (σ.nodes s).currentTerm = some log ∧ log <+: σ.logical s
  vote : ∀ s c, (σ.nodes s).votedFor = some c → core.vote s (σ.nodes s).currentTerm = some c
  granted : ∀ call ∈ σ.voteCalls, ∀ reply, call.Answered reply → reply.voteGranted = true →
    core.vote call.dst call.args.term = some call.src
  held : ∀ s i, TermAt LogEntry.term (σ.logical s) i (σ.nodes s).currentTerm →
    core.acked s (σ.nodes s).currentTerm i ∧
      (σ.logical s).take (i + 1) <+: core.led (σ.nodes s).currentTerm
  coherent : ∀ s, Coherent LogEntry.term core.led (σ.logical s)
  slice : ∀ s, Slice (σ.nodes s).log (σ.nodes s).lastIncludedIndex (σ.logical s)
  started : ∀ record ∈ σ.started,
    (core.led record.2.2.1)[record.2.1]? =
      some { term := record.2.2.1, command := record.2.2.2 }

theorem Seen.later {core core' : RaftCore n C} (ext : Extends core core') (seen : Seen core σ) :
    Seen core' σ where
  leader s leads := by
    obtain ⟨leader, log, stood, inside⟩ := seen.leader s leads
    exact ⟨ext.leader _ _ leader, log, ext.stood _ _ _ stood, inside⟩
  vote s c cast := ext.vote _ _ _ (seen.vote s c cast)
  granted call member reply answered yes :=
    ext.vote _ _ _ (seen.granted call member reply answered yes)
  held s i found :=
    ⟨ext.acked _ _ _ (seen.held s i found).1, (seen.held s i found).2.trans (ext.led _)⟩
  coherent s := (seen.coherent s).mono ext.led
  slice := seen.slice
  started record member := prefix_getElem (ext.led _) (seen.started record member)

/-- The commands accepted by `Start` stand in the log of the term's leader. -/
def Started (σ : Cluster n C) (core : RaftCore n C) : Prop :=
  ∀ record ∈ σ.started, (core.led record.2.2.1)[record.2.1]? =
    some { term := record.2.2.1, command := record.2.2.2 }

theorem Rel.observe (rel : Rel σ core) : Rel σ core.observe ∧ Extends core core.observe := by
  have ext := rel.safe.step_extends Step.observe
  refine ⟨⟨rel.safe.step .observe, fun s => ?_, rel.counted, rel.voteOnce, ?_, ?_, ?_⟩, ext⟩
  · have node := rel.nodes s
    exact ⟨node.current, node.log, node.vote, node.slice, node.saved, node.leader, node.candidate⟩
  · exact fun call member => (rel.votes call member).extend ext
  · exact fun call member => (rel.appends call member).extend ext
  · exact fun call member => (rel.snapshots call member).extend ext

/-- Once observed, the abstract state has seen everything in the cluster state it describes. -/
theorem Rel.seen (rel : Rel σ core) (started : Started σ core) : Seen core.observe σ where
  leader s leads := by
    have leader := (rel.nodes s).leader leads
    obtain ⟨log, stood, inside⟩ := rel.safe.sound.leaderStood _ _ leader
    refine ⟨leader, log, stood, ?_⟩
    rwa [← (rel.nodes s).log, rel.safe.sound.leaderLog _ _ leader (rel.nodes s).current]
  vote s c cast := (rel.nodes s).vote.trans cast
  granted call member reply answered yes :=
    ((rel.votes call member).granted reply answered yes).2
  held s i found := by
    have coherent := rel.safe.sound.coherent s
    rw [(rel.nodes s).log] at coherent
    have inside := coherent.at found
    have bound := found.inside
    have long := inside.length_le
    rw [List.length_take] at long
    refine ⟨Or.inr ⟨(rel.nodes s).current.symm, by omega, ?_⟩, inside⟩
    have same : (σ.logical s).take (i + 1) =
        (core.led (σ.nodes s).currentTerm).take (i + 1) := by
      rw [prefix_take_of_getElem inside (by rw [List.length_take]; omega), List.take_take,
        Nat.min_self]
    rw [← same, (rel.nodes s).log]
    exact List.take_prefix _ _
  coherent s := by
    rw [← (rel.nodes s).log]
    exact rel.safe.sound.coherent s
  slice s := (rel.nodes s).slice
  started := started

@[simp] theorem settle_started (σ : Cluster n C) (s : Fin n)
    (result : Except (Raft n C) (Raft n C)) :
    (σ.settle s result).started = σ.started := by
  cases result <;> rfl

/-- Only `Start` adds to the record of accepted commands. -/
theorem step_started {σ σ' : Cluster n C} {action : Action n C}
    (moved : σ.step action = some σ') :
    σ'.started = σ.started ∨ ∃ s command, action = .start s command ∧ σ' = σ.start s command := by
  cases action with
  | startElection s =>
    left
    rw [← Option.some.inj moved, Cluster.startElection]
    split <;> rfl
  | handleRequestVote k =>
    obtain ⟨_, _, _, ⟨_, _, _, rfl⟩ | ⟨_, _, rfl⟩⟩ := Cluster.handleRequestVote_cases moved
    · exact Or.inl rfl
    · exact Or.inl rfl
  | receiveRequestVote k =>
    obtain ⟨_, _, _, _, _, rfl⟩ := Cluster.receiveRequestVote_cases moved
    exact Or.inl rfl
  | replicateToFollower s follower =>
    obtain ⟨_, _, ⟨_, _, rfl⟩ | ⟨_, _, rfl⟩ | ⟨_, _, _, rfl⟩⟩ :=
      Cluster.replicateToFollower_cases moved
    · exact Or.inl rfl
    · exact Or.inl rfl
    · exact Or.inl rfl
  | handleAppendEntries k =>
    obtain ⟨_, _, _, ⟨_, _, _, rfl⟩ | ⟨_, _, rfl⟩⟩ := Cluster.handleAppendEntries_cases moved
    · exact Or.inl rfl
    · exact Or.inl rfl
  | receiveAppendEntries k =>
    obtain ⟨_, _, _, _, _, rfl⟩ := Cluster.receiveAppendEntries_cases moved
    exact Or.inl (settle_started _ _ _)
  | handleInstallSnapshot k =>
    obtain ⟨_, _, _, _, _, _, rfl⟩ := Cluster.handleInstallSnapshot_cases moved
    exact Or.inl rfl
  | receiveInstallSnapshot k =>
    obtain ⟨_, _, _, _, _, rfl⟩ := Cluster.receiveInstallSnapshot_cases moved
    exact Or.inl (settle_started _ _ _)
  | start s command => exact Or.inr ⟨s, command, rfl, (Option.some.inj moved).symm⟩
  | snapshot s index data =>
    obtain ⟨_, rfl⟩ := Cluster.snapshot_inversion moved
    exact Or.inl (settle_started _ _ _)
  | applierRead s =>
    simp only [Cluster.step, Cluster.applierRead] at moved
    split at moved
    · exact Or.inl (Option.some.inj moved ▸ rfl)
    · cases moved
    · exact Or.inl (Option.some.inj moved ▸ rfl)
  | applierSend s =>
    obtain ⟨_, _, rfl⟩ := Cluster.applierSend_inversion moved
    exact Or.inl rfl
  | applierAck s =>
    obtain ⟨_, _, _, _, rfl⟩ := Cluster.applierAck_inversion moved
    exact Or.inl rfl
  | crash s => exact Or.inl (Option.some.inj moved ▸ rfl)

/-- What `Start` reports is where the command stands in the leader's log. -/
theorem start_started {core core' : RaftCore n C} (started : Started σ core) (rel : Rel σ core)
    (s : Fin n) (command : Option C) (ext : Extends core core')
    (after : Rel (σ.start s command) core') : Started (σ.start s command) core' := by
  rcases Cluster.start_cases σ s command with same | ⟨leads, done⟩
  · rw [same]
    exact fun record member => prefix_getElem (ext.led _) (started record member)
  · intro record member
    have node := after.nodes s
    rw [done] at member node
    rcases List.mem_cons.mp member with rfl | old
    · simp only [Cluster.setLogical, Cluster.setNode, Function.update_self] at node
      have leader := node.leader leads
      have log := after.safe.sound.leaderLog _ _ leader node.current
      have length := (rel.nodes s).slice.length
      have positive := rel.safe.sound.log_nonempty s
      rw [(rel.nodes s).log] at positive
      change (core'.led _)[_]? = _
      rw [Raft.lastLogIndex_of_slice node.slice, ← log, node.log, List.length_append,
        List.length_singleton, Nat.add_sub_cancel]
      simp [Raft.persist]
    · exact prefix_getElem (ext.led _) (started record old)

/-- One abstract state describes the newest state of a run and has seen all the others. -/
theorem run_described {trace : List (Cluster n C)} (run : Cluster.Run trace) :
    ∃ newest past core, trace = newest :: past ∧ (Rel newest core ∧ Started newest core) ∧
      ∀ σ ∈ trace, Seen core σ := by
  refine Runs.Run.ghost Extends run ?_ ?_ ?_
  · have rel := Rel.init n C
    have started : Started (Cluster.init n C) (Core.init root) := nofun
    exact ⟨_, ⟨rel.observe.1, started⟩, rel.seen started⟩
  · rintro σ action σ' core _ moved ⟨rel, started⟩
    obtain ⟨core', after, ext⟩ := rel.step moved
    have started' : Started σ' core' := by
      rcases step_started moved with same | ⟨s, command, -, rfl⟩
      · rw [Started, same]
        exact fun record member => prefix_getElem (ext.led _) (started record member)
      · exact start_started started rel s command ext after
    obtain ⟨observed, later⟩ := after.observe
    exact ⟨core'.observe, ⟨observed, started'⟩, ext.trans later, after.seen started'⟩
  · exact fun _ _ _ ext seen => seen.later ext

/-- `voter` has given its vote in term `t` to `candidate`: by its own record, or
by a reply it has sent. -/
def Cluster.Granted (σ : Cluster n C) (voter : Fin n) (t : Nat) (candidate : Fin n) : Prop :=
  (σ.nodes voter).currentTerm = t ∧ (σ.nodes voter).votedFor = some candidate ∨
    ∃ call ∈ σ.voteCalls, ∃ reply, call.dst = voter ∧ call.args.term = t ∧
      call.src = candidate ∧ call.Answered reply ∧ reply.voteGranted = true

theorem Seen.granted_vote (seen : Seen core σ) {voter candidate : Fin n} {t : Nat}
    (granted : σ.Granted voter t candidate) : core.vote voter t = some candidate := by
  rcases granted with ⟨rfl, cast⟩ | ⟨call, member, reply, rfl, rfl, rfl, answered, yes⟩
  · exact seen.vote voter candidate cast
  · exact seen.granted call member reply answered yes

/-- Election safety: one leader per term and one vote per server and term, over
all states of a run. -/
theorem election_safety {trace : List (Cluster n C)} (run : Cluster.Run trace) :
    (∀ σ ∈ trace, ∀ σ' ∈ trace, ∀ a b, (σ.nodes a).state = .leader →
      (σ'.nodes b).state = .leader →
      (σ.nodes a).currentTerm = (σ'.nodes b).currentTerm → a = b) ∧
    (∀ σ ∈ trace, ∀ σ' ∈ trace, ∀ voter t c c', σ.Granted voter t c → σ'.Granted voter t c' →
      c = c') := by
  obtain ⟨_, _, core, _, _, seen⟩ := run_described run
  constructor
  · intro σ member σ' member' a b leads leads' same
    have first := ((seen σ member).leader a leads).1
    have second := ((seen σ' member').leader b leads').1
    rw [same, second] at first
    exact (Option.some.inj first).symm
  · intro σ member σ' member' voter t c c' granted granted'
    have first := (seen σ member).granted_vote granted
    rw [(seen σ' member').granted_vote granted'] at first
    exact (Option.some.inj first).symm

/-- Server 0 is elected and replicates a command to server 2. -/
def replicatedOnce : List (Action 3 Nat) :=
  [.startElection 0, .handleRequestVote 0, .receiveRequestVote 0, .start 0 (some 7),
    .replicateToFollower 0 2, .handleAppendEntries 0]

/-- Server 2 is elected in the next term. -/
def reelection : List (Action 3 Nat) :=
  [.startElection 2, .handleRequestVote 3, .receiveRequestVote 3]

theorem election_safety_reelection :
    ∃ trace : List (Cluster 3 Nat), Cluster.Run trace ∧
      (∃ σ ∈ trace, ∃ σ' ∈ trace, (σ.nodes 0).state = .leader ∧ (σ'.nodes 2).state = .leader ∧
        σ'.Granted 1 2 2) ∧
      (∀ σ ∈ trace, ∀ σ' ∈ trace, ∀ a b, (σ.nodes a).state = .leader →
        (σ'.nodes b).state = .leader →
        (σ.nodes a).currentTerm = (σ'.nodes b).currentTerm → a = b) ∧
      (∀ σ ∈ trace, ∀ σ' ∈ trace, ∀ voter t c c', σ.Granted voter t c → σ'.Granted voter t c' →
        c = c') := by
  obtain ⟨trace, run, first, last⟩ :=
    Cluster.run_through replicatedOnce reelection (by decide) (by decide)
  refine ⟨trace, run, ⟨_, first, _, last, by decide, by decide, Or.inl ?_⟩, election_safety run⟩
  exact ⟨by decide, by decide⟩

/-- Log matching: an (index, term) two peers both hold fixes every entry up to
there that both retain, and the command accepted by `Start` there. -/
theorem log_matching {trace : List (Cluster n C)} (run : Cluster.Run trace) :
    ∀ σ ∈ trace,
      (∀ a b i ea eb, (σ.nodes a).entryAt? i = some ea → (σ.nodes b).entryAt? i = some eb →
        ea.term = eb.term → ∀ j ≤ i, (σ.nodes a).lastIncludedIndex < j →
        (σ.nodes b).lastIncludedIndex < j →
        (σ.nodes a).entryAt? j = (σ.nodes b).entryAt? j ∧ ((σ.nodes a).entryAt? j).isSome) ∧
      (∀ s s' i t c c', (s, i, t, c) ∈ σ.started → (s', i, t, c') ∈ σ.started → c = c') ∧
      (∀ s i t c a e, (s, i, t, c) ∈ σ.started → (σ.nodes a).entryAt? i = some e → e.term = t →
        (σ.nodes a).lastIncludedIndex < i → e.command = c) := by
  intro σ member
  obtain ⟨_, _, core, _, _, seen⟩ := run_described run
  have seen := seen σ member
  refine ⟨?_, ?_, ?_⟩
  · intro a b i ea eb first second same j below above above'
    obtain ⟨_, firstAt⟩ := Raft.termAt_of_entryAt? (seen.slice a) first
    obtain ⟨_, secondAt⟩ := Raft.termAt_of_entryAt? (seen.slice b) second
    have agree := (seen.coherent a).agree (seen.coherent b) firstAt (same ▸ secondAt)
    have equal : (σ.logical a)[j]? = (σ.logical b)[j]? := by
      have := congrArg (·[j]?) agree
      simpa only [List.getElem?_take, show j < i + 1 by omega, ↓reduceIte] using this
    rw [Raft.entryAt?_retained (seen.slice a) above, Raft.entryAt?_retained (seen.slice b) above',
      equal]
    refine ⟨rfl, ?_⟩
    rw [List.getElem?_eq_getElem (by have := secondAt.inside; omega)]
    rfl
  · intro s s' i t c c' first second
    have one := seen.started _ first
    rw [seen.started _ second] at one
    exact (LogEntry.mk.inj (Option.some.inj one)).2.symm
  · intro s i t c a e accepted found term above
    have record := seen.started _ accepted
    rw [Raft.entryAt?_retained (seen.slice a) above] at found
    have bound := (List.getElem?_eq_some_iff.mp found).1
    have inside := (seen.coherent a).at ⟨e, found, term⟩
    have here : ((σ.logical a).take (i + 1))[i]? = some e := by
      rw [List.getElem?_take, if_pos (Nat.lt_succ_self i), found]
    rw [prefix_getElem inside here] at record
    exact congrArg LogEntry.command (Option.some.inj record)

theorem log_matching_replicated :
    ∃ trace : List (Cluster 3 Nat), Cluster.Run trace ∧ ∃ σ ∈ trace,
      (σ.nodes 0).entryAt? 1 = some { term := 1, command := some 7 } ∧
      (0, 1, 1, some 7) ∈ σ.started ∧ (σ.nodes 2).entryAt? 1 = (σ.nodes 0).entryAt? 1 := by
  obtain ⟨trace, run, _, last⟩ :=
    Cluster.run_through replicatedOnce reelection (by decide) (by decide)
  have matching := (log_matching run _ last).1 2 0 1 _ _ rfl rfl rfl 1 (by decide) (by decide)
    (by decide)
  exact ⟨trace, run, _, last, by decide, by decide, matching.1⟩

/-- What a server held while it was in the entry's term is what the term's leader wrote. -/
theorem Seen.held_entry (seen : Seen core σ) {s : Fin n} {i t : Nat} {entry : LogEntry C}
    (current : (σ.nodes s).currentTerm = t) (found : (σ.logical s)[i]? = some entry)
    (own : entry.term = t) : core.acked s t i ∧ (core.led t)[i]? = some entry := by
  subst current
  obtain ⟨acked, inside⟩ := seen.held s i ⟨entry, found, own⟩
  refine ⟨acked, prefix_getElem inside ?_⟩
  rw [List.getElem?_take, if_pos (Nat.lt_succ_self i), found]

/-- Leader completeness: an entry a majority held while in its term is in the
logical log of every leader of a later term, at whatever points of the run. -/
theorem leader_completeness {trace : List (Cluster n C)} (run : Cluster.Run trace) {t i : Nat}
    {members : Finset (Fin n)} (majority : Majority members)
    (held : ∀ q ∈ members, ∃ σ ∈ trace, (σ.nodes q).currentTerm = t ∧
      ∃ entry, (σ.logical q)[i]? = some entry ∧ entry.term = t) :
    ∃ entry,
      (∀ q ∈ members, ∃ σ ∈ trace, (σ.nodes q).currentTerm = t ∧
        (σ.logical q)[i]? = some entry) ∧
      ∀ σ ∈ trace, ∀ s, (σ.nodes s).state = .leader → t < (σ.nodes s).currentTerm →
        (σ.logical s)[i]? = some entry ∧
          (i ≤ (σ.nodes s).lastIncludedIndex ∨ (σ.nodes s).entryAt? i = some entry) := by
  obtain ⟨newest, _, core, _, ⟨rel, _⟩, seen⟩ := run_described run
  obtain ⟨first, member⟩ := majority.nonempty
  obtain ⟨σ₀, in₀, current₀, entry, found₀, own⟩ := held first member
  have written := ((seen σ₀ in₀).held_entry current₀ found₀ own).2
  refine ⟨entry, ?_, ?_⟩
  · intro q member
    obtain ⟨σ, inside, current, other, found, term⟩ := held q member
    have same := ((seen σ inside).held_entry current found term).2
    rw [written] at same
    exact ⟨σ, inside, current, Option.some.inj same ▸ found⟩
  · intro σ inside s leads later
    obtain ⟨leader, log, stood, standing⟩ := (seen σ inside).leader s leads
    have acks : ∀ q ∈ members, core.acked q t i := by
      intro q member
      obtain ⟨σ, inside, current, other, found, term⟩ := held q member
      exact ((seen σ inside).held_entry current found term).1
    have complete := leader_complete rel.safe.sound rel.safe.durable majority acks
      ⟨entry, written, own⟩ _ later leader stood
    have here : ((core.led t).take (i + 1))[i]? = some entry := by
      rw [List.getElem?_take, if_pos (Nat.lt_succ_self i), written]
    have present := prefix_getElem (complete.trans standing) here
    refine ⟨present, ?_⟩
    by_cases compacted : i ≤ (σ.nodes s).lastIncludedIndex
    · exact Or.inl compacted
    · rw [Raft.entryAt?_retained ((seen σ inside).slice s) (by omega)]
      exact Or.inr present

theorem leader_completeness_reelection :
    ∃ trace : List (Cluster 3 Nat), Cluster.Run trace ∧ ∃ σ ∈ trace,
      (σ.nodes 2).state = .leader ∧ (σ.nodes 2).currentTerm = 2 ∧
      ∃ entry, (σ.logical 2)[1]? = some entry ∧ (∃ σ ∈ trace, (σ.logical 0)[1]? = some entry) := by
  obtain ⟨trace, run, first, last⟩ :=
    Cluster.run_through replicatedOnce reelection (by decide) (by decide)
  have majority : Majority ({0, 2} : Finset (Fin 3)) := by decide
  obtain ⟨entry, shared, complete⟩ := leader_completeness (t := 1) (i := 1) run majority (by
    intro q member
    refine ⟨_, first, ?_⟩
    rcases Finset.mem_insert.mp member with rfl | other
    · exact ⟨by decide, _, rfl, rfl⟩
    · obtain rfl := Finset.mem_singleton.mp other
      exact ⟨by decide, _, rfl, rfl⟩)
  obtain ⟨σ, inside, _, found⟩ := shared 0 (by decide)
  exact ⟨trace, run, _, last, by decide, by decide, entry,
    (complete _ last 2 (by decide) (by decide)).1, σ, inside, found⟩

theorem run_related {trace : List (Cluster n C)} (run : Cluster.Run trace) :
    ∀ σ ∈ trace, ∃ core, Rel σ core := by
  refine run.invariant ⟨_, Rel.init n C⟩ ?_
  intro σ action σ' _ moved ⟨core, rel⟩
  obtain ⟨core', after, _⟩ := rel.step moved
  exact ⟨core', after⟩

/-- What the stable storage of a peer says about the peer in memory. -/
def Raft.Stored (rf : Raft n C) : Prop :=
  match rf.persister.raftstate with
  | some saved =>
    saved =
      { currentTerm := rf.currentTerm
        votedFor := rf.votedFor
        log := rf.log
        snapshotIndex := rf.lastIncludedIndex } ∧
      rf.persister.snapshot = rf.snapshotData
  | none =>
    rf.currentTerm = 0 ∧ rf.votedFor = none ∧ rf.log = [{ term := 0, command := none }] ∧
      rf.lastIncludedIndex = 0 ∧ rf.snapshotData = []

/-- `after` continues where `rf` was, with everything volatile at its start. -/
structure Raft.Resumes (rf after : Raft n C) : Prop where
  currentTerm : after.currentTerm = rf.currentTerm
  votedFor : after.votedFor = rf.votedFor
  log : after.log = rf.log
  lastIncludedIndex : after.lastIncludedIndex = rf.lastIncludedIndex
  snapshotData : after.snapshotData = rf.snapshotData
  commitIndex : after.commitIndex = rf.lastIncludedIndex
  lastApplied : after.lastApplied = rf.lastIncludedIndex

theorem Saved.stored {rf : Raft n C} (saved : Saved rf) : rf.Stored := by
  obtain ⟨term, vote, log, index, data⟩ := saved
  unfold Raft.make Raft.readPersist at term vote log index data
  unfold Raft.Stored
  split
  · rename_i state found
    rw [found] at term vote log index data
    refine ⟨?_, data⟩
    rw [← term, ← vote, ← log, ← index]
  · rename_i nothing
    rw [nothing] at term vote log index data
    exact ⟨term.symm, vote.symm, log.symm, index.symm, data.symm⟩

theorem make_indexes (persister : Persister n C) :
    (Raft.make persister : Raft n C).commitIndex =
        (Raft.make persister : Raft n C).lastIncludedIndex ∧
      (Raft.make persister : Raft n C).lastApplied =
        (Raft.make persister : Raft n C).lastIncludedIndex := by
  unfold Raft.make Raft.readPersist
  split <;> exact ⟨rfl, rfl⟩

theorem Saved.resumes {rf : Raft n C} (saved : Saved rf) :
    rf.Resumes (Raft.make rf.persister) := by
  obtain ⟨commit, applied⟩ := make_indexes rf.persister
  exact ⟨saved.currentTerm, saved.votedFor, saved.log, saved.lastIncludedIndex,
    saved.snapshotData, commit.trans saved.lastIncludedIndex,
    applied.trans saved.lastIncludedIndex⟩

/-- Crash consistency: whenever no peer is inside a critical section, stable storage
holds what is in memory, and a peer that dies there resumes with it. -/
theorem crash_consistency {trace : List (Cluster n C)} (run : Cluster.Run trace) :
    ∀ σ ∈ trace, ∀ s, (σ.nodes s).Stored ∧
      ∀ σ', σ.step (.crash s) = some σ' → (σ.nodes s).Resumes (σ'.nodes s) := by
  intro σ member s
  obtain ⟨core, rel⟩ := run_related run σ member
  have saved := (rel.nodes s).saved
  refine ⟨saved.stored, ?_⟩
  intro σ' moved
  have restarted : σ'.nodes s = Raft.make (σ.nodes s).persister := by
    rw [← Option.some.inj moved]
    exact Function.update_self s _ σ.nodes
  rw [restarted]
  exact saved.resumes

/-- The leader compacts its log up to the command it has replicated and applied. -/
def compactedOnce : List (Action 3 Nat) :=
  [.receiveAppendEntries 0, .applierRead 0, .applierSend 0, .applierAck 0,
    .snapshot 0 1 [7]]

theorem crash_consistency_compacted :
    ∃ trace : List (Cluster 3 Nat), Cluster.Run trace ∧ ∃ σ ∈ trace,
      (σ.nodes 0).lastIncludedIndex = 1 ∧ (σ.nodes 0).snapshotData = [7] ∧
      (σ.nodes 0).Stored ∧
      ∀ σ', σ.step (.crash 0) = some σ' → (σ.nodes 0).Resumes (σ'.nodes 0) := by
  obtain ⟨trace, run, _, last⟩ :=
    Cluster.run_through replicatedOnce compactedOnce (by decide) (by decide)
  exact ⟨trace, run, _, last, by decide, by decide, crash_consistency run _ last 0⟩

end KvStore
