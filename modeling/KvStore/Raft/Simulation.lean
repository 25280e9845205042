import KvStore.Raft.Refinement
import KvStore.Raft.Steps

set_option autoImplicit false

/-! Every action of the cluster is simulated by moves of the abstract protocol. -/

namespace KvStore

open ReplicatedLog Quorum

variable {n : Nat} {C : Type}

namespace Rel

variable {σ σ' : Cluster n C} {core : RaftCore n C}

/-- Some later abstract state describes `σ'`. -/
def Follows (core : RaftCore n C) (σ' : Cluster n C) : Prop :=
  ∃ core', Rel σ' core' ∧ Extends core core'

theorem follows_of_rel (rel : Rel σ' core) : Follows core σ' := ⟨core, rel, .refl core⟩

theorem init (n : Nat) (C : Type) : Rel (Cluster.init n C) (Core.init root) where
  safe := Safe.init rfl
  nodes s :=
    { current := rfl
      log := rfl
      vote := rfl
      slice := ⟨rfl, rfl, rfl⟩
      saved := ⟨rfl, rfl, rfl, rfl, rfl⟩
      leader := fun leads => by cases leads
      candidate := fun stands => by cases stands }
  counted s t := ⟨∅, Nat.zero_le _, by simp⟩
  voteOnce := List.nodup_nil
  votes := by simp [Cluster.init]
  appends := by simp [Cluster.init]
  snapshots := by simp [Cluster.init]

/-- Nobody leads a term its server has not reached. -/
theorem not_leader_above {s : Fin n} (safe : RaftSafe core) {t : Nat}
    (above : core.current s < t) : core.leader t ≠ some s := by
  intro leads
  obtain ⟨log, stood, _⟩ := safe.sound.leaderStood t s leads
  have := safe.sound.stoodCurrent stood
  omega

theorem standing_node (rel : Rel σ core) (s : Fin n) :
    RaftMoved s core (core.stand s) ∧
      NodeRel s ((σ.nodes s).standing s) (σ.logical s) (core.stand s) := by
  have node := rel.nodes s
  refine ⟨.stand rel.safe s, ?_, node.log, ?_, node.slice, .persist _, ?_, ?_⟩
  · simp [Core.stand, Raft.standing, Raft.persist, node.current]
  · simp [Core.stand, Raft.standing, Raft.persist, node.current]
  · intro leads
    cases leads
  · intro _
    refine ⟨?_, σ.logical s, ?_, fun _ => rfl⟩
    · exact not_leader_above rel.safe (by rw [node.current]; exact Nat.lt_succ_self _)
    · simp [Core.stand, Raft.standing, Raft.persist, node.current, node.log]

/-- The ballot of a new election replaces none that has been counted. -/
theorem standing_counted (rel : Rel σ core) (s : Fin n) :
    Counted (Function.update σ.nodes s ((σ.nodes s).standing s)) σ.voteCalls := by
  intro j t
  by_cases same : j = s
  · subst same
    simp only [Function.update_self, Raft.standing, Raft.persist]
    by_cases fresh : t = (σ.nodes j).currentTerm + 1
    · subst fresh
      exact ⟨∅, by simp, by simp⟩
    · simpa only [Function.update_of_ne fresh] using rel.counted j t
  · simpa only [Function.update_of_ne same] using rel.counted j t

theorem startElection (rel : Rel σ core) (s : Fin n) : Follows core (σ.startElection s) := by
  obtain ⟨moved, node⟩ := rel.standing_node s
  rcases Raft.startElection_cases s (σ.nodes s) with died | ⟨t, last, stands⟩
  · refine ⟨core.stand s, ?_, moved.extended⟩
    simpa only [Cluster.startElection, died] using rel.restart moved node
  · refine ⟨core.stand s, ?_, moved.extended⟩
    simp only [Cluster.startElection, stands]
    have base := rel.setNode moved node (rel.standing_counted s)
    have slice := (rel.nodes s).slice
    have nonempty : 0 < (σ.logical s).length := by
      rw [← (rel.nodes s).log]
      exact rel.safe.sound.log_nonempty s
    refine ⟨base.safe, base.nodes, ?_, ?_, ?_, base.appends, base.snapshots⟩
    · intro j u
      obtain ⟨voters, enough, known⟩ := base.counted j u
      refine ⟨voters, enough, fun voter member => ?_⟩
      obtain ⟨call, present, rest⟩ := known voter member
      exact ⟨call, List.mem_append_left _ present, rest⟩
    · rw [List.map_append, List.nodup_append]
      refine ⟨rel.voteOnce, ?_, ?_⟩
      · rw [List.map_map]
        refine List.Nodup.map ?_ ((List.nodup_finRange n).filter _)
        intro i j same
        exact (Prod.mk.inj (Prod.mk.inj same).2).2
      · -- every earlier election of this peer was in an earlier term
        rintro _ old _ fresh rfl
        obtain ⟨call, present, key⟩ := List.mem_map.mp old
        obtain ⟨new, member, same⟩ := List.mem_map.mp fresh
        obtain ⟨i, _, rfl⟩ := List.mem_map.mp member
        rw [← key] at same
        obtain ⟨src, rest⟩ := Prod.mk.inj same
        obtain ⟨term, _⟩ := Prod.mk.inj rest
        obtain ⟨log, stood, _⟩ := (rel.votes call present).stood
        have bound := rel.safe.sound.stoodCurrent stood
        simp only at src term
        rw [← src, ← term, (rel.nodes s).current] at bound
        omega
    · intro call member
      rcases List.mem_append.mp member with old | fresh
      · exact base.votes call old
      · obtain ⟨i, other, rfl⟩ := List.mem_map.mp fresh
        have apart : i ≠ s := by simpa using (List.mem_filter.mp other).2
        refine ⟨apart.symm, rfl, ⟨σ.logical s, ?_, ?_, ?_⟩, ?_⟩
        · simp [Core.stand, (rel.nodes s).current, (rel.nodes s).log]
        · simp only [Raft.lastLogIndex_of_slice slice]
          omega
        · simp only [Raft.lastLogIndex_of_slice slice]
          exact Raft.lastLogTerm_of_slice slice last
        · rintro reply (answered | answered) _ <;> cases answered

/-- A free voter grants its vote to a candidate whose log is recent enough. -/
theorem granted_node (safe : RaftSafe core)
    {call : Call n (RequestVoteArgs n) RequestVoteReply} (ask : VoteRel call core) {rf : Raft n C}
    {logical : List (LogEntry C)} (node : NodeRel call.dst rf logical core) {lastLogTerm : Nat}
    (current : rf.currentTerm = call.args.term)
    (free : rf.votedFor = some call.args.candidateId ∨ rf.votedFor = none)
    (last : rf.lastLogTerm = some lastLogTerm)
    (recent : lastLogTerm < call.args.lastLogTerm ∨
      call.args.lastLogTerm = lastLogTerm ∧ rf.lastLogIndex ≤ call.args.lastLogIndex) :
    RaftMoved call.dst core (core.grant call.dst call.src) ∧
      NodeRel call.dst
        (Raft.persist { rf with votedFor := some call.args.candidateId, state := .follower })
        logical (core.grant call.dst call.src) := by
  obtain ⟨log, stood, length, lastAt⟩ := ask.stood
  have here : core.current call.dst = call.args.term := by rw [node.current, current]
  have nonempty : 0 < logical.length := by
    rw [← node.log]
    exact safe.sound.log_nonempty call.dst
  refine ⟨.grant safe (here ▸ stood) ?_ ⟨call.args.lastLogTerm, lastLogTerm, ?_, ?_, ?_⟩,
    node.current, node.log, ?_, node.slice, .persist _, ?_, ?_⟩
  · rw [node.current, node.vote, ← ask.candidate]
    exact free.symm
  · rwa [length, Nat.add_sub_cancel]
  · rw [node.log]
    exact Raft.lastLogTerm_of_slice node.slice last
  · rw [Raft.lastLogIndex_of_slice node.slice] at recent
    rw [node.log, length]
    omega
  · simp [Core.grant, Raft.persist, node.current, ask.candidate]
  all_goals
    intro state
    cases state

section

variable (rel : Rel σ core)

include rel

variable {k : Nat}

theorem handleRequestVote (moved : σ.handleRequestVote k = some σ') : Follows core σ' := by
  obtain ⟨call, found, sent, outcome⟩ := Cluster.handleRequestVote_cases moved
  have notReceived : ∀ reply, call.status ≠ .received reply := by
    intro reply
    rw [sent]
    exact nofun
  obtain ⟨middle, raise, node⟩ := (rel.nodes call.dst).raised rel.safe call.args.term
  have base := rel.setNode raise node
    (rel.counted.update fun t => by rw [Raft.raised_ballots])
  have cases_ := Raft.castVote_outcome ((σ.nodes call.dst).raised call.args.term) call.args
  rcases outcome with ⟨rf, reply, done, rfl⟩ | ⟨rf, died, rfl⟩
  · change ((σ.nodes call.dst).raised call.args.term).castVote call.args = _ at done
    rw [done] at cases_
    cases cases_ with
    | refused _ no =>
      refine ⟨middle, base.setVote found (.replied reply) notReceived ?_, raise.extended⟩
      rintro _ (answered | answered) yes
      · cases answered
        rw [no] at yes
        cases yes
      · cases answered
    | granted lastLogTerm current free last recent =>
      have term : ((σ.nodes call.dst).raised call.args.term).currentTerm = call.args.term :=
        Nat.le_antisymm current (Raft.le_raised_term _ _)
      have ask := (rel.votes call (List.mem_of_getElem? found)).extend raise.extended
      obtain ⟨grant, granted⟩ := granted_node base.safe ask node term free last recent
      have set := rel.setNode (raise.trans grant) granted
        (rel.counted.update fun t => by simp [Raft.persist])
      refine ⟨_, set.setVote found _ notReceived ?_, raise.extended.trans grant.extended⟩
      rintro _ (answered | answered) _
      · cases answered
        refine ⟨term, ?_⟩
        simp [Core.grant, node.current.trans term]
      · cases answered
  · change ((σ.nodes call.dst).raised call.args.term).castVote call.args = _ at died
    rw [died] at cases_
    cases cases_ with
    | dead =>
      refine ⟨middle, (rel.restart raise node).setVote found .lost notReceived ?_,
        raise.extended⟩
      rintro _ (answered | answered) _ <;> cases answered

/-- Counting a vote that has just been received. -/
theorem tally {call : Call n (RequestVoteArgs n) RequestVoteReply} {reply : RequestVoteReply}
    (found : σ.voteCalls[k]? = some call) (replied : call.status = .replied reply)
    (granted : reply.voteGranted = true) (rf : Raft n C) (won : Bool)
    (ballots : rf.ballots = ((σ.nodes call.src).tallied call.args.term won).ballots) :
    Counted (Function.update σ.nodes call.src rf)
      (σ.voteCalls.set k { call with status := .received reply }) := by
  have open_ : ∀ reply, call.status ≠ .received reply := by
    intro reply
    rw [replied]
    exact nofun
  intro j t
  obtain ⟨voters, enough, known⟩ := rel.counted j t
  have kept : ∀ voter ∈ voters, ∃ old ∈ σ.voteCalls.set k { call with status := .received reply },
      voteKey old = (j, t, voter) ∧
        ∃ reply, old.status = .received reply ∧ reply.voteGranted = true := by
    intro voter member
    obtain ⟨old, present, key, answer, received, yes⟩ := known voter member
    exact ⟨old, received_mem_set found open_ present received, key, answer, received, yes⟩
  by_cases here : j = call.src ∧ t = call.args.term
  · obtain ⟨rfl, rfl⟩ := here
    -- the same voter cannot have been counted before: its call is still unanswered
    have fresh : call.dst ∉ voters := by
      intro member
      obtain ⟨old, present, key, answer, received, _⟩ := known call.dst member
      have same : old = call :=
        List.inj_on_of_nodup_map rel.voteOnce present (List.mem_of_getElem? found) key
      exact open_ answer (same ▸ received)
    refine ⟨insert call.dst voters, ?_, ?_⟩
    · simpa [Finset.card_insert_of_notMem fresh, ballots, Raft.tallied] using enough
    · intro voter member
      rcases Finset.mem_insert.mp member with rfl | old
      · refine ⟨{ call with status := .received reply }, ?_, rfl, reply, rfl, granted⟩
        exact List.mem_iff_getElem?.mpr
          ⟨k, List.getElem?_set_self (List.getElem?_eq_some_iff.mp found).1⟩
      · exact kept voter old
  · refine ⟨voters, ?_, kept⟩
    by_cases same : j = call.src
    · subst same
      have apart : t ≠ call.args.term := fun equal => here ⟨rfl, equal⟩
      simpa [ballots, Raft.tallied, apart] using enough
    · rwa [Function.update_of_ne same]

variable {s : Fin n}

/-- The votes counted by a candidate that has enough of them are those of a majority. -/
theorem elected_node (stands : (σ.nodes s).state = .candidate) {voters : Finset (Fin n)}
    (enough : n / 2 < voters.card + 1)
    (known : ∀ voter ∈ voters, voter ≠ s ∧ core.vote voter (σ.nodes s).currentTerm = some s)
    (t : Nat) (won : Bool) :
    RaftMoved s core (core.elect s) ∧
      NodeRel s ((σ.nodes s).tallied t won).elected (σ.logical s) (core.elect s) := by
  have node := rel.nodes s
  obtain ⟨notLeader, log, stood, unled⟩ := node.candidate stands
  have fresh : s ∉ voters := fun member => (known s member).1 rfl
  have majority : Majority (insert s voters) := by
    rw [Majority, Fintype.card_fin, Finset.card_insert_of_notMem fresh]
    omega
  have voted : ∀ voter ∈ insert s voters,
      core.vote voter (core.current s) = some s := by
    intro voter member
    rw [node.current]
    rcases Finset.mem_insert.mp member with rfl | other
    · exact rel.safe.sound.stoodVote _ _ _ stood
    · exact (known voter other).2
  have vacant : core.leader (core.current s) = none := by
    cases leads : core.leader (core.current s) with
    | none => rfl
    | some other =>
      have mine := rel.safe.sound.leader_unique majority voted leads
      rw [node.current, ← mine] at leads
      exact absurd leads notLeader
  have standing : core.stood s (core.current s) = some (core.log s) := by
    rw [node.current, stood, node.log, unled (node.current ▸ vacant)]
  have saved := node.saved
  refine ⟨.elect rel.safe vacant majority voted standing, node.current, node.log, node.vote,
    node.slice, ⟨saved.currentTerm, saved.votedFor, saved.log, saved.lastIncludedIndex,
      saved.snapshotData⟩, fun _ => ?_, nofun⟩
  simp [Core.elect, Raft.elected, Raft.tallied, node.current]

theorem receiveRequestVote (moved : σ.receiveRequestVote k = some σ') : Follows core σ' := by
  obtain ⟨call, reply, found, replied, _, rfl⟩ := Cluster.receiveRequestVote_cases moved
  have ask := rel.votes call (List.mem_of_getElem? found)
  have open_ : ∀ reply, call.status ≠ .received reply := by
    intro reply
    rw [replied]
    exact nofun
  have received := rel.setVote found (.received reply) open_ (by
    rintro _ (answered | answered) yes
    · cases answered
    · cases answered
      exact ask.granted reply (Or.inl replied) yes)
  have outcome := Raft.onRequestVoteReply_outcome (σ.nodes call.src) call.args reply
  generalize (σ.nodes call.src).onRequestVoteReply call.args reply = after at outcome
  cases outcome with
  | stepDown higher =>
    obtain ⟨advance, node⟩ := (rel.nodes call.src).becomeFollower rel.safe higher
    exact ⟨_, received.setNode advance node (received.counted.update fun _ => Nat.le_refl _),
      advance.extended⟩
  | ignored => exact follows_of_rel (received.quiet (.refl _))
  | counted won granted stands current =>
    have counted := rel.tally found replied granted _ won rfl
    have node := rel.nodes call.src
    refine follows_of_rel (received.setNode (.refl rel.safe _) ?_ counted)
    have saved := node.saved
    exact ⟨node.current, node.log, node.vote, node.slice,
      ⟨saved.currentTerm, saved.votedFor, saved.log, saved.lastIncludedIndex,
        saved.snapshotData⟩, node.leader, node.candidate⟩
  | elected granted stands current enough =>
    have term : call.args.term = (σ.nodes call.src).currentTerm := by
      rw [← current, (ask.granted reply (Or.inl replied) granted).1]
    have counted := rel.tally found replied granted ((σ.nodes call.src).tallied call.args.term
      true).elected true rfl
    obtain ⟨voters, many, known⟩ := counted call.src call.args.term
    simp only [Function.update_self, Raft.elected, Raft.tallied] at many
    have votes : ∀ voter ∈ voters, voter ≠ call.src ∧
        core.vote voter (σ.nodes call.src).currentTerm = some call.src := by
      intro voter member
      obtain ⟨old, present, key, answer, answered, yes⟩ := known voter member
      obtain ⟨src, rest⟩ := Prod.mk.inj key
      obtain ⟨when_, dst⟩ := Prod.mk.inj rest
      have base := received.votes old present
      refine ⟨fun self => base.apart (by rw [src, dst, self]), ?_⟩
      have cast := (base.granted answer (Or.inr answered) yes).2
      rwa [src, when_, dst, term] at cast
    obtain ⟨elect, node⟩ := rel.elected_node stands (by omega) votes call.args.term true
    exact ⟨_, received.setNode elect node counted, elect.extended⟩

theorem replicateToFollower {server follower : Fin n}
    (moved : σ.replicateToFollower server follower = some σ') : Follows core σ' := by
  obtain ⟨_, leads, outcome⟩ := Cluster.replicateToFollower_cases moved
  have node := rel.nodes server
  have leader := node.leader leads
  have led : core.led (σ.nodes server).currentTerm = σ.logical server := by
    rw [← node.log, rel.safe.sound.leaderLog _ _ leader node.current]
  rcases outcome with ⟨rf, died, rfl⟩ | ⟨request, built, rfl⟩ | ⟨args, retained, built, rfl⟩
  · rw [Raft.newArgs_error died]
    exact follows_of_rel (rel.restart (.refl rel.safe server) node)
  · obtain ⟨dummy, found, rfl⟩ := Raft.newInstallSnapshotArgs_ok built
    obtain ⟨_, last⟩ := Raft.termAt_of_entryAt? node.slice found
    refine follows_of_rel { rel with snapshots := ?_ }
    intro call member
    rcases List.mem_append.mp member with old | fresh
    · exact rel.snapshots call old
    · rw [List.mem_singleton.mp fresh]
      have inside := last.inside
      have length : ((σ.logical server).take ((σ.nodes server).lastIncludedIndex + 1)).length =
          (σ.nodes server).lastIncludedIndex + 1 := by
        rw [List.length_take]
        omega
      refine ⟨leader, ?_, length, ?_⟩
      · rw [led]
        exact List.take_prefix _ _
      · exact last.shorten (List.take_prefix _ _) (by rw [length]; omega)
  · obtain ⟨prev, entries, found, suffix, rfl⟩ := Raft.newAppendEntriesArgsFor_ok built
    obtain ⟨_, last⟩ := Raft.termAt_of_entryAt? node.slice found
    refine follows_of_rel { rel with appends := ?_ }
    intro call member
    rcases List.mem_append.mp member with old | fresh
    · exact rel.appends call old
    · rw [List.mem_singleton.mp fresh]
      refine ⟨leader, led ▸ last, ?_⟩
      rw [led, Nat.sub_add_cancel (by omega), Raft.suffix?_retained node.slice retained suffix]

/-- A handled `AppendEntries` leaves the peer with a log of its term's leader or its own. -/
theorem handled_node {call : Call n (AppendEntriesArgs n C) AppendEntriesReply}
    (ask : AppendRel call core) {rf : Raft n C} {reply : AppendEntriesReply}
    (done : (σ.nodes call.dst).appendEntries call.args = .ok (rf, reply)) :
    ∃ core', RaftMoved call.dst core core' ∧
      NodeRel call.dst rf (Cluster.relog (σ.logical call.dst) rf) core' ∧
      rf.ballots = (σ.nodes call.dst).ballots := by
  have node := rel.nodes call.dst
  obtain ⟨middle, moved, heard⟩ := node.heardLeader rel.safe call.args.term
  have outcome := Raft.appendEntries_outcome (σ.nodes call.dst) call.args
  rw [done] at outcome
  cases outcome with
  | stale _ old refused =>
    refine ⟨core, .refl rel.safe _, ?_, rfl⟩
    rwa [Cluster.relog, node.slice.relog]
  | refused _ recent refused =>
    refine ⟨middle, moved, ?_, Raft.heardLeader_ballots _ _⟩
    rwa [Cluster.relog, heard.slice.relog]
  | merged _ prev merged remaining recent found same merge term =>
    have ask := ask.extend moved.extended
    have current := Raft.heardLeader_term recent
    have mine : Coherent LogEntry.term middle.led (σ.logical call.dst) :=
      heard.log ▸ moved.safe.sound.coherent call.dst
    obtain ⟨relogged, _⟩ := ask.merged moved.safe heard.slice mine found same merge
    have offered := offer_led middle call.args
    rw [← current, ← heard.current] at offered
    have led :
        middle.leader ((σ.nodes call.dst).heardLeader call.args.term).currentTerm ≠ none := by
      rw [current, ask.leader]
      exact Option.some_ne_none _
    have accepted : NodeRel call.dst (merged.appendRemaining remaining)
        (adopt (σ.logical call.dst) (offer middle call.args))
        (middle.accept call.dst (offer middle call.args)) ∧
        (merged.appendRemaining remaining).ballots = (σ.nodes call.dst).ballots := by
      rcases relogged with ⟨same, slice⟩ | ⟨log, same, slice⟩
      · rw [same]
        exact ⟨heard.accept led _ rfl rfl rfl heard.saved slice,
          Raft.heardLeader_ballots _ _⟩
      · rw [same]
        exact ⟨heard.accept led _ rfl rfl rfl (.persist _) slice, Raft.heardLeader_ballots _ _⟩
    obtain ⟨after, ballots⟩ := accepted
    have quiet := Raft.followCommit_quiet (merged.appendRemaining remaining) call.args.leaderCommit
    refine ⟨_, moved.trans (.accept moved.safe offered ask.offer_nonempty), ?_, ?_⟩
    · rw [ask.merged_relog moved.safe heard.slice mine found same merge]
      exact after.quiet quiet
    · rw [quiet.ballots, ballots]

theorem handleAppendEntries (moved : σ.handleAppendEntries k = some σ') : Follows core σ' := by
  obtain ⟨call, found, _, outcome⟩ := Cluster.handleAppendEntries_cases moved
  have ask := rel.appends call (List.mem_of_getElem? found)
  rcases outcome with ⟨rf, reply, done, rfl⟩ | ⟨rf, died, rfl⟩
  · obtain ⟨core', move, node, ballots⟩ := rel.handled_node ask done
    have set := rel.move move node (rel.counted.update fun t => by rw [ballots])
    exact ⟨core', set.setAppend found (.replied reply), move.extended⟩
  · have outcome := Raft.appendEntries_outcome (σ.nodes call.dst) call.args
    rw [died] at outcome
    cases outcome with
    | dead recent =>
      obtain ⟨middle, move, heard⟩ := (rel.nodes call.dst).heardLeader rel.safe call.args.term
      exact ⟨middle, (rel.restart move heard).setAppend found .lost, move.extended⟩

/-- A peer settles after the reply of a replication RPC. -/
theorem settle_reply {result : Except (Raft n C) (Raft n C)}
    (outcome : Raft.ReplyOutcome (σ.nodes s) result) : Follows core (σ.settle s result) := by
  cases outcome with
  | stepDown term higher =>
    obtain ⟨advance, node⟩ := (rel.nodes s).becomeFollower rel.safe higher
    exact ⟨_, rel.setNode advance node (rel.counted.update fun _ => Nat.le_refl _),
      advance.extended⟩
  | quiet result quiet =>
    cases result with
    | ok rf => exact follows_of_rel (rel.quiet quiet)
    | error rf =>
      exact follows_of_rel (rel.restart (.refl rel.safe s) ((rel.nodes s).quiet quiet))

theorem receiveAppendEntries (moved : σ.receiveAppendEntries k = some σ') : Follows core σ' := by
  obtain ⟨call, reply, found, _, _, rfl⟩ := Cluster.receiveAppendEntries_cases moved
  obtain ⟨core', settled, ext⟩ :=
    rel.settle_reply (Raft.onAppendEntriesReply_outcome call.src _ call.dst call.args reply)
  have found' : (σ.settle call.src ((σ.nodes call.src).onAppendEntriesReply call.src call.dst
      call.args reply)).appendCalls[k]? = some call := by
    rw [Cluster.settle_appendCalls]
    exact found
  have set := settled.setAppend found' (.received reply)
  rw [Cluster.settle_appendCalls] at set
  exact ⟨core', set, ext⟩

theorem receiveInstallSnapshot (moved : σ.receiveInstallSnapshot k = some σ') :
    Follows core σ' := by
  obtain ⟨call, reply, found, _, _, rfl⟩ := Cluster.receiveInstallSnapshot_cases moved
  obtain ⟨core', settled, ext⟩ := rel.settle_reply
    (Raft.onInstallSnapshotReply_outcome call.src _ call.dst call.args.request reply)
  have found' : (σ.settle call.src ((σ.nodes call.src).onInstallSnapshotReply call.src call.dst
      call.args.request reply)).snapshotCalls[k]? = some call := by
    rw [Cluster.settle_snapshotCalls]
    exact found
  have set := settled.setSnapshot found' (.received reply)
  rw [Cluster.settle_snapshotCalls] at set
  exact ⟨core', set, ext⟩

/-- A handled `InstallSnapshot` leaves the peer's log alone or adopts what was shipped. -/
theorem installed_node {call : Call n (Shipment n C) InstallSnapshotReply}
    (ask : SnapshotRel call core) {after : Raft n C} {reply : InstallSnapshotReply}
    (done : (σ.nodes call.dst).installSnapshot call.args.request = (after, reply)) :
    ∃ core', RaftMoved call.dst core core' ∧
      NodeRel call.dst after (Cluster.relogInstalled (σ.logical call.dst) call.args.covered
        (σ.nodes call.dst) after) core' ∧
      after.ballots = (σ.nodes call.dst).ballots := by
  have node := rel.nodes call.dst
  have outcome := Raft.installSnapshot_outcome (σ.nodes call.dst) call.args.request
  rw [done] at outcome
  unfold Cluster.relogInstalled
  cases outcome with
  | stale old =>
    refine ⟨core, .refl rel.safe _, ?_, rfl⟩
    rwa [if_neg (Nat.lt_irrefl _)]
  | kept recent covered =>
    obtain ⟨middle, moved, raised⟩ := node.raised rel.safe call.args.request.term
    refine ⟨middle, moved, ?_, Raft.raised_ballots _ _⟩
    rwa [Raft.raised_lastIncludedIndex, if_neg (Nat.lt_irrefl _)]
  | installed recent ahead =>
    obtain ⟨middle, moved, raised⟩ := node.raised rel.safe call.args.request.term
    have ask := ask.extend moved.extended
    have current := Raft.raised_term recent
    have mine : Coherent LogEntry.term middle.led (σ.logical call.dst) :=
      raised.log ▸ moved.safe.sound.coherent call.dst
    have theirs := (moved.safe.sound.coherentLed _).shorten ask.covered
    obtain ⟨term, vote, state, ballots, log, index⟩ :=
      ((σ.nodes call.dst).raised call.args.request.term).installed_keeps call.args.request
    obtain ⟨slice, relog⟩ := Raft.replaceLog_adopt raised.slice mine theirs ask.length ask.last
      (by rwa [Raft.raised_lastIncludedIndex])
    have offered := ask.covered
    rw [← current, ← raised.current] at offered
    have nonempty : call.args.covered ≠ [] := by
      intro empty
      have := ask.length
      rw [empty, List.length_nil] at this
      omega
    have led : middle.leader
        ((σ.nodes call.dst).raised call.args.request.term).currentTerm ≠ none := by
      rw [current, ask.leader]
      exact nofun
    refine ⟨_, moved.trans (.accept moved.safe offered nonempty), ?_, ?_⟩
    · rw [Raft.persist_lastIncludedIndex, index, if_pos ahead, Raft.persist_log, log, relog]
      refine raised.accept led _ term vote state (.persist _) ?_
      rwa [Raft.persist_log, log, Raft.persist_lastIncludedIndex, index]
    · exact ballots.trans (Raft.raised_ballots _ _)

theorem handleInstallSnapshot (moved : σ.handleInstallSnapshot k = some σ') : Follows core σ' := by
  obtain ⟨call, found, _, after, reply, done, rfl⟩ := Cluster.handleInstallSnapshot_cases moved
  obtain ⟨core', move, node, ballots⟩ :=
    rel.installed_node (rel.snapshots call (List.mem_of_getElem? found)) done
  have set := rel.move move node (rel.counted.update fun t => by rw [ballots])
  exact ⟨core', set.setSnapshot found (.replied reply), move.extended⟩

theorem start (s : Fin n) (command : Option C) : Follows core (σ.start s command) := by
  rcases Cluster.start_cases σ s command with same | ⟨leads, started⟩
  · rw [same]
    exact follows_of_rel rel
  · have node := rel.nodes s
    have leader := node.leader leads
    have append : RaftMoved s core (core.append s { term := (σ.nodes s).currentTerm, command }) :=
      .append rel.safe (by rwa [node.current]) node.current.symm
    have after : NodeRel s (Raft.persist { σ.nodes s with
        log := (σ.nodes s).log ++ [{ term := (σ.nodes s).currentTerm, command }] })
        (σ.logical s ++ [{ term := (σ.nodes s).currentTerm, command }])
        (core.append s { term := (σ.nodes s).currentTerm, command }) := by
      refine ⟨node.current, ?_, node.vote, node.slice.append _, .persist _, fun _ => leader, ?_⟩
      · simp [Core.append, node.log]
      · intro stands
        rw [Raft.persist, leads] at stands
        cases stands
    have set := rel.move append after (rel.counted.update fun _ => Nat.le_refl _)
    refine ⟨_, ?_, append.extended⟩
    rw [started]
    exact ⟨set.safe, set.nodes, set.counted, set.voteOnce, set.votes, set.appends, set.snapshots⟩

theorem snapshot {index : Nat} {data : Bytes} (moved : σ.snapshot s index data = some σ') :
    Follows core σ' := by
  obtain ⟨_, rfl⟩ := Cluster.snapshot_inversion moved
  have node := rel.nodes s
  rcases Raft.snapshot_cases (σ.nodes s) index data with same | died | ⟨above, inside, cut⟩
  · rw [same]
    exact follows_of_rel (rel.quiet (.refl _))
  · rw [died]
    exact follows_of_rel (rel.restart (.refl rel.safe s) node)
  · rw [cut]
    have length := node.slice.length
    refine follows_of_rel (rel.setNode (.refl rel.safe s)
      ⟨node.current, node.log, node.vote, ?_, .persist _, node.leader, node.candidate⟩
      (rel.counted.update fun _ => Nat.le_refl _))
    exact node.slice.drop (Nat.le_of_lt above) (by omega)

theorem applierRead (moved : σ.applierRead s = some σ') : Follows core σ' := by
  rcases Cluster.applierRead_inversion moved with
    rfl | ⟨_, _, dummy, _, rfl⟩ | ⟨_, _, _, entry, _, rfl⟩
  · exact follows_of_rel (rel.restart (.refl rel.safe s) (rel.nodes s))
  · exact follows_of_rel (rel.quiet ⟨rfl, rfl, rfl, rfl, rfl, rfl, rfl, rfl⟩)
  · exact follows_of_rel (rel.quiet ⟨rfl, rfl, rfl, rfl, rfl, rfl, rfl, rfl⟩)

theorem applierSend (moved : σ.applierSend s = some σ') : Follows core σ' := by
  obtain ⟨msg, _, rfl⟩ := Cluster.applierSend_inversion moved
  have set : Rel (σ.setNode s { σ.nodes s with applier := .sent msg }) core :=
    rel.quiet ⟨rfl, rfl, rfl, rfl, rfl, rfl, rfl, rfl⟩
  exact follows_of_rel
    ⟨set.safe, set.nodes, set.counted, set.voteOnce, set.votes, set.appends, set.snapshots⟩

theorem applierAck (moved : σ.applierAck s = some σ') : Follows core σ' := by
  obtain ⟨msg, applied, _, _, rfl⟩ := Cluster.applierAck_inversion moved
  exact follows_of_rel (rel.quiet ⟨rfl, rfl, rfl, rfl, rfl, rfl, rfl, rfl⟩)

/-- The simulation: one action of the cluster, some moves of the abstract protocol. -/
theorem step {action : Action n C} (moved : σ.step action = some σ') : Follows core σ' := by
  cases action with
  | startElection s => exact Option.some.inj moved ▸ rel.startElection s
  | handleRequestVote k => exact rel.handleRequestVote moved
  | receiveRequestVote k => exact rel.receiveRequestVote moved
  | replicateToFollower s follower => exact rel.replicateToFollower moved
  | handleAppendEntries k => exact rel.handleAppendEntries moved
  | receiveAppendEntries k => exact rel.receiveAppendEntries moved
  | handleInstallSnapshot k => exact rel.handleInstallSnapshot moved
  | receiveInstallSnapshot k => exact rel.receiveInstallSnapshot moved
  | start s command => exact Option.some.inj moved ▸ rel.start s command
  | snapshot s index data => exact rel.snapshot moved
  | applierRead s => exact rel.applierRead moved
  | applierSend s => exact rel.applierSend moved
  | applierAck s => exact rel.applierAck moved
  | crash s =>
    exact Option.some.inj moved ▸ follows_of_rel (rel.restart (.refl rel.safe s) (rel.nodes s))

end

end Rel

end KvStore
