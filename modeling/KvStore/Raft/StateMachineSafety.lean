import KvStore.Raft.LedgerSteps
import KvStore.Raft.Safety

set_option autoImplicit false

/-! State machine safety and the soundness of match indices, in runs whose
acknowledgements are credited in the term they were given in; and the runs that
break them. -/

namespace KvStore

open ReplicatedLog

variable {n : Nat} {C : Type}

/-- The runs in which every reply that raises a match index is handled in the
term of its request. -/
abbrev Cluster.FreshRun (trace : List (Cluster n C)) : Prop :=
  Runs.Run Cluster.step (fun σ action => σ.freshAck action = true) (Cluster.init n C) trace

theorem Ledger.init (n : Nat) (C : Type) : Ledger (Cluster.init n C) (Core.init root).observe where
  nodes s := by
    refine ⟨Applying.make { raftstate := none, snapshot := [] }, Nat.one_pos, ?_, ?_, nofun⟩
    · exact .root (List.take_prefix _ _)
    · rintro msg (flight | flight) <;> cases flight
  applied := nofun
  appends := nofun
  snapshots := nofun

/-- An action that credits no acknowledgement of another term keeps the books right. -/
theorem ledger_kept {σ σ' : Cluster n C} {action : Action n C} (fresh : σ.freshAck action = true)
    (moved : σ.step action = some σ')
    (books : ∃ core, Rel σ core ∧ Observed core ∧ Ledger σ core) :
    ∃ core, Rel σ' core ∧ Observed core ∧ Ledger σ' core := by
  obtain ⟨core, rel, observed, ledger⟩ := books
  obtain ⟨middle, after, ext⟩ := rel.step moved
  obtain ⟨after, later⟩ := after.observe
  have ext := ext.trans later
  exact ⟨_, after, observe_observed _,
    (ledger.extend ext rel).step rel ext observed after (observe_observed _) fresh moved⟩

/-- In every state of a fresh run the books are right. -/
theorem fresh_ledger {trace : List (Cluster n C)} (run : Cluster.FreshRun trace) :
    ∀ σ ∈ trace, ∃ core, Rel σ core ∧ Observed core ∧ Ledger σ core := by
  refine run.invariant ?_ ?_
  · exact ⟨_, (Rel.init n C).observe.1, observe_observed _, Ledger.init n C⟩
  · exact fun _ _ _ fresh moved books => ledger_kept fresh moved books

/-- State machine safety: in a fresh run, no two deliveries at one index differ. -/
theorem state_machine_safety {trace : List (Cluster n C)} (run : Cluster.FreshRun trace) :
    ∀ σ ∈ trace, ∀ a b index command command', (a, .command command index) ∈ σ.applied →
      (b, .command command' index) ∈ σ.applied → command = command' := by
  intro σ member a b index command command' first second
  obtain ⟨core, rel, _, ledger⟩ := fresh_ledger run σ member
  obtain ⟨_, log, entry, committed, length, found, rfl⟩ := ledger.applied _ first
  obtain ⟨_, log', entry', committed', length', found', rfl⟩ := ledger.applied _ second
  have same := committed.eq_of_length rel.safe committed' (length.trans length'.symm)
  rw [same, found'] at found
  rw [Option.some.inj found]

/-- A command is replicated, committed and delivered by the leader and a follower. -/
def deliveredTwice : List (Action 3 Nat) :=
  replicatedOnce ++ [.receiveAppendEntries 0, .applierRead 0, .applierSend 0,
    .replicateToFollower 0 2, .handleAppendEntries 1, .applierRead 2, .applierSend 2]

theorem state_machine_safety_delivered :
    ∃ trace : List (Cluster 3 Nat), Cluster.FreshRun trace ∧ ∃ σ ∈ trace,
      (0, .command (some 7) 1) ∈ σ.applied ∧ (2, .command (some 7) 1) ∈ σ.applied ∧
      ∀ a command, (a, .command command 1) ∈ σ.applied → command = some 7 := by
  obtain ⟨trace, run, _, last⟩ := Runs.Run.through Cluster.step Cluster.freshAck
    (Cluster.init 3 Nat) deliveredTwice [] (by decide) (by decide)
  refine ⟨trace, run, _, last, by decide, by decide, fun a command delivered => ?_⟩
  exact state_machine_safety run _ last a 0 1 command (some 7) delivered (by decide)

/-- Servers 0 and 1 take turns as leader. In term 3 server 0 sends its two
entries of term 1 to server 2 and loses leadership before the reply arrives; in
term 4 server 1 overwrites them there and on server 0. Server 0 leads again in
term 5, starts 4 at index 2, and then handles the old reply. -/
def staleReply : List (Action 3 Nat) :=
  [.startElection 0, .handleRequestVote 0, .receiveRequestVote 0, .start 0 (some 1),
    .start 0 (some 2),
    .startElection 1, .handleRequestVote 3, .receiveRequestVote 3, .start 1 (some 3),
    .startElection 0, .startElection 0, .handleRequestVote 7, .receiveRequestVote 7,
    .replicateToFollower 0 2, .handleAppendEntries 0, .receiveAppendEntries 0,
    .replicateToFollower 0 2, .handleAppendEntries 1,
    .startElection 1, .startElection 1, .handleRequestVote 11, .receiveRequestVote 11,
    .replicateToFollower 1 2, .handleAppendEntries 2, .receiveAppendEntries 2,
    .replicateToFollower 1 2, .handleAppendEntries 3,
    .replicateToFollower 1 0, .handleAppendEntries 4, .receiveAppendEntries 4,
    .replicateToFollower 1 0, .handleAppendEntries 5,
    .startElection 0, .handleRequestVote 13, .receiveRequestVote 13, .start 0 (some 4),
    .receiveAppendEntries 1]

/-- Server 0 delivers what it took for committed; server 1 is elected once more
and commits another command at the same index. -/
def divergingDelivery : List (Action 3 Nat) :=
  [.applierRead 0, .applierSend 0, .applierAck 0, .applierRead 0, .applierSend 0,
    .startElection 1, .startElection 1, .handleRequestVote 17, .receiveRequestVote 17,
    .start 1 (some 5),
    .replicateToFollower 1 2, .handleAppendEntries 6, .receiveAppendEntries 6,
    .applierRead 1, .applierSend 1, .applierAck 1, .applierRead 1, .applierSend 1]

set_option maxRecDepth 100000 in
/-- Without that condition two servers deliver different commands at index 2. -/
theorem state_machine_safety_broken :
    ∃ trace : List (Cluster 3 Nat), Cluster.Run trace ∧ ∃ σ ∈ trace,
      (0, .command (some 4) 2) ∈ σ.applied ∧ (1, .command (some 5) 2) ∈ σ.applied := by
  obtain ⟨trace, run, _, last⟩ := Cluster.run_through staleReply divergingDelivery
    (by decide +kernel) (by decide +kernel)
  exact ⟨trace, run, _, last, by decide +kernel, by decide +kernel⟩

/-- Match indices: in a fresh run a leader never credits a peer with more than
its own log, and a peer that has not moved past the leader's term agrees with
the leader on everything it is credited with. -/
theorem match_index_sound {trace : List (Cluster n C)} (run : Cluster.FreshRun trace) :
    ∀ σ ∈ trace, ∀ s i, (σ.nodes s).state = .leader →
      (σ.nodes s).matchIndex i ≤ (σ.nodes s).lastLogIndex ∧
      ((σ.nodes i).currentTerm ≤ (σ.nodes s).currentTerm →
        ∀ k ≤ (σ.nodes s).matchIndex i, (σ.logical i)[k]? = (σ.logical s)[k]?) := by
  intro σ member s i leads
  obtain ⟨core, rel, _, ledger⟩ := fresh_ledger run σ member
  have node := rel.nodes s
  have log := rel.safe.sound.leaderLog _ _ (node.leader leads) node.current
  rw [node.log] at log
  have acked := (ledger.nodes s).matched leads i
  constructor
  · rw [Raft.lastLogIndex_of_slice node.slice]
    by_cases zero : (σ.nodes s).matchIndex i = 0
    · omega
    · have inside := rel.safe.durable.inside _ _ _ (acked _ (by omega) (Nat.le_refl _))
      rw [← log] at inside
      omega
  · intro past k low
    have same : (core.led (σ.nodes s).currentTerm).take (k + 1) <+: σ.logical i := by
      by_cases zero : k = 0
      · -- index 0 holds the root everywhere
        subst zero
        have mine := rel.safe.sound.rooted s
        have theirs := rel.safe.sound.rooted i
        rw [node.log, log] at mine
        rw [(rel.nodes i).log] at theirs
        have first := List.prefix_iff_eq_take.mp mine
        rw [List.length_singleton] at first
        rwa [Nat.zero_add, ← first]
      · have known := acked k (by omega) low
        have reached := rel.safe.durable.bound _ _ _ known
        rw [(rel.nodes i).current] at reached
        have present := rel.safe.durable.present _ _ _ known
          ((rel.nodes i).current.trans (by omega))
        rwa [(rel.nodes i).log] at present
    rw [← log] at same
    have inside : k < (σ.logical s).length := by
      by_cases zero : k = 0
      · have positive := rel.safe.sound.log_nonempty s
        rw [node.log] at positive
        omega
      · have bound := rel.safe.durable.inside _ _ _ (acked k (by omega) low)
        rwa [← log] at bound
    have here : ((σ.logical s).take (k + 1))[k]? = some (σ.logical s)[k] := by
      rw [List.getElem?_take, if_pos (Nat.lt_succ_self k), List.getElem?_eq_getElem inside]
    rw [prefix_getElem same here, List.getElem?_eq_getElem inside]

theorem match_index_sound_replicated :
    ∃ trace : List (Cluster 3 Nat), Cluster.FreshRun trace ∧ ∃ σ ∈ trace,
      (σ.nodes 0).state = .leader ∧ (σ.nodes 0).matchIndex 2 = 1 ∧
      (σ.logical 2)[1]? = (σ.logical 0)[1]? := by
  obtain ⟨trace, run, _, last⟩ := Runs.Run.through Cluster.step Cluster.freshAck
    (Cluster.init 3 Nat) replicatedOnce [.receiveAppendEntries 0] (by decide) (by decide)
  refine ⟨trace, run, _, last, by decide, by decide, ?_⟩
  exact (match_index_sound run _ last 0 2 (by decide)).2 (by decide) 1 (by decide)

/-- Server 0 leads term 1 and has its entry on server 2; the other three elect
server 1 in term 2, which overwrites the entry on server 2. -/
def overwrittenPeer : List (Action 5 Nat) :=
  [.startElection 0, .handleRequestVote 0, .receiveRequestVote 0, .handleRequestVote 1,
    .receiveRequestVote 1, .start 0 (some 1),
    .replicateToFollower 0 2, .handleAppendEntries 0, .receiveAppendEntries 0,
    .startElection 1, .handleRequestVote 6, .receiveRequestVote 6, .handleRequestVote 7,
    .receiveRequestVote 7, .start 1 (some 2), .replicateToFollower 1 2, .handleAppendEntries 1]

set_option maxRecDepth 10000 in
/-- A leader that has been replaced without knowing it may credit a peer with an
entry the peer has since given up. -/
theorem match_index_outdated :
    ∃ trace : List (Cluster 5 Nat), Cluster.Run trace ∧ ∃ σ ∈ trace,
      (σ.nodes 0).state = .leader ∧ (σ.nodes 0).matchIndex 2 = 1 ∧
      (σ.logical 2)[1]? ≠ (σ.logical 0)[1]? := by
  obtain ⟨trace, run, _, last⟩ := Cluster.run_through overwrittenPeer []
    (by decide +kernel) (by decide +kernel)
  exact ⟨trace, run, _, last, by decide +kernel, by decide +kernel, by decide +kernel⟩

end KvStore
