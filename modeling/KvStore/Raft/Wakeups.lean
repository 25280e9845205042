import KvStore.Raft.ApplyOrder
import KvStore.Raft.Draining
import KvStore.Raft.Redelivery

set_option autoImplicit false

/-! The signals that wake the appliers. The cluster lets every applier move at any time;
here an applier sleeps until `applyReadyCh` holds a signal, and goes back to sleep when it
finds nothing to do. -/

namespace KvStore

variable {n : Nat} {C : Type}

namespace Raft

variable {rf after : Raft n C}

/-- `AppendEntries` gets to its `notify`: it has accepted the entries. -/
def appendEntriesNotifies (rf : Raft n C) (args : AppendEntriesArgs n C) : Bool :=
  match rf.appendEntries args with
  | .ok (_, reply) => reply.success
  | .error _ => false

/-- `InstallSnapshot` notifies when it has left a snapshot for the applier. -/
def installSnapshotNotifies (rf : Raft n C) (args : InstallSnapshotArgs n) : Bool :=
  decide (rf.currentTerm ≤ args.term ∧ rf.lastIncludedIndex < args.lastIncludedIndex ∧
    rf.lastApplied < args.lastIncludedIndex)

/-- The handling of a reply notifies in `advanceCommitIndex` only, when the commit index
has moved. -/
def commitAdvanced (rf : Raft n C) : Except (Raft n C) (Raft n C) → Bool
  | .ok after => decide (rf.commitIndex < after.commitIndex)
  | .error _ => false

/-- An `AppendEntries` that does not notify leaves the commit index alone. -/
theorem appendEntries_silent {args : AppendEntriesArgs n C} {reply : AppendEntriesReply}
    (done : rf.appendEntries args = .ok (after, reply)) (refused : reply.success = false) :
    after.commitIndex = rf.commitIndex := by
  unfold appendEntries at done
  split at done
  · rw [← (Prod.mk.inj (Except.ok.inj done)).1]
  rcases checkPrev_cases (rf.heardLeader args.term) args with
    ⟨conflict, checked⟩ | died | ⟨_, _, _, passed⟩
  · simp only [checked, bind, Except.bind, pure, Except.pure] at done
    rw [← (Prod.mk.inj (Except.ok.inj done)).1, heardLeader_commitIndex]
  · simp only [died, bind, Except.bind] at done
    cases done
  · simp only [passed, bind, Except.bind, pure, Except.pure] at done
    split at done
    · cases done
    · rw [← (Prod.mk.inj (Except.ok.inj done)).2] at refused
      cases refused

theorem advanceCommitIndex_le {me : Fin n} (done : rf.advanceCommitIndex me = .ok after) :
    rf.commitIndex ≤ after.commitIndex := by
  rcases advanceFrom_cases me rf rf.lastLogIndex with
    (same | died) | ⟨k, _, higher, _, _, _, _, moved⟩
  · obtain rfl := Except.ok.inj (same.symm.trans done)
    exact Nat.le_refl _
  · cases died.symm.trans done
  · obtain rfl := Except.ok.inj (moved.symm.trans done)
    exact Nat.le_of_lt higher

theorem onAppendEntriesReply_le {me i : Fin n} {args : AppendEntriesArgs n C}
    {reply : AppendEntriesReply} (done : rf.onAppendEntriesReply me i args reply = .ok after) :
    rf.commitIndex ≤ after.commitIndex := by
  unfold onAppendEntriesReply at done
  split at done
  · obtain rfl := Except.ok.inj done
    exact Nat.le_refl _
  split at done
  · dsimp only at done
    split at done
    · obtain rfl := Except.ok.inj done
      exact Nat.le_refl _
    · have higher := advanceCommitIndex_le done
      exact higher
  split at done
  · obtain rfl := Except.ok.inj done
    exact Nat.le_refl _
  split at done
  · cases scanned : rf.scanConflict reply args.prevLogIndex with
    | ok next =>
      rw [scanned] at done
      obtain rfl := Except.ok.inj done
      exact Nat.le_refl _
    | error dead =>
      rw [scanned] at done
      cases done
  · obtain rfl := Except.ok.inj done
    exact Nat.le_refl _

theorem onInstallSnapshotReply_le {me i : Fin n} {args : InstallSnapshotArgs n}
    {reply : InstallSnapshotReply} (done : rf.onInstallSnapshotReply me i args reply = .ok after) :
    rf.commitIndex ≤ after.commitIndex := by
  unfold onInstallSnapshotReply at done
  split at done
  · obtain rfl := Except.ok.inj done
    exact Nat.le_refl _
  split at done
  · have higher := advanceCommitIndex_le done
    exact higher
  · obtain rfl := Except.ok.inj done
    exact Nat.le_refl _

end Raft

/-- The server whose `applyReadyCh` the action signals, if it signals one. -/
def Cluster.notified (σ : Cluster n C) : Action n C → Option (Fin n)
  | .handleAppendEntries k => do
    let call ← σ.appendCalls[k]?
    if (σ.nodes call.dst).appendEntriesNotifies call.args then some call.dst else none
  | .receiveAppendEntries k => do
    let call ← σ.appendCalls[k]?
    match call.status with
    | .replied reply =>
      let rf := σ.nodes call.src
      if rf.commitAdvanced (rf.onAppendEntriesReply call.src call.dst call.args reply) then
        some call.src
      else none
    | _ => none
  | .handleInstallSnapshot k => do
    let call ← σ.snapshotCalls[k]?
    if (σ.nodes call.dst).installSnapshotNotifies call.args.request then some call.dst else none
  | .receiveInstallSnapshot k => do
    let call ← σ.snapshotCalls[k]?
    match call.status with
    | .replied reply =>
      let rf := σ.nodes call.src
      if rf.commitAdvanced (rf.onInstallSnapshotReply call.src call.dst call.args.request
          reply) then
        some call.src
      else none
    | _ => none
  | _ => none

/-- What an action leaves of the applier of a server that it neither restarts nor signals:
the applier stays where it is, and gets nothing to do. -/
def Calm (σ : Cluster n C) (action : Action n C) (s : Fin n) (rf : Raft n C) : Prop :=
  rf.applier = (σ.nodes s).applier ∧ rf.lastApplied = (σ.nodes s).lastApplied ∧
    (σ.notified action = some s ∨ rf.snapshotPending = (σ.nodes s).snapshotPending ∧
      rf.commitIndex = (σ.nodes s).commitIndex)

namespace Calm

variable {σ σ' : Cluster n C} {action : Action n C} {s t : Fin n}

theorem refl (σ : Cluster n C) (action : Action n C) (s : Fin n) : Calm σ action s (σ.nodes s) :=
  ⟨rfl, rfl, Or.inr ⟨rfl, rfl⟩⟩

theorem of_unmoved {rf : Raft n C} (same : (σ.nodes s).Unmoved rf)
    (commit : σ.notified action = some s ∨ rf.commitIndex = (σ.nodes s).commitIndex) :
    Calm σ action s rf :=
  ⟨same.applier, same.lastApplied, commit.imp_right fun commit => ⟨same.snapshotPending, commit⟩⟩

/-- A reply that the caller survives. -/
theorem of_reply {after : Raft n C} (same : (σ.nodes s).Unmoved after)
    (higher : (σ.nodes s).commitIndex ≤ after.commitIndex)
    (notifies : (σ.nodes s).commitAdvanced (.ok after) = true → σ.notified action = some s) :
    Calm σ action s after := by
  refine of_unmoved same ?_
  by_cases advanced : (σ.nodes s).commitIndex < after.commitIndex
  · exact Or.inl (notifies (decide_eq_true advanced))
  · exact Or.inr (by omega)

end Calm

/-- A server that restarts has nothing to apply; any other is left calm by all but its own
applier. -/
def Undisturbed (σ : Cluster n C) (action : Action n C) (σ' : Cluster n C) (s : Fin n) : Prop :=
  (∃ persister, σ'.nodes s = Raft.make persister) ∨
    σ'.incarnation s = σ.incarnation s ∧ (¬ action.OfApplier s → Calm σ action s (σ'.nodes s))

namespace Undisturbed

variable {σ σ' : Cluster n C} {action : Action n C} {s t : Fin n} {k : Nat}

theorem of_still (nodes : σ'.nodes s = σ.nodes s)
    (incarnation : σ'.incarnation s = σ.incarnation s) : Undisturbed σ action σ' s :=
  Or.inr ⟨incarnation, fun _ => nodes ▸ .refl σ action s⟩

/-- One server changes. -/
theorem of_update {rf : Raft n C} (nodes : σ'.nodes = Function.update σ.nodes t rf)
    (incarnation : σ'.incarnation = σ.incarnation)
    (calm : s = t → ¬ action.OfApplier s → Calm σ action t rf) : Undisturbed σ action σ' s := by
  by_cases here : s = t
  · refine Or.inr ⟨congrFun incarnation s, fun other => ?_⟩
    rw [nodes, here, Function.update_self]
    exact calm here other
  · refine of_still ?_ (congrFun incarnation s)
    rw [nodes, Function.update_of_ne here]

/-- One server restarts. -/
theorem of_restart {persister : Persister n C} (nodes : σ'.nodes = (σ.restart t persister).nodes)
    (incarnation : σ'.incarnation = (σ.restart t persister).incarnation) :
    Undisturbed σ action σ' s := by
  by_cases here : s = t
  · refine Or.inl ⟨persister, ?_⟩
    rw [nodes, here]
    exact Function.update_self ..
  · refine of_still ?_ ?_
    · rw [nodes]
      exact Function.update_of_ne here ..
    · rw [incarnation]
      exact Function.update_of_ne here ..

/-- One server ends a critical section, or dies in it. -/
theorem of_settle {result : Except (Raft n C) (Raft n C)}
    (nodes : σ'.nodes = (σ.settle t result).nodes)
    (incarnation : σ'.incarnation = (σ.settle t result).incarnation)
    (calm : ∀ after, result = .ok after → Calm σ action t after) :
    Undisturbed σ action σ' s := by
  cases result with
  | ok after => exact of_update nodes incarnation fun _ _ => calm after rfl
  | error dead => exact of_restart nodes incarnation

theorem startElection : Undisturbed σ (.startElection t) (σ.startElection t) s := by
  rcases Raft.startElection_cases t (σ.nodes t) with died | ⟨_, _, stands⟩
  · simp only [Cluster.startElection, died]
    exact of_restart rfl rfl
  · simp only [Cluster.startElection, stands]
    exact of_update rfl rfl fun _ _ => ⟨rfl, rfl, Or.inr ⟨rfl, rfl⟩⟩

theorem handleRequestVote (moved : σ.handleRequestVote k = some σ') :
    Undisturbed σ (.handleRequestVote k) σ' s := by
  obtain ⟨call, _, _, outcome⟩ := Cluster.handleRequestVote_cases moved
  have raised := (σ.nodes call.dst).raised_unmoved call.args.term
  have commit := (σ.nodes call.dst).raised_commitIndex call.args.term
  have vote : Raft.VoteOutcome ((σ.nodes call.dst).raised call.args.term) call.args
      ((σ.nodes call.dst).requestVote call.args) := Raft.castVote_outcome _ _
  rcases outcome with ⟨rf, reply, done, rfl⟩ | ⟨rf, _, rfl⟩
  · rw [done] at vote
    refine of_update rfl rfl fun _ _ => ?_
    cases vote with
    | refused => exact .of_unmoved raised (Or.inr commit)
    | granted =>
      exact .of_unmoved (raised.trans ⟨rfl, rfl, rfl, rfl, rfl, Or.inr rfl⟩) (Or.inr commit)
  · exact of_restart rfl rfl

theorem receiveRequestVote (moved : σ.receiveRequestVote k = some σ') :
    Undisturbed σ (.receiveRequestVote k) σ' s := by
  obtain ⟨call, reply, _, _, _, rfl⟩ := Cluster.receiveRequestVote_cases moved
  have outcome := Raft.onRequestVoteReply_outcome (σ.nodes call.src) call.args reply
  refine of_update rfl rfl fun _ _ => ?_
  generalize (σ.nodes call.src).onRequestVoteReply call.args reply = rf at outcome
  cases outcome with
  | stepDown => exact ⟨rfl, rfl, Or.inr ⟨rfl, rfl⟩⟩
  | ignored => exact .refl σ _ _
  | counted => exact ⟨rfl, rfl, Or.inr ⟨rfl, rfl⟩⟩
  | elected => exact ⟨rfl, rfl, Or.inr ⟨rfl, rfl⟩⟩

theorem handleAppendEntries (moved : σ.handleAppendEntries k = some σ') :
    Undisturbed σ (.handleAppendEntries k) σ' s := by
  obtain ⟨call, found, _, outcome⟩ := Cluster.handleAppendEntries_cases moved
  rcases outcome with ⟨rf, reply, done, rfl⟩ | ⟨rf, _, rfl⟩
  · refine of_update rfl rfl fun _ _ => .of_unmoved (Raft.appendEntries_unmoved done) ?_
    cases accepted : reply.success with
    | true =>
      refine Or.inl ?_
      simp only [Cluster.notified, found, Option.bind_eq_bind, Option.bind_some,
        Raft.appendEntriesNotifies, done, accepted, ↓reduceIte]
    | false => exact Or.inr (Raft.appendEntries_silent done accepted)
  · exact of_restart rfl rfl

theorem handleInstallSnapshot (moved : σ.handleInstallSnapshot k = some σ') :
    Undisturbed σ (.handleInstallSnapshot k) σ' s := by
  obtain ⟨call, found, _, after, reply, done, rfl⟩ := Cluster.handleInstallSnapshot_cases moved
  have outcome := Raft.installSnapshot_outcome (σ.nodes call.dst) call.args.request
  have raised := (σ.nodes call.dst).raised_unmoved call.args.request.term
  have commit := (σ.nodes call.dst).raised_commitIndex call.args.request.term
  rw [done] at outcome
  refine of_update rfl rfl fun _ _ => ?_
  cases outcome with
  | stale => exact .refl σ _ _
  | kept => exact .of_unmoved raised (Or.inr commit)
  | installed current ahead =>
    obtain ⟨applier, lastApplied, -, -, -, told⟩ :=
      ((σ.nodes call.dst).raised call.args.request.term).installed_effect call.args.request
    refine ⟨applier.trans raised.applier, lastApplied.trans raised.lastApplied, ?_⟩
    rw [raised.lastApplied] at told
    rcases told with ⟨lower, -, -⟩ | ⟨-, pending, commit'⟩
    · refine Or.inl ?_
      have notifies : (σ.nodes call.dst).installSnapshotNotifies call.args.request = true :=
        decide_eq_true ⟨current, ahead, lower⟩
      simp only [Cluster.notified, found, Option.bind_eq_bind, Option.bind_some, notifies,
        ↓reduceIte]
    · exact Or.inr ⟨pending.trans raised.snapshotPending, commit'.trans commit⟩

theorem receiveAppendEntries (moved : σ.receiveAppendEntries k = some σ') :
    Undisturbed σ (.receiveAppendEntries k) σ' s := by
  obtain ⟨call, reply, found, replied, _, rfl⟩ := Cluster.receiveAppendEntries_cases moved
  have same := (σ.nodes call.src).onAppendEntriesReply_unmoved call.src call.dst call.args reply
  refine of_settle rfl rfl fun after done => ?_
  rw [done] at same
  refine .of_reply same (Raft.onAppendEntriesReply_le done) fun advanced => ?_
  simp only [Cluster.notified, found, Option.bind_eq_bind, Option.bind_some, replied, done,
    advanced, ↓reduceIte]

theorem receiveInstallSnapshot (moved : σ.receiveInstallSnapshot k = some σ') :
    Undisturbed σ (.receiveInstallSnapshot k) σ' s := by
  obtain ⟨call, reply, found, replied, _, rfl⟩ := Cluster.receiveInstallSnapshot_cases moved
  have same := (σ.nodes call.src).onInstallSnapshotReply_unmoved call.src call.dst
    call.args.request reply
  refine of_settle rfl rfl fun after done => ?_
  rw [done] at same
  refine .of_reply same (Raft.onInstallSnapshotReply_le done) fun advanced => ?_
  simp only [Cluster.notified, found, Option.bind_eq_bind, Option.bind_some, replied, done,
    advanced, ↓reduceIte]

/-- Every action restarts the server, is its applier's own, signals it, or leaves its
applier as it was. -/
theorem of_step (moved : σ.step action = some σ') : Undisturbed σ action σ' s := by
  cases action with
  | startElection t =>
    obtain rfl := Option.some.inj moved
    exact startElection
  | handleRequestVote k => exact handleRequestVote moved
  | receiveRequestVote k => exact receiveRequestVote moved
  | replicateToFollower t follower =>
    obtain ⟨_, _, outcome⟩ := Cluster.replicateToFollower_cases moved
    rcases outcome with ⟨rf, _, rfl⟩ | ⟨request, _, rfl⟩ | ⟨args, _, _, rfl⟩
    · exact of_restart rfl rfl
    · exact of_still rfl rfl
    · exact of_still rfl rfl
  | handleAppendEntries k => exact handleAppendEntries moved
  | receiveAppendEntries k => exact receiveAppendEntries moved
  | handleInstallSnapshot k => exact handleInstallSnapshot moved
  | receiveInstallSnapshot k => exact receiveInstallSnapshot moved
  | start t command =>
    obtain rfl := Option.some.inj moved
    rcases Cluster.start_cases σ t command with same | ⟨_, done⟩
    · rw [same]
      exact of_still rfl rfl
    · rw [done]
      exact of_update rfl rfl fun _ _ => ⟨rfl, rfl, Or.inr ⟨rfl, rfl⟩⟩
  | snapshot t index data =>
    obtain ⟨_, rfl⟩ := Cluster.snapshot_inversion moved
    refine of_settle rfl rfl fun after done => ?_
    rcases Raft.snapshot_cases (σ.nodes t) index data with same | died | ⟨_, _, cut⟩
    · obtain rfl := Except.ok.inj (same.symm.trans done)
      exact .refl σ _ t
    · cases died.symm.trans done
    · obtain rfl := Except.ok.inj (cut.symm.trans done)
      exact ⟨rfl, rfl, Or.inr ⟨rfl, rfl⟩⟩
  | applierRead t =>
    rcases Cluster.applierRead_inversion moved with
      rfl | ⟨_, _, _, _, rfl⟩ | ⟨_, _, _, _, _, rfl⟩
    · exact of_restart rfl rfl
    · exact of_update rfl rfl fun same other => absurd same.symm other
    · exact of_update rfl rfl fun same other => absurd same.symm other
  | applierSend t =>
    obtain ⟨_, _, rfl⟩ := Cluster.applierSend_inversion moved
    exact of_update rfl rfl fun same other => absurd same.symm other
  | applierAck t =>
    obtain ⟨_, _, _, _, rfl⟩ := Cluster.applierAck_inversion moved
    exact of_update rfl rfl fun same other => absurd same.symm other
  | crash t =>
    obtain rfl := Option.some.inj moved
    exact of_restart rfl rfl

end Undisturbed

/-- The books and indices are right, and every applier hands over in order. -/
structure Cluster.Orderly (σ : Cluster n C) : Prop where
  kept : σ.Kept
  order : ∀ s, InOrder (σ.nodes s) (σ.delivered s)

namespace Cluster.Orderly

variable {σ σ' : Cluster n C} {s : Fin n}

theorem init : (Cluster.init n C).Orderly :=
  ⟨fresh_indexed .start _ (List.mem_singleton_self _), fun s => (Sequenced.init s).order⟩

theorem step (orderly : σ.Orderly) {action : Action n C} (fresh : σ.freshReply action = true)
    (moved : σ.step action = some σ') : σ'.Orderly := by
  obtain ⟨_, ⟨rel, _, _⟩, _⟩ := orderly.kept
  exact ⟨orderly.kept.step fresh moved, fun s =>
    (orderly.order s).step (Cluster.delivery_step (fun s => (rel.nodes s).saved) moved s)⟩

theorem drains (orderly : σ.Orderly) (drains : Drains s σ σ') : σ'.Orderly := by
  induction drains with
  | refl => exact orderly
  | tail _ moves ih =>
    obtain ⟨action, ⟨applier, _⟩, moved⟩ := moves
    exact ih.step (freshReply_of_applier applier) moved

theorem handed_idle (orderly : σ.Orderly) (idle : (σ.nodes s).applier = .idle) :
    σ.delivered s = (σ.nodes s).lastApplied := by
  rw [(orderly.order s).handed, Raft.handed, idle]

/-- What is behind the applier's progress, not compacted and not delivered is the command it
has read but not sent. -/
theorem in_flight (orderly : σ.Orderly) {j : Nat} (above : (σ.nodes s).lastIncludedIndex < j)
    (fresh : σ.delivered s < j) (low : j ≤ (σ.nodes s).progress) :
    ∃ command, (σ.nodes s).applier = .sending (.command command j) := by
  have order := orderly.order s
  have handed := order.handed
  unfold Raft.handed at handed
  unfold Raft.progress at low
  cases flight : (σ.nodes s).applier with
  | idle =>
    simp only [flight] at handed low
    omega
  | sent msg =>
    simp only [flight] at handed low
    omega
  | sending msg =>
    cases msg with
    | command command index =>
      have next := order.next flight
      simp only [flight, ApplyMsg.index] at low
      obtain rfl : index = j := by omega
      exact ⟨command, rfl⟩
    | snapshot data term index =>
      have behind := order.paced.behind data term index (Or.inl flight)
      simp only [flight, ApplyMsg.index] at low
      omega

end Cluster.Orderly

/-- The cluster with the signals: whether `applyReadyCh` of a server holds its one signal,
and whether its applier has received one and is in the loop that applies. -/
structure Signalled (n : Nat) (C : Type) where
  cluster : Cluster n C
  applyReady : Fin n → Bool
  awake : Fin n → Bool

namespace Signalled

inductive Move (n : Nat) (C : Type)
  | act (action : Action n C)
  | wake (server : Fin n)
  | sleep (server : Fin n)

def init (n : Nat) (C : Type) : Signalled n C where
  cluster := Cluster.init n C
  applyReady _ := false
  awake _ := false

/-- An applier moves in its loop only. -/
def permits (τ : Signalled n C) : Action n C → Bool
  | .applierRead s => τ.awake s
  | .applierSend s => τ.awake s
  | .applierAck s => τ.awake s
  | _ => true

/-- A signal to a channel that holds one is dropped. A process that dies loses both its
channel and its applier. -/
def act (τ : Signalled n C) (action : Action n C) : Option (Signalled n C) :=
  if τ.permits action then do
    let after ← τ.cluster.step action
    let alive s := decide (after.incarnation s = τ.cluster.incarnation s)
    some {
      cluster := after
      applyReady := fun s =>
        alive s && (τ.applyReady s || decide (τ.cluster.notified action = some s))
      awake := fun s => alive s && τ.awake s }
  else none

/-- The applier has something to do. -/
def behind (rf : Raft n C) : Bool := rf.snapshotPending || decide (rf.lastApplied < rf.commitIndex)

def step (τ : Signalled n C) : Move n C → Option (Signalled n C)
  | .act action => τ.act action
  | .wake s =>
    if τ.applyReady s && !τ.awake s then
      some { τ with
        applyReady := Function.update τ.applyReady s false
        awake := Function.update τ.awake s true }
    else none
  | .sleep s =>
    match (τ.cluster.nodes s).applier with
    | .idle =>
      if τ.awake s && !behind (τ.cluster.nodes s) then
        some { τ with awake := Function.update τ.awake s false }
      else none
    | _ => none

variable {τ τ' : Signalled n C} {s : Fin n} {action : Action n C} {σ : Cluster n C}

theorem act_inversion (moved : τ.act action = some τ') :
    τ.permits action = true ∧ τ.cluster.step action = some τ'.cluster ∧ ∀ s,
      τ'.applyReady s = (decide (τ'.cluster.incarnation s = τ.cluster.incarnation s) &&
        (τ.applyReady s || decide (τ.cluster.notified action = some s))) ∧
      τ'.awake s = (decide (τ'.cluster.incarnation s = τ.cluster.incarnation s) && τ.awake s) := by
  unfold act at moved
  split at moved
  · obtain ⟨after, stepped, done⟩ := Option.bind_eq_some_iff.mp moved
    obtain rfl := Option.some.inj done
    exact ⟨‹_›, stepped, fun s => ⟨rfl, rfl⟩⟩
  · cases moved

theorem act_of_step (permits : τ.permits action = true) (stepped : τ.cluster.step action = some σ) :
    τ.step (.act action) = some {
      cluster := σ
      applyReady := fun s => decide (σ.incarnation s = τ.cluster.incarnation s) &&
        (τ.applyReady s || decide (τ.cluster.notified action = some s))
      awake := fun s => decide (σ.incarnation s = τ.cluster.incarnation s) && τ.awake s } := by
  simp only [step, act, permits, stepped, ↓reduceIte, Option.bind_eq_bind, Option.bind_some]

theorem wake_inversion (moved : τ.step (.wake s) = some τ') :
    τ.applyReady s = true ∧ τ.awake s = false ∧ τ' = { τ with
      applyReady := Function.update τ.applyReady s false
      awake := Function.update τ.awake s true } := by
  simp only [step] at moved
  split at moved
  · rename_i ready
    rw [Bool.and_eq_true, Bool.not_eq_true'] at ready
    exact ⟨ready.1, ready.2, (Option.some.inj moved).symm⟩
  · cases moved

theorem sleep_inversion (moved : τ.step (.sleep s) = some τ') :
    (τ.cluster.nodes s).applier = .idle ∧ τ.awake s = true ∧ behind (τ.cluster.nodes s) = false ∧
      τ' = { τ with awake := Function.update τ.awake s false } := by
  simp only [step] at moved
  split at moved
  · rename_i idle
    split at moved
    · rename_i done
      rw [Bool.and_eq_true, Bool.not_eq_true'] at done
      exact ⟨idle, done.1, done.2, (Option.some.inj moved).symm⟩
    · cases moved
  · cases moved

/-- Every run of the cluster with its signals. -/
abbrev Run (trace : List (Signalled n C)) : Prop :=
  Runs.Run step (fun _ _ => True) (init n C) trace

/-- An applier that sleeps with no signal waiting for it has nothing to do. -/
def Attentive (τ : Signalled n C) : Prop :=
  ∀ s, τ.awake s = false → (τ.cluster.nodes s).applier = .idle ∧
    (τ.applyReady s = false → behind (τ.cluster.nodes s) = false)

theorem behind_make (persister : Persister n C) :
    (Raft.make persister).applier = .idle ∧ behind (Raft.make persister) = false := by
  unfold Raft.make Raft.readPersist
  split <;> exact ⟨rfl, by simp [behind]⟩

/-- The appliers' own sections are taken by those awake. -/
theorem permits_applier (permits : τ.permits action = true) (applier : action.OfApplier s) :
    τ.awake s = true := by
  cases action with
  | applierRead t | applierSend t | applierAck t =>
    obtain rfl := applier
    exact permits
  | _ => cases applier

theorem Attentive.act (attentive : τ.Attentive) (moved : τ.act action = some τ') :
    τ'.Attentive := by
  obtain ⟨permits, stepped, signals⟩ := act_inversion moved
  intro s asleep
  obtain ⟨ready, awake⟩ := signals s
  rcases Undisturbed.of_step stepped with ⟨persister, fresh⟩ | ⟨alive, calm⟩
  · rw [fresh]
    exact ⟨(behind_make persister).1, fun _ => (behind_make persister).2⟩
  · rw [awake, decide_eq_true alive, Bool.true_and] at asleep
    rw [decide_eq_true alive, Bool.true_and] at ready
    obtain ⟨idle, quiet⟩ := attentive s asleep
    have other : ¬ action.OfApplier s := fun applier =>
      Bool.noConfusion ((permits_applier permits applier).symm.trans asleep)
    obtain ⟨applier, lastApplied, calm⟩ := calm other
    refine ⟨applier.trans idle, fun unsignalled => ?_⟩
    rw [ready, Bool.or_eq_false_iff] at unsignalled
    rcases calm with notified | ⟨pending, commit⟩
    · exact absurd notified (of_decide_eq_false unsignalled.2)
    · have before := quiet unsignalled.1
      rw [behind] at before ⊢
      rw [pending, lastApplied, commit]
      exact before

theorem Attentive.step (attentive : τ.Attentive) {move : Move n C}
    (moved : τ.step move = some τ') : τ'.Attentive := by
  cases move with
  | act action => exact attentive.act moved
  | wake t =>
    obtain ⟨_, _, rfl⟩ := wake_inversion moved
    intro s asleep
    have other : s ≠ t := by
      rintro rfl
      simp at asleep
    simp only [Function.update_of_ne other] at asleep ⊢
    exact attentive s asleep
  | sleep t =>
    obtain ⟨idle, _, done, rfl⟩ := sleep_inversion moved
    intro s asleep
    by_cases here : s = t
    · subst here
      exact ⟨idle, fun _ => done⟩
    · simp only [Function.update_of_ne here] at asleep ⊢
      exact attentive s asleep

theorem attentive_init : (init n C).Attentive :=
  fun _ _ => ⟨(behind_make _).1, fun _ => (behind_make _).2⟩

/-- The applier of server `s` moves: it takes the signal, takes one of its critical
sections and survives it, or goes back to sleep. -/
def ApplierMoves (s : Fin n) (τ τ' : Signalled n C) : Prop :=
  τ'.cluster.incarnation = τ.cluster.incarnation ∧ ∃ move : Move n C, τ.step move = some τ' ∧
    (move = .wake s ∨ move = .sleep s ∨ ∃ action : Action n C, move = .act action ∧
      action.OfApplier s)

abbrev Drains (s : Fin n) : Signalled n C → Signalled n C → Prop :=
  Relation.ReflTransGen (ApplierMoves s)

theorem notified_of_applier (applier : action.OfApplier s) : σ.notified action = none := by
  cases action with
  | applierRead t | applierSend t | applierAck t => rfl
  | _ => cases applier

/-- In its loop an applier can do what it does in the cluster without signals. -/
theorem Drains.lift (awake : τ.awake s = true) (drains : Cluster.Drains s τ.cluster σ) :
    ∃ τ', Drains s τ τ' ∧ τ'.cluster = σ ∧ τ'.awake s = true ∧
      τ'.applyReady s = τ.applyReady s := by
  induction drains with
  | refl => exact ⟨τ, .refl, rfl, awake, rfl⟩
  | tail _ moves ih =>
    obtain ⟨middle, before, rfl, up, ready⟩ := ih
    obtain ⟨action, ⟨applier, lives⟩, stepped⟩ := moves
    have permits : middle.permits action = true := by
      cases action with
      | applierRead t | applierSend t | applierAck t =>
        obtain rfl := applier
        exact up
      | _ => rfl
    refine ⟨_, before.tail ⟨lives, .act action, act_of_step permits stepped,
      Or.inr (Or.inr ⟨action, rfl, applier⟩)⟩, rfl, ?_, ?_⟩
    · simp only [lives, up, decide_true, Bool.true_and]
    · simp only [lives, ready, notified_of_applier applier, reduceCtorEq, decide_true, decide_false,
        Bool.true_and, Bool.or_false]

/-- The applier of `s` has delivered whatever was committed in `σ` and not delivered yet,
and rests. -/
structure CaughtUp (s : Fin n) (σ σ' : Cluster n C) : Prop where
  applies : Cluster.Applies s σ σ'
  rests : Cluster.Rests s (σ.nodes s).commitIndex false σ'
  delivered : ∀ j entry, (σ.nodes s).lastIncludedIndex < j → σ.delivered s < j →
    j ≤ (σ.nodes s).commitIndex → (σ.logical s)[j]? = some entry →
    (s, .command entry.command j) ∈ σ'.applied

theorem CaughtUp.not_behind {σ σ' : Cluster n C} (done : CaughtUp s σ σ') :
    behind (σ'.nodes s) = false := by
  rw [behind, done.rests.snapshotPending, done.rests.lastApplied, done.applies.node.1,
    Bool.false_or, decide_eq_false (Nat.lt_irrefl _)]

theorem CaughtUp.trans {σ σ' σ'' : Cluster n C} (first : CaughtUp s σ σ')
    (second : CaughtUp s σ' σ'') : CaughtUp s σ σ'' where
  applies := first.applies.trans second.applies
  rests := first.applies.node.1 ▸ second.rests
  delivered j entry above fresh low found :=
    second.applies.applied _ (first.delivered j entry above fresh low found)

/-- An applier with nothing to do has caught up. -/
theorem CaughtUp.of_idle (orderly : σ.Orderly) (idle : (σ.nodes s).applier = .idle)
    (done : behind (σ.nodes s) = false) : CaughtUp s σ σ := by
  rw [behind, Bool.or_eq_false_iff, decide_eq_false_iff_not] at done
  have committed := (orderly.kept.applying s).committed
  have progress := Raft.progress_idle idle
  have handed := orderly.handed_idle idle
  exact ⟨.refl s σ, ⟨idle, by omega, done.1⟩, fun j _ _ fresh low => absurd fresh (by omega)⟩

/-- What the applier does in its loop. The message it had read but not sent goes first. -/
theorem CaughtUp.of_loop {σ σ' : Cluster n C} (orderly : σ.Orderly)
    (applies : Cluster.Applies s σ σ')
    (rests : Cluster.Rests s (σ.nodes s).commitIndex false σ')
    (flight : ∀ msg, (σ.nodes s).applier = .sending msg → (s, msg) ∈ σ'.applied)
    (all : ∀ j entry, (σ.nodes s).lastIncludedIndex < j → (σ.nodes s).progress < j →
      j ≤ (σ.nodes s).commitIndex → (σ.logical s)[j]? = some entry →
      (s, .command entry.command j) ∈ σ'.applied) : CaughtUp s σ σ' := by
  refine ⟨applies, rests, fun j entry above fresh low found => ?_⟩
  by_cases later : (σ.nodes s).progress < j
  · exact all j entry above later low found
  · obtain ⟨command, sending⟩ := orderly.in_flight above fresh (Nat.le_of_not_lt later)
    rw [orderly.kept.flight_logged sending found]
    exact flight _ sending

/-- An applier in its loop empties its work and goes to sleep. -/
theorem goes_to_sleep (orderly : τ.cluster.Orderly) (awake : τ.awake s = true) :
    ∃ τ', Drains s τ τ' ∧ τ'.awake s = false ∧ τ'.applyReady s = τ.applyReady s ∧
      τ'.cluster.Orderly ∧ CaughtUp s τ.cluster τ'.cluster := by
  obtain ⟨σ, drains, applies, rests, flight, all⟩ := orderly.kept.applies_all s
  have orderly' := orderly.drains drains
  obtain ⟨middle, lifted, rfl, up, ready⟩ := Drains.lift awake drains
  have done := CaughtUp.of_loop orderly applies rests flight all
  have moved : middle.step (.sleep s) =
      some { middle with awake := Function.update middle.awake s false } := by
    simp only [step, rests.idle, up, done.not_behind, Bool.not_false, Bool.and_self, ↓reduceIte]
  exact ⟨{ middle with awake := Function.update middle.awake s false },
    lifted.tail ⟨rfl, _, moved, Or.inr (Or.inl rfl)⟩, Function.update_self .., ready, orderly',
    done⟩

/-- A signal gets a sleeping applier through its loop once. -/
theorem takes_signal (orderly : τ.cluster.Orderly) (asleep : τ.awake s = false)
    (ready : τ.applyReady s = true) :
    ∃ τ', Drains s τ τ' ∧ τ'.awake s = false ∧ τ'.applyReady s = false ∧
      τ'.cluster.Orderly ∧ CaughtUp s τ.cluster τ'.cluster := by
  let woken : Signalled n C := { τ with
    applyReady := Function.update τ.applyReady s false
    awake := Function.update τ.awake s true }
  have moved : τ.step (.wake s) = some woken := by
    simp only [step, ready, asleep, Bool.not_false, Bool.and_self, ↓reduceIte, woken]
  have wakes : ApplierMoves s τ woken := ⟨rfl, _, moved, Or.inl rfl⟩
  obtain ⟨τ', drains, rest, same, orderly', done⟩ :=
    goes_to_sleep (s := s) (τ := woken) orderly (Function.update_self ..)
  exact ⟨τ', .head wakes drains, rest, same.trans (Function.update_self ..), orderly', done⟩

theorem catches_up (attentive : τ.Attentive) (orderly : τ.cluster.Orderly) (s : Fin n) :
    ∃ τ', Drains s τ τ' ∧ τ'.awake s = false ∧ τ'.applyReady s = false ∧
      τ'.cluster.Orderly ∧ CaughtUp s τ.cluster τ'.cluster := by
  cases awake : τ.awake s with
  | false =>
    cases ready : τ.applyReady s with
    | false =>
      obtain ⟨idle, quiet⟩ := attentive s awake
      exact ⟨τ, .refl, awake, ready, orderly, .of_idle orderly idle (quiet ready)⟩
    | true => exact takes_signal orderly awake ready
  | true =>
    obtain ⟨middle, drains, asleep, ready, orderly', done⟩ := goes_to_sleep orderly awake
    cases waiting : τ.applyReady s with
    | false => exact ⟨middle, drains, asleep, ready.trans waiting, orderly', done⟩
    | true =>
      -- A signal came in while the applier was busy: it goes round once more.
      obtain ⟨τ', later, rest, quiet, orderly'', again⟩ :=
        takes_signal orderly' asleep (ready.trans waiting)
      exact ⟨τ', drains.trans later, rest, quiet, orderly'', done.trans again⟩

/-- Replies are handled in the term of their requests. -/
def freshReply (τ : Signalled n C) : Move n C → Bool
  | .act action => τ.cluster.freshReply action
  | .wake _ => true
  | .sleep _ => true

abbrev FreshReplyRun (trace : List (Signalled n C)) : Prop :=
  Runs.Run step (fun τ move => τ.freshReply move = true) (init n C) trace

theorem orderly_step {move : Move n C} (orderly : τ.cluster.Orderly)
    (fresh : τ.freshReply move = true) (moved : τ.step move = some τ') : τ'.cluster.Orderly := by
  cases move with
  | act action => exact orderly.step fresh (act_inversion moved).2.1
  | wake t =>
    obtain ⟨_, _, rfl⟩ := wake_inversion moved
    exact orderly
  | sleep t =>
    obtain ⟨_, _, _, rfl⟩ := sleep_inversion moved
    exact orderly

end Signalled

/-- No signal is lost. In every run, an applier that sleeps with no signal waiting for it
has nothing to apply. -/
theorem applier_never_misses {trace : List (Signalled n C)} (run : Signalled.Run trace) :
    ∀ τ ∈ trace, ∀ s, τ.awake s = false → τ.applyReady s = false →
      (τ.cluster.nodes s).applier = .idle ∧ (τ.cluster.nodes s).snapshotPending = false ∧
      (τ.cluster.nodes s).commitIndex ≤ (τ.cluster.nodes s).lastApplied := by
  have attentive : ∀ τ ∈ trace, τ.Attentive :=
    run.invariant Signalled.attentive_init fun _ _ _ _ moved attentive => attentive.step moved
  intro τ member s asleep unsignalled
  obtain ⟨idle, quiet⟩ := attentive τ member s asleep
  have done := quiet unsignalled
  rw [Signalled.behind, Bool.or_eq_false_iff, decide_eq_false_iff_not] at done
  exact ⟨idle, done.1, Nat.le_of_not_lt done.2⟩

/-- The leader's applier is back asleep after the command it was woken for. -/
theorem applier_never_misses_command :
    ∃ trace : List (Signalled 3 Nat), Signalled.Run trace ∧ ∃ τ ∈ trace,
      τ.awake 0 = false ∧ τ.applyReady 0 = false ∧ (τ.cluster.nodes 0).commitIndex = 1 ∧
      1 ≤ (τ.cluster.nodes 0).lastApplied := by
  obtain ⟨τ, past, run, checked⟩ := Runs.Run.ends Signalled.step (fun _ _ => true)
    (Signalled.init 3 Nat)
    (replicatedOnce.map .act ++ [.act (.receiveAppendEntries 0), .wake 0, .act (.applierRead 0),
      .act (.applierSend 0), .act (.applierAck 0), .sleep 0])
    (fun τ => !τ.awake 0 && !τ.applyReady 0 && decide ((τ.cluster.nodes 0).commitIndex = 1))
    (by decide +kernel)
  simp only [Bool.and_eq_true, Bool.not_eq_true', decide_eq_true_eq] at checked
  have run := run.mono fun _ _ _ => trivial
  have done := applier_never_misses run τ (List.mem_cons_self ..) 0 checked.1.1 checked.1.2
  exact ⟨_, run, τ, List.mem_cons_self .., checked.1.1, checked.1.2, checked.2,
    checked.2 ▸ done.2.2⟩

/-- From any state of any run whose replies are handled in the term of their requests, the
applier of any server gets on its own to everything that is committed there: without
another signal, it hands over every entry that it has not handed over yet and that is not
compacted, a message it had read before included, and goes to sleep with nothing left. -/
theorem applier_catches_up {trace : List (Signalled n C)} (run : Signalled.FreshReplyRun trace)
    {τ : Signalled n C} (member : τ ∈ trace) (s : Fin n) :
    ∃ τ', Signalled.Drains s τ τ' ∧ τ'.awake s = false ∧ τ'.applyReady s = false ∧
      (τ'.cluster.nodes s).lastApplied = (τ.cluster.nodes s).commitIndex ∧
      (τ'.cluster.nodes s).commitIndex = (τ.cluster.nodes s).commitIndex ∧
      τ'.cluster.delivered s = (τ.cluster.nodes s).commitIndex ∧
      ∀ j entry, (τ.cluster.nodes s).lastIncludedIndex < j → τ.cluster.delivered s < j →
        j ≤ (τ.cluster.nodes s).commitIndex → (τ.cluster.logical s)[j]? = some entry →
        (s, .command entry.command j) ∈ τ'.cluster.applied := by
  have holds : ∀ τ ∈ trace, τ.Attentive ∧ τ.cluster.Orderly := by
    refine run.invariant ⟨Signalled.attentive_init, .init⟩ ?_
    rintro _ _ _ fresh moved ⟨attentive, orderly⟩
    exact ⟨attentive.step moved, Signalled.orderly_step orderly fresh moved⟩
  obtain ⟨attentive, orderly⟩ := holds τ member
  obtain ⟨τ', drains, asleep, quiet, orderly', done⟩ := Signalled.catches_up attentive orderly s
  exact ⟨τ', drains, asleep, quiet, done.rests.lastApplied, done.applies.node.1,
    (orderly'.handed_idle done.rests.idle).trans done.rests.lastApplied, done.delivered⟩

/-- The leader's applier has read the first command but not sent it, with a second one
committed behind it: it delivers both. -/
theorem applier_catches_up_command :
    ∃ trace : List (Signalled 3 Nat), Signalled.FreshReplyRun trace ∧ ∃ τ ∈ trace,
      (τ.cluster.nodes 0).progress = 1 ∧ τ.cluster.applied = [] ∧
      ∃ τ', Signalled.Drains 0 τ τ' ∧ (0, .command (some 7) 1) ∈ τ'.cluster.applied ∧
        (0, .command (some 8) 2) ∈ τ'.cluster.applied := by
  obtain ⟨τ, past, run, checked⟩ := Runs.Run.ends Signalled.step Signalled.freshReply
    (Signalled.init 3 Nat)
    (replicatedOnce.map .act ++ [.act (.receiveAppendEntries 0), .wake 0, .act (.applierRead 0),
      .act (.start 0 (some 8)), .act (.replicateToFollower 0 2), .act (.handleAppendEntries 1),
      .act (.receiveAppendEntries 1)])
    (fun τ => τ.cluster.applied.isEmpty &&
      decide ((τ.cluster.nodes 0).progress = 1 ∧ (τ.cluster.nodes 0).lastIncludedIndex = 0 ∧
        τ.cluster.delivered 0 = 0 ∧ (τ.cluster.nodes 0).commitIndex = 2 ∧
        (τ.cluster.logical 0)[1]?.map LogEntry.command = some (some 7) ∧
        (τ.cluster.logical 0)[2]?.map LogEntry.command = some (some 8)))
    (by decide +kernel)
  simp only [Bool.and_eq_true, List.isEmpty_iff, decide_eq_true_eq] at checked
  obtain ⟨none, progress, compacted, fresh, committed, first, second⟩ := checked
  obtain ⟨entry, found, same⟩ := Option.map_eq_some_iff.mp first
  obtain ⟨entry', found', same'⟩ := Option.map_eq_some_iff.mp second
  have member : τ ∈ τ :: past := List.mem_cons_self ..
  obtain ⟨τ', drains, _, _, _, _, _, delivered⟩ := applier_catches_up run member 0
  refine ⟨_, run, τ, member, progress, none, τ', drains, ?_, ?_⟩
  · rw [← same]
    exact delivered 1 entry (by omega) (by omega) (by omega) found
  · rw [← same']
    exact delivered 2 entry' (by omega) (by omega) (by omega) found'

end KvStore
