import KvStore.Raft.Applying
import KvStore.Raft.Safety

set_option autoImplicit false

/-! The order of the messages that one process of a server receives on `applyCh`,
for any interleaving of its applier with everything else. -/

namespace KvStore

variable {n : Nat} {C : Type}

theorem Raft.raised_unmoved (rf : Raft n C) (t : Nat) : rf.Unmoved (rf.raised t) := by
  unfold Raft.raised
  split
  · exact ⟨rfl, rfl, rfl, rfl, rfl, Or.inr rfl⟩
  · exact .refl rf

theorem Raft.heardLeader_unmoved (rf : Raft n C) (t : Nat) : rf.Unmoved (rf.heardLeader t) := by
  unfold Raft.heardLeader
  split
  · exact ⟨rfl, rfl, rfl, rfl, rfl, Or.inr rfl⟩
  split
  · exact ⟨rfl, rfl, rfl, rfl, rfl, Or.inl rfl⟩
  · exact .refl rf

theorem Raft.appendEntries_unmoved {rf after : Raft n C} {args : AppendEntriesArgs n C}
    {reply : AppendEntriesReply} (done : rf.appendEntries args = .ok (after, reply)) :
    rf.Unmoved after := by
  have same := rf.heardLeader_unmoved args.term
  have handled := rf.appendEntries_outcome args
  rw [done] at handled
  cases handled with
  | stale => exact .refl _
  | refused => exact same
  | merged _ _ merged remaining _ _ _ merge _ =>
    have relogged : rf.Unmoved (merged.appendRemaining remaining) := by
      rcases Raft.mergeEntries_relogs merge with known | ⟨log, fresh⟩
      · rw [known]
        exact same
      · rw [fresh]
        exact same.trans ⟨rfl, rfl, rfl, rfl, rfl, Or.inr rfl⟩
    unfold Raft.followCommit
    split
    · exact relogged.trans ⟨rfl, rfl, rfl, rfl, rfl, Or.inl rfl⟩
    · exact relogged

/-- What an action can do to the applier of server `s`, its compaction point and
its snapshot, while the process lives and delivers nothing. -/
inductive Turn (σ : Cluster n C) (action : Action n C) (s : Fin n) : Raft n C → Prop
  | unmoved {rf : Raft n C} (same : (σ.nodes s).Unmoved rf) : Turn σ action s rf
  | installed {call : Call n (Shipment n C) InstallSnapshotReply} {rf : Raft n C}
      (shipped : call ∈ σ.snapshotCalls) (same : (σ.nodes s).Unmoved rf)
      (ahead : (σ.nodes s).lastIncludedIndex < call.args.request.lastIncludedIndex) :
      Turn σ action s (Raft.persist (rf.installed call.args.request))
  | cut {index : Nat} {data : Bytes} {log : List (LogEntry C)}
      (asked : action = .snapshot s index data) (above : (σ.nodes s).lastIncludedIndex < index)
      (given : index ≤ σ.delivered s) :
      Turn σ action s (Raft.persist
        { σ.nodes s with log, lastIncludedIndex := index, snapshotData := data })
  | readSnapshot (idle : (σ.nodes s).applier = .idle)
      (pending : (σ.nodes s).snapshotPending = true) (term : Nat) :
      Turn σ action s { σ.nodes s with
        snapshotPending := false
        applier :=
          .sending (.snapshot (σ.nodes s).snapshotData term (σ.nodes s).lastIncludedIndex) }
  | readCommand {entry : LogEntry C} (idle : (σ.nodes s).applier = .idle)
      (calm : (σ.nodes s).snapshotPending = false)
      (found : (σ.nodes s).entryAt? ((σ.nodes s).lastApplied + 1) = some entry) :
      Turn σ action s { σ.nodes s with
        applier := .sending (.command entry.command ((σ.nodes s).lastApplied + 1)) }
  | acked {msg : ApplyMsg C} {applied : Nat} (sent : (σ.nodes s).applier = .sent msg)
      (records : applied = msg.index ∨ ∃ command index,
        msg = .command command index ∧ applied = (σ.nodes s).lastApplied + 1) :
      Turn σ action s { σ.nodes s with lastApplied := applied, applier := .idle }

/-- What an action can do to what server `s` delivers: nothing, one message, or a
new process, which starts from its compaction point. -/
inductive DeliveryStep (σ : Cluster n C) (action : Action n C) (σ' : Cluster n C) (s : Fin n) :
    Prop
  | turned (turn : Turn σ action s (σ'.nodes s)) (lives : σ'.incarnation s = σ.incarnation s)
      (delivered : σ'.delivered s = σ.delivered s)
      (applied : σ'.applied = σ.applied ∨
        ∃ other msg, other ≠ s ∧ action = .applierSend other ∧
          σ'.applied = (other, msg) :: σ.applied)
  | sent (msg : ApplyMsg C) (asked : action = .applierSend s)
      (sending : (σ.nodes s).applier = .sending msg)
      (after : σ'.nodes s = { σ.nodes s with applier := .sent msg })
      (lives : σ'.incarnation s = σ.incarnation s) (delivered : σ'.delivered s = msg.index)
      (applied : σ'.applied = (s, msg) :: σ.applied)
  | died (persister : Persister n C) (after : σ'.nodes s = Raft.make persister)
      (dies : σ'.incarnation s = σ.incarnation s + 1)
      (delivered : σ'.delivered s = (σ'.nodes s).lastIncludedIndex)
      (applied : σ'.applied = σ.applied)
      (index : (σ'.nodes s).lastIncludedIndex = (σ.nodes s).lastIncludedIndex)
      (data : (σ'.nodes s).snapshotData = (σ.nodes s).snapshotData)
      (stored : persister = (σ.nodes s).persister ∨ persister.snapshot = (σ.nodes s).snapshotData)

namespace DeliveryStep

variable {σ σ' : Cluster n C} {action : Action n C} {s t : Fin n}

theorem of_still (nodes : σ'.nodes = σ.nodes) (incarnation : σ'.incarnation = σ.incarnation)
    (delivered : σ'.delivered = σ.delivered) (applied : σ'.applied = σ.applied) :
    DeliveryStep σ action σ' s :=
  .turned (.unmoved (by rw [nodes]; exact .refl _)) (congrFun incarnation s)
    (congrFun delivered s) (Or.inl applied)

/-- Server `t` has run a critical section. -/
theorem of_node {rf : Raft n C} (turn : Turn σ action t rf)
    (nodes : σ'.nodes = Function.update σ.nodes t rf) (incarnation : σ'.incarnation = σ.incarnation)
    (delivered : σ'.delivered = σ.delivered) (applied : σ'.applied = σ.applied) :
    DeliveryStep σ action σ' s := by
  refine .turned ?_ (congrFun incarnation s) (congrFun delivered s) (Or.inl applied)
  by_cases here : s = t
  · subst here
    rw [nodes, Function.update_self]
    exact turn
  · rw [nodes, Function.update_of_ne here]
    exact .unmoved (.refl _)

/-- The process of server `t` has died in the state `dead`. -/
theorem of_death {dead : Raft n C} (saved : Saved dead) (same : (σ.nodes t).Unmoved dead)
    (nodes : σ'.nodes = Function.update σ.nodes t (Raft.make dead.persister))
    (incarnation : σ'.incarnation = Function.update σ.incarnation t (σ.incarnation t + 1))
    (delivered : σ'.delivered = Function.update σ.delivered t
      (Raft.make dead.persister : Raft n C).lastIncludedIndex)
    (applied : σ'.applied = σ.applied) : DeliveryStep σ action σ' s := by
  by_cases here : s = t
  · subst here
    have after : σ'.nodes s = Raft.make dead.persister := by rw [nodes, Function.update_self]
    refine .died dead.persister after ?_ ?_ applied ?_ ?_ (same.snapshotData ▸ same.stored)
    · rw [incarnation, Function.update_self]
    · rw [delivered, Function.update_self, after]
    · rw [after, saved.lastIncludedIndex, same.lastIncludedIndex]
    · rw [after, saved.snapshotData, same.snapshotData]
  · refine .turned ?_ ?_ ?_ (Or.inl applied)
    · rw [nodes, Function.update_of_ne here]
      exact .unmoved (.refl _)
    · rw [incarnation, Function.update_of_ne here]
    · rw [delivered, Function.update_of_ne here]

/-- A critical section that may die, after which `calls` have been updated. -/
theorem of_settle {result : Except (Raft n C) (Raft n C)} (saved : Saved (Raft.settled result))
    (same : (σ.nodes t).Unmoved (Raft.settled result))
    (nodes : σ'.nodes = (σ.settle t result).nodes)
    (incarnation : σ'.incarnation = (σ.settle t result).incarnation)
    (delivered : σ'.delivered = (σ.settle t result).delivered)
    (applied : σ'.applied = σ.applied) : DeliveryStep σ action σ' s := by
  cases result with
  | ok rf => exact of_node (.unmoved same) nodes incarnation delivered applied
  | error dead => exact of_death saved same nodes incarnation delivered applied

/-! One lemma for each action that runs a handler. -/

theorem startElection : DeliveryStep σ (.startElection t) (σ.startElection t) s := by
  have standing : (σ.nodes t).Unmoved ((σ.nodes t).standing t) :=
    ⟨rfl, rfl, rfl, rfl, rfl, Or.inr rfl⟩
  rcases Raft.startElection_cases t (σ.nodes t) with died | ⟨_, _, stands⟩
  · simp only [Cluster.startElection, died]
    exact of_death (.persist _) standing rfl rfl rfl rfl
  · simp only [Cluster.startElection, stands]
    exact of_node (.unmoved standing) rfl rfl rfl rfl

theorem handleRequestVote (saved : ∀ s, Saved (σ.nodes s)) {k : Nat}
    (moved : σ.handleRequestVote k = some σ') :
    DeliveryStep σ (.handleRequestVote k) σ' s := by
  obtain ⟨call, _, _, outcome⟩ := Cluster.handleRequestVote_cases moved
  have same := (σ.nodes call.dst).raised_unmoved call.args.term
  have vote : Raft.VoteOutcome ((σ.nodes call.dst).raised call.args.term) call.args
      ((σ.nodes call.dst).requestVote call.args) := Raft.castVote_outcome _ _
  rcases outcome with ⟨rf, reply, done, rfl⟩ | ⟨rf, died, rfl⟩
  · rw [done] at vote
    refine of_node (.unmoved ?_) rfl rfl rfl rfl
    cases vote with
    | refused => exact same
    | granted => exact same.trans ⟨rfl, rfl, rfl, rfl, rfl, Or.inr rfl⟩
  · rw [died] at vote
    cases vote with
    | dead => exact of_death ((saved call.dst).raised _) same rfl rfl rfl rfl

theorem receiveRequestVote {k : Nat} (moved : σ.receiveRequestVote k = some σ') :
    DeliveryStep σ (.receiveRequestVote k) σ' s := by
  obtain ⟨call, reply, _, _, _, rfl⟩ := Cluster.receiveRequestVote_cases moved
  have outcome := Raft.onRequestVoteReply_outcome (σ.nodes call.src) call.args reply
  generalize (σ.nodes call.src).onRequestVoteReply call.args reply = after at outcome
  refine of_node (.unmoved ?_) rfl rfl rfl rfl
  cases outcome with
  | stepDown => exact ⟨rfl, rfl, rfl, rfl, rfl, Or.inr rfl⟩
  | ignored => exact .refl _
  | counted => exact ⟨rfl, rfl, rfl, rfl, rfl, Or.inl rfl⟩
  | elected => exact ⟨rfl, rfl, rfl, rfl, rfl, Or.inl rfl⟩

theorem replicateToFollower (saved : ∀ s, Saved (σ.nodes s)) {follower : Fin n}
    (moved : σ.replicateToFollower t follower = some σ') :
    DeliveryStep σ (.replicateToFollower t follower) σ' s := by
  obtain ⟨_, _, outcome⟩ := Cluster.replicateToFollower_cases moved
  rcases outcome with ⟨rf, died, rfl⟩ | ⟨request, _, rfl⟩ | ⟨args, _, _, rfl⟩
  · rw [Raft.newArgs_error died]
    exact of_death (saved t) (.refl _) rfl rfl rfl rfl
  · exact of_still rfl rfl rfl rfl
  · exact of_still rfl rfl rfl rfl

theorem handleAppendEntries (saved : ∀ s, Saved (σ.nodes s)) {k : Nat}
    (moved : σ.handleAppendEntries k = some σ') :
    DeliveryStep σ (.handleAppendEntries k) σ' s := by
  obtain ⟨call, _, _, outcome⟩ := Cluster.handleAppendEntries_cases moved
  rcases outcome with ⟨rf, reply, done, rfl⟩ | ⟨rf, died, rfl⟩
  · exact of_node (.unmoved (Raft.appendEntries_unmoved done)) rfl rfl rfl rfl
  · have handled := (σ.nodes call.dst).appendEntries_outcome call.args
    rw [died] at handled
    cases handled with
    | dead =>
      exact of_death ((saved call.dst).heardLeader _)
        ((σ.nodes call.dst).heardLeader_unmoved call.args.term) rfl rfl rfl rfl

theorem handleInstallSnapshot {k : Nat} (moved : σ.handleInstallSnapshot k = some σ') :
    DeliveryStep σ (.handleInstallSnapshot k) σ' s := by
  obtain ⟨call, found, _, after, reply, done, rfl⟩ := Cluster.handleInstallSnapshot_cases moved
  have outcome := Raft.installSnapshot_outcome (σ.nodes call.dst) call.args.request
  have same := (σ.nodes call.dst).raised_unmoved call.args.request.term
  rw [done] at outcome
  refine of_node ?_ rfl rfl rfl rfl
  cases outcome with
  | stale => exact .unmoved (.refl _)
  | kept => exact .unmoved same
  | installed _ ahead => exact .installed (List.mem_of_getElem? found) same ahead

theorem applierRead (saved : ∀ s, Saved (σ.nodes s)) (moved : σ.applierRead t = some σ') :
    DeliveryStep σ (.applierRead t) σ' s := by
  rcases Cluster.applierRead_inversion moved with
    rfl | ⟨idle, pending, dummy, _, rfl⟩ | ⟨idle, calm, _, entry, found, rfl⟩
  · exact of_death (saved t) (.refl _) rfl rfl rfl rfl
  · exact of_node (.readSnapshot idle pending dummy.term) rfl rfl rfl rfl
  · exact of_node (.readCommand idle calm found) rfl rfl rfl rfl

end DeliveryStep

open DeliveryStep in
theorem Cluster.delivery_step {σ σ' : Cluster n C} {action : Action n C}
    (saved : ∀ s, Saved (σ.nodes s)) (moved : σ.step action = some σ') (s : Fin n) :
    DeliveryStep σ action σ' s := by
  cases action with
  | startElection t =>
    rw [← Option.some.inj moved]
    exact .startElection
  | handleRequestVote k => exact .handleRequestVote saved moved
  | receiveRequestVote k => exact .receiveRequestVote moved
  | replicateToFollower t follower => exact .replicateToFollower saved moved
  | handleAppendEntries k => exact .handleAppendEntries saved moved
  | handleInstallSnapshot k => exact .handleInstallSnapshot moved
  | applierRead t => exact .applierRead saved moved
  | receiveAppendEntries k =>
    obtain ⟨call, reply, _, _, _, rfl⟩ := Cluster.receiveAppendEntries_cases moved
    refine of_settle ?_ (Raft.onAppendEntriesReply_unmoved call.src _ call.dst call.args reply)
      rfl rfl rfl (Cluster.settle_applied ..)
    have outcome := Raft.onAppendEntriesReply_outcome call.src (σ.nodes call.src) call.dst
      call.args reply
    exact (saved call.src).reply outcome
  | receiveInstallSnapshot k =>
    obtain ⟨call, reply, _, _, _, rfl⟩ := Cluster.receiveInstallSnapshot_cases moved
    refine of_settle ?_
      (Raft.onInstallSnapshotReply_unmoved call.src _ call.dst call.args.request reply)
      rfl rfl rfl (Cluster.settle_applied ..)
    have outcome := Raft.onInstallSnapshotReply_outcome call.src (σ.nodes call.src) call.dst
      call.args.request reply
    exact (saved call.src).reply outcome
  | start t command =>
    rw [← Option.some.inj moved]
    rcases Cluster.start_cases σ t command with same | ⟨_, done⟩
    · rw [same]
      exact of_still rfl rfl rfl rfl
    · rw [done]
      have appended : (σ.nodes t).Unmoved (Raft.persist { σ.nodes t with
          log := (σ.nodes t).log ++ [{ term := (σ.nodes t).currentTerm, command }] }) :=
        ⟨rfl, rfl, rfl, rfl, rfl, Or.inr rfl⟩
      exact of_node (.unmoved appended) rfl rfl rfl rfl
  | snapshot t index data =>
    obtain ⟨given, rfl⟩ := Cluster.snapshot_inversion moved
    rcases Raft.snapshot_cases (σ.nodes t) index data with same | died | ⟨above, _, done⟩
    · rw [same]
      exact of_node (.unmoved (.refl _)) rfl rfl rfl rfl
    · rw [died]
      exact of_death (saved t) (.refl _) rfl rfl rfl rfl
    · rw [done]
      exact of_node (.cut rfl above given) rfl rfl rfl rfl
  | applierSend t =>
    obtain ⟨msg, sending, rfl⟩ := Cluster.applierSend_inversion moved
    by_cases here : s = t
    · subst here
      exact .sent msg rfl sending (Function.update_self ..) rfl (Function.update_self ..) rfl
    · refine .turned (.unmoved ?_) rfl (Function.update_of_ne here ..)
        (Or.inr ⟨t, msg, Ne.symm here, rfl, rfl⟩)
      simp only [Cluster.setNode, Function.update_of_ne here]
      exact .refl _
  | applierAck t =>
    obtain ⟨msg, applied, sent, records, rfl⟩ := Cluster.applierAck_inversion moved
    exact of_node (.acked sent records) rfl rfl rfl rfl
  | crash t =>
    rw [← Option.some.inj moved]
    exact of_death (saved t) (.refl _) rfl rfl rfl rfl

/-- The index last handed to the service, as the applier knows it. -/
def Raft.handed (rf : Raft n C) : Nat :=
  match rf.applier with
  | .sent msg => msg.index
  | _ => rf.lastApplied

theorem Raft.handed_congr {rf rf' : Raft n C} (applier : rf'.applier = rf.applier)
    (lastApplied : rf'.lastApplied = rf.lastApplied) : rf'.handed = rf.handed := by
  simp only [Raft.handed, applier, lastApplied]

/-- The applier is paced and `delivered` is the index it last handed over. -/
structure InOrder (rf : Raft n C) (delivered : Nat) : Prop where
  paced : Paced rf
  handed : delivered = rf.handed

namespace InOrder

variable {σ : Cluster n C} {action : Action n C} {s : Fin n} {rf : Raft n C} {delivered : Nat}

theorem make (persister : Persister n C) :
    InOrder (Raft.make persister) (Raft.make persister : Raft n C).lastIncludedIndex := by
  refine ⟨.make persister, ?_⟩
  unfold Raft.make Raft.readPersist
  split <;> rfl

theorem le_progress (order : InOrder rf delivered) : delivered ≤ rf.progress := by
  rw [order.handed]
  have applied := order.paced.applied
  unfold Raft.handed Raft.progress at *
  cases state : rf.applier with
  | idle => exact Nat.le_refl _
  | sending msg =>
    rw [state] at applied
    exact applied
  | sent msg => exact Nat.le_refl _

theorem turn (order : InOrder (σ.nodes s) (σ.delivered s)) (turn : Turn σ action s rf) :
    InOrder rf (σ.delivered s) := by
  have handed := order.handed
  cases turn with
  | unmoved same =>
    exact ⟨order.paced.keep same.applier same.lastApplied same.lastIncludedIndex
      same.snapshotPending, handed.trans (Raft.handed_congr same.applier same.lastApplied).symm⟩
  | @installed call raised _ same ahead =>
    have paced := order.paced.keep same.applier same.lastApplied same.lastIncludedIndex
      same.snapshotPending
    have installed := paced.installed (same.lastIncludedIndex ▸ ahead)
    obtain ⟨applier, lastApplied, _⟩ := raised.installed_effect call.args.request
    refine ⟨installed.keep rfl rfl rfl rfl, handed.trans ?_⟩
    exact (Raft.handed_congr (applier.trans same.applier)
      (lastApplied.trans same.lastApplied)).symm
  | cut _ above given =>
    exact ⟨order.paced.cut _ _ above (given.trans order.le_progress), handed⟩
  | readSnapshot idle pending term =>
    refine ⟨order.paced.readSnapshot idle pending term, handed.trans ?_⟩
    simp only [Raft.handed, idle]
  | readCommand idle calm found =>
    refine ⟨(order.paced.readCommand idle calm _).1, handed.trans ?_⟩
    simp only [Raft.handed, idle]
  | acked sent records =>
    obtain rfl := order.paced.recorded sent records
    refine ⟨order.paced.ack sent, handed.trans ?_⟩
    simp only [Raft.handed, sent]

/-- The message in flight is the one to come next. -/
theorem next (order : InOrder rf delivered) {command : Option C} {index : Nat}
    (sending : rf.applier = .sending (.command command index)) : index = delivered + 1 := by
  rw [order.paced.next command index (Or.inl sending), order.handed]
  simp only [Raft.handed, sending]

/-- A snapshot in flight does not take the service back. -/
theorem forward (order : InOrder rf delivered) {data : Bytes} {term index : Nat}
    (sending : rf.applier = .sending (.snapshot data term index)) : delivered ≤ index := by
  have reach := order.le_progress
  simp only [Raft.progress, sending] at reach
  exact reach

theorem step {σ' : Cluster n C} (order : InOrder (σ.nodes s) (σ.delivered s))
    (step : DeliveryStep σ action σ' s) : InOrder (σ'.nodes s) (σ'.delivered s) := by
  cases step with
  | turned turn _ delivered _ =>
    rw [delivered]
    exact order.turn turn
  | sent msg _ sending after _ delivered _ =>
    rw [after, delivered]
    exact ⟨order.paced.send sending, rfl⟩
  | died persister after _ delivered _ _ _ _ =>
    rw [delivered, after]
    exact make persister

end InOrder

/-- The index last delivered, for messages listed newest first. -/
def lastDelivered (start : Nat) : List (ApplyMsg C) → Nat
  | [] => start
  | msg :: _ => msg.index

/-- Messages, newest first, with no gap, repeat or rewind after `start`. -/
def InSequence (start : Nat) : List (ApplyMsg C) → Prop
  | [] => True
  | .command _ index :: earlier =>
    index = lastDelivered start earlier + 1 ∧ InSequence start earlier
  | .snapshot _ _ index :: earlier =>
    lastDelivered start earlier ≤ index ∧ InSequence start earlier

/-- What the service of `s` receives between two states, newest first. -/
def Cluster.newlyApplied (σ σ' : Cluster n C) (s : Fin n) : List (ApplyMsg C) :=
  ((σ'.applied.take (σ'.applied.length - σ.applied.length)).filter (·.1 = s)).map (·.2)

/-- For the process of `s` that runs at the end of the trace: the compaction point
it started from and the messages it has received, newest first. -/
def sinceStart (s : Fin n) : List (Cluster n C) → Nat × List (ApplyMsg C)
  | [] => (0, [])
  | [σ] => ((σ.nodes s).lastIncludedIndex, [])
  | σ' :: σ :: past =>
    if σ'.incarnation s = σ.incarnation s then
      let (start, received) := sinceStart s (σ :: past)
      (start, σ.newlyApplied σ' s ++ received)
    else ((σ'.nodes s).lastIncludedIndex, [])

/-- What holds of server `s` after a run. -/
structure Sequenced (s : Fin n) (σ : Cluster n C) (past : List (Cluster n C)) : Prop where
  order : InOrder (σ.nodes s) (σ.delivered s)
  last : lastDelivered (sinceStart s (σ :: past)).1 (sinceStart s (σ :: past)).2 = σ.delivered s
  sequence : InSequence (sinceStart s (σ :: past)).1 (sinceStart s (σ :: past)).2

namespace Sequenced

variable {σ σ' : Cluster n C} {action : Action n C} {s : Fin n} {past : List (Cluster n C)}

theorem init (s : Fin n) : Sequenced s (Cluster.init n C) [] := by
  have order := InOrder.make (n := n) (C := C) { raftstate := none, snapshot := [] }
  exact ⟨order, rfl, trivial⟩

theorem newlyApplied_other (applied : σ'.applied = σ.applied ∨
    ∃ other msg, other ≠ s ∧ action = .applierSend other ∧
      σ'.applied = (other, msg) :: σ.applied) :
    σ.newlyApplied σ' s = [] := by
  unfold Cluster.newlyApplied
  rcases applied with same | ⟨other, msg, apart, _, more⟩
  · simp [same]
  · simp [more, apart]

theorem newlyApplied_sent {msg : ApplyMsg C} (applied : σ'.applied = (s, msg) :: σ.applied) :
    σ.newlyApplied σ' s = [msg] := by
  unfold Cluster.newlyApplied
  simp [applied]

theorem step (sequenced : Sequenced s σ past) (step : DeliveryStep σ action σ' s) :
    Sequenced s σ' (σ :: past) := by
  have order := sequenced.order.step step
  obtain ⟨before, last, sequence⟩ := sequenced
  cases step with
  | turned _ lives delivered applied =>
    refine ⟨order, ?_, ?_⟩
    · simp only [sinceStart, lives, ↓reduceIte, newlyApplied_other applied, List.nil_append]
      rw [delivered]
      exact last
    · simp only [sinceStart, lives, ↓reduceIte, newlyApplied_other applied, List.nil_append]
      exact sequence
  | sent msg _ sending after lives delivered applied =>
    refine ⟨order, ?_, ?_⟩
    · simp only [sinceStart, lives, ↓reduceIte, newlyApplied_sent applied, List.cons_append,
        List.nil_append, lastDelivered, delivered]
    · simp only [sinceStart, lives, ↓reduceIte, newlyApplied_sent applied, List.cons_append,
        List.nil_append]
      cases msg with
      | command command index =>
        refine ⟨?_, sequence⟩
        rw [last]
        exact before.next sending
      | snapshot data term index =>
        refine ⟨?_, sequence⟩
        rw [last]
        exact before.forward sending
  | died _ _ dies delivered _ _ _ _ =>
    have dead : ¬ σ'.incarnation s = σ.incarnation s := by omega
    refine ⟨order, ?_, ?_⟩
    · simp only [sinceStart, dead, ↓reduceIte, lastDelivered, delivered]
    · simp only [sinceStart, dead, ↓reduceIte, InSequence]

end Sequenced

theorem run_sequenced {trace : List (Cluster n C)} (run : Cluster.Run trace) :
    ∀ newest past, trace = newest :: past → ∀ s, Sequenced s newest past := by
  induction run with
  | start =>
    intro newest past same s
    obtain ⟨rfl, rfl⟩ := List.cons.inj same
    exact .init s
  | @step before after past action earlier _ moved ih =>
    intro newest rest same s
    obtain ⟨rfl, rfl⟩ := List.cons.inj same
    obtain ⟨core, rel⟩ := run_related earlier before (List.mem_cons_self ..)
    exact (ih before past rfl s).step
      (Cluster.delivery_step (fun s => (rel.nodes s).saved) moved s)

/-- Apply order: starting from the compaction point it read, a process of any server
receives each command at exactly one more than the last index it was given, and no
snapshot below that index. -/
theorem apply_order {trace : List (Cluster n C)} (run : Cluster.Run trace) (s : Fin n) :
    InSequence (sinceStart s trace).1 (sinceStart s trace).2 := by
  cases run with
  | start => exact trivial
  | step earlier admitted moved =>
    exact (run_sequenced (earlier.step admitted moved) _ _ rfl s).sequence

/-- Server 1 is sent the leader's snapshot and then the next command. -/
def snapshotThenCommand : List (Action 3 Nat) :=
  replicatedOnce ++ compactedOnce ++
    [.replicateToFollower 0 1, .handleInstallSnapshot 0, .applierRead 1, .applierSend 1,
      .applierAck 1, .receiveInstallSnapshot 0, .start 0 (some 8), .replicateToFollower 0 1,
      .handleAppendEntries 1, .receiveAppendEntries 1, .replicateToFollower 0 1,
      .handleAppendEntries 2, .applierRead 1, .applierSend 1]

theorem apply_order_snapshot :
    ∃ trace : List (Cluster 3 Nat), Cluster.Run trace ∧
      sinceStart 1 trace = (0, [.command (some 8) 2, .snapshot [7] 1 1]) ∧
      InSequence (sinceStart 1 trace).1 (sinceStart 1 trace).2 := by
  have run := Cluster.run_recorded snapshotThenCommand (by decide)
  exact ⟨_, run, by decide, apply_order run 1⟩

end KvStore
