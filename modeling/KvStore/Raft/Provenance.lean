import KvStore.Raft.Steps
import KvStore.Raft.Outcomes

set_option autoImplicit false

/-! Raft invents no commands: whatever a log, a message or a delivery holds has
been passed to `Start`. -/

namespace KvStore

variable {n : Nat} {C : Type}

/-- Every command in the log satisfies `P`. -/
def LogFrom (P : C → Prop) (log : List (LogEntry C)) : Prop :=
  ∀ entry ∈ log, ∀ command, entry.command = some command → P command

theorem LogFrom.subset {P : C → Prop} {log part : List (LogEntry C)} (from_ : LogFrom P log)
    (inside : part ⊆ log) : LogFrom P part :=
  fun entry member => from_ entry (inside member)

theorem LogFrom.append {P : C → Prop} {log more : List (LogEntry C)} (first : LogFrom P log)
    (second : LogFrom P more) : LogFrom P (log ++ more) := by
  intro entry member
  rcases List.mem_append.mp member with old | new
  · exact first entry old
  · exact second entry new

def MsgFrom (P : C → Prop) : ApplyMsg C → Prop
  | .command command _ => ∀ c, command = some c → P c
  | .snapshot _ _ _ => True

/-- Every command the peer holds, in memory or on disk, satisfies `P`. -/
structure NodeFrom (P : C → Prop) (rf : Raft n C) : Prop where
  log : LogFrom P rf.log
  saved : ∀ state, rf.persister.raftstate = some state → LogFrom P state.log
  flight : ∀ msg, rf.applier = .sending msg ∨ rf.applier = .sent msg → MsgFrom P msg

namespace NodeFrom

variable {P : C → Prop} {rf rf' : Raft n C}

theorem persist (node : NodeFrom P rf) {log : List (LogEntry C)} (from_ : LogFrom P log)
    (same : rf'.log = log) (applier : rf'.applier = rf.applier) : NodeFrom P rf'.persist := by
  subst same
  refine ⟨from_, ?_, ?_⟩
  · rintro _ ⟨rfl⟩
    exact from_
  · change ∀ msg, rf'.applier = .sending msg ∨ rf'.applier = .sent msg → _
    rw [applier]
    exact node.flight

theorem keep (node : NodeFrom P rf) (log : rf'.log = rf.log)
    (persister : rf'.persister = rf.persister) (applier : rf'.applier = rf.applier) :
    NodeFrom P rf' := by
  refine ⟨log ▸ node.log, ?_, ?_⟩
  · rw [persister]
    exact node.saved
  · rw [applier]
    exact node.flight

theorem make (persister : Persister n C)
    (saved : ∀ state, persister.raftstate = some state → LogFrom P state.log) :
    NodeFrom P (Raft.make persister) := by
  unfold Raft.make Raft.readPersist
  split
  · refine ⟨?_, saved, ?_⟩
    · intro entry member command found
      rw [List.mem_singleton.mp member] at found
      cases found
    · rintro msg (flight | flight) <;> cases flight
  · rename_i state stored
    refine ⟨saved state stored, saved, ?_⟩
    rintro msg (flight | flight) <;> cases flight

section

variable (node : NodeFrom P rf)

include node

theorem becomeFollower (t : Nat) : NodeFrom P (rf.becomeFollowerWithTerm t) :=
  node.persist node.log rfl rfl

theorem raised (t : Nat) : NodeFrom P (rf.raised t) := by
  unfold Raft.raised
  split
  · exact node.becomeFollower t
  · exact node

theorem heardLeader (t : Nat) : NodeFrom P (rf.heardLeader t) := by
  unfold Raft.heardLeader
  split
  · exact node.becomeFollower t
  split
  · exact node.keep rfl rfl rfl
  · exact node

/-- The merge loop only cuts the log and hands on some of the entries. -/
theorem mergeEntries {entries remaining : List (LogEntry C)} {j : Nat} {merged : Raft n C}
    (from_ : LogFrom P entries) (done : rf.mergeEntries j entries = .ok (merged, remaining)) :
    NodeFrom P (merged.appendRemaining remaining) := by
  induction entries generalizing j with
  | nil =>
    obtain ⟨rfl, rfl⟩ : rf = merged ∧ [] = remaining := by simpa [Raft.mergeEntries] using done
    exact node
  | cons entry rest ih =>
    unfold Raft.mergeEntries at done
    split at done
    · obtain ⟨rfl, rfl⟩ : rf = merged ∧ entry :: rest = remaining := by simpa using done
      exact node.persist (node.log.append from_) rfl rfl
    · rcases Raft.orPanic_cases rf (rf.entryAt? j) with ⟨own, _, read⟩ | ⟨_, died⟩
      · simp only [Raft.entry, read, bind, Except.bind, pure, Except.pure] at done
        split at done
        · obtain ⟨rfl, rfl⟩ := Prod.mk.inj (Except.ok.inj done)
          exact node.persist ((node.log.subset (List.take_subset _ _)).append from_) rfl rfl
        · exact ih (from_.subset (List.subset_cons_self _ _)) done
      · simp only [Raft.entry, died, bind, Except.bind] at done
        cases done

theorem appendEntries {args : AppendEntriesArgs n C} (from_ : LogFrom P args.entries) :
    match rf.appendEntries args with
    | .ok (after, _) => NodeFrom P after
    | .error dead => NodeFrom P dead := by
  have outcome := rf.appendEntries_outcome args
  generalize rf.appendEntries args = result at outcome
  cases outcome with
  | stale => exact node
  | refused => exact node.heardLeader args.term
  | dead => exact node.heardLeader args.term
  | merged _ prev merged remaining _ _ _ merge _ =>
    have base := (node.heardLeader args.term).mergeEntries from_ merge
    unfold Raft.followCommit
    dsimp only
    split
    · exact base.keep rfl rfl rfl
    · exact base

theorem installSnapshot (args : InstallSnapshotArgs n) :
    NodeFrom P (rf.installSnapshot args).1 := by
  have outcome := rf.installSnapshot_outcome args
  generalize rf.installSnapshot args = result at outcome
  cases outcome with
  | stale => exact node
  | kept => exact node.raised args.term
  | installed =>
    have base := node.raised args.term
    generalize rf.raised args.term = up at base
    have log : LogFrom P (up.replaceLog args).log ∧
        (up.replaceLog args).applier = up.applier := by
      unfold Raft.replaceLog
      split
      · exact ⟨base.log.subset (List.drop_subset _ _), rfl⟩
      · refine ⟨?_, rfl⟩
        intro entry member command found
        rw [List.mem_singleton.mp member] at found
        cases found
    have same : (up.installed args).log = (up.replaceLog args).log ∧
        (up.installed args).applier = (up.replaceLog args).applier := by
      unfold Raft.installed
      dsimp only
      split <;> exact ⟨rfl, rfl⟩
    exact base.persist log.1 same.1 (same.2.trans log.2)

end

end NodeFrom

/-- Every command anywhere in the cluster satisfies `P`. -/
structure Cluster.From (P : C → Prop) (σ : Cluster n C) : Prop where
  nodes : ∀ s, NodeFrom P (σ.nodes s)
  appends : ∀ call ∈ σ.appendCalls, LogFrom P call.args.entries
  applied : ∀ record ∈ σ.applied, MsgFrom P record.2

namespace Cluster.From

variable {P Q : C → Prop} {σ σ' : Cluster n C}

theorem mono (from_ : σ.From P) (weaken : ∀ c, P c → Q c) : σ.From Q := by
  have msg : ∀ {msg}, MsgFrom P msg → MsgFrom Q msg := by
    intro msg held
    cases msg with
    | command command index => exact fun c same => weaken c (held c same)
    | snapshot _ _ _ => trivial
  refine ⟨fun s => ⟨?_, ?_, ?_⟩, ?_, fun record member => msg (from_.applied record member)⟩
  · exact fun entry member c found => weaken c ((from_.nodes s).log entry member c found)
  · exact fun state stored entry member c found =>
      weaken c ((from_.nodes s).saved state stored entry member c found)
  · exact fun m flight => msg ((from_.nodes s).flight m flight)
  · exact fun call member entry inside c found =>
      weaken c (from_.appends call member entry inside c found)

theorem init (P : C → Prop) : (Cluster.init n C).From P := by
  refine ⟨fun _ => ?_, nofun, nofun⟩
  refine NodeFrom.make { raftstate := none, snapshot := [] } ?_
  intro state stored
  cases stored

section

variable (from_ : σ.From P)

include from_

variable {s : Fin n} {k : Nat}

theorem setNode {rf : Raft n C} (node : NodeFrom P rf) : (σ.setNode s rf).From P := by
  refine ⟨fun j => ?_, from_.appends, from_.applied⟩
  by_cases same : j = s
  · subst same
    simpa only [Cluster.setNode, Function.update_self] using node
  · simpa only [Cluster.setNode, Function.update_of_ne same] using from_.nodes j

theorem restart {rf : Raft n C} (node : NodeFrom P rf) : (σ.restart s rf.persister).From P := by
  have set := from_.setNode (s := s) (NodeFrom.make _ node.saved)
  exact ⟨set.nodes, set.appends, set.applied⟩

theorem settle {result : Except (Raft n C) (Raft n C)} (node : NodeFrom P (Raft.settled result)) :
    (σ.settle s result).From P := by
  cases result with
  | ok rf => exact from_.setNode node
  | error rf => exact from_.restart node

theorem setAppend {call : Call n (AppendEntriesArgs n C) AppendEntriesReply}
    (found : σ.appendCalls[k]? = some call) (status : CallStatus AppendEntriesReply) :
    From P { σ with appendCalls := σ.appendCalls.set k { call with status } } := by
  refine ⟨from_.nodes, ?_, from_.applied⟩
  intro other member
  rcases List.mem_or_eq_of_mem_set member with old | rfl
  · exact from_.appends other old
  · exact from_.appends call (List.mem_of_getElem? found)

theorem congr (nodes : σ'.nodes = σ.nodes) (appends : σ'.appendCalls = σ.appendCalls)
    (applied : σ'.applied = σ.applied) : σ'.From P := by
  refine ⟨?_, ?_, ?_⟩
  · rw [nodes]
    exact from_.nodes
  · rw [appends]
    exact from_.appends
  · rw [applied]
    exact from_.applied

theorem reply {result : Except (Raft n C) (Raft n C)}
    (outcome : Raft.ReplyOutcome (σ.nodes s) result)
    (applier : (Raft.settled result).applier = (σ.nodes s).applier) :
    (σ.settle s result).From P := by
  cases outcome with
  | stepDown term _ => exact from_.setNode ((from_.nodes s).becomeFollower term)
  | quiet result quiet =>
    exact from_.settle ((from_.nodes s).keep quiet.log quiet.persister applier)

/-- The replicas of a request hold only commands of its sender's log. -/
theorem replicateToFollower {server follower : Fin n}
    (moved : σ.replicateToFollower server follower = some σ') : σ'.From P := by
  obtain ⟨_, _, outcome⟩ := Cluster.replicateToFollower_cases moved
  rcases outcome with ⟨rf, died, rfl⟩ | ⟨request, _, rfl⟩ | ⟨args, _, built, rfl⟩
  · rw [Raft.newArgs_error died]
    exact from_.restart (from_.nodes server)
  · exact from_.congr rfl rfl rfl
  · obtain ⟨prev, entries, _, suffix, rfl⟩ := Raft.newAppendEntriesArgsFor_ok built
    refine ⟨from_.nodes, ?_, from_.applied⟩
    intro call member
    rcases List.mem_append.mp member with old | fresh
    · exact from_.appends call old
    · rw [List.mem_singleton.mp fresh]
      obtain ⟨k, _, cut⟩ := Option.bind_eq_some_iff.mp suffix
      split at cut
      · rw [← Option.some.inj cut]
        exact (from_.nodes server).log.subset (List.drop_subset _ _)
      · cases cut

theorem startElection (s : Fin n) : (σ.startElection s).From P := by
  have node : NodeFrom P ((σ.nodes s).standing s) :=
    (from_.nodes s).persist (from_.nodes s).log rfl rfl
  rcases Raft.startElection_cases s (σ.nodes s) with died | ⟨t, _, stands⟩
  · simp only [Cluster.startElection, died]
    exact from_.restart node
  · simp only [Cluster.startElection, stands]
    exact (from_.setNode node).congr rfl rfl rfl

theorem handleRequestVote (moved : σ.handleRequestVote k = some σ') : σ'.From P := by
  obtain ⟨call, _, _, outcome⟩ := Cluster.handleRequestVote_cases moved
  have node := (from_.nodes call.dst).raised call.args.term
  have vote := Raft.castVote_outcome ((σ.nodes call.dst).raised call.args.term) call.args
  rcases outcome with ⟨rf, reply, done, rfl⟩ | ⟨rf, died, rfl⟩
  · change ((σ.nodes call.dst).raised call.args.term).castVote call.args = _ at done
    rw [done] at vote
    cases vote with
    | refused => exact (from_.setNode node).congr rfl rfl rfl
    | granted =>
      have voted : NodeFrom P (Raft.persist { (σ.nodes call.dst).raised call.args.term with
          votedFor := some call.args.candidateId, state := .follower }) :=
        node.persist node.log rfl rfl
      exact (from_.setNode voted).congr rfl rfl rfl
  · change ((σ.nodes call.dst).raised call.args.term).castVote call.args = _ at died
    rw [died] at vote
    cases vote with
    | dead => exact (from_.restart node).congr rfl rfl rfl

theorem receiveRequestVote (moved : σ.receiveRequestVote k = some σ') : σ'.From P := by
  obtain ⟨call, reply, _, _, _, rfl⟩ := Cluster.receiveRequestVote_cases moved
  have outcome := Raft.onRequestVoteReply_outcome (σ.nodes call.src) call.args reply
  generalize (σ.nodes call.src).onRequestVoteReply call.args reply = after at outcome
  have node : NodeFrom P after := by
    cases outcome with
    | stepDown => exact (from_.nodes call.src).becomeFollower _
    | ignored => exact from_.nodes call.src
    | counted => exact (from_.nodes call.src).keep rfl rfl rfl
    | elected => exact (from_.nodes call.src).keep rfl rfl rfl
  exact (from_.setNode node).congr rfl rfl rfl

theorem handleAppendEntries (moved : σ.handleAppendEntries k = some σ') : σ'.From P := by
  obtain ⟨call, found, _, outcome⟩ := Cluster.handleAppendEntries_cases moved
  have node := (from_.nodes call.dst).appendEntries
    (from_.appends call (List.mem_of_getElem? found))
  rcases outcome with ⟨rf, reply, done, rfl⟩ | ⟨rf, died, rfl⟩
  · rw [done] at node
    have set := (from_.setNode (s := call.dst) node).setAppend found (.replied reply)
    exact ⟨set.nodes, set.appends, set.applied⟩
  · rw [died] at node
    exact (from_.restart (s := call.dst) node).setAppend found .lost

theorem receiveAppendEntries (moved : σ.receiveAppendEntries k = some σ') : σ'.From P := by
  obtain ⟨call, reply, found, _, _, rfl⟩ := Cluster.receiveAppendEntries_cases moved
  have set := from_.reply (Raft.onAppendEntriesReply_outcome call.src (σ.nodes call.src) call.dst
    call.args reply) (Raft.onAppendEntriesReply_unmoved call.src _ call.dst call.args reply).applier
  have found' : (σ.settle call.src ((σ.nodes call.src).onAppendEntriesReply call.src call.dst
      call.args reply)).appendCalls[k]? = some call := by
    rw [Cluster.settle_appendCalls]
    exact found
  have marked := set.setAppend found' (.received reply)
  rw [Cluster.settle_appendCalls] at marked
  exact marked

theorem start {command : Option C} (started : ∀ c, command = some c → P c) :
    (σ.start s command).From P := by
  rcases Cluster.start_cases σ s command with same | ⟨_, done⟩
  · rw [same]
    exact from_
  · rw [done]
    have fresh : LogFrom P ((σ.nodes s).log ++
        [{ term := (σ.nodes s).currentTerm, command }]) := by
      refine (from_.nodes s).log.append ?_
      intro entry member c found
      rw [List.mem_singleton.mp member] at found
      exact started c found
    have node : NodeFrom P (Raft.persist { σ.nodes s with
        log := (σ.nodes s).log ++ [{ term := (σ.nodes s).currentTerm, command }] }) :=
      (from_.nodes s).persist fresh rfl rfl
    have set := from_.setNode (s := s) node
    exact ⟨set.nodes, set.appends, set.applied⟩

theorem applierRead (moved : σ.applierRead s = some σ') : σ'.From P := by
  rcases Cluster.applierRead_inversion moved with
    rfl | ⟨_, _, dummy, _, rfl⟩ | ⟨_, _, _, entry, found, rfl⟩
  · exact from_.restart (from_.nodes s)
  · refine from_.setNode ⟨(from_.nodes s).log, (from_.nodes s).saved, ?_⟩
    rintro msg (flight | flight) <;> cases flight
    trivial
  · refine from_.setNode ⟨(from_.nodes s).log, (from_.nodes s).saved, ?_⟩
    rintro msg (flight | flight) <;> cases flight
    obtain ⟨k, _, present⟩ := Option.bind_eq_some_iff.mp found
    exact fun c same => (from_.nodes s).log entry (List.mem_of_getElem? present) c same

theorem applierSend (moved : σ.applierSend s = some σ') : σ'.From P := by
  obtain ⟨msg, sending, rfl⟩ := Cluster.applierSend_inversion moved
  have flight := (from_.nodes s).flight msg (Or.inl sending)
  have node : NodeFrom P { σ.nodes s with applier := .sent msg } := by
    refine ⟨(from_.nodes s).log, (from_.nodes s).saved, ?_⟩
    rintro other (held | held) <;> cases held
    exact flight
  have set := from_.setNode (s := s) node
  refine ⟨set.nodes, set.appends, ?_⟩
  intro record member
  rcases List.mem_cons.mp member with rfl | old
  · exact flight
  · exact from_.applied record old

/-- One action keeps it, provided the command it starts satisfies `P`. -/
theorem step {action : Action n C} (moved : σ.step action = some σ')
    (started : ∀ s c, action = .start s (some c) → P c) : σ'.From P := by
  cases action with
  | startElection s => exact Option.some.inj moved ▸ from_.startElection s
  | handleRequestVote k => exact from_.handleRequestVote moved
  | receiveRequestVote k => exact from_.receiveRequestVote moved
  | replicateToFollower s follower => exact from_.replicateToFollower moved
  | handleAppendEntries k => exact from_.handleAppendEntries moved
  | receiveAppendEntries k => exact from_.receiveAppendEntries moved
  | handleInstallSnapshot k =>
    obtain ⟨call, _, _, after, reply, done, rfl⟩ := Cluster.handleInstallSnapshot_cases moved
    have node := (from_.nodes call.dst).installSnapshot call.args.request
    rw [done] at node
    have set := from_.setNode (s := call.dst) node
    exact ⟨set.nodes, set.appends, set.applied⟩
  | receiveInstallSnapshot k =>
    obtain ⟨call, reply, _, _, _, rfl⟩ := Cluster.receiveInstallSnapshot_cases moved
    have set := from_.reply
      (Raft.onInstallSnapshotReply_outcome call.src (σ.nodes call.src) call.dst call.args.request
        reply)
      (Raft.onInstallSnapshotReply_unmoved call.src _ call.dst call.args.request reply).applier
    exact set.congr rfl (by simp) (by simp)
  | start s command =>
    rw [← Option.some.inj moved]
    exact from_.start fun c same => started s c (by rw [same])
  | snapshot s index data =>
    obtain ⟨_, rfl⟩ := Cluster.snapshot_inversion moved
    rcases Raft.snapshot_cases (σ.nodes s) index data with same | died | ⟨_, _, cut⟩
    · rw [same]
      exact from_.setNode (from_.nodes s)
    · rw [died]
      exact from_.restart (from_.nodes s)
    · rw [cut]
      exact from_.setNode ((from_.nodes s).persist
        ((from_.nodes s).log.subset (List.drop_subset _ _)) rfl rfl)
  | applierRead s => exact from_.applierRead moved
  | applierSend s => exact from_.applierSend moved
  | applierAck s =>
    obtain ⟨msg, applied, _, _, rfl⟩ := Cluster.applierAck_inversion moved
    refine from_.setNode ⟨(from_.nodes s).log, (from_.nodes s).saved, ?_⟩
    rintro other (held | held) <;> cases held
  | crash s => exact Option.some.inj moved ▸ from_.restart (from_.nodes s)

end

end Cluster.From

end KvStore
