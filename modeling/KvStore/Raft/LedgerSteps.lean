import KvStore.Raft.Committing
import KvStore.Raft.Simulation

set_option autoImplicit false

/-! The ledger is kept by every action, as long as no stale acknowledgement is
credited. -/

namespace KvStore

open ReplicatedLog Quorum

variable {n : Nat} {C : Type}

/-- A reply that raises a match index is handled in the term of its request. -/
def Cluster.freshAck (σ : Cluster n C) : Action n C → Bool
  | .receiveAppendEntries k =>
    match σ.appendCalls[k]? with
    | some call =>
      match call.status with
      | .replied reply =>
        let rf := σ.nodes call.src
        decide (reply.success = true ∧ reply.term ≤ rf.currentTerm ∧
          rf.matchIndex call.dst < call.args.prevLogIndex + call.args.entries.length →
          call.args.term = rf.currentTerm)
      | _ => true
    | none => true
  | .receiveInstallSnapshot k =>
    match σ.snapshotCalls[k]? with
    | some call =>
      match call.status with
      | .replied reply =>
        let rf := σ.nodes call.src
        decide (reply.term ≤ rf.currentTerm ∧
          rf.matchIndex call.dst < call.args.request.lastIncludedIndex →
          call.args.request.term = rf.currentTerm)
      | _ => true
    | none => true
  | _ => true

theorem Cluster.freshAck_append {σ : Cluster n C} {k : Nat}
    {call : Call n (AppendEntriesArgs n C) AppendEntriesReply} {reply : AppendEntriesReply}
    (fresh : σ.freshAck (.receiveAppendEntries k) = true) (found : σ.appendCalls[k]? = some call)
    (replied : call.status = .replied reply) (success : reply.success = true)
    (known : reply.term ≤ (σ.nodes call.src).currentTerm)
    (raises : (σ.nodes call.src).matchIndex call.dst <
      call.args.prevLogIndex + call.args.entries.length) :
    call.args.term = (σ.nodes call.src).currentTerm := by
  simp only [freshAck, found, replied, decide_eq_true_eq] at fresh
  exact fresh ⟨success, known, raises⟩

theorem Cluster.freshAck_snapshot {σ : Cluster n C} {k : Nat}
    {call : Call n (Shipment n C) InstallSnapshotReply} {reply : InstallSnapshotReply}
    (fresh : σ.freshAck (.receiveInstallSnapshot k) = true)
    (found : σ.snapshotCalls[k]? = some call) (replied : call.status = .replied reply)
    (known : reply.term ≤ (σ.nodes call.src).currentTerm)
    (raises : (σ.nodes call.src).matchIndex call.dst < call.args.request.lastIncludedIndex) :
    call.args.request.term = (σ.nodes call.src).currentTerm := by
  simp only [freshAck, found, replied, decide_eq_true_eq] at fresh
  exact fresh ⟨known, raises⟩

/-- A peer that stays in its term and leads keeps leading. -/
def Steady (rf rf' : Raft n C) : Prop :=
  rf.currentTerm < rf'.currentTerm ∨
    rf'.currentTerm = rf.currentTerm ∧ (rf.state = .leader → rf'.state = .leader)

theorem Steady.refl (rf : Raft n C) : Steady rf rf := Or.inr ⟨rfl, id⟩

theorem Steady.raised (rf : Raft n C) (t : Nat) : Steady rf (rf.raised t) := by
  unfold Raft.raised
  split
  · exact Or.inl ‹_›
  · exact .refl rf

theorem Steady.heardLeader (rf : Raft n C) (t : Nat) : Steady rf (rf.heardLeader t) := by
  unfold Raft.heardLeader
  split
  · exact Or.inl ‹_›
  split
  · rename_i stands
    refine Or.inr ⟨rfl, fun leads => ?_⟩
    rw [stands] at leads
    cases leads
  · exact .refl rf

theorem Steady.same {rf rf' rf'' : Raft n C} (steady : Steady rf rf')
    (term : rf''.currentTerm = rf'.currentTerm) (state : rf''.state = rf'.state) :
    Steady rf rf'' := by
  rw [Steady, term, state]
  exact steady

theorem Session.update {nodes : Fin n → Raft n C} {incarnation : Fin n → Nat} {src : Fin n}
    {sentIn term : Nat} (session : Session nodes incarnation src sentIn term) {s : Fin n}
    {rf : Raft n C} (steady : Steady (nodes s) rf) :
    Session (Function.update nodes s rf) incarnation src sentIn term := by
  obtain ⟨alive, bound, leads⟩ := session
  by_cases here : src = s
  · subst here
    simp only [Session, Function.update_self]
    refine ⟨alive, ?_, ?_⟩
    · rcases steady with higher | ⟨same, _⟩ <;> omega
    · intro now current
      rcases steady with higher | ⟨same, keeps⟩
      · omega
      · exact keeps (leads now (by omega))
  · simpa only [Session, Function.update_of_ne here] using ⟨alive, bound, leads⟩

/-- Nothing a process sent before it died concerns its successor. -/
theorem Session.restart {nodes : Fin n → Raft n C} {incarnation : Fin n → Nat} {src : Fin n}
    {sentIn term : Nat} (session : Session nodes incarnation src sentIn term) {s : Fin n}
    {rf : Raft n C} (later : (nodes s).currentTerm ≤ rf.currentTerm) :
    Session (Function.update nodes s rf)
      (Function.update incarnation s (incarnation s + 1)) src sentIn term := by
  obtain ⟨alive, bound, leads⟩ := session
  by_cases here : src = s
  · subst here
    simp only [Session, Function.update_self]
    exact ⟨by omega, bound.trans later, fun now => by omega⟩
  · simpa only [Session, Function.update_of_ne here] using ⟨alive, bound, leads⟩

namespace Ledger

variable {σ σ' : Cluster n C} {core before : RaftCore n C} {s : Fin n} {k : Nat}

section

variable (ledger : Ledger σ core)

include ledger

variable {rf : Raft n C} {s : Fin n}

theorem update {logical : List (LogEntry C)} {delivered : Nat}
    (node : NodeLedger rf logical delivered core) (steady : Steady (σ.nodes s) rf) :
    Ledger { σ with
      nodes := Function.update σ.nodes s rf
      logical := Function.update σ.logical s logical
      delivered := Function.update σ.delivered s delivered } core where
  nodes j := by
    by_cases same : j = s
    · subst same
      simpa only [Function.update_self] using node
    · simpa only [Function.update_of_ne same] using ledger.nodes j
  applied := ledger.applied
  appends call member :=
    ⟨(ledger.appends call member).1, (ledger.appends call member).2.update steady⟩
  snapshots call member :=
    ⟨(ledger.snapshots call member).1, (ledger.snapshots call member).2.update steady⟩

theorem setNode (node : NodeLedger rf (σ.logical s) (σ.delivered s) core)
    (steady : Steady (σ.nodes s) rf) : Ledger (σ.setNode s rf) core := by
  have updated := ledger.update node steady
  rw [Function.update_eq_self, Function.update_eq_self] at updated
  exact updated

theorem setLogical {logical : List (LogEntry C)} (node : NodeLedger rf logical (σ.delivered s) core)
    (steady : Steady (σ.nodes s) rf) : Ledger ((σ.setNode s rf).setLogical s logical) core := by
  have updated := ledger.update node steady
  rw [Function.update_eq_self s σ.delivered] at updated
  exact updated

theorem restart (node : NodeLedger rf (σ.logical s) (σ.delivered s) core) (saved : Saved rf)
    (later : (σ.nodes s).currentTerm ≤ rf.currentTerm) :
    Ledger (σ.restart s rf.persister) core := by
  have fresh := node.restart saved
  rw [← saved.currentTerm] at later
  refine ⟨fun j => ?_, ledger.applied, ?_, ?_⟩
  · by_cases same : j = s
    · subst same
      simpa only [Cluster.restart, Function.update_self] using fresh
    · simpa only [Cluster.restart, Function.update_of_ne same] using ledger.nodes j
  · exact fun call member =>
      ⟨(ledger.appends call member).1, (ledger.appends call member).2.restart later⟩
  · exact fun call member =>
      ⟨(ledger.snapshots call member).1, (ledger.snapshots call member).2.restart later⟩

theorem setAppend {k : Nat} {call : Call n (AppendEntriesArgs n C) AppendEntriesReply}
    (found : σ.appendCalls[k]? = some call) (status : CallStatus AppendEntriesReply)
    (acked : ∀ reply, (status = .replied reply ∨ status = .received reply) →
      reply.success = true → ∀ k ≤ call.args.prevLogIndex + call.args.entries.length,
      core.acked call.dst call.args.term k) :
    Ledger { σ with appendCalls := σ.appendCalls.set k { call with status } } core where
  nodes := ledger.nodes
  applied := ledger.applied
  appends other member := by
    rcases List.mem_or_eq_of_mem_set member with old | rfl
    · exact ledger.appends other old
    · obtain ⟨books, session⟩ := ledger.appends call (List.mem_of_getElem? found)
      exact ⟨⟨books.within, books.committed, acked⟩, session⟩
  snapshots := ledger.snapshots

theorem setSnapshot {k : Nat} {call : Call n (Shipment n C) InstallSnapshotReply}
    (found : σ.snapshotCalls[k]? = some call) (status : CallStatus InstallSnapshotReply)
    (acked : ∀ reply, (status = .replied reply ∨ status = .received reply) →
      reply.term ≤ call.args.request.term → ∀ k ≤ call.args.request.lastIncludedIndex,
      core.acked call.dst call.args.request.term k) :
    Ledger { σ with snapshotCalls := σ.snapshotCalls.set k { call with status } } core where
  nodes := ledger.nodes
  applied := ledger.applied
  appends := ledger.appends
  snapshots other member := by
    rcases List.mem_or_eq_of_mem_set member with old | rfl
    · exact ledger.snapshots other old
    · obtain ⟨books, session⟩ := ledger.snapshots call (List.mem_of_getElem? found)
      exact ⟨⟨books.committed, acked⟩, session⟩

/-- The ledger says nothing about votes and accepted commands. -/
theorem congr (nodes : σ'.nodes = σ.nodes) (logical : σ'.logical = σ.logical)
    (incarnation : σ'.incarnation = σ.incarnation) (delivered : σ'.delivered = σ.delivered)
    (applied : σ'.applied = σ.applied) (appends : σ'.appendCalls = σ.appendCalls)
    (snapshots : σ'.snapshotCalls = σ.snapshotCalls) : Ledger σ' core := by
  refine ⟨?_, ?_, ?_, ?_⟩
  · rw [nodes, logical, delivered]
    exact ledger.nodes
  · rw [applied]
    exact ledger.applied
  · rw [nodes, incarnation, appends]
    exact ledger.appends
  · rw [nodes, incarnation, snapshots]
    exact ledger.snapshots

theorem startElection (s : Fin n) : Ledger (σ.startElection s) core := by
  have before := ledger.nodes s
  have node : NodeLedger ((σ.nodes s).standing s) (σ.logical s) (σ.delivered s) core :=
    before.stepDown (before.applying.keep rfl rfl rfl rfl (Nat.le_refl _)) rfl rfl
      (Nat.le_succ _) nofun
  rcases Raft.startElection_cases s (σ.nodes s) with died | ⟨t, _, stands⟩
  · simp only [Cluster.startElection, died]
    exact ledger.restart node (.persist _) (Nat.le_succ _)
  · simp only [Cluster.startElection, stands]
    exact (ledger.setNode node (Or.inl (Nat.lt_succ_self _))).congr rfl rfl rfl rfl rfl rfl rfl

end

/-- A leader never grants a vote in its own term. -/
theorem granted_steady (rel : Rel σ core) {call : Call n (RequestVoteArgs n) RequestVoteReply}
    (ask : VoteRel call core)
    (free : ((σ.nodes call.dst).raised call.args.term).votedFor = some call.args.candidateId ∨
      ((σ.nodes call.dst).raised call.args.term).votedFor = none) :
    Steady (σ.nodes call.dst) (Raft.persist { (σ.nodes call.dst).raised call.args.term with
      votedFor := some call.args.candidateId, state := .follower }) := by
  rcases Steady.raised (σ.nodes call.dst) call.args.term with higher | ⟨same, _⟩
  · exact Or.inl higher
  · refine Or.inr ⟨same, fun leads => ?_⟩
    have unraised : (σ.nodes call.dst).raised call.args.term = σ.nodes call.dst := by
      unfold Raft.raised at same ⊢
      split at same
      · rename_i higher
        simp only [Raft.becomeFollowerWithTerm, Raft.persist] at same
        omega
      · rename_i low
        rw [if_neg low]
    have node := rel.nodes call.dst
    have leader := node.leader leads
    obtain ⟨log, stood, _⟩ := rel.safe.sound.leaderStood _ _ leader
    have cast := rel.safe.sound.stoodVote _ _ _ stood
    rw [node.vote] at cast
    rw [unraised, cast, ask.candidate] at free
    rcases free with own | none_
    · exact absurd (Option.some.inj own).symm ask.apart
    · cases none_

theorem handleRequestVote (rel : Rel σ before) (ledger : Ledger σ core)
    (moved : σ.handleRequestVote k = some σ') : Ledger σ' core := by
  obtain ⟨call, found, _, outcome⟩ := Cluster.handleRequestVote_cases moved
  have ask := rel.votes call (List.mem_of_getElem? found)
  have node := (ledger.nodes call.dst).raised call.args.term
  obtain ⟨_, _, raised⟩ := (rel.nodes call.dst).raised rel.safe call.args.term
  have cases_ := Raft.castVote_outcome ((σ.nodes call.dst).raised call.args.term) call.args
  have steady := Steady.raised (σ.nodes call.dst) call.args.term
  rcases outcome with ⟨rf, reply, done, rfl⟩ | ⟨rf, died, rfl⟩
  · change ((σ.nodes call.dst).raised call.args.term).castVote call.args = _ at done
    rw [done] at cases_
    cases cases_ with
    | refused _ no => exact (ledger.setNode node steady).congr rfl rfl rfl rfl rfl rfl rfl
    | granted lastLogTerm current free last recent =>
      have voted : NodeLedger (Raft.persist { (σ.nodes call.dst).raised call.args.term with
          votedFor := some call.args.candidateId, state := .follower }) (σ.logical call.dst)
          (σ.delivered call.dst) core :=
        node.stepDown (node.applying.keep rfl rfl rfl rfl (Nat.le_refl _)) rfl rfl
          (Nat.le_refl _) nofun
      exact (ledger.setNode voted (granted_steady rel ask free)).congr rfl rfl rfl rfl rfl rfl rfl
  · change ((σ.nodes call.dst).raised call.args.term).castVote call.args = _ at died
    rw [died] at cases_
    cases cases_ with
    | dead =>
      have later : (σ.nodes call.dst).currentTerm ≤
          ((σ.nodes call.dst).raised call.args.term).currentTerm := by
        rcases steady with higher | ⟨same, _⟩ <;> omega
      exact (ledger.restart node raised.saved later).congr rfl rfl rfl rfl rfl rfl rfl

theorem receiveRequestVote (ledger : Ledger σ core) (moved : σ.receiveRequestVote k = some σ') :
    Ledger σ' core := by
  obtain ⟨call, reply, _, _, _, rfl⟩ := Cluster.receiveRequestVote_cases moved
  have node := ledger.nodes call.src
  have outcome := Raft.onRequestVoteReply_outcome (σ.nodes call.src) call.args reply
  generalize (σ.nodes call.src).onRequestVoteReply call.args reply = after at outcome
  have set : NodeLedger after (σ.logical call.src) (σ.delivered call.src) core ∧
      Steady (σ.nodes call.src) after := by
    cases outcome with
    | stepDown higher => exact ⟨node.becomeFollower higher, Or.inl higher⟩
    | ignored => exact ⟨node, .refl _⟩
    | counted won granted stands current =>
      refine ⟨⟨node.applying.keep rfl rfl rfl rfl (Nat.le_refl _), node.inside, node.committed,
        node.flight, node.matched⟩, Or.inr ⟨rfl, id⟩⟩
    | elected granted stands current enough =>
      refine ⟨⟨node.applying.keep rfl rfl rfl rfl (Nat.le_refl _), node.inside, node.committed,
        node.flight, ?_⟩, Or.inr ⟨rfl, fun _ => rfl⟩⟩
      -- a new leader has heard from nobody yet
      intro _ j k positive low
      simp only [Raft.elected] at low
      omega
  exact (ledger.setNode set.1 set.2).congr rfl rfl rfl rfl rfl rfl rfl

theorem replicateToFollower (ledger : Ledger σ core) (after : Rel σ' core) {server follower : Fin n}
    (rel : Rel σ before) (moved : σ.replicateToFollower server follower = some σ') :
    Ledger σ' core := by
  obtain ⟨_, leads, outcome⟩ := Cluster.replicateToFollower_cases moved
  have books := ledger.nodes server
  have session : Session σ.nodes σ.incarnation server (σ.incarnation server)
      (σ.nodes server).currentTerm :=
    ⟨Nat.le_refl _, Nat.le_refl _, fun _ _ => leads⟩
  rcases outcome with ⟨rf, died, rfl⟩ | ⟨request, built, rfl⟩ | ⟨args, retained, built, rfl⟩
  · rw [Raft.newArgs_error died]
    exact ledger.restart books (rel.nodes server).saved (Nat.le_refl _)
  · obtain ⟨dummy, found, rfl⟩ := Raft.newInstallSnapshotArgs_ok built
    refine { ledger with snapshots := ?_ }
    intro call member
    rcases List.mem_append.mp member with old | fresh
    · exact ledger.snapshots call old
    · rw [List.mem_singleton.mp fresh]
      refine ⟨⟨?_, ?_⟩, session⟩
      · exact books.committed.shorten
          (List.take_prefix_take_left (Nat.succ_le_succ books.applying.compacted))
      · rintro reply (answered | answered) <;> cases answered
  · obtain ⟨prev, entries, found, suffix, rfl⟩ := Raft.newAppendEntriesArgsFor_ok built
    have node := after.nodes server
    have led : core.led (σ.nodes server).currentTerm = σ.logical server := by
      have log := after.safe.sound.leaderLog _ _ (node.leader leads) node.current
      rw [node.log] at log
      exact log.symm
    have shipped := Raft.suffix?_retained (rel.nodes server).slice retained suffix
    obtain ⟨_, last⟩ := Raft.termAt_of_entryAt? (rel.nodes server).slice found
    refine { ledger with appends := ?_ }
    intro call member
    rcases List.mem_append.mp member with old | fresh
    · exact ledger.appends call old
    · rw [List.mem_singleton.mp fresh]
      refine ⟨⟨?_, ?_, ?_⟩, session⟩
      · have inside := books.inside
        have reach := last.inside
        simp only [shipped, List.length_drop]
        omega
      · simp only [led]
        exact books.committed
      · rintro reply (answered | answered) <;> cases answered

theorem handleAppendEntries (rel : Rel σ before) (ext : Extends before core)
    (ledger : Ledger σ core) (after : Rel σ' core) (observed : Observed core)
    (moved : σ.handleAppendEntries k = some σ') : Ledger σ' core := by
  obtain ⟨call, found, _, outcome⟩ := Cluster.handleAppendEntries_cases moved
  have member := List.mem_of_getElem? found
  have ask := (rel.appends call member).extend ext
  have books := (ledger.appends call member).1
  have heard := (ledger.nodes call.dst).heardLeader call.args.term
  have slice := (rel.nodes call.dst).slice
  have steady := Steady.heardLeader (σ.nodes call.dst) call.args.term
  have cases_ := Raft.appendEntries_outcome (σ.nodes call.dst) call.args
  rcases outcome with ⟨rf, reply, done, rfl⟩ | ⟨rf, died, rfl⟩
  · have node := after.nodes call.dst
    simp only [Cluster.setLogical, Cluster.setNode, Function.update_self] at node
    rw [done] at cases_
    cases cases_ with
    | stale _ old refused =>
      rw [Cluster.relog, slice.relog]
      refine (ledger.setLogical (ledger.nodes call.dst) (.refl _)).setAppend found _ ?_
      rintro _ (answered | answered) success <;> cases answered
      rw [refused] at success
      cases success
    | refused _ recent refused =>
      have slice' : Slice ((σ.nodes call.dst).heardLeader call.args.term).log
          ((σ.nodes call.dst).heardLeader call.args.term).lastIncludedIndex
          (σ.logical call.dst) := by
        obtain ⟨_, _, raised⟩ := (rel.nodes call.dst).heardLeader rel.safe call.args.term
        exact raised.slice
      rw [Cluster.relog, slice'.relog]
      refine (ledger.setLogical heard steady).setAppend found _ ?_
      rintro _ (answered | answered) success <;> cases answered
      rw [refused] at success
      cases success
    | merged _ prev merged remaining recent exists_ same merge term =>
      obtain ⟨_, _, raised⟩ := (rel.nodes call.dst).heardLeader rel.safe call.args.term
      have current := Raft.heardLeader_term recent
      have mine : Coherent LogEntry.term core.led (σ.logical call.dst) := by
        rw [← (rel.nodes call.dst).log]
        exact (rel.safe.sound.coherent call.dst).mono ext.led
      have relog := ask.merged_relog after.safe raised.slice mine exists_ same merge
        call.args.leaderCommit
      obtain ⟨relogged, _⟩ := ask.merged after.safe raised.slice mine exists_ same merge
      have quiet := Raft.followCommit_quiet (merged.appendRemaining remaining)
        call.args.leaderCommit
      have kept : (merged.appendRemaining remaining).currentTerm =
            ((σ.nodes call.dst).heardLeader call.args.term).currentTerm ∧
          (merged.appendRemaining remaining).state =
            ((σ.nodes call.dst).heardLeader call.args.term).state := by
        rcases relogged with ⟨same, _⟩ | ⟨log, same, _⟩ <;> rw [same] <;> exact ⟨rfl, rfl⟩
      rw [relog] at node ⊢
      refine (ledger.setLogical (heard.merged after.safe ask books current relogged)
        (steady.same (quiet.currentTerm.trans kept.1) (quiet.state.trans kept.2))).setAppend
        found _ ?_
      intro _ _ _ i low
      have now : core.current call.dst = call.args.term := by
        rw [node.current, quiet.currentTerm, kept.1, current]
      refine observed.acked now (offer_led core call.args) ?_ ?_
      · rw [node.log]
        exact offered_prefix_adopt _ _
      · rw [ask.offer_length]
        omega
  · rw [died] at cases_
    cases cases_ with
    | dead recent =>
      obtain ⟨_, _, raised⟩ := (rel.nodes call.dst).heardLeader rel.safe call.args.term
      have later : (σ.nodes call.dst).currentTerm ≤
          ((σ.nodes call.dst).heardLeader call.args.term).currentTerm := by
        rw [Raft.heardLeader_term recent]
        exact recent
      refine (ledger.restart heard raised.saved later).setAppend found .lost ?_
      rintro _ (answered | answered) <;> cases answered

theorem handleInstallSnapshot (rel : Rel σ before) (ext : Extends before core)
    (ledger : Ledger σ core) (after : Rel σ' core) (observed : Observed core)
    (moved : σ.handleInstallSnapshot k = some σ') : Ledger σ' core := by
  obtain ⟨call, found, _, rf, reply, done, rfl⟩ := Cluster.handleInstallSnapshot_cases moved
  have member := List.mem_of_getElem? found
  have ask := (rel.snapshots call member).extend ext
  have books := (ledger.snapshots call member).1
  have raisedBooks := (ledger.nodes call.dst).raised call.args.request.term
  have steady := Steady.raised (σ.nodes call.dst) call.args.request.term
  obtain ⟨_, _, raised⟩ := (rel.nodes call.dst).raised rel.safe call.args.request.term
  have node := after.nodes call.dst
  simp only [Cluster.setLogical, Cluster.setNode, Function.update_self] at node
  have outcome := Raft.installSnapshot_outcome (σ.nodes call.dst) call.args.request
  rw [done] at outcome
  have led := after.safe.sound.led_of_leader ask.leader
  unfold Cluster.relogInstalled at node ⊢
  cases outcome with
  | stale old =>
    rw [if_neg (Nat.lt_irrefl _)]
    refine (ledger.setLogical (ledger.nodes call.dst) (.refl _)).setSnapshot found _ ?_
    rintro _ (answered | answered) valid <;> cases answered
    simp only at valid
    omega
  | kept recent covers =>
    rw [Raft.raised_lastIncludedIndex, if_neg (Nat.lt_irrefl _)] at node ⊢
    refine (ledger.setLogical raisedBooks steady).setSnapshot found _ ?_
    intro _ _ _ i low
    have current := Raft.raised_term recent
    -- what this peer has compacted is committed, so the leader has it too
    have compacted := raisedBooks.applying.compacted
    have inside := raisedBooks.inside
    have shared := raisedBooks.committed.prefix_led after.safe (Nat.le_of_eq current) led
    rw [Raft.raised_lastIncludedIndex] at compacted
    refine observed.acked (node.current.trans current) shared ?_ ?_
    · rw [node.log]
      exact List.take_prefix _ _
    · rw [List.length_take]
      omega
  | installed recent ahead =>
    have current := Raft.raised_term recent
    obtain ⟨term, _, state, _, log, index⟩ :=
      ((σ.nodes call.dst).raised call.args.request.term).installed_keeps call.args.request
    have mine : Coherent LogEntry.term core.led (σ.logical call.dst) := by
      rw [← (rel.nodes call.dst).log]
      exact (rel.safe.sound.coherent call.dst).mono ext.led
    have theirs := (after.safe.sound.coherentLed _).shorten ask.covered
    have ahead' : ((σ.nodes call.dst).raised call.args.request.term).lastIncludedIndex <
        call.args.request.lastIncludedIndex := by
      rwa [Raft.raised_lastIncludedIndex]
    obtain ⟨_, relog⟩ := Raft.replaceLog_adopt raised.slice mine theirs ask.length ask.last ahead'
    rw [Raft.persist_lastIncludedIndex, index, if_pos ahead, Raft.persist_log, log, relog] at node ⊢
    refine (ledger.setLogical (raisedBooks.installed after.safe ask books current ahead')
      (steady.same term state)).setSnapshot found _ ?_
    intro _ _ _ i low
    have now : core.current call.dst = call.args.request.term :=
      node.current.trans (term.trans current)
    refine observed.acked now ask.covered ?_ ?_
    · rw [node.log]
      exact offered_prefix_adopt _ _
    · rw [ask.length]
      omega

/-- A leader that has been credited with acknowledgements of its own term may commit. -/
theorem credited_advance (rel : Rel σ before) (ext : Extends before core)
    (observed : Observed before) (ledger : Ledger σ core) {s i : Fin n} {matched next : Nat}
    (leads : (σ.nodes s).state = .leader)
    (acked : ∀ k ≤ matched, core.acked i (σ.nodes s).currentTerm k) :
    NodeLedger (Raft.settled (Raft.advanceCommitIndex s { σ.nodes s with
      matchIndex := Function.update (σ.nodes s).matchIndex i matched
      nextIndex := Function.update (σ.nodes s).nextIndex i next }))
      (σ.logical s) (σ.delivered s) core := by
  have node := rel.nodes s
  have log := rel.safe.sound.leaderLog _ _ (node.leader leads) node.current
  rw [node.log] at log
  have led : σ.logical s <+: core.led (σ.nodes s).currentTerm := log ▸ ext.led _
  refine ((ledger.nodes s).credit acked).advance leads led ?_ node.slice
  intro k inside
  refine ext.acked _ _ _ (observed.acked node.current (by rw [log]) ?_ inside)
  rw [node.log]

theorem settle (rel : Rel σ before) (ledger : Ledger σ core) {result : Except (Raft n C) (Raft n C)}
    (outcome : Raft.ReplyOutcome (σ.nodes s) result)
    (node : NodeLedger (Raft.settled result) (σ.logical s) (σ.delivered s) core) :
    Ledger (σ.settle s result) core := by
  cases outcome with
  | stepDown term higher => exact ledger.setNode node (Or.inl higher)
  | quiet result quiet =>
    cases result with
    | ok rf => exact ledger.setNode node ((Steady.refl _).same quiet.currentTerm quiet.state)
    | error rf =>
      exact ledger.restart node ((rel.nodes s).quiet quiet).saved
        (Nat.le_of_eq quiet.currentTerm.symm)

theorem receiveAppendEntries (rel : Rel σ before) (ext : Extends before core)
    (observed : Observed before) (ledger : Ledger σ core)
    (fresh : σ.freshAck (.receiveAppendEntries k) = true)
    (moved : σ.receiveAppendEntries k = some σ') : Ledger σ' core := by
  obtain ⟨call, reply, found, replied, alive, rfl⟩ := Cluster.receiveAppendEntries_cases moved
  obtain ⟨books, _, _, session⟩ := ledger.appends call (List.mem_of_getElem? found)
  have outcome := Raft.onAppendEntriesReply_outcome call.src (σ.nodes call.src) call.dst
    call.args reply
  have before_ := ledger.nodes call.src
  have node : NodeLedger (Raft.settled ((σ.nodes call.src).onAppendEntriesReply call.src call.dst
      call.args reply)) (σ.logical call.src) (σ.delivered call.src) core := by
    unfold Raft.onAppendEntriesReply
    split
    · exact before_.becomeFollower ‹_›
    rename_i known
    split
    · rename_i success
      dsimp only
      split
      · exact before_
      · rename_i raises
        have term := Cluster.freshAck_append fresh found replied success (by omega) (by omega)
        refine credited_advance rel ext observed ledger (session alive term) ?_
        rw [← term]
        exact books.acked reply (Or.inl replied) success
    split
    · exact before_
    have moveNext : ∀ next, NodeLedger { σ.nodes call.src with nextIndex := next }
        (σ.logical call.src) (σ.delivered call.src) core := fun _ =>
      ⟨before_.applying.keep rfl rfl rfl rfl (Nat.le_refl _), before_.inside, before_.committed,
        before_.flight, before_.matched⟩
    split
    · cases scanned : (σ.nodes call.src).scanConflict reply call.args.prevLogIndex with
      | ok next => exact moveNext _
      | error dead =>
        rw [Raft.scanConflict_error scanned]
        exact before_
    · exact moveNext _
  have settled := settle rel ledger outcome node
  have found' : (σ.settle call.src ((σ.nodes call.src).onAppendEntriesReply call.src call.dst
      call.args reply)).appendCalls[k]? = some call := by
    rw [Cluster.settle_appendCalls]
    exact found
  have set := settled.setAppend found' (.received reply) (by
    rintro _ (answered | answered) success <;> cases answered
    exact books.acked reply (Or.inl replied) success)
  rw [Cluster.settle_appendCalls] at set
  exact set

theorem receiveInstallSnapshot (rel : Rel σ before) (ext : Extends before core)
    (observed : Observed before) (ledger : Ledger σ core)
    (fresh : σ.freshAck (.receiveInstallSnapshot k) = true)
    (moved : σ.receiveInstallSnapshot k = some σ') : Ledger σ' core := by
  obtain ⟨call, reply, found, replied, alive, rfl⟩ := Cluster.receiveInstallSnapshot_cases moved
  obtain ⟨books, _, _, session⟩ := ledger.snapshots call (List.mem_of_getElem? found)
  have outcome := Raft.onInstallSnapshotReply_outcome call.src (σ.nodes call.src) call.dst
    call.args.request reply
  have before_ := ledger.nodes call.src
  have node : NodeLedger (Raft.settled ((σ.nodes call.src).onInstallSnapshotReply call.src
      call.dst call.args.request reply)) (σ.logical call.src) (σ.delivered call.src) core := by
    unfold Raft.onInstallSnapshotReply
    split
    · exact before_.becomeFollower ‹_›
    rename_i known
    split
    · rename_i raises
      have term := Cluster.freshAck_snapshot fresh found replied (by omega) raises
      refine credited_advance rel ext observed ledger (session alive term) ?_
      rw [← term]
      exact books.acked reply (Or.inl replied) (by omega)
    · exact before_
  have settled := settle rel ledger outcome node
  have found' : (σ.settle call.src ((σ.nodes call.src).onInstallSnapshotReply call.src call.dst
      call.args.request reply)).snapshotCalls[k]? = some call := by
    rw [Cluster.settle_snapshotCalls]
    exact found
  have set := settled.setSnapshot found' (.received reply) (by
    rintro _ (answered | answered) valid <;> cases answered
    exact books.acked reply (Or.inl replied) valid)
  rw [Cluster.settle_snapshotCalls] at set
  exact set

theorem start (ledger : Ledger σ core) (s : Fin n) (command : Option C) :
    Ledger (σ.start s command) core := by
  rcases Cluster.start_cases σ s command with same | ⟨leads, started⟩
  · rw [same]
    exact ledger
  · rw [started]
    have books := ledger.nodes s
    have node : NodeLedger (Raft.persist { σ.nodes s with
        log := (σ.nodes s).log ++ [{ term := (σ.nodes s).currentTerm, command }] })
        (σ.logical s ++ [{ term := (σ.nodes s).currentTerm, command }]) (σ.delivered s) core :=
      books.setLog (books.applying.keep rfl rfl rfl rfl (Nat.le_refl _)) rfl rfl rfl rfl rfl
        ((List.take_prefix _ _).trans (List.prefix_append _ _))
    exact (ledger.setLogical node (Or.inr ⟨rfl, id⟩)).congr rfl rfl rfl rfl rfl rfl rfl

theorem snapshot (rel : Rel σ before) (ledger : Ledger σ core) {index : Nat} {data : Bytes}
    (moved : σ.snapshot s index data = some σ') : Ledger σ' core := by
  obtain ⟨given, rfl⟩ := Cluster.snapshot_inversion moved
  have books := ledger.nodes s
  rcases Raft.snapshot_cases (σ.nodes s) index data with same | died | ⟨above, _, cut⟩
  · rw [same]
    exact ledger.setNode books (.refl _)
  · rw [died]
    exact ledger.restart books (rel.nodes s).saved (Nat.le_refl _)
  · rw [cut]
    refine ledger.setNode ?_ (Or.inr ⟨rfl, id⟩)
    exact books.setLog (books.applying.cut data _ above given) rfl rfl rfl rfl rfl
      (List.take_prefix _ _)

theorem applierRead (rel : Rel σ before) (ledger : Ledger σ core)
    (moved : σ.applierRead s = some σ') : Ledger σ' core := by
  have books := ledger.nodes s
  rcases Cluster.applierRead_inversion moved with
    rfl | ⟨idle, pending, dummy, _, rfl⟩ | ⟨idle, calm, below, entry, found, rfl⟩
  · exact ledger.restart books (rel.nodes s).saved (Nat.le_refl _)
  · refine ledger.setNode ⟨books.applying.readSnapshot idle pending _, books.inside,
      books.committed, ?_, books.matched⟩ (Or.inr ⟨rfl, id⟩)
    rintro msg (flight | flight) <;> cases flight
    trivial
  · obtain ⟨applying, above⟩ := books.applying.readCommand idle calm below entry.command
    refine ledger.setNode ⟨applying, books.inside, books.committed, ?_, books.matched⟩
      (Or.inr ⟨rfl, id⟩)
    rintro msg (flight | flight) <;> cases flight
    -- the entry read is the last one of a committed prefix
    have inside := books.inside
    rw [Raft.entryAt?_retained (rel.nodes s).slice above] at found
    refine ⟨_, (σ.logical s).take ((σ.nodes s).lastApplied + 1 + 1), entry,
      books.committed.shorten (List.take_prefix_take_left (by omega)), ?_, ?_, rfl⟩
    · rw [List.length_take]
      omega
    · rw [List.getElem?_take, if_pos (Nat.lt_succ_self _), found]

theorem applierSend (ledger : Ledger σ core) (moved : σ.applierSend s = some σ') :
    Ledger σ' core := by
  obtain ⟨msg, sending, rfl⟩ := Cluster.applierSend_inversion moved
  have books := ledger.nodes s
  have node : NodeLedger { σ.nodes s with applier := .sent msg } (σ.logical s) msg.index core := by
    refine ⟨books.applying.send sending, books.inside, books.committed, ?_, books.matched⟩
    rintro other (flight | flight) <;> cases flight
    exact books.flight msg (Or.inl sending)
  have updated := ledger.update node (Or.inr ⟨rfl, id⟩)
  rw [Function.update_eq_self s σ.logical] at updated
  refine ⟨updated.nodes, ?_, updated.appends, updated.snapshots⟩
  intro record member
  rcases List.mem_cons.mp member with rfl | old
  · exact books.flight msg (Or.inl sending)
  · exact ledger.applied record old

theorem applierAck (ledger : Ledger σ core) (moved : σ.applierAck s = some σ') :
    Ledger σ' core := by
  obtain ⟨msg, applied, sent, records, rfl⟩ := Cluster.applierAck_inversion moved
  have books := ledger.nodes s
  refine ledger.setNode ⟨books.applying.ack sent records, books.inside, books.committed, ?_,
    books.matched⟩ (Or.inr ⟨rfl, id⟩)
  rintro other (flight | flight) <;> cases flight

/-- One action with fresh acknowledgements keeps the ledger. -/
theorem step (rel : Rel σ before) (ext : Extends before core) (seen : Observed before)
    (ledger : Ledger σ core) (after : Rel σ' core) (observed : Observed core) {action : Action n C}
    (fresh : σ.freshAck action = true) (moved : σ.step action = some σ') : Ledger σ' core := by
  cases action with
  | startElection s => exact Option.some.inj moved ▸ ledger.startElection s
  | handleRequestVote k => exact handleRequestVote rel ledger moved
  | receiveRequestVote k => exact ledger.receiveRequestVote moved
  | replicateToFollower s follower => exact ledger.replicateToFollower after rel moved
  | handleAppendEntries k => exact handleAppendEntries rel ext ledger after observed moved
  | receiveAppendEntries k => exact receiveAppendEntries rel ext seen ledger fresh moved
  | handleInstallSnapshot k => exact handleInstallSnapshot rel ext ledger after observed moved
  | receiveInstallSnapshot k => exact receiveInstallSnapshot rel ext seen ledger fresh moved
  | start s command => exact Option.some.inj moved ▸ ledger.start s command
  | snapshot s index data => exact snapshot rel ledger moved
  | applierRead s => exact applierRead rel ledger moved
  | applierSend s => exact ledger.applierSend moved
  | applierAck s => exact ledger.applierAck moved
  | crash s =>
    exact Option.some.inj moved ▸
      ledger.restart (ledger.nodes s) (rel.nodes s).saved (Nat.le_refl _)

end Ledger

end KvStore
