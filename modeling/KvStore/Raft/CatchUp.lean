import KvStore.Raft.ApplyOrder
import KvStore.Raft.Backup
import KvStore.Raft.Campaign

set_option autoImplicit false

/-! A new leader brings any other server up to its own log: by rounds of
`replicateToFollower` that are refused, by a snapshot if it has to, and by one round that
is accepted. -/

namespace KvStore

open ReplicatedLog

variable {n : Nat} {C : Type}

namespace Raft

variable {rf : Raft n C}

/-- A leader whose last entry is its own commits it as soon as a majority has it. -/
theorem advanceCommitIndex_commits (me : Fin n) (nonempty : rf.log ≠ [])
    (compacted : rf.lastIncludedIndex ≤ rf.commitIndex) {entry : LogEntry C}
    (last : rf.entryAt? rf.lastLogIndex = some entry) (own : entry.term = rf.currentTerm) :
    ∃ commitIndex, rf.advanceCommitIndex me = .ok { rf with commitIndex } ∧
      rf.commitIndex ≤ commitIndex ∧
      (n / 2 < rf.replicas me rf.lastLogIndex → rf.lastLogIndex ≤ commitIndex) := by
  by_cases decided : rf.commitIndex < rf.lastLogIndex ∧ n / 2 < rf.replicas me rf.lastLogIndex
  · obtain ⟨higher, majority⟩ := decided
    have done : rf.advanceCommitIndex me = .ok { rf with commitIndex := rf.lastLogIndex } := by
      obtain ⟨N, index⟩ := Nat.exists_eq_succ_of_ne_zero (Nat.ne_zero_of_lt higher)
      rw [index] at higher majority last
      rw [advanceCommitIndex, index, advanceFrom, if_neg (Nat.not_le.mpr higher)]
      simp only [Raft.entry, last, orPanic, bind, Except.bind, pure, Except.pure]
      rw [if_neg (not_not.mpr own), if_pos majority]
    exact ⟨_, done, Nat.le_of_lt higher, fun _ => Nat.le_refl _⟩
  · have alive := advanceFrom_ok me nonempty compacted (Nat.le_refl rf.lastLogIndex)
    rcases advanceFrom_cases me rf rf.lastLogIndex with
      (same | died) | ⟨k, _, higher, _, _, _, _, done⟩
    · exact ⟨rf.commitIndex, same, Nat.le_refl _, fun majority => by omega⟩
    · rw [died] at alive
      cases alive
    · exact ⟨k, done, Nat.le_of_lt higher, fun majority => by omega⟩

/-- What the round that is accepted leaves behind. -/
theorem Behind.accepts {leader follower after : Raft n C} {led logical : List (LogEntry C)}
    {me i : Fin n} {m : Nat} (pair : Behind leader follower led logical i m)
    (above : leader.lastIncludedIndex < leader.nextIndex i)
    (accepted : replicateRound me i leader follower = .ok (.accepted after)) :
    ∃ args, leader.newAppendEntriesArgsFor me i = .ok args ∧
      follower.appendEntries args = .ok (after,
        { term := leader.currentTerm, success := true, conflictTerm := 0, conflictIndex := 0 }) ∧
      args.term = leader.currentTerm ∧
      args.prevLogIndex + args.entries.length = leader.lastLogIndex ∧
      after.lastIncludedIndex = follower.lastIncludedIndex ∧ after.Holds (adopt logical led) ∧
      after.commitIndex = if follower.commitIndex < leader.commitIndex then
        min leader.commitIndex after.lastLogIndex else follower.commitIndex := by
  obtain ⟨args, built, ask, term, index⟩ := pair.sends me above
  obtain ⟨-, -, commit, reach⟩ := newAppendEntriesArgsFor_offered pair.sender above built
  have heard := pair.receiver.heardLeader leader.currentTerm
  rcases checkPrev_total heard args with ⟨conflict, refused⟩ | ⟨own, present, equal, passed⟩
  · rw [pair.round_refused me above built term refused] at accepted
    cases handled : leader.onAppendEntriesReply me i args
      ⟨leader.currentTerm, false, conflict.1, conflict.2⟩ with
    | error dead =>
      rw [handled] at accepted
      cases accepted
    | ok rf =>
      rw [handled] at accepted
      cases accepted
  · rw [← term] at present passed
    obtain ⟨after', once, -, lii, holds, commits⟩ :=
      appendEntries_accepted pair.receiver ask pair.matching (term ▸ pair.term) present equal passed
    have same : after' = after := by
      rw [replicateRound, if_neg (by omega)] at accepted
      simp only [built, once, bind, Except.bind, pure, Except.pure, ↓reduceIte] at accepted
      exact Round.accepted.inj (Except.ok.inj accepted)
    have whole : offerOf led args = led := by
      have size := lastLogIndex_of_slice pair.sender.slice
      have positive := pair.sender.length_pos
      exact List.take_of_length_le (by omega)
    subst same
    rw [whole] at holds
    rw [term] at once
    rw [commit] at commits
    exact ⟨args, built, once, term, reach, lii, holds, commits⟩

theorem replicateRound_rejected {leader leader' follower after : Raft n C} {me i : Fin n}
    (done : replicateRound me i leader follower = .ok (.rejected leader' after)) :
    ∃ args reply, leader.newAppendEntriesArgsFor me i = .ok args ∧
      follower.appendEntries args = .ok (after, reply) ∧
      leader.onAppendEntriesReply me i args reply = .ok leader' := by
  unfold replicateRound at done
  split at done
  · cases done
  cases built : leader.newAppendEntriesArgsFor me i with
  | error dead =>
    rw [built] at done
    cases done
  | ok args =>
    simp only [built, bind, Except.bind, pure, Except.pure] at done
    cases handled : follower.appendEntries args with
    | error dead =>
      rw [handled] at done
      cases done
    | ok result =>
      simp only [handled] at done
      split at done
      · cases done
      cases received : leader.onAppendEntriesReply me i args result.2 with
      | error dead =>
        rw [received] at done
        cases done
      | ok rf =>
        rw [received] at done
        obtain ⟨rfl, rfl⟩ := Round.rejected.inj (Except.ok.inj done)
        exact ⟨args, result.2, rfl, handled, received⟩

theorem newAppendEntriesArgsFor_term {me i : Fin n} {args : AppendEntriesArgs n C}
    (built : rf.newAppendEntriesArgsFor me i = .ok args) : args.term = rf.currentTerm := by
  obtain ⟨_, _, _, _, same⟩ := newAppendEntriesArgsFor_ok built
  rw [← same]

theorem appendEntries_term {after : Raft n C} {args : AppendEntriesArgs n C}
    {reply : AppendEntriesReply} (current : rf.currentTerm ≤ args.term)
    (done : rf.appendEntries args = .ok (after, reply)) : after.currentTerm = args.term := by
  have handled := rf.appendEntries_outcome args
  rw [done] at handled
  cases handled with
  | stale _ old => omega
  | refused => exact heardLeader_term current
  | merged _ _ merged remaining _ _ _ merge _ =>
    rw [(followCommit_quiet _ _).currentTerm]
    rcases mergeEntries_relogs merge with known | ⟨log, fresh⟩
    · rw [known]
      exact heardLeader_term current
    · rw [fresh]
      exact heardLeader_term current

theorem installSnapshot_ahead {args : InstallSnapshotArgs n} (current : rf.currentTerm ≤ args.term)
    (ahead : rf.lastIncludedIndex < args.lastIncludedIndex) :
    rf.installSnapshot args =
      (persist ((rf.raised args.term).installed args), { term := args.term }) := by
  rw [installSnapshot, if_neg (Nat.not_lt.mpr current)]
  dsimp only
  rw [raised_term current, raised_lastIncludedIndex, if_pos ahead]

/-- The leader once peer `i` is known to have everything through `matched`. -/
def credited (rf : Raft n C) (i : Fin n) (matched : Nat) : Raft n C :=
  { rf with
    matchIndex := Function.update rf.matchIndex i matched
    nextIndex := Function.update rf.nextIndex i (matched + 1) }

end Raft

namespace Cluster

variable {quorum : Finset (Fin n)} {σ σ' : Cluster n C} {s i : Fin n}

/-- A whole round of `AppendEntries` between two servers of the quorum. -/
theorem exchange_append (member : s ∈ quorum) (inside : i ∈ quorum) (apart : i ≠ s)
    (leads : (σ.nodes s).state = .leader)
    (above : (σ.nodes s).lastIncludedIndex < (σ.nodes s).nextIndex i)
    {args : AppendEntriesArgs n C} (built : (σ.nodes s).newAppendEntriesArgsFor s i = .ok args)
    (term : args.term = (σ.nodes s).currentTerm) {leader follower : Raft n C}
    {reply : AppendEntriesReply}
    (handled : (σ.nodes i).appendEntries args = .ok (follower, reply))
    (received : (σ.nodes s).onAppendEntriesReply s i args reply = .ok leader) :
    ∃ σ', Reaches quorum σ σ' ∧
      σ'.nodes = Function.update (Function.update σ.nodes i follower) s leader ∧
      σ'.logical s = σ.logical s ∧ σ'.started = σ.started := by
  let k := σ.appendCalls.length
  let call : Call n (AppendEntriesArgs n C) AppendEntriesReply :=
    { src := s, dst := i, incarnation := σ.incarnation s, args, status := .sent }
  let first : Cluster n C := { σ with appendCalls := σ.appendCalls ++ [call] }
  let second : Cluster n C :=
    { (first.setNode i follower).setLogical i (relog (σ.logical i) follower) with
      appendCalls := first.appendCalls.set k { call with status := .replied reply } }
  have sends : σ.step (.replicateToFollower s i) = some first := by
    have idle : ¬(s = i ∨ (σ.nodes s).state ≠ .leader) := by
      rintro (same | other)
      · exact apart same.symm
      · exact other leads
    simp only [step, replicateToFollower, if_neg idle, if_neg (Nat.not_le.mpr above), built]
    rfl
  have sent : first.appendCalls[k]? = some call := List.getElem?_concat_length ..
  have handles : first.step (.handleAppendEntries k) = some second := by
    simp only [step, handleAppendEntries, handleCall, sent, Option.bind_eq_bind, Option.bind_some,
      call]
    simp only [first, handled]
    rfl
  have replied : second.appendCalls[k]? = some { call with status := .replied reply } :=
    List.getElem?_set_self (List.getElem?_eq_some_iff.mp sent).1
  have caller : second.nodes s = σ.nodes s := Function.update_of_ne apart.symm ..
  have receives : second.step (.receiveAppendEntries k) = some
      { second.setNode s leader with
        appendCalls := second.appendCalls.set k { call with status := .received reply } } := by
    have alive : σ.incarnation s = second.incarnation s := rfl
    simp only [step, receiveAppendEntries, receiveReply, replied, Option.bind_eq_bind,
      Option.bind_some, call, if_pos alive, caller, received, settle]
  have fresh : second.freshReply (.receiveAppendEntries k) = true := by
    simp only [freshReply, replied, call, caller, term, implies_true, decide_true]
  refine ⟨_, ((Relation.ReflTransGen.single ⟨.replicateToFollower s i, ⟨rfl, member, inside⟩,
    sends⟩).tail ⟨.handleAppendEntries k, ⟨rfl, between sent ⟨member, inside⟩⟩, handles⟩).tail
    ⟨.receiveAppendEntries k, ⟨fresh, between replied ⟨member, inside⟩⟩, receives⟩, rfl,
    Function.update_of_ne apart.symm .., rfl⟩

/-- A whole round of `InstallSnapshot`. -/
theorem exchange_snapshot (member : s ∈ quorum) (inside : i ∈ quorum) (apart : i ≠ s)
    (leads : (σ.nodes s).state = .leader)
    (below : (σ.nodes s).nextIndex i ≤ (σ.nodes s).lastIncludedIndex)
    {request : InstallSnapshotArgs n}
    (built : (σ.nodes s).newInstallSnapshotArgs s = .ok request)
    (term : request.term = (σ.nodes s).currentTerm) {leader follower : Raft n C}
    {reply : InstallSnapshotReply}
    (handled : (σ.nodes i).installSnapshot request = (follower, reply))
    (received : (σ.nodes s).onInstallSnapshotReply s i request reply = .ok leader) :
    ∃ σ', Reaches quorum σ σ' ∧
      σ'.nodes = Function.update (Function.update σ.nodes i follower) s leader ∧
      σ'.logical s = σ.logical s ∧ σ'.started = σ.started := by
  let k := σ.snapshotCalls.length
  let call : Call n (Shipment n C) InstallSnapshotReply :=
    { src := s, dst := i, incarnation := σ.incarnation s,
      args := { request, covered := (σ.logical s).take ((σ.nodes s).lastIncludedIndex + 1) },
      status := .sent }
  let first : Cluster n C := { σ with snapshotCalls := σ.snapshotCalls ++ [call] }
  let second : Cluster n C :=
    { (first.setNode i follower).setLogical i (relogInstalled (σ.logical i) call.args.covered
        (σ.nodes i) follower) with
      snapshotCalls := first.snapshotCalls.set k { call with status := .replied reply } }
  have sends : σ.step (.replicateToFollower s i) = some first := by
    have idle : ¬(s = i ∨ (σ.nodes s).state ≠ .leader) := by
      rintro (same | other)
      · exact apart same.symm
      · exact other leads
    simp only [step, replicateToFollower, if_neg idle, if_pos below, built]
    rfl
  have sent : first.snapshotCalls[k]? = some call := List.getElem?_concat_length ..
  have handles : first.step (.handleInstallSnapshot k) = some second := by
    simp only [step, handleInstallSnapshot, sent, Option.bind_eq_bind, Option.bind_some, call]
    simp only [first, handled]
    rfl
  have replied : second.snapshotCalls[k]? = some { call with status := .replied reply } :=
    List.getElem?_set_self (List.getElem?_eq_some_iff.mp sent).1
  have caller : second.nodes s = σ.nodes s := Function.update_of_ne apart.symm ..
  have receives : second.step (.receiveInstallSnapshot k) = some
      { second.setNode s leader with
        snapshotCalls := second.snapshotCalls.set k { call with status := .received reply } } := by
    have alive : σ.incarnation s = second.incarnation s := rfl
    simp only [step, receiveInstallSnapshot, receiveReply, replied, Option.bind_eq_bind,
      Option.bind_some, call, if_pos alive, caller, received, settle]
  have fresh : second.freshReply (.receiveInstallSnapshot k) = true := by
    simp only [freshReply, freshAck, replied, call, caller, term, implies_true, decide_true]
  refine ⟨_, ((Relation.ReflTransGen.single ⟨.replicateToFollower s i, ⟨rfl, member, inside⟩,
    sends⟩).tail ⟨.handleInstallSnapshot k, ⟨rfl, between sent ⟨member, inside⟩⟩, handles⟩).tail
    ⟨.receiveInstallSnapshot k, ⟨fresh, between replied ⟨member, inside⟩⟩, receives⟩, rfl,
    Function.update_of_ne apart.symm .., rfl⟩

/-- A leader has every entry committed by a server of no later term. -/
theorem Kept.committed_led (kept : σ.Kept) (leads : (σ.nodes s).state = .leader)
    (term : (σ.nodes i).currentTerm ≤ (σ.nodes s).currentTerm) :
    (σ.logical i).take ((σ.nodes i).commitIndex + 1) <+: σ.logical s := by
  obtain ⟨core, ⟨rel, _, ledger⟩, _⟩ := kept
  have log := rel.safe.sound.leaderLog _ _ ((rel.nodes s).leader leads) (rel.nodes s).current
  rw [(rel.nodes s).log] at log
  rw [log]
  refine (ledger.nodes i).committed.prefix_led rel.safe term ?_
  rw [← log]
  exact List.length_pos_iff.mp (Nat.zero_lt_of_lt (ledger.nodes s).inside)

/-- What a leader believes of the log of a follower is in it. -/
theorem Kept.matched_shared (kept : σ.Kept) (leads : (σ.nodes s).state = .leader)
    (term : (σ.nodes i).currentTerm ≤ (σ.nodes s).currentTerm) :
    ∃ entry, (σ.logical s)[(σ.nodes s).matchIndex i]? = some entry ∧
      (σ.logical i)[(σ.nodes s).matchIndex i]? = some entry := by
  obtain ⟨core, ⟨rel, _, ledger⟩, _⟩ := kept
  have log := rel.safe.sound.leaderLog _ _ ((rel.nodes s).leader leads) (rel.nodes s).current
  rw [(rel.nodes s).log] at log
  by_cases none : (σ.nodes s).matchIndex i = 0
  · have rooted (j : Fin n) : (σ.logical j)[0]? = some root := by
      rw [← (rel.nodes j).log]
      exact prefix_getElem (rel.safe.sound.rooted j) (List.getElem?_cons_zero ..)
    rw [none]
    exact ⟨root, rooted s, rooted i⟩
  · have acked := (ledger.nodes s).matched leads i _ (Nat.pos_of_ne_zero none) (Nat.le_refl _)
    have reached := rel.safe.durable.bound _ _ _ acked
    rw [(rel.nodes i).current] at reached
    have held := rel.safe.durable.present _ _ _ acked
      ((rel.nodes i).current.trans (Nat.le_antisymm term reached))
    have inside := rel.safe.durable.inside _ _ _ acked
    rw [← log, (rel.nodes i).log] at held
    rw [← log] at inside
    refine ⟨_, List.getElem?_eq_getElem inside, prefix_getElem held ?_⟩
    rw [List.getElem?_take_of_lt (Nat.lt_succ_self _), List.getElem?_eq_getElem inside]

theorem exists_lastShared {left right : List (LogEntry C)} {k : Nat}
    (shared : ∃ entry, left[k]? = some entry ∧ right[k]? = some entry) :
    ∃ m, k ≤ m ∧ Raft.LastShared left right m := by
  classical
  let P (k : Nat) : Prop := ∃ entry, left[k]? = some entry ∧ right[k]? = some entry
  have inside : ∀ k, P k → k ≤ left.length := by
    rintro k ⟨entry, found, _⟩
    exact Nat.le_of_lt (List.getElem?_eq_some_iff.mp found).1
  have greatest : P (Nat.findGreatest P left.length) :=
    Nat.findGreatest_spec (inside k shared) shared
  refine ⟨_, Nat.le_findGreatest (inside k shared) shared, greatest, ?_⟩
  intro l entry above found other
  have both : P l := ⟨entry, found, other⟩
  exact Nat.findGreatest_is_greatest above (inside l both) both

/-- A leader and a follower of no later term are a pair that replication can bring
together. -/
theorem Kept.behind (kept : σ.Kept) (leads : (σ.nodes s).state = .leader)
    (term : (σ.nodes i).currentTerm ≤ (σ.nodes s).currentTerm)
    (below : (σ.nodes s).matchIndex i < (σ.nodes s).nextIndex i) :
    ∃ m, Raft.Behind (σ.nodes s) (σ.nodes i) (σ.logical s) (σ.logical i) i m := by
  obtain ⟨m, matched, lastShared⟩ := exists_lastShared (kept.matched_shared leads term)
  have committed := kept.committed_led leads term
  obtain ⟨core, ⟨rel, _, ledger⟩, indexed⟩ := kept
  have holds (j : Fin n) : (σ.nodes j).Holds (σ.logical j) :=
    ⟨(rel.nodes j).slice, List.length_pos_iff.mp (Nat.zero_lt_of_lt (ledger.nodes j).inside)⟩
  have mine := rel.safe.sound.coherent i
  have theirs := rel.safe.sound.coherent s
  rw [(rel.nodes i).log] at mine
  rw [(rel.nodes s).log] at theirs
  refine ⟨m, holds s, holds i, mine.matching theirs, term, ?_, lastShared, matched, below,
    indexed.next_le rel leads i⟩
  have compacted := (ledger.nodes i).applying.compacted
  have inside := (ledger.nodes i).inside
  have point : TermAt LogEntry.term (σ.logical i) (σ.nodes i).lastIncludedIndex _ :=
    ⟨_, List.getElem?_eq_getElem (by omega), rfl⟩
  refine ⟨_, (point.shorten (List.take_prefix ((σ.nodes i).commitIndex + 1) _) ?_).mono committed,
    point⟩
  rw [List.length_take]
  omega

/-- The next round to follower `i` starts above the match the leader knows and above the
follower's compaction point, or it sends a snapshot that the follower lacks. -/
def Aimed (leader follower : Raft n C) (i : Fin n) : Prop :=
  leader.matchIndex i < leader.nextIndex i ∧
    (follower.lastIncludedIndex < leader.nextIndex i ∨
      leader.nextIndex i ≤ leader.lastIncludedIndex ∧
        follower.lastIncludedIndex < leader.lastIncludedIndex)

/-- The leader `s` of term `T` has started `command` at the end `N` of its log, and no
server of the quorum has applied or compacted as much. -/
structure Drive (quorum : Finset (Fin n)) (s : Fin n) (T N : Nat) (command : Option C)
    (started : List (Fin n × Nat × Nat × Option C)) (σ : Cluster n C) : Prop where
  kept : σ.Kept
  member : s ∈ quorum
  leads : (σ.nodes s).state = .leader
  term : (σ.nodes s).currentTerm = T
  bound : ∀ i ∈ quorum, (σ.nodes i).currentTerm ≤ T
  last : (σ.nodes s).lastLogIndex = N
  own : (σ.logical s)[N]? = some { term := T, command }
  young : ∀ i ∈ quorum, (σ.nodes i).lastIncludedIndex < N ∧ (σ.nodes i).progress < N
  aimed : ∀ i ∈ quorum, i ≠ s → Aimed (σ.nodes s) (σ.nodes i) i
  counted : n / 2 < (σ.nodes s).replicas s N → N ≤ (σ.nodes s).commitIndex
  started : σ.started = started

/-- Nothing the leader knows to be replicated, and no commit of index `N`, is lost. -/
structure Onward (s : Fin n) (N : Nat) (σ σ' : Cluster n C) : Prop where
  matched : ∀ i, (σ.nodes s).matchIndex i ≤ (σ'.nodes s).matchIndex i
  committed : ∀ i, N ≤ (σ.nodes i).commitIndex → N ≤ (σ'.nodes i).commitIndex

theorem Onward.trans {N : Nat} {σ'' : Cluster n C} (first : Onward s N σ σ')
    (second : Onward s N σ' σ'') : Onward s N σ σ'' :=
  ⟨fun i => (first.matched i).trans (second.matched i),
    fun i reached => second.committed i (first.committed i reached)⟩

namespace Drive

variable {T N : Nat} {command : Option C} {started : List (Fin n × Nat × Nat × Option C)}

section

variable (drive : Drive quorum s T N command started σ)

include drive

/-- A round changes the follower and what the leader knows of it. -/
theorem round (apart : i ≠ s) (reaches : Reaches quorum σ σ') {follower : Raft n C} {v k c : Nat}
    (nodes : σ'.nodes = Function.update (Function.update σ.nodes i follower) s
      { σ.nodes s with
        nextIndex := Function.update (σ.nodes s).nextIndex i v
        matchIndex := Function.update (σ.nodes s).matchIndex i k
        commitIndex := c }) (logical : σ'.logical s = σ.logical s) (same : σ'.started = σ.started)
    (term : follower.currentTerm = T) (young : follower.lastIncludedIndex < N)
    (progress : follower.progress = (σ.nodes i).progress) (aimed : Aimed (σ'.nodes s) follower i)
    (known : (σ.nodes s).matchIndex i ≤ k) (higher : (σ.nodes s).commitIndex ≤ c)
    (counted : n / 2 < (σ'.nodes s).replicas s N → N ≤ c)
    (committed : N ≤ (σ.nodes i).commitIndex → N ≤ follower.commitIndex) :
    Drive quorum s T N command started σ' ∧ Onward s N σ σ' := by
  have leader : σ'.nodes s = _ := (congrFun nodes s).trans (Function.update_self ..)
  have there : σ'.nodes i = follower := by
    rw [nodes, Function.update_of_ne apart, Function.update_self]
  have others {j : Fin n} (other : j ≠ i) (other' : j ≠ s) : σ'.nodes j = σ.nodes j := by
    rw [nodes, Function.update_of_ne other', Function.update_of_ne other]
  refine ⟨⟨drive.kept.reaches reaches, drive.member, ?_, ?_, fun j inside => ?_, ?_, ?_,
    fun j inside => ?_, fun j inside other => ?_, ?_, same.trans drive.started⟩,
    fun j => ?_, fun j reached => ?_⟩
  · rw [leader]
    exact drive.leads
  · rw [leader]
    exact drive.term
  · by_cases mine : j = s
    · rw [mine, leader]
      exact Nat.le_of_eq drive.term
    by_cases here : j = i
    · rw [here, there, term]
    · rw [others here mine]
      exact drive.bound j inside
  · rw [leader]
    exact drive.last
  · rw [logical]
    exact drive.own
  · by_cases mine : j = s
    · rw [mine, leader]
      exact drive.young s drive.member
    by_cases here : j = i
    · rw [here, there, progress]
      exact ⟨young, (drive.young i (here ▸ inside)).2⟩
    · rw [others here mine]
      exact drive.young j inside
  · by_cases here : j = i
    · rw [here, there]
      exact aimed
    · have before := drive.aimed j inside other
      rw [others here other, leader]
      simp only [Aimed, Function.update_of_ne here]
      exact before
  · rw [leader] at counted ⊢
    exact counted
  · rw [leader]
    by_cases here : j = i
    · simp only [here, Function.update_self]
      exact known
    · simp only [Function.update_of_ne here]
      exact Nat.le_refl _
  · by_cases mine : j = s
    · rw [mine, leader]
      rw [mine] at reached
      exact reached.trans higher
    by_cases here : j = i
    · rw [here, there]
      exact committed (here ▸ reached)
    · rw [others here mine]
      exact reached

/-- Crediting a follower commits the command once a majority has it. -/
theorem credits (i : Fin n) (matched : Nat) :
    ∃ commitIndex, ((σ.nodes s).credited i matched).advanceCommitIndex s =
        .ok { (σ.nodes s).credited i matched with commitIndex } ∧
      (σ.nodes s).commitIndex ≤ commitIndex ∧
      (n / 2 < ((σ.nodes s).credited i matched).replicas s N → N ≤ commitIndex) := by
  have nonempty : ((σ.nodes s).credited i matched).log ≠ [] := drive.kept.log_nonempty s
  have young := (drive.young s drive.member).1
  obtain ⟨core, ⟨rel, _, ledger⟩, _⟩ := drive.kept
  have index : ((σ.nodes s).credited i matched).lastLogIndex = N := drive.last
  have found : ((σ.nodes s).credited i matched).entryAt? N = some { term := T, command } :=
    (Raft.entryAt?_retained (rel.nodes s).slice young).trans drive.own
  have commits := Raft.advanceCommitIndex_commits s nonempty
    (ledger.nodes s).applying.compacted (index ▸ found) drive.term.symm
  rwa [index] at commits

/-- A reply that accepts everything leaves the leader knowing it. -/
theorem credited (i : Fin n) (within : (σ.nodes s).nextIndex i ≤ N + 1)
    (below : (σ.nodes s).matchIndex i < (σ.nodes s).nextIndex i) {args : AppendEntriesArgs n C}
    (reach : args.prevLogIndex + args.entries.length = N) :
    ∃ commitIndex, (σ.nodes s).onAppendEntriesReply s i args
        { term := T, success := true, conflictTerm := 0, conflictIndex := 0 } =
        .ok { (σ.nodes s).credited i N with commitIndex } ∧
      (σ.nodes s).commitIndex ≤ commitIndex ∧
      (n / 2 < ((σ.nodes s).credited i N).replicas s N → N ≤ commitIndex) := by
  have current : ¬ (σ.nodes s).currentTerm < T := Nat.not_lt.mpr (Nat.le_of_eq drive.term.symm)
  simp only [Raft.onAppendEntriesReply, current, ↓reduceIte, reach]
  by_cases known : N ≤ (σ.nodes s).matchIndex i
  · have unchanged : (σ.nodes s).credited i N = σ.nodes s := by
      have matched : (σ.nodes s).matchIndex i = N := by omega
      have next : (σ.nodes s).nextIndex i = N + 1 := by omega
      rw [Raft.credited, ← next, Function.update_eq_self, ← matched, Function.update_eq_self]
    rw [if_pos known, unchanged]
    exact ⟨_, rfl, Nat.le_refl _, drive.counted⟩
  · rw [if_neg known]
    exact drive.credits i N

/-- The pair that a round to `i` starts from. -/
theorem behind (inside : i ∈ quorum) (apart : i ≠ s) :
    ∃ m, Raft.Behind (σ.nodes s) (σ.nodes i) (σ.logical s) (σ.logical i) i m :=
  drive.kept.behind drive.leads (drive.term.symm ▸ drive.bound i inside)
    (drive.aimed i inside apart).1

/-- The round that is accepted. -/
theorem accepted (inside : i ∈ quorum) (apart : i ≠ s)
    (above : (σ.nodes s).lastIncludedIndex < (σ.nodes s).nextIndex i) {m : Nat}
    (pair : Raft.Behind (σ.nodes s) (σ.nodes i) (σ.logical s) (σ.logical i) i m) {after : Raft n C}
    (done : Raft.replicateRound s i (σ.nodes s) (σ.nodes i) = .ok (.accepted after)) :
    ∃ σ', Reaches quorum σ σ' ∧ Drive quorum s T N command started σ' ∧ Onward s N σ σ' ∧
      N ≤ (σ'.nodes s).matchIndex i ∧
      (N ≤ (σ.nodes s).commitIndex → N ≤ (σ'.nodes i).commitIndex) := by
  obtain ⟨args, built, handled, term, reach, lii, holds, commit⟩ := pair.accepts above done
  have within := pair.within
  rw [drive.last] at reach within
  rw [drive.term] at handled
  obtain ⟨commitIndex, received, higher, counted⟩ :=
    drive.credited i within pair.behind reach
  obtain ⟨σ', reaches, nodes, logical, same⟩ :=
    exchange_append drive.member inside apart drive.leads above built term handled received
  have leader : σ'.nodes s = _ := (congrFun nodes s).trans (Function.update_self ..)
  have unmoved := Raft.appendEntries_unmoved handled
  have young := (drive.young i inside).1
  have long : N ≤ after.lastLogIndex := by
    have size := (offered_prefix_adopt (σ.logical i) (σ.logical s)).length_le
    have last := drive.last
    rw [Raft.lastLogIndex_of_slice pair.sender.slice] at last
    rw [Raft.lastLogIndex_of_slice holds.slice]
    omega
  have commits : N ≤ (σ.nodes i).commitIndex ∨ N ≤ (σ.nodes s).commitIndex →
      N ≤ after.commitIndex := by
    rw [commit]
    split <;> omega
  have current : after.currentTerm = T := by
    rw [Raft.appendEntries_term _ handled, term, drive.term]
    rw [term]
    exact pair.term
  have matched : (σ'.nodes s).matchIndex i = N := by
    rw [leader]
    exact Function.update_self ..
  have next : (σ'.nodes s).nextIndex i = N + 1 := by
    rw [leader]
    exact Function.update_self ..
  obtain ⟨drive', onward⟩ := drive.round apart reaches (v := N + 1) (k := N) nodes logical
    same current (lii ▸ young) (Raft.progress_congr unmoved.applier unmoved.lastApplied)
    (by rw [Aimed, matched, next, lii]; omega) (by have := pair.behind; omega) higher
    (by rw [leader]; exact counted) (fun reached => commits (Or.inl reached))
  refine ⟨σ', reaches, drive', onward, Nat.le_of_eq matched.symm, fun reached => ?_⟩
  rw [nodes, Function.update_of_ne apart, Function.update_self]
  exact commits (Or.inr reached)

/-- A round that sends entries: it is accepted, or the leader goes back. -/
theorem append (inside : i ∈ quorum) (apart : i ≠ s)
    (above : (σ.nodes s).lastIncludedIndex < (σ.nodes s).nextIndex i) :
    ∃ σ', Reaches quorum σ σ' ∧ Drive quorum s T N command started σ' ∧ Onward s N σ σ' ∧
      (N ≤ (σ'.nodes s).matchIndex i ∧
          (N ≤ (σ.nodes s).commitIndex → N ≤ (σ'.nodes i).commitIndex) ∨
        (σ'.nodes s).matchIndex i = (σ.nodes s).matchIndex i ∧
          (σ'.nodes s).nextIndex i < (σ.nodes s).nextIndex i) := by
  obtain ⟨m, pair⟩ := drive.behind inside apart
  obtain ⟨-, retained⟩ := drive.aimed i inside apart
  rcases pair.round_retained s above (by omega) with
    ⟨after, done⟩ | ⟨v, known, less, bound, done⟩
  · obtain ⟨σ', reaches, drive', onward, settled⟩ := drive.accepted inside apart above pair done
    exact ⟨σ', reaches, drive', onward, Or.inl settled⟩
  · obtain ⟨args, reply, built, handled, received⟩ := Raft.replicateRound_rejected done
    obtain ⟨σ', reaches, nodes, logical, same⟩ := exchange_append drive.member inside apart
      drive.leads above built (Raft.newAppendEntriesArgsFor_term built) handled received
    have leader : σ'.nodes s = _ := (congrFun nodes s).trans (Function.update_self ..)
    have unmoved := (σ.nodes i).heardLeader_unmoved (σ.nodes s).currentTerm
    have point := pair.snapshotPoint_le
    have next : (σ'.nodes s).nextIndex i = v := by
      rw [leader]
      exact Function.update_self ..
    obtain ⟨drive', onward⟩ := drive.round apart reaches (v := v)
      (k := (σ.nodes s).matchIndex i) (c := (σ.nodes s).commitIndex)
      (by rw [Function.update_eq_self]; exact nodes) logical same
      (by rw [Raft.heardLeader_term pair.term, drive.term])
      (by rw [unmoved.lastIncludedIndex]; exact (drive.young i inside).1)
      (Raft.progress_congr unmoved.applier unmoved.lastApplied)
      (by
        rw [Aimed, next, unmoved.lastIncludedIndex, leader]
        dsimp only [Raft.steer]
        omega)
      (Nat.le_refl _) (Nat.le_refl _) (by rw [leader]; exact drive.counted)
      (fun reached => by rwa [Raft.heardLeader_commitIndex])
    refine ⟨σ', reaches, drive', onward, Or.inr ⟨?_, next ▸ less⟩⟩
    rw [leader]
    rfl

/-- A round that sends the snapshot. The next one starts right above it. -/
theorem install (inside : i ∈ quorum) (apart : i ≠ s)
    (below : (σ.nodes s).nextIndex i ≤ (σ.nodes s).lastIncludedIndex) :
    ∃ σ', Reaches quorum σ σ' ∧ Drive quorum s T N command started σ' ∧ Onward s N σ σ' ∧
      (σ'.nodes s).nextIndex i = (σ'.nodes s).matchIndex i + 1 ∧
      (σ'.nodes s).lastIncludedIndex < (σ'.nodes s).nextIndex i := by
  obtain ⟨known, retained⟩ := drive.aimed i inside apart
  have young := (drive.young s drive.member).1
  have lacks : (σ.nodes i).lastIncludedIndex < (σ.nodes s).lastIncludedIndex := by omega
  obtain ⟨dummy, read⟩ := Raft.entry_inside (drive.kept.log_nonempty s)
    (Nat.le_refl (σ.nodes s).lastIncludedIndex) (by rw [drive.last]; omega)
  let request : InstallSnapshotArgs n :=
    { term := T, leaderId := s, lastIncludedIndex := (σ.nodes s).lastIncludedIndex,
      lastIncludedTerm := dummy.term, data := (σ.nodes s).snapshotData }
  have built : (σ.nodes s).newInstallSnapshotArgs s = .ok request := by
    simp only [Raft.newInstallSnapshotArgs, read, bind, Except.bind, pure, Except.pure, drive.term,
      request]
  have handled : (σ.nodes i).installSnapshot request =
      (Raft.persist (((σ.nodes i).raised T).installed request), { term := T }) :=
    Raft.installSnapshot_ahead (drive.bound i inside) lacks
  obtain ⟨commitIndex, received, higher, counted⟩ :=
    drive.credits i (σ.nodes s).lastIncludedIndex
  have received : (σ.nodes s).onInstallSnapshotReply s i request { term := T } =
      .ok { (σ.nodes s).credited i (σ.nodes s).lastIncludedIndex with commitIndex } := by
    rw [Raft.onInstallSnapshotReply, if_neg (Nat.not_lt.mpr (Nat.le_of_eq drive.term.symm)),
      if_pos (known.trans_le below)]
    exact received
  obtain ⟨σ', reaches, nodes, logical, same⟩ :=
    exchange_snapshot drive.member inside apart drive.leads below built drive.term.symm handled
      received
  have leader : σ'.nodes s = _ := (congrFun nodes s).trans (Function.update_self ..)
  have matched : (σ'.nodes s).matchIndex i = (σ.nodes s).lastIncludedIndex := by
    rw [leader]
    exact Function.update_self ..
  have next : (σ'.nodes s).nextIndex i = (σ.nodes s).lastIncludedIndex + 1 := by
    rw [leader]
    exact Function.update_self ..
  have unmoved := (σ.nodes i).raised_unmoved T
  obtain ⟨applier, lastApplied, -, lii, -, told⟩ :=
    ((σ.nodes i).raised T).installed_effect request
  obtain ⟨term, -⟩ := ((σ.nodes i).raised T).installed_keeps request
  have commits : (σ.nodes i).commitIndex ≤
      (((σ.nodes i).raised T).installed request).commitIndex := by
    rw [← (σ.nodes i).raised_commitIndex T]
    omega
  obtain ⟨drive', onward⟩ := drive.round apart reaches (v := (σ.nodes s).lastIncludedIndex + 1)
    (k := (σ.nodes s).lastIncludedIndex) nodes logical same
    (term.trans (Raft.raised_term (drive.bound i inside))) (lii.trans_lt young)
    (Raft.progress_congr (applier.trans unmoved.applier) (lastApplied.trans unmoved.lastApplied))
    (by
      rw [Aimed, matched, next, Raft.persist_lastIncludedIndex, lii]
      exact ⟨Nat.lt_succ_self _, Or.inl (Nat.lt_succ_self _)⟩)
    (Nat.le_of_lt (known.trans_le below)) higher (by rw [leader]; exact counted)
    (fun reached => reached.trans commits)
  refine ⟨σ', reaches, drive', onward, by rw [next, matched], ?_⟩
  rw [next, leader]
  exact Nat.lt_succ_self _

/-- A round that starts right above the match the leader knows is accepted. -/
theorem append_matched (inside : i ∈ quorum) (apart : i ≠ s)
    (above : (σ.nodes s).lastIncludedIndex < (σ.nodes s).nextIndex i)
    (next : (σ.nodes s).nextIndex i = (σ.nodes s).matchIndex i + 1) :
    ∃ σ', Reaches quorum σ σ' ∧ Drive quorum s T N command started σ' ∧ Onward s N σ σ' ∧
      N ≤ (σ'.nodes s).matchIndex i ∧
      (N ≤ (σ.nodes s).commitIndex → N ≤ (σ'.nodes i).commitIndex) := by
  obtain ⟨σ', reaches, drive', onward, settled | ⟨same, less⟩⟩ := drive.append inside apart above
  · exact ⟨σ', reaches, drive', onward, settled⟩
  · have := (drive'.aimed i inside apart).1
    omega

/-- The follower gets the whole log of the leader, after as many rounds as `nextIndex` has
to go back. -/
theorem catchUp (inside : i ∈ quorum) (apart : i ≠ s) :
    ∃ σ', Reaches quorum σ σ' ∧ Drive quorum s T N command started σ' ∧ Onward s N σ σ' ∧
      N ≤ (σ'.nodes s).matchIndex i := by
  induction next : (σ.nodes s).nextIndex i using Nat.strongRecOn generalizing σ with
  | ind left ih =>
    by_cases above : (σ.nodes s).lastIncludedIndex < (σ.nodes s).nextIndex i
    · obtain ⟨middle, reaches, drive', onward, ⟨settled, -⟩ | ⟨-, less⟩⟩ :=
        drive.append inside apart above
      · exact ⟨middle, reaches, drive', onward, settled⟩
      · obtain ⟨σ', later, drive'', onward', settled⟩ := ih _ (next ▸ less) drive' rfl
        exact ⟨σ', reaches.trans later, drive'', onward.trans onward', settled⟩
    · obtain ⟨middle, reaches, drive', onward, next', above'⟩ :=
        drive.install inside apart (Nat.le_of_not_lt above)
      obtain ⟨σ', later, drive'', onward', settled, -⟩ :=
        drive'.append_matched inside apart above' next'
      exact ⟨σ', reaches.trans later, drive'', onward.trans onward', settled⟩

end

end Drive

end Cluster

end KvStore
