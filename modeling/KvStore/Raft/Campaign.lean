import Mathlib.Data.Finset.Max
import Mathlib.Data.Prod.Lex
import KvStore.Raft.Redelivery

set_option autoImplicit false

/-! Any majority of two or more servers can elect a leader on its own, whatever state the
run has left them in. -/

namespace KvStore

open ReplicatedLog

variable {n : Nat} {C : Type}

namespace Raft

variable {rf : Raft n C} {args : RequestVoteArgs n}

/-- The log of the candidate is at least as recent. -/
def Concedes (rf : Raft n C) (args : RequestVoteArgs n) : Prop :=
  ∃ t, rf.lastLogTerm = some t ∧
    (t < args.lastLogTerm ∨ args.lastLogTerm = t ∧ rf.lastLogIndex ≤ args.lastLogIndex)

/-- The voter once it has voted in a term that is new to it. -/
def voted (rf : Raft n C) (term : Nat) (candidate : Fin n) : Raft n C :=
  persist { rf.becomeFollowerWithTerm term with votedFor := some candidate, state := .follower }

theorem requestVote_granted (higher : rf.currentTerm < args.term) (concedes : rf.Concedes args) :
    rf.requestVote args = .ok (rf.voted args.term args.candidateId,
      { term := args.term, voteGranted := true }) := by
  obtain ⟨t, last, recent⟩ := concedes
  have follower : rf.raised args.term = rf.becomeFollowerWithTerm args.term := if_pos higher
  have found : (rf.becomeFollowerWithTerm args.term).lastLogTerm = some t := last
  have open_ : (rf.becomeFollowerWithTerm args.term).currentTerm ≤ args.term ∧
      ((rf.becomeFollowerWithTerm args.term).votedFor = some args.candidateId ∨
        (rf.becomeFollowerWithTerm args.term).votedFor = none) :=
    ⟨Nat.le_refl _, Or.inr rfl⟩
  have index : (rf.becomeFollowerWithTerm args.term).lastLogIndex = rf.lastLogIndex := rfl
  rw [requestVote, follower, castVote, if_pos open_]
  simp only [found, orPanic, bind, Except.bind, pure, Except.pure, index]
  rw [if_pos recent]
  rfl

/-- A vote of the current term is counted, and may decide the election. -/
theorem onRequestVoteReply_counted (stands : rf.state = .candidate)
    (term : args.term = rf.currentTerm) {votes : Nat}
    (ballot : rf.ballots args.term = { voteCount := votes, won := false }) :
    rf.onRequestVoteReply args { term := args.term, voteGranted := true } =
      if n / 2 < votes + 1 then (rf.tallied args.term true).elected
      else rf.tallied args.term false := by
  have open_ : ¬(rf.state ≠ .candidate ∨ args.term ≠ rf.currentTerm) := by
    rintro (other | other)
    · exact other stands
    · exact other term
  simp only [onRequestVoteReply, Nat.not_lt.mpr (Nat.le_of_eq term), ↓reduceIte, open_, ballot,
    and_true]

end Raft

namespace Cluster

variable {quorum : Finset (Fin n)} {σ σ' σ'' : Cluster n C}

/-- A step that the given servers take on their own: one of them moves, or an RPC between
two of them does. None of them dies, and no service compacts its log. -/
def Among (quorum : Finset (Fin n)) (σ : Cluster n C) : Action n C → Prop
  | .startElection s => s ∈ quorum
  | .handleRequestVote k => ∀ call ∈ σ.voteCalls[k]?, call.src ∈ quorum ∧ call.dst ∈ quorum
  | .receiveRequestVote k => ∀ call ∈ σ.voteCalls[k]?, call.src ∈ quorum ∧ call.dst ∈ quorum
  | .replicateToFollower s follower => s ∈ quorum ∧ follower ∈ quorum
  | .handleAppendEntries k => ∀ call ∈ σ.appendCalls[k]?, call.src ∈ quorum ∧ call.dst ∈ quorum
  | .receiveAppendEntries k => ∀ call ∈ σ.appendCalls[k]?, call.src ∈ quorum ∧ call.dst ∈ quorum
  | .handleInstallSnapshot k =>
    ∀ call ∈ σ.snapshotCalls[k]?, call.src ∈ quorum ∧ call.dst ∈ quorum
  | .receiveInstallSnapshot k =>
    ∀ call ∈ σ.snapshotCalls[k]?, call.src ∈ quorum ∧ call.dst ∈ quorum
  | .start s _ => s ∈ quorum
  | .applierRead s => s ∈ quorum
  | .applierSend s => s ∈ quorum
  | .applierAck s => s ∈ quorum
  | .snapshot _ _ _ => False
  | .crash _ => False

theorem between {Args Reply : Type} {calls : List (Call n Args Reply)} {k : Nat}
    {call : Call n Args Reply} (found : calls[k]? = some call)
    (inside : call.src ∈ quorum ∧ call.dst ∈ quorum) :
    ∀ other ∈ calls[k]?, other.src ∈ quorum ∧ other.dst ∈ quorum := by
  intro other same
  obtain rfl := Option.some.inj (found.symm.trans same)
  exact inside

/-- One such step, with a reply handled in the term of its request. -/
def Advances (quorum : Finset (Fin n)) (σ σ' : Cluster n C) : Prop :=
  ∃ action, (σ.freshReply action = true ∧ σ.Among quorum action) ∧ σ.step action = some σ'

abbrev Reaches (quorum : Finset (Fin n)) : Cluster n C → Cluster n C → Prop :=
  Relation.ReflTransGen (Advances quorum)

theorem Kept.reaches (kept : σ.Kept) (reaches : Reaches quorum σ σ') : σ'.Kept := by
  induction reaches with
  | refl => exact kept
  | tail _ advances ih =>
    obtain ⟨action, ⟨fresh, _⟩, moved⟩ := advances
    exact ih.step fresh moved

/-- Elections leave the logs alone. -/
structure SameLogs (σ σ' : Cluster n C) : Prop where
  log : ∀ s, (σ'.nodes s).log = (σ.nodes s).log
  compacted : ∀ s, (σ'.nodes s).lastIncludedIndex = (σ.nodes s).lastIncludedIndex
  logical : σ'.logical = σ.logical
  started : σ'.started = σ.started

theorem SameLogs.refl (σ : Cluster n C) : SameLogs σ σ := ⟨fun _ => rfl, fun _ => rfl, rfl, rfl⟩

theorem SameLogs.trans (first : SameLogs σ σ') (second : SameLogs σ' σ'') : SameLogs σ σ'' where
  log s := (second.log s).trans (first.log s)
  compacted s := (second.compacted s).trans (first.compacted s)
  logical := second.logical.trans first.logical
  started := second.started.trans first.started

/-- One server changes and keeps its log. -/
theorem SameLogs.setNode {s : Fin n} {rf : Raft n C}
    (nodes : σ'.nodes = Function.update σ.nodes s rf) (log : rf.log = (σ.nodes s).log)
    (compacted : rf.lastIncludedIndex = (σ.nodes s).lastIncludedIndex)
    (logical : σ'.logical = σ.logical) (started : σ'.started = σ.started) : SameLogs σ σ' := by
  refine ⟨fun i => ?_, fun i => ?_, logical, started⟩
  · rw [nodes]
    by_cases here : i = s
    · rw [here, Function.update_self, log]
    · rw [Function.update_of_ne here]
  · rw [nodes]
    by_cases here : i = s
    · rw [here, Function.update_self, compacted]
    · rw [Function.update_of_ne here]

/-- The `RequestVote` that a candidate sends to everyone else. -/
def requests (σ : Cluster n C) (s : Fin n) (args : RequestVoteArgs n) :
    List (Call n (RequestVoteArgs n) RequestVoteReply) :=
  ((List.finRange n).filter (· ≠ s)).map fun i =>
    { src := s, dst := i, incarnation := σ.incarnation s, args, status := .sent }

theorem startElection_stands (kept : σ.Kept) (s : Fin n) :
    ∃ t, (σ.nodes s).lastLogTerm = some t ∧
      σ.startElection s = { σ.setNode s ((σ.nodes s).standing s) with
        voteCalls := σ.voteCalls ++ σ.requests s
          { term := (σ.nodes s).currentTerm + 1, candidateId := s,
            lastLogIndex := (σ.nodes s).lastLogIndex, lastLogTerm := t } } := by
  have alive := Raft.startElection_ok s (kept.log_nonempty s)
  rcases Raft.startElection_cases s (σ.nodes s) with died | ⟨t, last, done⟩
  · rw [died] at alive
    cases alive
  · refine ⟨t, last, ?_⟩
    simp only [startElection, done]
    rfl

/-- A server that stands again and again gets to any term. -/
theorem raises_term (kept : σ.Kept) {s : Fin n} (member : s ∈ quorum) (t : Nat) :
    ∃ σ', Reaches quorum σ σ' ∧ SameLogs σ σ' ∧ (∀ i, i ≠ s → σ'.nodes i = σ.nodes i) ∧
      t ≤ (σ'.nodes s).currentTerm := by
  induction t with
  | zero => exact ⟨σ, .refl, .refl σ, fun _ _ => rfl, Nat.zero_le _⟩
  | succ t ih =>
    obtain ⟨middle, reaches, same, others, high⟩ := ih
    obtain ⟨_, _, stands⟩ := startElection_stands (kept.reaches reaches) s
    have moved : middle.step (.startElection s) = some (middle.startElection s) := rfl
    rw [stands] at moved
    refine ⟨_, reaches.tail ⟨.startElection s, ⟨rfl, member⟩, moved⟩,
      same.trans (.setNode rfl rfl rfl rfl rfl), fun i other => ?_, ?_⟩
    · rw [← others i other]
      exact Function.update_of_ne other ..
    · dsimp only [setNode]
      rw [Function.update_self]
      exact Nat.succ_le_succ high

/-- The candidate `s` of the term of `args` has `votes` votes, and the servers of `rest`
have yet to hear of it and will vote for it. -/
structure Canvass (quorum : Finset (Fin n)) (s : Fin n) (args : RequestVoteArgs n) (votes : Nat)
    (rest : List (Fin n)) (σ : Cluster n C) : Prop where
  member : s ∈ quorum
  candidateId : args.candidateId = s
  stands : (σ.nodes s).state = .candidate
  term : args.term = (σ.nodes s).currentTerm
  ballot : (σ.nodes s).ballots args.term = { voteCount := votes, won := false }
  short : votes ≤ n / 2
  enough : n / 2 < votes + rest.length
  distinct : rest.Nodup
  bound : ∀ i ∈ quorum, (σ.nodes i).currentTerm ≤ args.term
  asked : ∀ i ∈ rest, i ∈ quorum ∧ i ≠ s ∧ (σ.nodes i).currentTerm < args.term ∧
    (σ.nodes i).Concedes args ∧ ∃ k : Nat, σ.voteCalls[k]? = some
      { src := s, dst := i, incarnation := σ.incarnation s, args, status := .sent }

/-- The leader of a term no server of the quorum is past, with a fresh view of the others. -/
structure Leads (quorum : Finset (Fin n)) (s : Fin n) (σ : Cluster n C) : Prop where
  member : s ∈ quorum
  leads : (σ.nodes s).state = .leader
  bound : ∀ i ∈ quorum, (σ.nodes i).currentTerm ≤ (σ.nodes s).currentTerm
  next : (σ.nodes s).nextIndex = fun _ => (σ.nodes s).lastLogIndex + 1
  matched : (σ.nodes s).matchIndex = fun _ => 0

/-- One more vote: the request arrives and is granted, and the reply is counted. -/
theorem Canvass.exchange {s i : Fin n} {args : RequestVoteArgs n} {votes k : Nat}
    {rest : List (Fin n)} (canvass : Canvass quorum s args votes rest σ) (inside : i ∈ quorum)
    (apart : i ≠ s) (lower : (σ.nodes i).currentTerm < args.term)
    (concedes : (σ.nodes i).Concedes args) (found : σ.voteCalls[k]? = some
      { src := s, dst := i, incarnation := σ.incarnation s, args, status := .sent }) :
    ∃ σ' call, Reaches quorum σ σ' ∧
      σ'.nodes = Function.update (Function.update σ.nodes i ((σ.nodes i).voted args.term s)) s
        (if n / 2 < votes + 1 then ((σ.nodes s).tallied args.term true).elected
          else (σ.nodes s).tallied args.term false) ∧
      σ'.logical = σ.logical ∧ σ'.started = σ.started ∧ σ'.incarnation = σ.incarnation ∧
      σ'.voteCalls = σ.voteCalls.set k call := by
  have granted := Raft.requestVote_granted lower concedes
  have counted := Raft.onRequestVoteReply_counted canvass.stands canvass.term canvass.ballot
  rw [canvass.candidateId] at granted
  let reply : RequestVoteReply := { term := args.term, voteGranted := true }
  let call : Call n (RequestVoteArgs n) RequestVoteReply :=
    { src := s, dst := i, incarnation := σ.incarnation s, args, status := .replied reply }
  let middle : Cluster n C :=
    { σ.setNode i ((σ.nodes i).voted args.term s) with voteCalls := σ.voteCalls.set k call }
  have handled : σ.step (.handleRequestVote k) = some middle := by
    simp only [step, handleRequestVote, handleCall, found, granted, Option.bind_eq_bind,
      Option.bind_some]
    rfl
  have there : middle.voteCalls[k]? = some call :=
    List.getElem?_set_self (List.getElem?_eq_some_iff.mp found).1
  have caller : middle.nodes s = σ.nodes s := Function.update_of_ne apart.symm ..
  have received : middle.step (.receiveRequestVote k) = some
      { middle.setNode s (if n / 2 < votes + 1 then ((σ.nodes s).tallied args.term true).elected
          else (σ.nodes s).tallied args.term false) with
        voteCalls := middle.voteCalls.set k { call with status := .received reply } } := by
    have alive : σ.incarnation s = middle.incarnation s := rfl
    simp only [step, receiveRequestVote, receiveReply, there, Option.bind_eq_bind, Option.bind_some,
      call, caller, reply, counted, if_pos alive]
  have first : Advances quorum σ middle :=
    ⟨.handleRequestVote k, ⟨rfl, between found ⟨canvass.member, inside⟩⟩, handled⟩
  exact ⟨_, { call with status := .received reply }, (Relation.ReflTransGen.single first).tail
    ⟨.receiveRequestVote k, ⟨rfl, between there ⟨canvass.member, inside⟩⟩, received⟩,
    rfl, rfl, rfl, rfl, List.set_set ..⟩

theorem Canvass.vote {s i : Fin n} {args : RequestVoteArgs n} {votes : Nat} {rest : List (Fin n)}
    (canvass : Canvass quorum s args votes (i :: rest) σ) :
    ∃ σ', Reaches quorum σ σ' ∧ SameLogs σ σ' ∧
      (Leads quorum s σ' ∨ Canvass quorum s args (votes + 1) rest σ') := by
  obtain ⟨inside, apart, lower, concedes, k, found⟩ := canvass.asked i (List.mem_cons_self ..)
  obtain ⟨σ', call, reaches, nodes, logical, started, incarnation, calls⟩ :=
    canvass.exchange inside apart lower concedes found
  obtain ⟨absent, distinct⟩ := List.nodup_cons.mp canvass.distinct
  have here : σ'.nodes s = _ := (congrFun nodes s).trans (Function.update_self ..)
  have voter : σ'.nodes i = (σ.nodes i).voted args.term s := by
    rw [nodes, Function.update_of_ne apart, Function.update_self]
  have others {j : Fin n} (other : j ≠ i) (other' : j ≠ s) : σ'.nodes j = σ.nodes j := by
    rw [nodes, Function.update_of_ne other', Function.update_of_ne other]
  have term : (σ'.nodes s).currentTerm = args.term := by
    rw [here, canvass.term]
    split <;> rfl
  have same : SameLogs σ σ' := by
    refine ⟨fun j => ?_, fun j => ?_, logical, started⟩
    all_goals
      by_cases mine : j = s
      · rw [mine, here]
        split <;> rfl
      · by_cases asked : j = i
        · rw [asked, voter]
          rfl
        · rw [others asked mine]
  have bound : ∀ j ∈ quorum, (σ'.nodes j).currentTerm ≤ args.term := by
    intro j member
    by_cases mine : j = s
    · rw [mine, term]
    · by_cases asked : j = i
      · rw [asked, voter]
        exact Nat.le_refl _
      · rw [others asked mine]
        exact canvass.bound j member
  refine ⟨σ', reaches, same, ?_⟩
  by_cases decided : n / 2 < votes + 1
  · rw [if_pos decided] at here
    refine Or.inl ⟨canvass.member, ?_, ?_, ?_, ?_⟩
    · rw [here]
      rfl
    · rw [term]
      exact bound
    · rw [here]
      rfl
    · rw [here]
      rfl
  · rw [if_neg decided] at here
    refine Or.inr ⟨canvass.member, canvass.candidateId, ?_, term.symm, ?_, by omega, ?_, distinct,
      bound, ?_⟩
    · rw [here]
      exact canvass.stands
    · rw [here]
      simp only [Raft.tallied, Function.update_self, canvass.ballot]
    · have enough := canvass.enough
      rw [List.length_cons] at enough
      omega
    · intro j member
      obtain ⟨inside', apart', lower', concedes', k', found'⟩ :=
        canvass.asked j (List.mem_cons_of_mem _ member)
      have other : j ≠ i := fun equal => absent (equal ▸ member)
      refine ⟨inside', apart', ?_, ?_, k', ?_⟩
      · rw [others other apart']
        exact lower'
      · rw [others other apart']
        exact concedes'
      · -- the call to `j` is not the one to `i`
        have elsewhere : k ≠ k' := by
          rintro rfl
          rw [found] at found'
          exact other (congrArg Call.dst (Option.some.inj found')).symm
        rw [calls, incarnation, List.getElem?_set_ne elsewhere]
        exact found'

theorem Canvass.wins {s : Fin n} {args : RequestVoteArgs n} {votes : Nat} {rest : List (Fin n)}
    (canvass : Canvass quorum s args votes rest σ) :
    ∃ σ', Reaches quorum σ σ' ∧ SameLogs σ σ' ∧ Leads quorum s σ' := by
  induction rest generalizing σ votes with
  | nil =>
    have enough := canvass.enough
    have short := canvass.short
    rw [List.length_nil] at enough
    omega
  | cons i rest ih =>
    obtain ⟨middle, reaches, same, leads | canvass⟩ := canvass.vote
    · exact ⟨middle, reaches, same, leads⟩
    · obtain ⟨σ', later, same', leads⟩ := ih canvass
      exact ⟨σ', reaches.trans later, same.trans same', leads⟩

/-- Some server of the quorum has a log that no other refuses. -/
theorem most_recent (kept : σ.Kept) (some_ : quorum.Nonempty) :
    ∃ s ∈ quorum, ∃ t, (σ.nodes s).lastLogTerm = some t ∧
      ∀ i ∈ quorum, ∀ args : RequestVoteArgs n, args.lastLogTerm = t →
        args.lastLogIndex = (σ.nodes s).lastLogIndex → (σ.nodes i).Concedes args := by
  obtain ⟨s, member, latest⟩ := Finset.exists_max_image quorum
    (fun i => toLex ((σ.nodes i).lastLogTerm.getD 0, (σ.nodes i).lastLogIndex)) some_
  obtain ⟨t, last⟩ := Raft.lastLogTerm_inside (kept.log_nonempty s)
  refine ⟨s, member, t, last, fun i other args term index => ?_⟩
  obtain ⟨u, last'⟩ := Raft.lastLogTerm_inside (kept.log_nonempty i)
  have order := Prod.Lex.le_iff.mp (latest i other)
  rw [last, last'] at order
  refine ⟨u, last', ?_⟩
  rw [term, index]
  rcases order with lower | ⟨equal, within⟩
  · exact Or.inl lower
  · exact Or.inr ⟨equal.symm, within⟩

/-- A majority of two or more elects the server with the most recent log. -/
theorem elects (kept : σ.Kept) (majority : n < 2 * quorum.card) (several : 1 < n) :
    ∃ s σ', Reaches quorum σ σ' ∧ SameLogs σ σ' ∧ Leads quorum s σ' := by
  obtain ⟨s, member, t, last, concede⟩ :=
    most_recent kept (Finset.card_pos.mp (by omega : 0 < quorum.card))
  obtain ⟨middle, reaches, same, others, high⟩ :=
    raises_term kept member (quorum.sup fun i => (σ.nodes i).currentTerm)
  obtain ⟨u, last', stands⟩ := startElection_stands (kept.reaches reaches) s
  have equal : u = t := by
    have unchanged : (middle.nodes s).lastLogTerm = (σ.nodes s).lastLogTerm :=
      congrArg (fun log => log.getLast?.map (·.term)) (same.log s)
    exact Option.some.inj (last'.symm.trans (unchanged.trans last))
  have index := Raft.lastLogIndex_congr (same.log s) (same.compacted s)
  have moved : middle.step (.startElection s) = some (middle.startElection s) := rfl
  let args : RequestVoteArgs n :=
    { term := (middle.nodes s).currentTerm + 1, candidateId := s,
      lastLogIndex := (middle.nodes s).lastLogIndex, lastLogTerm := u }
  let after : Cluster n C :=
    { middle.setNode s ((middle.nodes s).standing s) with
      voteCalls := middle.voteCalls ++ middle.requests s args }
  rw [stands] at moved
  have here : after.nodes s = (middle.nodes s).standing s := Function.update_self ..
  have apart {i : Fin n} (other : i ≠ s) : after.nodes i = σ.nodes i :=
    (Function.update_of_ne other ..).trans (others i other)
  have lower : ∀ i ∈ quorum, (σ.nodes i).currentTerm ≤ (middle.nodes s).currentTerm :=
    fun i inside => (Finset.le_sup (f := fun i => (σ.nodes i).currentTerm) inside).trans high
  have canvass : Canvass quorum s args 1 (quorum.erase s).toList after := by
    refine ⟨member, rfl, ?_, ?_, ?_, by omega, ?_, Finset.nodup_toList _, fun i inside => ?_,
      fun i inside => ?_⟩
    · rw [here]
      rfl
    · rw [here]
      rfl
    · rw [here]
      exact Function.update_self ..
    · rw [Finset.length_toList, Finset.card_erase_of_mem member]
      omega
    · by_cases mine : i = s
      · rw [mine, here]
        exact Nat.le_refl _
      · rw [apart mine]
        exact (lower i inside).trans (Nat.le_succ _)
    · obtain ⟨mine, inside⟩ := Finset.mem_erase.mp (Finset.mem_toList.mp inside)
      rw [apart mine]
      refine ⟨inside, mine, Nat.lt_succ_of_le (lower i inside),
        concede i inside args equal index, ?_⟩
      refine List.getElem?_of_mem (List.mem_append_right _ (List.mem_map.mpr ⟨i, ?_, rfl⟩))
      exact List.mem_filter.mpr ⟨List.mem_finRange i, decide_eq_true mine⟩
  obtain ⟨σ', later, same', leads⟩ := canvass.wins
  have stood : SameLogs middle after := .setNode rfl rfl rfl rfl rfl
  exact ⟨s, σ', (reaches.tail ⟨.startElection s, ⟨rfl, member⟩, moved⟩).trans later,
    (same.trans stood).trans same', leads⟩

end Cluster

/-- A server without peers: it has nobody to ask for a vote, and a vote is only counted
when a reply brings it. -/
structure Lone (σ : Cluster 1 C) : Prop where
  votes : σ.voteCalls = []
  appends : σ.appendCalls = []
  snapshots : σ.snapshotCalls = []
  follows : ∀ s, (σ.nodes s).state ≠ .leader
  started : σ.started = []

namespace Lone

variable {σ σ' : Cluster 1 C}

theorem setNode (lone : Lone σ) {s : Fin 1} {rf : Raft 1 C}
    (nodes : σ'.nodes = Function.update σ.nodes s rf) (follows : rf.state ≠ .leader)
    (votes : σ'.voteCalls = σ.voteCalls) (appends : σ'.appendCalls = σ.appendCalls)
    (snapshots : σ'.snapshotCalls = σ.snapshotCalls) (started : σ'.started = σ.started) :
    Lone σ' := by
  refine ⟨votes.trans lone.votes, appends.trans lone.appends, snapshots.trans lone.snapshots,
    fun i => ?_, started.trans lone.started⟩
  rw [nodes, Subsingleton.elim i s, Function.update_self]
  exact follows

theorem restart (lone : Lone σ) (s : Fin 1) (persister : Persister 1 C) :
    Lone (σ.restart s persister) :=
  lone.setNode rfl (by rw [make_state]; exact fun leads => by cases leads) rfl rfl rfl rfl

theorem step (lone : Lone σ) {action : Action 1 C} (moved : σ.step action = some σ') :
    Lone σ' := by
  -- there is no call to handle, and no reply to wait for
  have none {Args Reply : Type} {calls : List (Call 1 Args Reply)} {k : Nat}
      {call : Call 1 Args Reply} (empty : calls = []) (found : calls[k]? = some call) : False := by
    rw [empty] at found
    cases found
  have still (s : Fin 1) := lone.follows s
  cases action with
  | startElection s =>
    rw [← Option.some.inj moved]
    rcases Raft.startElection_cases s (σ.nodes s) with died | ⟨_, _, stands⟩
    · simp only [Cluster.startElection, died]
      exact lone.restart s _
    · simp only [Cluster.startElection, stands]
      have nobody : (List.finRange 1).filter (· ≠ s) = [] :=
        List.filter_eq_nil_iff.mpr fun i _ apart =>
          of_decide_eq_true apart (Subsingleton.elim i s)
      refine lone.setNode rfl (fun leads => by cases leads) ?_ rfl rfl rfl
      rw [nobody, List.map_nil, List.append_nil]
  | handleRequestVote k =>
    obtain ⟨_, found, _⟩ := Cluster.handleRequestVote_cases moved
    exact (none lone.votes found).elim
  | receiveRequestVote k =>
    obtain ⟨_, _, found, _⟩ := Cluster.receiveRequestVote_cases moved
    exact (none lone.votes found).elim
  | replicateToFollower s follower =>
    obtain ⟨apart, _⟩ := Cluster.replicateToFollower_cases moved
    exact absurd (Subsingleton.elim s follower) apart
  | handleAppendEntries k =>
    obtain ⟨_, found, _⟩ := Cluster.handleAppendEntries_cases moved
    exact (none lone.appends found).elim
  | receiveAppendEntries k =>
    obtain ⟨_, _, found, _⟩ := Cluster.receiveAppendEntries_cases moved
    exact (none lone.appends found).elim
  | handleInstallSnapshot k =>
    obtain ⟨_, found, _⟩ := Cluster.handleInstallSnapshot_cases moved
    exact (none lone.snapshots found).elim
  | receiveInstallSnapshot k =>
    obtain ⟨_, _, found, _⟩ := Cluster.receiveInstallSnapshot_cases moved
    exact (none lone.snapshots found).elim
  | start s command =>
    rw [← Option.some.inj moved]
    rcases Cluster.start_cases σ s command with same | ⟨leads, _⟩
    · rw [same]
      exact lone
    · exact absurd leads (still s)
  | snapshot s index data =>
    obtain ⟨_, rfl⟩ := Cluster.snapshot_inversion moved
    rcases Raft.snapshot_cases (σ.nodes s) index data with same | died | ⟨_, _, done⟩
    · rw [same]
      exact lone.setNode rfl (still s) rfl rfl rfl rfl
    · rw [died]
      exact lone.restart s _
    · rw [done]
      exact lone.setNode rfl (still s) rfl rfl rfl rfl
  | applierRead s =>
    rcases Cluster.applierRead_inversion moved with
      rfl | ⟨_, _, _, _, rfl⟩ | ⟨_, _, _, _, _, rfl⟩
    · exact lone.restart s _
    · exact lone.setNode rfl (still s) rfl rfl rfl rfl
    · exact lone.setNode rfl (still s) rfl rfl rfl rfl
  | applierSend s =>
    obtain ⟨_, _, rfl⟩ := Cluster.applierSend_inversion moved
    exact lone.setNode rfl (still s) rfl rfl rfl rfl
  | applierAck s =>
    obtain ⟨_, _, _, _, rfl⟩ := Cluster.applierAck_inversion moved
    exact lone.setNode rfl (still s) rfl rfl rfl rfl
  | crash s =>
    rw [← Option.some.inj moved]
    exact lone.restart s _

end Lone

/-- A cluster of one server never has a leader, and no command is ever started. -/
theorem lone_server_never_leads {trace : List (Cluster 1 C)} (run : Cluster.Run trace) :
    ∀ σ ∈ trace, (∀ s, (σ.nodes s).state ≠ .leader) ∧ σ.started = [] := by
  have lone : ∀ σ ∈ trace, Lone σ := by
    refine run.invariant ⟨rfl, rfl, rfl, fun s => ?_, rfl⟩ fun _ _ _ _ moved lone => lone.step moved
    exact fun leads => by cases leads
  exact fun σ member => ⟨(lone σ member).follows, (lone σ member).started⟩

theorem lone_server_never_leads_stands :
    ∃ trace : List (Cluster 1 Nat), Cluster.Run trace ∧ ∃ σ ∈ trace,
      (σ.nodes 0).currentTerm = 2 ∧ (σ.nodes 0).state ≠ .leader ∧ σ.started = [] := by
  obtain ⟨trace, run, _, last⟩ := Cluster.run_through (n := 1) (C := Nat)
    [.startElection 0, .start 0 (some 7)] [.crash 0, .startElection 0] (by decide) (by decide)
  obtain ⟨follows, idle⟩ := lone_server_never_leads run _ last
  exact ⟨trace, run, _, last, by decide, follows 0, idle⟩

end KvStore
