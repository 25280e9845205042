import KvStore.Raft.Cluster

set_option autoImplicit false

/-! What each action of the cluster can do, guards included. -/

namespace KvStore

namespace Cluster

variable {n : Nat} {C : Type} {σ σ' : Cluster n C} {k : Nat}

@[simp] theorem settle_appendCalls (σ : Cluster n C) (s : Fin n)
    (result : Except (Raft n C) (Raft n C)) : (σ.settle s result).appendCalls = σ.appendCalls := by
  cases result <;> rfl

@[simp] theorem settle_snapshotCalls (σ : Cluster n C) (s : Fin n)
    (result : Except (Raft n C) (Raft n C)) :
    (σ.settle s result).snapshotCalls = σ.snapshotCalls := by
  cases result <;> rfl

@[simp] theorem settle_applied (σ : Cluster n C) (s : Fin n)
    (result : Except (Raft n C) (Raft n C)) : (σ.settle s result).applied = σ.applied := by
  cases result <;> rfl

theorem handleCall_cases {Args Reply : Type} {calls : List (Call n Args Reply)}
    {handler : Call n Args Reply → Except (Raft n C) (Raft n C × Reply)}
    {replied : Call n Args Reply → Raft n C → Reply → Cluster n C}
    {died : Call n Args Reply → Raft n C → Cluster n C}
    (moved : handleCall calls k handler replied died = some σ') :
    ∃ call, calls[k]? = some call ∧ call.status = .sent ∧
      ((∃ rf reply, handler call = .ok (rf, reply) ∧ σ' = replied call rf reply) ∨
        ∃ rf, handler call = .error rf ∧ σ' = died call rf) := by
  obtain ⟨call, found, rest⟩ := Option.bind_eq_some_iff.mp moved
  refine ⟨call, found, ?_⟩
  split at rest
  · rename_i sent
    refine ⟨sent, ?_⟩
    split at rest
    · rename_i rf reply done
      exact Or.inl ⟨rf, reply, done, (Option.some.inj rest).symm⟩
    · rename_i rf dies
      exact Or.inr ⟨rf, dies, (Option.some.inj rest).symm⟩
  · cases rest

theorem receiveReply_cases {Args Reply : Type} {calls : List (Call n Args Reply)}
    {received : Call n Args Reply → Reply → Cluster n C}
    (moved : σ.receiveReply calls k received = some σ') :
    ∃ call reply, calls[k]? = some call ∧ call.status = .replied reply ∧
      call.incarnation = σ.incarnation call.src ∧ σ' = received call reply := by
  obtain ⟨call, found, rest⟩ := Option.bind_eq_some_iff.mp moved
  split at rest
  · rename_i reply replied
    split at rest
    · rename_i alive
      exact ⟨call, reply, found, replied, alive, (Option.some.inj rest).symm⟩
    · cases rest
  · cases rest

theorem handleRequestVote_cases (moved : σ.handleRequestVote k = some σ') :
    ∃ call, σ.voteCalls[k]? = some call ∧ call.status = .sent ∧
      ((∃ rf reply, (σ.nodes call.dst).requestVote call.args = .ok (rf, reply) ∧
        σ' = { σ.setNode call.dst rf with
          voteCalls := σ.voteCalls.set k { call with status := .replied reply } }) ∨
      (∃ rf, (σ.nodes call.dst).requestVote call.args = .error rf ∧
        σ' = { σ.restart call.dst rf.persister with
          voteCalls := σ.voteCalls.set k { call with status := .lost } })) :=
  handleCall_cases moved

theorem receiveRequestVote_cases (moved : σ.receiveRequestVote k = some σ') :
    ∃ call reply, σ.voteCalls[k]? = some call ∧ call.status = .replied reply ∧
      call.incarnation = σ.incarnation call.src ∧
      σ' = { σ.setNode call.src ((σ.nodes call.src).onRequestVoteReply call.args reply) with
        voteCalls := σ.voteCalls.set k { call with status := .received reply } } :=
  receiveReply_cases moved

theorem handleAppendEntries_cases (moved : σ.handleAppendEntries k = some σ') :
    ∃ call, σ.appendCalls[k]? = some call ∧ call.status = .sent ∧
      ((∃ rf reply, (σ.nodes call.dst).appendEntries call.args = .ok (rf, reply) ∧
        σ' = { (σ.setNode call.dst rf).setLogical call.dst (relog (σ.logical call.dst) rf) with
          appendCalls := σ.appendCalls.set k { call with status := .replied reply } }) ∨
      (∃ rf, (σ.nodes call.dst).appendEntries call.args = .error rf ∧
        σ' = { σ.restart call.dst rf.persister with
          appendCalls := σ.appendCalls.set k { call with status := .lost } })) :=
  handleCall_cases moved

theorem receiveAppendEntries_cases (moved : σ.receiveAppendEntries k = some σ') :
    ∃ call reply, σ.appendCalls[k]? = some call ∧ call.status = .replied reply ∧
      call.incarnation = σ.incarnation call.src ∧
      σ' = { σ.settle call.src
          ((σ.nodes call.src).onAppendEntriesReply call.src call.dst call.args reply) with
        appendCalls := σ.appendCalls.set k { call with status := .received reply } } :=
  receiveReply_cases moved

/-- The logical log once the peer has handled an `InstallSnapshot`. -/
def relogInstalled (logical covered : List (LogEntry C)) (before after : Raft n C) :
    List (LogEntry C) :=
  if before.lastIncludedIndex < after.lastIncludedIndex then covered ++ after.log.tail else logical

theorem handleInstallSnapshot_cases (moved : σ.handleInstallSnapshot k = some σ') :
    ∃ call, σ.snapshotCalls[k]? = some call ∧ call.status = .sent ∧
      ∃ after reply, (σ.nodes call.dst).installSnapshot call.args.request = (after, reply) ∧
        σ' = { (σ.setNode call.dst after).setLogical call.dst
            (relogInstalled (σ.logical call.dst) call.args.covered (σ.nodes call.dst) after) with
          snapshotCalls := σ.snapshotCalls.set k { call with status := .replied reply } } := by
  obtain ⟨call, found, rest⟩ := Option.bind_eq_some_iff.mp moved
  refine ⟨call, found, ?_⟩
  split at rest
  · rename_i sent
    exact ⟨sent, _, _, rfl, (Option.some.inj rest).symm⟩
  · cases rest

theorem receiveInstallSnapshot_cases (moved : σ.receiveInstallSnapshot k = some σ') :
    ∃ call reply, σ.snapshotCalls[k]? = some call ∧ call.status = .replied reply ∧
      call.incarnation = σ.incarnation call.src ∧
      σ' = { σ.settle call.src ((σ.nodes call.src).onInstallSnapshotReply call.src call.dst
          call.args.request reply) with
        snapshotCalls := σ.snapshotCalls.set k { call with status := .received reply } } :=
  receiveReply_cases moved

theorem replicateToFollower_cases {server follower : Fin n}
    (moved : σ.replicateToFollower server follower = some σ') :
    server ≠ follower ∧ (σ.nodes server).state = .leader ∧
      ((∃ rf, ((σ.nodes server).newInstallSnapshotArgs server = .error rf ∨
            (σ.nodes server).newAppendEntriesArgsFor server follower = .error rf) ∧
          σ' = σ.restart server rf.persister) ∨
      (∃ request, (σ.nodes server).newInstallSnapshotArgs server = .ok request ∧
        σ' = { σ with
          snapshotCalls := σ.snapshotCalls ++
            [{ src := server, dst := follower, incarnation := σ.incarnation server,
               args := { request, covered :=
                (σ.logical server).take ((σ.nodes server).lastIncludedIndex + 1) },
               status := .sent }] }) ∨
      (∃ args, (σ.nodes server).lastIncludedIndex < (σ.nodes server).nextIndex follower ∧
        (σ.nodes server).newAppendEntriesArgsFor server follower = .ok args ∧
        σ' = { σ with
          appendCalls := σ.appendCalls ++
            [{ src := server, dst := follower, incarnation := σ.incarnation server, args,
               status := .sent }] })) := by
  unfold replicateToFollower at moved
  dsimp only at moved
  split at moved
  · cases moved
  rename_i valid
  rw [not_or, not_not] at valid
  refine ⟨valid.1, valid.2, ?_⟩
  split at moved
  · split at moved
    · rename_i rf died
      exact Or.inl ⟨rf, Or.inl died, (Option.some.inj moved).symm⟩
    · rename_i request built
      exact Or.inr (Or.inl ⟨request, built, (Option.some.inj moved).symm⟩)
  · rename_i retained
    split at moved
    · rename_i rf died
      exact Or.inl ⟨rf, Or.inr died, (Option.some.inj moved).symm⟩
    · rename_i args built
      exact Or.inr (Or.inr ⟨args, Nat.lt_of_not_le retained, built, (Option.some.inj moved).symm⟩)

theorem start_cases (σ : Cluster n C) (server : Fin n) (command : Option C) :
    σ.start server command = σ ∨
      (σ.nodes server).state = .leader ∧
        let entry := { term := (σ.nodes server).currentTerm, command }
        let rf := Raft.persist { σ.nodes server with log := (σ.nodes server).log ++ [entry] }
        σ.start server command =
          { (σ.setNode server rf).setLogical server (σ.logical server ++ [entry]) with
            started := (server, rf.lastLogIndex, rf.currentTerm, command) :: σ.started } := by
  unfold start Raft.start
  by_cases leads : (σ.nodes server).state = .leader
  · exact Or.inr ⟨leads, by simp only [leads, ↓reduceIte, Int.toNat_natCast]⟩
  · exact Or.inl (by simp [leads])

theorem snapshot_inversion {server : Fin n} {index : Nat} {data : Bytes}
    (moved : σ.snapshot server index data = some σ') :
    index ≤ σ.delivered server ∧
      σ' = σ.settle server ((σ.nodes server).snapshot index data) := by
  unfold snapshot at moved
  split at moved
  · exact ⟨‹_›, (Option.some.inj moved).symm⟩
  · cases moved

/-- No process dies of a `Start`, and none is handed anything. -/
theorem start_lives (σ : Cluster n C) (server : Fin n) (command : Option C) :
    (σ.start server command).incarnation = σ.incarnation ∧
      (σ.start server command).delivered = σ.delivered := by
  rcases start_cases σ server command with same | ⟨_, done⟩
  · rw [same]
    exact ⟨rfl, rfl⟩
  · rw [done]
    exact ⟨rfl, rfl⟩

theorem applierSend_inversion {server : Fin n} (moved : σ.applierSend server = some σ') :
    ∃ msg, (σ.nodes server).applier = .sending msg ∧
      σ' = { σ.setNode server { σ.nodes server with applier := .sent msg } with
        delivered := Function.update σ.delivered server msg.index
        applied := (server, msg) :: σ.applied } := by
  unfold applierSend at moved
  split at moved
  · rename_i msg sending
    exact ⟨msg, sending, (Option.some.inj moved).symm⟩
  · cases moved

theorem applierAck_inversion {server : Fin n} (moved : σ.applierAck server = some σ') :
    ∃ msg applied, (σ.nodes server).applier = .sent msg ∧
      (applied = msg.index ∨ ∃ command index,
        msg = .command command index ∧ applied = (σ.nodes server).lastApplied + 1) ∧
      σ' = σ.setNode server { σ.nodes server with lastApplied := applied, applier := .idle } := by
  obtain ⟨rf, acked, rfl⟩ := Option.map_eq_some_iff.mp moved
  unfold Raft.applierAck at acked
  split at acked
  · rename_i command index sent
    exact ⟨_, _, sent, Or.inr ⟨command, index, rfl, rfl⟩, by rw [← Option.some.inj acked]⟩
  · rename_i sent
    exact ⟨_, _, sent, Or.inl rfl, by rw [← Option.some.inj acked]; rfl⟩
  · cases acked

/-- What no action undoes: processes only die, and deliveries stay on record. -/
structure Grown (σ σ' : Cluster n C) : Prop where
  incarnation : ∀ s, σ.incarnation s ≤ σ'.incarnation s
  applied : σ.applied ⊆ σ'.applied

theorem Grown.refl (σ : Cluster n C) : Grown σ σ := ⟨fun _ => le_rfl, List.Subset.refl _⟩

theorem Grown.trans {σ'' : Cluster n C} (first : Grown σ σ') (second : Grown σ' σ'') :
    Grown σ σ'' :=
  ⟨fun s => (first.incarnation s).trans (second.incarnation s),
    List.Subset.trans first.applied second.applied⟩

theorem restart_incarnation_le (σ : Cluster n C) (server : Fin n) (persister : Persister n C)
    (s : Fin n) : σ.incarnation s ≤ (σ.restart server persister).incarnation s := by
  by_cases same : s = server
  · subst same
    simp only [restart, Function.update_self]
    omega
  · simp only [restart, Function.update_of_ne same, le_refl]

theorem settle_incarnation_le (σ : Cluster n C) (server : Fin n)
    (result : Except (Raft n C) (Raft n C)) (s : Fin n) :
    σ.incarnation s ≤ (σ.settle server result).incarnation s := by
  cases result with
  | ok rf => exact le_rfl
  | error rf => exact restart_incarnation_le σ server rf.persister s

theorem step_grown {action : Action n C} (moved : σ.step action = some σ') : Grown σ σ' := by
  have still := Grown.refl σ
  have died : ∀ server persister, Grown σ (σ.restart server persister) := fun server persister =>
    ⟨restart_incarnation_le σ server persister, List.Subset.refl _⟩
  have settled : ∀ server result, Grown σ (σ.settle server result) := fun server result =>
    ⟨settle_incarnation_le σ server result, by rw [settle_applied]; exact List.Subset.refl _⟩
  cases action with
  | startElection server =>
    rw [← Option.some.inj moved]
    unfold startElection
    split
    · exact died _ _
    · exact ⟨still.incarnation, still.applied⟩
  | handleRequestVote k =>
    obtain ⟨call, _, _, ⟨rf, reply, _, rfl⟩ | ⟨rf, _, rfl⟩⟩ := handleRequestVote_cases moved
    · exact ⟨still.incarnation, still.applied⟩
    · exact ⟨(died _ rf.persister).incarnation, still.applied⟩
  | receiveRequestVote k =>
    obtain ⟨call, reply, _, _, _, rfl⟩ := receiveRequestVote_cases moved
    exact ⟨still.incarnation, still.applied⟩
  | replicateToFollower server follower =>
    obtain ⟨_, _, ⟨rf, _, rfl⟩ | ⟨_, _, rfl⟩ | ⟨_, _, _, rfl⟩⟩ := replicateToFollower_cases moved
    · exact died _ _
    · exact ⟨still.incarnation, still.applied⟩
    · exact ⟨still.incarnation, still.applied⟩
  | handleAppendEntries k =>
    obtain ⟨call, _, _, ⟨rf, reply, _, rfl⟩ | ⟨rf, _, rfl⟩⟩ := handleAppendEntries_cases moved
    · exact ⟨still.incarnation, still.applied⟩
    · exact ⟨(died _ rf.persister).incarnation, still.applied⟩
  | receiveAppendEntries k =>
    obtain ⟨call, reply, _, _, _, rfl⟩ := receiveAppendEntries_cases moved
    exact ⟨(settled _ _).incarnation, (settled _ _).applied⟩
  | handleInstallSnapshot k =>
    obtain ⟨call, _, _, after, reply, _, rfl⟩ := handleInstallSnapshot_cases moved
    exact ⟨still.incarnation, still.applied⟩
  | receiveInstallSnapshot k =>
    obtain ⟨call, reply, _, _, _, rfl⟩ := receiveInstallSnapshot_cases moved
    exact ⟨(settled _ _).incarnation, (settled _ _).applied⟩
  | start server command =>
    rw [← Option.some.inj moved]
    rcases start_cases σ server command with same | ⟨_, done⟩
    · rw [same]
      exact still
    · rw [done]
      exact ⟨still.incarnation, still.applied⟩
  | snapshot server index data =>
    obtain ⟨_, rfl⟩ := snapshot_inversion moved
    exact settled _ _
  | applierRead server =>
    simp only [step, applierRead] at moved
    split at moved
    · exact Option.some.inj moved ▸ died _ _
    · cases moved
    · exact Option.some.inj moved ▸ ⟨still.incarnation, still.applied⟩
  | applierSend server =>
    obtain ⟨msg, _, rfl⟩ := applierSend_inversion moved
    exact ⟨still.incarnation, List.subset_cons_self _ _⟩
  | applierAck server =>
    obtain ⟨msg, applied, _, _, rfl⟩ := applierAck_inversion moved
    exact ⟨still.incarnation, still.applied⟩
  | crash server => exact Option.some.inj moved ▸ died _ _

end Cluster

end KvStore
