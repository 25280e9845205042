import KvStore.Raft.Placement

set_option autoImplicit false

/-! Whatever a peer delivers was accepted by a leader, at the index it is delivered at. -/

namespace KvStore

variable {n : Nat} {C : Type}

namespace Cluster

/-- `Start` has accepted the command and returned the index. -/
def StartedAt (σ : Cluster n C) (command : Option C) (index : Nat) : Prop :=
  ∃ s t, (s, index, t, command) ∈ σ.started

/-- So has every command but the one that every log starts with. -/
def Begun (σ : Cluster n C) (command : Option C) (index : Nat) : Prop :=
  0 < index → σ.StartedAt command index

variable {σ σ' : Cluster n C}

theorem Begun.mono (more : σ.started ⊆ σ'.started) (command : Option C) (index : Nat)
    (begun : σ.Begun command index) : σ'.Begun command index := by
  intro positive
  obtain ⟨s, t, record⟩ := begun positive
  exact ⟨s, t, more record⟩

theorem step_started_grown {action : Action n C} (moved : σ.step action = some σ') :
    σ.started ⊆ σ'.started := by
  rcases step_started moved with same | ⟨s, command, -, rfl⟩
  · rw [same]
    exact List.Subset.refl _
  · rcases start_cases σ s command with same | ⟨_, done⟩
    · rw [same]
      exact List.Subset.refl _
    · rw [done]
      exact List.subset_cons_self _ _

/-- Only the applier's send adds a delivery, and it adds the message in flight. -/
theorem step_applied {action : Action n C} (regular : σ.Regular) (moved : σ.step action = some σ') :
    σ'.applied = σ.applied ∨ ∃ s msg, (σ.nodes s).applier = .sending msg ∧
      σ'.applied = (s, msg) :: σ.applied := by
  by_cases asked : ∃ s, action = .applierSend s
  · obtain ⟨s, rfl⟩ := asked
    obtain ⟨msg, sending, rfl⟩ := applierSend_inversion moved
    exact Or.inr ⟨s, msg, sending, rfl⟩
  · left
    rcases Nat.eq_zero_or_pos n with rfl | servers
    · -- without servers there are no deliveries
      have none (applied : List (Fin 0 × ApplyMsg C)) : applied = [] :=
        List.eq_nil_iff_forall_not_mem.mpr fun record _ => record.1.elim0
      rw [none σ.applied, none σ'.applied]
    · cases regular.delivery moved ⟨0, servers⟩ with
      | turned _ _ _ applied =>
        rcases applied with same | ⟨other, _, _, sent, _⟩
        · exact same
        · exact absurd ⟨other, sent⟩ asked
      | sent _ sent => exact absurd ⟨_, sent⟩ asked
      | died _ _ _ _ applied => exact applied

/-- Every command in a log, in a request, in flight or delivered has been accepted at
its index. -/
structure Filed (σ : Cluster n C) : Prop where
  regular : σ.Regular
  placed : σ.Placed σ.Begun
  applied : ∀ record ∈ σ.applied, MsgAt σ.Begun record.2

theorem Filed.init (n : Nat) (C : Type) : (Cluster.init n C).Filed where
  regular := .init n C
  placed := .init fun positive => absurd positive (Nat.lt_irrefl 0)
  applied := nofun

/-- `Start` returns the first index past the log. -/
theorem start_startedAt {σ : Cluster n C} (regular : σ.Regular) {s : Fin n}
    (leads : (σ.nodes s).state = .leader) (command : Option C) :
    (σ.start s command).StartedAt command (σ.logical s).length := by
  obtain ⟨core, rel⟩ := regular.related
  have whole := (rel.nodes s).slice.length
  refine ⟨s, ((σ.nodes s).start command).2.term.toNat, ?_⟩
  have index : ((σ.nodes s).start command).2.index.toNat = (σ.logical s).length := by
    simp only [Raft.start, leads, ↓reduceIte, Raft.lastLogIndex, Raft.persist, List.length_append,
      List.length_singleton]
    omega
  have accepted : ((σ.nodes s).start command).2.isLeader = true := by
    simp only [Raft.start, leads, ↓reduceIte]
  simp only [Cluster.start, accepted, ↓reduceIte]
  rw [← index]
  exact List.mem_cons_self ..

theorem Filed.step (filed : σ.Filed) {action : Action n C} (moved : σ.step action = some σ') :
    σ'.Filed := by
  have more := step_started_grown moved
  refine ⟨filed.regular.step moved, ?_, ?_⟩
  · refine (filed.placed.mono (Begun.mono more)).step filed.regular moved ?_
    rintro s command rfl leads -
    obtain rfl := Option.some.inj moved
    exact start_startedAt filed.regular leads command
  · intro record member
    rcases step_applied filed.regular moved with same | ⟨s, msg, sending, same⟩
    · exact (filed.applied record (same ▸ member)).mono (Begun.mono more)
    · rw [same] at member
      rcases List.mem_cons.mp member with rfl | earlier
      · exact (filed.placed.flight s msg sending).mono (Begun.mono more)
      · exact (filed.applied record earlier).mono (Begun.mono more)

theorem Filed.delivered {σ : Cluster n C} (filed : σ.Filed) {s : Fin n} {command : Option C}
    {index : Nat} (delivered : (s, .command command index) ∈ σ.applied) :
    σ.StartedAt command index := by
  obtain ⟨positive, begun⟩ := filed.applied _ delivered
  exact begun positive

end Cluster

/-- Validity: whatever a peer delivers at an index, a leader has accepted from its own
service under that index before. -/
theorem delivered_was_started {trace : List (Cluster n C)} (run : Cluster.Run trace) :
    ∀ σ ∈ trace, ∀ s command index, (s, .command command index) ∈ σ.applied →
      ∃ leader term, (leader, index, term, command) ∈ σ.started := by
  have filed : ∀ σ ∈ trace, σ.Filed :=
    run.invariant (.init n C) fun _ _ _ _ moved filed => filed.step moved
  intro σ member s command index delivered
  exact (filed σ member).delivered delivered

/-- A nil command is started and delivered like any other. -/
theorem delivered_was_started_replicated :
    ∃ trace : List (Cluster 3 Nat), Cluster.Run trace ∧ ∃ σ ∈ trace,
      ((0, .command (some 7) 1) ∈ σ.applied ∧
        ∃ leader term, (leader, 1, term, some 7) ∈ σ.started) ∧
      (0, .command none 2) ∈ σ.applied ∧ ∃ leader term, (leader, 2, term, none) ∈ σ.started := by
  obtain ⟨trace, run, _, last⟩ := Cluster.run_through (replicatedOnce : List (Action 3 Nat))
    [.start 0 none, .replicateToFollower 0 2, .handleAppendEntries 1, .receiveAppendEntries 1,
      .applierRead 0, .applierSend 0, .applierAck 0, .applierRead 0, .applierSend 0]
    (by decide) (by decide +kernel)
  have all := delivered_was_started run _ last 0
  refine ⟨trace, run, _, last, ⟨by decide +kernel, all _ _ ?_⟩, by decide +kernel, all _ _ ?_⟩
  · decide +kernel
  · decide +kernel

end KvStore
