import KvStore.Raft.ApplyOrder

set_option autoImplicit false

/-! Where snapshots go: whatever is true of every snapshot the services take stays
true of every snapshot saved, shipped, installed and delivered. -/

namespace KvStore

variable {n : Nat} {C : Type}

theorem make_applier (persister : Persister n C) :
    (Raft.make persister : Raft n C).applier = .idle ∧
      (Raft.make persister : Raft n C).snapshotPending = false := by
  unfold Raft.make Raft.readPersist
  split <;> exact ⟨rfl, rfl⟩

/-- The request ships what an earlier request does, or the snapshot a peer has now. -/
def Cluster.Ships (σ : Cluster n C) (args : Shipment n C) : Prop :=
  (∃ old ∈ σ.snapshotCalls, args = old.args) ∨
    ∃ s, args.request.lastIncludedIndex = (σ.nodes s).lastIncludedIndex ∧
      args.request.data = (σ.nodes s).snapshotData

theorem Cluster.step_shipments {σ σ' : Cluster n C} {action : Action n C}
    (moved : σ.step action = some σ') : ∀ call ∈ σ'.snapshotCalls, σ.Ships call.args := by
  have still : σ'.snapshotCalls = σ.snapshotCalls →
      ∀ call ∈ σ'.snapshotCalls, σ.Ships call.args := by
    intro same call member
    exact Or.inl ⟨call, same ▸ member, rfl⟩
  have marked : ∀ {k : Nat} {call} (status : CallStatus InstallSnapshotReply),
      σ.snapshotCalls[k]? = some call →
      σ'.snapshotCalls = σ.snapshotCalls.set k { call with status } →
      ∀ call ∈ σ'.snapshotCalls, σ.Ships call.args := by
    intro k call status found same other member
    rw [same] at member
    rcases List.mem_or_eq_of_mem_set member with old | rfl
    · exact Or.inl ⟨other, old, rfl⟩
    · exact Or.inl ⟨call, List.mem_of_getElem? found, rfl⟩
  cases action with
  | startElection s =>
    refine still ?_
    rw [← Option.some.inj moved]
    unfold Cluster.startElection
    split <;> rfl
  | handleRequestVote k =>
    obtain ⟨call, _, _, ⟨_, _, _, rfl⟩ | ⟨_, _, rfl⟩⟩ := handleRequestVote_cases moved
    · exact still rfl
    · exact still rfl
  | receiveRequestVote k =>
    obtain ⟨call, reply, _, _, _, rfl⟩ := receiveRequestVote_cases moved
    exact still rfl
  | replicateToFollower s follower =>
    obtain ⟨_, _, outcome⟩ := replicateToFollower_cases moved
    rcases outcome with ⟨_, _, rfl⟩ | ⟨request, built, rfl⟩ | ⟨_, _, _, rfl⟩
    · exact still rfl
    · intro call member
      rcases List.mem_append.mp member with old | new
      · exact Or.inl ⟨call, old, rfl⟩
      · obtain ⟨dummy, _, rfl⟩ := Raft.newInstallSnapshotArgs_ok built
        rw [List.mem_singleton.mp new]
        exact Or.inr ⟨s, rfl, rfl⟩
    · exact still rfl
  | handleAppendEntries k =>
    obtain ⟨call, _, _, ⟨_, _, _, rfl⟩ | ⟨_, _, rfl⟩⟩ := handleAppendEntries_cases moved
    · exact still rfl
    · exact still rfl
  | receiveAppendEntries k =>
    obtain ⟨call, reply, _, _, _, rfl⟩ := receiveAppendEntries_cases moved
    exact still (settle_snapshotCalls ..)
  | handleInstallSnapshot k =>
    obtain ⟨call, found, _, after, reply, _, rfl⟩ := handleInstallSnapshot_cases moved
    exact marked (.replied reply) found rfl
  | receiveInstallSnapshot k =>
    obtain ⟨call, reply, found, _, _, rfl⟩ := receiveInstallSnapshot_cases moved
    exact marked (.received reply) found rfl
  | start s command =>
    refine still ?_
    rw [← Option.some.inj moved]
    rcases start_cases σ s command with same | ⟨_, done⟩
    · rw [same]
    · rw [done]
      rfl
  | snapshot s index data =>
    obtain ⟨_, rfl⟩ := snapshot_inversion moved
    exact still (settle_snapshotCalls ..)
  | applierRead s =>
    simp only [step, applierRead] at moved
    split at moved
    · exact still (Option.some.inj moved ▸ rfl)
    · cases moved
    · exact still (Option.some.inj moved ▸ rfl)
  | applierSend s =>
    obtain ⟨msg, _, rfl⟩ := applierSend_inversion moved
    exact still rfl
  | applierAck s =>
    obtain ⟨msg, applied, _, _, rfl⟩ := applierAck_inversion moved
    exact still rfl
  | crash s => exact still (Option.some.inj moved ▸ rfl)

/-- A peer all of whose snapshots satisfy `P` at their index. A snapshot that does
not exist yet is empty, and the one on disk is the one in memory. -/
structure NodeCarries (P : Bytes → Nat → Prop) (rf : Raft n C) : Prop where
  snapshot : 0 < rf.lastIncludedIndex → P rf.snapshotData rf.lastIncludedIndex
  blank : rf.lastIncludedIndex = 0 → rf.snapshotData = []
  flight : ∀ data term index, rf.applier.InFlight (.snapshot data term index) → P data index
  pending : rf.snapshotPending = true → 0 < rf.lastIncludedIndex
  stored : rf.persister.snapshot = rf.snapshotData

structure Cluster.Carries (P : Bytes → Nat → Prop) (σ : Cluster n C) : Prop where
  nodes : ∀ s, NodeCarries P (σ.nodes s)
  shipped : ∀ call ∈ σ.snapshotCalls, 0 < call.args.request.lastIncludedIndex →
    P call.args.request.data call.args.request.lastIncludedIndex

namespace NodeCarries

variable {P Q : Bytes → Nat → Prop} {rf rf' : Raft n C}

theorem mono (carries : NodeCarries P rf) (weaken : ∀ data index, P data index → Q data index) :
    NodeCarries Q rf :=
  ⟨fun positive => weaken _ _ (carries.snapshot positive), carries.blank,
    fun data term index held => weaken _ _ (carries.flight data term index held),
    carries.pending, carries.stored⟩

theorem init (P : Bytes → Nat → Prop) :
    NodeCarries P (Raft.make { raftstate := none, snapshot := [] } : Raft n C) := by
  refine ⟨nofun, fun _ => rfl, ?_, nofun, rfl⟩
  rintro data term index (flight | flight) <;> cases flight

theorem unmoved (carries : NodeCarries P rf) (same : rf.Unmoved rf') : NodeCarries P rf' := by
  refine ⟨?_, ?_, ?_, ?_, ?_⟩
  · rw [same.lastIncludedIndex, same.snapshotData]
    exact carries.snapshot
  · rw [same.lastIncludedIndex, same.snapshotData]
    exact carries.blank
  · rw [same.applier]
    exact carries.flight
  · rw [same.snapshotPending, same.lastIncludedIndex]
    exact carries.pending
  · rcases same.stored with kept | saved
    · rw [kept, same.snapshotData]
      exact carries.stored
    · exact saved

/-- The peer has a new snapshot, saved at once, and the applier is as it was. -/
theorem replaced (carries : NodeCarries P rf) (applier : rf'.applier = rf.applier)
    (positive : 0 < rf'.lastIncludedIndex) (holds : P rf'.snapshotData rf'.lastIncludedIndex)
    (stored : rf'.persister.snapshot = rf'.snapshotData) : NodeCarries P rf' := by
  refine ⟨fun _ => holds, ?_, ?_, fun _ => positive, stored⟩
  · intro zero
    omega
  · rw [applier]
    exact carries.flight

theorem turn {σ : Cluster n C} {action : Action n C} {s : Fin n} (carries : σ.Carries P)
    (given : ∀ s index data, action = .snapshot s index data → P data index)
    (turn : Turn σ action s rf) : NodeCarries P rf := by
  have before := carries.nodes s
  cases turn with
  | unmoved same => exact before.unmoved same
  | @installed call raised shipped same ahead =>
    obtain ⟨applier, _, _, index, data, _⟩ := raised.installed_effect call.args.request
    have positive : 0 < call.args.request.lastIncludedIndex := Nat.zero_lt_of_lt ahead
    refine before.replaced (applier.trans same.applier) ?_ ?_ rfl
    · exact index ▸ positive
    · change P (raised.installed _).snapshotData (raised.installed _).lastIncludedIndex
      rw [index, data]
      exact carries.shipped call shipped positive
  | cut asked above _ =>
    exact before.replaced rfl (Nat.zero_lt_of_lt above) (given _ _ _ asked) rfl
  | readSnapshot idle pending term =>
    refine ⟨before.snapshot, before.blank, ?_, nofun, before.stored⟩
    rintro data term index (flight | flight)
    · cases flight
      exact before.snapshot (before.pending pending)
    · cases flight
  | readCommand idle calm found =>
    refine ⟨before.snapshot, before.blank, ?_, before.pending, before.stored⟩
    rintro data term index (flight | flight) <;> cases flight
  | acked sent records =>
    refine ⟨before.snapshot, before.blank, ?_, before.pending, before.stored⟩
    rintro data term index (flight | flight) <;> cases flight

end NodeCarries

namespace Cluster.Carries

variable {P Q : Bytes → Nat → Prop} {σ σ' : Cluster n C}

theorem mono (carries : σ.Carries P) (weaken : ∀ data index, P data index → Q data index) :
    σ.Carries Q :=
  ⟨fun s => (carries.nodes s).mono weaken,
    fun call member positive => weaken _ _ (carries.shipped call member positive)⟩

theorem init (P : Bytes → Nat → Prop) : (Cluster.init n C).Carries P :=
  ⟨fun _ => .init P, nofun⟩

/-- One action keeps it, provided the snapshot it takes satisfies `P`. -/
theorem step (carries : σ.Carries P) {action : Action n C} (saved : ∀ s, Saved (σ.nodes s))
    (moved : σ.step action = some σ')
    (given : ∀ s index data, action = .snapshot s index data → P data index) : σ'.Carries P := by
  constructor
  · intro s
    have before := carries.nodes s
    cases Cluster.delivery_step saved moved s with
    | turned turn _ _ _ => exact NodeCarries.turn carries given turn
    | sent msg _ sending after _ _ _ =>
      rw [after]
      refine ⟨before.snapshot, before.blank, ?_, before.pending, before.stored⟩
      rintro data term index (flight | flight)
      · cases flight
      · cases flight
        exact before.flight data term index (Or.inl sending)
    | died persister after _ _ _ index data stored =>
      obtain ⟨idle, calm⟩ := make_applier persister (n := n) (C := C)
      rw [← after] at idle calm
      refine ⟨?_, ?_, ?_, ?_, ?_⟩
      · rw [index, data]
        exact before.snapshot
      · rw [index, data]
        exact before.blank
      · rw [idle]
        rintro data term index (flight | flight) <;> cases flight
      · rw [calm]
        exact nofun
      · rw [data, after, make_persister]
        rcases stored with same | saved
        · rw [same]
          exact before.stored
        · exact saved
  · intro call member positive
    rcases Cluster.step_shipments moved call member with ⟨old, inside, same⟩ | ⟨s, index, data⟩
    · rw [same] at positive ⊢
      exact carries.shipped old inside positive
    · rw [index] at positive
      rw [index, data]
      exact (carries.nodes s).snapshot positive

end Cluster.Carries

/-- What holds of the peers below any service whose snapshots satisfy `P`. -/
structure Cluster.Grounded (P : Bytes → Nat → Prop) (σ : Cluster n C) : Prop where
  related : ∃ core, Rel σ core
  order : ∀ s, InOrder (σ.nodes s) (σ.delivered s)
  carries : σ.Carries P

namespace Cluster.Grounded

variable {P Q : Bytes → Nat → Prop} {σ σ' : Cluster n C}

theorem mono (grounded : σ.Grounded P) (weaken : ∀ data index, P data index → Q data index) :
    σ.Grounded Q :=
  ⟨grounded.related, grounded.order, grounded.carries.mono weaken⟩

theorem init (P : Bytes → Nat → Prop) : (Cluster.init n C).Grounded P :=
  ⟨⟨_, Rel.init n C⟩, fun _ => InOrder.make { raftstate := none, snapshot := [] }, .init P⟩

theorem saved (grounded : σ.Grounded P) (s : Fin n) : Saved (σ.nodes s) := by
  obtain ⟨core, rel⟩ := grounded.related
  exact (rel.nodes s).saved

theorem step (grounded : σ.Grounded P) {action : Action n C} (moved : σ.step action = some σ')
    (given : ∀ s index data, action = .snapshot s index data → P data index) : σ'.Grounded P := by
  refine ⟨?_, ?_, grounded.carries.step grounded.saved moved given⟩
  · obtain ⟨core, rel⟩ := grounded.related
    obtain ⟨core', after, _⟩ := rel.step moved
    exact ⟨core', after⟩
  · intro s
    exact (grounded.order s).step (Cluster.delivery_step grounded.saved moved s)

end Cluster.Grounded

end KvStore
