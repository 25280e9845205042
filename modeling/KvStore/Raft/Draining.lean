import KvStore.Raft.IndexSafety

set_option autoImplicit false

/-! The applier of one server on its own: it gets to everything that is committed. -/

namespace KvStore

open ReplicatedLog

variable {n : Nat} {C : Type}

/-- The three critical sections of the applier goroutine of `server`. -/
def Action.OfApplier (server : Fin n) : Action n C → Prop
  | .applierRead s => s = server
  | .applierSend s => s = server
  | .applierAck s => s = server
  | _ => False

namespace Cluster

variable {σ σ' σ'' : Cluster n C} {i : Fin n}

/-- The applier of server `i` takes a step that it survives. -/
def ApplierMoves (i : Fin n) (σ σ' : Cluster n C) : Prop :=
  ∃ action : Action n C, (action.OfApplier i ∧ σ'.incarnation = σ.incarnation) ∧
    σ.step action = some σ'

abbrev Drains (i : Fin n) : Cluster n C → Cluster n C → Prop :=
  Relation.ReflTransGen (ApplierMoves i)

theorem freshReply_of_applier {action : Action n C} (applier : action.OfApplier i) :
    σ.freshReply action = true := by
  cases action with
  | applierRead s => rfl
  | applierSend s => rfl
  | applierAck s => rfl
  | _ => cases applier

theorem Kept.drains (kept : σ.Kept) (drains : Drains i σ σ') : σ'.Kept := by
  induction drains with
  | refl => exact kept
  | tail _ moves ih =>
    obtain ⟨action, ⟨applier, _⟩, moved⟩ := moves
    exact ih.step (freshReply_of_applier applier) moved

/-- Server `i` takes messages from its log to its service, and nothing else happens. -/
structure Applies (i : Fin n) (σ σ' : Cluster n C) : Prop where
  nodes : ∃ lastApplied snapshotPending applier, σ'.nodes = Function.update σ.nodes i
    { σ.nodes i with lastApplied, snapshotPending, applier }
  logical : σ'.logical = σ.logical
  started : σ'.started = σ.started
  applied : ∀ record ∈ σ.applied, record ∈ σ'.applied

namespace Applies

theorem refl (i : Fin n) (σ : Cluster n C) : Applies i σ σ :=
  ⟨⟨_, _, _, (Function.update_eq_self ..).symm⟩, rfl, rfl, fun _ member => member⟩

theorem trans (first : Applies i σ σ') (second : Applies i σ' σ'') : Applies i σ σ'' := by
  obtain ⟨lastApplied, snapshotPending, applier, nodes⟩ := first.nodes
  obtain ⟨lastApplied', snapshotPending', applier', nodes'⟩ := second.nodes
  refine ⟨⟨lastApplied', snapshotPending', applier', ?_⟩, second.logical.trans first.logical,
    second.started.trans first.started, fun record member =>
      second.applied record (first.applied record member)⟩
  rw [nodes', nodes, Function.update_idem, Function.update_self]

theorem node (applies : Applies i σ σ') :
    (σ'.nodes i).commitIndex = (σ.nodes i).commitIndex ∧
      (σ'.nodes i).lastIncludedIndex = (σ.nodes i).lastIncludedIndex ∧
      (σ'.nodes i).state = (σ.nodes i).state ∧
      (σ'.nodes i).currentTerm = (σ.nodes i).currentTerm := by
  obtain ⟨_, _, _, nodes⟩ := applies.nodes
  rw [nodes, Function.update_self]
  exact ⟨rfl, rfl, rfl, rfl⟩

theorem other (applies : Applies i σ σ') {j : Fin n} (other : j ≠ i) : σ'.nodes j = σ.nodes j := by
  obtain ⟨_, _, _, nodes⟩ := applies.nodes
  rw [nodes, Function.update_of_ne other]

end Applies

/-- The applier of `i` rests, with everything through `k` applied. -/
structure Rests (i : Fin n) (k : Nat) (pending : Bool) (σ : Cluster n C) : Prop where
  idle : (σ.nodes i).applier = .idle
  lastApplied : (σ.nodes i).lastApplied = k
  snapshotPending : (σ.nodes i).snapshotPending = pending

/-- The applier records what it has sent. -/
theorem Kept.acknowledges (kept : σ.Kept) {msg : ApplyMsg C}
    (sent : (σ.nodes i).applier = .sent msg) :
    ∃ σ', Drains i σ σ' ∧ Applies i σ σ' ∧
      Rests i msg.index (σ.nodes i).snapshotPending σ' := by
  let after : Raft n C := { σ.nodes i with lastApplied := msg.index, applier := .idle }
  have acks : (σ.nodes i).applierAck = some after := by
    cases msg with
    | command command index =>
      have next := (kept.applying i).next command index (Or.inr sent)
      simp only [Raft.applierAck, sent, after, ApplyMsg.index, next]
    | snapshot data term index => simp only [Raft.applierAck, sent, after, ApplyMsg.index]
  have moved : σ.step (.applierAck i) = some (σ.setNode i after) := by
    simp only [Cluster.step, applierAck, acks, Option.map_some]
  refine ⟨σ.setNode i after, .single ⟨.applierAck i, ⟨rfl, rfl⟩, moved⟩,
    ⟨⟨_, _, _, rfl⟩, rfl, rfl, fun _ member => member⟩, ?_⟩
  have here : (σ.setNode i after).nodes i = after := Function.update_self ..
  exact ⟨by rw [here], by rw [here], by rw [here]⟩

/-- The applier sends the message it has read, and records that. -/
theorem Kept.delivers (kept : σ.Kept) {msg : ApplyMsg C}
    (sending : (σ.nodes i).applier = .sending msg) :
    ∃ σ', Drains i σ σ' ∧ Applies i σ σ' ∧
      Rests i msg.index (σ.nodes i).snapshotPending σ' ∧ (i, msg) ∈ σ'.applied := by
  let middle : Cluster n C :=
    { σ.setNode i { σ.nodes i with applier := .sent msg } with
      delivered := Function.update σ.delivered i msg.index
      applied := (i, msg) :: σ.applied }
  have moved : σ.step (.applierSend i) = some middle := by
    simp only [Cluster.step, applierSend, sending]
    rfl
  have drains : Drains i σ middle := .single ⟨.applierSend i, ⟨rfl, rfl⟩, moved⟩
  have first : Applies i σ middle :=
    ⟨⟨_, _, _, rfl⟩, rfl, rfl, fun _ member => List.mem_cons_of_mem _ member⟩
  have here : middle.nodes i = { σ.nodes i with applier := .sent msg } := Function.update_self ..
  obtain ⟨σ', later, second, rests⟩ :=
    (kept.drains drains).acknowledges (by rw [here])
  rw [here] at rests
  exact ⟨σ', drains.trans later, first.trans second, rests,
    second.applied _ (List.mem_cons_self ..)⟩

/-- The message in flight, if there is one, is delivered and recorded. -/
theorem Kept.comes_to_rest (kept : σ.Kept) (i : Fin n) :
    ∃ σ', Drains i σ σ' ∧ Applies i σ σ' ∧
      Rests i (σ.nodes i).progress (σ.nodes i).snapshotPending σ' ∧
      ∀ msg, (σ.nodes i).applier = .sending msg → (i, msg) ∈ σ'.applied := by
  cases flight : (σ.nodes i).applier with
  | idle =>
    exact ⟨σ, .refl, .refl i σ, ⟨flight, (Raft.progress_idle flight).symm, rfl⟩,
      fun _ sending => by cases sending⟩
  | sending msg =>
    have progress : (σ.nodes i).progress = msg.index := by simp only [Raft.progress, flight]
    obtain ⟨σ', drains, applies, rests, delivered⟩ := kept.delivers flight
    refine ⟨σ', drains, applies, progress ▸ rests, fun other same => ?_⟩
    obtain rfl := Applier.sending.inj same
    exact delivered
  | sent msg =>
    have progress : (σ.nodes i).progress = msg.index := by simp only [Raft.progress, flight]
    obtain ⟨σ', drains, applies, rests⟩ := kept.acknowledges flight
    exact ⟨σ', drains, applies, progress ▸ rests, fun _ sending => by cases sending⟩

theorem Kept.reads (kept : σ.Kept) {msg : ApplyMsg C}
    (read : (σ.nodes i).applierRead =
      .ok (some { σ.nodes i with snapshotPending := false, applier := .sending msg })) :
    ∃ σ', Drains i σ σ' ∧ Applies i σ σ' ∧ Rests i msg.index false σ' ∧
      (i, msg) ∈ σ'.applied := by
  let after : Raft n C := { σ.nodes i with snapshotPending := false, applier := .sending msg }
  have moved : σ.step (.applierRead i) = some (σ.setNode i after) := by
    simp only [Cluster.step, applierRead, read]
    rfl
  have drains : Drains i σ (σ.setNode i after) :=
    .single ⟨.applierRead i, ⟨rfl, rfl⟩, moved⟩
  have first : Applies i σ (σ.setNode i after) :=
    ⟨⟨_, _, _, rfl⟩, rfl, rfl, fun _ member => member⟩
  have here : (σ.setNode i after).nodes i = after := Function.update_self ..
  obtain ⟨σ', later, second, rests', delivered⟩ :=
    (kept.drains drains).delivers (show ((σ.setNode i after).nodes i).applier = _ by rw [here])
  rw [here] at rests'
  exact ⟨σ', drains.trans later, first.trans second, rests', delivered⟩

/-- A pending snapshot goes first. -/
theorem Rests.reads_snapshot {k : Nat} (rests : Rests i k true σ) (kept : σ.Kept) :
    ∃ σ', Drains i σ σ' ∧ Applies i σ σ' ∧
      Rests i (σ.nodes i).lastIncludedIndex false σ' := by
  have positive := List.length_pos_iff.mpr (kept.log_nonempty i)
  obtain ⟨dummy, found⟩ := Raft.entry_inside (kept.log_nonempty i)
    (Nat.le_refl (σ.nodes i).lastIncludedIndex) (by unfold Raft.lastLogIndex; omega)
  have read : (σ.nodes i).applierRead = .ok (some { σ.nodes i with
      snapshotPending := false
      applier := .sending (.snapshot (σ.nodes i).snapshotData dummy.term
        (σ.nodes i).lastIncludedIndex) }) := by
    simp only [Raft.applierRead, rests.idle, rests.snapshotPending, ↓reduceIte, found, bind,
      Except.bind, pure, Except.pure]
  obtain ⟨σ', drains, applies, rests', -⟩ := kept.reads read
  exact ⟨σ', drains, applies, rests'⟩

theorem Rests.reads_command {k : Nat} (rests : Rests i k false σ) (kept : σ.Kept)
    (below : k < (σ.nodes i).commitIndex) :
    ∃ σ' entry, (σ.logical i)[k + 1]? = some entry ∧ Drains i σ σ' ∧ Applies i σ σ' ∧
      Rests i (k + 1) false σ' ∧ (i, .command entry.command (k + 1)) ∈ σ'.applied := by
  have nonempty := kept.log_nonempty i
  obtain ⟨core, ⟨rel, observed, ledger⟩, indexed⟩ := id kept
  have above := Indexed.applier_above ledger rests.idle rests.snapshotPending
  have inside := Indexed.commit_le rel ledger i
  rw [rests.lastApplied] at above
  obtain ⟨entry, found⟩ := Raft.entryAt?_inside nonempty (Nat.le_of_lt above) (by omega)
  have read : (σ.nodes i).applierRead = .ok (some { σ.nodes i with
      snapshotPending := false
      applier := .sending (.command entry.command (k + 1)) }) := by
    simp only [Raft.applierRead, rests.idle, rests.snapshotPending, Bool.false_eq_true, ↓reduceIte,
      rests.lastApplied, below, Raft.entry, found, Raft.orPanic, bind, Except.bind, pure,
      Except.pure]
  obtain ⟨σ', drains, applies, rests', delivered⟩ := kept.reads read
  exact ⟨σ', entry, Raft.entryAt?_retained (rel.nodes i).slice above ▸ found, drains, applies,
    rests', delivered⟩

/-- A resting applier gets to any committed index, and delivers every entry on the way. -/
theorem Rests.applies_upto {k N : Nat} (rests : Rests i k false σ) (kept : σ.Kept) (below : k ≤ N)
    (committed : N ≤ (σ.nodes i).commitIndex) :
    ∃ σ', Drains i σ σ' ∧ Applies i σ σ' ∧ Rests i N false σ' ∧
      ∀ j entry, k < j → j ≤ N → (σ.logical i)[j]? = some entry →
        (i, .command entry.command j) ∈ σ'.applied := by
  induction N with
  | zero =>
    obtain rfl : k = 0 := Nat.le_zero.mp below
    exact ⟨σ, .refl, .refl i σ, rests, fun j _ above low => absurd above (by omega)⟩
  | succ N ih =>
    by_cases there : k = N + 1
    · subst there
      exact ⟨σ, .refl, .refl i σ, rests, fun j _ above low => absurd above (by omega)⟩
    obtain ⟨middle, drains, first, rests', earlier⟩ := ih (by omega) (by omega)
    obtain ⟨σ', last, present, later, second, rests'', delivered⟩ :=
      rests'.reads_command (kept.drains drains) (by rw [first.node.1]; omega)
    rw [first.logical] at present
    refine ⟨σ', drains.trans later, first.trans second, rests'', fun j entry above low found => ?_⟩
    by_cases final : j = N + 1
    · subst final
      obtain rfl := Option.some.inj (present.symm.trans found)
      exact delivered
    · exact second.applied _ (earlier j entry above (by omega) found)

/-- The applier on its own delivers the message in flight and everything above it that is
committed and not compacted, and comes to rest there. -/
theorem Kept.applies_all (kept : σ.Kept) (i : Fin n) :
    ∃ σ', Drains i σ σ' ∧ Applies i σ σ' ∧ Rests i (σ.nodes i).commitIndex false σ' ∧
      (∀ msg, (σ.nodes i).applier = .sending msg → (i, msg) ∈ σ'.applied) ∧
      ∀ j entry, (σ.nodes i).lastIncludedIndex < j → (σ.nodes i).progress < j →
        j ≤ (σ.nodes i).commitIndex → (σ.logical i)[j]? = some entry →
        (i, .command entry.command j) ∈ σ'.applied := by
  obtain ⟨first, drains, applies, rests, flight⟩ := kept.comes_to_rest i
  have kept' := kept.drains drains
  have applying := kept.applying i
  cases pending : (σ.nodes i).snapshotPending with
  | false =>
    rw [pending] at rests
    obtain ⟨σ', later, applies', rests', all⟩ := rests.applies_upto kept' applying.committed
      (Nat.le_of_eq applies.node.1.symm)
    exact ⟨σ', drains.trans later, applies.trans applies', rests',
      fun msg sending => applies'.applied _ (flight msg sending), fun j entry _ above low found =>
        all j entry above low (applies.logical ▸ found)⟩
  | true =>
    rw [pending] at rests
    obtain ⟨second, next, applies', rests'⟩ := rests.reads_snapshot kept'
    have both := applies.trans applies'
    rw [applies.node.2.1] at rests'
    obtain ⟨σ', later, applies'', rests'', all⟩ := rests'.applies_upto (kept'.drains next)
      applying.compacted (Nat.le_of_eq both.node.1.symm)
    exact ⟨σ', (drains.trans next).trans later, both.trans applies'', rests'',
      fun msg sending => applies''.applied _ (applies'.applied _ (flight msg sending)),
      fun j entry above _ low found => all j entry above low (both.logical ▸ found)⟩

/-- A command in flight is the one that stands in the log at its index. -/
theorem Kept.flight_logged (kept : σ.Kept) {command : Option C} {j : Nat} {entry : LogEntry C}
    (sending : (σ.nodes i).applier = .sending (.command command j))
    (found : (σ.logical i)[j]? = some entry) : entry.command = command := by
  obtain ⟨core, ⟨rel, _, ledger⟩, _⟩ := kept
  have books := ledger.nodes i
  obtain ⟨_, log, own, committed, length, present, rfl⟩ := books.flight _ (Or.inl sending)
  have reached := books.applying.committed
  simp only [Raft.progress, sending, ApplyMsg.index] at reached
  have inside := books.inside
  have same := (books.committed.shorten (List.take_prefix_take_left (show j + 1 ≤ _ by omega))
    ).eq_of_length rel.safe committed (by rw [List.length_take, length]; omega)
  rw [← List.getElem?_take_of_lt (Nat.lt_succ_self j), same, present] at found
  rw [Option.some.inj found]

end Cluster

end KvStore
