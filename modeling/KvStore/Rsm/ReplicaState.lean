import KvStore.Raft.Snapshots
import KvStore.Rsm.Identity

set_option autoImplicit false

/-! The state machine of every server is, to every observer, the one that has
executed the commands delivered so far, across snapshots, restores and restarts. -/

namespace KvStore

variable {n : Nat} {M Req Val : Type}

namespace StateMachine

variable (machine : StateMachine M Req Val)

/-- What a client sees of a sequence of requests. -/
def replies : M → List Req → List Val
  | _, [] => []
  | sm, req :: reqs => (machine.doOp sm req).2 :: replies (machine.doOp sm req).1 reqs

/-- No sequence of requests tells the two states apart. -/
def ObsEq (sm sm' : M) : Prop := ∀ reqs, machine.replies sm reqs = machine.replies sm' reqs

/-- Restoring a snapshot gives a state that looks like the one it was taken of,
whatever was there before, and only a state that looks like the initial one may have
an empty snapshot. -/
structure Recoverable : Prop where
  restored : ∀ sm sm', machine.ObsEq (machine.restore (machine.snapshot sm) sm') sm
  empty : ∀ sm, machine.snapshot sm = [] → machine.ObsEq sm machine.init

/-- The state after the first `index` of the given commands. -/
def after (committed : List (Op n Req)) (index : Nat) : M :=
  (committed.take index).foldl (fun sm op => (machine.doOp sm op.req).1) machine.init

variable {machine}

theorem ObsEq.refl (sm : M) : machine.ObsEq sm sm := fun _ => rfl

theorem ObsEq.symm {sm sm' : M} (same : machine.ObsEq sm sm') : machine.ObsEq sm' sm :=
  fun reqs => (same reqs).symm

theorem ObsEq.trans {sm sm' sm'' : M} (first : machine.ObsEq sm sm')
    (second : machine.ObsEq sm' sm'') : machine.ObsEq sm sm'' :=
  fun reqs => (first reqs).trans (second reqs)

/-- States that look alike answer a request alike and look alike afterwards. -/
theorem ObsEq.doOp {sm sm' : M} (same : machine.ObsEq sm sm') (req : Req) :
    (machine.doOp sm req).2 = (machine.doOp sm' req).2 ∧
      machine.ObsEq (machine.doOp sm req).1 (machine.doOp sm' req).1 := by
  refine ⟨(List.cons.inj (same [req])).1, ?_⟩
  intro reqs
  exact (List.cons.inj (same (req :: reqs))).2

theorem after_succ {committed : List (Op n Req)} {index : Nat} {op : Op n Req}
    (found : committed[index]? = some op) :
    machine.after committed (index + 1) =
      (machine.doOp (machine.after committed index) op.req).1 := by
  simp only [after, List.take_add_one, found, Option.toList_some, List.foldl_append,
    List.foldl_cons, List.foldl_nil]

/-- Commands delivered later do not change what came before. -/
theorem after_longer {committed longer : List (Op n Req)} (more : committed <+: longer)
    {index : Nat} (inside : index ≤ committed.length) :
    machine.after longer index = machine.after committed index := by
  obtain ⟨rest, rfl⟩ := more
  rw [after, List.take_append_of_le_length inside, after]

/-- The snapshot is that of a state that looks like the one after `index` commands. -/
def Depicts (machine : StateMachine M Req Val) (committed : List (Op n Req)) (data : Bytes)
    (index : Nat) : Prop :=
  index ≤ committed.length ∧
    ∃ sm, data = machine.snapshot sm ∧ machine.ObsEq sm (machine.after committed index)

theorem Depicts.mono {committed longer : List (Op n Req)} (more : committed <+: longer)
    {data : Bytes} {index : Nat} (depicts : machine.Depicts committed data index) :
    machine.Depicts longer data index := by
  obtain ⟨inside, sm, same, looks⟩ := depicts
  refine ⟨inside.trans more.length_le, sm, same, ?_⟩
  rw [after_longer more inside]
  exact looks

end StateMachine

/-- One server against the commands delivered so far: its state machine, and every
execution of `DoOp` in its process. -/
structure RSM.Replica (machine : StateMachine M Req Val) (committed : List (Op n Req))
    (delivered : Nat) (rsm : RSM n M Req Val) : Prop where
  reach : delivered ≤ committed.length
  state : machine.ObsEq rsm.sm (machine.after committed delivered)
  current : ∀ commandId op value, rsm.reader = .executed commandId op value →
    commandId = delivered
  executed : ∀ record ∈ rsm.done, 0 < record.1 ∧ record.1 ≤ delivered ∧
    committed[record.1 - 1]? = some record.2.1 ∧
    record.2.2 = (machine.doOp (machine.after committed (record.1 - 1)) record.2.1.req).2
  once : (rsm.done.map (·.1)).Pairwise (· > ·)

/-- Nothing has been executed or restored. -/
structure RSM.SameState (rsm rsm' : RSM n M Req Val) : Prop where
  sm : rsm'.sm = rsm.sm
  done : rsm'.done = rsm.done
  reader : ∀ commandId op value, rsm'.reader = .executed commandId op value →
    rsm.reader = .executed commandId op value

theorem RSM.SameState.refl (rsm : RSM n M Req Val) : rsm.SameState rsm :=
  ⟨rfl, rfl, fun _ _ _ => id⟩

namespace RSM.Replica

variable {machine : StateMachine M Req Val} {committed longer : List (Op n Req)}
  {delivered : Nat} {rsm rsm' : RSM n M Req Val}

theorem mono (replica : rsm.Replica machine committed delivered) (more : committed <+: longer) :
    rsm.Replica machine longer delivered := by
  refine ⟨replica.reach.trans more.length_le, ?_, replica.current, ?_, replica.once⟩
  · rw [StateMachine.after_longer more replica.reach]
    exact replica.state
  · intro record member
    obtain ⟨positive, bound, found, value⟩ := replica.executed record member
    have reach := replica.reach
    refine ⟨positive, bound, ReplicatedLog.prefix_getElem more found, ?_⟩
    rw [StateMachine.after_longer more (by omega)]
    exact value

theorem sameState (replica : rsm.Replica machine committed delivered)
    (same : rsm.SameState rsm') :
    rsm'.Replica machine committed delivered := by
  refine ⟨replica.reach, ?_, ?_, ?_, ?_⟩
  · rw [same.sm]
    exact replica.state
  · intro commandId op value reading
    exact replica.current commandId op value (same.reader commandId op value reading)
  · rw [same.done]
    exact replica.executed
  · rw [same.done]
    exact replica.once

/-- A new process restores the snapshot on disk. An empty one is taken for none. -/
theorem make {rf : Raft n (Op n Req)} (carries : NodeCarries (machine.Depicts committed) rf)
    (recoverable : machine.Recoverable) :
    (RSM.make machine rf.persister.snapshot : RSM n M Req Val).Replica machine committed
      rf.lastIncludedIndex := by
  rw [carries.stored]
  by_cases zero : rf.lastIncludedIndex = 0
  · rw [zero, carries.blank zero]
    exact ⟨Nat.zero_le _, .refl _, nofun, nofun, .nil⟩
  · obtain ⟨inside, sm, same, looks⟩ := carries.snapshot (Nat.pos_of_ne_zero zero)
    refine ⟨inside, ?_, nofun, nofun, .nil⟩
    simp only [RSM.make]
    rw [same]
    split
    · rename_i nothing
      exact (recoverable.empty sm nothing).symm.trans looks
    · exact (recoverable.restored sm machine.init).trans looks

theorem execute (replica : rsm.Replica machine committed delivered) {op : Op n Req}
    (found : committed[delivered]? = some op) :
    RSM.Replica machine committed (delivered + 1) { rsm with
      sm := (machine.doOp rsm.sm op.req).1
      reader := .executed (delivered + 1) op (machine.doOp rsm.sm op.req).2
      done := (delivered + 1, op, (machine.doOp rsm.sm op.req).2) :: rsm.done } := by
  obtain ⟨value, looks⟩ := replica.state.doOp op.req
  refine ⟨(List.getElem?_eq_some_iff.mp found).1, ?_, ?_, ?_, ?_⟩
  · rw [StateMachine.after_succ found]
    exact looks
  · intro commandId other result reading
    cases reading
    rfl
  · intro record member
    rcases List.mem_cons.mp member with rfl | old
    · exact ⟨Nat.succ_pos _, Nat.le_refl _, found, value⟩
    · obtain ⟨positive, bound, rest⟩ := replica.executed record old
      exact ⟨positive, bound.trans (Nat.le_succ _), rest⟩
  · refine List.Pairwise.cons ?_ replica.once
    intro index member
    obtain ⟨record, old, rfl⟩ := List.mem_map.mp member
    exact Nat.lt_succ_of_le (replica.executed record old).2.1

theorem restore (replica : rsm.Replica machine committed delivered) {data : Bytes} {index : Nat}
    (depicts : machine.Depicts committed data index) (forward : delivered ≤ index)
    (recoverable : machine.Recoverable) :
    RSM.Replica machine committed index { rsm with
      sm := machine.restore data rsm.sm
      reader := .restored index } := by
  obtain ⟨inside, sm, rfl, looks⟩ := depicts
  refine ⟨inside, (recoverable.restored sm rsm.sm).trans looks, nofun, ?_, replica.once⟩
  intro record member
  obtain ⟨positive, bound, rest⟩ := replica.executed record member
  exact ⟨positive, bound.trans forward, rest⟩

end RSM.Replica

/-- The whole service against the commands delivered so far. -/
structure Service.Mirrors (machine : StateMachine M Req Val) (committed : List (Op n Req))
    (σ : Service n M Req Val) : Prop where
  grounded : σ.raft.Grounded (machine.Depicts committed)
  replicas : ∀ s, (σ.rsm s).Replica machine committed (σ.raft.delivered s)
  known : ∀ s op index, (s, .command (some op) index) ∈ σ.raft.applied →
    0 < index ∧ committed[index - 1]? = some op
  origin : ∀ i op, committed[i]? = some op →
    ∃ s, (s, .command (some op) (i + 1)) ∈ σ.raft.applied

namespace Service.Mirrors

variable {machine : StateMachine M Req Val} {committed longer : List (Op n Req)}
  {σ σ' : Service n M Req Val} {s : Fin n}

theorem init (machine : StateMachine M Req Val) (n : Nat) :
    (Service.init machine n : Service n M Req Val).Mirrors machine [] where
  grounded := .init _
  replicas _ := ⟨Nat.le_refl _, .refl _, nofun, nofun, .nil⟩
  known := nofun
  origin := nofun

section

variable (mirrors : σ.Mirrors machine committed)

include mirrors

/-- One server moves above Raft. -/
theorem setRsm {rsm : RSM n M Req Val} (raft : σ'.raft = σ.raft)
    (rsms : σ'.rsm = Function.update σ.rsm s rsm) (same : (σ.rsm s).SameState rsm) :
    σ'.Mirrors machine committed := by
  refine ⟨raft ▸ mirrors.grounded, ?_, raft ▸ mirrors.known, raft ▸ mirrors.origin⟩
  intro other
  rw [raft, rsms]
  exact (Function.forall_update_iff σ.rsm fun other rsm =>
    rsm.Replica machine committed (σ.raft.delivered other)).mpr
      ⟨(mirrors.replicas s).sameState same, fun other _ => mirrors.replicas other⟩ other

/-- Raft moves without a delivery; processes may die. -/
theorem raft_step (recoverable : machine.Recoverable) {action : Action n (Op n Req)}
    (moved : σ.raft.step action = some σ'.raft) (silent : ∀ s, action ≠ .applierSend s)
    (given : ∀ s index data, action = .snapshot s index data →
      machine.Depicts committed data index)
    (lives : ∀ s, σ'.raft.incarnation s = σ.raft.incarnation s → (σ.rsm s).SameState (σ'.rsm s))
    (dies : ∀ s, σ'.raft.incarnation s ≠ σ.raft.incarnation s →
      σ'.rsm s = RSM.make machine (σ'.raft.nodes s).persister.snapshot) :
    σ'.Mirrors machine committed := by
  have grounded := mirrors.grounded.step moved given
  have deliveries := Cluster.delivery_step mirrors.grounded.saved moved
  refine ⟨grounded, ?_, ?_, ?_⟩
  · intro s
    cases deliveries s with
    | turned _ alive delivered _ =>
      rw [delivered]
      exact (mirrors.replicas s).sameState (lives s alive)
    | sent _ asked => exact absurd asked (silent s)
    | died _ _ dead delivered _ _ _ _ =>
      rw [dies s (by omega), delivered]
      exact .make (grounded.carries.nodes s) recoverable
  · intro s op index delivered
    have same : σ'.raft.applied = σ.raft.applied := by
      cases deliveries s with
      | turned _ _ _ applied =>
        rcases applied with same | ⟨other, _, _, asked, _⟩
        · exact same
        · exact absurd asked (silent other)
      | sent _ asked => exact absurd asked (silent s)
      | died _ _ _ _ applied _ _ _ => exact applied
    exact mirrors.known s op index (same ▸ delivered)
  · intro i op found
    obtain ⟨s, delivered⟩ := mirrors.origin i op found
    exact ⟨s, (Cluster.step_grown moved).applied delivered⟩

variable {raft : Cluster n (Op n Req)}

theorem withRaft (recoverable : machine.Recoverable) {action : Action n (Op n Req)}
    (moved : σ.raft.step action = some raft) (silent : ∀ s, action ≠ .applierSend s)
    (given : ∀ s index data, action = .snapshot s index data →
      machine.Depicts committed data index) :
    (σ.withRaft machine raft).Mirrors machine committed := by
  refine mirrors.raft_step recoverable moved silent given ?_ ?_
  · intro s alive
    simp only [Service.withRaft] at alive ⊢
    rw [if_pos alive]
    exact .refl _
  · intro s dead
    simp only [Service.withRaft] at dead ⊢
    rw [if_neg dead]

theorem start (recoverable : machine.Recoverable) {channel : Nat}
    (submission : Submission n Req Val) (index : Nat) :
    Mirrors machine committed { σ.setRsm s ((σ.rsm s).register channel submission index) with
      raft := σ.raft.start s (some submission.op) } := by
  have step : σ.raft.step (.start s (some submission.op)) =
      some (σ.raft.start s (some submission.op)) := rfl
  obtain ⟨alive, -⟩ := σ.raft.start_lives s (some submission.op)
  refine mirrors.raft_step recoverable step (by simp) (by simp) ?_ ?_
  · intro other _
    by_cases here : other = s
    · subst here
      simp only [Service.setRsm, Function.update_self]
      exact ⟨rfl, rfl, fun _ _ _ => id⟩
    · simp only [Service.setRsm, Function.update_of_ne here]
      exact .refl _
  · intro other dead
    exact absurd (congrFun alive other) dead

/-- The command delivered next is on the list already, or extends it. -/
theorem next_command (s : Fin n) (op : Op n Req)
    (agreed : ∀ other t, (t, .command (some other) (σ.raft.delivered s + 1)) ∈ σ.raft.applied →
      other = op) :
    ∃ longer, committed <+: longer ∧ longer[σ.raft.delivered s]? = some op ∧
      ∀ i other, longer[i]? = some other →
        committed[i]? = some other ∨ i = σ.raft.delivered s ∧ other = op := by
  have reach := (mirrors.replicas s).reach
  rcases Nat.lt_or_eq_of_le reach with inside | last
  · have found := List.getElem?_eq_getElem inside
    obtain ⟨t, delivered⟩ := mirrors.origin _ _ found
    rw [agreed _ t delivered] at found
    exact ⟨committed, List.prefix_refl _, found, fun i other here => Or.inl here⟩
  · refine ⟨committed ++ [op], List.prefix_append _ _, ?_, ?_⟩
    · rw [last, List.getElem?_concat_length]
    · intro i other here
      by_cases old : i < committed.length
      · rw [List.getElem?_append_left old] at here
        exact Or.inl here
      · have bound := (List.getElem?_eq_some_iff.mp here).1
        rw [List.length_append, List.length_singleton] at bound
        obtain rfl : i = committed.length := by omega
        rw [List.getElem?_concat_length] at here
        exact Or.inr ⟨last.symm, (Option.some.inj here).symm⟩

/-- The next command is delivered and executed. -/
theorem receiveCommand (sent : σ.raft.applierSend s = some raft) {op : Op n Req} {commandId : Nat}
    (sending : (σ.raft.nodes s).applier = .sending (.command (some op) commandId))
    (after : σ' = { σ.setRsm s { σ.rsm s with
        sm := (machine.doOp (σ.rsm s).sm op.req).1
        reader := .executed commandId op (machine.doOp (σ.rsm s).sm op.req).2
        done := (commandId, op, (machine.doOp (σ.rsm s).sm op.req).2) :: (σ.rsm s).done } with
      raft }) (correct : σ'.RaftCorrect) :
    ∃ longer, σ'.Mirrors machine longer ∧ committed <+: longer := by
  have next := (mirrors.grounded.order s).next sending
  have step : σ.raft.step (.applierSend s) = some raft := sent
  obtain ⟨msg, sending', rfl⟩ := Cluster.applierSend_inversion sent
  rw [sending] at sending'
  cases sending'
  subst next
  obtain ⟨longer, more, found, added⟩ := mirrors.next_command s op (by
    intro other t delivered
    have same := correct t s _ (some other) (some op)
      (by rw [after]; exact List.mem_cons_of_mem _ delivered)
      (by rw [after]; exact List.mem_cons_self ..)
    exact Option.some.inj same)
  subst after
  refine ⟨longer, ⟨?_, ?_, ?_, ?_⟩, more⟩
  · exact (mirrors.grounded.step step nofun).mono fun _ _ depicts => depicts.mono more
  · intro other
    by_cases here : other = s
    · subst here
      simp only [Service.setRsm, Function.update_self, ApplyMsg.index]
      exact ((mirrors.replicas other).mono more).execute found
    · simp only [Service.setRsm, Function.update_of_ne here]
      exact (mirrors.replicas other).mono more
  · intro t other index delivered
    rcases List.mem_cons.mp delivered with same | old
    · cases same
      exact ⟨Nat.succ_pos _, found⟩
    · obtain ⟨positive, here⟩ := mirrors.known t other index old
      exact ⟨positive, ReplicatedLog.prefix_getElem more here⟩
  · intro i other here
    rcases added i other here with old | ⟨rfl, rfl⟩
    · obtain ⟨t, delivered⟩ := mirrors.origin i other old
      exact ⟨t, List.mem_cons_of_mem _ delivered⟩
    · exact ⟨s, List.mem_cons_self ..⟩

/-- A command that is nil kills the process, which starts again from its snapshot. -/
theorem receiveNil (recoverable : machine.Recoverable) (sent : σ.raft.applierSend s = some raft)
    {commandId : Nat} (sending : (σ.raft.nodes s).applier = .sending (.command none commandId)) :
    (σ.withRaft machine (raft.restart s (raft.nodes s).persister)).Mirrors machine committed := by
  have step : σ.raft.step (.applierSend s) = some raft := sent
  have crash : raft.step (.crash s) = some (raft.restart s (raft.nodes s).persister) := rfl
  have grounded := (mirrors.grounded.step step nofun).step crash nofun
  obtain ⟨msg, sending', rfl⟩ := Cluster.applierSend_inversion sent
  rw [sending] at sending'
  cases sending'
  refine ⟨grounded, ?_, ?_, ?_⟩
  · intro other
    by_cases here : other = s
    · subst here
      have fresh := RSM.Replica.make (M := M) (grounded.carries.nodes other) recoverable
      simpa [Service.withRaft, Cluster.restart, Cluster.setNode] using fresh
    · simpa [Service.withRaft, Cluster.restart, Cluster.setNode, here] using mirrors.replicas other
  · intro t op index delivered
    rcases List.mem_cons.mp delivered with same | old
    · cases same
    · exact mirrors.known t op index old
  · intro i op found
    obtain ⟨t, delivered⟩ := mirrors.origin i op found
    exact ⟨t, List.mem_cons_of_mem _ delivered⟩

/-- A snapshot is delivered and restored. -/
theorem receiveSnapshot (recoverable : machine.Recoverable)
    (sent : σ.raft.applierSend s = some raft) {data : Bytes} {term snapshotIndex : Nat}
    (sending : (σ.raft.nodes s).applier = .sending (.snapshot data term snapshotIndex)) :
    Service.Mirrors machine committed { σ.setRsm s { σ.rsm s with
        sm := machine.restore data (σ.rsm s).sm
        reader := .restored snapshotIndex } with
      raft } := by
  have forward := (mirrors.grounded.order s).forward sending
  have depicts := (mirrors.grounded.carries.nodes s).flight data term snapshotIndex
    (Or.inl sending)
  have step : σ.raft.step (.applierSend s) = some raft := sent
  have grounded := mirrors.grounded.step step nofun
  obtain ⟨msg, sending', rfl⟩ := Cluster.applierSend_inversion sent
  rw [sending] at sending'
  cases sending'
  refine ⟨grounded, ?_, ?_, ?_⟩
  · intro other
    by_cases here : other = s
    · subst here
      simp only [Service.setRsm, Function.update_self, ApplyMsg.index]
      exact (mirrors.replicas other).restore depicts forward recoverable
    · simp only [Service.setRsm, Function.update_of_ne here]
      exact mirrors.replicas other
  · intro t op index delivered
    rcases List.mem_cons.mp delivered with same | old
    · cases same
    · exact mirrors.known t op index old
  · intro i op found
    obtain ⟨t, delivered⟩ := mirrors.origin i op found
    exact ⟨t, List.mem_cons_of_mem _ delivered⟩

/-- One action of the service. Only the delivery of a command can extend the list. -/
theorem step (recoverable : machine.Recoverable) {action : ServiceAction n Req}
    (moved : σ.step machine action = some σ') (correct : σ'.RaftCorrect) :
    ∃ longer, σ'.Mirrors machine longer ∧ committed <+: longer := by
  have stays : σ'.Mirrors machine committed →
      ∃ longer, σ'.Mirrors machine longer ∧ committed <+: longer :=
    fun holds => ⟨committed, holds, List.prefix_refl _⟩
  cases step_outcome moved with
  | raft inside below =>
    refine stays (mirrors.withRaft recoverable below ?_ ?_)
    · rintro s rfl
      cases inside
    · rintro s index data rfl
      cases inside
  | start => exact stays (mirrors.start recoverable _ _)
  | submit | refuse | turnedAway | leave | take | finish =>
    exact stays (mirrors.setRsm rfl rfl ⟨rfl, rfl, fun _ _ _ => id⟩)
  | execute sent sending => exact mirrors.receiveCommand sent sending rfl correct
  | nilCommand sent sending => exact stays (mirrors.receiveNil recoverable sent sending)
  | restore sent sending => exact stays (mirrors.receiveSnapshot recoverable sent sending)
  | @snapshot s commandId op value _ executed below =>
    refine stays (mirrors.withRaft recoverable below (by simp) ?_)
    -- the snapshot is taken of the state right after the command at its index
    rintro _ _ _ ⟨⟩
    have replica := mirrors.replicas s
    rw [replica.current commandId op value executed]
    exact ⟨replica.reach, _, rfl, replica.state⟩
  | lookup | skip | send | lock | expire | unlock =>
    exact stays (mirrors.setRsm rfl rfl ⟨rfl, rfl, by simp⟩)

end

end Service.Mirrors

namespace Service

variable {machine : StateMachine M Req Val}

/-- Server `s` against the commands that were ever delivered: its state machine after
the last message it has handled, what its process has executed, and what is on disk. -/
structure Replicates (machine : StateMachine M Req Val) (committed : List (Op n Req))
    (σ : Service n M Req Val) (s : Fin n) : Prop where
  replica : (σ.rsm s).Replica machine committed (σ.raft.delivered s)
  persisted : 0 < (σ.raft.nodes s).lastIncludedIndex →
    machine.Depicts committed (σ.raft.nodes s).persister.snapshot
      (σ.raft.nodes s).lastIncludedIndex

theorem Mirrors.replicates {committed : List (Op n Req)} {σ : Service n M Req Val}
    (mirrors : σ.Mirrors machine committed) (s : Fin n) : σ.Replicates machine committed s := by
  refine ⟨mirrors.replicas s, ?_⟩
  rw [(mirrors.grounded.carries.nodes s).stored]
  exact (mirrors.grounded.carries.nodes s).snapshot

/-- The deliveries of one state are on the list, and every server replicates it. -/
def Recalled (machine : StateMachine M Req Val) (committed : List (Op n Req))
    (σ : Service n M Req Val) : Prop :=
  (∀ s op index, (s, .command (some op) index) ∈ σ.raft.applied →
    0 < index ∧ committed[index - 1]? = some op) ∧
  ∀ s, σ.Replicates machine committed s

theorem Recalled.mono {committed longer : List (Op n Req)} {σ : Service n M Req Val}
    (recalled : σ.Recalled machine committed) (more : committed <+: longer) :
    σ.Recalled machine longer := by
  obtain ⟨known, replicates⟩ := recalled
  constructor
  · intro s op index delivered
    obtain ⟨positive, found⟩ := known s op index delivered
    exact ⟨positive, ReplicatedLog.prefix_getElem more found⟩
  · intro s
    exact ⟨(replicates s).replica.mono more,
      fun positive => ((replicates s).persisted positive).mono more⟩

/-- One list recalls all states of a run, and the newest mirrors it. -/
theorem run_recalled (recoverable : machine.Recoverable) {trace : List (Service n M Req Val)}
    (run : Runs.Run (step machine) (fun _ _ => True) (init machine n) trace)
    (correct : ∀ σ ∈ trace, σ.RaftCorrect) :
    ∃ newest past committed, trace = newest :: past ∧
      newest.Mirrors machine committed ∧ ∀ σ ∈ trace, σ.Recalled machine committed := by
  refine Runs.Run.ghost (fun committed longer => committed <+: longer) (run.within correct)
    ?_ ?_ ?_
  · have mirrors := Mirrors.init machine n
    exact ⟨[], mirrors, mirrors.known, mirrors.replicates⟩
  · intro σ action σ' committed good moved mirrors
    obtain ⟨longer, after, more⟩ := mirrors.step recoverable moved (good σ' moved)
    exact ⟨longer, after, more, after.known, after.replicates⟩
  · exact fun committed longer σ more recalled => recalled.mono more

/-- Replicas refine the delivered log. Where all deliveries at one index are of one
command, there is one list of commands such that in every state of the run every
server's state machine looks like the one that has executed the list up to the index
last delivered to it; its snapshot on disk is of the state at the compaction point;
and its process has executed commands of the list only, each at most once. -/
theorem replica_state (recoverable : machine.Recoverable) {trace : List (Service n M Req Val)}
    (run : Runs.Run (step machine) (fun _ _ => True) (init machine n) trace)
    (correct : ∀ σ ∈ trace, σ.RaftCorrect) :
    ∃ committed : List (Op n Req),
      (∀ i op, committed[i]? = some op →
        ∃ σ ∈ trace, ∃ s, (s, .command (some op) (i + 1)) ∈ σ.raft.applied) ∧
      ∀ σ ∈ trace, σ.Recalled machine committed := by
  obtain ⟨newest, past, committed, same, mirrors, recalled⟩ :=
    run_recalled recoverable run correct
  refine ⟨committed, ?_, recalled⟩
  intro i op found
  obtain ⟨s, delivered⟩ := mirrors.origin i op found
  exact ⟨newest, same ▸ List.mem_cons_self .., s, delivered⟩

theorem echo_recoverable : echo.Recoverable where
  restored _ _ := .refl _
  empty sm nothing := by
    obtain rfl : sm = [] := nothing
    exact .refl _

/-- Server 0 executes request 5 at index 1, compacts its log there and crashes. -/
def compactedThenCrashed : List (ServiceAction 3 UInt8) :=
  [.raft (.startElection 0), .raft (.handleRequestVote 0), .raft (.receiveRequestVote 0),
    .submit 0 5, .start 0 0,
    .raft (.replicateToFollower 0 1), .raft (.handleAppendEntries 0),
    .raft (.receiveAppendEntries 0),
    .raft (.applierRead 0), .receive 0, .snapshot 0, .raft (.crash 0)]

/-- It is elected again and executes request 6 at index 2. -/
def executedAfterRestart : List (ServiceAction 3 UInt8) :=
  compactedThenCrashed ++
    [.raft (.startElection 0), .raft (.handleRequestVote 2), .raft (.receiveRequestVote 2),
      .submit 0 6, .start 0 0,
      .raft (.replicateToFollower 0 1), .raft (.handleAppendEntries 1),
      .raft (.receiveAppendEntries 1), .raft (.applierRead 0), .receive 0]

/-- The first command of server 0 after it has been restarted. -/
def secondLifeOp (req : UInt8) : Op 3 UInt8 :=
  { me := 0, id := 1, req, incarnation := 1 }

theorem replica_state_restarted :
    ∃ trace : List (Service 3 Bytes UInt8 UInt8),
      Runs.Run (step echo) (fun _ _ => True) (init echo 3) trace ∧
      (∀ σ ∈ trace, σ.RaftCorrect) ∧ ∃ σ ∈ trace,
        σ.raft.delivered 0 = 2 ∧ (σ.raft.nodes 0).lastIncludedIndex = 1 ∧
        (σ.rsm 0).sm = [6, 5] ∧
        ∃ committed, committed[0]? = some (firstOp 0 5) ∧ committed[1]? = some (secondLifeOp 6) ∧
          σ.Replicates echo committed 0 := by
  obtain ⟨past, run⟩ := Runs.Run.reached (step echo) (fun _ _ => true) (init echo 3)
    executedAfterRestart (by decide +kernel)
  have run : Runs.Run (step echo) (fun _ _ => True) (init echo 3) (_ :: past) :=
    run.mono fun _ _ _ => trivial
  have twice : ((Runs.execute (Runs.guarded (step echo) fun _ _ => true) (init echo 3)
      executedAfterRestart).get (by decide +kernel)).raft.applied =
      [(0, .command (some (secondLifeOp 6)) 2), (0, .command (some (firstOp 0 5)) 1)] := by
    decide +kernel
  have correct := raftCorrect_of_latest run (by
    intro a b index command command' first second
    rw [twice] at first second
    simp only [List.mem_cons, Prod.mk.injEq, ApplyMsg.command.injEq, List.not_mem_nil,
      or_false] at first second
    rcases first with ⟨_, rfl, rfl⟩ | ⟨_, rfl, rfl⟩
    · rcases second with ⟨_, rfl, _⟩ | ⟨_, _, other⟩
      · rfl
      · cases other
    · rcases second with ⟨_, _, other⟩ | ⟨_, rfl, _⟩
      · cases other
      · rfl)
  obtain ⟨committed, _, recalled⟩ := replica_state echo_recoverable run correct
  obtain ⟨known, replicates⟩ := recalled _ (List.mem_cons_self ..)
  refine ⟨_, run, correct, _, List.mem_cons_self .., by decide +kernel, by decide +kernel,
    by decide +kernel, committed, ?_, ?_, replicates 0⟩
  · exact (known 0 (firstOp 0 5) 1 (by rw [twice]; decide)).2
  · exact (known 0 (secondLifeOp 6) 2 (by rw [twice]; decide)).2

/-- A state machine that remembers whether it has executed anything, and whose
snapshot of that state happens to be empty. -/
def executedAny : StateMachine Bool UInt8 Bool where
  init := false
  doOp sm _ := (true, sm)
  snapshot sm := if sm then [] else [0]
  restore data _ := data.isEmpty

/-- An empty snapshot is not restored, although restoring it would be right. -/
theorem replica_state_empty_snapshot :
    (∀ sm sm', executedAny.ObsEq (executedAny.restore (executedAny.snapshot sm) sm') sm) ∧
    ∃ trace : List (Service 3 Bool UInt8 Bool),
      Runs.Run (step executedAny) (fun _ _ => True) (init executedAny 3) trace ∧
      (∀ σ ∈ trace, σ.RaftCorrect) ∧ ∃ σ ∈ trace,
        σ.raft.applied = [(0, .command (some (firstOp 0 5)) 1)] ∧ σ.raft.delivered 0 = 1 ∧
        (σ.raft.nodes 0).lastIncludedIndex = 1 ∧
        ¬ executedAny.ObsEq (σ.rsm 0).sm (executedAny.after [firstOp 0 5] 1) := by
  constructor
  · intro sm sm'
    cases sm <;> exact .refl _
  · obtain ⟨past, run⟩ := Runs.Run.reached (step executedAny) (fun _ _ => true)
      (init executedAny 3) compactedThenCrashed (by decide +kernel)
    have correct := raftCorrect_of_latest run
      (raftCorrect_of_single 0 (firstOp 0 5) 1 (by decide +kernel))
    refine ⟨_, run.mono fun _ _ _ => trivial, correct, _, List.mem_cons_self ..,
      by decide +kernel, by decide +kernel, by decide +kernel, ?_⟩
    intro same
    have lost : executedAny.replies (((Runs.execute (Runs.guarded (step executedAny)
        fun _ _ => true) (init executedAny 3) compactedThenCrashed).get
          (by decide +kernel)).rsm 0).sm [7] = [false] := by
      decide +kernel
    have told := same [7]
    rw [lost] at told
    exact absurd told (by decide)

end Service

end KvStore
