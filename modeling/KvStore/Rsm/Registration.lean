import KvStore.Raft.Placement
import KvStore.Rsm.Deadlock

set_option autoImplicit false

/-! Which channel the map of waiting submissions holds, and whether a submission whose
command is executed is handed the result. -/

namespace KvStore

variable {n : Nat} {M Req Val : Type}

namespace RSM

/-- Deleting an index leaves the others as they are. -/
theorem forget_channelAt (rsm : RSM n M Req Val) {commandId other : Nat}
    (apart : other ≠ commandId) : (rsm.forget commandId).channelAt other = rsm.channelAt other := by
  unfold channelAt forget
  dsimp only
  induction rsm.resultByCommandId with
  | nil => rfl
  | cons entry rest ih =>
    obtain ⟨id, channel⟩ := entry
    by_cases here : id = commandId
    · have skipped : (other == id) = false := by simp [here, apart]
      rw [List.filter_cons_of_neg (by simp [here]), ih, List.lookup_cons, skipped]
    · rw [List.filter_cons_of_pos (by simp [here]), List.lookup_cons, List.lookup_cons, ih]

end RSM

/-- Where `readApply` stands, against the index delivered last. -/
def Reader.Tracked (submits : List (Submission n Req Val)) (delivered : Nat) :
    Reader n Req Val → Prop
  | .receiving => True
  | .executed commandId _ _ => commandId = delivered
  | .sending channel _ => ∃ submission, submits[channel]? = some submission ∧
      submission.phase ≠ .created ∧ submission.commandId ≤ delivered ∧ submission.resultCh = none
  | .restored snapshotIndex => snapshotIndex ≤ delivered
  | .expiring channels => ∀ channel ∈ channels, ∃ submission,
      submits[channel]? = some submission ∧ submission.phase ≠ .created ∧
      submission.commandId ≤ delivered

/-- The calls of one process, the map and the channels. A channel is written only once
the index of its call has been delivered, and not before the execution is looked up. -/
structure RSM.Tracked (s : Fin n) (incarnation delivered : Nat) (rsm : RSM n M Req Val) :
    Prop where
  counted : rsm.opId = rsm.submits.length
  named : ∀ (k : Nat) (submission : Submission n Req Val), rsm.submits[k]? = some submission →
    submission.op.me = s ∧ submission.op.id = k + 1 ∧ submission.op.incarnation = incarnation
  registered : ∀ entry ∈ rsm.resultByCommandId, ∃ submission,
    rsm.submits[entry.2]? = some submission ∧ submission.phase ≠ .created ∧
      submission.commandId = entry.1
  listed : ∀ (k : Nat) (submission : Submission n Req Val), rsm.submits[k]? = some submission →
    submission.phase.unfinished = true → rsm.channelAt submission.commandId = some k
  buffered : ∀ (k : Nat) (submission : Submission n Req Val), rsm.submits[k]? = some submission →
    submission.resultCh ≠ none → submission.phase ≠ .created ∧
      submission.commandId ≤ delivered ∧
      ∀ op value, rsm.reader ≠ .executed submission.commandId op value
  reading : rsm.reader.Tracked rsm.submits delivered

/-- Every call that was started is still there, with its command and its index. -/
def RSM.Retains (rsm rsm' : RSM n M Req Val) : Prop :=
  ∀ (k : Nat) (submission : Submission n Req Val), rsm.submits[k]? = some submission →
    submission.phase ≠ .created → ∃ after, rsm'.submits[k]? = some after ∧
      after.op = submission.op ∧ after.phase ≠ .created ∧ after.commandId = submission.commandId

theorem RSM.Retains.of_submits {rsm rsm' : RSM n M Req Val} (same : rsm'.submits = rsm.submits) :
    rsm.Retains rsm' :=
  fun _ submission found started => ⟨submission, same ▸ found, rfl, started, rfl⟩

theorem RSM.Retains.of_set {rsm rsm' : RSM n M Req Val} {channel : Nat}
    {before after : Submission n Req Val} (found : rsm.submits[channel]? = some before)
    (set : rsm'.submits = rsm.submits.set channel after) (op : after.op = before.op)
    (left : before.phase ≠ .created → after.phase ≠ .created)
    (index : before.phase = .created ∨ after.commandId = before.commandId) :
    rsm.Retains rsm' := by
  intro k submission here started
  rw [set]
  rcases Slots.set_kept found after here with ⟨_, rfl, now⟩ | ⟨_, now⟩
  · exact ⟨after, now, op, left started, index.resolve_left started⟩
  · exact ⟨submission, now, rfl, started, rfl⟩

theorem RSM.Retains.enter (rsm : RSM n M Req Val) (op : Op n Req) : rsm.Retains (rsm.enter op) := by
  intro k submission found started
  have inside := (List.getElem?_eq_some_iff.mp found).1
  exact ⟨submission, (List.getElem?_append_left inside).trans found, rfl, started, rfl⟩

/-- `readApply` stays where it is while calls move on around it. -/
theorem Reader.Tracked.carry {rsm rsm' : RSM n M Req Val} {delivered : Nat}
    {reader : Reader n Req Val} (tracked : reader.Tracked rsm.submits delivered)
    (retains : rsm.Retains rsm')
    (empty : ∀ (k : Nat) (before after : Submission n Req Val), rsm.submits[k]? = some before →
      rsm'.submits[k]? = some after → before.resultCh = none → after.resultCh = none) :
    reader.Tracked rsm'.submits delivered := by
  cases reader with
  | receiving => trivial
  | executed commandId op value => exact tracked
  | sending channel result =>
    obtain ⟨submission, found, started, below, free⟩ := tracked
    obtain ⟨after, now, -, begun, index⟩ := retains channel submission found started
    exact ⟨after, now, begun, index ▸ below, empty channel submission after found now free⟩
  | restored snapshotIndex => exact tracked
  | expiring channels =>
    intro channel member
    obtain ⟨submission, found, started, below⟩ := tracked channel member
    obtain ⟨after, now, -, begun, index⟩ := retains channel submission found started
    exact ⟨after, now, begun, index ▸ below⟩

namespace RSM.Tracked

variable {s : Fin n} {incarnation delivered : Nat} {rsm rsm' : RSM n M Req Val} {channel : Nat}
  {before after : Submission n Req Val}

theorem make (machine : StateMachine M Req Val) (snapshot : Bytes) (s : Fin n)
    (incarnation delivered : Nat) :
    (RSM.make machine snapshot : RSM n M Req Val).Tracked s incarnation delivered where
  counted := rfl
  named := by simp [RSM.make]
  registered := by simp [RSM.make]
  listed := by simp [RSM.make]
  buffered := by simp [RSM.make]
  reading := trivial

section

variable (tracked : rsm.Tracked s incarnation delivered)

include tracked

/-- `readApply` moves on. What it has executed is at the index delivered now, above
every channel written before. -/
theorem setReader {later : Nat} (submits : rsm'.submits = rsm.submits) (opId : rsm'.opId = rsm.opId)
    (map : rsm'.resultByCommandId = rsm.resultByCommandId) (forward : delivered ≤ later)
    (unread : ∀ commandId op value, rsm'.reader = .executed commandId op value →
      delivered < commandId) (reading : rsm'.reader.Tracked rsm.submits later) :
    rsm'.Tracked s incarnation later where
  counted := by rw [opId, submits, tracked.counted]
  named := by rw [submits]; exact tracked.named
  registered := by rw [submits, map]; exact tracked.registered
  listed k submission found unfinished := by
    rw [submits] at found
    unfold RSM.channelAt
    rw [map]
    exact tracked.listed k submission found unfinished
  buffered k submission found full := by
    rw [submits] at found
    obtain ⟨started, below, -⟩ := tracked.buffered k submission found full
    refine ⟨started, below.trans forward, fun op value executed => ?_⟩
    have above := unread submission.commandId op value executed
    omega
  reading := submits ▸ reading

/-- The entries of the map stand for calls that go on being there. -/
theorem still_registered (retains : rsm.Retains rsm') :
    ∀ entry ∈ rsm.resultByCommandId, ∃ submission,
      rsm'.submits[entry.2]? = some submission ∧ submission.phase ≠ .created ∧
        submission.commandId = entry.1 := by
  intro entry member
  obtain ⟨submission, found, started, index⟩ := tracked.registered entry member
  obtain ⟨after, now, -, begun, same⟩ := retains _ submission found started
  exact ⟨after, now, begun, same.trans index⟩

theorem set_named (found : rsm.submits[channel]? = some before)
    (set : rsm'.submits = rsm.submits.set channel after) (op : after.op = before.op) :
    ∀ (k : Nat) (submission : Submission n Req Val), rsm'.submits[k]? = some submission →
      submission.op.me = s ∧ submission.op.id = k + 1 ∧
        submission.op.incarnation = incarnation := by
  intro k submission there
  rw [set] at there
  rcases Slots.set_cases there with ⟨rfl, rfl⟩ | ⟨_, old⟩
  · rw [op]
    exact tracked.named k before found
  · exact tracked.named k submission old

theorem enter {op : Op n Req} (me : op.me = s) (id : op.id = rsm.nextOpId)
    (born : op.incarnation = incarnation) : (rsm.enter op).Tracked s incarnation delivered := by
  have cases_ : ∀ (k : Nat) (submission : Submission n Req Val),
      (rsm.enter op).submits[k]? = some submission → rsm.submits[k]? = some submission ∨
        k = rsm.submits.length ∧
          submission = { op, commandId := 0, resultCh := none, phase := .created } := by
    intro k submission found
    have inside := (List.getElem?_eq_some_iff.mp found).1
    simp only [RSM.enter, List.length_append, List.length_singleton] at inside
    by_cases old : k < rsm.submits.length
    · exact Or.inl ((List.getElem?_append_left old).symm.trans found)
    · obtain rfl : k = rsm.submits.length := by omega
      simp only [RSM.enter, List.getElem?_concat_length, Option.some.injEq] at found
      exact Or.inr ⟨rfl, found.symm⟩
  have retains := RSM.Retains.enter rsm op
  refine ⟨?_, ?_, ?_, ?_, ?_, ?_⟩
  · simp only [RSM.enter, RSM.nextOpId, List.length_append, List.length_singleton,
      tracked.counted]
  · intro k submission found
    rcases cases_ k submission found with old | ⟨rfl, rfl⟩
    · exact tracked.named k submission old
    · refine ⟨me, ?_, born⟩
      rw [id, RSM.nextOpId, tracked.counted]
  · exact tracked.still_registered retains
  · intro k submission found unfinished
    rcases cases_ k submission found with old | ⟨rfl, rfl⟩
    · exact tracked.listed k submission old unfinished
    · cases unfinished
  · intro k submission found full
    rcases cases_ k submission found with old | ⟨rfl, rfl⟩
    · exact tracked.buffered k submission old full
    · exact absurd rfl full
  · refine tracked.reading.carry retains fun k before after found now free => ?_
    rcases cases_ k after now with old | ⟨rfl, rfl⟩
    · rw [found] at old
      obtain rfl := Option.some.inj old
      exact free
    · rfl

/-- One call moves on, with its channel as it was or emptied. -/
theorem setSubmission (found : rsm.submits[channel]? = some before) (op : after.op = before.op)
    (left : after.phase ≠ .created) (index : after.commandId = before.commandId)
    (live : after.phase.unfinished = true → before.phase.unfinished = true)
    (result : after.resultCh = none ∨ after.resultCh = before.resultCh) :
    (rsm.setSubmission channel after).Tracked s incarnation delivered := by
  have retains : rsm.Retains (rsm.setSubmission channel after) :=
    .of_set found rfl op (fun _ => left) (Or.inr index)
  refine ⟨?_, ?_, ?_, ?_, ?_, ?_⟩
  · simp only [RSM.setSubmission, List.length_set, tracked.counted]
  · exact tracked.set_named found rfl op
  · exact tracked.still_registered retains
  · intro k submission there unfinished
    rcases Slots.set_cases there with ⟨rfl, rfl⟩ | ⟨_, old⟩
    · rw [index]
      exact tracked.listed k before found (live unfinished)
    · exact tracked.listed k submission old unfinished
  · intro k submission there full
    rcases Slots.set_cases there with ⟨rfl, rfl⟩ | ⟨_, old⟩
    · have same := result.resolve_left full
      rw [same] at full
      obtain ⟨-, below, unread⟩ := tracked.buffered k before found full
      rw [index]
      exact ⟨left, below, unread⟩
    · exact tracked.buffered k submission old full
  · refine tracked.reading.carry retains fun k earlier later there now free => ?_
    rcases Slots.set_cases now with ⟨rfl, rfl⟩ | ⟨_, old⟩
    · rw [found] at there
      obtain rfl := Option.some.inj there
      rcases result with none_ | same
      · exact none_
      · rw [same, free]
    · rw [there] at old
      obtain rfl := Option.some.inj old
      exact free

/-- The call's own index is deleted as it returns. No other call waits there, since
the entry would have to be that call's. -/
theorem finish (found : rsm.submits[channel]? = some before)
    (unfinished : before.phase.unfinished = true) (err : SubmitErr) (value : Option Val) :
    ((rsm.forget before.commandId).setSubmission channel
      { before with phase := .returned err value }).Tracked s incarnation delivered := by
  have own := tracked.listed channel before found unfinished
  have returned : (rsm.setSubmission channel
      { before with phase := .returned err value }).Tracked s incarnation delivered :=
    tracked.setSubmission found rfl (by simp) rfl (by simp [SubmitPhase.unfinished]) (Or.inr rfl)
  refine ⟨returned.counted, returned.named, ?_, ?_, returned.buffered, returned.reading⟩
  · intro entry member
    exact returned.registered entry (List.mem_of_mem_filter member)
  · intro k submission there waits
    have listed := returned.listed k submission there waits
    rcases Slots.set_cases there with ⟨_, rfl⟩ | ⟨other, old⟩
    · cases waits
    · refine (rsm.forget_channelAt fun same => other ?_).trans listed
      have theirs := tracked.listed k submission old waits
      rw [same, own] at theirs
      exact (Option.some.inj theirs).symm

/-- `Start` has returned an index at which no call is under way. -/
theorem register (found : rsm.submits[channel]? = some before) (created : before.phase = .created)
    {commandId : Nat}
    (fresh : ∀ (k : Nat) (submission : Submission n Req Val),
      rsm.submits[k]? = some submission → submission.phase.unfinished = true →
      submission.commandId ≠ commandId) :
    (rsm.register channel before commandId).Tracked s incarnation delivered := by
  have retains : rsm.Retains (rsm.register channel before commandId) :=
    .of_set found rfl rfl (fun _ => by simp) (Or.inl created)
  have free : before.resultCh = none := by
    by_contra full
    exact (tracked.buffered channel before found full).1 created
  refine ⟨?_, ?_, ?_, ?_, ?_, ?_⟩
  · simp only [RSM.register, RSM.setSubmission, RSM.forget, List.length_set, tracked.counted]
  · exact tracked.set_named found rfl rfl
  · intro entry member
    rcases List.mem_cons.mp member with rfl | old
    · exact ⟨_, List.getElem?_set_self (List.getElem?_eq_some_iff.mp found).1, by simp, rfl⟩
    · exact tracked.still_registered retains entry (List.mem_of_mem_filter old)
  · intro k submission there waits
    rcases Slots.set_cases there with ⟨rfl, rfl⟩ | ⟨_, old⟩
    · exact List.lookup_cons_self
    · have apart := fresh k submission old waits
      have skipped : (submission.commandId == commandId) = false := by simp [apart]
      have kept := (rsm.forget_channelAt apart).trans (tracked.listed k submission old waits)
      simp only [RSM.channelAt, RSM.register, List.lookup_cons, skipped]
      exact kept
  · intro k submission there full
    rcases Slots.set_cases there with ⟨_, rfl⟩ | ⟨_, old⟩
    · exact absurd free full
    · exact tracked.buffered k submission old full
  · refine tracked.reading.carry retains fun k earlier later there now empty => ?_
    rcases Slots.set_cases now with ⟨_, rfl⟩ | ⟨_, old⟩
    · exact free
    · obtain rfl := Option.some.inj (there.symm.trans old)
      exact empty

/-- A result is put into the channel of a call whose index has been delivered. -/
theorem fill (found : rsm.submits[channel]? = some before) (started : before.phase ≠ .created)
    (below : before.commandId ≤ delivered) (result : ApplyResult Val) {reader : Reader n Req Val}
    (unread : ∀ commandId op value, reader ≠ .executed commandId op value)
    (reading : reader.Tracked
      (rsm.submits.set channel { before with resultCh := some result }) delivered) :
    RSM.Tracked s incarnation delivered
      { rsm.setSubmission channel { before with resultCh := some result } with reader } := by
  have retains : rsm.Retains (rsm.setSubmission channel { before with resultCh := some result }) :=
    .of_set found rfl rfl id (Or.inr rfl)
  refine ⟨?_, ?_, ?_, ?_, ?_, reading⟩
  · simp only [RSM.setSubmission, List.length_set, tracked.counted]
  · exact tracked.set_named found rfl rfl
  · exact tracked.still_registered retains
  · intro k submission there waits
    rcases Slots.set_cases there with ⟨rfl, rfl⟩ | ⟨_, old⟩
    · exact tracked.listed k before found waits
    · exact tracked.listed k submission old waits
  · intro k submission there full
    rcases Slots.set_cases there with ⟨_, rfl⟩ | ⟨_, old⟩
    · exact ⟨started, below, unread _⟩
    · obtain ⟨begun, under, -⟩ := tracked.buffered k submission old full
      exact ⟨begun, under, unread _⟩

end

end RSM.Tracked

/-- `Start` returns no index at which an earlier call of this process is under way. -/
def Service.freshIndex (σ : Service n M Req Val) : ServiceAction n Req → Bool
  | .start s channel =>
    match (σ.rsm s).submits[channel]? with
    | some submission =>
      (σ.rsm s).submits.all fun other => !(other.phase.unfinished &&
        other.commandId == ((σ.raft.nodes s).start (some submission.op)).2.index.toNat)
    | none => true
  | _ => true

namespace Service

variable {machine : StateMachine M Req Val} {σ σ' : Service n M Req Val} {s : Fin n}
  {channel : Nat}

/-- If the process that made the command lives, its call was given this index. -/
def Located (σ : Service n M Req Val) (op : Op n Req) (index : Nat) : Prop :=
  op.incarnation ≤ σ.raft.incarnation op.me ∧
    (op.incarnation = σ.raft.incarnation op.me → ∃ submission,
      (σ.rsm op.me).submits[op.id - 1]? = some submission ∧ submission.op = op ∧
        submission.phase ≠ .created ∧ submission.commandId = index)

theorem Located.mono {op : Op n Req} {index : Nat} (located : σ.Located op index)
    (grown : ∀ s, σ.raft.incarnation s ≤ σ'.raft.incarnation s)
    (lives : ∀ s, σ'.raft.incarnation s = σ.raft.incarnation s →
      (σ.rsm s).Retains (σ'.rsm s)) : σ'.Located op index := by
  obtain ⟨born, here⟩ := located
  refine ⟨born.trans (grown op.me), fun current => ?_⟩
  -- a command of the present process was one of the process before
  have alive : σ'.raft.incarnation op.me = σ.raft.incarnation op.me := by
    have later := grown op.me
    omega
  obtain ⟨submission, found, same, started, index⟩ := here (current.trans alive)
  obtain ⟨after, now, kept, begun, still⟩ := lives op.me alive _ submission found started
  exact ⟨after, now, kept.trans same, begun, still.trans index⟩

/-- `P` holds of the command, unless it is nil. -/
def ofOps (P : Op n Req → Nat → Prop) (command : Option (Op n Req)) (index : Nat) : Prop :=
  ∀ op, command = some op → P op index

theorem ofOps.mono {P Q : Op n Req → Nat → Prop} (weaken : ∀ op index, P op index → Q op index)
    (command : Option (Op n Req)) (index : Nat) (held : ofOps P command index) :
    ofOps Q command index :=
  fun op same => weaken op index (held op same)

/-- Every command in Raft sits at the index its call was given, and every process
keeps its calls and its map in step. -/
structure Registered (σ : Service n M Req Val) : Prop where
  regular : σ.raft.Regular
  placed : σ.raft.Placed (ofOps σ.Located)
  servers : ∀ s, (σ.rsm s).Tracked s (σ.raft.incarnation s) (σ.raft.delivered s)
  executed : ∀ s commandId op value, (σ.rsm s).reader = .executed commandId op value →
    σ.Located op commandId

namespace Registered

theorem init (machine : StateMachine M Req Val) (n : Nat) :
    (Service.init machine n : Service n M Req Val).Registered where
  regular := .init n _
  placed := .init (by simp [ofOps])
  servers s := .make machine [] s _ _
  executed := nofun

section

variable (registered : σ.Registered)

include registered

/-- One server moves, perhaps together with its Raft peer, and no process dies. -/
theorem update {rsm : RSM n M Req Val} (rsms : σ'.rsm = Function.update σ.rsm s rsm)
    (regular : σ'.raft.Regular) (lives : σ'.raft.incarnation = σ.raft.incarnation)
    (elsewhere : ∀ other, other ≠ s → σ'.raft.delivered other = σ.raft.delivered other)
    (placed : σ'.raft.Placed (ofOps fun op index => σ.Located op index ∨ σ'.Located op index))
    (retains : (σ.rsm s).Retains rsm)
    (tracked : rsm.Tracked s (σ.raft.incarnation s) (σ'.raft.delivered s))
    (executed : ∀ commandId op value, rsm.reader = .executed commandId op value →
      σ.Located op commandId) : σ'.Registered := by
  have located : ∀ op index, σ.Located op index → σ'.Located op index := by
    intro op index there
    refine there.mono (fun _ => by rw [lives]) fun other _ => ?_
    rw [rsms]
    exact (Function.forall_update_iff σ.rsm fun other rsm => (σ.rsm other).Retains rsm).mpr
      ⟨retains, fun _ _ => .of_submits rfl⟩ other
  refine ⟨regular, placed.mono (ofOps.mono fun op index there => there.elim (located op index) id),
    ?_, ?_⟩
  · intro other
    rw [lives, rsms]
    refine (Function.forall_update_iff σ.rsm fun other rsm =>
      rsm.Tracked other (σ.raft.incarnation other) (σ'.raft.delivered other)).mpr
        ⟨tracked, fun other apart => ?_⟩ other
    rw [elsewhere other apart]
    exact registered.servers other
  · intro other commandId op value reading
    rw [rsms] at reading
    by_cases here : other = s
    · subst here
      rw [Function.update_self] at reading
      exact located _ _ (executed _ _ _ reading)
    · rw [Function.update_of_ne here] at reading
      exact located _ _ (registered.executed other _ _ value reading)

/-- One server moves above Raft. -/
theorem setRsm {rsm : RSM n M Req Val} (raft : σ'.raft = σ.raft)
    (rsms : σ'.rsm = Function.update σ.rsm s rsm) (retains : (σ.rsm s).Retains rsm)
    (tracked : rsm.Tracked s (σ.raft.incarnation s) (σ.raft.delivered s))
    (read : ∀ commandId op value, rsm.reader = .executed commandId op value →
      (σ.rsm s).reader = .executed commandId op value) : σ'.Registered := by
  refine registered.update rsms (raft ▸ registered.regular) (by rw [raft])
    (fun _ _ => by rw [raft]) ?_ retains (raft ▸ tracked) ?_
  · rw [raft]
    exact registered.placed.mono (ofOps.mono fun _ _ => Or.inl)
  · intro commandId op value reading
    exact registered.executed s commandId op value (read _ _ _ reading)

variable {raft : Cluster n (Op n Req)}

/-- Raft moves, and the processes that have died are made anew. -/
theorem withRaft (regular : raft.Regular) (placed : raft.Placed (ofOps σ.Located))
    (grown : σ.raft.Grown raft)
    (silent : ∀ s, raft.incarnation s = σ.raft.incarnation s →
      raft.delivered s = σ.raft.delivered s) : (σ.withRaft machine raft).Registered := by
  have lives : ∀ s, raft.incarnation s = σ.raft.incarnation s →
      (σ.withRaft machine raft).rsm s = σ.rsm s := fun _ alive => if_pos alive
  have dies : ∀ s, raft.incarnation s ≠ σ.raft.incarnation s →
      (σ.withRaft machine raft).rsm s = RSM.make machine (raft.nodes s).persister.snapshot :=
    fun _ dead => if_neg dead
  have located : ∀ op index, σ.Located op index → (σ.withRaft machine raft).Located op index :=
    fun op index there => there.mono grown.incarnation fun s alive => by
      rw [lives s alive]
      exact .of_submits rfl
  refine ⟨regular, placed.mono (ofOps.mono located), ?_, ?_⟩
  · intro s
    by_cases alive : raft.incarnation s = σ.raft.incarnation s
    · rw [lives s alive, show (σ.withRaft machine raft).raft = raft from rfl, alive,
        silent s alive]
      exact registered.servers s
    · rw [dies s alive]
      exact .make machine _ s _ _
  · intro s commandId op value reading
    by_cases alive : raft.incarnation s = σ.raft.incarnation s
    · rw [lives s alive] at reading
      exact located _ _ (registered.executed s _ _ value reading)
    · rw [dies s alive] at reading
      cases reading

/-- Raft takes an action that neither starts a command nor delivers one. -/
theorem raft_step {action : Action n (Op n Req)} (moved : σ.raft.step action = some raft)
    (silent : ∀ s, action ≠ .applierSend s) (idle : ∀ s command, action ≠ .start s command) :
    (σ.withRaft machine raft).Registered := by
  refine registered.withRaft (registered.regular.step moved)
    (registered.placed.step registered.regular moved ?_) (Cluster.step_grown moved) ?_
  · intro s command same
    exact absurd same (idle s command)
  · intro s alive
    cases registered.regular.delivery moved s with
    | turned _ _ delivered _ => exact delivered
    | sent _ asked => exact absurd asked (silent s)
    | died _ _ dead => omega

/-- The index `Start` returns is the first one past the log. -/
theorem start_index (leads : (σ.raft.nodes s).state = .leader) (op : Op n Req) :
    ((σ.raft.nodes s).start (some op)).2.index.toNat = (σ.raft.logical s).length := by
  obtain ⟨core, rel⟩ := registered.regular.related
  have whole := (rel.nodes s).slice.length
  simp only [Raft.start, leads, ↓reduceIte, Raft.lastLogIndex, Raft.persist, List.length_append,
    List.length_singleton]
  omega

/-- A call is given an index and registered there, while Raft takes its command. -/
theorem start {submission : Submission n Req Val} (fresh : σ.freshIndex (.start s channel) = true)
    (found : (σ.rsm s).submits[channel]? = some submission) (created : submission.phase = .created)
    (leads : (σ.raft.nodes s).state = .leader) :
    Registered { σ.setRsm s ((σ.rsm s).register channel submission
        ((σ.raft.nodes s).start (some submission.op)).2.index.toNat) with
      raft := σ.raft.start s (some submission.op) } := by
  have tracked := registered.servers s
  obtain ⟨me, id, born⟩ := tracked.named channel submission found
  have step : σ.raft.step (.start s (some submission.op)) =
      some (σ.raft.start s (some submission.op)) := rfl
  obtain ⟨alive, delivered⟩ := σ.raft.start_lives s (some submission.op)
  have unused : ∀ (k : Nat) (other : Submission n Req Val),
      (σ.rsm s).submits[k]? = some other → other.phase.unfinished = true →
      other.commandId ≠ ((σ.raft.nodes s).start (some submission.op)).2.index.toNat := by
    intro k other there unfinished same
    simp only [freshIndex, found, List.all_eq_true] at fresh
    have clash := fresh other (List.mem_of_getElem? there)
    simp [unfinished, same] at clash
  have index := registered.start_index leads submission.op
  refine registered.update rfl (registered.regular.step step) alive ?_ ?_
    (.of_set found rfl rfl (fun _ => by simp) (Or.inl created)) ?_ ?_
  · intro other _
    exact congrFun delivered other
  · refine (registered.placed.mono (ofOps.mono fun _ _ => Or.inl)).step registered.regular step ?_
    rintro server _ ⟨⟩ _ op ⟨⟩
    -- the command goes to the index under which its call has just been registered
    refine Or.inr ⟨by rw [me, born, alive], fun _ => ?_⟩
    rw [me, id, ← index]
    simp only [Service.setRsm, Function.update_self, Nat.add_sub_cancel]
    exact ⟨_, Slots.set_self found, rfl, by simp, rfl⟩
  · rw [show (σ.raft.start s (some submission.op)).delivered s = σ.raft.delivered s from
      congrFun delivered s]
    exact tracked.register found created unused
  · exact fun commandId op value => registered.executed s commandId op value

/-- The next message is handed to `readApply`, which executes or restores it. -/
theorem delivered {msg : ApplyMsg (Op n Req)} (sent : σ.raft.applierSend s = some raft)
    (sending : (σ.raft.nodes s).applier = .sending msg) {rsm : RSM n M Req Val}
    (submits : rsm.submits = (σ.rsm s).submits)
    (tracked : rsm.Tracked s (σ.raft.incarnation s) msg.index)
    (executed : ∀ commandId op value, rsm.reader = .executed commandId op value →
      σ.Located op commandId) : Registered { σ.setRsm s rsm with raft } := by
  have step : σ.raft.step (.applierSend s) = some raft := sent
  have regular := registered.regular.step step
  have placed := registered.placed.step registered.regular step (by simp)
  obtain ⟨other, sending', rfl⟩ := Cluster.applierSend_inversion sent
  rw [sending] at sending'
  cases sending'
  refine registered.update rfl regular rfl ?_ (placed.mono (ofOps.mono fun _ _ => Or.inl))
    (.of_submits submits) ?_ executed
  · intro other apart
    exact Function.update_of_ne apart _ _
  · simp only [Function.update_self]
    exact tracked

/-- A process that dies of a nil command keeps none of its calls. -/
theorem nilCommand (sent : σ.raft.step (.applierSend s) = some raft) :
    (σ.withRaft machine (raft.restart s (raft.nodes s).persister)).Registered := by
  have crash : raft.step (.crash s) = some (raft.restart s (raft.nodes s).persister) := rfl
  have regular := registered.regular.step sent
  have placed := registered.placed.step registered.regular sent (by simp)
  refine registered.withRaft (regular.step crash) (placed.step regular crash (by simp))
    ((Cluster.step_grown sent).trans (Cluster.step_grown crash)) ?_
  intro other alive
  obtain ⟨msg, _, rfl⟩ := Cluster.applierSend_inversion sent
  by_cases here : other = s
  · simp [Cluster.restart, Cluster.setNode, here] at alive
  · simp [Cluster.restart, Cluster.setNode, here]

/-- The channel found is that of a call at the index just executed; nothing has been
put into it yet. -/
theorem lookup {commandId : Nat} {op : Op n Req} {value : Val}
    (executed : (σ.rsm s).reader = .executed commandId op value)
    (found : (σ.rsm s).channelAt commandId = some channel) :
    (σ.setRsm s { σ.rsm s with
      reader := .sending channel { opId := op.id, value := some value } }).Registered := by
  have tracked := registered.servers s
  have current := tracked.reading
  rw [executed] at current
  obtain ⟨submission, there, started, index⟩ :=
    tracked.registered _ (RSM.channelAt_mem found)
  refine registered.setRsm rfl rfl (.of_submits rfl)
    (tracked.setReader rfl rfl rfl (Nat.le_refl _) (by simp) ?_) (by simp)
  refine ⟨submission, there, started, Nat.le_of_eq (index.trans current), ?_⟩
  by_contra full
  obtain ⟨-, -, unread⟩ := tracked.buffered channel submission there full
  rw [index] at unread
  exact unread op value executed

/-- The calls to be told are those registered at or below the snapshot. -/
theorem lock {snapshotIndex : Nat} (restored : (σ.rsm s).reader = .restored snapshotIndex) :
    (σ.setRsm s { σ.rsm s with reader := .expiring (((σ.rsm s).resultByCommandId.filter
        (·.1 ≤ snapshotIndex)).map (·.2)) }).Registered := by
  have tracked := registered.servers s
  have reached := tracked.reading
  rw [restored] at reached
  refine registered.setRsm rfl rfl (.of_submits rfl)
    (tracked.setReader rfl rfl rfl (Nat.le_refl _) (by simp) ?_) (by simp)
  intro channel listed
  obtain ⟨entry, member, rfl⟩ := List.mem_map.mp listed
  obtain ⟨old, within⟩ := List.mem_filter.mp member
  obtain ⟨submission, found, started, index⟩ := tracked.registered entry old
  have covered : entry.1 ≤ snapshotIndex := by simpa using within
  exact ⟨submission, found, started, by rw [index]; exact covered.trans reached⟩

theorem expire {position : Nat} {channels : List Nat} {submission : Submission n Req Val}
    (expiring : (σ.rsm s).reader = .expiring channels) (listed : channels[position]? = some channel)
    (found : (σ.rsm s).submits[channel]? = some submission) :
    (σ.setRsm s { (σ.rsm s).setSubmission channel
        { submission with resultCh := some { opId := -1, value := none } } with
      reader := .expiring (channels.eraseIdx position) }).Registered := by
  have tracked := registered.servers s
  have reading := tracked.reading
  rw [expiring] at reading
  obtain ⟨same, there, started, below⟩ := reading channel (List.mem_of_getElem? listed)
  obtain rfl := Option.some.inj (there.symm.trans found)
  have retains : (σ.rsm s).Retains ((σ.rsm s).setSubmission channel
      { same with resultCh := some { opId := -1, value := none } }) :=
    .of_set found rfl rfl id (Or.inr rfl)
  refine registered.setRsm rfl rfl retains (tracked.fill found started below _ (by simp) ?_)
    (by simp)
  intro other remains
  obtain ⟨told, here, begun, under⟩ := reading other (List.mem_of_mem_eraseIdx remains)
  obtain ⟨after, now, -, left, index⟩ := retains other told here begun
  exact ⟨after, now, left, index ▸ under⟩

/-- One call of server `s` moves on. -/
theorem setSubmission {before after : Submission n Req Val}
    (found : (σ.rsm s).submits[channel]? = some before) (op : after.op = before.op)
    (left : after.phase ≠ .created) (index : after.commandId = before.commandId)
    (live : after.phase.unfinished = true → before.phase.unfinished = true)
    (result : after.resultCh = none ∨ after.resultCh = before.resultCh) :
    (σ.setRsm s ((σ.rsm s).setSubmission channel after)).Registered :=
  registered.setRsm rfl rfl (.of_set found rfl op (fun _ => left) (Or.inr index))
    ((registered.servers s).setSubmission found op left index live result) fun _ _ _ => id

theorem step {action : ServiceAction n Req} (fresh : σ.freshIndex action = true)
    (moved : σ.step machine action = some σ') : σ'.Registered := by
  cases step_outcome moved with
  | raft inside below =>
    refine registered.raft_step below ?_ ?_
    · rintro server rfl
      cases inside
    · rintro server command rfl
      cases inside
  | submit s req =>
    exact registered.setRsm rfl rfl (.enter _ _) ((registered.servers s).enter rfl rfl rfl)
      fun _ _ _ => id
  | refuse found | turnedAway found =>
    exact registered.setSubmission found rfl (by simp) rfl (by simp [SubmitPhase.unfinished])
      (Or.inr rfl)
  | start found created _ leads => exact registered.start fresh found created leads
  | leave found waiting =>
    exact registered.setSubmission found rfl (by simp) rfl (fun _ => by rw [waiting]; rfl)
      (Or.inr rfl)
  | take found waiting =>
    exact registered.setSubmission found rfl (by simp) rfl (fun _ => by rw [waiting]; rfl)
      (Or.inl rfl)
  | finish found _ unfinished =>
    exact registered.setRsm rfl rfl (.of_set found rfl rfl (fun _ => by simp) (Or.inr rfl))
      ((registered.servers _).finish found unfinished _ _) fun _ _ _ => id
  | @execute s _ op _ sent sending =>
    have next := (registered.regular.order s).next sending
    refine registered.delivered sent sending rfl ?_ ?_
    · refine (registered.servers s).setReader rfl rfl rfl
        (by simp only [ApplyMsg.index]; omega) ?_ rfl
      intro index op' value executed
      cases executed
      omega
    · intro index op' value executed
      cases executed
      exact (registered.placed.flight s _ sending).2 op rfl
  | nilCommand sent => exact registered.nilCommand sent
  | @restore s _ _ _ _ sent sending =>
    refine registered.delivered sent sending rfl ?_ (by simp)
    exact (registered.servers s).setReader rfl rfl rfl
      ((registered.regular.order s).forward sending) (by simp) (Nat.le_refl _)
  | snapshot _ below => exact registered.raft_step below (by simp) (by simp)
  | lookup executed listed => exact registered.lookup executed listed
  | @send s _ _ _ sending found =>
    have reading := (registered.servers s).reading
    rw [sending] at reading
    obtain ⟨same, there, started, below, -⟩ := reading
    obtain rfl := Option.some.inj (there.symm.trans found)
    exact registered.setRsm rfl rfl (.of_set found rfl rfl id (Or.inr rfl))
      ((registered.servers s).fill found started below _ (by simp) trivial) (by simp)
  | lock restored => exact registered.lock restored
  | expire expiring listed found => exact registered.expire expiring listed found
  | skip | unlock =>
    exact registered.setRsm rfl rfl (.of_submits rfl)
      ((registered.servers _).setReader rfl rfl rfl (Nat.le_refl _) (by simp) trivial)
      (by simp)

/-- A call under way whose own command has just been executed was given its index. -/
theorem own_index {submission : Submission n Req Val}
    (found : (σ.rsm s).submits[channel]? = some submission) {commandId : Nat} {value : Val}
    (executed : (σ.rsm s).reader = .executed commandId submission.op value) :
    submission.commandId = commandId := by
  obtain ⟨me, id, born⟩ := (registered.servers s).named channel submission found
  obtain ⟨-, placed⟩ := registered.executed s commandId submission.op value executed
  obtain ⟨same, there, -, -, index⟩ := placed (by rw [me, born])
  rw [me, id, Nat.add_sub_cancel, found] at there
  rwa [Option.some.inj there]

end

end Registered

/-- The runs in which `Start` never returns an index that is still in use. -/
abbrev FreshIndexRun (machine : StateMachine M Req Val) (trace : List (Service n M Req Val)) :
    Prop :=
  Runs.Run (step machine) (fun σ action => σ.freshIndex action = true) (init machine n) trace

/-- No lost registration: in such a run the map holds the channel of every call under
way at its index. If the call's own command is executed, the lookup finds that channel,
and the channel an announcement goes to takes it. -/
theorem registration_kept {trace : List (Service n M Req Val)}
    (run : FreshIndexRun machine trace) : ∀ σ ∈ trace, ∀ s,
      (∀ (channel : Nat) (submission : Submission n Req Val),
        (σ.rsm s).submits[channel]? = some submission → submission.phase.unfinished = true →
        (σ.rsm s).channelAt submission.commandId = some channel ∧
        ∀ commandId value, (σ.rsm s).reader = .executed commandId submission.op value →
          ∃ next, σ.lookup s = some next ∧
            (next.rsm s).reader =
              .sending channel { opId := submission.op.id, value := some value }) ∧
      ∀ channel result, (σ.rsm s).reader = .sending channel result →
        ∃ submission next, (σ.rsm s).submits[channel]? = some submission ∧
          σ.send s = some next ∧
          (next.rsm s).submits[channel]? =
            some { submission with resultCh := some result } := by
  have invariant : ∀ σ ∈ trace, σ.Registered :=
    run.invariant (.init machine n) fun _ _ _ fresh moved registered =>
      registered.step fresh moved
  intro σ member s
  have registered := invariant σ member
  have tracked := registered.servers s
  refine ⟨fun channel submission found unfinished => ?_, fun channel result sending => ?_⟩
  · have own := tracked.listed channel submission found unfinished
    refine ⟨own, fun commandId value executed => ?_⟩
    rw [registered.own_index found executed] at own
    refine ⟨σ.setRsm s { σ.rsm s with
      reader := .sending channel { opId := submission.op.id, value := some value } }, ?_, ?_⟩
    · simp only [Service.lookup, executed, own]
    · simp only [Service.setRsm, Function.update_self]
  · have reading := tracked.reading
    rw [sending] at reading
    obtain ⟨submission, found, -, -, free⟩ := reading
    have put : (σ.rsm s).deliver channel result =
        some ((σ.rsm s).setSubmission channel { submission with resultCh := some result }) := by
      simp [RSM.deliver, found, free]
    refine ⟨submission, σ.setRsm s { (σ.rsm s).setSubmission channel
      { submission with resultCh := some result } with reader := .receiving }, found, ?_, ?_⟩
    · simp only [Service.send, sending, put, Option.bind_eq_bind, Option.bind_some]
    · simp only [Service.setRsm, Function.update_self, RSM.setSubmission]
      exact List.getElem?_set_self (List.getElem?_eq_some_iff.mp found).1

/-- Server 0 leads and takes requests 5 and 6 at indices 1 and 2. The call for request 5
gets its result and cleans up before request 6 is executed. -/
def secondExecuted : List (ServiceAction 3 UInt8) :=
  [.raft (.startElection 0), .raft (.handleRequestVote 0), .raft (.receiveRequestVote 0),
    .submit 0 5, .start 0 0, .submit 0 6, .start 0 1,
    .raft (.replicateToFollower 0 1), .raft (.handleAppendEntries 0),
    .raft (.receiveAppendEntries 0),
    .raft (.applierRead 0), .receive 0, .lookup 0, .send 0, .take 0 0, .finish 0 0,
    .raft (.applierAck 0), .raft (.applierRead 0), .receive 0]

/-- The call for request 6, second on server 0. -/
def waitingSecond : Submission 3 UInt8 UInt8 where
  op := { firstOp 0 6 with id := 2 }
  commandId := 2
  resultCh := none
  phase := .waiting

/-- The entry of the first call is gone, that of the second is there. -/
theorem registration_kept_executed :
    ∃ trace : List (Service 3 Bytes UInt8 UInt8), FreshIndexRun echo trace ∧ ∃ σ ∈ trace,
      (σ.rsm 0).channelAt 1 = none ∧ (σ.rsm 0).channelAt 2 = some 1 ∧
        ∃ next, σ.lookup 0 = some next ∧
          (next.rsm 0).reader = .sending 1 { opId := 2, value := some 6 } := by
  obtain ⟨σ, past, run, ended⟩ := Runs.Run.ends (step echo) freshIndex (init echo 3)
    secondExecuted (fun σ => decide ((σ.rsm 0).submits[1]? = some waitingSecond ∧
      (σ.rsm 0).channelAt 1 = none ∧ (σ.rsm 0).reader = .executed 2 waitingSecond.op 6))
    (by decide +kernel)
  obtain ⟨found, gone, executed⟩ := decide_eq_true_eq.mp ended
  obtain ⟨calls, -⟩ := registration_kept run σ (List.mem_cons_self ..) 0
  obtain ⟨own, handed⟩ := calls 1 waitingSecond found rfl
  exact ⟨_, run, σ, List.mem_cons_self .., gone, own, handed 2 6 executed⟩

/-- Server 0 leads and takes requests 5 and 6 at indices 1 and 2. Server 1 is elected,
takes request 7 at index 1 and overwrites the log of server 0. Server 0 is elected
again and takes request 8 at index 2, where the call for request 6 still waits. That
call now sees the new term and returns. Then request 8 is committed and executed. -/
def indexUsedAgain : List (ServiceAction 3 UInt8) :=
  [.raft (.startElection 0), .raft (.handleRequestVote 0), .raft (.receiveRequestVote 0),
    .submit 0 5, .start 0 0, .submit 0 6, .start 0 1,
    .raft (.startElection 1), .raft (.handleRequestVote 3), .raft (.receiveRequestVote 3),
    .submit 1 7, .start 1 0,
    .raft (.replicateToFollower 1 0), .raft (.handleAppendEntries 0), .leave 0 0, .finish 0 0,
    .raft (.startElection 0), .raft (.handleRequestVote 5), .raft (.receiveRequestVote 5),
    .submit 0 8, .start 0 2, .leave 0 1, .finish 0 1,
    .raft (.replicateToFollower 0 1), .raft (.handleAppendEntries 1),
    .raft (.receiveAppendEntries 1),
    .raft (.applierRead 0), .receive 0, .lookup 0, .raft (.applierAck 0),
    .raft (.applierRead 0), .receive 0]

/-- The call for request 8, third on server 0. -/
def deregistered : Submission 3 UInt8 UInt8 where
  op := { me := 0, id := 3, req := 8, incarnation := 0 }
  commandId := 2
  resultCh := none
  phase := .waiting

/-- The call for request 6 has deleted the entry of the call for request 8, which
waits while its request is executed, and `readApply` finds nobody to tell. -/
theorem registration_lost :
    ∃ trace : List (Service 3 Bytes UInt8 UInt8),
      Runs.Run (step echo) (fun _ _ => True) (init echo 3) trace ∧ ∃ σ ∈ trace,
        (σ.rsm 0).submits[2]? = some deregistered ∧ (σ.rsm 0).submits.length = 3 ∧
        (σ.rsm 0).channelAt 2 = none ∧ (σ.rsm 0).reader = .executed 2 deregistered.op 8 ∧
        (σ.lookup 0).map (fun next => (next.rsm 0).reader) = some .receiving := by
  obtain ⟨σ, past, run, ended⟩ := Runs.Run.ends (step echo) (fun _ _ => true) (init echo 3)
    indexUsedAgain (fun σ => decide ((σ.rsm 0).submits[2]? = some deregistered ∧
      (σ.rsm 0).submits.length = 3 ∧ (σ.rsm 0).channelAt 2 = none ∧
      (σ.rsm 0).reader = .executed 2 deregistered.op 8 ∧
      (σ.lookup 0).map (fun next => (next.rsm 0).reader) = some .receiving)) (by decide +kernel)
  exact ⟨_, run.mono fun _ _ _ => trivial, σ, List.mem_cons_self .., decide_eq_true_eq.mp ended⟩

end Service

end KvStore
