import KvStore.Rsm.Identity

set_option autoImplicit false

/-! `readApply` and `Submit` on `rsm.mu` and the result channels: when they block
each other for good, and when they never do. -/

namespace KvStore

variable {n : Nat} {M Req Val : Type}

def SubmitPhase.isWaiting : SubmitPhase Val → Bool
  | .waiting => true
  | _ => false

/-- The call has left its select and needs the lock to go on. -/
def SubmitPhase.needsLock : SubmitPhase Val → Bool
  | .leaving => true
  | .taken _ => true
  | _ => false

/-- `readApply` holds the lock and has yet to send on a channel that is full, and the
call that could empty the channel waits for the lock. -/
def RSM.Deadlocked (rsm : RSM n M Req Val) : Prop :=
  ∃ channels channel submission, rsm.reader = .expiring channels ∧ channel ∈ channels ∧
    rsm.submits[channel]? = some submission ∧ submission.resultCh ≠ none ∧
    submission.phase.needsLock = true

/-- A call that `readApply` can tell without being blocked for good: its channel is
empty, or the call is there to empty it. -/
def Submission.Ready (submission : Submission n Req Val) : Prop :=
  submission.phase ≠ .created ∧ (submission.resultCh = none ∨ submission.phase = .waiting)

/-- Every channel on the map belongs to one call that has been started, and every
call still to be told of a snapshot is ready for it. -/
structure RSM.Orderly (rsm : RSM n M Req Val) : Prop where
  registered : ∀ entry ∈ rsm.resultByCommandId, ∃ submission,
    rsm.submits[entry.2]? = some submission ∧ submission.phase ≠ .created
  distinct : (rsm.resultByCommandId.map (·.2)).Nodup
  announcing : ∀ channels, rsm.reader = .expiring channels → channels.Nodup ∧
    ∀ channel ∈ channels, ∃ submission,
      rsm.submits[channel]? = some submission ∧ submission.Ready

theorem RSM.not_expiring {rsm : RSM n M Req Val} (free : rsm.muFree = true) (channels : List Nat) :
    rsm.reader ≠ .expiring channels := by
  intro held
  simp only [RSM.muFree, held, Bool.false_eq_true] at free

namespace RSM.Orderly

variable {rsm : RSM n M Req Val} {channel : Nat} {before after : Submission n Req Val}

theorem not_deadlocked (orderly : rsm.Orderly) : ¬ rsm.Deadlocked := by
  rintro ⟨channels, channel, submission, held, listed, found, full, left⟩
  obtain ⟨other, here, _, empty | waits⟩ := (orderly.announcing channels held).2 channel listed
  · rw [found] at here
    exact full (Option.some.inj here ▸ empty)
  · rw [found] at here
    rw [Option.some.inj here, waits] at left
    cases left

theorem make (machine : StateMachine M Req Val) (snapshot : Bytes) :
    (RSM.make machine snapshot : RSM n M Req Val).Orderly :=
  ⟨nofun, List.nodup_nil, nofun⟩

/-- `readApply` goes on without the lock. -/
theorem setReader (orderly : rsm.Orderly) {reader : Reader n Req Val} {sm : M}
    {done : List (Nat × Op n Req × Val)} (free : ∀ channels, reader ≠ .expiring channels) :
    RSM.Orderly { rsm with reader, sm, done } :=
  ⟨orderly.registered, orderly.distinct, fun channels held => absurd held (free channels)⟩

theorem enter (orderly : rsm.Orderly) (op : Op n Req) : (rsm.enter op).Orderly := by
  refine ⟨?_, orderly.distinct, ?_⟩
  · intro entry member
    obtain ⟨submission, found, started⟩ := orderly.registered entry member
    exact ⟨submission, RSM.enter_old found, started⟩
  · intro channels held
    obtain ⟨distinct, ready⟩ := orderly.announcing channels held
    refine ⟨distinct, ?_⟩
    intro channel listed
    obtain ⟨submission, found, fit⟩ := ready channel listed
    exact ⟨submission, RSM.enter_old found, fit⟩

theorem forget (orderly : rsm.Orderly) (commandId : Nat) : (rsm.forget commandId).Orderly := by
  refine ⟨?_, ?_, orderly.announcing⟩
  · intro entry member
    exact orderly.registered entry (List.mem_of_mem_filter member)
  · exact orderly.distinct.sublist (List.filter_sublist.map _)

/-- One call moves on. If it is still to be told of a snapshot, it stays ready. -/
theorem setSubmission (orderly : rsm.Orderly) (found : rsm.submits[channel]? = some before)
    (started : before.phase ≠ .created → after.phase ≠ .created)
    (ready : ∀ channels, rsm.reader = .expiring channels → channel ∈ channels → before.Ready →
      after.Ready) : (rsm.setSubmission channel after).Orderly := by
  refine ⟨?_, orderly.distinct, ?_⟩
  · intro entry member
    obtain ⟨submission, old, begun⟩ := orderly.registered entry member
    rcases Slots.set_kept found after old with ⟨_, rfl, now⟩ | ⟨_, now⟩
    · exact ⟨after, now, started begun⟩
    · exact ⟨submission, now, begun⟩
  · intro channels held
    obtain ⟨distinct, fit⟩ := orderly.announcing channels held
    refine ⟨distinct, ?_⟩
    intro other listed
    obtain ⟨submission, old, was⟩ := fit other listed
    rcases Slots.set_kept found after old with ⟨rfl, rfl, now⟩ | ⟨_, now⟩
    · exact ⟨after, now, ready channels held listed was⟩
    · exact ⟨submission, now, was⟩

/-- A call that has just been started is not on the map yet. -/
theorem register (orderly : rsm.Orderly) (found : rsm.submits[channel]? = some before)
    (fresh : before.phase = .created) (free : rsm.muFree = true) (commandId : Nat) :
    (rsm.register channel before commandId).Orderly := by
  have moved : ((rsm.forget commandId).setSubmission channel
      { before with commandId, phase := .waiting }).Orderly :=
    (orderly.forget commandId).setSubmission found (fun _ => nofun)
      (fun channels held => absurd held (RSM.not_expiring free channels))
  refine ⟨?_, ?_, moved.announcing⟩
  · intro entry member
    rcases List.mem_cons.mp member with rfl | old
    · exact ⟨_, List.getElem?_set_self (List.getElem?_eq_some_iff.mp found).1, nofun⟩
    · exact moved.registered entry old
  · refine List.nodup_cons.mpr ⟨?_, moved.distinct⟩
    intro listed
    obtain ⟨entry, member, same⟩ := List.mem_map.mp listed
    obtain ⟨submission, here, started⟩ :=
      orderly.registered entry (List.mem_of_mem_filter member)
    rw [same, found] at here
    exact started (Option.some.inj here ▸ fresh)

end RSM.Orderly

/-- When `readApply` takes the lock to announce a snapshot, every call registered at
or below it is in its select, and none of them leaves its select through the timer
before it has been told. -/
def Service.staysForSnapshot (σ : Service n M Req Val) : ServiceAction n Req → Bool
  | .lock s =>
    match (σ.rsm s).reader with
    | .restored snapshotIndex =>
      ((σ.rsm s).resultByCommandId.filter (·.1 ≤ snapshotIndex)).all fun entry =>
        (σ.rsm s).submits[entry.2]?.all (·.phase.isWaiting)
    | _ => true
  | .leave s channel =>
    match (σ.rsm s).reader with
    | .expiring channels => !channels.contains channel
    | _ => true
  | _ => true

namespace Service

variable {machine : StateMachine M Req Val} {σ σ' : Service n M Req Val} {s : Fin n}

/-- The RSM of every server is orderly. -/
def Orderly (σ : Service n M Req Val) : Prop := ∀ s, (σ.rsm s).Orderly

theorem Orderly.init (machine : StateMachine M Req Val) (n : Nat) :
    (Service.init machine n : Service n M Req Val).Orderly := fun _ => .make machine []

section

variable (orderly : σ.Orderly)

include orderly

theorem Orderly.setRsm {rsm : RSM n M Req Val} (same : σ'.rsm = Function.update σ.rsm s rsm)
    (holds : rsm.Orderly) : σ'.Orderly := by
  intro other
  rw [same]
  exact (Function.forall_update_iff σ.rsm fun _ rsm => rsm.Orderly).mpr
    ⟨holds, fun other _ => orderly other⟩ other

theorem Orderly.withRaft (raft : Cluster n (Op n Req)) : (σ.withRaft machine raft).Orderly := by
  intro other
  dsimp only [Service.withRaft]
  split
  · exact orderly other
  · exact .make machine _

/-- The announcement begins with every call concerned in its select. -/
theorem Orderly.lock (stays : σ.staysForSnapshot (.lock s) = true) {snapshotIndex : Nat}
    (restored : (σ.rsm s).reader = .restored snapshotIndex) :
    (σ.setRsm s { σ.rsm s with reader := .expiring (((σ.rsm s).resultByCommandId.filter
        (·.1 ≤ snapshotIndex)).map (·.2)) }).Orderly := by
  have old := orderly s
  simp only [staysForSnapshot, restored, List.all_eq_true] at stays
  refine orderly.setRsm rfl ⟨old.registered, old.distinct, ?_⟩
  intro channels held
  obtain rfl := Reader.expiring.inj held
  refine ⟨old.distinct.sublist (List.filter_sublist.map _), ?_⟩
  intro channel listed
  obtain ⟨entry, member, rfl⟩ := List.mem_map.mp listed
  obtain ⟨submission, found, started⟩ :=
    old.registered entry (List.mem_of_mem_filter member)
  have waits := stays entry member
  rw [found, Option.all_some] at waits
  refine ⟨submission, found, started, Or.inr ?_⟩
  cases phase : submission.phase with
  | waiting => rfl
  | _ =>
    rw [phase] at waits
    cases waits

/-- Each call is told once, so filling its channel blocks nobody else. -/
theorem Orderly.expire {position channel : Nat} {channels : List Nat}
    {submission : Submission n Req Val} (held : (σ.rsm s).reader = .expiring channels)
    (listed : channels[position]? = some channel)
    (found : (σ.rsm s).submits[channel]? = some submission) :
    (σ.setRsm s { (σ.rsm s).setSubmission channel
        { submission with resultCh := some { opId := -1, value := none } } with
      reader := .expiring (channels.eraseIdx position) }).Orderly := by
  have old := orderly s
  obtain ⟨distinct, ready⟩ := old.announcing channels held
  -- the channel is taken off the list before the rest is looked at
  have idle : RSM.Orderly { σ.rsm s with reader := .receiving } := old.setReader nofun
  have filled : (RSM.setSubmission { σ.rsm s with reader := .receiving } channel
      { submission with resultCh := some { opId := -1, value := none } }).Orderly :=
    idle.setSubmission found id nofun
  refine orderly.setRsm rfl ⟨filled.registered, filled.distinct, ?_⟩
  intro rest still
  obtain rfl := Reader.expiring.inj still
  refine ⟨distinct.sublist (List.eraseIdx_sublist ..), ?_⟩
  intro other remains
  obtain ⟨told, here, fit⟩ := ready other (List.mem_of_mem_eraseIdx remains)
  have apart : channel ≠ other := by
    rintro rfl
    obtain ⟨bound, here⟩ := List.getElem?_eq_some_iff.mp listed
    rw [← distinct.erase_getElem position bound, here] at remains
    exact distinct.not_mem_erase remains
  exact ⟨told, (List.getElem?_set_ne apart).trans here, fit⟩

/-- One call of server `s` moves on. -/
theorem Orderly.setSubmission {channel : Nat} {before after : Submission n Req Val}
    (found : (σ.rsm s).submits[channel]? = some before) (started : after.phase ≠ .created)
    (ready : ∀ channels, (σ.rsm s).reader = .expiring channels → channel ∈ channels →
      before.Ready → after.Ready) : (σ.setRsm s ((σ.rsm s).setSubmission channel after)).Orderly :=
  orderly.setRsm rfl ((orderly s).setSubmission found (fun _ => started) ready)

theorem Orderly.step {action : ServiceAction n Req} (stays : σ.staysForSnapshot action = true)
    (moved : σ.step machine action = some σ') : σ'.Orderly := by
  cases step_outcome moved with
  | raft | nilCommand | snapshot => exact orderly.withRaft _
  | submit s req => exact orderly.setRsm rfl ((orderly s).enter _)
  | refuse found created =>
    refine orderly.setSubmission found (by simp) ?_
    rintro _ _ _ ⟨started, _⟩
    exact absurd created started
  | start found created free =>
    exact orderly.setRsm rfl ((orderly _).register found created free _)
  | turnedAway found _ free =>
    refine orderly.setSubmission found (by simp) ?_
    intro channels held
    exact absurd held (RSM.not_expiring free channels)
  | leave found =>
    refine orderly.setSubmission found (by simp) ?_
    intro channels held listed
    simp only [staysForSnapshot, held, List.contains_eq_mem, listed, decide_true, Bool.not_true,
      Bool.false_eq_true] at stays
  | take found =>
    refine orderly.setSubmission found (by simp) ?_
    intro _ _ _ _
    exact ⟨by simp, Or.inl rfl⟩
  | @finish _ _ submission _ _ found free =>
    refine orderly.setRsm rfl
      (((orderly _).forget submission.commandId).setSubmission found (by simp) ?_)
    intro channels held
    exact absurd held (RSM.not_expiring free channels)
  | @send s channel result submission sending found =>
    have filled : ((σ.rsm s).setSubmission channel
        { submission with resultCh := some result }).Orderly := by
      refine (orderly s).setSubmission found id ?_
      intro channels held
      rw [sending] at held
      cases held
    exact orderly.setRsm rfl (filled.setReader (by simp))
  | lock restored => exact orderly.lock stays restored
  | expire held listed found => exact orderly.expire held listed found
  | execute | restore | lookup | skip | unlock =>
    exact orderly.setRsm rfl ((orderly _).setReader (by simp))

end

/-- The runs in which every call to be told of a snapshot waits for it. -/
abbrev StayingRun (machine : StateMachine M Req Val) (trace : List (Service n M Req Val)) : Prop :=
  Runs.Run (step machine) (fun σ action => σ.staysForSnapshot action = true) (init machine n) trace

/-- No deadlock: in such a run `readApply` never holds the lock in front of a full
channel whose call waits for the lock. -/
theorem no_deadlock {trace : List (Service n M Req Val)} (run : StayingRun machine trace) :
    ∀ σ ∈ trace, ∀ s, ¬ (σ.rsm s).Deadlocked := by
  have orderly : ∀ σ ∈ trace, σ.Orderly :=
    run.invariant (.init machine n) fun _ _ _ stays moved orderly => orderly.step stays moved
  intro σ member s
  exact (orderly σ member s).not_deadlocked

/-- Server 0 takes request 5 at index 1 and executes it, and its call is sent the
result. Server 1 is elected, takes request 6 at index 2, executes both and compacts
its log. Server 0 is sent the snapshot and restores it. -/
def resultThenSnapshot (between : List (ServiceAction 3 UInt8)) : List (ServiceAction 3 UInt8) :=
  ([.raft (.startElection 0), .raft (.handleRequestVote 0), .raft (.receiveRequestVote 0),
    .submit 0 5, .start 0 0,
    .raft (.replicateToFollower 0 1), .raft (.handleAppendEntries 0),
    .raft (.receiveAppendEntries 0), .raft (.applierRead 0), .receive 0, .lookup 0, .send 0,
    .raft (.applierAck 0)] : List (ServiceAction 3 UInt8)) ++ between ++
  ([.raft (.startElection 1), .raft (.handleRequestVote 3), .raft (.receiveRequestVote 3),
    .submit 1 6, .start 1 0,
    .raft (.replicateToFollower 1 2), .raft (.handleAppendEntries 1),
    .raft (.receiveAppendEntries 1),
    .raft (.replicateToFollower 1 2), .raft (.handleAppendEntries 2),
    .raft (.receiveAppendEntries 2),
    .raft (.applierRead 1), .receive 1, .lookup 1, .raft (.applierAck 1),
    .raft (.applierRead 1), .receive 1, .snapshot 1,
    .raft (.replicateToFollower 1 0), .raft (.handleInstallSnapshot 0),
    .raft (.applierRead 0), .receive 0, .lock 0] : List (ServiceAction 3 UInt8))

/-- The call is still in its select when the snapshot is announced. -/
theorem no_deadlock_waiting :
    ∃ trace : List (Service 3 Bytes UInt8 UInt8), StayingRun echo trace ∧ ∃ σ ∈ trace,
      (σ.rsm 0).reader = .expiring [0] ∧
      (σ.rsm 0).submits[0]?.any (·.resultCh.isSome) = true ∧ ¬ (σ.rsm 0).Deadlocked := by
  obtain ⟨σ, past, run, ended⟩ := Runs.Run.ends (step echo) staysForSnapshot (init echo 3)
    (resultThenSnapshot []) (fun σ => decide ((σ.rsm 0).reader = .expiring [0]) &&
      (σ.rsm 0).submits[0]?.any (·.resultCh.isSome)) (by decide +kernel)
  simp only [Bool.and_eq_true, decide_eq_true_eq] at ended
  exact ⟨_, run, σ, List.mem_cons_self .., ended.1, ended.2,
    no_deadlock run σ (List.mem_cons_self ..) 0⟩

/-- The call of server 0, out of its select with its result still in the channel. -/
def leftBehind : Submission 3 UInt8 UInt8 where
  op := firstOp 0 5
  commandId := 1
  resultCh := some { opId := 1, value := some 5 }
  phase := .leaving

/-- The call has left its select through the timer as its result arrived: `readApply`
holds the lock and cannot send, and the call cannot get the lock. -/
theorem deadlock_reached :
    ∃ trace : List (Service 3 Bytes UInt8 UInt8),
      Runs.Run (step echo) (fun _ _ => True) (init echo 3) trace ∧ ∃ σ ∈ trace,
        (σ.rsm 0).Deadlocked ∧ (σ.rsm 0).reader = .expiring [0] ∧
        (σ.expire 0 0).isNone ∧ (σ.finish 0 0).isNone := by
  obtain ⟨σ, past, run, ended⟩ := Runs.Run.ends (step echo) (fun _ _ => true) (init echo 3)
    (resultThenSnapshot [.leave 0 0]) (fun σ => decide ((σ.rsm 0).reader = .expiring [0] ∧
      (σ.rsm 0).submits[0]? = some leftBehind ∧ (σ.expire 0 0).isNone ∧ (σ.finish 0 0).isNone))
    (by decide +kernel)
  obtain ⟨expiring, left, cannotSend, cannotLock⟩ := decide_eq_true_eq.mp ended
  exact ⟨_, run.mono fun _ _ _ => trivial, σ, List.mem_cons_self ..,
    ⟨[0], 0, leftBehind, expiring, List.mem_singleton_self 0, left, nofun, rfl⟩, expiring,
    cannotSend, cannotLock⟩

end Service

end KvStore
