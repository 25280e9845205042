import KvStore.Raft.Validity
import KvStore.Rsm.Identity

set_option autoImplicit false

/-! A call of `Submit` only moves forward, so its command is handed to Raft at most once
and Raft has it at one index only. -/

namespace KvStore

variable {n : Nat} {M Req Val : Type}

/-- How far a call has come. -/
def SubmitPhase.rank : SubmitPhase Val → Nat
  | .created => 0
  | .waiting => 1
  | .leaving => 2
  | .taken _ => 2
  | .returned _ _ => 3

/-- No call is new, and every call is still there with its command, no earlier than it
was. -/
structure RSM.Advances (rsm rsm' : RSM n M Req Val) : Prop where
  opId : rsm'.opId = rsm.opId
  length : rsm'.submits.length = rsm.submits.length
  calls : ∀ (k : Nat) (submission : Submission n Req Val), rsm.submits[k]? = some submission →
    ∃ after, rsm'.submits[k]? = some after ∧ after.op = submission.op ∧
      submission.phase.rank ≤ after.phase.rank

namespace RSM.Advances

variable {rsm rsm' : RSM n M Req Val}

theorem of_submits (submits : rsm'.submits = rsm.submits) (opId : rsm'.opId = rsm.opId) :
    rsm.Advances rsm' where
  opId := opId
  length := by rw [submits]
  calls _ submission found := ⟨submission, submits ▸ found, rfl, Nat.le_refl _⟩

theorem of_set {channel : Nat} {before after : Submission n Req Val}
    (found : rsm.submits[channel]? = some before)
    (set : rsm'.submits = rsm.submits.set channel after) (opId : rsm'.opId = rsm.opId)
    (op : after.op = before.op) (forward : before.phase.rank ≤ after.phase.rank) :
    rsm.Advances rsm' := by
  refine ⟨opId, by rw [set, List.length_set], ?_⟩
  intro k submission here
  rw [set]
  rcases Slots.set_kept found after here with ⟨_, rfl, now⟩ | ⟨_, now⟩
  · exact ⟨after, now, op, forward⟩
  · exact ⟨submission, now, rfl, Nat.le_refl _⟩

end RSM.Advances

namespace Service

variable {machine : StateMachine M Req Val} {σ σ' : Service n M Req Val} {s : Fin n}
  {action : ServiceAction n Req}

/-- What an action does to the calls of one server. -/
inductive CallsStep (machine : StateMachine M Req Val) (σ : Service n M Req Val)
    (action : ServiceAction n Req) (σ' : Service n M Req Val) (s : Fin n) : Prop
  | goesOn (lives : σ'.raft.incarnation s = σ.raft.incarnation s)
      (advances : (σ.rsm s).Advances (σ'.rsm s))
  | enters (req : Req) (asked : action = .submit s req)
      (lives : σ'.raft.incarnation s = σ.raft.incarnation s)
      (after : σ'.rsm s = (σ.rsm s).enter
        { me := s, id := (σ.rsm s).nextOpId, req, incarnation := σ.raft.incarnation s })
  | dies (later : σ.raft.incarnation s < σ'.raft.incarnation s) (data : Bytes)
      (after : σ'.rsm s = RSM.make machine data)

namespace CallsStep

variable {action : ServiceAction n Req}

/-- One server moves, and no process dies. -/
theorem update {server : Fin n} {rsm : RSM n M Req Val}
    (lives : σ'.raft.incarnation = σ.raft.incarnation)
    (rsms : σ'.rsm = Function.update σ.rsm server rsm)
    (advances : (σ.rsm server).Advances rsm) : CallsStep machine σ action σ' s := by
  refine .goesOn (congrFun lives s) ?_
  rw [rsms]
  exact (Function.forall_update_iff σ.rsm fun other rsm => (σ.rsm other).Advances rsm).mpr
    ⟨advances, fun _ _ => .of_submits rfl rfl⟩ s

theorem withRaft {raft : Cluster n (Op n Req)} (grown : σ.raft.Grown raft) :
    CallsStep machine σ action (σ.withRaft machine raft) s := by
  by_cases alive : raft.incarnation s = σ.raft.incarnation s
  · have same : (σ.withRaft machine raft).rsm s = σ.rsm s := if_pos alive
    exact .goesOn alive (by rw [same]; exact .of_submits rfl rfl)
  · exact .dies (Nat.lt_of_le_of_ne (grown.incarnation s) (Ne.symm alive)) _ (if_neg alive)

end CallsStep

theorem step_calls (moved : σ.step machine action = some σ') (s : Fin n) :
    CallsStep machine σ action σ' s := by
  cases step_outcome moved with
  | raft _ below | snapshot _ below => exact .withRaft (Cluster.step_grown below)
  | submit server req =>
    by_cases here : s = server
    · subst here
      exact .enters req rfl rfl (Function.update_self ..)
    · refine .goesOn rfl ?_
      simp only [submit, setRsm, Function.update_of_ne here]
      exact .of_submits rfl rfl
  | refuse found created | turnedAway found created =>
    refine .update rfl rfl (.of_set found rfl rfl rfl ?_)
    rw [created]
    exact Nat.zero_le _
  | @start server _ submission found created =>
    refine .update (σ.raft.start_lives server (some submission.op)).1 rfl
      (.of_set found rfl rfl rfl ?_)
    rw [created]
    exact Nat.zero_le _
  | leave found waiting | take found waiting =>
    refine .update rfl rfl (.of_set found rfl rfl rfl ?_)
    rw [waiting]
    exact Nat.le_succ 1
  | @finish _ _ submission _ _ found =>
    refine .update rfl rfl (.of_set found rfl rfl rfl ?_)
    cases submission.phase <;> simp [SubmitPhase.rank]
  | execute sent | restore sent =>
    obtain ⟨_, _, rfl⟩ := Cluster.applierSend_inversion sent
    exact .update rfl rfl (.of_submits rfl rfl)
  | @nilCommand server raft _ sent =>
    have died : raft.step (.crash server) = some _ := rfl
    exact .withRaft ((Cluster.step_grown sent).trans (Cluster.step_grown died))
  | send _ found | expire _ _ found =>
    exact .update rfl rfl (.of_set found rfl rfl rfl (Nat.le_refl _))
  | lookup | skip | lock | unlock => exact .update rfl rfl (.of_submits rfl rfl)

/-- The calls of every process are numbered in order, and so are their commands. -/
structure Named (σ : Service n M Req Val) : Prop where
  counted : ∀ s, (σ.rsm s).opId = (σ.rsm s).submits.length
  named : ∀ s (k : Nat) (submission : Submission n Req Val),
    (σ.rsm s).submits[k]? = some submission → submission.op.me = s ∧
      submission.op.id = k + 1 ∧ submission.op.incarnation = σ.raft.incarnation s

theorem Named.init (machine : StateMachine M Req Val) (n : Nat) :
    (Service.init machine n : Service n M Req Val).Named := ⟨fun _ => rfl, nofun⟩

theorem Named.step (named : σ.Named) (moved : σ.step machine action = some σ') : σ'.Named := by
  refine ⟨fun s => ?_, fun s k submission found => ?_⟩
  · cases step_calls moved s with
    | goesOn _ advances => rw [advances.opId, advances.length, named.counted s]
    | enters _ _ _ after =>
      rw [after, RSM.enter, RSM.nextOpId, List.length_append, named.counted s]
      rfl
    | dies _ _ after => rw [after]; rfl
  · cases step_calls moved s with
    | goesOn lives advances =>
      have inside := (List.getElem?_eq_some_iff.mp found).1
      rw [advances.length] at inside
      obtain ⟨after, now, op, _⟩ := advances.calls k _ (List.getElem?_eq_getElem inside)
      obtain rfl := Option.some.inj (found.symm.trans now)
      rw [op, lives]
      exact named.named s k _ (List.getElem?_eq_getElem inside)
    | enters req _ lives after =>
      rw [after] at found
      by_cases old : k < (σ.rsm s).submits.length
      · rw [RSM.enter, List.getElem?_append_left old] at found
        rw [lives]
        exact named.named s k submission found
      · have bound := (List.getElem?_eq_some_iff.mp found).1
        rw [RSM.enter, List.length_append, List.length_singleton] at bound
        obtain rfl : k = (σ.rsm s).submits.length := by omega
        rw [RSM.enter, List.getElem?_concat_length] at found
        obtain rfl := Option.some.inj found
        exact ⟨rfl, by rw [RSM.nextOpId, named.counted s], lives.symm⟩
    | dies _ _ after =>
      rw [after] at found
      cases found

/-- The command belongs to a call of its process that has come as far as `rank`. The
calls of a process that has died are gone. -/
def Reached (σ : Service n M Req Val) (rank : Nat) (op : Op n Req) : Prop :=
  op.incarnation ≤ σ.raft.incarnation op.me ∧
    (op.incarnation = σ.raft.incarnation op.me → ∃ submission,
      (σ.rsm op.me).submits[op.id - 1]? = some submission ∧ submission.op = op ∧
        rank ≤ submission.phase.rank)

theorem Reached.step {rank : Nat} {op : Op n Req} (reached : σ.Reached rank op)
    (moved : σ.step machine action = some σ') : σ'.Reached rank op := by
  obtain ⟨born, here⟩ := reached
  cases step_calls moved op.me with
  | goesOn lives advances =>
    rw [Reached, lives]
    refine ⟨born, fun current => ?_⟩
    obtain ⟨submission, found, same, far⟩ := here current
    obtain ⟨after, now, kept, forward⟩ := advances.calls _ submission found
    exact ⟨after, now, kept.trans same, far.trans forward⟩
  | enters _ _ lives after =>
    rw [Reached, lives, after]
    refine ⟨born, fun current => ?_⟩
    obtain ⟨submission, found, same, far⟩ := here current
    exact ⟨submission, RSM.enter_old found, same, far⟩
  | dies later _ _ => exact ⟨by omega, by omega⟩

/-- A call of the running process has reached the phase it is in. -/
theorem Named.reached (named : σ.Named) {channel : Nat} {submission : Submission n Req Val}
    (found : (σ.rsm s).submits[channel]? = some submission) :
    σ.Reached submission.phase.rank submission.op := by
  obtain ⟨me, id, incarnation⟩ := named.named s channel submission found
  rw [Reached, me, id, incarnation]
  exact ⟨Nat.le_refl _, fun _ => ⟨submission, found, rfl, Nat.le_refl _⟩⟩

/-- A command whose call has come further is not the command of this call. -/
theorem Named.ahead (named : σ.Named) {channel rank : Nat} {submission : Submission n Req Val}
    (found : (σ.rsm s).submits[channel]? = some submission)
    (behind : submission.phase.rank < rank) : ¬σ.Reached rank submission.op := by
  obtain ⟨me, id, incarnation⟩ := named.named s channel submission found
  rintro ⟨_, here⟩
  rw [me, id, incarnation] at here
  obtain ⟨other, there, _, far⟩ := here rfl
  obtain rfl := Option.some.inj (found.symm.trans there)
  omega

/-- Only a call that has just been created hands its command to Raft, and it moves on. -/
theorem step_raft_started (moved : σ.step machine action = some σ') :
    σ'.raft.started = σ.raft.started ∨ ∃ s, ∃ channel : Nat,
      ∃ submission : Submission n Req Val, ∃ index t,
      (σ.rsm s).submits[channel]? = some submission ∧ submission.phase = .created ∧
      σ'.raft.started = (s, index, t, some submission.op) :: σ.raft.started ∧
      (σ'.rsm s).submits[channel]? =
        some { submission with commandId := index, phase := .waiting } := by
  by_cases starts : ∃ s channel, action = .start s channel
  · obtain ⟨s, channel, rfl⟩ := starts
    cases step_outcome moved with
    | @start _ _ submission found created _ leads =>
      refine Or.inr ⟨s, channel, submission,
        ((σ.raft.nodes s).start (some submission.op)).2.index.toNat,
        ((σ.raft.nodes s).start (some submission.op)).2.term.toNat, found, created, ?_, ?_⟩
      · have accepted : ((σ.raft.nodes s).start (some submission.op)).2.isLeader = true := by
          simp only [Raft.start, leads, ↓reduceIte]
        simp only [Cluster.start, accepted, ↓reduceIte]
      · simp only [setRsm, Function.update_self, RSM.register, RSM.setSubmission]
        exact Slots.set_self found
    | turnedAway => exact Or.inl rfl
  · left
    refine step_raft_kept (fun raft => raft.started = σ.raft.started)
      (fun _ below => ∀ s command, below ≠ .start s command) ?_ moved ?_ ?_ ?_ rfl
    · intro raft below raft' idle step same
      rcases step_started step with kept | ⟨s, command, is, _⟩
      · exact kept.trans same
      · exact absurd is (idle s command)
    · rintro below rfl within s command rfl
      cases within
    · intro s channel command asked
      exact absurd ⟨s, channel, asked⟩ starts
    · intro raft s index data
      simp

/-- Every command has been handed to Raft at most once. -/
structure Single (σ : Service n M Req Val) : Prop where
  named : σ.Named
  filed : σ.raft.Filed
  begun : ∀ op index, σ.raft.StartedAt (some op) index → σ.Reached 1 op
  once : ∀ op index index', σ.raft.StartedAt (some op) index →
    σ.raft.StartedAt (some op) index' → index = index'

theorem Single.init (machine : StateMachine M Req Val) (n : Nat) :
    (Service.init machine n : Service n M Req Val).Single where
  named := .init machine n
  filed := .init n _
  begun := by rintro op index ⟨_, _, ⟨⟩⟩
  once := by rintro op index index' ⟨_, _, ⟨⟩⟩

theorem Single.step (single : σ.Single) (moved : σ.step machine action = some σ') : σ'.Single := by
  have named := single.named.step moved
  have filed : σ'.raft.Filed := step_raft_kept Cluster.Filed (fun _ _ => True)
    (fun _ _ _ _ below filed => filed.step below) moved (fun _ _ _ => trivial)
    (fun _ _ _ _ => trivial) (fun _ _ _ _ => ⟨trivial, trivial, trivial⟩) single.filed
  rcases step_raft_started moved with
    same | ⟨s, channel, submission, index, t, found, created, more, now⟩
  · have before : ∀ op index, σ'.raft.StartedAt (some op) index →
        σ.raft.StartedAt (some op) index := by
      rintro op index ⟨s, t, record⟩
      exact ⟨s, t, same ▸ record⟩
    exact ⟨named, filed, fun op index at_ => (single.begun op index (before _ _ at_)).step moved,
      fun op _ _ one other => single.once op _ _ (before _ _ one) (before _ _ other)⟩
  · have cases_ : ∀ op i, σ'.raft.StartedAt (some op) i →
        op = submission.op ∧ i = index ∨ σ.raft.StartedAt (some op) i := by
      rintro op i ⟨s, t, record⟩
      rw [more] at record
      rcases List.mem_cons.mp record with same | old
      · cases same
        exact Or.inl ⟨rfl, rfl⟩
      · exact Or.inr ⟨s, t, old⟩
    -- a call that has just been created has not handed its command over before
    have new : ∀ i, ¬σ.raft.StartedAt (some submission.op) i := by
      intro i at_
      refine single.named.ahead found ?_ (single.begun _ i at_)
      rw [created]
      exact Nat.zero_lt_one
    refine ⟨named, filed, fun op i at_ => ?_, fun op i j one other => ?_⟩
    · rcases cases_ op i at_ with ⟨rfl, _⟩ | old
      · exact named.reached now
      · exact (single.begun op i old).step moved
    · rcases cases_ op i one with ⟨rfl, rfl⟩ | old
      · rcases cases_ _ j other with ⟨_, rfl⟩ | old
        · rfl
        · exact absurd old (new j)
      · rcases cases_ op j other with ⟨rfl, _⟩ | old'
        · exact absurd old (new i)
        · exact single.once op i j old old'

/-- One call of `Submit` is executed at one index only: whatever servers deliver its
command, at whatever time, they deliver it at the same index. -/
theorem submitted_once {trace : List (Service n M Req Val)}
    (run : Runs.Run (step machine) (fun _ _ => True) (init machine n) trace) :
    ∀ σ ∈ trace, ∀ op a b index index', (a, .command (some op) index) ∈ σ.raft.applied →
      (b, .command (some op) index') ∈ σ.raft.applied → index = index' := by
  have single : ∀ σ ∈ trace, σ.Single :=
    run.invariant (.init machine n) fun _ _ _ _ moved single => single.step moved
  intro σ member op a b index index' one other
  have filed := (single σ member).filed
  exact (single σ member).once op index index' (filed.delivered one) (filed.delivered other)

/-- The command of `answeredOnce` reaches server 1 as well. -/
def answeredTwice : List (ServiceAction 3 UInt8) :=
  answeredOnce ++ [.raft (.replicateToFollower 0 1), .raft (.handleAppendEntries 1),
    .raft (.applierRead 1), .receive 1]

theorem submitted_once_answered :
    ∃ trace : List (Service 3 Bytes UInt8 UInt8),
      Runs.Run (step echo) (fun _ _ => True) (init echo 3) trace ∧ ∃ σ ∈ trace,
        (0, .command (some (firstOp 0 5)) 1) ∈ σ.raft.applied ∧
        (1, .command (some (firstOp 0 5)) 1) ∈ σ.raft.applied ∧
        ∀ b index, (b, .command (some (firstOp 0 5)) index) ∈ σ.raft.applied → index = 1 := by
  obtain ⟨past, run⟩ := Runs.Run.reached (step echo) (fun _ _ => true) (init echo 3)
    answeredTwice (by decide +kernel)
  have run : Runs.Run (step echo) (fun _ _ => True) _ _ := run.mono fun _ _ _ => trivial
  refine ⟨_, run, _, List.mem_cons_self .., by decide +kernel, by decide +kernel, ?_⟩
  intro b index delivered
  exact submitted_once run _ (List.mem_cons_self ..) _ b 0 index 1 delivered (by decide +kernel)

end Service

end KvStore
