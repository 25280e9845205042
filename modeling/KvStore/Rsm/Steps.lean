import KvStore.Lib.Slots
import KvStore.Raft.Steps
import KvStore.Rsm.Model

set_option autoImplicit false

/-! What each action of the service can do, guards included. -/

namespace KvStore

variable {n : Nat} {M Req Val : Type}

/-- The call has been started and has not returned. -/
def SubmitPhase.unfinished : SubmitPhase Val → Bool
  | .waiting => true
  | .leaving => true
  | .taken _ => true
  | _ => false

theorem RSM.deliver_inversion {rsm rsm' : RSM n M Req Val} {channel : Nat}
    {result : ApplyResult Val} (delivered : rsm.deliver channel result = some rsm') :
    ∃ submission, rsm.submits[channel]? = some submission ∧ submission.resultCh = none ∧
      rsm' = rsm.setSubmission channel { submission with resultCh := some result } := by
  obtain ⟨submission, found, rest⟩ := Option.bind_eq_some_iff.mp delivered
  split at rest
  · rename_i free
    exact ⟨submission, found, free, (Option.some.inj rest).symm⟩
  · cases rest

namespace Service

variable {machine : StateMachine M Req Val} {σ σ' : Service n M Req Val} {s : Fin n}
  {channel : Nat}

/-- What an action of the service can do, guards included. -/
inductive Outcome (machine : StateMachine M Req Val) (σ : Service n M Req Val) :
    ServiceAction n Req → Service n M Req Val → Prop
  | raft {action : Action n (Op n Req)} {raft : Cluster n (Op n Req)}
      (inside : internal action = true) (below : σ.raft.step action = some raft) :
      Outcome machine σ (.raft action) (σ.withRaft machine raft)
  | submit (s : Fin n) (req : Req) : Outcome machine σ (.submit s req) (σ.submit s req)
  | refuse {s : Fin n} {channel : Nat} {submission : Submission n Req Val}
      (found : (σ.rsm s).submits[channel]? = some submission)
      (created : submission.phase = .created) (follows : (σ.raft.nodes s).state ≠ .leader) :
      Outcome machine σ (.refuse s channel) (σ.setRsm s ((σ.rsm s).setSubmission channel
        { submission with phase := .returned .wrongLeader none }))
  | start {s : Fin n} {channel : Nat} {submission : Submission n Req Val}
      (found : (σ.rsm s).submits[channel]? = some submission)
      (created : submission.phase = .created) (free : (σ.rsm s).muFree = true)
      (leads : (σ.raft.nodes s).state = .leader) :
      Outcome machine σ (.start s channel)
        { σ.setRsm s ((σ.rsm s).register channel submission
            ((σ.raft.nodes s).start (some submission.op)).2.index.toNat) with
          raft := σ.raft.start s (some submission.op) }
  | turnedAway {s : Fin n} {channel : Nat} {submission : Submission n Req Val}
      (found : (σ.rsm s).submits[channel]? = some submission)
      (created : submission.phase = .created) (free : (σ.rsm s).muFree = true)
      (follows : (σ.raft.nodes s).state ≠ .leader) :
      Outcome machine σ (.start s channel) (σ.setRsm s ((σ.rsm s).setSubmission channel
        { submission with phase := .returned .wrongLeader none }))
  | leave {s : Fin n} {channel : Nat} {submission : Submission n Req Val}
      (found : (σ.rsm s).submits[channel]? = some submission)
      (waiting : submission.phase = .waiting) :
      Outcome machine σ (.leave s channel)
        (σ.setRsm s ((σ.rsm s).setSubmission channel { submission with phase := .leaving }))
  | take {s : Fin n} {channel : Nat} {submission : Submission n Req Val}
      {result : ApplyResult Val} (found : (σ.rsm s).submits[channel]? = some submission)
      (waiting : submission.phase = .waiting) (full : submission.resultCh = some result) :
      Outcome machine σ (.take s channel) (σ.setRsm s ((σ.rsm s).setSubmission channel
        { submission with phase := .taken result, resultCh := none }))
  -- `Submit` reaches its last section only from its select, and answers OK only from a
  -- result that carries its own id
  | finish {s : Fin n} {channel : Nat} {submission : Submission n Req Val} {err : SubmitErr}
      {value : Option Val} (found : (σ.rsm s).submits[channel]? = some submission)
      (free : (σ.rsm s).muFree = true) (unfinished : submission.phase.unfinished = true)
      (answered : err = .ok → ∃ result, submission.phase = .taken result ∧
        result.opId = submission.op.id ∧ value = result.value) :
      Outcome machine σ (.finish s channel)
        (σ.setRsm s (((σ.rsm s).forget submission.commandId).setSubmission channel
          { submission with phase := .returned err value }))
  | execute {s : Fin n} {raft : Cluster n (Op n Req)} {op : Op n Req} {commandId : Nat}
      (sent : σ.raft.step (.applierSend s) = some raft)
      (sending : (σ.raft.nodes s).applier = .sending (.command (some op) commandId)) :
      Outcome machine σ (.receive s)
        { σ.setRsm s { σ.rsm s with
            sm := (machine.doOp (σ.rsm s).sm op.req).1
            reader := .executed commandId op (machine.doOp (σ.rsm s).sm op.req).2
            done := (commandId, op, (machine.doOp (σ.rsm s).sm op.req).2) :: (σ.rsm s).done } with
          raft }
  | nilCommand {s : Fin n} {raft : Cluster n (Op n Req)} {commandId : Nat}
      (sent : σ.raft.step (.applierSend s) = some raft)
      (sending : (σ.raft.nodes s).applier = .sending (.command none commandId)) :
      Outcome machine σ (.receive s)
        (σ.withRaft machine (raft.restart s (raft.nodes s).persister))
  | restore {s : Fin n} {raft : Cluster n (Op n Req)} {data : Bytes} {term snapshotIndex : Nat}
      (sent : σ.raft.step (.applierSend s) = some raft)
      (sending : (σ.raft.nodes s).applier = .sending (.snapshot data term snapshotIndex)) :
      Outcome machine σ (.receive s)
        { σ.setRsm s { σ.rsm s with
            sm := machine.restore data (σ.rsm s).sm
            reader := .restored snapshotIndex } with
          raft }
  | snapshot {s : Fin n} {commandId : Nat} {op : Op n Req} {value : Val}
      {raft : Cluster n (Op n Req)} (executed : (σ.rsm s).reader = .executed commandId op value)
      (below : σ.raft.step (.snapshot s commandId (machine.snapshot (σ.rsm s).sm)) = some raft) :
      Outcome machine σ (.snapshot s) (σ.withRaft machine raft)
  | lookup {s : Fin n} {commandId channel : Nat} {op : Op n Req} {value : Val}
      (executed : (σ.rsm s).reader = .executed commandId op value)
      (listed : (σ.rsm s).channelAt commandId = some channel) :
      Outcome machine σ (.lookup s) (σ.setRsm s { σ.rsm s with
        reader := .sending channel { opId := op.id, value := some value } })
  | skip {s : Fin n} {commandId : Nat} {op : Op n Req} {value : Val}
      (executed : (σ.rsm s).reader = .executed commandId op value) :
      Outcome machine σ (.lookup s) (σ.setRsm s { σ.rsm s with reader := .receiving })
  | send {s : Fin n} {channel : Nat} {result : ApplyResult Val}
      {submission : Submission n Req Val} (sending : (σ.rsm s).reader = .sending channel result)
      (found : (σ.rsm s).submits[channel]? = some submission)
      (empty : submission.resultCh = none) :
      Outcome machine σ (.send s) (σ.setRsm s
        { (σ.rsm s).setSubmission channel { submission with resultCh := some result } with
          reader := .receiving })
  | lock {s : Fin n} {snapshotIndex : Nat}
      (restored : (σ.rsm s).reader = .restored snapshotIndex) :
      Outcome machine σ (.lock s) (σ.setRsm s { σ.rsm s with
        reader := .expiring
          (((σ.rsm s).resultByCommandId.filter (·.1 ≤ snapshotIndex)).map (·.2)) })
  | expire {s : Fin n} {position channel : Nat} {channels : List Nat}
      {submission : Submission n Req Val} (expiring : (σ.rsm s).reader = .expiring channels)
      (listed : channels[position]? = some channel)
      (found : (σ.rsm s).submits[channel]? = some submission)
      (empty : submission.resultCh = none) :
      Outcome machine σ (.expire s position) (σ.setRsm s
        { (σ.rsm s).setSubmission channel
            { submission with resultCh := some { opId := -1, value := none } } with
          reader := .expiring (channels.eraseIdx position) })
  | unlock {s : Fin n} (expiring : (σ.rsm s).reader = .expiring []) :
      Outcome machine σ (.unlock s) (σ.setRsm s { σ.rsm s with reader := .receiving })

theorem step_outcome {action : ServiceAction n Req} (moved : σ.step machine action = some σ') :
    Outcome machine σ action σ' := by
  cases action with
  | raft action =>
    simp only [step] at moved
    split at moved
    · rename_i inside
      obtain ⟨raft, below, rfl⟩ := Option.map_eq_some_iff.mp moved
      exact .raft inside below
    · cases moved
  | submit s req =>
    obtain rfl := Option.some.inj moved
    exact .submit s req
  | refuse s channel =>
    obtain ⟨submission, found, rest⟩ := Option.bind_eq_some_iff.mp moved
    split at rest
    · rename_i created
      split at rest
      · rename_i follows
        obtain rfl := Option.some.inj rest
        exact .refuse found created follows
      · cases rest
    · cases rest
  | start s channel =>
    obtain ⟨submission, found, rest⟩ := Option.bind_eq_some_iff.mp moved
    split at rest
    · rename_i created free
      by_cases leads : (σ.raft.nodes s).state = .leader
      · have started : Outcome machine σ (.start s channel) _ := .start found created free leads
        simp only [Raft.start, leads, ↓reduceIte] at rest started
        obtain rfl := Option.some.inj rest
        exact started
      · simp only [Raft.start, leads, ↓reduceIte, Bool.false_eq_true] at rest
        obtain rfl := Option.some.inj rest
        exact .turnedAway found created free leads
    · cases rest
  | leave s channel =>
    obtain ⟨submission, found, rest⟩ := Option.bind_eq_some_iff.mp moved
    split at rest
    · rename_i waiting
      obtain rfl := Option.some.inj rest
      exact .leave found waiting
    · cases rest
  | take s channel =>
    obtain ⟨submission, found, rest⟩ := Option.bind_eq_some_iff.mp moved
    split at rest
    · rename_i result waiting full
      obtain rfl := Option.some.inj rest
      exact .take found waiting full
    · cases rest
  | finish s channel =>
    obtain ⟨submission, found, rest⟩ := Option.bind_eq_some_iff.mp moved
    split at rest
    · rename_i free
      split at rest
      · rename_i leaving
        obtain rfl := Option.some.inj rest
        exact .finish found free (by rw [leaving]; rfl) (by simp)
      · rename_i result taken
        have unfinished : submission.phase.unfinished = true := by rw [taken]; rfl
        split at rest
        · obtain rfl := Option.some.inj rest
          exact .finish found free unfinished (by simp)
        · rename_i same
          obtain rfl := Option.some.inj rest
          exact .finish found free unfinished fun _ => ⟨result, taken, not_not.mp same, rfl⟩
      · cases rest
    · cases rest
  | receive s =>
    simp only [step, receive] at moved
    split at moved
    · rename_i sending sent
      obtain rfl := Option.some.inj moved
      exact .execute sent sending
    · rename_i sending sent
      obtain rfl := Option.some.inj moved
      exact .nilCommand sent sending
    · rename_i sending sent
      obtain rfl := Option.some.inj moved
      exact .restore sent sending
    · cases moved
  | snapshot s =>
    simp only [step, snapshot] at moved
    split at moved
    · rename_i executed
      obtain ⟨raft, below, rest⟩ := Option.bind_eq_some_iff.mp moved
      obtain rfl := Option.some.inj rest
      exact .snapshot executed below
    · cases moved
  | lookup s =>
    simp only [step, lookup] at moved
    split at moved
    · rename_i executed
      split at moved
      · rename_i listed
        obtain rfl := Option.some.inj moved
        exact .lookup executed listed
      · obtain rfl := Option.some.inj moved
        exact .skip executed
    · cases moved
  | send s =>
    simp only [step, send] at moved
    split at moved
    · rename_i sending
      obtain ⟨rsm, delivered, rest⟩ := Option.bind_eq_some_iff.mp moved
      obtain ⟨submission, found, empty, rfl⟩ := RSM.deliver_inversion delivered
      obtain rfl := Option.some.inj rest
      exact .send sending found empty
    · cases moved
  | lock s =>
    simp only [step, lock] at moved
    split at moved
    · rename_i restored
      obtain rfl := Option.some.inj moved
      exact .lock restored
    · cases moved
  | expire s position =>
    simp only [step, expire] at moved
    split at moved
    · rename_i expiring
      obtain ⟨channel, listed, rest⟩ := Option.bind_eq_some_iff.mp moved
      obtain ⟨rsm, delivered, rest⟩ := Option.bind_eq_some_iff.mp rest
      obtain ⟨submission, found, empty, rfl⟩ := RSM.deliver_inversion delivered
      obtain rfl := Option.some.inj rest
      exact .expire expiring listed found empty
    · cases moved
  | unlock s =>
    simp only [step, unlock] at moved
    split at moved
    · rename_i expiring
      obtain rfl := Option.some.inj moved
      exact .unlock expiring
    · cases moved

/-- What Raft keeps in every action of its own it keeps in every action of the service. -/
theorem step_raft_kept (P : Cluster n (Op n Req) → Prop)
    (allowed : Cluster n (Op n Req) → Action n (Op n Req) → Prop)
    (kept : ∀ raft action raft', allowed raft action → raft.step action = some raft' →
      P raft → P raft')
    {action : ServiceAction n Req} (moved : σ.step machine action = some σ')
    (inside : ∀ below, action = .raft below → internal below = true → allowed σ.raft below)
    (starts : ∀ s channel command, action = .start s channel → allowed σ.raft (.start s command))
    (serves : ∀ raft s index data, allowed raft (.applierSend s) ∧ allowed raft (.crash s) ∧
      allowed raft (.snapshot s index data))
    (holds : P σ.raft) : P σ'.raft := by
  cases step_outcome moved with
  | raft within below => exact kept _ _ _ (inside _ rfl within) below holds
  | start => exact kept _ _ _ (starts _ _ _ rfl) rfl holds
  | execute sent | restore sent => exact kept _ _ _ (serves _ _ 0 []).1 sent holds
  | @nilCommand s _ _ sent =>
    exact kept _ _ _ (serves _ s 0 []).2.1 rfl (kept _ _ _ (serves _ _ 0 []).1 sent holds)
  | snapshot _ below => exact kept _ _ _ (serves _ _ _ _).2.2 below holds
  | _ => exact holds

theorem step_raft_grown {action : ServiceAction n Req} (moved : σ.step machine action = some σ') :
    σ.raft.Grown σ'.raft :=
  step_raft_kept σ.raft.Grown (fun _ _ => True)
    (fun _ _ _ _ below grown => grown.trans (Cluster.step_grown below)) moved
    (fun _ _ _ => trivial) (fun _ _ _ _ => trivial) (fun _ _ _ _ => ⟨trivial, trivial, trivial⟩)
    (.refl _)

end Service

end KvStore
