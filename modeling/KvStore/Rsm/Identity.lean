import KvStore.Raft.Provenance
import KvStore.Rsm.Steps

set_option autoImplicit false

/-! Which command a `Submit` that returned OK was answered for. -/

namespace KvStore

variable {n : Nat} {M Req Val : Type} {submission before after : Submission n Req Val}

/-- A result that carries the id of a submission was computed for it. -/
def Answers (done : List (Nat × Op n Req × Val)) (submission : Submission n Req Val)
    (result : ApplyResult Val) : Prop :=
  result.opId = submission.op.id → submission.phase ≠ .created ∧
    ∃ value, result.value = some value ∧
      (submission.commandId, submission.op, value) ∈ done

/-- The `k`-th call of `Submit` in the process `incarnation` of server `s`. -/
structure Submission.Sound (s : Fin n) (incarnation : Nat) (created : List (Op n Req))
    (done : List (Nat × Op n Req × Val)) (k : Nat) (submission : Submission n Req Val) :
    Prop where
  me : submission.op.me = s
  id : submission.op.id = k + 1
  incarnation : submission.op.incarnation = incarnation
  made : submission.op ∈ created
  buffered : ∀ result, submission.resultCh = some result → Answers done submission result
  taken : ∀ result, submission.phase = .taken result → Answers done submission result
  returned : ∀ answer, submission.phase = .returned .ok answer →
    ∃ value, answer = some value ∧ (submission.commandId, submission.op, value) ∈ done

/-- What `readApply` is about to hand over. -/
def Reader.Sound (submits : List (Submission n Req Val)) (done : List (Nat × Op n Req × Val)) :
    Reader n Req Val → Prop
  | .executed commandId op value => (commandId, op, value) ∈ done
  | .sending channel result =>
    ∃ submission, submits[channel]? = some submission ∧ Answers done submission result
  | _ => True

/-- The RSM of the process `incarnation` of server `s`. -/
structure RSM.Sound (machine : StateMachine M Req Val) (s : Fin n) (incarnation : Nat)
    (created : List (Op n Req)) (applied : List (Fin n × ApplyMsg (Op n Req)))
    (rsm : RSM n M Req Val) : Prop where
  counted : rsm.opId = rsm.submits.length
  submits : ∀ (k : Nat) (submission : Submission n Req Val), rsm.submits[k]? = some submission →
    submission.Sound s incarnation created rsm.done k
  registered : ∀ commandId channel, (commandId, channel) ∈ rsm.resultByCommandId →
    ∃ submission, rsm.submits[channel]? = some submission ∧
      submission.commandId = commandId ∧ submission.phase ≠ .created
  reading : rsm.reader.Sound rsm.submits rsm.done
  executed : ∀ commandId op value, (commandId, op, value) ∈ rsm.done →
    (s, .command (some op) commandId) ∈ applied ∧ ∃ sm, (machine.doOp sm op.req).2 = value

theorem Answers.expired (done : List (Nat × Op n Req × Val)) (submission : Submission n Req Val)
    (value : Option Val) : Answers done submission { opId := -1, value } := by
  intro same
  dsimp only at same
  omega

/-- A submission that moves on keeps its answers: either it had none yet, or it
stays at its index. -/
theorem Answers.carry {done : List (Nat × Op n Req × Val)} {result : ApplyResult Val}
    (answers : Answers done before result) (op : after.op = before.op)
    (left : before.phase ≠ .created → after.phase ≠ .created)
    (index : before.phase = .created ∨ after.commandId = before.commandId) :
    Answers done after result := by
  intro same
  rw [op] at same ⊢
  obtain ⟨started, value, holds, recorded⟩ := answers same
  rcases index with fresh | kept
  · exact absurd fresh started
  · exact ⟨left started, value, holds, kept ▸ recorded⟩

theorem Answers.mono {done done' : List (Nat × Op n Req × Val)} {result : ApplyResult Val}
    (answers : Answers done submission result) (more : done ⊆ done') :
    Answers done' submission result := by
  intro same
  obtain ⟨started, value, holds, recorded⟩ := answers same
  exact ⟨started, value, holds, more recorded⟩

theorem Submission.Sound.mono {s : Fin n} {incarnation k : Nat} {created created' : List (Op n Req)}
    {done done' : List (Nat × Op n Req × Val)}
    (sound : submission.Sound s incarnation created done k) (made : created ⊆ created')
    (more : done ⊆ done') : submission.Sound s incarnation created' done' k where
  me := sound.me
  id := sound.id
  incarnation := sound.incarnation
  made := made sound.made
  buffered result full := (sound.buffered result full).mono more
  taken result taken := (sound.taken result taken).mono more
  returned answer back := by
    obtain ⟨value, same, recorded⟩ := sound.returned answer back
    exact ⟨value, same, more recorded⟩

/-- A submission that moves on and takes nothing new from its channel stays sound
if its new phase is. -/
theorem Submission.Sound.advance {s : Fin n} {incarnation k : Nat} {created : List (Op n Req)}
    {done : List (Nat × Op n Req × Val)} (sound : before.Sound s incarnation created done k)
    (op : after.op = before.op) (left : after.phase ≠ .created)
    (index : before.phase = .created ∨ after.commandId = before.commandId)
    (channel : ∀ result, after.resultCh = some result → before.resultCh = some result)
    (taken : ∀ result, after.phase = .taken result → Answers done after result)
    (returned : ∀ answer, after.phase = .returned .ok answer →
      ∃ value, answer = some value ∧ (after.commandId, after.op, value) ∈ done) :
    after.Sound s incarnation created done k where
  me := op ▸ sound.me
  id := op ▸ sound.id
  incarnation := op ▸ sound.incarnation
  made := op ▸ sound.made
  buffered result full :=
    (sound.buffered result (channel result full)).carry op (fun _ => left) index
  taken := taken
  returned := returned

theorem RSM.channelAt_mem {rsm : RSM n M Req Val} {commandId channel : Nat}
    (waiting : rsm.channelAt commandId = some channel) :
    (commandId, channel) ∈ rsm.resultByCommandId := by
  obtain ⟨before, after, split, _⟩ := List.lookup_eq_some_iff.mp waiting
  rw [split]
  exact List.mem_append_right _ (List.mem_cons_self ..)

theorem RSM.enter_old {rsm : RSM n M Req Val} {op : Op n Req} {k : Nat}
    (found : rsm.submits[k]? = some submission) : (rsm.enter op).submits[k]? = some submission := by
  rw [RSM.enter, List.getElem?_append_left (List.getElem?_eq_some_iff.mp found).1, found]

namespace RSM.Sound

variable {machine : StateMachine M Req Val} {s : Fin n} {incarnation : Nat}
  {created created' : List (Op n Req)} {applied applied' : List (Fin n × ApplyMsg (Op n Req))}
  {rsm : RSM n M Req Val}

theorem make (machine : StateMachine M Req Val) (s : Fin n) (incarnation : Nat)
    (created : List (Op n Req)) (applied : List (Fin n × ApplyMsg (Op n Req))) (data : Bytes) :
    (RSM.make machine data : RSM n M Req Val).Sound machine s incarnation created applied where
  counted := rfl
  submits := nofun
  registered := nofun
  reading := trivial
  executed := nofun

section

variable (sound : rsm.Sound machine s incarnation created applied)

include sound

theorem mono (made : created ⊆ created') (more : applied ⊆ applied') :
    rsm.Sound machine s incarnation created' applied' where
  counted := sound.counted
  submits k submission found :=
    (sound.submits k submission found).mono made (List.Subset.refl _)
  registered := sound.registered
  reading := sound.reading
  executed commandId op value recorded :=
    ⟨more (sound.executed commandId op value recorded).1,
      (sound.executed commandId op value recorded).2⟩

/-- Only `readApply` moves. -/
theorem setReader {reader : Reader n Req Val} (reading : reader.Sound rsm.submits rsm.done) :
    RSM.Sound machine s incarnation created applied { rsm with reader } :=
  ⟨sound.counted, sound.submits, sound.registered, reading, sound.executed⟩

theorem forget (commandId : Nat) :
    (rsm.forget commandId).Sound machine s incarnation created applied := by
  refine ⟨sound.counted, sound.submits, ?_, sound.reading, sound.executed⟩
  intro other channel member
  exact sound.registered other channel (List.mem_of_mem_filter member)

/-- One submission moves on. -/
theorem setSubmission {channel : Nat} {before after : Submission n Req Val}
    (found : rsm.submits[channel]? = some before) (op : after.op = before.op)
    (left : before.phase ≠ .created → after.phase ≠ .created)
    (index : before.phase = .created ∨ after.commandId = before.commandId)
    (holds : after.Sound s incarnation created rsm.done channel) :
    (rsm.setSubmission channel after).Sound machine s incarnation created applied := by
  refine ⟨by simp [RSM.setSubmission, sound.counted], ?_, ?_, ?_, sound.executed⟩
  · intro k submission here
    rcases Slots.set_cases here with ⟨rfl, rfl⟩ | ⟨_, old⟩
    · exact holds
    · exact sound.submits k submission old
  · intro commandId other member
    obtain ⟨submission, here, at_, started⟩ := sound.registered commandId other member
    rcases Slots.set_kept found after here with ⟨_, rfl, here'⟩ | ⟨_, here'⟩
    · exact ⟨after, here', (index.resolve_left started).trans at_, left started⟩
    · exact ⟨submission, here', at_, started⟩
  · have reading := sound.reading
    unfold RSM.setSubmission
    generalize rsm.reader = reader at reading
    dsimp only
    cases reader with
    | sending other result =>
      obtain ⟨submission, here, answers⟩ := reading
      rcases Slots.set_kept found after here with ⟨_, rfl, here'⟩ | ⟨_, here'⟩
      · exact ⟨after, here', answers.carry op left index⟩
      · exact ⟨submission, here', answers⟩
    | _ => exact reading

/-- A new submission is found under its id. -/
theorem enter_found (op : Op n Req) :
    (rsm.enter op).submits[rsm.nextOpId - 1]? =
      some { op, commandId := 0, resultCh := none, phase := .created } := by
  have last : rsm.nextOpId - 1 = rsm.submits.length := sound.counted
  rw [last]
  exact List.getElem?_concat_length

theorem enter {op : Op n Req} (me : op.me = s) (id : op.id = rsm.nextOpId)
    (process : op.incarnation = incarnation) :
    (rsm.enter op).Sound machine s incarnation (op :: created) applied := by
  have wider : created ⊆ op :: created := List.subset_cons_self _ _
  refine ⟨by simp [RSM.enter, RSM.nextOpId, sound.counted], ?_, ?_, ?_, sound.executed⟩
  · intro k submission found
    by_cases old : k < rsm.submits.length
    · rw [RSM.enter, List.getElem?_append_left old] at found
      exact (sound.submits k submission found).mono wider (List.Subset.refl _)
    · have bound := (List.getElem?_eq_some_iff.mp found).1
      have last : k = rsm.nextOpId - 1 := by
        simp only [RSM.enter, List.length_append, List.length_singleton] at bound
        have := sound.counted
        simp only [RSM.nextOpId]
        omega
      rw [last, sound.enter_found op] at found
      obtain rfl := Option.some.inj found
      exact ⟨me, by rw [id, last]; rfl, process, List.mem_cons_self .., nofun, nofun, nofun⟩
  · intro commandId channel member
    obtain ⟨submission, found, rest⟩ := sound.registered commandId channel member
    exact ⟨submission, RSM.enter_old found, rest⟩
  · have reading := sound.reading
    unfold RSM.enter
    dsimp only
    generalize rsm.reader = reader at reading
    cases reader with
    | sending channel result =>
      obtain ⟨submission, found, answers⟩ := reading
      exact ⟨submission, RSM.enter_old found, answers⟩
    | _ => exact reading

/-- `Start` gives the submission an index and it is registered there. -/
theorem register {channel : Nat} {submission : Submission n Req Val}
    (found : rsm.submits[channel]? = some submission) (fresh : submission.phase = .created)
    (commandId : Nat) :
    (rsm.register channel submission commandId).Sound machine s incarnation created applied := by
  have old := sound.submits channel submission found
  have holds : Submission.Sound s incarnation created rsm.done channel
      { submission with commandId, phase := .waiting } :=
    old.advance rfl nofun (Or.inl fresh) (fun _ full => full) nofun nofun
  have moved : ((rsm.forget commandId).setSubmission channel
      { submission with commandId, phase := .waiting }).Sound machine s incarnation created
        applied :=
    (sound.forget commandId).setSubmission found rfl (fun _ => nofun) (Or.inl fresh) holds
  refine ⟨moved.counted, moved.submits, ?_, moved.reading, moved.executed⟩
  intro other channel' member
  rcases List.mem_cons.mp member with same | member
  · obtain ⟨rfl, rfl⟩ := Prod.mk.inj same
    exact ⟨_, List.getElem?_set_self (List.getElem?_eq_some_iff.mp found).1, rfl, nofun⟩
  · exact moved.registered other channel' member

/-- A result goes into the channel of its submission. -/
theorem fill {channel : Nat} {submission : Submission n Req Val} {result : ApplyResult Val}
    (found : rsm.submits[channel]? = some submission)
    (answers : Answers rsm.done submission result) :
    (rsm.setSubmission channel { submission with resultCh := some result }).Sound machine s
      incarnation created applied := by
  have old := sound.submits channel submission found
  refine sound.setSubmission found rfl id (Or.inr rfl) ?_
  refine ⟨old.me, old.id, old.incarnation, old.made, ?_, old.taken, old.returned⟩
  intro result' full
  obtain rfl := Option.some.inj full
  exact answers

end

end RSM.Sound

/-- Every submission is still there with its command. -/
def RSM.Keeps (rsm rsm' : RSM n M Req Val) : Prop :=
  ∀ (k : Nat) (submission : Submission n Req Val), rsm.submits[k]? = some submission →
    ∃ after, rsm'.submits[k]? = some after ∧ after.op = submission.op

theorem RSM.Keeps.of_submits {rsm rsm' : RSM n M Req Val} (same : rsm'.submits = rsm.submits) :
    rsm.Keeps rsm' := by
  intro k submission found
  exact ⟨submission, same ▸ found, rfl⟩

theorem RSM.Keeps.of_set {rsm rsm' : RSM n M Req Val} {channel : Nat}
    (found : rsm.submits[channel]? = some before)
    (set : rsm'.submits = rsm.submits.set channel after) (op : after.op = before.op) :
    rsm.Keeps rsm' := by
  intro k submission here
  rw [set]
  rcases Slots.set_kept found after here with ⟨_, rfl, now⟩ | ⟨_, now⟩
  · exact ⟨after, now, op⟩
  · exact ⟨submission, now, rfl⟩

theorem RSM.Keeps.enter (rsm : RSM n M Req Val) (op : Op n Req) : rsm.Keeps (rsm.enter op) := by
  intro k submission found
  exact ⟨submission, RSM.enter_old found, rfl⟩

/-- The commands of a process are the submissions it has made, in order. -/
structure Service.Sound (machine : StateMachine M Req Val) (σ : Service n M Req Val) : Prop where
  origin : σ.raft.From (· ∈ σ.created)
  created : ∀ op ∈ σ.created, op.incarnation ≤ σ.raft.incarnation op.me ∧
    (op.incarnation = σ.raft.incarnation op.me → ∃ submission,
      (σ.rsm op.me).submits[op.id - 1]? = some submission ∧ submission.op = op)
  servers : ∀ s, (σ.rsm s).Sound machine s (σ.raft.incarnation s) σ.created σ.raft.applied

namespace Service.Sound

variable {machine : StateMachine M Req Val} {σ σ' : Service n M Req Val} {s : Fin n}
  {channel : Nat}

theorem init (machine : StateMachine M Req Val) (n : Nat) :
    (Service.init machine n).Sound machine where
  origin := .init _
  created := nofun
  servers s := .make machine s _ _ _ _

section

variable (sound : σ.Sound machine)

include sound

/-- One server moves, and Raft with it, without any process dying. -/
theorem update {raft : Cluster n (Op n Req)} {rsm : RSM n M Req Val}
    (alive : raft.incarnation = σ.raft.incarnation) (origin : raft.From (· ∈ σ.created))
    (more : σ.raft.applied ⊆ raft.applied)
    (holds : rsm.Sound machine s (σ.raft.incarnation s) σ.created raft.applied)
    (keeps : (σ.rsm s).Keeps rsm) :
    Service.Sound machine { σ.setRsm s rsm with raft } := by
  refine ⟨origin, ?_, ?_⟩
  · intro op member
    obtain ⟨bound, current⟩ := sound.created op member
    rw [alive]
    refine ⟨bound, fun same => ?_⟩
    obtain ⟨submission, found, rfl⟩ := current same
    by_cases here : submission.op.me = s
    · simp only [Service.setRsm, here, Function.update_self]
      rw [here] at found
      exact keeps _ _ found
    · simp only [Service.setRsm, Function.update_of_ne here]
      exact ⟨submission, found, rfl⟩
  · intro other
    rw [alive]
    by_cases here : other = s
    · subst here
      simpa only [Service.setRsm, Function.update_self] using holds
    · simp only [Service.setRsm, Function.update_of_ne here]
      exact (sound.servers other).mono (List.Subset.refl _) more

/-- One server moves above Raft, with its submissions as they were. -/
theorem setRsm {rsm : RSM n M Req Val}
    (holds : rsm.Sound machine s (σ.raft.incarnation s) σ.created σ.raft.applied)
    (keeps : (σ.rsm s).Keeps rsm) : (σ.setRsm s rsm).Sound machine :=
  sound.update rfl sound.origin (List.Subset.refl _) holds keeps

/-- Raft moves; a process that died has no submissions left. -/
theorem withRaft {raft : Cluster n (Op n Req)} (grown : σ.raft.Grown raft)
    (origin : raft.From (· ∈ σ.created)) : (σ.withRaft machine raft).Sound machine := by
  refine ⟨origin, ?_, ?_⟩
  · intro op member
    obtain ⟨bound, current⟩ := sound.created op member
    have later := grown.incarnation op.me
    refine ⟨bound.trans later, fun same => ?_⟩
    dsimp only [Service.withRaft] at same ⊢
    rw [if_pos (by omega)]
    exact current (by omega)
  · intro other
    dsimp only [Service.withRaft]
    split
    · rename_i same
      rw [same]
      exact (sound.servers other).mono (List.Subset.refl _) grown.applied
    · exact .make machine other _ _ _ _

/-- One submission moves on. -/
theorem setSubmission {before after : Submission n Req Val}
    (found : (σ.rsm s).submits[channel]? = some before) (op : after.op = before.op)
    (left : after.phase ≠ .created)
    (index : before.phase = .created ∨ after.commandId = before.commandId)
    (holds : after.Sound s (σ.raft.incarnation s) σ.created (σ.rsm s).done channel) :
    (σ.setRsm s ((σ.rsm s).setSubmission channel after)).Sound machine :=
  sound.setRsm ((sound.servers s).setSubmission found op (fun _ => left) index holds)
    (.of_set found rfl op)

theorem submit (s : Fin n) (req : Req) : (σ.submit s req).Sound machine := by
  have keeps := RSM.Keeps.enter (σ.rsm s)
  refine ⟨sound.origin.mono fun _ => List.mem_cons_of_mem _, ?_, ?_⟩
  · intro other member
    simp only [Service.submit, Service.setRsm]
    rcases List.mem_cons.mp member with rfl | member
    · refine ⟨le_rfl, fun _ => ?_⟩
      rw [Function.update_self]
      exact ⟨_, (sound.servers s).enter_found _, rfl⟩
    · obtain ⟨bound, current⟩ := sound.created other member
      refine ⟨bound, fun same => ?_⟩
      obtain ⟨submission, found, rfl⟩ := current same
      by_cases here : submission.op.me = s
      · rw [here, Function.update_self]
        rw [here] at found
        exact keeps _ _ _ found
      · rw [Function.update_of_ne here]
        exact ⟨submission, found, rfl⟩
  · intro other
    simp only [Service.submit, Service.setRsm]
    by_cases here : other = s
    · subst here
      rw [Function.update_self]
      exact (sound.servers other).enter rfl rfl rfl
    · rw [Function.update_of_ne here]
      exact (sound.servers other).mono (List.subset_cons_self _ _) (List.Subset.refl _)

theorem start {submission : Submission n Req Val}
    (found : (σ.rsm s).submits[channel]? = some submission) (created : submission.phase = .created)
    (index : Nat) :
    Sound machine { σ.setRsm s ((σ.rsm s).register channel submission index) with
      raft := σ.raft.start s (some submission.op) } := by
  have moved : σ.raft.step (.start s (some submission.op)) =
      some (σ.raft.start s (some submission.op)) := rfl
  have grown := Cluster.step_grown moved
  obtain ⟨alive, -⟩ := σ.raft.start_lives s (some submission.op)
  have origin : (σ.raft.start s (some submission.op)).From (· ∈ σ.created) := by
    refine sound.origin.step moved fun server command same => ?_
    cases same
    exact ((sound.servers s).submits channel submission found).made
  refine sound.update alive origin grown.applied ?_ (.of_set found rfl rfl)
  exact ((sound.servers s).register found created _).mono (List.Subset.refl _) grown.applied

theorem finish {submission : Submission n Req Val} {err : SubmitErr} {value : Option Val}
    (found : (σ.rsm s).submits[channel]? = some submission)
    (answered : err = .ok → ∃ result, submission.phase = .taken result ∧
      result.opId = submission.op.id ∧ value = result.value) :
    (σ.setRsm s (((σ.rsm s).forget submission.commandId).setSubmission channel
      { submission with phase := .returned err value })).Sound machine := by
  have old := (sound.servers s).submits channel submission found
  refine sound.setRsm (((sound.servers s).forget submission.commandId).setSubmission found rfl
    (fun _ => by simp) (Or.inr rfl) ?_) (.of_set found rfl rfl)
  refine old.advance rfl (by simp) (Or.inr rfl) (fun _ full => full) (by simp) ?_
  intro answer back
  cases back
  obtain ⟨result, taken, same, rfl⟩ := answered rfl
  exact (old.taken result taken same).2

/-- What `readApply` executes has been delivered by Raft. -/
theorem execute {raft : Cluster n (Op n Req)} {op : Op n Req} {commandId : Nat}
    (sent : σ.raft.step (.applierSend s) = some raft)
    (sending : (σ.raft.nodes s).applier = .sending (.command (some op) commandId)) :
    Sound machine { σ.setRsm s { σ.rsm s with
        sm := (machine.doOp (σ.rsm s).sm op.req).1
        reader := .executed commandId op (machine.doOp (σ.rsm s).sm op.req).2
        done := (commandId, op, (machine.doOp (σ.rsm s).sm op.req).2) :: (σ.rsm s).done } with
      raft } := by
  have grown := Cluster.step_grown sent
  have origin : raft.From (· ∈ σ.created) := sound.origin.step sent (by simp)
  have old := (sound.servers s).mono (List.Subset.refl _) grown.applied
  obtain ⟨msg, same, rfl⟩ := Cluster.applierSend_inversion sent
  obtain rfl := Applier.sending.inj (sending.symm.trans same)
  refine sound.update rfl origin grown.applied ?_ (.of_submits rfl)
  have more : (σ.rsm s).done ⊆ (commandId, op, (machine.doOp (σ.rsm s).sm op.req).2) ::
      (σ.rsm s).done := List.subset_cons_self _ _
  refine ⟨old.counted, ?_, old.registered, List.mem_cons_self .., ?_⟩
  · intro k submission found
    exact (old.submits k submission found).mono (List.Subset.refl _) more
  · intro other op' value member
    rcases List.mem_cons.mp member with same | member
    · cases same
      exact ⟨List.mem_cons_self .., (σ.rsm s).sm, rfl⟩
    · exact old.executed other op' value member

end

end Service.Sound

/-- The condition on a lookup by `readApply`: a command that carries the id of the
submission waiting at its index was created by this very process. -/
def Service.ownResult (σ : Service n M Req Val) : ServiceAction n Req → Bool
  | .lookup server =>
    match (σ.rsm server).reader with
    | .executed commandId op _ =>
      match ((σ.rsm server).channelAt commandId).bind ((σ.rsm server).submits[·]?) with
      | some submission =>
        op.id ≠ submission.op.id ∨
          op.me = server ∧ op.incarnation = σ.raft.incarnation server
      | none => true
    | _ => true
  | _ => true

namespace Service.Sound

variable {machine : StateMachine M Req Val} {σ σ' : Service n M Req Val} {s : Fin n}

/-- Within one process the id tells the commands apart. -/
theorem lookup (sound : σ.Sound machine) (own : σ.ownResult (.lookup s) = true)
    {commandId channel : Nat} {op : Op n Req} {value : Val}
    (executed : (σ.rsm s).reader = .executed commandId op value)
    (waiting : (σ.rsm s).channelAt commandId = some channel) :
    (σ.setRsm s { σ.rsm s with
      reader := .sending channel { opId := op.id, value := some value } }).Sound machine := by
  have old := sound.servers s
  have recorded : (commandId, op, value) ∈ (σ.rsm s).done := by
    have reading := old.reading
    rw [executed] at reading
    exact reading
  obtain ⟨submission, found, index, started⟩ :=
    old.registered commandId channel (RSM.channelAt_mem waiting)
  refine sound.setRsm (old.setReader ⟨submission, found, ?_⟩) (.of_submits rfl)
  intro same
  refine ⟨started, value, rfl, ?_⟩
  suffices op = submission.op by rw [index, ← this]; exact recorded
  have id : op.id = submission.op.id := Int.ofNat.inj same
  simp only [Service.ownResult, executed, waiting, Option.bind_some, found, id, ne_eq,
    not_true_eq_false, false_or, decide_eq_true_eq] at own
  obtain ⟨me, process⟩ := own
  have made : op ∈ σ.created := by
    have delivered := sound.origin.applied _ (old.executed commandId op value recorded).1
    exact delivered op rfl
  obtain ⟨submission', found', is⟩ := (sound.created op made).2 (by rw [me, process])
  rw [me, id, (old.submits channel submission found).id, Nat.add_sub_cancel, found] at found'
  rw [Option.some.inj found', is]

theorem step (sound : σ.Sound machine) {action : ServiceAction n Req}
    (own : σ.ownResult action = true) (moved : σ.step machine action = some σ') :
    σ'.Sound machine := by
  cases Service.step_outcome moved with
  | raft inside below =>
    refine sound.withRaft (Cluster.step_grown below) (sound.origin.step below ?_)
    rintro server command rfl
    cases inside
  | submit s req => exact sound.submit s req
  | refuse found | turnedAway found | leave found =>
    have old := (sound.servers _).submits _ _ found
    exact sound.setSubmission found rfl (by simp) (Or.inr rfl)
      (old.advance rfl (by simp) (Or.inr rfl) (fun _ full => full) (by simp) (by simp))
  | start found created => exact sound.start found created _
  | take found _ full =>
    have old := (sound.servers _).submits _ _ found
    refine sound.setSubmission found rfl (by simp) (Or.inr rfl)
      (old.advance rfl (by simp) (Or.inr rfl) (by simp) ?_ (by simp))
    intro result' taken
    cases taken
    exact (old.buffered _ full).carry rfl (by simp) (Or.inr rfl)
  | finish found _ _ answered => exact sound.finish found answered
  | execute sent sending => exact sound.execute sent sending
  | @nilCommand s raft _ sent =>
    have died : raft.step (.crash s) = some (raft.restart s (raft.nodes s).persister) := rfl
    exact sound.withRaft ((Cluster.step_grown sent).trans (Cluster.step_grown died))
      ((sound.origin.step sent (by simp)).step died (by simp))
  | @restore s _ _ _ _ sent =>
    have grown := Cluster.step_grown sent
    have origin := sound.origin.step sent (by simp)
    have old := (sound.servers s).mono (List.Subset.refl _) grown.applied
    obtain ⟨_, _, rfl⟩ := Cluster.applierSend_inversion sent
    exact sound.update rfl origin grown.applied
      ⟨old.counted, old.submits, old.registered, trivial, old.executed⟩ (.of_submits rfl)
  | snapshot _ below =>
    exact sound.withRaft (Cluster.step_grown below) (sound.origin.step below (by simp))
  | lookup executed listed => exact sound.lookup own executed listed
  | @send s channel _ submission sending found empty =>
    have reading := (sound.servers s).reading
    rw [sending] at reading
    obtain ⟨same, there, answers⟩ := reading
    obtain rfl := Option.some.inj (there.symm.trans found)
    exact sound.setRsm (((sound.servers s).fill found answers).setReader trivial)
      (.of_set found rfl rfl)
  | expire _ _ found =>
    exact sound.setRsm (((sound.servers _).fill found (Answers.expired _ _ none)).setReader trivial)
      (.of_set found rfl rfl)
  | skip | lock | unlock =>
    exact sound.setRsm ((sound.servers _).setReader trivial) (.of_submits rfl)

end Service.Sound

namespace Service

variable {machine : StateMachine M Req Val}

/-- All deliveries at one index are of one command. -/
def RaftCorrect (σ : Service n M Req Val) : Prop :=
  ∀ a b index command command', (a, .command command index) ∈ σ.raft.applied →
    (b, .command command' index) ∈ σ.raft.applied → command = command'

/-- The runs in which every id that matches belongs to the waiting process. -/
abbrev OwnRun (machine : StateMachine M Req Val) (trace : List (Service n M Req Val)) : Prop :=
  Runs.Run (step machine) (fun σ action => σ.ownResult action = true) (init machine n) trace

/-- What Raft has delivered stays delivered, so the newest state decides. -/
theorem raftCorrect_of_latest {allowed : Service n M Req Val → ServiceAction n Req → Prop}
    {init newest : Service n M Req Val} {past : List (Service n M Req Val)}
    (run : Runs.Run (step machine) allowed init (newest :: past)) (correct : newest.RaftCorrect) :
    ∀ σ ∈ newest :: past, σ.RaftCorrect := by
  have grown : ∀ σ ∈ newest :: past, σ.raft.Grown newest.raft :=
    run.latest (fun _ => .refl _) (fun _ _ _ => .trans) (fun _ _ _ _ => step_raft_grown) rfl
  intro σ member a b index command command' first second
  have more := (grown σ member).applied
  exact correct a b index command command' (more first) (more second)

/-- A `Submit` that returned OK at index `i` was answered with the value its own
command had when it was executed there, and that command is what every server
delivers at `i`, before and after. -/
theorem submit_result_identity {trace : List (Service n M Req Val)} (run : OwnRun machine trace)
    (correct : ∀ σ ∈ trace, σ.RaftCorrect) :
    ∀ σ ∈ trace, ∀ s (submission : Submission n Req Val) answer,
      submission ∈ (σ.rsm s).submits → submission.phase = .returned .ok answer →
      ∃ value sm, answer = some value ∧
        (submission.commandId, submission.op, value) ∈ (σ.rsm s).done ∧
        (machine.doOp sm submission.op.req).2 = value ∧
        (s, .command (some submission.op) submission.commandId) ∈ σ.raft.applied ∧
        ∀ σ' ∈ trace, ∀ b command,
          (b, .command command submission.commandId) ∈ σ'.raft.applied →
          command = some submission.op := by
  intro σ member s submission answer called back
  have reached : ∀ σ ∈ trace, σ.Sound machine := run.invariant (.init machine n)
    fun _ _ _ own moved sound => sound.step own moved
  have sound := reached σ member
  obtain ⟨k, found⟩ := List.getElem?_of_mem called
  obtain ⟨value, same, recorded⟩ := ((sound.servers s).submits k submission found).returned _ back
  obtain ⟨delivered, sm, computed⟩ := (sound.servers s).executed _ _ _ recorded
  refine ⟨value, sm, same, recorded, computed, delivered, ?_⟩
  intro σ' member' b command other
  have ordered : ∀ σ ∈ trace, ∀ σ' ∈ trace, σ.raft.Grown σ'.raft ∨ σ'.raft.Grown σ.raft :=
    run.ordered (fun _ => .refl _) (fun _ _ _ => .trans) fun _ _ _ _ => step_raft_grown
  rcases ordered σ member σ' member' with later | earlier
  · exact correct σ' member' b s _ _ _ other (later.applied delivered)
  · exact correct σ member b s _ _ _ (earlier.applied other) delivered

theorem raftCorrect_of_single {σ : Service n M Req Val} (server : Fin n) (op : Op n Req)
    (index : Nat) (only : σ.raft.applied = [(server, .command (some op) index)]) :
    σ.RaftCorrect := by
  intro a b i command command' first second
  rw [only, List.mem_singleton] at first second
  cases first
  cases second
  rfl

/-- A state machine that keeps the requests it has executed and echoes them. -/
def echo : StateMachine Bytes UInt8 UInt8 where
  init := []
  doOp sm req := (req :: sm, req)
  snapshot sm := sm
  restore data _ := data

/-- The first command of a server that has not been restarted. -/
def firstOp (server : Fin 3) (req : UInt8) : Op 3 UInt8 :=
  { me := server, id := 1, req, incarnation := 0 }

/-- That command submitted at index 1, answered OK with `value`. -/
def returnedOk (server : Fin 3) (req value : UInt8) : Submission 3 UInt8 UInt8 :=
  { op := firstOp server req, commandId := 1, resultCh := none,
    phase := .returned .ok (some value) }

/-- Server 0 leads, takes request 5 at index 1, replicates and executes it. -/
def answeredOnce : List (ServiceAction 3 UInt8) :=
  [.raft (.startElection 0), .raft (.handleRequestVote 0), .raft (.receiveRequestVote 0),
    .submit 0 5, .start 0 0,
    .raft (.replicateToFollower 0 1), .raft (.handleAppendEntries 0),
    .raft (.receiveAppendEntries 0),
    .raft (.applierRead 0), .receive 0, .lookup 0, .send 0, .take 0 0, .finish 0 0]

theorem submit_result_identity_answered :
    ∃ trace : List (Service 3 Bytes UInt8 UInt8), OwnRun echo trace ∧
      (∀ σ ∈ trace, σ.RaftCorrect) ∧ ∃ σ ∈ trace,
        returnedOk 0 5 5 ∈ (σ.rsm 0).submits ∧
        ∀ σ' ∈ trace, ∀ b command, (b, .command command 1) ∈ σ'.raft.applied →
          command = some (firstOp 0 5) := by
  obtain ⟨past, run⟩ := Runs.Run.reached (step echo) ownResult (init echo 3) answeredOnce
    (by decide +kernel)
  have correct := raftCorrect_of_latest run
    (raftCorrect_of_single 0 (firstOp 0 5) 1 (by decide +kernel))
  refine ⟨_, run, correct, _, List.mem_cons_self .., by decide +kernel, ?_⟩
  obtain ⟨_, _, _, _, _, _, same⟩ := submit_result_identity run correct _ (List.mem_cons_self ..)
    0 (returnedOk 0 5 5) (some 5) (by decide +kernel) rfl
  exact same

/-- Server 0 takes request 5 at index 1 in term 1 and replicates it to no one.
Server 1 is elected in term 2, takes request 6 at index 1 as its own first
submission, commits it with server 2 and overwrites server 0, where it is
executed while the first submission still waits. -/
def answeredForAnother : List (ServiceAction 3 UInt8) :=
  [.raft (.startElection 0), .raft (.handleRequestVote 0), .raft (.receiveRequestVote 0),
    .submit 0 5, .start 0 0,
    .raft (.startElection 1), .raft (.startElection 1), .raft (.handleRequestVote 5),
    .raft (.receiveRequestVote 5),
    .submit 1 6, .start 1 0,
    .raft (.replicateToFollower 1 2), .raft (.handleAppendEntries 0),
    .raft (.receiveAppendEntries 0),
    .raft (.replicateToFollower 1 0), .raft (.handleAppendEntries 1),
    .raft (.applierRead 0), .receive 0, .lookup 0, .send 0, .take 0 0, .finish 0 0]

/-- Without the condition `Submit(5)` returns OK with the value of request 6,
whose command is the one applied at its index. -/
theorem submit_result_identity_broken :
    ∃ trace : List (Service 3 Bytes UInt8 UInt8),
      Runs.Run (step echo) (fun _ _ => True) (init echo 3) trace ∧
      (∀ σ ∈ trace, σ.RaftCorrect) ∧ ∃ σ ∈ trace,
        returnedOk 0 5 6 ∈ (σ.rsm 0).submits ∧
        (0, .command (some (firstOp 1 6)) 1) ∈ σ.raft.applied := by
  obtain ⟨past, run⟩ := Runs.Run.reached (step echo) (fun _ _ => true) (init echo 3)
    answeredForAnother (by decide +kernel)
  have correct := raftCorrect_of_latest run
    (raftCorrect_of_single 0 (firstOp 1 6) 1 (by decide +kernel))
  exact ⟨_, run.mono fun _ _ _ => trivial, correct, _, List.mem_cons_self .., by decide +kernel,
    by decide +kernel⟩

end Service

end KvStore
