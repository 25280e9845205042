import KvStore.Tester.Network

set_option autoImplicit false

/-! No call hangs in the simulated network, whatever is done to the ends and the servers. A
look at the server that finds it alive changes nothing and is no step. -/

namespace KvStore.Network

variable {E S : Type} {trace : List (Net E S)} {rn rn' : Net E S} {k : Nat} {call : Call E S}

/-- The steps that a call has before it, at most. -/
def Phase.rank : Phase S → Nat
  | .sending => 6
  | .accepted => 5
  | .routed _ => 4
  | .waiting _ => 3
  | .answered _ _ => 2
  | .abandoned _ => 2
  | .refused => 2
  | .replying _ => 1
  | .returned _ => 0

def Net.left (rn : Net E S) (k : Nat) : Nat := rn.calls[k]?.elim 0 fun call => call.phase.rank

theorem Phase.rank_le (phase : Phase S) : phase.rank ≤ 6 := by
  cases phase <;> simp [rank]

theorem left_eq (found : rn.calls[k]? = some call) : rn.left k = call.phase.rank := by
  rw [Net.left, found, Option.elim]

theorem left_le (rn : Net E S) (k : Nat) : rn.left k ≤ 6 := by
  cases found : rn.calls[k]? with
  | none => simp [Net.left, found]
  | some call => exact left_eq found ▸ call.phase.rank_le

theorem setCall_left (found : rn.calls[k]? = some call) (new : Call E S) (j : Nat) :
    (rn.setCall k new).left j = if j = k then new.phase.rank else rn.left j := by
  split
  · rename_i same
    subst same
    exact left_eq (Slots.set_self found)
  · rename_i apart
    rw [Net.left, Net.setCall, List.getElem?_set_ne (Ne.symm apart), Net.left]

theorem dispatch_left {reply : ReplyMsg} (moved : rn.dispatch k reply = some rn') (j : Nat) :
    rn'.left j = rn.left j := by
  simp only [Net.dispatch, Option.bind_eq_bind] at moved
  obtain ⟨call, found, moved⟩ := Option.bind_eq_some_iff.mp moved
  split at moved
  · obtain rfl := Option.some.inj moved
    refine (setCall_left found { call with handler := .ran reply } j).trans ?_
    split
    · rename_i same
      rw [same, left_eq found]
    · rfl
  · cases moved

theorem dispatch_length {reply : ReplyMsg} (moved : rn.dispatch k reply = some rn') :
    rn'.calls.length = rn.calls.length := by
  simp only [Net.dispatch, Option.bind_eq_bind] at moved
  obtain ⟨call, _, moved⟩ := Option.bind_eq_some_iff.mp moved
  split at moved
  · obtain rfl := Option.some.inj moved
    exact List.length_set
  · cases moved

/-- What an action does to the steps left of a call that has been made. -/
structure Spent (k : Nat) (own : Option Nat) (rn rn' : Net E S) : Prop where
  made : k < rn'.calls.length
  left : rn'.left k + (if own = some k then 1 else 0) ≤ rn.left k

variable [DecidableEq S] {action : Action E S}

theorem advance_rank {phase : Phase S} {handler : Handler S}
    (moved : rn.advance call action = some (phase, handler)) : phase.rank < call.phase.rank := by
  cases action <;> simp only [Net.advance] at moved <;> grind [Phase.rank]

theorem process_left (moved : rn.process k action = some rn') (j : Nat) :
    if j = k then rn'.left j < rn.left j else rn'.left j = rn.left j := by
  simp only [Net.process, Option.bind_eq_bind] at moved
  obtain ⟨call, found, moved⟩ := Option.bind_eq_some_iff.mp moved
  obtain ⟨⟨phase, handler⟩, advanced, moved⟩ := Option.bind_eq_some_iff.mp moved
  obtain rfl := Option.some.inj moved
  rw [setCall_left found]
  split
  · rename_i same
    rw [same, left_eq found]
    exact advance_rank advanced
  · rfl

theorem process_length (moved : rn.process k action = some rn') :
    rn'.calls.length = rn.calls.length := by
  simp only [Net.process, Option.bind_eq_bind] at moved
  obtain ⟨call, _, moved⟩ := Option.bind_eq_some_iff.mp moved
  obtain ⟨_, _, moved⟩ := Option.bind_eq_some_iff.mp moved
  obtain rfl := Option.some.inj moved
  exact List.length_set

theorem process_isSome (found : rn.calls[k]? = some call)
    (advanced : (rn.advance call action).isSome) : (rn.process k action).isSome := by
  obtain ⟨next, advanced⟩ := Option.isSome_iff_exists.mp advanced
  simp only [Net.process, found, Option.bind_eq_bind, Option.bind_some, advanced,
    Option.isSome_some]

theorem Spent.process {j : Nat} (made : k < rn.calls.length)
    (moved : rn.process j action = some rn') : Spent k (some j) rn rn' := by
  refine ⟨(process_length moved).symm ▸ made, ?_⟩
  have spent := process_left moved k
  by_cases same : k = j
  · rw [if_pos same] at spent
    rw [if_pos (congrArg some same.symm)]
    omega
  · rw [if_neg same] at spent
    rw [if_neg fun same' => same (Option.some.inj same').symm]
    omega

theorem Does.spent {own : Option Nat} (does : Does rn rn' own) (made : k < rn.calls.length) :
    Spent k own rn rn' := by
  cases does with
  | own j action moved => exact .process made moved
  | handler j reply moved =>
    exact ⟨(dispatch_length moved).symm ▸ made, (dispatch_left moved k).le⟩
  | made endname svcMeth args calls _ =>
    refine ⟨?_, ?_⟩
    · rw [calls, List.length_append]
      omega
    · have old : rn.calls[k]? = some (rn.calls.get ⟨k, made⟩) := List.getElem?_eq_getElem made
      rw [left_eq (calls ▸ Slots.append_kept old _), left_eq old]
      exact Nat.le_refl _
  | network calls _ =>
    refine ⟨calls ▸ made, ?_⟩
    rw [Net.left, calls]
    exact Nat.le_refl _

variable [DecidableEq E]

/-- However the steps of the others fall between them, a call takes no more steps than it
had before it. -/
theorem execute_spent (made : k < rn.calls.length)
    (actions : List (Action E S)) (done : Runs.execute Net.step rn actions = some rn') :
    actions.countP (fun action => action.own = some k) + rn'.left k ≤ rn.left k := by
  induction actions generalizing rn with
  | nil =>
    obtain rfl := Option.some.inj done
    simp
  | cons action rest ih =>
    simp only [Runs.execute] at done
    split at done
    · rename_i next moved
      have spent := (step_does moved).spent made
      have after := ih spent.made done
      have first := spent.left
      rw [List.countP_cons]
      simp only [decide_eq_true_eq]
      omega
    · cases done

/-- Call `k` has a step of its own to take. -/
def Moves (rn : Net E S) (k : Nat) : Prop :=
  ∃ action, Action.own action = some k ∧ (rn.step action).isSome

theorem Kept.moves (kept : Kept trace rn)
    (found : rn.calls[k]? = some call) :
    (∃ reply, call.phase = .returned reply) ∨ Moves rn k ∨
      ∃ route, call.phase = .waiting route ∧ call.handler = .started route ∧
        rn.isServerDead call.endname route.servername route.server = false := by
  have backed := kept.calls k call found
  unfold Backed at backed
  cases phase : call.phase with
  | returned reply => exact Or.inl ⟨reply, rfl⟩
  | sending =>
    refine Or.inr (Or.inl ⟨.accept k, rfl, process_isSome found ?_⟩)
    simp [Net.advance, phase]
  | accepted =>
    refine Or.inr (Or.inl ⟨.readEndnameInfo k, rfl, process_isSome found ?_⟩)
    cases route : rn.readEndnameInfo call.endname <;> simp [Net.advance, phase, route]
  | refused =>
    refine Or.inr (Or.inl ⟨.timeout k, rfl, process_isSome found ?_⟩)
    simp [Net.advance, phase]
  | routed route =>
    refine Or.inr (Or.inl ⟨.start k, rfl, process_isSome found ?_⟩)
    simp [Net.advance, phase]
  | waiting route =>
    simp only [phase] at backed
    rcases backed.2 with started | ⟨reply, ran, _⟩
    · cases dead : rn.isServerDead call.endname route.servername route.server with
      | false => exact Or.inr (Or.inr ⟨route, rfl, started, dead⟩)
      | true =>
        refine Or.inr (Or.inl ⟨.poll k, rfl, process_isSome found ?_⟩)
        simp [Net.advance, phase, dead]
    · refine Or.inr (Or.inl ⟨.take k, rfl, process_isSome found ?_⟩)
      simp [Net.advance, phase, ran]
  | answered route reply =>
    refine Or.inr (Or.inl ⟨.judge k false, rfl, process_isSome found ?_⟩)
    cases dead : rn.isServerDead call.endname route.servername route.server <;>
      simp [Net.advance, phase, dead]
  | abandoned route =>
    refine Or.inr (Or.inl ⟨.judge k false, rfl, process_isSome found ?_⟩)
    simp [Net.advance, phase]
  | replying reply =>
    refine Or.inr (Or.inl ⟨.deliver k, rfl, process_isSome found ?_⟩)
    simp [Net.advance, phase]

/-- No call hangs in the network: it takes at most six steps, however those of the others,
the handlers and the changes to the network fall between them, and until it has returned it
has a step to take, unless its handler is still running, its end is enabled, and the server
is still there. -/
theorem calls_never_hang (run : Net.Run trace) :
    ∀ rn ∈ trace, ∀ (k : Nat) call, rn.calls[k]? = some call →
      (∀ actions rn', Runs.execute Net.step rn actions = some rn' →
        actions.countP (fun action => action.own = some k) ≤ 6) ∧
      ((∃ reply, call.phase = .returned reply) ∨ Moves rn k ∨
        ∃ route, call.phase = .waiting route ∧ call.handler = .started route ∧
          rn.enabled call.endname = true ∧ rn.servers route.servername = some route.server) := by
  intro rn member k call found
  refine ⟨fun actions rn' done => ?_, ?_⟩
  · have spent := execute_spent (List.getElem?_eq_some_iff.mp found).1 actions done
    have few := left_le rn k
    omega
  · refine ((run_kept run rn member).moves found).imp_right (Or.imp_right ?_)
    rintro ⟨route, waiting, started, alive⟩
    exact ⟨route, waiting, started, isServerDead_false.mp alive⟩

theorem calls_never_hang_deleted :
    ∃ trace : List (Net Bool Bool), Net.Run trace ∧ ∃ rn ∈ trace,
      rn.calls.map Call.handler = [.started ⟨true, 7, true⟩] ∧ rn.servers true = none ∧
      Moves rn 0 := by
  obtain ⟨rn, past, run, checked⟩ := Runs.Run.ends Net.step (fun _ _ => true)
    (Net.make Bool Bool)
    [.addServer true 7, .connect false true, .enable false true, .call false "KV.Put" [1],
      .accept 0, .readEndnameInfo 0, .start 0, .deleteServer true]
    (fun rn => decide (rn.calls =
      [⟨false, "KV.Put", [1], .waiting ⟨true, 7, true⟩, .started ⟨true, 7, true⟩⟩] ∧
      rn.servers true = none))
    (by decide +kernel)
  obtain ⟨calls, servers⟩ := of_decide_eq_true checked
  have member : rn ∈ rn :: past := List.mem_cons_self ..
  have allowed : Net.Run (rn :: past) := run.mono fun _ _ _ => trivial
  have first : rn.calls[0]? =
      some ⟨false, "KV.Put", [1], .waiting ⟨true, 7, true⟩, .started ⟨true, 7, true⟩⟩ := by
    rw [calls]
    rfl
  refine ⟨_, allowed, rn, member, by rw [calls]; rfl, servers, ?_⟩
  rcases (calls_never_hang allowed rn member 0 _ first).2 with
    ⟨reply, returned⟩ | moves | ⟨route, waiting, _, _, running⟩
  · cases returned
  · exact moves
  · obtain rfl := Phase.waiting.inj waiting
    cases servers.symm.trans running

end KvStore.Network
