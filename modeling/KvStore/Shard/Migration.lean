import KvStore.Lib.Histories
import KvStore.Shard.Events
import KvStore.Shard.Execution

set_option autoImplicit false

/-! Safety of migrations: who serves a shard, and what is installed and erased. -/

namespace KvStore.Shard

open Histories

variable {a : Shid → Protocol} {σ σ' : System} {servers : List String} {trace : List System}

namespace System

/-- Every state of every run follows the handoff protocol. -/
theorem Run.simulated (run : Run servers trace) : ∀ σ ∈ trace, ∃ a, Rel a σ := by
  refine run.invariant ⟨_, init_rel servers⟩ ?_
  rintro before action after _ moved ⟨a, rel⟩
  obtain ⟨a', _, rel'⟩ := rel.step moved
  exact ⟨a', rel'⟩

/-- The state after the actions, from the start. -/
def afterwards (actions : List Action) : Option System :=
  Runs.execute (Runs.guarded step fun _ _ => true) (init ["a"]) actions

theorem reached (actions : List Action) (done : (afterwards actions).isSome) :
    ∃ past, Run ["a"] ((afterwards actions).get done :: past) := by
  obtain ⟨past, run⟩ := Runs.Run.reached step (fun _ _ => true) (init ["a"]) actions done
  exact ⟨past, run.mono fun _ _ _ => trivial⟩

theorem passes (first second : List Action) (begun : (afterwards first).isSome)
    (done : (afterwards (first ++ second)).isSome) :
    ∃ past, Run ["a"] ((afterwards (first ++ second)).get done :: past) ∧
      (afterwards first).get begun ∈ (afterwards (first ++ second)).get done :: past := by
  obtain ⟨past, run, passed⟩ :=
    Runs.Run.passes step (fun _ _ => true) (init ["a"]) first second begun done
  exact ⟨past, run.mono fun _ _ _ => trivial, passed⟩

/-- The argument of `ChangeConfigTo` is derived from what an earlier `Query` returned. -/
def Callers (σ : System) (action : Action) : Prop :=
  ∀ q newCfg, action = .changeConfigTo q newCfg →
    ∃ queried, σ.queries[q]? = some queried ∧ queried.Derived newCfg

/-- No run turns such a caller away: every configuration derived from an earlier answer can be
passed to `ChangeConfigTo` in every state. -/
theorem Run.changeConfigTo {past : List System} {q : Nat} {queried newCfg : ShardConfig}
    (run : Run servers (σ :: past)) (found : σ.queries[q]? = some queried)
    (derived : queried.Derived newCfg) :
    Run servers ({ σ with operations := σ.operations ++ [.changeCurrent newCfg] } ::
      σ :: past) := by
  have moved : σ.step (.changeConfigTo q newCfg) =
      some { σ with operations := σ.operations ++ [.changeCurrent newCfg] } := by
    simp [step, System.changeConfigTo, found, derived.num_succ]
  exact .step run trivial moved

/-- It is derived by one of the given joins. -/
def joins (choices : List (List (Gid × List String))) (σ : System) : Action → Bool
  | .changeConfigTo q newCfg => σ.queries[q]?.any fun queried =>
      choices.any fun servers => queried.joinBalance servers = some (newCfg, true)
  | _ => true

theorem joins_callers {choices : List (List (Gid × List String))} {action : Action}
    (joined : joins choices σ action = true) : σ.Callers action := by
  rintro q newCfg rfl
  simp only [joins, Option.any_eq_true, List.any_eq_true, decide_eq_true_eq] at joined
  obtain ⟨queried, found, servers, _, done⟩ := joined
  exact ⟨queried, found, Or.inl ⟨servers, done⟩⟩

/-- The state after the actions, from the start, if all new configurations come from the
given joins. -/
def joining (choices : List (List (Gid × List String))) (actions : List Action) : Option System :=
  Runs.execute (Runs.guarded step (joins choices)) (init ["a"]) actions

theorem joining_reached (choices : List (List (Gid × List String))) (actions : List Action)
    (done : (joining choices actions).isSome) :
    ∃ past, Runs.Run step Callers (init ["a"]) ((joining choices actions).get done :: past) := by
  obtain ⟨past, run⟩ := Runs.Run.reached step (joins choices) (init ["a"]) actions done
  exact ⟨past, run.mono fun _ _ => joins_callers⟩

/-- Group 2 joins `gid1`. -/
def joined : ShardConfig :=
  (((initialConfig ["a"]).joinBalance [(2, ["b"])]).getD (initialConfig ["a"], false)).1

/-- A Put to shard 4 and then its move from `gid1` to group 2. -/
def movingShard : List Action :=
  [.query, .invoke 7 (.put "a" "v" 0), .acquire 0, .attempt 0 0, .execute 0, .answer 0 0,
    .changeConfigTo 0 joined, .read 0, .read 0, .put 0, .storeExecute 0, .putReply 0 0,
    .send 0 4, .execute 1, .receive 0 4 0, .send 0 4, .execute 2, .receive 0 4 0,
    .send 0 4, .execute 3]

theorem movingShard_done : (afterwards movingShard).isSome := by decide +kernel

/-- A goroutine moves its shard; `first` is the number of its first request. -/
def moveShard (s : Shid) (first : Nat) : List Action :=
  [.send 0 s, .execute first, .receive 0 s 0, .send 0 s, .execute (first + 1), .receive 0 s 0,
    .send 0 s, .execute (first + 2), .receive 0 s 0]

/-- A controller is told to add group 2. -/
def calledMove : List Action :=
  [.query, .changeConfigTo 0 joined]

/-- The controller saves the new configuration, moves its six shards and returns. -/
def completedMove : List Action :=
  calledMove ++ ([.read 0, .read 0, .put 0, .storeExecute 0, .putReply 0 0] ++ moveShard 0 0 ++
  moveShard 1 3 ++ moveShard 2 6 ++ moveShard 3 9 ++ moveShard 4 12 ++
  moveShard 5 15 ++ [.join 0, .put 0, .storeExecute 1, .putReply 0 0])

theorem completedMove_done : (afterwards completedMove).isSome := by decide +kernel

/-- Each shard is served by at most one group. -/
theorem exclusive_ownership (run : Run servers trace) :
    ∀ σ ∈ trace, ∀ s g g', (σ.groups g).shardStatuses s = .serving →
      (σ.groups g').shardStatuses s = .serving → g = g' := by
  intro σ member s g g' one other
  obtain ⟨a, rel⟩ := run.simulated σ member
  have serves : ∀ g, (σ.groups g).shardStatuses s = .serving →
      ((a s).holders g).status = .serving := by
    intro g serving
    rw [rel.holders]
    exact serving
  exact (rel.inv s).exclusive (serves g one) (serves g' other)

theorem exclusive_ownership_moved :
    ∃ trace σ, Run ["a"] trace ∧ σ ∈ trace ∧ (σ.groups 2).shardStatuses 4 = .serving ∧
      ∀ g, (σ.groups g).shardStatuses 4 = .serving → g = 2 := by
  obtain ⟨past, run⟩ := reached movingShard movingShard_done
  have serving : (((afterwards movingShard).get movingShard_done).groups 2).shardStatuses 4 =
      .serving := by decide +kernel
  refine ⟨_, _, run, List.mem_cons_self .., serving, fun g other => ?_⟩
  exact exclusive_ownership run _ (List.mem_cons_self ..) 4 g 2 other serving

end System

/-- Why an install or a delete is right when it is accepted. -/
def Justified (earlier : List Event) : Event → Prop
  | .installed g s num state held => ∃ source packed, source ≠ g ∧ state = some packed ∧
      held = some packed.kv ∧ .froze source s num packed.kv ∈ earlier
  | .deleted g s num => ∃ target packed, target ≠ g ∧ .froze g s num packed.kv ∈ earlier ∧
      .installed target s num (some packed) (some packed.kv) ∈ earlier
  | _ => True

namespace Rel

/-- A shard is frozen once for every number. -/
theorem froze_unique (rel : Rel a σ) {g g' : Gid} {s : Shid} {num : Nat}
    {kv kv' : KvMap String String} (one : .froze g s num kv ∈ σ.log)
    (other : .froze g' s num kv' ∈ σ.log) : g = g' ∧ kv = kv' := by
  obtain ⟨truth, recorded, rfl⟩ := rel.log.froze g s num kv one
  obtain ⟨truth', recorded', rfl⟩ := rel.log.froze g' s num kv' other
  obtain ⟨rfl, rfl⟩ := Prod.mk.inj (Option.some.inj (recorded.symm.trans recorded'))
  exact ⟨rfl, rfl⟩

theorem installed_justified (rel : Rel a σ) {k num : Nat} {gid : Gid} {s : Shid} {state : Packed}
    {caller : Caller} (found : σ.groupCalls[k]? = some ⟨gid, .installShard s state num, caller⟩)
    (later : (σ.groups gid).cfgNumByShid s < num)
    (absent : (σ.groups gid).shardStatuses s = .absent) :
    Justified σ.log (.installed gid s num state
      (((σ.groups gid).doInstallShard s state num).bind (·.1.kvm s))) := by
  obtain ⟨rfl, sent⟩ : CallRel a _ := rel.promises.calls _ (List.mem_of_getElem? found)
  have held := rel.holders s ((a s).owner num)
  obtain ⟨froze, rfl, packed, rfl, data, _⟩ := (rel.inv s).install_pending sent
    (by rw [held]; exact absent) (by rw [held]; exact later)
  refine ⟨_, packed, froze.moves, rfl, KVServer.doInstallShard_held later absent, ?_⟩
  rw [data]
  exact rel.log.frozenAs s _ _ _ froze.recorded

theorem deleted_justified (rel : Rel a σ) (each : Each Justified σ.log) {k num : Nat} {gid : Gid}
    {s : Shid} {caller : Caller} (found : σ.groupCalls[k]? = some ⟨gid, .deleteShard s num, caller⟩)
    (same : num = (σ.groups gid).cfgNumByShid s)
    (frozen : (σ.groups gid).shardStatuses s = .frozen) :
    Justified σ.log (.deleted gid s num) := by
  have sent : (a s).deletes gid num := rel.promises.calls _ (List.mem_of_getElem? found)
  have held := rel.holders s gid
  obtain ⟨moved, rfl, rfl⟩ := (rel.inv s).delete_pending sent
    (by rw [held]; exact frozen) (by rw [held]; exact same.symm)
  obtain ⟨truth, recorded⟩ := moved.recorded
  have froze := rel.log.frozenAs s _ _ _ recorded
  obtain ⟨target, state, held, member⟩ := rel.log.installed s _ moved.installed
  obtain ⟨earlier, ended⟩ := happened member
  obtain ⟨source, packed, differs, rfl, rfl, before⟩ := each _ _ ended
  obtain ⟨rfl, data⟩ := rel.froze_unique ((Histories.before ended).subset before) froze
  refine ⟨target, packed, differs.symm, ?_, member⟩
  rw [data]
  exact froze

theorem justified (rel : Rel a σ) (each : Each Justified σ.log) {action : Action}
    (moved : σ.step action = some σ') : Each Justified σ'.log := by
  rcases System.step_emits moved with same | ⟨event, more, emits⟩
  · rw [same]
    exact each
  · rw [more]
    refine each.cons ?_
    cases emits with
    | performed performs =>
      cases performs with
      | installed found later absent => exact rel.installed_justified found later absent
      | deleted found same frozen => exact rel.deleted_justified each found same frozen
      | _ => trivial
    | _ => trivial

end Rel

namespace System

theorem Run.justified (run : Run servers trace) :
    ∀ σ ∈ trace, (∃ a, Rel a σ) ∧ Each Justified σ.log := by
  refine run.invariant ⟨⟨_, init_rel servers⟩, .nil⟩ ?_
  rintro before action after _ moved ⟨⟨a, rel⟩, each⟩
  obtain ⟨a', _, rel'⟩ := rel.step moved
  exact ⟨⟨a', rel'⟩, rel.justified each moved⟩

/-- The log tells every freeze, install and delete. What a group holds after an install is
what was frozen for the same number, and nothing is erased before it is installed
elsewhere. -/
theorem no_data_loss (run : Run servers trace) :
    ∀ σ ∈ trace,
      (∀ action σ', σ.step action = some σ' → ∀ g s, ∃ events, σ'.log = events ++ σ.log ∧
        StatusChange g s (σ.groups g) (σ'.groups g) events) ∧
      (∀ g s num state held earlier, .installed g s num state held :: earlier <:+ σ.log →
        ∃ source packed, source ≠ g ∧ state = some packed ∧ held = some packed.kv ∧
          .froze source s num packed.kv ∈ earlier ∧
          ∀ other kv, .froze other s num kv ∈ earlier → other = source ∧ kv = packed.kv) ∧
      ∀ g s num earlier, .deleted g s num :: earlier <:+ σ.log →
        ∃ target packed, target ≠ g ∧ .froze g s num packed.kv ∈ earlier ∧
          .installed target s num (some packed) (some packed.kv) ∈ earlier := by
  intro σ member
  obtain ⟨⟨a, rel⟩, each⟩ := run.justified σ member
  refine ⟨fun _ _ moved => status_logged moved, ?_, ?_⟩
  · intro g s num state held earlier ended
    obtain ⟨source, packed, differs, decodes, holds, froze⟩ := each _ _ ended
    refine ⟨source, packed, differs, decodes, holds, froze, ?_⟩
    intro other kv also
    exact rel.froze_unique ((before ended).subset also) ((before ended).subset froze)
  · intro g s num earlier ended
    exact each _ _ ended

theorem no_data_loss_moved :
    ∃ trace σ earlier, Run ["a"] trace ∧ σ ∈ trace ∧ σ.log = .deleted 1 4 2 :: earlier ∧
      ∃ target packed, target ≠ 1 ∧ .froze 1 4 2 packed.kv ∈ earlier ∧
        .installed target 4 2 (some packed) (some packed.kv) ∈ earlier := by
  obtain ⟨past, run⟩ := reached movingShard movingShard_done
  have shape : ((afterwards movingShard).get movingShard_done).log =
      .deleted 1 4 2 :: ((afterwards movingShard).get movingShard_done).log.tail := rfl
  refine ⟨_, _, _, run, List.mem_cons_self .., shape, ?_⟩
  refine (no_data_loss run _ (List.mem_cons_self ..)).2.2 1 4 2 _ ?_
  rw [← shape]

end System

end KvStore.Shard
