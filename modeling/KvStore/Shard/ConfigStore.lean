import KvStore.Shard.Controllers
import KvStore.Shard.Migration

set_option autoImplicit false

/-! The two configurations in the config store: what they say about the groups, how
their numbers move, and what it means that `ChangeConfigTo` returns true. -/

namespace KvStore.Shard

variable {a a' : Shid → Protocol} {σ σ' : System} {servers : List String}
  {trace past : List System}

namespace System

/-- While nothing is pending, the stored configuration says where every shard is. -/
theorem stored_config_true (run : Run servers trace) :
    ∀ σ ∈ trace, ∃ cur nxt, σ.configStore .currentConfig = some cur ∧
      σ.configStore .nextConfig = some nxt ∧ (cur.value.num = nxt.value.num → ∀ s,
        (σ.groups (cur.value.shards s)).shardStatuses s = .serving ∧
        ∀ g, g ≠ cur.value.shards s → (σ.groups g).shardStatuses s = .absent) := by
  intro σ member
  obtain ⟨a, rel⟩ := run.simulated σ member
  obtain ⟨cur, nxt, store⟩ := rel.store
  refine ⟨_, _, store.current, store.next, fun settled s => ?_⟩
  dsimp only at settled ⊢
  obtain ⟨current, owned⟩ := store.currentAt s
  have next := (store.nextAt s).1
  have status : ∀ g, (σ.groups g).shardStatuses s = ((a s).holders g).status := by
    intro g
    rw [rel.holders]
    rfl
  rcases (rel.inv s).phase with rest | froze | moved
  · rw [owned, ← current]
    refine ⟨(status _).trans rest.serving, fun g other => ?_⟩
    exact (status g).trans (rest.others g other).1
  · have pending := froze.pending
    omega
  · have pending := moved.pending
    omega

theorem stored_config_true_moved :
    ∃ trace σ cur, Run ["a"] trace ∧ σ ∈ trace ∧ σ.configStore .currentConfig = some cur ∧
      cur.value.num = 2 ∧ (σ.groups (cur.value.shards 4)).shardStatuses 4 = .serving ∧
      (σ.groups gid1).shardStatuses 4 = .absent := by
  obtain ⟨past, run⟩ := reached completedMove completedMove_done
  obtain ⟨cur, nxt, current, next, settled⟩ :=
    stored_config_true run _ (List.mem_cons_self ..)
  have stored : ((afterwards completedMove).get completedMove_done).configStore .currentConfig =
      some { value := joined, version := 2 } := rfl
  have pending : ((afterwards completedMove).get completedMove_done).configStore .nextConfig =
      some { value := joined, version := 2 } := rfl
  obtain rfl := Option.some.inj (stored.symm.trans current)
  obtain rfl := Option.some.inj (pending.symm.trans next)
  have moved := settled rfl 4
  refine ⟨_, _, _, run, List.mem_cons_self .., current, by decide +kernel, moved.1, ?_⟩
  exact moved.2 gid1 (by decide +kernel)

/-- The number of the configuration stored under a key. -/
def configNum (σ : System) (key : ConfigKey) : Nat :=
  ((σ.configStore key).map (·.value.num)).getD 0

end System

theorem Rel.configNum (rel : Rel a σ) (s : Shid) :
    σ.configNum .currentConfig = (a s).current ∧ σ.configNum .nextConfig = (a s).next := by
  obtain ⟨cur, nxt, store⟩ := rel.store
  rw [(store.currentAt s).1, (store.nextAt s).1]
  simp only [System.configNum, store.current, store.next, Option.map_some, Option.getD_some,
    and_self]

theorem Rel.configNum_mono (rel : Rel a σ) (rel' : Rel a' σ') (growth : Growth a a')
    (key : ConfigKey) : σ.configNum key ≤ σ'.configNum key := by
  obtain ⟨current, next⟩ := rel.configNum 0
  obtain ⟨current', next'⟩ := rel'.configNum 0
  cases key with
  | currentConfig =>
    rw [current, current']
    exact (growth.grows 0).current
  | nextConfig =>
    rw [next, next']
    exact (growth.grows 0).next

namespace System

/-- The operation is a stage of `ChangeConfigTo(newCfg)`, and once it has returned true
something is done. -/
def Pursues (σ : System) (newCfg : ShardConfig) (done : Prop) : Operation → Prop
  | .changeCurrent cfg => cfg = newCfg
  | .saveQuery cfg _ _ => cfg = newCfg
  | .savePut cfg _ _ _ _ _ => cfg = newCfg
  | .saveCheck cfg _ _ => cfg = newCfg
  | .migrate cfg _ ver _ => cfg = newCfg ∧ newCfg.num = ver + 1
  | .finalPut cfg ver call => cfg = newCfg ∧ newCfg.num = ver + 1 ∧ ∀ k, call = some k →
      σ.storePuts[k]? = some { key := .currentConfig, value := newCfg, version := ver }
  | .returned ok => ok = true → done
  | .stopped => True
  | .initCurrent | .initNext _ _ => False

/-- The last Put of `ChangeConfigTo(newCfg)` has been answered. -/
structure Answered (σ : System) (newCfg : ShardConfig) (ver k : Nat) : Prop where
  operation : .finalPut newCfg ver (some k) ∈ σ.operations
  succ : newCfg.num = ver + 1
  sent : σ.storePuts[k]? = some { key := .currentConfig, value := newCfg, version := ver }
  replied : ∃ err, (k, err) ∈ σ.storeReplies

variable {newCfg : ShardConfig} {operation operation' : Operation} {action : Action} {i : Nat}
  {done done' : Prop}

theorem Pursues.mono (pursues : σ.Pursues newCfg done operation)
    (puts : Keeps σ.storePuts σ'.storePuts) (still : done → done') :
    σ'.Pursues newCfg done' operation := by
  cases operation with
  | finalPut cfg ver call =>
    obtain ⟨same, succ, sent⟩ := pursues
    exact ⟨same, succ, fun k mine => puts k _ (sent k mine)⟩
  | returned ok => exact fun good => still (pursues good)
  | _ => exact pursues

/-- A stage of `ChangeConfigTo(newCfg)` is followed by another one, and it returns true
only when its last Put has been answered. -/
theorem Pursues.advances (pursues : σ.Pursues newCfg done operation)
    (finish : ∀ ver k, σ.Answered newCfg ver k → done)
    (found : σ.operations[i]? = some operation)
    (rel : OperationRel a σ.storePuts σ.groupCalls operation)
    (advances : Advances σ action i operation operation') :
    σ.Pursues newCfg done operation' := by
  cases advances with
  | initCurrent | resume | recovered => exact pursues.elim
  | refused => exact nofun
  | stopped => trivial
  | changeCurrent | saveQuery | uncertain => exact pursues
  | saved =>
    obtain ⟨⟨version, _⟩, succ, _⟩ := rel
    have same : _ = newCfg := pursues
    exact ⟨same, by rw [← same, version, succ]⟩
  | saveCheck =>
    obtain ⟨⟨version, _⟩, succ⟩ := rel
    have same : _ = newCfg := pursues
    exact ⟨same, by rw [← same, version, succ]⟩
  | worker => exact pursues
  | joined => exact ⟨pursues.1, pursues.2, nofun⟩
  | stored replied =>
    obtain ⟨rfl, succ, sent⟩ := pursues
    intro _
    exact finish _ _ ⟨List.mem_of_getElem? found, succ, sent _ rfl, _, replied⟩

theorem Pursues.sends {put : StorePut} (pursues : σ.Pursues newCfg done operation)
    (sends : SendsPut σ.storePuts.length operation operation' put)
    (more : σ'.storePuts = σ.storePuts ++ [put]) : σ'.Pursues newCfg done operation' := by
  cases sends with
  | next => exact pursues
  | current =>
    obtain ⟨rfl, succ, _⟩ := pursues
    refine ⟨rfl, succ, fun k mine => ?_⟩
    rw [more, ← Option.some.inj mine]
    exact List.getElem?_concat_length

/-- Whatever becomes of the others, an operation under way in `ChangeConfigTo(newCfg)`
stays one. -/
theorem Pursues.step (rel : Rel a σ) (finish : ∀ ver k, σ.Answered newCfg ver k → done)
    (control : ControlStep σ action σ') (found : σ.operations[i]? = some operation)
    (pursues : σ.Pursues newCfg done operation) :
    ∃ operation', σ'.operations[i]? = some operation' ∧ σ'.Pursues newCfg done operation' := by
  have kept : ∀ {operation}, σ.Pursues newCfg done operation → σ'.Pursues newCfg done operation :=
    fun pursues => pursues.mono control.storePuts id
  cases control with
  | elsewhere _ operations | executed _ operations =>
    exact ⟨operation, by rw [operations, found], kept pursues⟩
  | begun _ operations =>
    refine ⟨operation, ?_, kept pursues⟩
    rw [operations]
    exact Keeps.append _ _ i operation found
  | @advanced i' _ operation' _ there operations advances =>
    rw [operations]
    by_cases here : i' = i
    · subst here
      obtain rfl := Option.some.inj (found.symm.trans there)
      have promised := rel.promises.operations _ (List.mem_of_getElem? found)
      refine ⟨operation', ?_, kept (pursues.advances finish found promised advances)⟩
      exact List.getElem?_set_self (List.getElem?_eq_some_iff.mp found).1
    · exact ⟨operation, by rw [List.getElem?_set_ne here, found], kept pursues⟩
  | @sent i' _ operation' _ _ _ there operations storePuts sends =>
    rw [operations]
    by_cases here : i' = i
    · subst here
      obtain rfl := Option.some.inj (found.symm.trans there)
      refine ⟨operation', ?_, pursues.sends sends storePuts⟩
      exact List.getElem?_set_self (List.getElem?_eq_some_iff.mp found).1
    · exact ⟨operation, by rw [List.getElem?_set_ne here, found], kept pursues⟩

/-- Whatever the last Put establishes when it is answered, and later steps keep, holds
once `ChangeConfigTo(newCfg)` has returned true. -/
theorem returned_true {allowed : System → Action → Prop} (done : List System → Prop)
    (run : Runs.Run step allowed (init servers) trace)
    (finish : ∀ σ past, Runs.Run step allowed (init servers) (σ :: past) →
      ∀ ver k, σ.Answered newCfg ver k → done (σ :: past))
    (still : ∀ σ past action σ', Runs.Run step allowed (init servers) (σ :: past) →
      σ.step action = some σ' → done (σ :: past) → done (σ' :: σ :: past))
    {earlier later : System} {past : List System} (head : trace = later :: past)
    (member : earlier ∈ trace) (called : earlier.operations[i]? = some (.changeCurrent newCfg)) :
    ∃ operation, later.operations[i]? = some operation ∧
      later.Pursues newCfg (done trace) operation := by
  induction run generalizing later past with
  | start =>
    obtain ⟨rfl, rfl⟩ := List.cons.inj head
    rw [List.mem_singleton.mp member] at called
    exact ⟨_, called, rfl⟩
  | @step before after older action run admitted moved ih =>
    obtain ⟨rfl, rfl⟩ := List.cons.inj head
    rcases List.mem_cons.mp member with rfl | old
    · exact ⟨_, called, rfl⟩
    · obtain ⟨operation, found, pursues⟩ := ih rfl old
      obtain ⟨a, rel⟩ := Run.simulated (run.mono fun _ _ _ => trivial) before
        (List.mem_cons_self ..)
      obtain ⟨operation', found', pursues'⟩ :=
        pursues.step rel (finish before older run) (control_step moved) found
      exact ⟨operation', found', pursues'.mono (.refl _) (still _ _ _ _ run moved)⟩

/-- An answered Put of a current configuration is either done or too late. -/
def PutsAnswered (σ : System) : Prop :=
  ∀ k err, (k, err) ∈ σ.storeReplies → ∃ put, σ.storePuts[k]? = some put ∧
    (put.key = .currentConfig → put.version < σ.configNum .currentConfig)

theorem PutsAnswered.step (answered : σ.PutsAnswered) (rel : Rel a σ) (rel' : Rel a' σ')
    (growth : Growth a a') (control : ControlStep σ action σ') : σ'.PutsAnswered := by
  have later := rel.configNum_mono rel' growth .currentConfig
  have before : ∀ k err, (k, err) ∈ σ.storeReplies → ∃ put, σ'.storePuts[k]? = some put ∧
      (put.key = .currentConfig → put.version < σ'.configNum .currentConfig) := by
    intro k err replied
    obtain ⟨put, found, passed⟩ := answered k err replied
    exact ⟨put, control.storePuts k put found, fun key => (passed key).trans_le later⟩
  intro k err replied
  cases control with
  | elsewhere same | begun same | advanced same =>
    rw [same.storeReplies] at replied
    exact before k err replied
  | sent _ storeReplies =>
    rw [storeReplies] at replied
    exact before k err replied
  | @executed k' put found _ storePuts configStore storeReplies =>
    rw [storeReplies] at replied
    rcases List.mem_cons.mp replied with new | old
    · obtain ⟨rfl, rfl⟩ := Prod.mk.inj new
      refine ⟨put, by rw [storePuts, found], fun key => ?_⟩
      obtain ⟨cur, nxt, store⟩ := rel.store
      have sent := rel.promises.puts put (List.mem_of_getElem? found)
      unfold PutRel at sent
      rw [key] at sent configStore
      obtain ⟨_, newer, settled⟩ := sent
      have current := (rel.configNum 0).1
      have now := (store.currentAt 0).1
      rcases KvMap.put_held store.current put.value put.version with
        ⟨_, done⟩ | ⟨differs, _⟩
      · rw [configNum, configStore, done]
        dsimp only
        rw [Function.update_self]
        exact newer
      · have early := (settled 0).1
        dsimp only at differs
        omega
    · exact before k err old

theorem Run.putsAnswered (run : Run servers trace) : ∀ σ ∈ trace, σ.PutsAnswered := by
  have both : ∀ σ ∈ trace, (∃ a, Rel a σ) ∧ σ.PutsAnswered := by
    refine run.invariant ⟨⟨_, init_rel servers⟩, nofun⟩ ?_
    intro before action after _ moved ⟨⟨a, rel⟩, answered⟩
    obtain ⟨a', follows, rel'⟩ := rel.step moved
    exact ⟨⟨a', rel'⟩, answered.step rel rel' (follows.growth rel.inv) (control_step moved)⟩
  exact fun σ member => (both σ member).2

theorem configNum_step (run : Run servers (σ :: past)) (moved : σ.step action = some σ')
    (key : ConfigKey) : σ.configNum key ≤ σ'.configNum key := by
  obtain ⟨a, rel⟩ := Run.simulated run σ (List.mem_cons_self ..)
  obtain ⟨a', follows, rel'⟩ := rel.step moved
  exact rel.configNum_mono rel' (follows.growth rel.inv) key

/-- The numbers only grow from one state of a run to the newest. -/
theorem Run.configNum_mono (run : Run servers trace) (head : trace = σ' :: past) :
    ∀ σ ∈ trace, ∀ key, σ.configNum key ≤ σ'.configNum key := by
  induction run generalizing σ' past with
  | start =>
    obtain ⟨rfl, rfl⟩ := List.cons.inj head
    intro σ member key
    rw [List.mem_singleton.mp member]
  | step run _ moved ih =>
    obtain ⟨rfl, rfl⟩ := List.cons.inj head
    intro σ member key
    rcases List.mem_cons.mp member with rfl | old
    · exact le_rfl
    · exact (ih rfl σ old key).trans (configNum_step run moved key)

/-- The current configuration of the newest state has caught up with the number. -/
def CaughtUp (num : Nat) (trace : List System) : Prop :=
  ∀ σ past, trace = σ :: past → num ≤ σ.configNum .currentConfig

theorem caughtUp_answered (run : Run servers (σ :: past)) {ver k : Nat}
    (answered : σ.Answered newCfg ver k) : CaughtUp newCfg.num (σ :: past) := by
  intro σ' past' head
  obtain ⟨rfl, rfl⟩ := List.cons.inj head
  obtain ⟨err, replied⟩ := answered.replied
  obtain ⟨put, found, passed⟩ := Run.putsAnswered run σ (List.mem_cons_self ..) k err replied
  rw [answered.sent] at found
  obtain rfl := Option.some.inj found
  rw [answered.succ]
  exact passed rfl

/-- The numbers of the two stored configurations differ by at most one and never
decrease, and when `ChangeConfigTo` returns true the current one has caught up with
its argument. -/
theorem config_numbers (run : Run servers trace) :
    (∀ σ ∈ trace, (∀ key, (σ.configStore key).isSome) ∧
      σ.configNum .currentConfig ≤ σ.configNum .nextConfig ∧
      σ.configNum .nextConfig ≤ σ.configNum .currentConfig + 1) ∧
    ∀ later past, later :: past <:+ trace → ∀ earlier ∈ later :: past,
      (∀ key, earlier.configNum key ≤ later.configNum key) ∧
      ∀ (i : Nat) (newCfg : ShardConfig),
        earlier.operations[i]? = some (.changeCurrent newCfg) →
        later.operations[i]? = some (.returned true) →
        newCfg.num ≤ later.configNum .currentConfig := by
  constructor
  · intro σ member
    obtain ⟨a, rel⟩ := run.simulated σ member
    obtain ⟨cur, nxt, store⟩ := rel.store
    obtain ⟨current, next⟩ := rel.configNum 0
    have ordered := (rel.inv 0).ordered
    rw [current, next]
    refine ⟨fun key => ?_, ordered⟩
    cases key with
    | currentConfig => rw [store.current, Option.isSome_some]
    | nextConfig => rw [store.next, Option.isSome_some]
  · intro later past ended earlier member
    have run' : Run servers (later :: past) := Runs.Run.suffix run ended
    refine ⟨run'.configNum_mono rfl earlier member, ?_⟩
    intro i newCfg called returned
    obtain ⟨operation, found, pursues⟩ := returned_true (CaughtUp newCfg.num) run'
      (fun σ past run ver k => caughtUp_answered run)
      (fun σ past action σ' run moved done σ'' past' head => by
        obtain ⟨rfl, rfl⟩ := List.cons.inj head
        exact (done σ past rfl).trans (configNum_step run moved _))
      rfl member called
    rw [returned] at found
    obtain rfl := Option.some.inj found
    exact pursues rfl later past rfl

theorem config_numbers_moved :
    ∃ past earlier later, Run ["a"] (later :: past) ∧ earlier ∈ later :: past ∧
      earlier.operations[0]? = some (.changeCurrent joined) ∧
      later.operations[0]? = some (.returned true) ∧
      joined.num ≤ later.configNum .currentConfig := by
  obtain ⟨past, run, passed⟩ := passes calledMove _ (by decide +kernel) completedMove_done
  refine ⟨past, _, _, run, passed, rfl, rfl, ?_⟩
  exact ((config_numbers run).2 _ past (List.suffix_refl _) _ passed).2 0 joined rfl rfl

end System

end KvStore.Shard
