import KvStore.Shard.ConfigStore

set_option autoImplicit false

/-! Whether a number stands for one configuration. A controller that does not know whether
its Put of the next configuration was the one that took effect compares the stored
configuration with its own by `EqualTo`, which does not look at `Groups`. -/

namespace KvStore.Shard

namespace ShardConfig

theorem eq_of_equalTo {cfg other : ShardConfig} (same : cfg.equalTo other = true)
    (groups : cfg.groups = other.groups) : cfg = other := by
  obtain ⟨num, shards⟩ := (equalTo_iff cfg other).mp same
  obtain ⟨num', shards', groups'⟩ := cfg
  obtain rfl : num' = other.num := num
  obtain rfl : shards' = other.shards := funext shards
  obtain rfl : groups' = other.groups := groups
  rfl

end ShardConfig

/-- An operation that migrates to a configuration, or has done so. -/
def Operation.Targets (cfg : ShardConfig) : Operation → Prop
  | .migrate newCfg _ _ _ => newCfg = cfg
  | .finalPut newCfg _ _ => newCfg = cfg
  | _ => False

def Operation.succeeded : Operation → Bool
  | .returned ok => ok
  | _ => false

theorem Operation.eq_returned {operation : Operation} (good : operation.succeeded = true) :
    operation = .returned true := by
  cases operation with
  | returned ok => rw [show ok = true from good]
  | _ => cases good

namespace System

variable {a : Shid → Protocol} {σ σ' : System} {servers : List String}
  {trace past : List System} {action : Action} {cfg : ShardConfig} {i : Nat}

/-- The configuration is stored in some state of the run, under either key. -/
def Stored (trace : List System) (cfg : ShardConfig) : Prop :=
  ∃ σ ∈ trace, ∃ key held, σ.configStore key = some held ∧ held.value = cfg

theorem Stored.cons (stored : Stored trace cfg) : Stored (σ :: trace) cfg := by
  obtain ⟨σ', member, rest⟩ := stored
  exact ⟨σ', List.mem_cons_of_mem _ member, rest⟩

/-- What all controllers agree on: one configuration for every number, and nobody
migrates to, or asks to make current, one that was not stored. -/
structure Agreed (trace : List System) (σ : System) : Prop where
  unique : ∀ cfg cfg', Stored trace cfg → Stored trace cfg' → cfg.num = cfg'.num → cfg = cfg'
  bounded : ∀ cfg, Stored trace cfg → cfg.num ≤ σ.configNum .nextConfig
  operations : ∀ operation ∈ σ.operations, ∀ cfg, Operation.Targets cfg operation →
    Stored trace cfg
  puts : ∀ put ∈ σ.storePuts, put.key = .currentConfig → Stored trace put.value
  saved : ∀ (k : Nat) (put : StorePut), (k, .ok) ∈ σ.storeReplies →
    σ.storePuts[k]? = some put → put.key = .nextConfig → Stored trace put.value

/-- When a controller finds a configuration `EqualTo` its own stored as the next one, it
is its own, `Groups` included. -/
def confirmsOwn (σ : System) : Action → Bool
  | .read i =>
    match σ.operations[i]?, σ.configStore .nextConfig with
    | some (.saveCheck newCfg _ _), some held =>
      !held.value.equalTo newCfg || held.value.groups = newCfg.groups
    | _, _ => true
  | _ => true

theorem confirmsOwn_read {newCfg old : ShardConfig} {ver : Nat}
    {held : VersionedValue ShardConfig} (admitted : σ.confirmsOwn (.read i) = true)
    (found : σ.operations[i]? = some (.saveCheck newCfg old ver))
    (stored : σ.configStore .nextConfig = some held)
    (same : held.value.equalTo newCfg = true) : held.value = newCfg := by
  simp only [confirmsOwn, found, stored, same, Bool.not_true, Bool.false_or,
    decide_eq_true_eq] at admitted
  exact ShardConfig.eq_of_equalTo same admitted

/-- What the config store holds after a step was stored before, or is a next
configuration that has just been accepted, with a new number. -/
theorem stores_cases (rel : Rel a σ) (agreed : Agreed (σ :: past) σ)
    (control : ControlStep σ action σ') {key : ConfigKey} {held : VersionedValue ShardConfig}
    (stored : σ'.configStore key = some held) :
    Stored (σ :: past) held.value ∨
      held.value.num = σ.configNum .nextConfig + 1 ∧
        ∃ ver, σ'.configStore .nextConfig = some { value := held.value, version := ver } := by
  have kept : ∀ key held, σ.configStore key = some held → Stored (σ :: past) held.value :=
    fun key held before => ⟨σ, List.mem_cons_self .., key, held, before, rfl⟩
  cases control with
  | elsewhere same | begun same | advanced same =>
    rw [same.configStore] at stored
    exact Or.inl (kept key held stored)
  | sent configStore =>
    rw [configStore] at stored
    exact Or.inl (kept key held stored)
  | @executed k put found _ _ configStore =>
    by_cases here : key = put.key
    · subst here
      have sent := rel.promises.puts put (List.mem_of_getElem? found)
      obtain ⟨cur, nxt, store⟩ := rel.store
      obtain ⟨key, value, version⟩ := put
      cases key with
      | nextConfig =>
        obtain ⟨succ, _⟩ := sent
        dsimp only at succ configStore stored
        rcases KvMap.put_held store.next value version with ⟨same, done⟩ | ⟨_, done⟩
        · rw [done] at configStore
          rw [configStore] at stored
          dsimp only at stored same
          rw [Function.update_self] at stored
          obtain rfl := Option.some.inj stored
          refine Or.inr ⟨?_, version + 1, ?_⟩
          · rw [(rel.configNum 0).2, (store.nextAt 0).1, same, succ]
          · rw [configStore]
            dsimp only
            rw [Function.update_self]
        · rw [configStore, done] at stored
          exact Or.inl (kept _ held stored)
      | currentConfig =>
        dsimp only at configStore stored
        rcases KvMap.put_held store.current value version with ⟨_, done⟩ | ⟨_, done⟩
        · rw [configStore, done] at stored
          dsimp only at stored
          rw [Function.update_self] at stored
          obtain rfl := Option.some.inj stored
          exact Or.inl (agreed.puts _ (List.mem_of_getElem? found) rfl)
        · rw [configStore, done] at stored
          exact Or.inl (kept _ held stored)
    · rw [configStore, KvMap.put_other _ _ _ here] at stored
      exact Or.inl (kept key held stored)

theorem stored_cases (rel : Rel a σ) (agreed : Agreed (σ :: past) σ)
    (control : ControlStep σ action σ') (stored : Stored (σ' :: σ :: past) cfg) :
    Stored (σ :: past) cfg ∨ cfg.num = σ.configNum .nextConfig + 1 ∧
      ∃ ver, σ'.configStore .nextConfig = some { value := cfg, version := ver } := by
  obtain ⟨other, member, key, held, found, rfl⟩ := stored
  rcases List.mem_cons.mp member with rfl | old
  · exact stores_cases rel agreed control found
  · exact Or.inl ⟨other, old, key, held, found, rfl⟩

theorem advances_targets {operation operation' : Operation} (rel : Rel a σ)
    (agreed : Agreed (σ :: past) σ) (admitted : σ.confirmsOwn action = true)
    (found : σ.operations[i]? = some operation)
    (advances : Advances σ action i operation operation')
    (targets : operation'.Targets cfg) : Stored (σ :: past) cfg := by
  have there := List.mem_of_getElem? found
  have kept : ∀ {key held}, σ.configStore key = some held → Stored (σ :: past) held.value :=
    fun before => ⟨σ, List.mem_cons_self .., _, _, before, rfl⟩
  cases advances with
  | resume _ stored =>
    obtain rfl : _ = cfg := targets
    exact kept stored
  | saved good =>
    obtain rfl : _ = cfg := targets
    obtain ⟨_, _, _, sent⟩ := rel.promises.operations _ there
    exact agreed.saved _ _ good (sent _ rfl) rfl
  | saveCheck reads stored same =>
    obtain rfl : _ = cfg := targets
    subst reads
    rw [← confirmsOwn_read admitted found stored same]
    exact kept stored
  | worker | joined => exact agreed.operations _ there cfg targets
  | _ => exact targets.elim

theorem Agreed.operations_step (rel : Rel a σ) (agreed : Agreed (σ :: past) σ)
    (admitted : σ.confirmsOwn action = true) (control : ControlStep σ action σ') :
    ∀ operation ∈ σ'.operations, ∀ cfg, operation.Targets cfg → Stored (σ :: past) cfg := by
  intro operation member cfg targets
  cases control with
  | elsewhere _ operations | executed _ operations =>
    rw [operations] at member
    exact agreed.operations operation member cfg targets
  | begun _ operations first =>
    rw [operations] at member
    rcases List.mem_append.mp member with old | new
    · exact agreed.operations operation old cfg targets
    · rw [List.mem_singleton.mp new] at targets
      rcases first with rfl | ⟨newCfg, rfl⟩ <;> exact targets.elim
  | advanced _ found operations advances =>
    rw [operations] at member
    rcases List.mem_or_eq_of_mem_set member with old | rfl
    · exact agreed.operations operation old cfg targets
    · exact advances_targets rel agreed admitted found advances targets
  | sent _ _ found operations _ sends =>
    rw [operations] at member
    rcases List.mem_or_eq_of_mem_set member with old | rfl
    · exact agreed.operations operation old cfg targets
    · cases sends with
      | next => exact targets.elim
      | current => exact agreed.operations _ (List.mem_of_getElem? found) cfg targets

theorem Agreed.puts_step (agreed : Agreed (σ :: past) σ) (control : ControlStep σ action σ') :
    ∀ put ∈ σ'.storePuts, put.key = .currentConfig → Stored (σ :: past) put.value := by
  intro put member key
  cases control with
  | elsewhere same | begun same | advanced same =>
    rw [same.storePuts] at member
    exact agreed.puts put member key
  | executed _ _ storePuts =>
    rw [storePuts] at member
    exact agreed.puts put member key
  | sent _ _ found _ storePuts sends =>
    rw [storePuts] at member
    rcases List.mem_append.mp member with old | new
    · exact agreed.puts put old key
    · rw [List.mem_singleton.mp new] at key ⊢
      cases sends with
      | next => cases key
      | current => exact agreed.operations _ (List.mem_of_getElem? found) _ rfl

/-- A Put of a next configuration that was answered well has stored it. -/
theorem Agreed.saved_step (rel : Rel a σ) (agreed : Agreed (σ :: past) σ)
    (control : ControlStep σ action σ') (k : Nat) (put : StorePut)
    (good : (k, .ok) ∈ σ'.storeReplies) (found : σ'.storePuts[k]? = some put)
    (key : put.key = .nextConfig) : Stored (σ' :: σ :: past) put.value := by
  have before : (k, .ok) ∈ σ.storeReplies → Stored (σ' :: σ :: past) put.value := by
    intro old
    obtain ⟨put', there, _⟩ := rel.promises.stored k old
    obtain rfl := Option.some.inj ((control.storePuts k put' there).symm.trans found)
    exact (agreed.saved k put' old there key).cons
  cases control with
  | elsewhere same | begun same | advanced same => exact before (same.storeReplies ▸ good)
  | sent _ storeReplies => exact before (storeReplies ▸ good)
  | @executed k' put' there _ storePuts configStore storeReplies =>
    rw [storeReplies] at good
    rcases List.mem_cons.mp good with new | old
    · obtain ⟨rfl, accepted⟩ := Prod.mk.inj new
      rw [storePuts, there] at found
      obtain rfl := Option.some.inj found
      obtain ⟨cur, nxt, store⟩ := rel.store
      rw [key] at accepted configStore
      rcases KvMap.put_held store.next put'.value put'.version with ⟨_, done⟩ | ⟨_, done⟩
      · rw [done] at configStore
        refine ⟨σ', List.mem_cons_self .., .nextConfig, ⟨put'.value, put'.version + 1⟩, ?_, rfl⟩
        rw [configStore]
        dsimp only
        rw [Function.update_self]
      · rw [done] at accepted
        cases accepted
    · exact before old

theorem Agreed.step (run : Run servers (σ :: past)) (agreed : Agreed (σ :: past) σ)
    (admitted : σ.confirmsOwn action = true) (moved : σ.step action = some σ') :
    Agreed (σ' :: σ :: past) σ' := by
  obtain ⟨a, rel⟩ := Run.simulated run σ (List.mem_cons_self ..)
  have control := control_step moved
  have later := configNum_step run moved .nextConfig
  refine ⟨?_, ?_, ?_, ?_, agreed.saved_step rel control⟩
  · intro cfg cfg' stored stored' num
    rcases stored_cases rel agreed control stored with old | ⟨fresh, ver, now⟩ <;>
      rcases stored_cases rel agreed control stored' with old' | ⟨fresh', ver', now'⟩
    · exact agreed.unique cfg cfg' old old' num
    · have := agreed.bounded cfg old
      omega
    · have := agreed.bounded cfg' old'
      omega
    · exact congrArg (·.value) (Option.some.inj (now.symm.trans now'))
  · intro cfg stored
    rcases stored_cases rel agreed control stored with old | ⟨_, ver, now⟩
    · exact (agreed.bounded cfg old).trans later
    · rw [configNum, now]
      exact le_rfl
  · intro operation member cfg targets
    exact (agreed.operations_step rel admitted control operation member cfg targets).cons
  · intro put member key
    exact (agreed.puts_step control put member key).cons

theorem Agreed.init (servers : List String) : Agreed [init servers] (System.init servers) where
  unique cfg cfg' stored stored' _ := by
    obtain ⟨_, member, key, held, found, rfl⟩ := stored
    obtain ⟨_, member', key', held', found', rfl⟩ := stored'
    rw [List.mem_singleton.mp member] at found
    rw [List.mem_singleton.mp member'] at found'
    rw [← Option.some.inj found, ← Option.some.inj found']
  bounded cfg stored := by
    obtain ⟨_, member, key, held, found, rfl⟩ := stored
    rw [List.mem_singleton.mp member] at found
    rw [← Option.some.inj found]
    exact le_rfl
  operations _ member := by cases member
  puts _ member := by cases member
  saved _ _ member := by cases member

/-- The runs in which every controller whose Put of the next configuration was uncertain
takes only its own configuration for its own. -/
abbrev ConfirmedRun (servers : List String) (trace : List System) : Prop :=
  Runs.Run step (fun σ action => σ.confirmsOwn action = true) (System.init servers) trace

theorem ConfirmedRun.agreed (run : ConfirmedRun servers trace) (head : trace = σ :: past) :
    Agreed trace σ := by
  induction run generalizing σ past with
  | start =>
    obtain ⟨rfl, rfl⟩ := List.cons.inj head
    exact .init servers
  | step run admitted moved ih =>
    obtain ⟨rfl, rfl⟩ := List.cons.inj head
    exact (ih rfl).step (run.mono fun _ _ _ => trivial) admitted moved

/-- All configurations ever stored with one number are the same, and when
`ChangeConfigTo(newCfg)` returns true it is `newCfg`. -/
theorem one_config_per_number (run : ConfirmedRun servers trace) :
    (∀ cfg cfg', Stored trace cfg → Stored trace cfg' → cfg.num = cfg'.num → cfg = cfg') ∧
    ∀ later past, later :: past <:+ trace → ∀ earlier ∈ later :: past,
      ∀ (i : Nat) (newCfg : ShardConfig),
        earlier.operations[i]? = some (.changeCurrent newCfg) →
        later.operations[i]? = some (.returned true) →
        Stored trace newCfg ∧ ∀ cfg, Stored trace cfg → cfg.num = newCfg.num → cfg = newCfg := by
  have unique : ∀ cfg cfg', Stored trace cfg → Stored trace cfg' → cfg.num = cfg'.num →
      cfg = cfg' := by
    cases run with
    | start => exact (Agreed.init servers).unique
    | step run admitted moved => exact (ConfirmedRun.agreed (run.step admitted moved) rfl).unique
  refine ⟨unique, ?_⟩
  intro later past ended earlier member i newCfg called returned
  obtain ⟨operation, found, pursues⟩ := returned_true (fun trace => Stored trace newCfg)
    (run.suffix ended)
    (fun σ past run ver k answered =>
      (ConfirmedRun.agreed run rfl).operations _ answered.operation newCfg rfl)
    (fun _ _ _ _ _ _ => Stored.cons) rfl member called
  rw [returned] at found
  obtain rfl := Option.some.inj found
  have stored : Stored trace newCfg := by
    obtain ⟨σ, there, rest⟩ := pursues rfl
    exact ⟨σ, ended.subset there, rest⟩
  exact ⟨stored, fun cfg other num => unique cfg newCfg other stored num⟩

/-- The first attempt to save the configuration is lost; the second is the one that takes
effect, and the controller finds its own configuration when it asks. -/
def resentPut : List Action :=
  calledMove ++
  ([.read 0, .read 0, .put 0, .put 0, .storeExecute 1, .putReply 0 0, .read 0] : List Action) ++
  moveShard 0 0 ++ moveShard 1 3 ++ moveShard 2 6 ++ moveShard 3 9 ++ moveShard 4 12 ++
  moveShard 5 15 ++ ([.join 0, .put 0, .storeExecute 2, .putReply 0 0] : List Action)

theorem resentPut_done :
    (Runs.execute (Runs.guarded step confirmsOwn) (System.init ["a"]) resentPut).isSome := by
  decide +kernel

theorem one_config_per_number_resent :
    ∃ trace, ConfirmedRun ["a"] trace ∧ Stored trace joined ∧
      ∀ cfg, Stored trace cfg → cfg.num = joined.num → cfg = joined := by
  obtain ⟨past, run, passed⟩ := Runs.Run.passes step confirmsOwn (System.init ["a"]) calledMove _
    (by decide +kernel) resentPut_done
  exact ⟨_, run,
    (one_config_per_number run).2 _ past (List.suffix_refl _) _ passed 0 joined rfl rfl⟩

/-- Eleven groups, and one more that is left without a shard. -/
def manyGroups (last : Gid) : List (Gid × List String) :=
  ((List.range 11).map fun k => ((k : Int) + 2, [toString k])) ++ [(last, ["last"])]

def joinedMany (last : Gid) : ShardConfig :=
  (((initialConfig ["a"]).joinBalance (manyGroups last)).getD (initialConfig ["a"], false)).1

/-- Two controllers add twelve groups each, of which they share eleven. The second one
saves its configuration; the first one sends its Put twice, finds a configuration that is
`EqualTo` its own, moves the eleven shards and makes its own configuration current. -/
def uncertainPut : List Action :=
  ([.query, .changeConfigTo 0 (joinedMany 13), .changeConfigTo 0 (joinedMany 14), .read 0, .read 0,
    .read 1, .read 1, .put 1, .storeExecute 0, .put 0, .put 0, .storeExecute 2, .putReply 0 0,
    .read 0] : List Action) ++
  ((List.range 11).flatMap fun s => moveShard (Fin.ofNat 12 s) (3 * s)) ++
  ([.join 0, .put 0, .storeExecute 3, .putReply 0 0] : List Action)

/-- The two stored configurations have the same number and different groups, and the
controller whose configuration is not the one saved has returned true. -/
theorem two_configs_one_number :
    ∃ trace σ, Runs.Run step Callers (System.init ["a"]) trace ∧ σ ∈ trace ∧
      σ.configStore .currentConfig = some { value := joinedMany 13, version := 2 } ∧
      σ.configStore .nextConfig = some { value := joinedMany 14, version := 2 } ∧
      (joinedMany 13).num = (joinedMany 14).num ∧
      (joinedMany 13).isListed 13 ≠ (joinedMany 14).isListed 13 ∧
      σ.operations[0]? = some (.returned true) := by
  obtain ⟨σ, past, run, ended⟩ := Runs.Run.ends step (joins [manyGroups 13, manyGroups 14])
    (init ["a"]) uncertainPut (fun σ =>
      decide (σ.configStore .currentConfig = some { value := joinedMany 13, version := 2 } ∧
        σ.configStore .nextConfig = some { value := joinedMany 14, version := 2 }) &&
      σ.operations[0]?.any Operation.succeeded) (by decide +kernel)
  obtain ⟨stored, good⟩ := (Bool.and_eq_true_iff ..).mp ended
  obtain ⟨current, next⟩ := decide_eq_true_eq.mp stored
  obtain ⟨operation, found, succeeded⟩ := (Option.any_eq_true _ _).mp good
  refine ⟨_, σ, run.mono fun _ _ => joins_callers, List.mem_cons_self .., current, next,
    by decide +kernel, by decide +kernel, ?_⟩
  rw [found, Operation.eq_returned succeeded]

end System

end KvStore.Shard
