import KvStore.Kv.KvSrv

set_option autoImplicit false

/-! The oracle of the linearizability checks, `KvModel`, run on what the single server
answers. It is about one key; a history is split by key before it is checked. -/

namespace KvStore

/-- The texts of the errors. -/
def Err.text : Err → String
  | .ok => "OK"
  | .noKey => "ErrNoKey"
  | .version => "ErrVersion"
  | .maybe => "ErrMaybe"
  | .wrongLeader => "ErrWrongLeader"
  | .wrongGroup => "ErrWrongGroup"
  | .retryExhausted => "ErrRetryExhausted"
  | .illegalOperation => "ErrIllegalOperation"

namespace Oracle

open KvSrv

/-- `op` is 0 for a Get and 1 for a Put. -/
structure KvInput where
  op : UInt8
  key : String
  value : String
  version : Nat
  deriving DecidableEq

structure KvOutput where
  value : String
  version : Nat
  err : String
  deriving DecidableEq

structure KvState where
  value : String
  version : Nat
  deriving DecidableEq

def init : KvState := { value := "", version := 0 }

/-- Whether the operation is accepted, and the next state; it is `none` for an operation
that is neither a Get nor a Put. -/
def step (st : KvState) (inp : KvInput) (out : KvOutput) : Bool × Option KvState :=
  if inp.op = 0 then (out.value = st.value, some st)
  else if inp.op = 1 then
    if st.version = inp.version then
      (out.err = "OK" ∨ out.err = "ErrMaybe",
        some { value := inp.value, version := st.version + 1 })
    else (out.err = "ErrVersion" ∨ out.err = "ErrMaybe", some st)
  else (false, none)

/-- Operations one after the other; `none` if one is not accepted. -/
def replay : KvState → List (KvInput × KvOutput) → Option KvState
  | st, [] => some st
  | st, operation :: rest =>
    match step st operation.1 operation.2 with
    | (true, some next) => replay next rest
    | _ => none

/-- The operations on the key. -/
def partition (key : String) (history : List (KvInput × KvOutput)) : List (KvInput × KvOutput) :=
  history.filter (·.1.key = key)

/-- What the tests log of a request. -/
def input : Args → KvInput
  | .get key => { op := 0, key, value := "", version := 0 }
  | .put key value version => { op := 1, key, value, version }

/-- What the tests log of a reply. -/
def output : Reply → KvOutput
  | .get value version err => { value, version, err := err.text }
  | .put err => { value := "", version := 0, err := err.text }

/-- The log of requests executed one after the other. -/
def history (kvm : KvMap String String) : List Args → List (KvInput × KvOutput)
  | [] => []
  | args :: rest =>
    (input args, output (handle kvm args).2) :: history (handle kvm args).1 rest

/-- The server's map after the requests. -/
def serve (kvm : KvMap String String) (requests : List Args) : KvMap String String :=
  requests.foldl (fun kvm args => (handle kvm args).1) kvm

/-- The key's entry as the oracle's state. -/
def entry (kvm : KvMap String String) (key : String) : KvState :=
  (kvm key).elim init fun held => { value := held.value, version := held.version }

/-- A Put with a version other than 0 to a key that is not there. -/
def Blind (kvm : KvMap String String) : Args → Prop
  | .get _ => False
  | .put key _ version => kvm key = none ∧ version ≠ 0

instance decidableBlind (kvm : KvMap String String) : (args : Args) → Decidable (Blind kvm args)
  | .get _ => instDecidableFalse
  | .put key _ version => inferInstanceAs (Decidable (kvm key = none ∧ version ≠ 0))

/-- No Put of the requests is blind when it is executed. -/
def NeverBlind (kvm : KvMap String String) : List Args → Prop
  | [] => True
  | args :: rest => ¬ Blind kvm args ∧ NeverBlind (handle kvm args).1 rest

variable {kvm : KvMap String String}

theorem entry_absent {key : String} (absent : kvm key = none) : entry kvm key = init := by
  rw [entry, absent, Option.elim_none]

theorem entry_held {key : String} {held : VersionedValue String} (found : kvm key = some held) :
    entry kvm key = { value := held.value, version := held.version } := by
  rw [entry, found, Option.elim_some]

theorem step_get (kvm : KvMap String String) (key : String) :
    step (entry kvm key) (input (.get key)) (output (handle kvm (.get key)).2) =
      (true, some (entry kvm key)) := by
  cases found : kvm key with
  | none => simp [entry_absent found, handle, KvSrv.get, found, step, input, output, init]
  | some held => simp [entry_held found, handle, KvSrv.get, found, step, input, output]

/-- The two write in the same cases, and the oracle takes every reply to a Put but
`ErrNoKey`, which a blind Put gets. -/
theorem step_put (kvm : KvMap String String) (key value : String) (version : Nat) :
    step (entry kvm key) (input (.put key value version))
        (output (handle kvm (.put key value version)).2) =
      (!decide (Blind kvm (.put key value version)),
        some (entry (handle kvm (.put key value version)).1 key)) := by
  have written : ∀ held, entry (Function.update kvm key (some held)) key =
      { value := held.value, version := held.version } := fun held =>
    entry_held (Function.update_self ..)
  cases found : kvm key with
  | none =>
    rw [entry_absent found]
    by_cases zero : version = 0
    · subst zero
      have put : kvm.put key value 0 =
          (Function.update kvm key (some { value, version := 1 }), .ok) := by
        simp [KvMap.put, found]
      simp [handle, put, written, Blind, step, input, output, init, Err.text]
    · have put : kvm.put key value version = (kvm, .noKey) := by
        simp [KvMap.put, found, zero]
      simp [handle, put, entry_absent found, Blind, found, step, input, output, init, Err.text,
        zero, Ne.symm zero]
  | some held =>
    rw [entry_held found]
    rcases KvMap.put_held found value version with ⟨same, put⟩ | ⟨differs, put⟩
    · simp [handle, put, written, Blind, found, step, input, output, Err.text, same]
    · simp [handle, put, entry_held found, Blind, found, step, input, output, Err.text, differs]

theorem step_handle (kvm : KvMap String String) (args : Args) :
    step (entry kvm (input args).key) (input args) (output (handle kvm args).2) =
      (!decide (Blind kvm args), some (entry (handle kvm args).1 (input args).key)) := by
  cases args with
  | get key => exact step_get kvm key
  | put key value version => exact step_put kvm key value version

/-- A request leaves the entries of other keys alone. -/
theorem entry_other (kvm : KvMap String String) (args : Args) {key : String}
    (other : (input args).key ≠ key) : entry (handle kvm args).1 key = entry kvm key := by
  cases args with
  | get _ => rfl
  | put written value version =>
    have same : (kvm.put written value version).1 key = kvm key :=
      KvMap.put_other kvm value version (Ne.symm other)
    unfold entry
    rw [← same]
    rfl

/-- The oracle takes the first request unless it is a blind Put to its own key, and goes
on from the server's entry. -/
theorem replay_cons (kvm : KvMap String String) (args : Args) (rest : List Args) (key : String) :
    replay (entry kvm key) (partition key (history kvm (args :: rest))) =
      if (input args).key = key ∧ Blind kvm args then none
      else replay (entry (handle kvm args).1 key)
        (partition key (history (handle kvm args).1 rest)) := by
  rw [history, partition, List.filter_cons]
  by_cases here : (input args).key = key
  · subst here
    have taken := step_handle kvm args
    by_cases blind : Blind kvm args
    · rw [decide_eq_true blind] at taken
      simp only [decide_true, ↓reduceIte, replay, taken, blind, and_self, Bool.not_true]
    · rw [decide_eq_false blind] at taken
      simp only [decide_true, ↓reduceIte, replay, taken, blind, and_false, Bool.not_false]
      rfl
  · simp only [here, decide_false, Bool.false_eq_true, ↓reduceIte, false_and]
    rw [entry_other kvm args here]
    rfl

/-- The oracle on the server's answers from any map on, by induction on the requests: it
follows the server's entry. -/
theorem replay_history {requests : List Args} (clear : NeverBlind kvm requests) (key : String) :
    replay (entry kvm key) (partition key (history kvm requests)) =
      some (entry (serve kvm requests) key) := by
  induction requests generalizing kvm with
  | nil => rfl
  | cons args rest ih =>
    obtain ⟨seeing, later⟩ := clear
    rw [replay_cons, if_neg fun both => seeing both.2]
    exact ih later

theorem NeverBlind.of_append {first second : List Args} (clear : NeverBlind kvm (first ++ second)) :
    NeverBlind kvm first := by
  induction first generalizing kvm with
  | nil => trivial
  | cons args rest ih => exact ⟨clear.1, ih clear.2⟩

/-- A history that is accepted for every key has no blind Put. -/
theorem neverBlind_of_accepted {requests : List Args}
    (accepted : ∀ key,
      (replay (entry kvm key) (partition key (history kvm requests))).isSome = true) :
    NeverBlind kvm requests := by
  induction requests generalizing kvm with
  | nil => trivial
  | cons args rest ih =>
    have seeing : ¬ Blind kvm args := by
      intro blind
      have own := accepted (input args).key
      rw [replay_cons, if_pos ⟨rfl, blind⟩] at own
      cases own
    refine ⟨seeing, ih fun key => ?_⟩
    have later := accepted key
    rwa [replay_cons, if_neg fun both => seeing both.2] at later

/-- Requests executed one after the other from the empty store: for every key the oracle
accepts every step, and after each of them its state is the key's entry, exactly if none
of the requests is a blind Put. -/
theorem oracle_accepts (requests : List Args) :
    (∀ key first, first <+: requests →
      replay init (partition key (history KvMap.empty first)) =
        some (entry (serve KvMap.empty first) key)) ↔ NeverBlind KvMap.empty requests := by
  constructor
  · intro accepted
    refine neverBlind_of_accepted fun key => ?_
    have whole := accepted key requests (List.prefix_refl _)
    rw [entry_absent rfl, whole]
    rfl
  · rintro clear key first ⟨rest, rfl⟩
    exact replay_history clear.of_append key

/-- A key is written, read, and written again with its version and with another one. -/
theorem oracle_accepts_rewrite :
    replay init (partition "k" (history KvMap.empty
        [.put "k" "a" 0, .get "k", .put "k" "b" 1, .put "k" "c" 1])) =
      some { value := "b", version := 2 } := by
  have clear : NeverBlind KvMap.empty
      [.put "k" "a" 0, .get "k", .put "k" "b" 1, .put "k" "c" 1] := by
    simp [NeverBlind, Blind, handle, KvMap.put, KvMap.empty]
  exact ((oracle_accepts _).mpr clear "k" _ (List.prefix_refl _)).trans (by decide)

/-- The first request is a Put to a key with version 1: the server answers `ErrNoKey`,
and the oracle does not accept that. -/
theorem oracle_refuses_blind_put :
    (handle KvMap.empty (.put "k" "v" 1)).2 = .put .noKey ∧
      history KvMap.empty [.put "k" "v" 1] =
        [({ op := 1, key := "k", value := "v", version := 1 },
          { value := "", version := 0, err := "ErrNoKey" })] ∧
      (step init { op := 1, key := "k", value := "v", version := 1 }
        { value := "", version := 0, err := "ErrNoKey" }).1 = false ∧
      replay init (partition "k" (history KvMap.empty [.put "k" "v" 1])) = none := by
  decide

end Oracle

end KvStore
