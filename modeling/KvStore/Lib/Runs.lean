import Mathlib.Logic.Relation
import Mathlib.Tactic.Common

set_option autoImplicit false

/-! Finite runs of a guarded transition function, newest state first. -/

namespace Runs

variable {σ α γ : Type*}

/-- The states of one run, newest first. Every transition taken is one that
`allowed` admits in the state it starts from. -/
inductive Run (step : σ → α → Option σ) (allowed : σ → α → Prop) (init : σ) : List σ → Prop
  | start : Run step allowed init [init]
  | step {before after : σ} {past : List σ} {action : α}
      (run : Run step allowed init (before :: past))
      (admitted : allowed before action)
      (moved : step before action = some after) :
      Run step allowed init (after :: before :: past)

variable {step : σ → α → Option σ} {allowed weaker : σ → α → Prop} {init : σ} {trace : List σ}

/-- Admitting more transitions keeps every run. -/
theorem Run.mono (run : Run step allowed init trace)
    (weaken : ∀ state action, allowed state action → weaker state action) :
    Run step weaker init trace := by
  induction run with
  | start => exact .start
  | step _ admitted moved ih => exact .step ih (weaken _ _ admitted) moved

/-- A state property that holds initially and is kept by every admitted
transition holds in every state of every run. -/
theorem Run.invariant {holds : σ → Prop} (run : Run step allowed init trace) (initial : holds init)
    (kept : ∀ before action after, allowed before action → step before action = some after →
      holds before → holds after) : ∀ state ∈ trace, holds state := by
  induction run with
  | start =>
    intro state member
    rw [List.mem_singleton] at member
    exact member ▸ initial
  | @step before after past action _ admitted moved ih =>
    intro state member
    rcases List.mem_cons.mp member with rfl | member
    · exact kept before action state admitted moved (ih before (List.mem_cons_self ..))
    · exact ih state member

/-- A run all of whose states are good takes only transitions to good states. -/
theorem Run.within {good : σ → Prop} (run : Run step allowed init trace)
    (all : ∀ state ∈ trace, good state) :
    Run step (fun state action => ∀ after, step state action = some after → good after) init
      trace := by
  induction run with
  | start => exact .start
  | step _ _ moved ih =>
    refine .step (ih fun state member => all state (List.mem_cons_of_mem _ member)) ?_ moved
    intro after same
    rw [moved] at same
    exact Option.some.inj same ▸ all _ (List.mem_cons_self ..)

/-- A run all of whose states are good takes its transitions in good states. -/
theorem Run.throughout {good : σ → Prop} (run : Run step allowed init trace)
    (all : ∀ state ∈ trace, good state) :
    Run step (fun state action => allowed state action ∧ good state) init trace := by
  induction run with
  | start => exact .start
  | step _ admitted moved ih =>
    have before := List.forall_mem_cons.mp (List.forall_mem_cons.mp all).2
    exact .step (ih (List.forall_mem_cons.mpr before)) ⟨admitted, before.1⟩ moved

/-- A run up to any of its states is a run. -/
theorem Run.suffix {trace past : List σ} {state : σ} (run : Run step allowed init trace)
    (earlier : state :: past <:+ trace) : Run step allowed init (state :: past) := by
  induction run with
  | start =>
    rcases List.suffix_cons_iff.mp earlier with same | older
    · rw [same]
      exact .start
    · cases List.suffix_nil.mp older
  | step run admitted moved ih =>
    rcases List.suffix_cons_iff.mp earlier with same | older
    · rw [same]
      exact run.step admitted moved
    · exact ih older

/-- Whatever every transition respects relates every earlier state to the newest. -/
theorem Run.latest {trace past : List σ} {newest : σ} {before : σ → σ → Prop}
    (run : Run step allowed init trace) (refl : ∀ state, before state state)
    (trans : ∀ first second third, before first second → before second third →
      before first third)
    (respects : ∀ state action after, allowed state action → step state action = some after →
      before state after)
    (head : trace = newest :: past) : ∀ state ∈ trace, before state newest := by
  induction run generalizing newest past with
  | start =>
    obtain ⟨rfl, rfl⟩ := List.cons.inj head
    intro state member
    rw [List.mem_singleton.mp member]
    exact refl _
  | @step last after rest action _ admitted moved ih =>
    obtain ⟨rfl, rfl⟩ := List.cons.inj head
    intro state member
    rcases List.mem_cons.mp member with rfl | member
    · exact refl _
    · exact trans _ _ _ (ih rfl state member) (respects _ _ _ admitted moved)

/-- Any two states of a run are related one way or the other. -/
theorem Run.ordered {before : σ → σ → Prop} (run : Run step allowed init trace)
    (refl : ∀ state, before state state)
    (trans : ∀ first second third, before first second → before second third → before first third)
    (respects : ∀ state action after, allowed state action → step state action = some after →
      before state after) :
    ∀ state ∈ trace, ∀ other ∈ trace, before state other ∨ before other state := by
  induction run with
  | start =>
    intro state member other member'
    rw [List.mem_singleton.mp member, List.mem_singleton.mp member']
    exact Or.inl (refl _)
  | step run admitted moved ih =>
    have latest := (run.step admitted moved).latest refl trans respects rfl
    intro state member other member'
    rcases List.mem_cons.mp member with rfl | old
    · exact Or.inr (latest other member')
    rcases List.mem_cons.mp member' with rfl | old'
    · exact Or.inl (latest state member)
    · exact ih state old other old'

/-- The ghost rule. A ghost state follows the run transition by transition and
keeps what it has seen of every earlier state; at the end one ghost state speaks
about the newest state and has seen all of them. -/
theorem Run.ghost {related : σ → γ → Prop} {seen : γ → σ → Prop} (grows : γ → γ → Prop)
    (run : Run step allowed init trace) (initial : ∃ ghost, related init ghost ∧ seen ghost init)
    (simulate : ∀ before action after ghost, allowed before action →
      step before action = some after → related before ghost →
      ∃ ghost', related after ghost' ∧ grows ghost ghost' ∧ seen ghost' after)
    (stable : ∀ ghost ghost' state, grows ghost ghost' → seen ghost state → seen ghost' state) :
    ∃ newest past ghost, trace = newest :: past ∧ related newest ghost ∧
      ∀ state ∈ trace, seen ghost state := by
  induction run with
  | start =>
    obtain ⟨ghost, holds, known⟩ := initial
    refine ⟨init, [], ghost, rfl, holds, ?_⟩
    intro state member
    rw [List.mem_singleton] at member
    exact member ▸ known
  | @step before after past action _ admitted moved ih =>
    obtain ⟨newest, rest, ghost, same, holds, known⟩ := ih
    obtain ⟨rfl, rfl⟩ := List.cons.inj same
    obtain ⟨ghost', holds', grown, knows⟩ :=
      simulate before action after ghost admitted moved holds
    refine ⟨after, before :: past, ghost', rfl, holds', ?_⟩
    intro state member
    rcases List.mem_cons.mp member with rfl | member
    · exact knows
    · exact stable ghost ghost' state grown (known state member)

/-- A run goes on by any number of further transitions. -/
theorem Run.further {state final : σ} {past : List σ} (run : Run step allowed init (state :: past))
    (reaches : Relation.ReflTransGen
      (fun before after => ∃ action, allowed before action ∧ step before action = some after)
      state final) :
    ∃ later, Run step allowed init (final :: later) ∧
      ∀ old ∈ state :: past, old ∈ final :: later := by
  induction reaches with
  | refl => exact ⟨past, run, fun _ member => member⟩
  | tail _ moves ih =>
    obtain ⟨later, longer, kept⟩ := ih
    obtain ⟨action, admitted, moved⟩ := moves
    exact ⟨_, longer.step admitted moved,
      fun old member => List.mem_cons_of_mem _ (kept old member)⟩

/-- What can be brought about for each item, and is not undone for the sake of another,
can be brought about for all of them. -/
theorem sweep {ι : Type*} {moves : σ → σ → Prop} {holds : σ → Prop} {done : ι → σ → Prop}
    {items : List ι}
    (visit : ∀ item ∈ items, ∀ state, holds state → ∃ after,
      Relation.ReflTransGen moves state after ∧ holds after ∧ done item after ∧
        ∀ other, done other state → done other after)
    {state : σ} (initial : holds state) :
    ∃ final, Relation.ReflTransGen moves state final ∧ holds final ∧
      (∀ other, done other state → done other final) ∧ ∀ item ∈ items, done item final := by
  induction items generalizing state with
  | nil => exact ⟨state, .refl, initial, fun _ => id,
      fun _ absent => absurd absent List.not_mem_nil⟩
  | cons item items ih =>
    obtain ⟨middle, first, held, here, kept⟩ := visit item (List.mem_cons_self ..) state initial
    obtain ⟨final, second, held', kept', rest⟩ :=
      ih (fun other member => visit other (List.mem_cons_of_mem _ member)) held
    refine ⟨final, first.trans second, held', fun other old => kept' other (kept other old), ?_⟩
    exact List.forall_mem_cons.mpr ⟨kept' item here, rest⟩

/-- The transitions that pass a test. -/
def guarded (step : σ → α → Option σ) (guard : σ → α → Bool) (state : σ) (action : α) : Option σ :=
  if guard state action then step state action else none

/-- Executing a list of actions one after the other. -/
def execute (step : σ → α → Option σ) : σ → List α → Option σ
  | state, [] => some state
  | state, action :: actions =>
    match step state action with
    | some next => execute step next actions
    | none => none

@[simp] theorem execute_append (step : σ → α → Option σ) (state : σ) (first second : List α) :
    execute step state (first ++ second) =
      (execute step state first).bind (execute step · second) := by
  induction first generalizing state with
  | nil => rfl
  | cons action rest ih =>
    cases moved : step state action with
    | none => simp only [List.cons_append, execute, moved, Option.bind_none]
    | some next => simp only [List.cons_append, execute, moved, ih next]

theorem Run.extend {guard : σ → α → Bool} {actions : List α} {state final : σ} {past : List σ}
    (run : Run step (fun state action => guard state action = true) init (state :: past))
    (done : execute (guarded step guard) state actions = some final) :
    ∃ later, Run step (fun state action => guard state action = true) init (final :: later) ∧
      ∀ old ∈ state :: past, old ∈ final :: later := by
  induction actions generalizing state past with
  | nil =>
    obtain rfl : state = final := by simpa [execute] using done
    exact ⟨past, run, fun _ member => member⟩
  | cons action actions ih =>
    unfold execute at done
    split at done
    · rename_i next moved
      unfold guarded at moved
      split at moved
      · obtain ⟨later, longer, kept⟩ := ih (run.step ‹_› moved) done
        exact ⟨later, longer, fun old member => kept old (List.mem_cons_of_mem _ member)⟩
      · cases moved
    · cases done

/-- Executing a list of actions gives a run that ends in the result. -/
theorem Run.reached (step : σ → α → Option σ) (guard : σ → α → Bool) (init : σ) (actions : List α)
    (done : (execute (guarded step guard) init actions).isSome) :
    ∃ past, Run step (fun state action => guard state action = true) init
      ((execute (guarded step guard) init actions).get done :: past) := by
  obtain ⟨past, run, _⟩ := Run.extend .start (Option.some_get done).symm
  exact ⟨past, run⟩

/-- A list of actions whose result passes a check gives a run that ends in a state that
passes it; the actions are executed once. -/
theorem Run.ends (step : σ → α → Option σ) (guard : σ → α → Bool) (init : σ) (actions : List α)
    (check : σ → Bool)
    (passed : (execute (guarded step guard) init actions).any check = true) :
    ∃ newest past, Run step (fun state action => guard state action = true) init
      (newest :: past) ∧ check newest = true := by
  obtain ⟨newest, found, good⟩ := (Option.any_eq_true _ _).mp passed
  obtain ⟨past, run, _⟩ := Run.extend .start found
  exact ⟨newest, past, run, good⟩

/-- The run of a list of actions passes the result of every first part of it. -/
theorem Run.passes (step : σ → α → Option σ) (guard : σ → α → Bool) (init : σ)
    (first second : List α)
    (begun : (execute (guarded step guard) init first).isSome)
    (done : (execute (guarded step guard) init (first ++ second)).isSome) :
    ∃ past, Run step (fun state action => guard state action = true) init
      ((execute (guarded step guard) init (first ++ second)).get done :: past) ∧
      (execute (guarded step guard) init first).get begun ∈
        (execute (guarded step guard) init (first ++ second)).get done :: past := by
  obtain ⟨past, run⟩ := Run.reached step guard init first begun
  have rest : execute (guarded step guard) ((execute (guarded step guard) init first).get begun)
      second = some ((execute (guarded step guard) init (first ++ second)).get done) := by
    obtain ⟨middle, reached⟩ := Option.isSome_iff_exists.mp begun
    simp only [Option.some_get, execute_append, reached, Option.get_some, Option.bind_some]
  obtain ⟨later, longer, kept⟩ := run.extend rest
  exact ⟨later, longer, kept _ (List.mem_cons_self ..)⟩

/-- Executing two lists of actions after each other gives a run through both results. -/
theorem Run.through (step : σ → α → Option σ) (guard : σ → α → Bool) (init : σ)
    (first second : List α)
    (begun : (execute (guarded step guard) init first).isSome)
    (done : (execute (guarded step guard)
      ((execute (guarded step guard) init first).get begun) second).isSome) :
    ∃ trace, Run step (fun state action => guard state action = true) init trace ∧
      (execute (guarded step guard) init first).get begun ∈ trace ∧
      (execute (guarded step guard)
        ((execute (guarded step guard) init first).get begun) second).get done ∈ trace := by
  obtain ⟨past, run⟩ := Run.reached step guard init first begun
  obtain ⟨later, longer, kept⟩ := run.extend (Option.some_get done).symm
  exact ⟨_, longer, kept _ (List.mem_cons_self ..), List.mem_cons_self ..⟩

/-- Executing a list of actions from the end of a run, with every state on record. -/
def record (step : σ → α → Option σ) : List σ → List α → Option (List σ)
  | trace, [] => some trace
  | [], _ :: _ => none
  | state :: past, action :: actions =>
    match step state action with
    | some next => record step (next :: state :: past) actions
    | none => none

theorem Run.recorded {guard : σ → α → Bool} {actions : List α} {trace longer : List σ}
    (run : Run step (fun state action => guard state action = true) init trace)
    (done : record (guarded step guard) trace actions = some longer) :
    Run step (fun state action => guard state action = true) init longer := by
  induction actions generalizing trace with
  | nil =>
    obtain rfl : trace = longer := by simpa [record] using done
    exact run
  | cons action actions ih =>
    cases trace with
    | nil => cases run
    | cons state past =>
      unfold record at done
      split at done
      · rename_i next moved
        unfold guarded at moved
        split at moved
        · exact ih (run.step ‹_› moved) done
        · cases moved
      · cases done

end Runs
