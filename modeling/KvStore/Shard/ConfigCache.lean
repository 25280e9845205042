import KvStore.Lib.Runs
import KvStore.Shard.Config

set_option autoImplicit false

/-! The configuration a clerk caches. Any number of goroutines read and refresh it; at most
one of them queries the configuration store, and the others wait for it on a channel. -/

namespace KvStore.Shard

open Runs

/-- Where a goroutine is in `getConfig` and `refreshConfig`, between two critical
sections. A call of `refreshConfig` from `getConfig` has the channel to wait for. -/
inductive Phase where
  | idle
  /-- In `getConfig`, which has not looked at the cache. -/
  | reading
  /-- In `refreshConfig`, which has not taken the lock. -/
  | refreshing (wait : Option Nat)
  /-- Its `Query` has not read the store. -/
  | querying (wait : Option Nat)
  /-- Its `Query` has read the store and the result is not cached. -/
  | fetched (wait : Option Nat) (cfg : ShardConfig)
  | blocked (done : Nat)
  /-- Past the channel, about to read the cache. -/
  | rereading
  /-- `getConfig` has returned this. -/
  | returned (cfg : Option ShardConfig)
  deriving DecidableEq

/-- A goroutine whose `Query` is in flight. -/
def Phase.InFlight : Phase → Prop
  | .querying _ | .fetched _ _ => True
  | _ => False

instance Phase.decidableInFlight : (phase : Phase) → Decidable phase.InFlight
  | .querying _ | .fetched _ _ => instDecidableTrue
  | .idle | .reading | .refreshing _ | .blocked _ | .rereading | .returned _ => instDecidableFalse

/-- The end of `refreshConfig`: in `getConfig` it is followed by the wait. -/
def Phase.refreshed : Option Nat → Phase
  | none => .idle
  | some done => .blocked done

/-- The clerk's fields, the channels made and closed so far, the store's current
configuration and the goroutines. Channels are numbered in the order in which they are
made; `closed` has an entry for every `close`. -/
structure ConfigCache where
  cachedConfig : Option ShardConfig
  fetching : Bool
  fetchingDone : Nat
  channels : Nat
  closed : List Nat
  currentConfig : ShardConfig
  goroutines : Nat → Phase

namespace ConfigCache

/-- `MakeClerk`. -/
def make (currentConfig : ShardConfig) : ConfigCache :=
  { cachedConfig := none, fetching := false, fetchingDone := 0, channels := 1, closed := [],
    currentConfig, goroutines := fun _ => .idle }

def goto (ck : ConfigCache) (g : Nat) (phase : Phase) : ConfigCache :=
  { ck with goroutines := Function.update ck.goroutines g phase }

/-- The first critical section of `getConfig`. -/
def look (ck : ConfigCache) (g : Nat) : ConfigCache :=
  if !ck.fetching && ck.cachedConfig.isSome then ck.goto g (.returned ck.cachedConfig)
  else ck.goto g (.refreshing (some ck.fetchingDone))

/-- The first critical section of `refreshConfig`. -/
def enter (ck : ConfigCache) (g : Nat) (wait : Option Nat) : ConfigCache :=
  if ck.fetching then ck.goto g (.refreshed wait)
  else { ck.goto g (.querying wait) with fetching := true }

/-- The second critical section of `refreshConfig`. -/
def publish (ck : ConfigCache) (g : Nat) (wait : Option Nat) (cfg : ShardConfig) : ConfigCache :=
  { ck.goto g (.refreshed wait) with
    cachedConfig := some cfg
    fetching := false
    fetchingDone := ck.channels
    channels := ck.channels + 1
    closed := ck.fetchingDone :: ck.closed }

/-- A goroutine goes on to the end of its next critical section; one that is blocked goes
on if its channel is closed. -/
def advance (ck : ConfigCache) (g : Nat) : Option ConfigCache :=
  match ck.goroutines g with
  | .idle => none
  | .reading => some (ck.look g)
  | .refreshing wait => some (ck.enter g wait)
  | .querying wait => some (ck.goto g (.fetched wait ck.currentConfig))
  | .fetched wait cfg => some (ck.publish g wait cfg)
  | .blocked done => if done ∈ ck.closed then some (ck.goto g .rereading) else none
  | .rereading => some (ck.goto g (.returned ck.cachedConfig))
  | .returned _ => none

/-- A goroutine that is in neither function calls one. -/
def call (ck : ConfigCache) (g : Nat) (phase : Phase) : Option ConfigCache :=
  match ck.goroutines g with
  | .idle | .returned _ => some (ck.goto g phase)
  | _ => none

inductive Action where
  | getConfig (g : Nat)
  | refreshConfig (g : Nat)
  | advance (g : Nat)
  /-- The store has another current configuration. -/
  | store (cfg : ShardConfig)

def step (ck : ConfigCache) : Action → Option ConfigCache
  | .getConfig g => ck.call g .reading
  | .refreshConfig g => ck.call g (.refreshing none)
  | .advance g => ck.advance g
  | .store cfg => some { ck with currentConfig := cfg }

/-- The store's number does not go down. -/
def StoreGrows (ck : ConfigCache) : Action → Prop
  | .store cfg => ck.currentConfig.num ≤ cfg.num
  | _ => True

/-- What holds of a goroutine's place, given the number of the current channel and
whether a `Query` is in flight. The channels before the current one are closed. -/
def Placed (fetchingDone : Nat) (fetching : Bool) : Phase → Prop
  | .refreshing wait | .querying wait | .fetched wait _ =>
      ∀ done, wait = some done → done ≤ fetchingDone
  | .blocked done => done < fetchingDone ∨ done = fetchingDone ∧ fetching = true
  | .rereading => 0 < fetchingDone
  | .returned cfg => cfg ≠ none
  | .idle | .reading => True

/-- A place stays good when channels are made, and when a `Query` goes out. -/
theorem Placed.mono {fetchingDone later : Nat} {fetching still : Bool} {phase : Phase}
    (placed : Placed fetchingDone fetching phase) (more : fetchingDone ≤ later)
    (covered : fetching = true → still = true ∨ fetchingDone < later) :
    Placed later still phase := by
  cases phase with
  | idle => trivial
  | reading => trivial
  | refreshing wait => exact fun done same => (placed done same).trans more
  | querying wait => exact fun done same => (placed done same).trans more
  | fetched wait cfg => exact fun done same => (placed done same).trans more
  | blocked done =>
    rcases placed with old | ⟨same, flying⟩
    · exact Or.inl (old.trans_le more)
    · rcases covered flying with still | newer
      · rcases more.lt_or_eq with newer | equal
        · exact Or.inl (same ▸ newer)
        · exact Or.inr ⟨same.trans equal, still⟩
      · exact Or.inl (same ▸ newer)
  | rereading => exact Nat.lt_of_lt_of_le placed more
  | returned cfg => exact placed

/-- A goroutine that leaves `refreshConfig` waits for a channel that has been closed or
that the `Query` in flight will close. -/
theorem Placed.refreshed {fetchingDone : Nat} {fetching : Bool} {wait : Option Nat}
    (known : ∀ done, wait = some done → done ≤ fetchingDone)
    (covered : ∀ done, wait = some done → done = fetchingDone → fetching = true) :
    Placed fetchingDone fetching (.refreshed wait) := by
  cases wait with
  | none => trivial
  | some done =>
    rcases (known done rfl).lt_or_eq with old | current
    · exact Or.inl old
    · exact Or.inr ⟨current, covered done rfl current⟩

structure Sound (ck : ConfigCache) : Prop where
  single : ∀ g g', (ck.goroutines g).InFlight → (ck.goroutines g').InFlight → g = g'
  fetching : ck.fetching = true ↔ ∃ g, (ck.goroutines g).InFlight
  channels : ck.channels = ck.fetchingDone + 1
  closed : ∀ done, done ∈ ck.closed ↔ done < ck.fetchingDone
  once : ck.closed.Nodup
  cached : 0 < ck.fetchingDone → ck.cachedConfig ≠ none
  placed : ∀ g, Placed ck.fetchingDone ck.fetching (ck.goroutines g)

variable {ck after : ConfigCache} {g : Nat} {phase : Phase}

namespace Sound

theorem make (currentConfig : ShardConfig) : (make currentConfig).Sound where
  single _ _ flying := flying.elim
  fetching := ⟨fun flying => Bool.noConfusion flying, fun ⟨_, flying⟩ => flying.elim⟩
  channels := rfl
  closed _ := ⟨fun closed => absurd closed List.not_mem_nil,
    fun low => absurd low (Nat.not_lt_zero _)⟩
  once := List.nodup_nil
  cached low := absurd low (Nat.lt_irrefl 0)
  placed _ := trivial

section

variable (sound : ck.Sound)

include sound

/-- A goroutine goes on without a `Query` starting or ending. -/
theorem goto (same : phase.InFlight ↔ (ck.goroutines g).InFlight)
    (placed : Placed ck.fetchingDone ck.fetching phase) : (ck.goto g phase).Sound := by
  have flying : ∀ g', (Function.update ck.goroutines g phase g').InFlight ↔
      (ck.goroutines g').InFlight := by
    intro g'
    by_cases own : g' = g
    · rw [own, Function.update_self]
      exact same
    · rw [Function.update_of_ne own]
  exact
    { single := fun g₁ g₂ first second =>
        sound.single g₁ g₂ ((flying g₁).mp first) ((flying g₂).mp second)
      fetching := sound.fetching.trans (exists_congr fun g' => (flying g').symm)
      channels := sound.channels
      closed := sound.closed
      once := sound.once
      cached := sound.cached
      placed :=
        (Function.forall_update_iff ck.goroutines fun _ => Placed ck.fetchingDone ck.fetching).mpr
        ⟨placed, fun g' _ => sound.placed g'⟩ }

theorem look (here : ck.goroutines g = .reading) : (ck.look g).Sound := by
  unfold ConfigCache.look
  split
  · rename_i ready
    refine sound.goto (by rw [here]; exact Iff.rfl) fun missing => ?_
    rw [missing, Option.isSome_none, Bool.and_false] at ready
    cases ready
  · refine sound.goto (by rw [here]; exact Iff.rfl) fun done same => ?_
    exact (Option.some.inj same).ge

theorem enter {wait : Option Nat} (here : ck.goroutines g = .refreshing wait) :
    (ck.enter g wait).Sound := by
  have known : Placed ck.fetchingDone ck.fetching (.refreshing wait) := here ▸ sound.placed g
  unfold ConfigCache.enter
  split
  · rename_i busy
    refine sound.goto ?_ (Placed.refreshed known fun _ _ _ => busy)
    rw [here]
    cases wait <;> exact Iff.rfl
  · rename_i quiet
    have nobody : ∀ g', ¬ (ck.goroutines g').InFlight := fun g' flying =>
      quiet (sound.fetching.mpr ⟨g', flying⟩)
    have own : ∀ g', (Function.update ck.goroutines g (.querying wait) g').InFlight → g' = g := by
      intro g' flying
      by_contra other
      rw [Function.update_of_ne other] at flying
      exact nobody g' flying
    exact
      { single := fun g₁ g₂ first second => (own g₁ first).trans (own g₂ second).symm
        fetching := ⟨fun _ => ⟨g, by
          change (Function.update ck.goroutines g (.querying wait) g).InFlight
          rw [Function.update_self]
          trivial⟩, fun _ => rfl⟩
        channels := sound.channels
        closed := sound.closed
        once := sound.once
        cached := sound.cached
        placed := (Function.forall_update_iff ck.goroutines fun _ =>
          Placed ck.fetchingDone true).mpr
          ⟨known, fun g' _ => (sound.placed g').mono le_rfl fun _ => Or.inl rfl⟩ }

/-- The channel is closed, and a goroutine that waits for it can go on. -/
theorem publish {wait : Option Nat} {cfg : ShardConfig}
    (here : ck.goroutines g = .fetched wait cfg) :
    (ck.publish g wait cfg).Sound := by
  have newer : ck.fetchingDone < ck.channels := by
    rw [sound.channels]
    exact Nat.lt_succ_self _
  have known : Placed ck.fetchingDone ck.fetching (.fetched wait cfg) := here ▸ sound.placed g
  have nobody : ∀ g', ¬ (Function.update ck.goroutines g (.refreshed wait) g').InFlight := by
    intro g' flying
    by_cases own : g' = g
    · rw [own, Function.update_self] at flying
      cases wait <;> exact flying
    · rw [Function.update_of_ne own] at flying
      exact own (sound.single g' g flying (here ▸ trivial))
  exact
    { single := fun g₁ _ flying => absurd flying (nobody g₁)
      fetching := ⟨fun flying => Bool.noConfusion flying, fun ⟨g', flying⟩ =>
        absurd flying (nobody g')⟩
      channels := rfl
      closed := fun done => by
        change done ∈ ck.fetchingDone :: ck.closed ↔ done < ck.channels
        rw [List.mem_cons, sound.closed, sound.channels]
        omega
      once := List.nodup_cons.mpr
        ⟨fun closed => Nat.lt_irrefl _ ((sound.closed _).mp closed), sound.once⟩
      cached := fun _ => Option.some_ne_none cfg
      placed := (Function.forall_update_iff ck.goroutines fun _ => Placed ck.channels false).mpr
        ⟨Placed.refreshed (fun done same => (known done same).trans newer.le)
            fun done same current => absurd current ((known done same).trans_lt newer).ne,
          fun g' _ => (sound.placed g').mono newer.le fun _ => Or.inr newer⟩ }

theorem advance (moved : ck.advance g = some after) : after.Sound := by
  unfold ConfigCache.advance at moved
  cases here : ck.goroutines g with
  | idle =>
    rw [here] at moved
    cases moved
  | reading =>
    rw [here] at moved
    exact Option.some.inj moved ▸ sound.look here
  | refreshing wait =>
    rw [here] at moved
    exact Option.some.inj moved ▸ sound.enter here
  | querying wait =>
    rw [here] at moved
    have known : Placed ck.fetchingDone ck.fetching (.querying wait) := here ▸ sound.placed g
    exact Option.some.inj moved ▸ sound.goto (by rw [here]; exact Iff.rfl) known
  | fetched wait cfg =>
    rw [here] at moved
    exact Option.some.inj moved ▸ sound.publish here
  | blocked done =>
    rw [here] at moved
    obtain ⟨closed, same⟩ := Option.ite_none_right_eq_some.mp moved
    have old : done < ck.fetchingDone := (sound.closed done).mp closed
    exact Option.some.inj same ▸ sound.goto (by rw [here]; exact Iff.rfl) (Nat.zero_lt_of_lt old)
  | rereading =>
    rw [here] at moved
    have fetched : Placed ck.fetchingDone ck.fetching .rereading := here ▸ sound.placed g
    exact Option.some.inj moved ▸ sound.goto (by rw [here]; exact Iff.rfl) (sound.cached fetched)
  | returned cfg =>
    rw [here] at moved
    cases moved

theorem call (moved : ck.call g phase = some after) (still : ¬ phase.InFlight)
    (placed : Placed ck.fetchingDone ck.fetching phase) : after.Sound := by
  unfold ConfigCache.call at moved
  split at moved
  · rename_i here
    exact Option.some.inj moved ▸ sound.goto (by rw [here]; exact iff_of_false still id) placed
  · rename_i here
    exact Option.some.inj moved ▸ sound.goto (by rw [here]; exact iff_of_false still id) placed
  · cases moved

theorem step {action : Action} (moved : ck.step action = some after) : after.Sound := by
  cases action with
  | getConfig g => exact sound.call moved id trivial
  | refreshConfig g =>
    exact sound.call moved id fun _ none => absurd none.symm (Option.some_ne_none _)
  | advance g => exact sound.advance moved
  | store cfg => exact Option.some.inj moved ▸ { sound with }

end

end Sound

/-- A goroutine goes on and leaves the cache as it is. It may have set `fetching`, or have
read the store. -/
def Keeps (ck after : ConfigCache) : Prop :=
  ∃ g phase fetching, after = { ck.goto g phase with fetching } ∧
    ∀ wait cfg, phase = .fetched wait cfg → cfg = ck.currentConfig

theorem Keeps.goto (other : ∀ wait cfg, phase = .fetched wait cfg → cfg = ck.currentConfig) :
    Keeps ck (ck.goto g phase) :=
  ⟨g, phase, ck.fetching, rfl, other⟩

theorem refreshed_not_fetched (wait : Option Nat) :
    ∀ wait' cfg, Phase.refreshed wait = .fetched wait' cfg → cfg = ck.currentConfig := by
  intro wait' cfg same
  cases wait <;> cases same

theorem look_keeps (ck : ConfigCache) (g : Nat) : Keeps ck (ck.look g) := by
  unfold look
  split
  · exact Keeps.goto fun _ _ same => by cases same
  · exact Keeps.goto fun _ _ same => by cases same

theorem enter_keeps (ck : ConfigCache) (g : Nat) (wait : Option Nat) :
    Keeps ck (ck.enter g wait) := by
  unfold enter
  split
  · exact Keeps.goto (refreshed_not_fetched wait)
  · exact ⟨g, .querying wait, true, rfl, fun _ _ same => by cases same⟩

theorem call_keeps (moved : ck.call g phase = some after)
    (other : ∀ wait cfg, phase = .fetched wait cfg → cfg = ck.currentConfig) : Keeps ck after := by
  unfold call at moved
  split at moved
  · exact Option.some.inj moved ▸ Keeps.goto other
  · exact Option.some.inj moved ▸ Keeps.goto other
  · cases moved

/-- Only the goroutine whose `Query` is over replaces the cache. -/
theorem advance_cases (moved : ck.advance g = some after) :
    (∃ wait cfg, ck.goroutines g = .fetched wait cfg ∧ after = ck.publish g wait cfg) ∨
      Keeps ck after := by
  unfold advance at moved
  cases here : ck.goroutines g with
  | idle =>
    rw [here] at moved
    cases moved
  | reading =>
    rw [here] at moved
    exact Or.inr (Option.some.inj moved ▸ look_keeps ck g)
  | refreshing wait =>
    rw [here] at moved
    exact Or.inr (Option.some.inj moved ▸ enter_keeps ck g wait)
  | querying wait =>
    rw [here] at moved
    refine Or.inr (Option.some.inj moved ▸ Keeps.goto fun wait' cfg same => ?_)
    exact (Phase.fetched.inj same).2.symm
  | fetched wait cfg =>
    rw [here] at moved
    exact Or.inl ⟨wait, cfg, rfl, (Option.some.inj moved).symm⟩
  | blocked done =>
    rw [here] at moved
    obtain ⟨-, same⟩ := Option.ite_none_right_eq_some.mp moved
    exact Or.inr (Option.some.inj same ▸ Keeps.goto fun _ _ same => by cases same)
  | rereading =>
    rw [here] at moved
    exact Or.inr (Option.some.inj moved ▸ Keeps.goto fun _ _ same => by cases same)
  | returned cfg =>
    rw [here] at moved
    cases moved

theorem step_cases {action : Action} (moved : ck.step action = some after) :
    (∃ g wait cfg, ck.goroutines g = .fetched wait cfg ∧ after = ck.publish g wait cfg) ∨
      Keeps ck after ∨ ∃ cfg, action = .store cfg ∧ after = { ck with currentConfig := cfg } := by
  cases action with
  | getConfig g => exact Or.inr (Or.inl (call_keeps moved fun _ _ same => by cases same))
  | refreshConfig g => exact Or.inr (Or.inl (call_keeps moved fun _ _ same => by cases same))
  | advance g =>
    rcases advance_cases moved with published | keeps
    · exact Or.inl ⟨g, published⟩
    · exact Or.inr (Or.inl keeps)
  | store cfg => exact Or.inr (Or.inr ⟨cfg, rfl, (Option.some.inj moved).symm⟩)

/-- Neither the cache nor a result that is about to be cached is ahead of the store, and
the result is not behind the cache. -/
structure Ordered (ck : ConfigCache) : Prop where
  cached : ∀ cfg, ck.cachedConfig = some cfg → cfg.num ≤ ck.currentConfig.num
  fetched : ∀ g wait cfg, ck.goroutines g = .fetched wait cfg →
    cfg.num ≤ ck.currentConfig.num ∧ ∀ old, ck.cachedConfig = some old → old.num ≤ cfg.num

namespace Ordered

theorem make (currentConfig : ShardConfig) : (make currentConfig).Ordered := by
  refine ⟨fun cfg none => ?_, fun g wait cfg here => ?_⟩
  · cases none
  · cases here

theorem keeps (ordered : ck.Ordered) (keeps : Keeps ck after) : after.Ordered := by
  obtain ⟨g, phase, fetching, rfl, fresh⟩ := keeps
  refine ⟨ordered.cached, fun g' wait cfg here => ?_⟩
  change Function.update ck.goroutines g phase g' = .fetched wait cfg at here
  by_cases own : g' = g
  · rw [own, Function.update_self] at here
    rw [fresh wait cfg here]
    exact ⟨le_rfl, ordered.cached⟩
  · rw [Function.update_of_ne own] at here
    exact ordered.fetched g' wait cfg here

/-- No other result is about to be cached. -/
theorem publish (ordered : ck.Ordered) (sound : ck.Sound) {wait : Option Nat} {cfg : ShardConfig}
    (here : ck.goroutines g = .fetched wait cfg) : (ck.publish g wait cfg).Ordered := by
  refine ⟨fun new same => ?_, fun g' wait' cfg' there => ?_⟩
  · exact Option.some.inj same ▸ (ordered.fetched g wait cfg here).1
  · change Function.update ck.goroutines g (.refreshed wait) g' = .fetched wait' cfg' at there
    by_cases own : g' = g
    · rw [own, Function.update_self] at there
      cases wait <;> cases there
    · rw [Function.update_of_ne own] at there
      exact absurd (sound.single g' g (there ▸ trivial) (here ▸ trivial)) own

theorem step (ordered : ck.Ordered) (sound : ck.Sound) {action : Action}
    (grows : ck.StoreGrows action) (moved : ck.step action = some after) : after.Ordered := by
  rcases step_cases moved with ⟨g, wait, cfg, here, rfl⟩ | keeps | ⟨cfg, rfl, rfl⟩
  · exact ordered.publish sound here
  · exact ordered.keeps keeps
  · refine ⟨fun old same => (ordered.cached old same).trans grows, fun g wait result here => ?_⟩
    obtain ⟨low, newer⟩ := ordered.fetched g wait result here
    exact ⟨low.trans grows, newer⟩

end Ordered

/-- The later state has a configuration cached if the earlier one has, with no lower
number. -/
def CachedUpTo (earlier later : ConfigCache) : Prop :=
  ∀ cfg, earlier.cachedConfig = some cfg →
    ∃ cfg', later.cachedConfig = some cfg' ∧ cfg.num ≤ cfg'.num

theorem CachedUpTo.refl (ck : ConfigCache) : CachedUpTo ck ck :=
  fun cfg same => ⟨cfg, same, le_rfl⟩

theorem CachedUpTo.trans {first second third : ConfigCache} (one : CachedUpTo first second)
    (two : CachedUpTo second third) : CachedUpTo first third := by
  intro cfg same
  obtain ⟨cfg', same', more⟩ := one cfg same
  obtain ⟨cfg'', same'', more'⟩ := two cfg' same'
  exact ⟨cfg'', same'', more.trans more'⟩

theorem Ordered.cachedUpTo (ordered : ck.Ordered) {action : Action}
    (moved : ck.step action = some after) : CachedUpTo ck after := by
  rcases step_cases moved with ⟨g, wait, cfg, here, rfl⟩ | ⟨g, phase, fetching, rfl, -⟩ |
    ⟨cfg, -, rfl⟩
  · exact fun old same => ⟨cfg, rfl, (ordered.fetched g wait cfg here).2 old same⟩
  · exact .refl ck
  · exact .refl ck

/-- In every run, whatever the goroutines call and in whatever order their critical
sections come: at most one `Query` is in flight, no channel is closed twice, a blocked
goroutine waits for a closed channel or for the current one while a `Query` is in
flight, and `getConfig` returns a configuration. If the store's number never goes down,
the cached one never does. -/
theorem refresh_loses_no_wakeup {currentConfig : ShardConfig} {trace : List ConfigCache}
    (run : Run step (fun _ _ => True) (make currentConfig) trace) :
    (∀ ck ∈ trace,
      (∀ g g', (ck.goroutines g).InFlight → (ck.goroutines g').InFlight → g = g') ∧
      ck.closed.Nodup ∧
      (∀ g done, ck.goroutines g = .blocked done →
        done ∈ ck.closed ∨ done = ck.fetchingDone ∧ ∃ g', (ck.goroutines g').InFlight) ∧
      ∀ g cfg, ck.goroutines g = .returned cfg → cfg ≠ none) ∧
    (Run step StoreGrows (make currentConfig) trace →
      ∀ later past, later :: past <:+ trace → ∀ earlier ∈ past, CachedUpTo earlier later) := by
  have sound : ∀ ck ∈ trace, ck.Sound :=
    run.invariant (Sound.make currentConfig) fun _ _ _ _ moved before => before.step moved
  refine ⟨fun ck member => ?_, fun grows later past recent earlier member => ?_⟩
  · have here := sound ck member
    refine ⟨here.single, here.once, fun g done blocked => ?_, fun g cfg returned => ?_⟩
    · have placed := here.placed g
      rw [blocked] at placed
      rcases placed with old | ⟨current, flying⟩
      · exact Or.inl ((here.closed done).mpr old)
      · exact Or.inr ⟨current, here.fetching.mp flying⟩
    · have placed := here.placed g
      rw [returned] at placed
      exact placed
  · have ordered : ∀ ck ∈ trace, ck.Ordered := by
      have both := (grows.throughout sound).invariant (Ordered.make currentConfig)
        fun _ _ _ allowed moved before => before.step allowed.2 allowed.1 moved
      exact both
    have upTo := ((grows.throughout ordered).suffix recent).latest CachedUpTo.refl
      (fun _ _ _ => .trans) (fun _ _ _ allowed moved => allowed.2.cachedUpTo moved) rfl
    exact upTo earlier (List.mem_cons_of_mem _ member)

/-- Two goroutines find no configuration; the first one queries the store, and the second
one waits for it on the first channel. -/
theorem refresh_loses_no_wakeup_waiting :
    ∃ trace : List ConfigCache,
      Run step (fun _ _ => True) (make { num := 1, shards := fun _ => 1, groups := [] }) trace ∧
      ∃ ck ∈ trace, ck.goroutines 1 = .blocked 0 ∧ ck.closed = [] ∧
        ∃ g, (ck.goroutines g).InFlight := by
  obtain ⟨ck, past, run, ended⟩ := Run.ends step (fun _ _ => true)
    (make { num := 1, shards := fun _ => 1, groups := [] })
    [.getConfig 0, .getConfig 1, .advance 0, .advance 1, .advance 0, .advance 1]
    (fun ck => ck.goroutines 1 = .blocked 0 ∧ ck.closed = []) (by decide +kernel)
  obtain ⟨blocked, closed⟩ := of_decide_eq_true ended
  have run' := run.mono fun _ _ _ => trivial
  obtain ⟨-, -, waits, -⟩ := (refresh_loses_no_wakeup run').1 ck (List.mem_cons_self ..)
  rcases waits 1 0 blocked with early | ⟨-, flying⟩
  · rw [closed] at early
    cases early
  · exact ⟨_, run', ck, List.mem_cons_self .., blocked, closed, flying⟩

end ConfigCache

end KvStore.Shard
