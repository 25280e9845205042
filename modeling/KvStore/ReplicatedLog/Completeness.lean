import KvStore.ReplicatedLog.Elections

set_option autoImplicit false

/-! Acknowledged entries survive: what a majority acknowledged in a term is in
the log of every later leader from the moment it stands for election. -/

namespace ReplicatedLog

open Quorum

variable {S E : Type*} {term : E → Nat} {root : E} {old new : Core S E} {t m : Nat}

/-- The candidacy of `c` in term `u` accounts for the entries acknowledged
through `m` in term `t`: it has them, or some leader in between already had not. -/
def Accounts (core : Core S E) (c : S) (u t m : Nat) : Prop :=
  ∃ log, core.stood c u = some log ∧
    ((core.led t).take (m + 1) <+: log ∨ ∃ v, t < v ∧ v < u ∧ Lacks core t m v)

/-- How leaders' logs change in one move: a term gets its leader, or its leader
appends an entry of that term. -/
def LedGrows (term : E → Nat) (old new : Core S E) : Prop :=
  ∀ t, new.led t = old.led t ∨ old.led t = [] ∨
    ∃ entry, new.led t = old.led t ++ [entry] ∧ term entry = t

theorem LedGrows.led (grows : LedGrows term old new) (t : Nat) : old.led t <+: new.led t := by
  rcases grows t with same | empty | ⟨entry, added, _⟩
  · rw [same]
  · rw [empty]
    exact List.nil_prefix
  · rw [added]
    exact List.prefix_append _ _

theorem LedGrows.take (grows : LedGrows term old new) (inside : m < (old.led t).length) :
    (new.led t).take (m + 1) = (old.led t).take (m + 1) :=
  prefix_take_of_getElem (grows.led t) inside

theorem LedGrows.termAt (grows : LedGrows term old new) (inside : m < (old.led t).length)
    (found : TermAt term (new.led t) m t) : TermAt term (old.led t) m t :=
  found.shorten (grows.led t) inside

/-- A leader that lacks entries of an earlier term can never obtain them, since
it only appends entries of its own. -/
theorem LedGrows.lacks (grows : LedGrows term old new) {t m u : Nat}
    (own : TermAt term (old.led t) m t) (later : t < u) (lacks : Lacks old t m u) :
    Lacks new t m u := by
  obtain ⟨led, missing⟩ := lacks
  have same := grows.take own.inside
  refine ⟨fun empty => led (List.prefix_nil.mp (empty ▸ grows.led u)), ?_⟩
  rw [same]
  intro found
  rcases grows u with unchanged | empty | ⟨entry, added, fresh⟩
  · exact missing (unchanged ▸ found)
  · exact led empty
  · obtain ⟨last, ends, lastTerm⟩ := own.last
    rw [added] at found
    have differ : term last ≠ term entry := by omega
    exact missing (prefix_of_append_last found ends differ)

theorem LedGrows.accounts (grows : LedGrows term old new)
    (stands : ∀ s t log, old.stood s t = some log → new.stood s t = some log) {c : S} {t m u : Nat}
    (own : TermAt term (old.led t) m t) (accounts : Accounts old c u t m) :
    Accounts new c u t m := by
  obtain ⟨log, standing, has | ⟨v, after, before, lacks⟩⟩ := accounts
  · exact ⟨log, stands c u log standing, Or.inl (by rwa [grows.take own.inside])⟩
  · exact ⟨log, stands c u log standing, Or.inr ⟨v, after, before, grows.lacks own after lacks⟩⟩

variable [Fintype S]

structure Durable (term : E → Nat) (core : Core S E) : Prop where
  inside : ∀ s t m, core.acked s t m → m < (core.led t).length
  bound : ∀ s t m, core.acked s t m → t ≤ core.current s
  present : ∀ s t m, core.acked s t m → core.current s = t →
    (core.led t).take (m + 1) <+: core.log s
  kept : ∀ s t m, core.acked s t m → TermAt term (core.led t) m t →
    (core.led t).take (m + 1) <+: core.log s ∨
      ∃ u, t < u ∧ u ≤ core.current s ∧ Lacks core t m u
  voteSafe : ∀ s u c, core.vote s u = some c → core.led u = [] →
    ∀ t m, t < u → core.acked s t m → TermAt term (core.led t) m t → Accounts core c u t m
  leaderSafe : ∀ u c, core.leader u = some c → ∃ voters, Majority voters ∧
    ∀ voter ∈ voters, core.vote voter u = some c ∧
      ∀ t m, t < u → core.acked voter t m → TermAt term (core.led t) m t → Accounts core c u t m

namespace Durable

variable {core : Core S E} {server : S}

theorem init : Durable term (Core.init root : Core S E) := by
  refine ⟨?_, ?_, ?_, ?_, ?_, ?_⟩ <;> simp [Core.init]

/-- Moves that only change the servers' terms, keeping every acknowledgement in the past. -/
theorem later_current (durable : Durable term core) (next : Core S E)
    (led : next.led = core.led) (log : next.log = core.log) (acked : next.acked = core.acked)
    (later : ∀ s, core.current s ≤ next.current s) :
    (∀ s t m, next.acked s t m → m < (next.led t).length) ∧
    (∀ s t m, next.acked s t m → t ≤ next.current s) ∧
    (∀ s t m, next.acked s t m → next.current s = t → (next.led t).take (m + 1) <+: next.log s) ∧
    (∀ s t m, next.acked s t m → TermAt term (next.led t) m t →
      (next.led t).take (m + 1) <+: next.log s ∨
        ∃ u, t < u ∧ u ≤ next.current s ∧ Lacks next t m u) := by
  rw [led, log, acked]
  have lacks : ∀ {t m u}, Lacks core t m u → Lacks next t m u := by
    intro t m u missing
    simpa only [Lacks, led] using missing
  refine ⟨durable.inside, fun s t m known => (durable.bound s t m known).trans (later s), ?_, ?_⟩
  · intro s t m known now
    have past := durable.bound s t m known
    have := later s
    exact durable.present s t m known (by omega)
  · intro s t m known own
    rcases durable.kept s t m known own with has | ⟨u, after, before, missing⟩
    · exact Or.inl has
    · exact Or.inr ⟨u, after, before.trans (later s), lacks missing⟩

theorem observe (sound : Sound term root core) (durable : Durable term core) :
    Durable term core.observe := by
  refine ⟨?_, ?_, ?_, ?_, ?_, ?_⟩
  · intro s t m known
    rcases known with old | ⟨_, bound, _⟩
    · exact durable.inside s t m old
    · exact bound
  · intro s t m known
    rcases known with old | ⟨now, _⟩
    · exact durable.bound s t m old
    · exact Nat.le_of_eq now
  · intro s t m known now
    rcases known with old | ⟨_, _, has⟩
    · exact durable.present s t m old now
    · exact has
  · intro s t m known own
    rcases known with old | ⟨_, _, has⟩
    · exact durable.kept s t m old own
    · exact Or.inl has
  · intro s u c cast unled t m earlier known own
    rcases known with old | ⟨now, _⟩
    · exact durable.voteSafe s u c cast unled t m earlier old own
    · have := sound.voteBound s u c cast
      omega
  · intro u c leads
    obtain ⟨voters, majority, safe⟩ := durable.leaderSafe u c leads
    refine ⟨voters, majority, fun voter member => ⟨(safe voter member).1, ?_⟩⟩
    intro t m earlier known own
    rcases known with old | ⟨now, _⟩
    · exact (safe voter member).2 t m earlier old own
    · have := sound.voteBound voter u c (safe voter member).1
      omega

/-- A candidate at least as up to date as a log holding acknowledged entries
holds them too, unless its own last entry comes from a leader that lacked them. -/
theorem candidate_accounts (sound : Sound term root core) {s c : S} {log : List E}
    {u t m : Nat} (standing : core.stood c u = some log)
    (recent : UpToDate term log (core.log s)) (own : TermAt term (core.led t) m t)
    (has : (core.led t).take (m + 1) <+: core.log s) : Accounts core c u t m := by
  obtain ⟨last, voterLast, lastAt, voterAt, order⟩ := recent
  have coherent := sound.stoodCoherent c u log standing
  have whole : log <+: core.led last := coherent.prefix_led lastAt
  have ownTake : TermAt term ((core.led t).take (m + 1)) m t := by
    refine own.shorten (List.take_prefix _ _) ?_
    have := own.inside
    rw [List.length_take]
    omega
  have held : TermAt term (core.log s) m t := ownTake.mono has
  have short : m ≤ (core.log s).length - 1 := by
    have := held.inside
    omega
  have above : t ≤ voterLast := (sound.sortedLog s).le held voterAt short
  have takeLength : ((core.led t).take (m + 1)).length = m + 1 := by
    have := own.inside
    rw [List.length_take]
    omega
  refine ⟨log, standing, ?_⟩
  rcases Nat.lt_or_ge t last with higher | lower
  · by_cases inside : (core.led t).take (m + 1) <+: core.led last
    · left
      refine List.prefix_of_prefix_length_le inside whole ?_
      by_contra shorter
      rw [takeLength] at shorter
      have := (sound.sortedLed last).le (lastAt.mono whole) (ownTake.mono inside) (by omega)
      omega
    · right
      obtain ⟨entry, found, entryTerm⟩ := lastAt
      have below := sound.stoodBound c u log standing entry (List.mem_of_getElem? found)
      exact ⟨last, higher, by omega, coherent.led_of_entry ⟨entry, found, entryTerm⟩, inside⟩
  · left
    obtain ⟨rfl, longer⟩ : last = t ∧ (core.log s).length ≤ log.length := by omega
    refine List.prefix_of_prefix_length_le (List.take_prefix _ _) whole ?_
    have := held.inside
    omega

/-- Moves that change leaders' logs and otherwise only lengthen servers' logs. -/
theorem of_grows (durable : Durable term core) {next : Core S E} (grows : LedGrows term core next)
    (log : ∀ s, core.log s <+: next.log s) (current : next.current = core.current)
    (vote : next.vote = core.vote) (stood : next.stood = core.stood)
    (acked : next.acked = core.acked)
    (leaderSafe : ∀ u c, next.leader u = some c → core.leader u = none →
      ∃ voters, Majority voters ∧ ∀ voter ∈ voters, core.vote voter u = some c ∧
        ∀ t m, t < u → core.acked voter t m → TermAt term (core.led t) m t →
          Accounts core c u t m)
    (leader : ∀ u c, next.leader u = some c → core.leader u = some c ∨ core.leader u = none) :
    Durable term next := by
  have stands : ∀ s t log, core.stood s t = some log → next.stood s t = some log := by
    rw [stood]
    exact fun _ _ _ standing => standing
  refine ⟨?_, ?_, ?_, ?_, ?_, ?_⟩
  · intro s t m known
    rw [acked] at known
    exact (durable.inside s t m known).trans_le (grows.led t).length_le
  · rw [acked, current]
    exact durable.bound
  · intro s t m known now
    rw [acked] at known
    rw [current] at now
    rw [grows.take (durable.inside s t m known)]
    exact (durable.present s t m known now).trans (log s)
  · intro s t m known own
    rw [acked] at known
    have inside := durable.inside s t m known
    have oldOwn := grows.termAt inside own
    rw [grows.take inside, current]
    rcases durable.kept s t m known oldOwn with has | ⟨u, after, before, missing⟩
    · exact Or.inl (has.trans (log s))
    · exact Or.inr ⟨u, after, before, grows.lacks oldOwn after missing⟩
  · intro s u c cast unled t m earlier known own
    rw [vote] at cast
    rw [acked] at known
    have oldOwn := grows.termAt (durable.inside s t m known) own
    have oldUnled : core.led u = [] := List.prefix_nil.mp (unled ▸ grows.led u)
    exact grows.accounts stands oldOwn
      (durable.voteSafe s u c cast oldUnled t m earlier known oldOwn)
  · intro u c leads
    have safe : ∃ voters, Majority voters ∧ ∀ voter ∈ voters, core.vote voter u = some c ∧
        ∀ t m, t < u → core.acked voter t m → TermAt term (core.led t) m t →
          Accounts core c u t m := by
      rcases leader u c leads with old | vacant
      · exact durable.leaderSafe u c old
      · exact leaderSafe u c leads vacant
    obtain ⟨voters, majority, each⟩ := safe
    refine ⟨voters, majority, fun voter member => ⟨by rw [vote]; exact (each voter member).1, ?_⟩⟩
    intro t m earlier known own
    rw [acked] at known
    have oldOwn := grows.termAt (durable.inside voter t m known) own
    exact grows.accounts stands oldOwn ((each voter member).2 t m earlier known oldOwn)

theorem elect (sound : Sound term root core) (durable : Durable term core) {voters : Finset S}
    (vacant : core.leader (core.current server) = none) (majority : Majority voters)
    (voted : ∀ voter ∈ voters, core.vote voter (core.current server) = some server)
    (standing : core.stood server (core.current server) = some (core.log server)) :
    Durable term (core.elect server) := by
  have unled := sound.unled _ vacant (sound.stood_positive standing)
  have grows : LedGrows term core (core.elect server) := by
    intro t
    by_cases here : t = core.current server
    · exact Or.inr (Or.inl (here ▸ unled))
    · exact Or.inl (by simp [Core.elect, here])
  refine durable.of_grows grows (fun _ => List.prefix_rfl) rfl rfl rfl rfl ?_ ?_
  · intro u c leads none
    have here : u = core.current server := by
      by_contra apart
      have old : core.leader u = some c := by simpa [Core.elect, apart] using leads
      rw [none] at old
      cases old
    subst here
    obtain rfl : server = c := by simpa [Core.elect] using leads
    refine ⟨voters, majority, fun voter member => ⟨voted voter member, ?_⟩⟩
    exact durable.voteSafe voter _ server (voted voter member) unled
  · intro u c leads
    by_cases here : u = core.current server
    · exact Or.inr (here ▸ vacant)
    · exact Or.inl (by simpa [Core.elect, here] using leads)

variable [DecidableEq S]

theorem advance (durable : Durable term core) {t : Nat} (higher : core.current server < t) :
    Durable term (core.advance server t) := by
  obtain ⟨inside, bound, present, kept⟩ := durable.later_current (core.advance server t)
    rfl rfl rfl (Core.advance_extends higher).current
  exact ⟨inside, bound, present, kept, durable.voteSafe, durable.leaderSafe⟩

theorem stand (sound : Sound term root core) (durable : Durable term core) (server : S) :
    Durable term (core.stand server) := by
  have ext := sound.stand_extends server
  obtain ⟨inside, bound, present, kept⟩ := durable.later_current (core.stand server)
    rfl rfl rfl ext.current
  have same : LedGrows term core (core.stand server) := fun _ => Or.inl rfl
  refine ⟨inside, bound, present, kept, ?_, ?_⟩
  · intro s u c cast unled t m earlier known own
    by_cases here : s = server ∧ u = core.current server + 1
    · -- the fresh vote is for the server itself, whose own log is the candidate's log
      obtain ⟨rfl, rfl⟩ := here
      obtain rfl : s = c := by simpa [Core.stand] using cast
      refine ⟨core.log s, put_self .., ?_⟩
      rcases durable.kept s t m known own with has | ⟨v, after, before, missing⟩
      · exact Or.inl has
      · exact Or.inr ⟨v, after, Nat.lt_succ_of_le before, missing⟩
    · have old : core.vote s u = some c := by
        rw [← cast]
        exact (put_other core.vote server (by tauto)).symm
      exact same.accounts ext.stood own (durable.voteSafe s u c old unled t m earlier known own)
  · intro u c leads
    obtain ⟨voters, majority, safe⟩ := durable.leaderSafe u c leads
    refine ⟨voters, majority, fun voter member => ?_⟩
    obtain ⟨cast, accounts⟩ := safe voter member
    exact ⟨ext.vote voter u c cast, fun t m earlier known own =>
      same.accounts ext.stood own (accounts t m earlier known own)⟩

theorem grant (sound : Sound term root core) (durable : Durable term core)
    {server candidate : S} {log : List E}
    (standing : core.stood candidate (core.current server) = some log)
    (free : core.vote server (core.current server) = none ∨
      core.vote server (core.current server) = some candidate)
    (recent : UpToDate term log (core.log server)) :
    Durable term (core.grant server candidate) := by
  refine ⟨durable.inside, durable.bound, durable.present, durable.kept, ?_, ?_⟩
  · intro s u c cast unled t m earlier known own
    by_cases here : s = server ∧ u = core.current server
    · obtain ⟨rfl, rfl⟩ := here
      obtain rfl : candidate = c := by simpa [Core.grant] using cast
      rcases durable.kept s t m known own with has | ⟨v, after, before, missing⟩
      · exact candidate_accounts sound standing recent own has
      · refine ⟨log, standing, Or.inr ⟨v, after, ?_, missing⟩⟩
        rcases Nat.eq_or_lt_of_le before with rfl | strict
        · exact absurd unled missing.1
        · exact strict
    · have old : core.vote s u = some c := by
        rw [← cast]
        exact (put_other core.vote candidate (by tauto)).symm
      exact durable.voteSafe s u c old unled t m earlier known own
  · intro u c leads
    obtain ⟨voters, majority, safe⟩ := durable.leaderSafe u c leads
    refine ⟨voters, majority, fun voter member => ⟨?_, (safe voter member).2⟩⟩
    exact (Core.grant_extends free).vote voter u c (safe voter member).1

theorem append (durable : Durable term core) {entry : E} (own : term entry = core.current server) :
    Durable term (core.append server entry) := by
  have grows : LedGrows term core (core.append server entry) := by
    intro t
    by_cases here : t = core.current server
    · subst here
      exact Or.inr (Or.inr ⟨entry, by simp [Core.append], own⟩)
    · exact Or.inl (by simp [Core.append, here])
  refine durable.of_grows grows ?_ rfl rfl rfl rfl ?_ (fun _ _ leads => Or.inl leads)
  · intro s
    by_cases here : s = server
    · subst here
      simp [Core.append]
    · simp [Core.append, here]
  · intro u c leads none
    rw [show (core.append server entry).leader = core.leader from rfl, none] at leads
    cases leads

theorem accept (durable : Durable term core) {offered : List E}
    (inside : offered <+: core.led (core.current server)) (nonempty : offered ≠ []) :
    Durable term (core.accept server offered) := by
  have logHere : (core.accept server offered).log server = adopt (core.log server) offered := by
    simp [Core.accept]
  have logOther : ∀ s, s ≠ server → (core.accept server offered).log s = core.log s := by
    intro s apart
    simp [Core.accept, apart]
  refine ⟨durable.inside, durable.bound, ?_, ?_, durable.voteSafe, durable.leaderSafe⟩
  · intro s t m known now
    have has := durable.present s t m known now
    by_cases here : s = server
    · subst here
      obtain rfl : core.current s = t := now
      rw [logHere]
      exact prefix_adopt (List.take_prefix _ _) inside has
    · rw [logOther s here]
      exact has
  · intro s t m known own
    by_cases here : s = server
    · subst here
      rcases durable.kept s t m known own with has | ⟨u, after, before, missing⟩
      · by_cases survives : (core.led t).take (m + 1) <+: core.led (core.current s)
        · rw [logHere]
          exact Or.inl (prefix_adopt survives inside has)
        · -- only a later leader can lack entries of term `t`
          have led : core.led (core.current s) ≠ [] := by
            intro empty
            rw [empty, List.prefix_nil] at inside
            exact nonempty inside
          have past := durable.bound s t m known
          have strict : t < core.current s := by
            rcases Nat.eq_or_lt_of_le past with rfl | strict
            · exact absurd (List.take_prefix _ _) survives
            · exact strict
          exact Or.inr ⟨core.current s, strict, Nat.le_refl _, led, survives⟩
      · exact Or.inr ⟨u, after, before, missing⟩
    · rw [logOther s here]
      exact durable.kept s t m known own

theorem step (sound : Sound term root core) (durable : Durable term core) {next : Core S E}
    (move : Step term core next) : Durable term next := by
  cases move with
  | advance server t higher => exact durable.advance higher
  | stand server => exact durable.stand sound server
  | grant server candidate log standing free recent =>
    exact durable.grant sound standing free recent
  | elect server voters vacant majority voted standing =>
    exact durable.elect sound vacant majority voted standing
  | append server entry _ own => exact durable.append own
  | accept server offered inside nonempty => exact durable.accept inside nonempty
  | observe => exact durable.observe sound

end Durable

/-- Leader completeness. The induction is on the later term: a voter shared by
the acknowledging and the electing majority accounts for the entries, and no
leader in between lacked them. -/
theorem leader_complete {core : Core S E} (sound : Sound term root core)
    (durable : Durable term core) {quorum : Finset S} (majority : Majority quorum)
    (acks : ∀ s ∈ quorum, core.acked s t m) (own : TermAt term (core.led t) m t) (u : Nat)
    (later : t < u) {c : S} (leads : core.leader u = some c) {log : List E}
    (standing : core.stood c u = some log) : (core.led t).take (m + 1) <+: log := by
  induction u using Nat.strongRecOn generalizing c log with
  | ind u ih =>
    obtain ⟨voters, electing, safe⟩ := durable.leaderSafe u c leads
    obtain ⟨voter, acker, elector⟩ := majority.meet electing
    obtain ⟨own', same, has | ⟨v, after, before, led, missing⟩⟩ :=
      (safe voter elector).2 t m later (acks voter acker) own
    · rw [standing] at same
      rwa [Option.some.inj same]
    · obtain ⟨other, otherLeads⟩ := sound.leader_of_led (by omega) led
      obtain ⟨first, otherStood, inside⟩ := sound.leaderStood v other otherLeads
      exact absurd ((ih v before after otherLeads otherStood).trans inside) missing

/-- A later leader's log contains what a majority acknowledged. -/
theorem acked_prefix_led {core : Core S E} (sound : Sound term root core)
    (durable : Durable term core) {quorum : Finset S} (majority : Majority quorum)
    (acks : ∀ s ∈ quorum, core.acked s t m) (own : TermAt term (core.led t) m t) {u : Nat}
    (later : t ≤ u) (led : core.led u ≠ []) : (core.led t).take (m + 1) <+: core.led u := by
  rcases Nat.eq_or_lt_of_le later with rfl | strict
  · exact List.take_prefix _ _
  · obtain ⟨c, leads⟩ := sound.leader_of_led (by omega) led
    obtain ⟨log, standing, inside⟩ := sound.leaderStood u c leads
    exact (leader_complete sound durable majority acks own u strict leads standing).trans inside

end ReplicatedLog
