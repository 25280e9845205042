import KvStore.ReplicatedLog.Core

set_option autoImplicit false

/-! Votes, leaders and the coherence of every log. -/

namespace ReplicatedLog

open Quorum

variable {S E : Type*} [Fintype S] {term : E → Nat} {root : E}

structure Sound (term : E → Nat) (root : E) (core : Core S E) : Prop where
  rooted : ∀ s, [root] <+: core.log s
  rootedLed : ∀ t, core.led t ≠ [] → [root] <+: core.led t
  coherent : ∀ s, Coherent term core.led (core.log s)
  coherentLed : ∀ t, Coherent term core.led (core.led t)
  sortedLed : ∀ t, Sorted term (core.led t)
  boundLog : ∀ s, ∀ entry ∈ core.log s, term entry ≤ core.current s
  boundLed : ∀ t, ∀ entry ∈ core.led t, term entry ≤ t
  voteBound : ∀ s t c, core.vote s t = some c → t ≤ core.current s
  voteStood : ∀ s t c, core.vote s t = some c → ∃ log, core.stood c t = some log
  stoodVote : ∀ c t log, core.stood c t = some log → core.vote c t = some c
  stoodRooted : ∀ c t log, core.stood c t = some log → [root] <+: log
  stoodCoherent : ∀ c t log, core.stood c t = some log → Coherent term core.led log
  stoodBound : ∀ c t log, core.stood c t = some log → ∀ entry ∈ log, term entry < t
  leaderVotes : ∀ t c, core.leader t = some c →
    ∃ voters, Majority voters ∧ ∀ voter ∈ voters, core.vote voter t = some c
  leaderStood : ∀ t c, core.leader t = some c →
    ∃ log, core.stood c t = some log ∧ log <+: core.led t
  unled : ∀ t, core.leader t = none → t ≠ 0 → core.led t = []
  ledZero : core.led 0 = [root]
  leaderZero : core.leader 0 = none
  leaderLog : ∀ t c, core.leader t = some c → core.current c = t → core.log c = core.led t

namespace Sound

variable {core : Core S E}

section

variable (sound : Sound term root core)

include sound

theorem log_nonempty (s : S) : 0 < (core.log s).length := by
  have long := (sound.rooted s).length_le
  rw [List.length_singleton] at long
  omega

theorem stoodCurrent {c : S} {t : Nat} {log : List E} (stands : core.stood c t = some log) :
    t ≤ core.current c :=
  sound.voteBound c t c (sound.stoodVote c t log stands)

/-- Two servers never lead the same term. -/
theorem leader_unique {t : Nat} {c : S} {voters : Finset S} {other : S} (majority : Majority voters)
    (voted : ∀ voter ∈ voters, core.vote voter t = some c) (leads : core.leader t = some other) :
    c = other := by
  obtain ⟨others, otherMajority, otherVoted⟩ := sound.leaderVotes t other leads
  obtain ⟨both, left, right⟩ := majority.meet otherMajority
  have first := voted both left
  rw [otherVoted both right] at first
  exact (Option.some.inj first).symm

theorem led_of_leader {t : Nat} {c : S} (leads : core.leader t = some c) : core.led t ≠ [] := by
  obtain ⟨log, stands, inside⟩ := sound.leaderStood t c leads
  have first := (sound.stoodRooted c t log stands).trans inside
  intro empty
  rw [empty] at first
  simp at first

theorem leader_of_led {t : Nat} (positive : t ≠ 0) (led : core.led t ≠ []) :
    ∃ c, core.leader t = some c := by
  cases found : core.leader t with
  | none => exact absurd (sound.unled t found positive) led
  | some c => exact ⟨c, rfl⟩

theorem sortedLog (s : S) : Sorted term (core.log s) :=
  (sound.coherent s).sorted sound.sortedLed

end

theorem init (zero : term root = 0) : Sound term root (Core.init root : Core S E) := by
  have ledZero : (Core.init root : Core S E).led 0 = [root] := rfl
  have ledOther : ∀ t, t ≠ 0 → (Core.init root : Core S E).led t = [] := by
    intro t positive
    simp [Core.init, positive]
  have single : Coherent term (Core.init root : Core S E).led [root] := by
    intro index entry found
    obtain ⟨bound, rfl⟩ := List.getElem?_eq_some_iff.mp found
    obtain rfl : index = 0 := by simpa using bound
    rw [List.getElem_cons_zero, zero, ledZero]
    exact List.take_prefix _ _
  have byTerm : ∀ {P : List E → Nat → Prop}, P [root] 0 → (∀ t, P [] t) →
      ∀ t, P ((Core.init root : Core S E).led t) t := by
    intro P first rest t
    by_cases atZero : t = 0
    · subst atZero
      exact first
    · rw [ledOther t atZero]
      exact rest t
  refine ⟨fun _ => List.prefix_rfl, ?_, fun _ => single, ?_, ?_, ?_, ?_, by simp [Core.init],
    by simp [Core.init], by simp [Core.init], by simp [Core.init], by simp [Core.init],
    by simp [Core.init], by simp [Core.init], by simp [Core.init], ?_, rfl, rfl,
    by simp [Core.init]⟩
  · exact byTerm (P := fun log _ => log ≠ [] → [root] <+: log)
      (fun _ => List.prefix_rfl) (fun _ nonempty => absurd rfl nonempty)
  · exact byTerm (P := fun log _ => Coherent term (Core.init root : Core S E).led log)
      single (fun _ index entry found => by simp at found)
  · exact byTerm (P := fun log _ => Sorted term log)
      (List.pairwise_singleton _ _) (fun _ => List.Pairwise.nil)
  · intro s entry member
    obtain rfl : entry = root := by simpa [Core.init] using member
    exact Nat.le_of_eq zero
  · refine byTerm (P := fun log t => ∀ entry ∈ log, term entry ≤ t) ?_ (by simp)
    intro entry member
    obtain rfl : entry = root := by simpa using member
    exact Nat.le_of_eq zero
  · intro t _ positive
    exact ledOther t positive

/-- A term somebody stands in is not the root's. -/
theorem stood_positive (sound : Sound term root core) {c : S} {t : Nat} {log : List E}
    (stands : core.stood c t = some log) : t ≠ 0 := by
  have member : root ∈ log := (sound.stoodRooted c t log stands).subset (List.mem_singleton_self _)
  have := sound.stoodBound c t log stands root member
  omega

theorem elect_extends (sound : Sound term root core) {server : S}
    (vacant : core.leader (core.current server) = none)
    (standing : core.stood server (core.current server) = some (core.log server)) :
    Extends core (core.elect server) := by
  refine { Extends.refl core with leader := ?_, led := ?_ }
  · intro t c leads
    by_cases here : t = core.current server
    · subst here
      rw [vacant] at leads
      cases leads
    · simpa [Core.elect, here] using leads
  · intro t
    by_cases here : t = core.current server
    · subst here
      rw [sound.unled _ vacant (sound.stood_positive standing)]
      exact List.nil_prefix
    · simp [Core.elect, here]

theorem elect (sound : Sound term root core) {server : S} {voters : Finset S}
    (vacant : core.leader (core.current server) = none) (majority : Majority voters)
    (voted : ∀ voter ∈ voters, core.vote voter (core.current server) = some server)
    (standing : core.stood server (core.current server) = some (core.log server)) :
    Sound term root (core.elect server) := by
  have grown := (sound.elect_extends vacant standing).led
  have ledHere : (core.elect server).led (core.current server) = core.log server := by
    simp [Core.elect]
  have ledOther : ∀ t, t ≠ core.current server → (core.elect server).led t = core.led t := by
    intro t apart
    simp [Core.elect, apart]
  have byTerm : ∀ {P : List E → Nat → Prop}, P (core.log server) (core.current server) →
      (∀ t, P (core.led t) t) → ∀ t, P ((core.elect server).led t) t := by
    intro P fresh old t
    by_cases here : t = core.current server
    · subst here
      rw [ledHere]
      exact fresh
    · rw [ledOther t here]
      exact old t
  have leaderCases : ∀ {t c}, (core.elect server).leader t = some c →
      t = core.current server ∧ c = server ∨ t ≠ core.current server ∧ core.leader t = some c := by
    intro t c leads
    by_cases here : t = core.current server
    · subst here
      exact Or.inl ⟨rfl, by simpa [Core.elect] using leads.symm⟩
    · exact Or.inr ⟨here, by simpa [Core.elect, here] using leads⟩
  refine { sound with
    rootedLed := ?_, coherent := ?_, coherentLed := ?_, sortedLed := ?_, boundLed := ?_,
    stoodCoherent := ?_, leaderVotes := ?_, leaderStood := ?_, unled := ?_, ledZero := ?_,
    leaderZero := ?_, leaderLog := ?_ }
  · exact byTerm (P := fun log _ => log ≠ [] → [root] <+: log)
      (fun _ => sound.rooted server) sound.rootedLed
  · exact fun s => (sound.coherent s).mono grown
  · exact byTerm (P := fun log _ => Coherent term (core.elect server).led log)
      ((sound.coherent server).mono grown) (fun t => (sound.coherentLed t).mono grown)
  · exact byTerm (P := fun log _ => Sorted term log) (sound.sortedLog server) sound.sortedLed
  · exact byTerm (P := fun log t => ∀ entry ∈ log, term entry ≤ t)
      (sound.boundLog server) sound.boundLed
  · exact fun c t log stands => (sound.stoodCoherent c t log stands).mono grown
  · intro t c leads
    rcases leaderCases leads with ⟨rfl, rfl⟩ | ⟨_, old⟩
    · exact ⟨voters, majority, voted⟩
    · exact sound.leaderVotes t c old
  · intro t c leads
    rcases leaderCases leads with ⟨rfl, rfl⟩ | ⟨apart, old⟩
    · exact ⟨core.log c, standing, by rw [ledHere]⟩
    · rw [ledOther t apart]
      exact sound.leaderStood t c old
  · intro t none positive
    have apart : t ≠ core.current server := by
      rintro rfl
      simp [Core.elect] at none
    rw [ledOther t apart]
    exact sound.unled t (by simpa [Core.elect, apart] using none) positive
  · rw [ledOther 0 (sound.stood_positive standing).symm]
    exact sound.ledZero
  · simpa [Core.elect, (sound.stood_positive standing).symm] using sound.leaderZero
  · intro t c leads now
    rcases leaderCases leads with ⟨rfl, rfl⟩ | ⟨apart, old⟩
    · exact ledHere.symm
    · rw [ledOther t apart]
      exact sound.leaderLog t c old now

variable [DecidableEq S]

section

variable (sound : Sound term root core)

include sound

theorem stand_extends (server : S) : Extends core (core.stand server) := by
  -- nothing was recorded for a term the server has only now reached
  have apart : ∀ {s u}, u ≤ core.current s → s ≠ server ∨ u ≠ core.current server + 1 := by
    intro s u past
    by_contra both
    obtain ⟨rfl, rfl⟩ : s = server ∧ u = core.current server + 1 := by tauto
    omega
  refine { Extends.refl core with current := ?_, vote := ?_, stood := ?_ }
  · intro s
    by_cases same : s = server
    · subst same
      simp [Core.stand]
    · simp [Core.stand, same]
  · intro s u c cast
    rw [← cast]
    exact put_other core.vote server (apart (sound.voteBound s u c cast))
  · intro s u log stands
    rw [← stands]
    exact put_other core.stood (core.log server) (apart (sound.stoodCurrent stands))

theorem step_extends {next : Core S E} (move : Step term core next) : Extends core next := by
  cases move with
  | advance server t higher => exact Core.advance_extends higher
  | stand server => exact sound.stand_extends server
  | grant server candidate log _ free _ => exact Core.grant_extends free
  | elect server voters vacant _ _ standing => exact sound.elect_extends vacant standing
  | append server entry _ _ => exact Core.append_extends core server entry
  | accept server offered _ _ => exact { Extends.refl core with }
  | observe => exact { Extends.refl core with acked := fun _ _ _ known => Or.inl known }

theorem advance {server : S} {t : Nat} (higher : core.current server < t) :
    Sound term root (core.advance server t) := by
  have later := (Core.advance_extends higher).current
  refine { sound with boundLog := ?_, voteBound := ?_, leaderLog := ?_ }
  · intro s entry member
    exact (sound.boundLog s entry member).trans (later s)
  · intro s u c cast
    exact (sound.voteBound s u c cast).trans (later s)
  · intro u c leads now
    by_cases same : c = server
    · -- a leader of `u` voted for itself there, so it cannot be entering `u` only now
      subst same
      obtain ⟨log, stands, _⟩ := sound.leaderStood u c leads
      have past := sound.stoodCurrent stands
      simp only [Core.advance, Function.update_self] at now
      omega
    · have now : core.current c = u := by simpa [Core.advance, same] using now
      exact sound.leaderLog u c leads now

theorem stand (server : S) : Sound term root (core.stand server) := by
  have ext := sound.stand_extends server
  have stoodCases : ∀ {c u log}, (core.stand server).stood c u = some log →
      core.stood c u = some log ∨
        c = server ∧ u = core.current server + 1 ∧ log = core.log server := by
    intro c u log stands
    simp only [Core.stand, put] at stands
    split at stands
    · rename_i here
      exact Or.inr ⟨here.1, here.2, (Option.some.inj stands).symm⟩
    · exact Or.inl stands
  have voteCases : ∀ {s u c}, (core.stand server).vote s u = some c →
      core.vote s u = some c ∨ s = server ∧ u = core.current server + 1 ∧ c = server := by
    intro s u c cast
    simp only [Core.stand, put] at cast
    split at cast
    · rename_i here
      exact Or.inr ⟨here.1, here.2, (Option.some.inj cast).symm⟩
    · exact Or.inl cast
  refine { sound with
    boundLog := ?_, voteBound := ?_, voteStood := ?_, stoodVote := ?_, stoodRooted := ?_,
    stoodCoherent := ?_, stoodBound := ?_, leaderVotes := ?_, leaderStood := ?_, leaderLog := ?_ }
  · intro s entry member
    exact (sound.boundLog s entry member).trans (ext.current s)
  · intro s u c cast
    rcases voteCases cast with old | ⟨rfl, rfl, rfl⟩
    · exact (sound.voteBound s u c old).trans (ext.current s)
    · simp [Core.stand]
  · intro s u c cast
    rcases voteCases cast with old | ⟨rfl, rfl, rfl⟩
    · obtain ⟨log, stands⟩ := sound.voteStood s u c old
      exact ⟨log, ext.stood c u log stands⟩
    · exact ⟨_, put_self ..⟩
  · intro c u log stands
    rcases stoodCases stands with old | ⟨rfl, rfl, rfl⟩
    · exact ext.vote c u c (sound.stoodVote c u log old)
    · exact put_self ..
  · intro c u log stands
    rcases stoodCases stands with old | ⟨rfl, rfl, rfl⟩
    · exact sound.stoodRooted c u log old
    · exact sound.rooted c
  · intro c u log stands
    rcases stoodCases stands with old | ⟨rfl, rfl, rfl⟩
    · exact sound.stoodCoherent c u log old
    · exact sound.coherent c
  · intro c u log stands entry member
    rcases stoodCases stands with old | ⟨rfl, rfl, rfl⟩
    · exact sound.stoodBound c u log old entry member
    · exact Nat.lt_succ_of_le (sound.boundLog c entry member)
  · intro u c leads
    obtain ⟨voters, majority, voted⟩ := sound.leaderVotes u c leads
    exact ⟨voters, majority, fun voter member => ext.vote voter u c (voted voter member)⟩
  · intro u c leads
    obtain ⟨log, stands, inside⟩ := sound.leaderStood u c leads
    exact ⟨log, ext.stood c u log stands, inside⟩
  · intro u c leads now
    by_cases same : c = server
    · subst same
      obtain ⟨log, stands, _⟩ := sound.leaderStood u c leads
      have past := sound.stoodCurrent stands
      simp only [Core.stand, Function.update_self] at now
      omega
    · have now : core.current c = u := by simpa [Core.stand, same] using now
      exact sound.leaderLog u c leads now

theorem grant {server candidate : S} {log : List E}
    (standing : core.stood candidate (core.current server) = some log)
    (free : core.vote server (core.current server) = none ∨
      core.vote server (core.current server) = some candidate) :
    Sound term root (core.grant server candidate) := by
  have ext := Core.grant_extends free
  have voteCases : ∀ {s u c}, (core.grant server candidate).vote s u = some c →
      core.vote s u = some c ∨ s = server ∧ u = core.current server ∧ c = candidate := by
    intro s u c cast
    simp only [Core.grant, put] at cast
    split at cast
    · rename_i here
      exact Or.inr ⟨here.1, here.2, (Option.some.inj cast).symm⟩
    · exact Or.inl cast
  refine { sound with voteBound := ?_, voteStood := ?_, stoodVote := ?_, leaderVotes := ?_ }
  · intro s u c cast
    rcases voteCases cast with old | ⟨rfl, rfl, rfl⟩
    · exact sound.voteBound s u c old
    · exact Nat.le_refl _
  · intro s u c cast
    rcases voteCases cast with old | ⟨rfl, rfl, rfl⟩
    · exact sound.voteStood s u c old
    · exact ⟨log, standing⟩
  · intro c u own stands
    exact ext.vote c u c (sound.stoodVote c u own stands)
  · intro u c leads
    obtain ⟨voters, majority, voted⟩ := sound.leaderVotes u c leads
    exact ⟨voters, majority, fun voter member => ext.vote voter u c (voted voter member)⟩

end

section Append

variable {server : S} {entry : E}

theorem append (sound : Sound term root core)
    (leads : core.leader (core.current server) = some server)
    (own : term entry = core.current server) : Sound term root (core.append server entry) := by
  have grown := (Core.append_extends core server entry).led
  have same := sound.leaderLog _ _ leads rfl
  have fresh : Coherent term (core.append server entry).led
      (core.led (core.current server) ++ [entry]) :=
    (sound.coherentLed (core.current server)).append_led own
  have bounded : ∀ other ∈ core.led (core.current server) ++ [entry],
      term other ≤ core.current server := by
    intro other member
    rcases List.mem_append.mp member with old | new
    · exact sound.boundLed _ other old
    · rw [List.mem_singleton] at new
      rw [new, own]
  have positive : core.current server ≠ 0 := by
    intro zero
    rw [zero, sound.leaderZero] at leads
    cases leads
  -- the server leads its term, so another server leads another term
  have apart : ∀ t c, (core.append server entry).leader t = some c → c ≠ server →
      t ≠ core.current server := by
    rintro t c chosen other rfl
    change core.leader _ = some c at chosen
    rw [leads] at chosen
    exact other (Option.some.inj chosen).symm
  refine { sound with
    rooted := ?_, rootedLed := ?_, coherent := ?_, coherentLed := ?_, sortedLed := ?_,
    boundLog := ?_, boundLed := ?_, stoodCoherent := ?_, leaderStood := ?_, unled := ?_,
    ledZero := ?_, leaderLog := ?_ }
  · exact Core.forall_append_log (P := fun log _ => [root] <+: log)
      ((sound.rooted server).trans (List.prefix_append _ _)) sound.rooted
  · refine Core.forall_append_led (P := fun log _ => log ≠ [] → [root] <+: log) (fun _ => ?_)
      sound.rootedLed
    rw [← same]
    exact (sound.rooted server).trans (List.prefix_append _ _)
  · exact Core.forall_append_log
      (P := fun log _ => Coherent term (core.append server entry).led log)
      (same ▸ fresh) fun s => (sound.coherent s).mono grown
  · exact Core.forall_append_led
      (P := fun log _ => Coherent term (core.append server entry).led log)
      fresh fun t => (sound.coherentLed t).mono grown
  · refine Core.forall_append_led (P := fun log _ => Sorted term log)
      ((sound.sortedLed _).concat ?_) sound.sortedLed
    intro older member
    rw [own]
    exact sound.boundLed _ older member
  · exact Core.forall_append_log (P := fun log s => ∀ other ∈ log, term other ≤ core.current s)
      (same ▸ bounded) sound.boundLog
  · exact Core.forall_append_led (P := fun log t => ∀ entry ∈ log, term entry ≤ t)
      bounded sound.boundLed
  · exact fun c t log stands => (sound.stoodCoherent c t log stands).mono grown
  · intro t c chosen
    obtain ⟨log, stands, inside⟩ := sound.leaderStood t c chosen
    exact ⟨log, stands, inside.trans (grown t)⟩
  · intro t unchosen nonzero
    have elsewhere : t ≠ core.current server := by
      rintro rfl
      change core.leader _ = none at unchosen
      rw [leads] at unchosen
      cases unchosen
    rw [core.append_led_other entry elsewhere]
    exact sound.unled t unchosen nonzero
  · rw [core.append_led_other entry positive.symm]
    exact sound.ledZero
  · intro t c chosen now
    by_cases here : c = server
    · subst here
      obtain rfl : core.current c = t := now
      rw [Core.append_log_self, Core.append_led_self, same]
    · rw [core.append_log_other entry here, core.append_led_other entry (apart t c chosen here)]
      exact sound.leaderLog t c chosen now

end Append

theorem accept (sound : Sound term root core) {server : S} {offered : List E}
    (inside : offered <+: core.led (core.current server)) (nonempty : offered ≠ []) :
    Sound term root (core.accept server offered) := by
  have ledNonempty : core.led (core.current server) ≠ [] := by
    intro empty
    rw [empty, List.prefix_nil] at inside
    exact nonempty inside
  have rootedOffer : [root] <+: offered := by
    refine List.prefix_of_prefix_length_le (sound.rootedLed _ ledNonempty) inside ?_
    exact List.length_pos_iff.mpr nonempty
  have logHere : (core.accept server offered).log server = adopt (core.log server) offered := by
    simp [Core.accept]
  have logOther : ∀ s, s ≠ server → (core.accept server offered).log s = core.log s := by
    intro s apart
    simp [Core.accept, apart]
  have byServer : ∀ {P : S → List E → Prop}, P server offered → (∀ s, P s (core.log s)) →
      ∀ s, P s ((core.accept server offered).log s) := by
    intro P fresh old s
    by_cases here : s = server
    · subst here
      rw [logHere]
      by_cases known : offered <+: core.log s
      · rw [adopt_known known]
        exact old s
      · rw [adopt_fresh known]
        exact fresh
    · rw [logOther s here]
      exact old s
  refine { sound with rooted := ?_, coherent := ?_, boundLog := ?_, leaderLog := ?_ }
  · exact byServer (P := fun _ log => [root] <+: log) rootedOffer sound.rooted
  · exact byServer (P := fun _ log => Coherent term core.led log)
      ((sound.coherentLed _).shorten inside) sound.coherent
  · exact byServer (P := fun s log => ∀ entry ∈ log, term entry ≤ core.current s)
      (fun entry member => sound.boundLed _ entry (inside.subset member)) sound.boundLog
  · intro t c leads now
    by_cases here : c = server
    · subst here
      obtain rfl : core.current c = t := now
      have whole := sound.leaderLog _ c leads rfl
      rw [logHere, adopt_known (whole ▸ inside)]
      exact whole
    · rw [logOther c here]
      exact sound.leaderLog t c leads now

theorem step (sound : Sound term root core) {next : Core S E} (move : Step term core next) :
    Sound term root next := by
  cases move with
  | advance server t higher => exact sound.advance higher
  | stand server => exact sound.stand server
  | grant server candidate log standing free _ => exact sound.grant standing free
  | elect server voters vacant majority voted standing =>
    exact sound.elect vacant majority voted standing
  | append server entry leads own => exact sound.append leads own
  | accept server offered inside nonempty => exact sound.accept inside nonempty
  | observe => exact { sound with }

end Sound

end ReplicatedLog
