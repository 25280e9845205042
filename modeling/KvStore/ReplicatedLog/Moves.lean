import KvStore.ReplicatedLog.Commit

set_option autoImplicit false

/-! Moves of one server, and what they leave alone at the others. -/

namespace ReplicatedLog

open Quorum

variable {S E : Type*} [Fintype S] {term : E → Nat} {root : E}

/-- `next` is a safe state that server `s` reached from `core` by moves of its own. -/
structure Moved (term : E → Nat) (root : E) (s : S) (core next : Core S E) : Prop where
  safe : Safe term root next
  extended : Extends core next
  current : ∀ j, j ≠ s → next.current j = core.current j
  log : ∀ j, j ≠ s → next.log j = core.log j
  vote : ∀ j, j ≠ s → next.vote j = core.vote j
  leader : ∀ j, j ≠ s → ∀ t, next.leader t = some j → core.leader t = some j

namespace Moved

variable {core middle next : Core S E} {s : S}

theorem refl (safe : Safe term root core) (s : S) : Moved term root s core core where
  safe := safe
  extended := .refl core
  current _ _ := rfl
  log _ _ := rfl
  vote _ _ := rfl
  leader _ _ _ leads := leads

theorem trans (first : Moved term root s core middle) (second : Moved term root s middle next) :
    Moved term root s core next where
  safe := second.safe
  extended := first.extended.trans second.extended
  current j apart := (second.current j apart).trans (first.current j apart)
  log j apart := (second.log j apart).trans (first.log j apart)
  vote j apart := (second.vote j apart).trans (first.vote j apart)
  leader j apart t leads := first.leader j apart t (second.leader j apart t leads)

variable [DecidableEq S]

section

variable (safe : Safe term root core)

include safe

/-- A single move that touches only the tables of `s` and elects nobody else. -/
theorem of_step (move : Step term core next)
    (current : ∀ j, j ≠ s → next.current j = core.current j)
    (log : ∀ j, j ≠ s → next.log j = core.log j) (vote : ∀ j, j ≠ s → next.vote j = core.vote j)
    (leader : ∀ j, j ≠ s → ∀ t, next.leader t = some j → core.leader t = some j) :
    Moved term root s core next :=
  ⟨safe.step move, safe.step_extends move, current, log, vote, leader⟩

theorem advance {t : Nat} (higher : core.current s < t) :
    Moved term root s core (core.advance s t) :=
  of_step safe (.advance s t higher) (fun _ apart => Function.update_of_ne apart _ _)
    (fun _ _ => rfl) (fun _ _ => rfl) (fun _ _ _ leads => leads)

theorem stand (s : S) : Moved term root s core (core.stand s) :=
  of_step safe (.stand s) (fun _ apart => Function.update_of_ne apart _ _)
    (fun _ _ => rfl) (fun _ apart => put_apart _ _ _ apart) (fun _ _ _ leads => leads)

theorem grant {candidate : S} {log : List E}
    (standing : core.stood candidate (core.current s) = some log)
    (free : core.vote s (core.current s) = none ∨ core.vote s (core.current s) = some candidate)
    (recent : UpToDate term log (core.log s)) : Moved term root s core (core.grant s candidate) :=
  of_step safe (.grant s candidate log standing free recent) (fun _ _ => rfl) (fun _ _ => rfl)
    (fun _ apart => put_apart _ _ _ apart) (fun _ _ _ leads => leads)

theorem elect {voters : Finset S} (vacant : core.leader (core.current s) = none)
    (majority : Majority voters)
    (voted : ∀ voter ∈ voters, core.vote voter (core.current s) = some s)
    (standing : core.stood s (core.current s) = some (core.log s)) :
    Moved term root s core (core.elect s) := by
  refine of_step safe (.elect s voters vacant majority voted standing) (fun _ _ => rfl)
    (fun _ _ => rfl) (fun _ _ => rfl) ?_
  intro j apart t leads
  by_cases here : t = core.current s
  · subst here
    simp only [Core.elect, Function.update_self] at leads
    exact absurd (Option.some.inj leads).symm apart
  · simpa only [Core.elect, Function.update_of_ne here] using leads

theorem append {entry : E} (leads : core.leader (core.current s) = some s)
    (own : term entry = core.current s) : Moved term root s core (core.append s entry) :=
  of_step safe (.append s entry leads own) (fun _ _ => rfl)
    (fun _ apart => Function.update_of_ne apart _ _) (fun _ _ => rfl) (fun _ _ _ leads => leads)

theorem accept {offered : List E} (inside : offered <+: core.led (core.current s))
    (nonempty : offered ≠ []) : Moved term root s core (core.accept s offered) :=
  of_step safe (.accept s offered inside nonempty) (fun _ _ => rfl)
    (fun _ apart => Function.update_of_ne apart _ _) (fun _ _ => rfl) (fun _ _ _ leads => leads)

end

end Moved

end ReplicatedLog
