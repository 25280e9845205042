import KvStore.Lib.Quorum
import KvStore.ReplicatedLog.Logs

set_option autoImplicit false

/-! Leader-based log replication without messages: servers move through terms,
vote, lead and adopt prefixes of the current leader's log. Votes, candidacies,
leaders' logs and acknowledgements are remembered for ever. -/

namespace ReplicatedLog

open Quorum

variable {S E : Type*}

structure Core (S E : Type*) where
  current : S → Nat
  log : S → List E
  /-- the vote a server has cast in a term -/
  vote : S → Nat → Option S
  /-- the log with which a server stood for election in a term -/
  stood : S → Nat → Option (List E)
  leader : Nat → Option S
  /-- the log of the term's leader, as far as it has been written -/
  led : Nat → List E
  /-- `acked s t m`: while in term `t`, server `s` agreed with the leader's log through `m` -/
  acked : S → Nat → Nat → Prop

/-- A table with one more entry. -/
def put {β : Type*} [DecidableEq S] (table : S → Nat → Option β) (server : S) (t : Nat)
    (value : β) : S → Nat → Option β :=
  fun s u => if s = server ∧ u = t then some value else table s u

@[simp] theorem put_self {β : Type*} [DecidableEq S] (table : S → Nat → Option β) (server : S)
    (t : Nat) (value : β) : put table server t value server t = some value := by
  simp only [put, and_self, ↓reduceIte]

theorem put_other {β : Type*} [DecidableEq S] (table : S → Nat → Option β) {server s : S}
    {t u : Nat} (value : β) (apart : s ≠ server ∨ u ≠ t) :
    put table server t value s u = table s u := by
  have different : ¬ (s = server ∧ u = t) := by tauto
  simp only [put, different, ↓reduceIte]

theorem put_apart {β : Type*} [DecidableEq S] (table : S → Nat → Option β) {s j : S} (t : Nat)
    (value : β) (apart : j ≠ s) : put table s t value j = table j :=
  funext fun _ => put_other table value (Or.inl apart)

/-- The candidate's log is at least as recent as the voter's. -/
def UpToDate (term : E → Nat) (candidate voter : List E) : Prop :=
  ∃ t u, TermAt term candidate (candidate.length - 1) t ∧ TermAt term voter (voter.length - 1) u ∧
    (u < t ∨ t = u ∧ voter.length ≤ candidate.length)

namespace Core

def init (root : E) : Core S E where
  current _ := 0
  log _ := [root]
  vote _ _ := none
  stood _ _ := none
  leader _ := none
  led t := if t = 0 then [root] else []
  acked _ _ _ := False

variable [DecidableEq S] (core : Core S E)

def advance (server : S) (t : Nat) : Core S E :=
  { core with current := Function.update core.current server t }

def stand (server : S) : Core S E :=
  { core with
    current := Function.update core.current server (core.current server + 1)
    vote := put core.vote server (core.current server + 1) server
    stood := put core.stood server (core.current server + 1) (core.log server) }

def grant (server candidate : S) : Core S E :=
  { core with vote := put core.vote server (core.current server) candidate }

def elect (server : S) : Core S E :=
  { core with
    leader := Function.update core.leader (core.current server) (some server)
    led := Function.update core.led (core.current server) (core.log server) }

def append (server : S) (entry : E) : Core S E :=
  { core with
    log := Function.update core.log server (core.log server ++ [entry])
    led := Function.update core.led (core.current server)
      (core.led (core.current server) ++ [entry]) }

@[simp] theorem append_led_self (server : S) (entry : E) :
    (core.append server entry).led (core.current server) =
      core.led (core.current server) ++ [entry] := by
  simp [append]

theorem append_led_other {server : S} {t : Nat} (entry : E) (apart : t ≠ core.current server) :
    (core.append server entry).led t = core.led t := by
  simp [append, apart]

@[simp] theorem append_log_self (server : S) (entry : E) :
    (core.append server entry).log server = core.log server ++ [entry] := by
  simp [append]

theorem append_log_other {server s : S} (entry : E) (apart : s ≠ server) :
    (core.append server entry).log s = core.log s := by
  simp [append, apart]

section Append

variable {core : Core S E} {server : S} {entry : E}

/-- A property of every led log needs a look at the log that grows only. -/
theorem forall_append_led {P : List E → Nat → Prop}
    (fresh : P (core.led (core.current server) ++ [entry]) (core.current server))
    (old : ∀ t, P (core.led t) t) (t : Nat) : P ((core.append server entry).led t) t := by
  by_cases here : t = core.current server
  · rw [here, append_led_self]
    exact fresh
  · rw [append_led_other core entry here]
    exact old t

/-- So does a property of every server's log. -/
theorem forall_append_log {P : List E → S → Prop} (fresh : P (core.log server ++ [entry]) server)
    (old : ∀ s, P (core.log s) s) (s : S) : P ((core.append server entry).log s) s := by
  by_cases here : s = server
  · rw [here, append_log_self]
    exact fresh
  · rw [append_log_other core entry here]
    exact old s

end Append

noncomputable def accept (server : S) (offered : List E) : Core S E :=
  { core with log := Function.update core.log server (adopt (core.log server) offered) }

omit [DecidableEq S] in
/-- Every server records how far it agrees with its term's leader right now. -/
def observe : Core S E :=
  { core with
    acked := fun s t m => core.acked s t m ∨
      (t = core.current s ∧ m < (core.led t).length ∧ (core.led t).take (m + 1) <+: core.log s) }

end Core

/-- The guarded moves of the abstract protocol. -/
inductive Step [Fintype S] [DecidableEq S] (term : E → Nat) (core : Core S E) : Core S E → Prop
  | advance (server : S) (t : Nat) (higher : core.current server < t) :
      Step term core (core.advance server t)
  | stand (server : S) : Step term core (core.stand server)
  | grant (server candidate : S) (log : List E)
      (standing : core.stood candidate (core.current server) = some log)
      (free : core.vote server (core.current server) = none ∨
        core.vote server (core.current server) = some candidate)
      (recent : UpToDate term log (core.log server)) :
      Step term core (core.grant server candidate)
  | elect (server : S) (voters : Finset S)
      (open_ : core.leader (core.current server) = none)
      (majority : Majority voters)
      (voted : ∀ voter ∈ voters, core.vote voter (core.current server) = some server)
      (standing : core.stood server (core.current server) = some (core.log server)) :
      Step term core (core.elect server)
  | append (server : S) (entry : E)
      (leads : core.leader (core.current server) = some server)
      (own : term entry = core.current server) :
      Step term core (core.append server entry)
  | accept (server : S) (offered : List E)
      (inside : offered <+: core.led (core.current server))
      (nonempty : offered ≠ []) :
      Step term core (core.accept server offered)
  | observe : Step term core core.observe

/-- What the passing of time keeps. -/
structure Extends (old new : Core S E) : Prop where
  current : ∀ s, old.current s ≤ new.current s
  vote : ∀ s t c, old.vote s t = some c → new.vote s t = some c
  stood : ∀ s t log, old.stood s t = some log → new.stood s t = some log
  leader : ∀ t s, old.leader t = some s → new.leader t = some s
  led : ∀ t, old.led t <+: new.led t
  acked : ∀ s t m, old.acked s t m → new.acked s t m

theorem Extends.refl (core : Core S E) : Extends core core where
  current _ := Nat.le_refl _
  vote _ _ _ cast := cast
  stood _ _ _ stands := stands
  leader _ _ leads := leads
  led _ := List.prefix_rfl
  acked _ _ _ known := known

theorem Extends.trans {first second third : Core S E} (left : Extends first second)
    (right : Extends second third) : Extends first third where
  current s := (left.current s).trans (right.current s)
  vote s t c cast := right.vote s t c (left.vote s t c cast)
  stood s t log stands := right.stood s t log (left.stood s t log stands)
  leader t s leads := right.leader t s (left.leader t s leads)
  led t := (left.led t).trans (right.led t)
  acked s t m known := right.acked s t m (left.acked s t m known)

namespace Core

variable [DecidableEq S] {core : Core S E}

theorem advance_extends {server : S} {t : Nat} (higher : core.current server < t) :
    Extends core (core.advance server t) := by
  refine { Extends.refl core with current := ?_ }
  intro s
  by_cases same : s = server
  · subst same
    simpa [Core.advance] using Nat.le_of_lt higher
  · simp [Core.advance, same]

theorem grant_extends {server candidate : S}
    (free : core.vote server (core.current server) = none ∨
      core.vote server (core.current server) = some candidate) :
    Extends core (core.grant server candidate) := by
  refine { Extends.refl core with vote := ?_ }
  intro s u c cast
  by_cases here : s = server ∧ u = core.current server
  · obtain ⟨rfl, rfl⟩ := here
    rcases free with none | same
    · rw [none] at cast
      cases cast
    · rw [same] at cast
      rw [← cast]
      exact put_self ..
  · rw [← cast]
    exact put_other core.vote candidate (by tauto)

theorem append_extends (core : Core S E) (server : S) (entry : E) :
    Extends core (core.append server entry) := by
  refine { Extends.refl core with led := ?_ }
  intro t
  by_cases here : t = core.current server
  · subst here
    simp [Core.append]
  · simp [Core.append, here]

end Core

/-- A term whose leader does not have the entries the term `t` leader wrote through `m`. -/
def Lacks (core : Core S E) (t m u : Nat) : Prop :=
  core.led u ≠ [] ∧ ¬ (core.led t).take (m + 1) <+: core.led u

end ReplicatedLog
