import Mathlib.Logic.Function.Basic
import Mathlib.Tactic.Common

set_option autoImplicit false

/-! One item handed from holder to holder along a numbered sequence of owners.

The owner of the next number is proposed while nothing is pending; the item is
frozen at its old owner, shipped to the new one, erased at the old one, and the
number is then committed. Requests are never taken back: each may be executed at
any later time and any number of times. -/

namespace Handoff

inductive Status
  | absent
  | serving
  | frozen
  deriving DecidableEq, Repr

/-- What one holder knows of the item: its status, the last number it acted on and
its local copy. -/
structure Holder (H : Type*) where
  status : Status
  num : Nat
  copy : H

/-- `truth` is what the item really is; `frozenAs` records who froze it for a number
and what it was then. The remaining fields are the requests sent and the answers
given so far: `shipped` holds the states a freeze was answered with, `accepted` the
numbers whose install was answered well, and `erased` the deletes answered well. -/
structure State (G T H S : Type*) where
  owner : Nat → G
  current : Nat
  next : Nat
  holders : G → Holder H
  truth : T
  frozenAs : Nat → Option (G × T)
  installed : Nat → Prop
  freezes : G → Nat → Prop
  installs : Nat → S → Prop
  deletes : G → Nat → Prop
  shipped : Nat → S → Prop
  accepted : Nat → Prop
  erased : G → Nat → Prop

variable {G T H S : Type*} (Faithful : T → H → Prop) (Carries : T → S → Prop)

/-- Nothing has happened for the next number yet, or it does not move the item. -/
structure Resting (a : State G T H S) : Prop where
  serving : (a.holders (a.owner a.current)).status = .serving
  num : (a.holders (a.owner a.current)).num ≤ a.current
  faithful : Faithful a.truth (a.holders (a.owner a.current)).copy
  others : ∀ g, g ≠ a.owner a.current →
    (a.holders g).status = .absent ∧ (a.holders g).num ≤ a.current
  shipped : ∀ k d, a.shipped k d → k ≤ a.current
  accepted : ∀ k, a.accepted k → k ≤ a.current
  unrecorded : ∀ k, a.frozenAs k ≠ none → k ≤ a.current

/-- The old owner has frozen the item and nobody serves it. -/
structure Frozen (a : State G T H S) : Prop where
  pending : a.current + 1 = a.next
  moves : a.owner a.current ≠ a.owner a.next
  frozen : (a.holders (a.owner a.current)).status = .frozen
  num : (a.holders (a.owner a.current)).num = a.next
  faithful : Faithful a.truth (a.holders (a.owner a.current)).copy
  others : ∀ g, g ≠ a.owner a.current →
    (a.holders g).status = .absent ∧ (a.holders g).num ≤ a.current
  carried : ∀ d, a.shipped a.next d → Carries a.truth d
  accepted : ∀ k, a.accepted k → k ≤ a.current
  recorded : a.frozenAs a.next = some (a.owner a.current, a.truth)

/-- The new owner serves the item, whether or not the old one has erased it. -/
structure Moved (a : State G T H S) : Prop where
  pending : a.current + 1 = a.next
  moves : a.owner a.current ≠ a.owner a.next
  serving : (a.holders (a.owner a.next)).status = .serving
  num : (a.holders (a.owner a.next)).num = a.next
  faithful : Faithful a.truth (a.holders (a.owner a.next)).copy
  source : (a.holders (a.owner a.current)).status ≠ .serving ∧
    (a.holders (a.owner a.current)).num = a.next
  others : ∀ g, g ≠ a.owner a.current → g ≠ a.owner a.next →
    (a.holders g).status = .absent ∧ (a.holders g).num ≤ a.current
  erased : a.erased (a.owner a.current) a.next →
    (a.holders (a.owner a.current)).status = .absent
  installed : a.installed a.next
  recorded : ∃ t, a.frozenAs a.next = some (a.owner a.current, t)

/-- `held` says that an owner of an earlier number has the item or has been
superseded for it; `steady` that a serving holder has owned every number since the
one it acted on. Together they make every late request harmless. -/
structure Inv (a : State G T H S) : Prop where
  ordered : a.current ≤ a.next ∧ a.next ≤ a.current + 1
  freezes : ∀ g k, a.freezes g k → k ≤ a.next ∧ g ≠ a.owner k
  shipped : ∀ k d, a.shipped k d → k ≤ a.next
  installs : ∀ k d, a.installs k d → a.shipped k d
  accepted : ∀ k, a.accepted k → k ≤ a.next
  deletes : ∀ g k, a.deletes g k → a.accepted k
  erased : ∀ g k, a.erased g k → a.accepted k
  recorded : ∀ k, a.frozenAs k ≠ none → k ≤ a.next
  held : ∀ k, k ≤ a.current → (a.holders (a.owner k)).status = .absent →
    k < (a.holders (a.owner k)).num
  steady : ∀ g, (a.holders g).status = .serving → ∀ k, (a.holders g).num ≤ k →
    k ≤ a.current → a.owner k = g
  phase : Resting Faithful a ∨ Frozen Faithful Carries a ∨ Moved Faithful a

variable {Faithful Carries} {a : State G T H S} {g g' : G} {k : Nat} {d : S}

namespace Inv

section

variable (inv : Inv Faithful Carries a)

include inv

/-- At most one holder serves the item. -/
theorem exclusive (one : (a.holders g).status = .serving)
    (other : (a.holders g').status = .serving) :
    g = g' := by
  have unique : ∃ server, ∀ g, (a.holders g).status = .serving → g = server := by
    rcases inv.phase with rest | froze | moved
    · refine ⟨a.owner a.current, fun g serves => ?_⟩
      by_contra differs
      rw [(rest.others g differs).1] at serves
      cases serves
    · refine ⟨a.owner a.current, fun g serves => ?_⟩
      by_contra differs
      rw [(froze.others g differs).1] at serves
      cases serves
    · refine ⟨a.owner a.next, fun g serves => ?_⟩
      by_contra differs
      by_cases source : g = a.owner a.current
      · exact moved.source.1 (source ▸ serves)
      · rw [(moved.others g source differs).1] at serves
        cases serves
  obtain ⟨server, only⟩ := unique
  rw [only g one, only g' other]

/-- Who serves the item has it as it is. -/
theorem serving_faithful (serves : (a.holders g).status = .serving) :
    Faithful a.truth (a.holders g).copy := by
  rcases inv.phase with rest | froze | moved
  · rw [inv.exclusive serves rest.serving]
    exact rest.faithful
  · by_cases source : g = a.owner a.current
    · rw [source, froze.frozen] at serves
      cases serves
    · rw [(froze.others g source).1] at serves
      cases serves
  · rw [inv.exclusive serves moved.serving]
    exact moved.faithful

theorem num_le_next (g : G) : (a.holders g).num ≤ a.next := by
  have ordered := inv.ordered
  by_cases source : g = a.owner a.current
  · rcases inv.phase with rest | froze | moved
    · have := rest.num
      rw [source]
      omega
    · rw [source]
      exact Nat.le_of_eq froze.num
    · rw [source]
      exact Nat.le_of_eq moved.source.2
  · rcases inv.phase with rest | froze | moved
    · have := (rest.others g source).2
      omega
    · have := (froze.others g source).2
      omega
    · by_cases target : g = a.owner a.next
      · rw [target]
        exact Nat.le_of_eq moved.num
      · have := (moved.others g source target).2
        omega

/-- A freeze that is accepted is the one of the pending move, at the current owner. -/
theorem freeze_pending (sent : a.freezes g k) (serving : (a.holders g).status = .serving)
    (fresh : (a.holders g).num < k) :
    Resting Faithful a ∧ g = a.owner a.current ∧ k = a.next ∧ a.current + 1 = a.next := by
  obtain ⟨known, moves⟩ := inv.freezes g k sent
  have later : a.current < k := by
    by_contra early
    exact moves (inv.steady g serving k (Nat.le_of_lt fresh) (by omega)).symm
  have ordered := inv.ordered
  rcases inv.phase with rest | froze | moved
  · exact ⟨rest, inv.exclusive serving rest.serving, by omega, by omega⟩
  · by_cases source : g = a.owner a.current
    · rw [source, froze.frozen] at serving
      cases serving
    · rw [(froze.others g source).1] at serving
      cases serving
  · rw [inv.exclusive serving moved.serving, moved.num] at fresh
    omega

/-- An install that is accepted is the one of the pending move, while the item is
frozen, and it carries the item as it was frozen. -/
theorem install_pending (sent : a.installs k d) (absent : (a.holders (a.owner k)).status = .absent)
    (fresh : (a.holders (a.owner k)).num < k) :
    Frozen Faithful Carries a ∧ k = a.next ∧ Carries a.truth d := by
  have shipped := inv.installs k d sent
  have known := inv.shipped k d shipped
  have later : a.current < k := by
    by_contra early
    have := inv.held k (by omega) absent
    omega
  have ordered := inv.ordered
  have next : k = a.next := by omega
  subst next
  rcases inv.phase with rest | froze | moved
  · have := rest.shipped _ _ shipped
    omega
  · exact ⟨froze, rfl, froze.carried d shipped⟩
  · rw [moved.serving] at absent
    cases absent

/-- Only the current owner is ever frozen, and for the pending number. -/
theorem frozen_pending (frozen : (a.holders g).status = .frozen) :
    g = a.owner a.current ∧ (a.holders g).num = a.next ∧ a.current + 1 = a.next := by
  have source : g = a.owner a.current := by
    by_contra differs
    rcases inv.phase with rest | froze | moved
    · rw [(rest.others g differs).1] at frozen
      cases frozen
    · rw [(froze.others g differs).1] at frozen
      cases frozen
    · by_cases target : g = a.owner a.next
      · rw [target, moved.serving] at frozen
        cases frozen
      · rw [(moved.others g differs target).1] at frozen
        cases frozen
  subst source
  rcases inv.phase with rest | froze | moved
  · rw [rest.serving] at frozen
    cases frozen
  · exact ⟨rfl, froze.num, froze.pending⟩
  · exact ⟨rfl, moved.source.2, moved.pending⟩

/-- A delete that is accepted erases a copy whose successor is being served. -/
theorem delete_pending (sent : a.deletes g k) (frozen : (a.holders g).status = .frozen)
    (same : (a.holders g).num = k) : Moved Faithful a ∧ g = a.owner a.current ∧ k = a.next := by
  have accepted := inv.deletes g k sent
  obtain ⟨rfl, _⟩ := inv.frozen_pending frozen
  rcases inv.phase with rest | froze | moved
  · rw [rest.serving] at frozen
    cases frozen
  · have := froze.accepted k accepted
    have := froze.num
    have := froze.pending
    omega
  · exact ⟨moved, rfl, same.symm.trans moved.source.2⟩

/-- The old owner of a settled number has acted on it. -/
theorem source_passed (moves : a.owner k ≠ a.owner (k + 1)) (settled : k + 1 ≤ a.current) :
    k + 1 ≤ (a.holders (a.owner k)).num ∧
      ((a.holders (a.owner k)).num = k + 1 → (a.holders (a.owner k)).status ≠ .serving) := by
  cases status : (a.holders (a.owner k)).status with
  | absent => exact ⟨inv.held k (by omega) status, nofun⟩
  | serving =>
    have later : k + 1 < (a.holders (a.owner k)).num := by
      by_contra early
      exact moves (inv.steady _ status (k + 1) (by omega) settled).symm
    exact ⟨by omega, by omega⟩
  | frozen => exact ⟨by have := inv.frozen_pending status; omega, nofun⟩

/-- The new owner of a settled number has acted on it. -/
theorem target_passed (moves : a.owner k ≠ a.owner (k + 1)) (settled : k + 1 ≤ a.current) :
    k + 1 < (a.holders (a.owner (k + 1))).num ∨
      (a.holders (a.owner (k + 1))).num = k + 1 ∧
        (a.holders (a.owner (k + 1))).status = .serving := by
  cases status : (a.holders (a.owner (k + 1))).status with
  | absent => exact Or.inl (inv.held (k + 1) settled status)
  | serving =>
    have reached : k + 1 ≤ (a.holders (a.owner (k + 1))).num := by
      by_contra early
      exact moves (inv.steady _ status k (by omega) (by omega))
    rcases Nat.lt_or_eq_of_le reached with later | same
    · exact Or.inl later
    · exact Or.inr ⟨same.symm, rfl⟩
  | frozen => exact Or.inl (by have := inv.frozen_pending status; omega)

/-- A freeze for a number, sent to the owner of the number before, is never refused. -/
theorem freeze_legal (moves : a.owner k ≠ a.owner (k + 1)) (known : k + 1 ≤ a.next) :
    ((a.holders (a.owner k)).num < k + 1 → (a.holders (a.owner k)).status = .serving) ∧
      ((a.holders (a.owner k)).num = k + 1 → (a.holders (a.owner k)).status ≠ .serving) := by
  by_cases settled : k + 1 ≤ a.current
  · have passed := inv.source_passed moves settled
    exact ⟨by omega, passed.2⟩
  · have ordered := inv.ordered
    obtain rfl : k = a.current := by omega
    rcases inv.phase with rest | froze | moved
    · have := rest.num
      exact ⟨fun _ => rest.serving, by omega⟩
    · have := froze.num
      refine ⟨by omega, fun _ => ?_⟩
      rw [froze.frozen]
      nofun
    · have := moved.source.2
      exact ⟨by omega, fun _ => moved.source.1⟩

/-- An install of what a freeze for the same number returned is never refused. -/
theorem install_legal (moves : a.owner k ≠ a.owner (k + 1)) (shipped : a.shipped (k + 1) d) :
    ((a.holders (a.owner (k + 1))).num < k + 1 →
        (a.holders (a.owner (k + 1))).status = .absent) ∧
      ((a.holders (a.owner (k + 1))).num = k + 1 →
        (a.holders (a.owner (k + 1))).status = .serving) := by
  by_cases settled : k + 1 ≤ a.current
  · rcases inv.target_passed moves settled with later | ⟨same, serving⟩
    · exact ⟨by omega, by omega⟩
    · exact ⟨by omega, fun _ => serving⟩
  · have ordered := inv.ordered
    have known := inv.shipped _ _ shipped
    obtain rfl : k = a.current := by omega
    rcases inv.phase with rest | froze | moved
    · have := rest.shipped _ _ shipped
      omega
    · have idle := froze.others _ (Ne.symm moves)
      exact ⟨fun _ => idle.1, by omega⟩
    · rw [moved.pending]
      have := moved.num
      exact ⟨by omega, fun _ => moved.serving⟩

/-- A delete for a number that is installed, sent to the owner of the number before, is
never refused. -/
theorem delete_legal (moves : a.owner k ≠ a.owner (k + 1)) (accepted : a.accepted (k + 1)) :
    k + 1 ≤ (a.holders (a.owner k)).num ∧
      ((a.holders (a.owner k)).num = k + 1 → (a.holders (a.owner k)).status ≠ .serving) := by
  by_cases settled : k + 1 ≤ a.current
  · exact inv.source_passed moves settled
  · have ordered := inv.ordered
    have known := inv.accepted _ accepted
    obtain rfl : k = a.current := by omega
    rcases inv.phase with rest | froze | moved
    · have := rest.accepted _ accepted
      omega
    · have := froze.accepted _ accepted
      omega
    · have := moved.source.2
      have := moved.pending
      exact ⟨by omega, fun _ => moved.source.1⟩

end

end Inv

/-- What is settled once stays settled: owners up to the next number, and every
request, answer and record. -/
structure Grows (a a' : State G T H S) : Prop where
  owner : ∀ k, k ≤ a.next → a'.owner k = a.owner k
  current : a.current ≤ a'.current
  next : a.next ≤ a'.next
  freezes : ∀ g k, a.freezes g k → a'.freezes g k
  installs : ∀ k d, a.installs k d → a'.installs k d
  deletes : ∀ g k, a.deletes g k → a'.deletes g k
  shipped : ∀ k d, a.shipped k d → a'.shipped k d
  accepted : ∀ k, a.accepted k → a'.accepted k
  erased : ∀ g k, a.erased g k → a'.erased g k
  frozenAs : ∀ k record, a.frozenAs k = some record → a'.frozenAs k = some record
  installed : ∀ k, a.installed k → a'.installed k

theorem Grows.refl (a : State G T H S) : Grows a a :=
  ⟨fun _ _ => rfl, Nat.le_refl _, Nat.le_refl _, fun _ _ => id, fun _ _ => id, fun _ _ => id,
    fun _ _ => id, fun _ => id, fun _ _ => id, fun _ _ => id, fun _ => id⟩

end Handoff
