import KvStore.ReplicatedLog.Completeness

set_option autoImplicit false

/-! Committed prefixes: those a majority acknowledged in the term that wrote
their last entry. -/

namespace ReplicatedLog

open Quorum

variable {S E : Type*}

/-- Every server has recorded how far it agrees with its term's leader. -/
def Observed (core : Core S E) : Prop :=
  ∀ s m, m < (core.led (core.current s)).length →
    (core.led (core.current s)).take (m + 1) <+: core.log s → core.acked s (core.current s) m

theorem observe_observed (core : Core S E) : Observed core.observe :=
  fun _ _ inside agrees => Or.inr ⟨rfl, inside, agrees⟩

/-- A server that holds a part of its leader's log has acknowledged all of it. -/
theorem Observed.acked {core : Core S E} (observed : Observed core) {s : S} {t : Nat}
    (current : core.current s = t) {part : List E} (led : part <+: core.led t)
    (held : part <+: core.log s) {k : Nat} (inside : k < part.length) : core.acked s t k := by
  subst current
  refine observed s k (Nat.lt_of_lt_of_le inside led.length_le) ?_
  rw [prefix_take_of_getElem led inside]
  exact (List.take_prefix _ _).trans held

variable [Fintype S] {term : E → Nat} {root : E}

/-- The whole invariant of the abstract protocol. -/
structure Safe (term : E → Nat) (root : E) (core : Core S E) : Prop where
  sound : Sound term root core
  durable : Durable term core

theorem Safe.init (zero : term root = 0) : Safe term root (Core.init root : Core S E) :=
  ⟨Sound.init zero, Durable.init⟩

theorem Safe.step [DecidableEq S] {core next : Core S E} (safe : Safe term root core)
    (move : Step term core next) : Safe term root next :=
  ⟨safe.sound.step move, safe.durable.step safe.sound move⟩

theorem Safe.step_extends [DecidableEq S] {core next : Core S E} (safe : Safe term root core)
    (move : Step term core next) : Extends core next :=
  safe.sound.step_extends move

/-- Committed by term `limit`: the bare root, or anything below an index that a
majority acknowledged in the term of the entry there. -/
inductive Committed (term : E → Nat) (root : E) (core : Core S E) (limit : Nat)
    (log : List E) : Prop
  | root (small : log <+: [root])
  | quorum (t m : Nat) (early : t ≤ limit) (members : Finset S) (majority : Majority members)
      (acks : ∀ s ∈ members, core.acked s t m) (own : TermAt term (core.led t) m t)
      (inside : log <+: (core.led t).take (m + 1))

namespace Committed

variable {core next : Core S E} {limit : Nat} {log : List E}

theorem later (committed : Committed term root core limit log) {limit' : Nat}
    (order : limit ≤ limit') : Committed term root core limit' log := by
  cases committed with
  | root small => exact .root small
  | quorum t m early members majority acks own inside =>
    exact .quorum t m (early.trans order) members majority acks own inside

theorem shorten {short : List E} (committed : Committed term root core limit log)
    (pre : short <+: log) : Committed term root core limit short := by
  cases committed with
  | root small => exact .root (pre.trans small)
  | quorum t m early members majority acks own inside =>
    exact .quorum t m early members majority acks own (pre.trans inside)

theorem extend (committed : Committed term root core limit log) (ext : Extends core next) :
    Committed term root next limit log := by
  cases committed with
  | root small => exact .root small
  | quorum t m early members majority acks own inside =>
    refine .quorum t m early members majority (fun s member => ext.acked s t m (acks s member))
      (own.mono (ext.led t)) ?_
    rwa [prefix_take_of_getElem (ext.led t) own.inside]

/-- Every leader of a term that has been reached has what was committed by then. -/
theorem prefix_led (safe : Safe term root core) (committed : Committed term root core limit log)
    {u : Nat} (later : limit ≤ u) (led : core.led u ≠ []) : log <+: core.led u := by
  cases committed with
  | root small => exact small.trans (safe.sound.rootedLed u led)
  | quorum t m early members majority acks own inside =>
    exact inside.trans
      (acked_prefix_led safe.sound safe.durable majority acks own (early.trans later) led)

/-- Two committed prefixes never diverge. -/
theorem total (safe : Safe term root core) {limit' : Nat} {other : List E}
    (first : Committed term root core limit log)
    (second : Committed term root core limit' other) : log <+: other ∨ other <+: log := by
  cases first with
  | root small =>
    cases second with
    | root small' => exact prefix_total small small'
    | quorum t m early members majority acks own inside =>
      have led : core.led t ≠ [] := by
        intro empty
        have := own.inside
        simp [empty] at this
      exact prefix_total (small.trans (safe.sound.rootedLed t led))
        (inside.trans (List.take_prefix _ _))
  | quorum t m early members majority acks own inside =>
    have ledFirst : core.led t ≠ [] := by
      intro empty
      have := own.inside
      simp [empty] at this
    cases second with
    | root small' =>
      exact prefix_total (inside.trans (List.take_prefix _ _))
        (small'.trans (safe.sound.rootedLed t ledFirst))
    | quorum u k early' members' majority' acks' own' inside' =>
      have ledSecond : core.led u ≠ [] := by
        intro empty
        have := own'.inside
        simp [empty] at this
      rcases Nat.le_total t u with order | order
      · exact prefix_total
          (inside.trans
            (acked_prefix_led safe.sound safe.durable majority acks own order ledSecond))
          (inside'.trans (List.take_prefix _ _))
      · exact prefix_total (inside.trans (List.take_prefix _ _))
          (inside'.trans
            (acked_prefix_led safe.sound safe.durable majority' acks' own' order ledFirst))

/-- Committed prefixes of the same length are equal. -/
theorem eq_of_length (safe : Safe term root core) {limit' : Nat} {other : List E}
    (first : Committed term root core limit log) (second : Committed term root core limit' other)
    (same : log.length = other.length) : log = other := by
  rcases first.total safe second with pre | pre
  · exact pre.eq_of_length same
  · exact (pre.eq_of_length same.symm).symm

end Committed

end ReplicatedLog
