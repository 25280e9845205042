import Mathlib.Data.List.Basic
import Mathlib.Logic.Function.Basic
import Mathlib.Tactic.Common
import Mathlib.Data.List.Infix

set_option autoImplicit false

/-! Logs whose entries carry a term, and the log each term's leader has written. -/

namespace ReplicatedLog

variable {E : Type*} {term : E → Nat} {led : Nat → List E} {log short long : List E}
  {index t : Nat}

theorem prefix_getElem (pre : short <+: long) {index : Nat} {entry : E}
    (found : short[index]? = some entry) : long[index]? = some entry := by
  obtain ⟨rest, rfl⟩ := pre
  obtain ⟨bound, _⟩ := List.getElem?_eq_some_iff.mp found
  rw [List.getElem?_append_left bound, found]

theorem prefix_take_of_getElem (pre : short <+: long) {index : Nat}
    (inside : index < short.length) :
    long.take (index + 1) = short.take (index + 1) := by
  obtain ⟨rest, rfl⟩ := pre
  rw [List.take_append_of_le_length (by omega)]

/-- Two prefixes of one list are comparable. -/
theorem prefix_total {left right whole : List E} (first : left <+: whole)
    (second : right <+: whole) : left <+: right ∨ right <+: left := by
  rcases Nat.le_total left.length right.length with shorter | longer
  · exact Or.inl (List.prefix_of_prefix_length_le first second shorter)
  · exact Or.inr (List.prefix_of_prefix_length_le second first longer)

/-- A prefix ending below the appended entry was already there. -/
theorem prefix_of_append_last {pre log : List E} {entry last : E}
    (inside : pre <+: log ++ [entry]) (ends : pre.getLast? = some last)
    (differ : term last ≠ term entry) : pre <+: log := by
  rcases List.prefix_concat_iff.mp inside with same | old
  · subst same
    rw [List.getLast?_concat] at ends
    exact absurd (congrArg term (Option.some.inj ends).symm) differ
  · exact old

/-- The entry at `index` has the given term. -/
def TermAt (term : E → Nat) (log : List E) (index t : Nat) : Prop :=
  ∃ entry, log[index]? = some entry ∧ term entry = t

theorem TermAt.inside (found : TermAt term log index t) : index < log.length := by
  obtain ⟨entry, present, _⟩ := found
  exact (List.getElem?_eq_some_iff.mp present).1

theorem TermAt.unique {index t u : Nat} (first : TermAt term log index t)
    (second : TermAt term log index u) : t = u := by
  obtain ⟨entry, present, rfl⟩ := first
  obtain ⟨other, same, rfl⟩ := second
  rw [present] at same
  exact congrArg term (Option.some.inj same)

theorem TermAt.mono (found : TermAt term short index t) (pre : short <+: long) :
    TermAt term long index t := by
  obtain ⟨entry, present, same⟩ := found
  exact ⟨entry, prefix_getElem pre present, same⟩

theorem TermAt.shorten (found : TermAt term long index t) (pre : short <+: long)
    (inside : index < short.length) : TermAt term short index t := by
  obtain ⟨rest, rfl⟩ := pre
  obtain ⟨entry, present, same⟩ := found
  rw [List.getElem?_append_left inside] at present
  exact ⟨entry, present, same⟩

theorem TermAt.last (found : TermAt term log index t) :
    ∃ entry, (log.take (index + 1)).getLast? = some entry ∧ term entry = t := by
  have inside := found.inside
  obtain ⟨entry, present, same⟩ := found
  refine ⟨entry, ?_, same⟩
  have size : (log.take (index + 1)).length - 1 = index := by
    rw [List.length_take]
    omega
  rw [List.getLast?_eq_getElem?, size, List.getElem?_take_of_lt (by omega), present]

/-- Terms never decrease along the log. -/
def Sorted (term : E → Nat) (log : List E) : Prop :=
  log.Pairwise (fun older newer => term older ≤ term newer)

theorem Sorted.shorten (sorted : Sorted term long) (pre : short <+: long) : Sorted term short :=
  List.Pairwise.sublist pre.sublist sorted

theorem Sorted.le (sorted : Sorted term log) {i j t u : Nat} (first : TermAt term log i t)
    (second : TermAt term log j u) (order : i ≤ j) : t ≤ u := by
  rcases Nat.eq_or_lt_of_le order with rfl | strict
  · exact Nat.le_of_eq (first.unique second)
  · obtain ⟨older, left, rfl⟩ := first
    obtain ⟨newer, right, rfl⟩ := second
    obtain ⟨leftBound, rfl⟩ := List.getElem?_eq_some_iff.mp left
    obtain ⟨rightBound, rfl⟩ := List.getElem?_eq_some_iff.mp right
    exact List.pairwise_iff_getElem.mp sorted i j leftBound rightBound strict

theorem Sorted.concat {entry : E} (sorted : Sorted term log)
    (bound : ∀ older ∈ log, term older ≤ term entry) : Sorted term (log ++ [entry]) := by
  refine List.pairwise_append.mpr ⟨sorted, List.pairwise_singleton _ _, ?_⟩
  intro older member newer single
  rw [List.mem_singleton] at single
  exact single ▸ bound older member

/-- Every entry of the log stands where its own term's leader wrote it, on top
of exactly the entries that leader had before it. -/
def Coherent (term : E → Nat) (led : Nat → List E) (log : List E) : Prop :=
  ∀ index entry, log[index]? = some entry → log.take (index + 1) <+: led (term entry)

theorem Coherent.shorten (coherent : Coherent term led long) (pre : short <+: long) :
    Coherent term led short := by
  intro index entry found
  have inside := (List.getElem?_eq_some_iff.mp found).1
  rw [← prefix_take_of_getElem pre inside]
  exact coherent index entry (prefix_getElem pre found)

theorem Coherent.mono {led led' : Nat → List E} (coherent : Coherent term led log)
    (grown : ∀ t, led t <+: led' t) : Coherent term led' log :=
  fun index entry found => (coherent index entry found).trans (grown _)

theorem Coherent.at (coherent : Coherent term led log) (found : TermAt term log index t) :
    log.take (index + 1) <+: led t := by
  obtain ⟨entry, present, rfl⟩ := found
  exact coherent index entry present

/-- The term of any entry in a coherent log has been led, unless it is the root's. -/
theorem Coherent.led_of_entry (coherent : Coherent term led log) (found : TermAt term log index t) :
    led t ≠ [] := by
  have inside := coherent.at found
  have bound := found.inside
  intro empty
  rw [empty, List.prefix_nil, List.take_eq_nil_iff] at inside
  rcases inside with absurdity | nil
  · omega
  · rw [nil] at bound
    simp at bound

/-- Log matching: coherent logs with one term at an index agree up to there. -/
theorem Coherent.agree {left right : List E} (first : Coherent term led left)
    (second : Coherent term led right) (leftAt : TermAt term left index t)
    (rightAt : TermAt term right index t) : left.take (index + 1) = right.take (index + 1) := by
  have size : (left.take (index + 1)).length = (right.take (index + 1)).length := by
    have := leftAt.inside
    have := rightAt.inside
    simp only [List.length_take]
    omega
  exact (List.prefix_of_prefix_length_le (first.at leftAt) (second.at rightAt)
    (Nat.le_of_eq size)).eq_of_length size

/-- Log matching: where the two logs have one term at an index, they agree up to there. -/
def Matching (term : E → Nat) (left right : List E) : Prop :=
  ∀ index t, TermAt term left index t → TermAt term right index t →
    left.take (index + 1) = right.take (index + 1)

theorem Coherent.matching {left right : List E} (first : Coherent term led left)
    (second : Coherent term led right) : Matching term left right :=
  fun _ _ leftAt rightAt => first.agree second leftAt rightAt

theorem Matching.of_shorter (pre : short <+: long) : Matching term short long :=
  fun _ _ found _ => (prefix_take_of_getElem pre found.inside).symm

theorem Matching.shorten {left short long : List E} (matching : Matching term left long)
    (pre : short <+: long) : Matching term left short := by
  intro index t leftAt shortAt
  rw [matching index t leftAt (shortAt.mono pre), prefix_take_of_getElem pre shortAt.inside]

/-- A nonempty coherent log lies inside the log of its last entry's leader. -/
theorem Coherent.prefix_led (coherent : Coherent term led log) {t : Nat}
    (last : TermAt term log (log.length - 1) t) : log <+: led t := by
  have positive : 0 < log.length := by
    have := last.inside
    omega
  have inside := coherent.at last
  rwa [show log.length - 1 + 1 = log.length by omega, List.take_length] at inside

theorem Coherent.sorted (coherent : Coherent term led log) (sorted : ∀ t, Sorted term (led t)) :
    Sorted term log := by
  by_cases empty : log = []
  · subst empty
    exact List.Pairwise.nil
  · have positive := List.length_pos_iff.mpr empty
    have last : TermAt term log (log.length - 1) (term log[log.length - 1]) :=
      ⟨_, List.getElem?_eq_getElem (by omega), rfl⟩
    exact (sorted _).shorten (coherent.prefix_led last)

/-- The leader's own log stays coherent when it appends an entry of its term. -/
theorem Coherent.append_led {t : Nat} {entry : E} (coherent : Coherent term led (led t))
    (own : term entry = t) :
    Coherent term (Function.update led t (led t ++ [entry])) (led t ++ [entry]) := by
  have grown : ∀ u, led u <+: Function.update led t (led t ++ [entry]) u := by
    intro u
    by_cases same : u = t
    · subst same
      rw [Function.update_self]
      exact List.prefix_append _ _
    · rw [Function.update_of_ne same]
  intro index found present
  by_cases old : index < (led t).length
  · rw [List.getElem?_append_left old] at present
    rw [List.take_append_of_le_length (by omega)]
    exact (coherent index found present).trans (grown _)
  · have bound := (List.getElem?_eq_some_iff.mp present).1
    rw [List.length_append, List.length_singleton] at bound
    have newest : index = (led t).length := by omega
    subst newest
    obtain rfl : entry = found := by simpa using present
    rw [own, Function.update_self]
    exact List.take_prefix _ _

open Classical in
/-- What a follower holds after accepting `offered`: its own log if that already
extends the offer, and otherwise exactly the offer. -/
noncomputable def adopt (log offered : List E) : List E :=
  if offered <+: log then log else offered

theorem adopt_known {log offered : List E} (known : offered <+: log) :
    adopt log offered = log := if_pos known

theorem adopt_fresh {log offered : List E} (fresh : ¬ offered <+: log) :
    adopt log offered = offered := if_neg fresh

theorem offered_prefix_adopt (log offered : List E) : offered <+: adopt log offered := by
  by_cases known : offered <+: log
  · rwa [adopt_known known]
  · rw [adopt_fresh known]

/-- Accepting a prefix of `whole` loses nothing that lies inside `whole`. -/
theorem prefix_adopt {log offered kept whole : List E} (inside : kept <+: whole)
    (offer : offered <+: whole) (held : kept <+: log) : kept <+: adopt log offered := by
  by_cases known : offered <+: log
  · rwa [adopt_known known]
  · rw [adopt_fresh known]
    rcases prefix_total inside offer with shorter | longer
    · exact shorter
    · exact absurd (longer.trans held) known

/-- A log matches whatever it adopts prefixes of. -/
theorem Matching.adopt {log offered whole : List E} (matching : Matching term log whole)
    (offer : offered <+: whole) : Matching term (adopt log offered) whole := by
  by_cases known : offered <+: log
  · rwa [adopt_known known]
  · rw [adopt_fresh known]
    exact .of_shorter offer

end ReplicatedLog
