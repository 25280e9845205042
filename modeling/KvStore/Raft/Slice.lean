import KvStore.ReplicatedLog.Logs
import KvStore.Raft.Cluster

set_option autoImplicit false

/-! The log a peer retains as a slice of its logical log, whose entries below
the compaction point are gone and whose entry at that point is a dummy. -/

namespace KvStore

open ReplicatedLog

variable {n : Nat} {C : Type}

/-- `log` retains `logical` from index `lii` on; of the entry at `lii` itself only
the term. The slice may be empty when a snapshot went past the end of the log. -/
structure Slice (log : List (LogEntry C)) (lii : Nat) (logical : List (LogEntry C)) : Prop where
  length : log.length + lii = logical.length
  terms : log.map (·.term) = (logical.drop lii).map (·.term)
  tail : log.tail = logical.drop (lii + 1)

namespace Slice

variable {log logical : List (LogEntry C)} {lii : Nat}

section

variable (slice : Slice log lii logical)

include slice

theorem term_at (k : Nat) : (log[k]?).map (·.term) = (logical[lii + k]?).map (·.term) := by
  have same := congrArg (·[k]?) slice.terms
  simpa only [List.getElem?_map, List.getElem?_drop] using same

theorem entry_above (k : Nat) : log[k + 1]? = logical[lii + k + 1]? := by
  have same := congrArg (·[k]?) slice.tail
  simpa only [List.getElem?_tail, List.getElem?_drop, Nat.add_right_comm] using same

theorem relog : logical.take (lii + 1) ++ log.tail = logical := by
  rw [slice.tail, List.take_append_drop]

theorem drop {k : Nat} (low : lii ≤ k) (high : k ≤ logical.length) :
    Slice (log.drop (k - lii)) k logical := by
  refine ⟨?_, ?_, ?_⟩
  · have := slice.length
    rw [List.length_drop]
    omega
  · rw [List.map_drop, slice.terms, ← List.map_drop, List.drop_drop,
      show lii + (k - lii) = k by omega]
  · rw [List.tail_drop]
    rcases Nat.eq_or_lt_of_le low with rfl | strict
    · rw [Nat.sub_self, Nat.zero_add, List.drop_one, slice.tail]
    · have same : log.drop (k - lii + 1) = log.tail.drop (k - lii) := by
        rw [List.drop_tail]
      rw [same, slice.tail, List.drop_drop, show lii + 1 + (k - lii) = k + 1 by omega]

theorem append (added : List (LogEntry C)) : Slice (log ++ added) lii (logical ++ added) := by
  have long := slice.length
  refine ⟨?_, ?_, ?_⟩
  · simp only [List.length_append]
    omega
  · rw [List.drop_append_of_le_length (by omega), List.map_append, List.map_append, slice.terms]
  · cases log with
    | nil =>
      simp only [List.length_nil] at long
      rw [List.nil_append, List.drop_append, List.drop_eq_nil_of_le (by omega),
        show lii + 1 - logical.length = 1 by omega, List.drop_one, List.nil_append]
    | cons first rest =>
      simp only [List.length_cons] at long
      have tail := slice.tail
      rw [List.tail_cons] at tail
      rw [List.cons_append, List.tail_cons, List.drop_append_of_le_length (by omega), ← tail]

theorem take {j : Nat} (low : lii ≤ j) (high : j ≤ logical.length) :
    Slice (log.take (j - lii)) lii (logical.take j) := by
  have long := slice.length
  refine ⟨?_, ?_, ?_⟩
  · simp only [List.length_take]
    omega
  · rw [List.map_take, slice.terms, List.drop_take, List.map_take]
  · rw [← List.drop_one, List.drop_take, List.drop_one, slice.tail, List.drop_take, Nat.sub_sub]

end

/-- A snapshot installed over everything leaves one dummy entry. -/
theorem dummy {covered : List (LogEntry C)} {t : Nat} (length : covered.length = lii + 1)
    (last : TermAt LogEntry.term covered lii t) :
    Slice [{ term := t, command := none }] lii covered := by
  obtain ⟨entry, found, rfl⟩ := last
  have single : covered.drop lii = [entry] := by
    refine List.ext_getElem? fun k => ?_
    rw [List.getElem?_drop]
    cases k with
    | zero => simpa using found
    | succ k => simp [length]
  refine ⟨?_, ?_, ?_⟩
  · rw [length, List.length_singleton]
    omega
  · simp [single]
  · rw [List.tail_cons, List.drop_eq_nil_of_le (by omega)]

end Slice

namespace Raft

variable {rf : Raft n C} {logical : List (LogEntry C)}

theorem lastLogIndex_of_slice (slice : Slice rf.log rf.lastIncludedIndex logical) :
    rf.lastLogIndex = logical.length - 1 := by
  rw [lastLogIndex, slice.length]

theorem entryAt?_below {i : Nat} (below : i < rf.lastIncludedIndex) : rf.entryAt? i = none := by
  have absent : ¬ rf.lastIncludedIndex ≤ i := by omega
  simp only [entryAt?, sliceIndex, absent, ↓reduceIte, Option.bind_none]

theorem entryAt?_eq {i : Nat} (above : rf.lastIncludedIndex ≤ i) :
    rf.entryAt? i = rf.log[i - rf.lastIncludedIndex]? := by
  simp only [entryAt?, sliceIndex, above, ↓reduceIte, Option.bind_some]

section

variable (slice : Slice rf.log rf.lastIncludedIndex logical)

include slice

theorem entryAt?_term {i : Nat} (above : rf.lastIncludedIndex ≤ i) :
    (rf.entryAt? i).map (·.term) = (logical[i]?).map (·.term) := by
  rw [entryAt?_eq above, slice.term_at, show rf.lastIncludedIndex + (i - rf.lastIncludedIndex) = i
    by omega]

theorem entryAt?_retained {i : Nat} (above : rf.lastIncludedIndex < i) :
    rf.entryAt? i = logical[i]? := by
  obtain ⟨k, rfl⟩ : ∃ k, i = rf.lastIncludedIndex + k + 1 :=
    ⟨i - rf.lastIncludedIndex - 1, by omega⟩
  rw [entryAt?_eq (by omega),
    show rf.lastIncludedIndex + k + 1 - rf.lastIncludedIndex = k + 1 by omega, slice.entry_above]

/-- Any entry the peer can read has the term of the logical entry at its index. -/
theorem termAt_of_entryAt? {i : Nat} {entry : LogEntry C} (found : rf.entryAt? i = some entry) :
    rf.lastIncludedIndex ≤ i ∧ TermAt LogEntry.term logical i entry.term := by
  have above : rf.lastIncludedIndex ≤ i := by
    by_contra below
    rw [entryAt?_below (by omega)] at found
    cases found
  have same := entryAt?_term slice above
  rw [found, Option.map_some] at same
  obtain ⟨other, present, equal⟩ := Option.map_eq_some_iff.mp same.symm
  exact ⟨above, other, present, equal⟩

theorem lastLogTerm_of_slice {t : Nat} (last : rf.lastLogTerm = some t) :
    TermAt LogEntry.term logical (logical.length - 1) t := by
  obtain ⟨entry, ends, rfl⟩ := Option.map_eq_some_iff.mp last
  rw [List.getLast?_eq_getElem?] at ends
  have bound := (List.getElem?_eq_some_iff.mp ends).1
  have long := slice.length
  have same := slice.term_at (rf.log.length - 1)
  rw [ends, show rf.lastIncludedIndex + (rf.log.length - 1) = logical.length - 1 by omega] at same
  obtain ⟨other, present, equal⟩ := Option.map_eq_some_iff.mp same.symm
  exact ⟨other, present, equal⟩

end

end Raft

end KvStore
