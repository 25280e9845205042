import KvStore.Raft.Outcomes

set_option autoImplicit false

/-! A follower's log after it has merged a leader's entries or installed a
leader's snapshot: in both cases it has adopted a prefix of the leader's log. -/

namespace KvStore

open ReplicatedLog

variable {n : Nat} {C : Type}

namespace Raft

variable {rf : Raft n C} {logical offered : List (LogEntry C)} {led : Nat → List (LogEntry C)}

/-- The peer with another log, saved if it has changed. -/
def Relogged (rf after : Raft n C) (logical : List (LogEntry C)) : Prop :=
  (after = rf ∧ Slice rf.log rf.lastIncludedIndex logical) ∨
    ∃ log, after = persist { rf with log } ∧ Slice log rf.lastIncludedIndex logical

/-- The merge loop from index `j` on. Below `j` the two logs agree, and `entries`
is what is offered from `j` on; the loop ends in the adopted log. -/
theorem mergeEntries_adopt (slice : Slice rf.log rf.lastIncludedIndex logical)
    (matching : Matching LogEntry.term logical offered)
    {entries : List (LogEntry C)} {j : Nat} (above : rf.lastIncludedIndex < j)
    (inside : j ≤ logical.length) (agree : logical.take j = offered.take j)
    (rest : offered.drop j = entries) {merged : Raft n C} {remaining : List (LogEntry C)}
    (done : rf.mergeEntries j entries = .ok (merged, remaining)) :
    Relogged rf (merged.appendRemaining remaining) (adopt logical offered) := by
  induction entries generalizing j with
  | nil =>
    have short := List.drop_eq_nil_iff.mp rest
    have known : offered <+: logical := by
      rw [← List.take_of_length_le short, ← agree]
      exact List.take_prefix _ _
    obtain ⟨rfl, rfl⟩ : rf = merged ∧ [] = remaining := by
      simpa [mergeEntries] using done
    rw [adopt_known known]
    exact Or.inl ⟨rfl, slice⟩
  | cons entry entries ih =>
    have here : offered[j]? = some entry := by
      have := congrArg (·[0]?) rest
      simpa using this
    have whole : logical.take j ++ entry :: entries = offered := by
      rw [agree, ← rest, List.take_append_drop]
    -- both ways of stopping cut the log at `j` and append the rest of the offer
    have stop : ¬ offered <+: logical → ∀ log, Slice log rf.lastIncludedIndex (logical.take j) →
        Relogged rf (persist { rf with log := log ++ entry :: entries })
            (adopt logical offered) := by
      intro fresh log cut
      rw [adopt_fresh fresh]
      exact Or.inr ⟨_, rfl, whole ▸ cut.append (entry :: entries)⟩
    unfold mergeEntries at done
    split at done
    · rename_i beyond
      rw [lastLogIndex_of_slice slice] at beyond
      have ends : j = logical.length := by omega
      obtain ⟨rfl, rfl⟩ : rf = merged ∧ entry :: entries = remaining := by simpa using done
      refine stop ?_ rf.log ?_
      · intro known
        have := prefix_getElem known here
        rw [List.getElem?_eq_none (by omega)] at this
        cases this
      · rwa [ends, List.take_length]
    · rename_i present
      rw [lastLogIndex_of_slice slice] at present
      rcases orPanic_cases rf (rf.entryAt? j) with ⟨own, found, read⟩ | ⟨_, died⟩
      · simp only [Raft.entry, read, bind, Except.bind, pure, Except.pure] at done
        rw [entryAt?_retained slice above] at found
        split at done
        · rename_i differ
          obtain ⟨rfl, rfl⟩ := Prod.mk.inj (Except.ok.inj done)
          refine stop ?_ _ (slice.take (by omega) inside)
          intro known
          have same := prefix_getElem known here
          rw [found] at same
          exact differ (congrArg LogEntry.term (Option.some.inj same).symm)
        · rename_i same
          rw [not_not] at same
          have agree' : logical.take (j + 1) = offered.take (j + 1) :=
            matching j own.term ⟨own, found, rfl⟩ ⟨entry, here, same⟩
          have bound := (List.getElem?_eq_some_iff.mp found).1
          refine ih (by omega) (by omega) agree' ?_ done
          rw [← List.drop_drop, rest, List.drop_one, List.tail_cons]
      · simp only [Raft.entry, died, bind, Except.bind] at done
        cases done

/-- The part of the leader's log `led` that a request offers: through its last entry. -/
def offerOf (led : List (LogEntry C)) (args : AppendEntriesArgs n C) : List (LogEntry C) :=
  led.take (args.prevLogIndex + 1 + args.entries.length)

/-- The request names an entry of `led` and carries what follows it there. -/
structure Offered (led : List (LogEntry C)) (args : AppendEntriesArgs n C) : Prop where
  prev : TermAt LogEntry.term led args.prevLogIndex args.prevLogTerm
  entries : args.entries <+: led.drop (args.prevLogIndex + 1)

namespace Offered

variable {whole : List (LogEntry C)} {args : AppendEntriesArgs n C}

theorem drop (ask : Offered whole args) :
    (offerOf whole args).drop (args.prevLogIndex + 1) = args.entries := by
  rw [offerOf, List.drop_take, Nat.add_sub_cancel_left]
  exact (List.prefix_iff_eq_take.mp ask.entries).symm

theorem length (ask : Offered whole args) :
    (offerOf whole args).length = args.prevLogIndex + 1 + args.entries.length := by
  have fits := ask.entries.length_le
  have inside := ask.prev.inside
  rw [List.length_drop] at fits
  rw [offerOf, List.length_take]
  omega

theorem prev_offered (ask : Offered whole args) :
    TermAt LogEntry.term (offerOf whole args) args.prevLogIndex args.prevLogTerm :=
  ask.prev.shorten (List.take_prefix _ _) (by rw [ask.length]; omega)

/-- Once the consistency check has passed, the two logs agree through the entry it is
about. -/
theorem agree (ask : Offered whole args) (slice : Slice rf.log rf.lastIncludedIndex logical)
    (matching : Matching LogEntry.term logical whole) {prev : LogEntry C}
    (found : rf.entryAt? args.prevLogIndex = some prev) (same : prev.term = args.prevLogTerm) :
    args.prevLogIndex < logical.length ∧
      logical.take (args.prevLogIndex + 1) = (offerOf whole args).take (args.prevLogIndex + 1) := by
  obtain ⟨_, here⟩ := termAt_of_entryAt? slice found
  rw [same] at here
  exact ⟨here.inside, matching.shorten (List.take_prefix _ _) _ _ here ask.prev_offered⟩

/-- The peer ends with the offer adopted, and what lies below its compaction point is as
before. -/
theorem merged (ask : Offered whole args) (slice : Slice rf.log rf.lastIncludedIndex logical)
    (matching : Matching LogEntry.term logical whole) {prev : LogEntry C}
    (found : rf.entryAt? args.prevLogIndex = some prev) (same : prev.term = args.prevLogTerm)
    {merged : Raft n C} {remaining : List (LogEntry C)}
    (merge : rf.mergeEntries (args.prevLogIndex + 1) args.entries = .ok (merged, remaining)) :
    Relogged rf (merged.appendRemaining remaining) (adopt logical (offerOf whole args)) ∧
      (adopt logical (offerOf whole args)).take (rf.lastIncludedIndex + 1) =
        logical.take (rf.lastIncludedIndex + 1) := by
  obtain ⟨above, _⟩ := termAt_of_entryAt? slice found
  obtain ⟨inside, agree⟩ := ask.agree slice matching found same
  have offers : Matching LogEntry.term logical (offerOf whole args) :=
    matching.shorten (List.take_prefix _ _)
  refine ⟨mergeEntries_adopt slice offers (by omega) inside agree ask.drop merge, ?_⟩
  by_cases known : offerOf whole args <+: logical
  · rw [adopt_known known]
  · have low : rf.lastIncludedIndex + 1 = min (rf.lastIncludedIndex + 1)
      (args.prevLogIndex + 1) := by omega
    rw [adopt_fresh known, low, ← List.take_take, ← agree, List.take_take]

end Offered

/-- The log `InstallSnapshot` leaves, given the entries the snapshot stands for. -/
theorem replaceLog_adopt (slice : Slice rf.log rf.lastIncludedIndex logical)
    (mine : Coherent LogEntry.term led logical) {covered : List (LogEntry C)}
    (theirs : Coherent LogEntry.term led covered) {args : InstallSnapshotArgs n}
    (length : covered.length = args.lastIncludedIndex + 1)
    (last : TermAt LogEntry.term covered args.lastIncludedIndex args.lastIncludedTerm)
    (ahead : rf.lastIncludedIndex < args.lastIncludedIndex) :
    Slice (rf.replaceLog args).log args.lastIncludedIndex (adopt logical covered) ∧
      covered ++ (rf.replaceLog args).log.tail = adopt logical covered := by
  unfold replaceLog
  split
  · rename_i keeps
    obtain ⟨present, same⟩ := keeps
    rw [entryAt?_retained slice ahead] at same
    obtain ⟨entry, found, term⟩ := Option.map_eq_some_iff.mp same
    have bound := (List.getElem?_eq_some_iff.mp found).1
    have agree : logical.take (args.lastIncludedIndex + 1) = covered := by
      rw [mine.agree theirs ⟨entry, found, term⟩ last, ← length, List.take_length]
    have known : covered <+: logical := agree ▸ List.take_prefix _ _
    have cut := slice.drop (Nat.le_of_lt ahead) (Nat.le_of_lt bound)
    rw [adopt_known known]
    refine ⟨cut, ?_⟩
    rw [← agree]
    exact cut.relog
  · rename_i drops
    have fresh : ¬ covered <+: logical := by
      intro known
      have here := last.mono known
      refine drops ⟨?_, ?_⟩
      · rw [lastLogIndex_of_slice slice]
        have := here.inside
        omega
      · rw [entryAt?_retained slice ahead]
        obtain ⟨entry, found, term⟩ := here
        rw [found, Option.map_some, term]
    rw [adopt_fresh fresh]
    refine ⟨.dummy length last, ?_⟩
    rw [List.tail_cons, List.append_nil]

end Raft

end KvStore
