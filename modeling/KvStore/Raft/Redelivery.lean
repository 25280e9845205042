import KvStore.Raft.IndexSafety

set_option autoImplicit false

/-! Old and repeated `AppendEntries` of one term: what they leave of a follower's
log, and how far a follower commits on the word of one. -/

namespace KvStore

open ReplicatedLog

variable {n : Nat} {C : Type}

namespace Raft

variable {rf : Raft n C} {logical led : List (LogEntry C)} {args : AppendEntriesArgs n C}

/-- The peer's log is what it retains of `logical`, whose entry 0 is always there. -/
structure Holds (rf : Raft n C) (logical : List (LogEntry C)) : Prop where
  slice : Slice rf.log rf.lastIncludedIndex logical
  nonempty : logical ≠ []

theorem Holds.length_pos (holds : rf.Holds logical) : 0 < logical.length :=
  List.length_pos_iff.mpr holds.nonempty

theorem Holds.congr {rf' : Raft n C} (holds : rf.Holds logical) (log : rf'.log = rf.log)
    (lii : rf'.lastIncludedIndex = rf.lastIncludedIndex) : rf'.Holds logical :=
  ⟨by rw [log, lii]; exact holds.slice, holds.nonempty⟩

/-- Above its compaction point the peer has exactly the entries of `other` up to
`last`, and at that point an entry of the same term. -/
def AgreesThrough (rf : Raft n C) (other : List (LogEntry C)) (last : Nat) : Prop :=
  ∀ i, rf.lastIncludedIndex ≤ i → i ≤ last →
    (∃ entry, rf.entryAt? i = some entry ∧ TermAt LogEntry.term other i entry.term) ∧
      (rf.lastIncludedIndex < i → rf.entryAt? i = other[i]?)

theorem Holds.agreesThrough (holds : rf.Holds logical) {other : List (LogEntry C)} {last : Nat}
    (shared : logical.take (last + 1) = other.take (last + 1)) (inside : last < logical.length) :
    rf.AgreesThrough other last := by
  intro i above below
  have same : logical[i]? = other[i]? := by
    rw [← List.getElem?_take_of_lt (by omega : i < last + 1), shared,
      List.getElem?_take_of_lt (by omega)]
  have present : logical[i]? = some (logical[i]) := List.getElem?_eq_getElem (by omega)
  refine ⟨?_, fun strict => by rw [entryAt?_retained holds.slice strict, same]⟩
  have terms := entryAt?_term holds.slice above
  rw [present, Option.map_some] at terms
  obtain ⟨entry, found, equal⟩ := Option.map_eq_some_iff.mp terms
  exact ⟨entry, found, _, by rw [← same, present], equal.symm⟩

@[simp] theorem heardLeader_commitIndex (rf : Raft n C) (t : Nat) :
    (rf.heardLeader t).commitIndex = rf.commitIndex := by
  unfold heardLeader
  split
  · rfl
  split <;> rfl

/-- A peer that has heard the leader of its term has nothing more to hear. -/
theorem heardLeader_of_follower {t : Nat} (term : rf.currentTerm = t)
    (state : rf.state ≠ .candidate) : rf.heardLeader t = rf := by
  rw [heardLeader, if_neg (by omega), if_neg state]

theorem heardLeader_state {t : Nat} : (rf.heardLeader t).state ≠ .candidate := by
  unfold heardLeader
  split
  · exact fun same => by cases same
  split
  · exact fun same => by cases same
  · assumption

theorem followCommit_again (rf : Raft n C) (leaderCommit : Nat) :
    (rf.followCommit leaderCommit).followCommit leaderCommit = rf.followCommit leaderCommit := by
  by_cases raises : rf.commitIndex < leaderCommit
  · have once : rf.followCommit leaderCommit =
        { rf with commitIndex := min leaderCommit rf.lastLogIndex } := if_pos raises
    rw [once, followCommit]
    split <;> rfl
  · have once : rf.followCommit leaderCommit = rf := if_neg raises
    rw [once, once]

theorem checkPrev_of_termAt (slice : Slice rf.log rf.lastIncludedIndex logical)
    (above : rf.lastIncludedIndex ≤ args.prevLogIndex)
    (here : TermAt LogEntry.term logical args.prevLogIndex args.prevLogTerm) :
    rf.checkPrev args = .ok none := by
  have inside := here.inside
  have terms := entryAt?_term slice above
  obtain ⟨entry, present, term⟩ := here
  rw [present, Option.map_some, term] at terms
  obtain ⟨own, found, same⟩ := Option.map_eq_some_iff.mp terms
  have long : ¬ rf.lastLogIndex < args.prevLogIndex := by
    rw [lastLogIndex_of_slice slice]
    omega
  rw [checkPrev, if_neg (by omega), if_neg long]
  simp only [Raft.entry, found, orPanic, bind, Except.bind, pure, Except.pure, same, ne_eq,
    not_true_eq_false, ↓reduceIte]

/-- Entries that are all there are all skipped. -/
theorem mergeEntries_known (slice : Slice rf.log rf.lastIncludedIndex logical) {j : Nat}
    (above : rf.lastIncludedIndex < j) {entries : List (LogEntry C)}
    (known : entries <+: logical.drop j) : rf.mergeEntries j entries = .ok (rf, []) := by
  induction entries generalizing j with
  | nil => rfl
  | cons entry rest ih =>
    obtain ⟨tail, whole⟩ := known
    have here : logical[j]? = some entry := by
      have := congrArg (·[0]?) whole
      simpa using this.symm
    have present : ¬ rf.lastLogIndex < j := by
      have := (List.getElem?_eq_some_iff.mp here).1
      rw [lastLogIndex_of_slice slice]
      omega
    have further : rest <+: logical.drop (j + 1) := by
      rw [← List.drop_drop, ← whole]
      exact ⟨tail, rfl⟩
    rw [mergeEntries, if_neg present]
    simp only [Raft.entry, entryAt?_retained slice above, here, orPanic, bind, Except.bind, ne_eq,
      not_true_eq_false, ↓reduceIte]
    exact ih (by omega) further

/-- On a log with its entry 0 the consistency check reads nothing that is not there. -/
theorem checkPrev_total (holds : rf.Holds logical) (args : AppendEntriesArgs n C) :
    (∃ conflict, rf.checkPrev args = .ok (some conflict)) ∨
      ∃ prev, rf.entryAt? args.prevLogIndex = some prev ∧ prev.term = args.prevLogTerm ∧
        rf.checkPrev args = .ok none := by
  rcases checkPrev_cases rf args with refused | died | passed
  · exact Or.inl refused
  · unfold checkPrev at died
    split at died
    · cases died
    split at died
    · cases died
    rename_i retained long
    rw [lastLogIndex_of_slice holds.slice] at long
    have positive := holds.length_pos
    have terms := entryAt?_term holds.slice (i := args.prevLogIndex) (by omega)
    rw [List.getElem?_eq_getElem (by omega), Option.map_some] at terms
    obtain ⟨prev, found, _⟩ := Option.map_eq_some_iff.mp terms
    simp only [Raft.entry, found, orPanic, bind, Except.bind, pure, Except.pure] at died
    split at died <;> cases died
  · exact Or.inr passed

theorem Relogged.keeps {after : Raft n C} (relogged : Relogged rf after logical) :
    after.currentTerm = rf.currentTerm ∧ after.state = rf.state ∧
      after.lastIncludedIndex = rf.lastIncludedIndex ∧ after.commitIndex = rf.commitIndex ∧
      Slice after.log after.lastIncludedIndex logical := by
  rcases relogged with ⟨rfl, slice⟩ | ⟨log, rfl, slice⟩
  · exact ⟨rfl, rfl, rfl, rfl, slice⟩
  · exact ⟨rfl, rfl, rfl, rfl, slice⟩

theorem Holds.heardLeader (holds : rf.Holds logical) (t : Nat) : (rf.heardLeader t).Holds logical :=
  holds.congr (heardLeader_log rf t) (heardLeader_lastIncludedIndex rf t)

theorem heardLeader_entryAt? (rf : Raft n C) (t i : Nat) :
    (rf.heardLeader t).entryAt? i = rf.entryAt? i := by
  rw [entryAt?, entryAt?, sliceIndex, sliceIndex, heardLeader_log, heardLeader_lastIncludedIndex]

theorem lastLogIndex_congr {rf' : Raft n C} (log : rf'.log = rf.log)
    (lii : rf'.lastIncludedIndex = rf.lastIncludedIndex) : rf'.lastLogIndex = rf.lastLogIndex := by
  rw [lastLogIndex, lastLogIndex, log, lii]

theorem followCommit_commitIndex (rf : Raft n C) (leaderCommit : Nat) :
    (rf.followCommit leaderCommit).commitIndex =
      if rf.commitIndex < leaderCommit then min leaderCommit rf.lastLogIndex
      else rf.commitIndex := by
  unfold followCommit
  split <;> rfl

/-- What a peer makes of a request: it keeps its log and commit index, or it has
adopted the offer and followed the leader's commit index. -/
def Receipt (rf : Raft n C) (logical offered : List (LogEntry C)) (args : AppendEntriesArgs n C)
    (after : Raft n C) (reply : AppendEntriesReply) : Prop :=
  after.lastIncludedIndex = rf.lastIncludedIndex ∧
    (reply.success = false ∧ after.log = rf.log ∧ after.commitIndex = rf.commitIndex ∨
      reply.success = true ∧ after.Holds (adopt logical offered) ∧
        after.commitIndex = if rf.commitIndex < args.leaderCommit then
          min args.leaderCommit after.lastLogIndex else rf.commitIndex)

/-- A refused request changes nothing when it comes again. -/
theorem appendEntries_refused (current : rf.currentTerm ≤ args.term) {conflict : Int × Nat}
    (refused : (rf.heardLeader args.term).checkPrev args = .ok (some conflict)) :
    let reply : AppendEntriesReply :=
      { term := args.term, success := false,
        conflictTerm := conflict.1, conflictIndex := conflict.2 }
    rf.appendEntries args = .ok (rf.heardLeader args.term, reply) ∧
      (rf.heardLeader args.term).appendEntries args = .ok (rf.heardLeader args.term, reply) := by
  have term := heardLeader_term current
  have heard := heardLeader_of_follower term heardLeader_state
  constructor
  · rw [appendEntries, if_neg (by omega)]
    simp only [refused, bind, Except.bind, pure, Except.pure, term]
  · rw [appendEntries, if_neg (by omega), heard]
    simp only [refused, bind, Except.bind, pure, Except.pure, term]

/-- An accepted request leaves the offer adopted, and nothing to do when it comes again. -/
theorem appendEntries_accepted (holds : rf.Holds logical) (ask : Offered led args)
    (matching : Matching LogEntry.term logical led) (current : rf.currentTerm ≤ args.term)
    {prev : LogEntry C} (found : (rf.heardLeader args.term).entryAt? args.prevLogIndex = some prev)
    (same : prev.term = args.prevLogTerm)
    (passed : (rf.heardLeader args.term).checkPrev args = .ok none) :
    ∃ after, rf.appendEntries args = .ok (after,
        { term := args.term, success := true, conflictTerm := 0, conflictIndex := 0 }) ∧
      after.appendEntries args = .ok (after,
        { term := args.term, success := true, conflictTerm := 0, conflictIndex := 0 }) ∧
      after.lastIncludedIndex = rf.lastIncludedIndex ∧
      after.Holds (adopt logical (offerOf led args)) ∧
      after.commitIndex = if rf.commitIndex < args.leaderCommit then
        min args.leaderCommit after.lastLogIndex else rf.commitIndex := by
  have heard : (rf.heardLeader args.term).Holds logical :=
    holds.congr (heardLeader_log _ _) (heardLeader_lastIncludedIndex _ _)
  obtain ⟨above, here⟩ := termAt_of_entryAt? heard.slice found
  rw [same] at here
  obtain ⟨⟨merged, remaining⟩, merge⟩ : ∃ result,
      (rf.heardLeader args.term).mergeEntries (args.prevLogIndex + 1) args.entries =
        .ok result := by
    refine mergeEntries_ok ?_ (Nat.le_succ_of_le above) args.entries
    intro empty
    have long := heard.slice.length
    have inside := here.inside
    rw [empty, List.length_nil] at long
    omega
  obtain ⟨relogged, -⟩ := ask.merged heard.slice matching found same merge
  obtain ⟨term, state, lii, commit, slice⟩ := relogged.keeps
  rw [heardLeader_term current] at term
  rw [heardLeader_lastIncludedIndex] at lii above
  rw [heardLeader_commitIndex] at commit
  have quiet := followCommit_quiet (merged.appendRemaining remaining) args.leaderCommit
  have commitIndex := followCommit_commitIndex (merged.appendRemaining remaining) args.leaderCommit
  have again := followCommit_again (merged.appendRemaining remaining) args.leaderCommit
  have accepts : rf.appendEntries args =
      .ok ((merged.appendRemaining remaining).followCommit args.leaderCommit,
        { term := args.term, success := true, conflictTerm := 0, conflictIndex := 0 }) := by
    rw [appendEntries, if_neg (by omega)]
    simp only [passed, merge, bind, Except.bind, pure, Except.pure, heardLeader_term current]
  rw [commit, ← lastLogIndex_congr quiet.log quiet.lastIncludedIndex] at commitIndex
  generalize (merged.appendRemaining remaining).followCommit args.leaderCommit = after
    at quiet commitIndex again accepts
  have ahead := offered_prefix_adopt logical (offerOf led args)
  have holds' : after.Holds (adopt logical (offerOf led args)) := by
    refine ⟨by rw [quiet.log, quiet.lastIncludedIndex]; exact slice, ?_⟩
    exact List.length_pos_iff.mp (Nat.zero_lt_of_lt (ask.prev_offered.mono ahead).inside)
  have lii' : after.lastIncludedIndex = rf.lastIncludedIndex := quiet.lastIncludedIndex.trans lii
  have term' : after.currentTerm = args.term := quiet.currentTerm.trans term
  have hears : after.heardLeader args.term = after :=
    heardLeader_of_follower term' (by rw [quiet.state, state]; exact heardLeader_state)
  have known : args.entries <+: (adopt logical (offerOf led args)).drop (args.prevLogIndex + 1) :=
    ask.drop ▸ ahead.drop _
  have checks : after.checkPrev args = .ok none :=
    checkPrev_of_termAt holds'.slice (by omega) (ask.prev_offered.mono ahead)
  have merges : after.mergeEntries (args.prevLogIndex + 1) args.entries = .ok (after, []) :=
    mergeEntries_known holds'.slice (by omega) known
  refine ⟨after, accepts, ?_, lii', holds', commitIndex⟩
  rw [appendEntries, if_neg (by omega), hears]
  simp only [checks, merges, bind, Except.bind, pure, Except.pure, appendRemaining, again, term']

/-- One spec for a request cut from a log that the peer's own matches: the peer
survives it, a second copy changes nothing, and the receipt says what it did. -/
theorem appendEntries_receipt (holds : rf.Holds logical) (ask : Offered led args)
    (matching : Matching LogEntry.term logical led) :
    ∃ after reply, rf.appendEntries args = .ok (after, reply) ∧
      after.appendEntries args = .ok (after, reply) ∧
      Receipt rf logical (offerOf led args) args after reply := by
  by_cases old : args.term < rf.currentTerm
  · have stale : rf.appendEntries args = .ok (rf,
        { term := rf.currentTerm, success := false, conflictTerm := 0, conflictIndex := 0 }) := by
      rw [appendEntries, if_pos old]
    exact ⟨rf, _, stale, stale, rfl, Or.inl ⟨rfl, rfl, rfl⟩⟩
  have current : rf.currentTerm ≤ args.term := by omega
  have heard : (rf.heardLeader args.term).Holds logical :=
    holds.congr (heardLeader_log _ _) (heardLeader_lastIncludedIndex _ _)
  rcases checkPrev_total heard args with ⟨conflict, refused⟩ | ⟨prev, found, same, passed⟩
  · obtain ⟨once, twice⟩ := appendEntries_refused current refused
    exact ⟨_, _, once, twice, heardLeader_lastIncludedIndex _ _,
      Or.inl ⟨rfl, heardLeader_log _ _, heardLeader_commitIndex _ _⟩⟩
  · obtain ⟨after, once, twice, lii, holds', commit⟩ :=
      appendEntries_accepted holds ask matching current found same passed
    exact ⟨after, _, once, twice, lii, Or.inr ⟨rfl, holds', commit⟩⟩

theorem Offered.agreesThrough {after : Raft n C} (ask : Offered led args)
    (holds : after.Holds (adopt logical (offerOf led args))) {last : Nat}
    (within : last ≤ args.prevLogIndex + args.entries.length) : after.AgreesThrough led last := by
  have adopted := offered_prefix_adopt logical (offerOf led args)
  have offer : offerOf led args <+: led := List.take_prefix _ _
  have size := ask.length
  have longer := adopted.length_le
  refine holds.agreesThrough ?_ (by omega)
  rw [prefix_take_of_getElem adopted (by omega), prefix_take_of_getElem offer (by omega)]

/-- The request was built at some time of the term in which the leader's log was
a prefix of `led`, at a `nextIndex` its log allows. -/
def BuiltFrom (led : List (LogEntry C)) (term : Nat) (args : AppendEntriesArgs n C) : Prop :=
  ∃ (me i : Fin n) (leader : Raft n C) (sent : List (LogEntry C)),
    leader.currentTerm = term ∧ leader.Holds sent ∧ sent <+: led ∧
      leader.lastIncludedIndex < leader.nextIndex i ∧
      leader.nextIndex i ≤ leader.lastLogIndex + 1 ∧
      leader.newAppendEntriesArgsFor me i = .ok args

/-- A leader ships its whole suffix. -/
theorem newAppendEntriesArgsFor_offered {me i : Fin n} (holds : rf.Holds logical)
    (above : rf.lastIncludedIndex < rf.nextIndex i)
    (built : rf.newAppendEntriesArgsFor me i = .ok args) :
    Offered logical args ∧ args.term = rf.currentTerm ∧ args.leaderCommit = rf.commitIndex ∧
      args.prevLogIndex + args.entries.length = rf.lastLogIndex := by
  obtain ⟨prev, entries, found, suffix, rfl⟩ := newAppendEntriesArgsFor_ok built
  obtain ⟨-, here⟩ := termAt_of_entryAt? holds.slice found
  have rest := suffix?_retained holds.slice above suffix
  have inside := here.inside
  refine ⟨⟨here, ?_⟩, rfl, rfl, ?_⟩
  · rw [rest, show rf.nextIndex i - 1 + 1 = rf.nextIndex i by omega]
  · simp only [rest, List.length_drop, lastLogIndex_of_slice holds.slice]
    omega

theorem Offered.longer {sent : List (LogEntry C)} (ask : Offered sent args) (pre : sent <+: led) :
    Offered led args :=
  ⟨ask.prev.mono pre, ask.entries.trans (pre.drop _)⟩

theorem BuiltFrom.offered {t : Nat} (built : BuiltFrom led t args) : Offered led args := by
  obtain ⟨me, i, leader, sent, -, holds, pre, above, -, request⟩ := built
  exact (newAppendEntriesArgsFor_offered holds above request).1.longer pre

/-- The follower's handler run on one request after another. -/
def appendAll : Raft n C → List (AppendEntriesArgs n C) → Except (Raft n C) (Raft n C)
  | rf, [] => .ok rf
  | rf, args :: rest =>
    match rf.appendEntries args with
    | .ok (after, _) => appendAll after rest
    | .error dead => .error dead

/-- One request of the term: whatever the follower shares with the leader it keeps. -/
theorem appendEntries_keeps (holds : rf.Holds logical)
    (matching : Matching LogEntry.term logical led) (ask : Offered led args) :
    ∃ after reply logical', rf.appendEntries args = .ok (after, reply) ∧ after.Holds logical' ∧
      Matching LogEntry.term logical' led ∧
      after.lastIncludedIndex = rf.lastIncludedIndex ∧
      ∀ kept, kept <+: led → kept <+: logical → kept <+: logical' := by
  obtain ⟨after, reply, once, -, lii, refused | accepted⟩ :=
    appendEntries_receipt holds ask matching
  · obtain ⟨-, log, -⟩ := refused
    exact ⟨after, reply, logical, once, holds.congr log lii, matching, lii, fun _ _ held => held⟩
  · obtain ⟨-, holds', -⟩ := accepted
    have offer : offerOf led args <+: led := List.take_prefix _ _
    exact ⟨after, reply, _, once, holds', matching.adopt offer, lii,
      fun kept inside held => prefix_adopt inside offer held⟩

/-- Any requests of the term, in any order and number, by induction on them. -/
theorem appendAll_keeps {t : Nat} (holds : rf.Holds logical)
    (matching : Matching LogEntry.term logical led) (requests : List (AppendEntriesArgs n C))
    (built : ∀ args ∈ requests, BuiltFrom led t args) :
    ∃ after logical', rf.appendAll requests = .ok after ∧ after.Holds logical' ∧
      Matching LogEntry.term logical' led ∧
      after.lastIncludedIndex = rf.lastIncludedIndex ∧
      ∀ kept, kept <+: led → kept <+: logical → kept <+: logical' := by
  induction requests generalizing rf logical with
  | nil => exact ⟨rf, logical, rfl, holds, matching, rfl, fun _ _ held => held⟩
  | cons args rest ih =>
    obtain ⟨next, reply, middle, once, holds', matching', lii, keeps⟩ :=
      appendEntries_keeps holds matching (built args List.mem_cons_self).offered
    obtain ⟨after, final, all, holds'', matching'', lii', keeps'⟩ :=
      ih holds' matching' fun other member => built other (List.mem_cons_of_mem _ member)
    refine ⟨after, final, ?_, holds'', matching'', lii'.trans lii,
      fun kept inside held => keeps' kept inside (keeps kept inside held)⟩
    rw [appendAll, once]
    exact all

/-- Requests that one leader built at different times of its term, whatever their
order and number: a second copy of the last one changes nothing; and once one is
accepted, the follower has the leader's log through its last entry and no later
request takes any of it away. -/
theorem append_entries_redelivery {t : Nat} (holds : rf.Holds logical)
    (matching : Matching LogEntry.term logical led) (before : List (AppendEntriesArgs n C))
    (built : ∀ args ∈ before, BuiltFrom led t args) :
    ∃ mid, rf.appendAll before = .ok mid ∧ ∀ args, BuiltFrom led t args →
      ∃ after reply, mid.appendEntries args = .ok (after, reply) ∧
        after.appendEntries args = .ok (after, reply) ∧
        (reply.success = true →
          after.AgreesThrough led (args.prevLogIndex + args.entries.length) ∧
          ∀ later, (∀ other ∈ later, BuiltFrom led t other) →
            ∃ final, after.appendAll later = .ok final ∧
              final.lastIncludedIndex = after.lastIncludedIndex ∧
              ∀ i, after.lastIncludedIndex < i → i ≤ args.prevLogIndex + args.entries.length →
                final.entryAt? i = after.entryAt? i) := by
  obtain ⟨mid, middle, all, holds, matching, -, -⟩ := appendAll_keeps holds matching before built
  refine ⟨mid, all, fun args request => ?_⟩
  have ask := request.offered
  obtain ⟨after, reply, once, twice, lii, receipt⟩ := appendEntries_receipt holds ask matching
  refine ⟨after, reply, once, twice, fun success => ?_⟩
  rcases receipt with ⟨refused, -, -⟩ | ⟨-, holds', -⟩
  · rw [refused] at success
    cases success
  have offer : offerOf led args <+: led := List.take_prefix _ _
  have adopted := offered_prefix_adopt middle (offerOf led args)
  have size := ask.length
  refine ⟨ask.agreesThrough holds' (Nat.le_refl _), fun later built' => ?_⟩
  obtain ⟨final, ends, all', holds'', -, lii', keeps⟩ :=
    appendAll_keeps holds' (matching.adopt offer) later built'
  refine ⟨final, all', lii', fun i above below => ?_⟩
  have kept := keeps _ offer adopted
  have found : (offerOf led args)[i]? = some ((offerOf led args)[i]) :=
    List.getElem?_eq_getElem (by omega)
  rw [entryAt?_retained holds''.slice (lii' ▸ above), entryAt?_retained holds'.slice above,
    prefix_getElem kept found, prefix_getElem adopted found]

/-- A leader of term 2 with one entry of term 1 and one of its own. -/
def aheadLeader : Raft 3 Nat :=
  { Raft.make ⟨none, []⟩ with
    currentTerm := 2
    log := [⟨0, none⟩, ⟨1, some 5⟩, ⟨2, some 6⟩]
    commitIndex := 2
    state := .leader
    nextIndex := fun _ => 2 }

/-- A follower with an entry of term 1 that never reached the leader. -/
def tailedFollower : Raft 3 Nat :=
  { Raft.make ⟨none, []⟩ with
    currentTerm := 1
    log := [⟨0, none⟩, ⟨1, some 5⟩, ⟨1, some 9⟩, ⟨1, some 9⟩] }

/-- What the leader sends it. -/
def aheadRequest : AppendEntriesArgs 3 Nat :=
  { term := 2
    leaderId := 0
    prevLogIndex := 1
    prevLogTerm := 1
    entries := [⟨2, some 6⟩]
    leaderCommit := 2 }

theorem aheadLeader_holds : aheadLeader.Holds aheadLeader.log :=
  ⟨⟨rfl, rfl, rfl⟩, fun empty => by cases empty⟩

theorem tailedFollower_holds : tailedFollower.Holds tailedFollower.log :=
  ⟨⟨rfl, rfl, rfl⟩, fun empty => by cases empty⟩

/-- They agree through index 1 and have different terms at index 2. -/
theorem tailedFollower_matching :
    Matching LogEntry.term tailedFollower.log aheadLeader.log := by
  rintro index t ⟨own, present, rfl⟩ ⟨other, here, same⟩
  match index with
  | 0 => rfl
  | 1 => rfl
  | 2 =>
    obtain rfl := Option.some.inj present
    obtain rfl := Option.some.inj here
    cases same
  | k + 3 => cases here

/-- What it had sent before it took its own entry. -/
def staleRequest : AppendEntriesArgs 3 Nat :=
  { aheadRequest with entries := [], leaderCommit := 1 }

/-- The stale request arrives before the other and twice after it, then the other again. -/
theorem append_entries_redelivery_tail :
    ∃ mid after reply final, tailedFollower.appendAll [staleRequest] = .ok mid ∧
      mid.appendEntries aheadRequest = .ok (after, reply) ∧ reply.success = true ∧
      after.AgreesThrough aheadLeader.log 2 ∧
      after.appendAll [staleRequest, staleRequest, aheadRequest] = .ok final ∧
      final.entryAt? 2 = after.entryAt? 2 := by
  have request : BuiltFrom aheadLeader.log 2 aheadRequest :=
    ⟨0, 1, aheadLeader, aheadLeader.log, rfl, aheadLeader_holds, List.prefix_rfl, by decide,
      by decide, rfl⟩
  have stale : BuiltFrom aheadLeader.log 2 staleRequest :=
    ⟨0, 1, { aheadLeader with log := aheadLeader.log.take 2, commitIndex := 1 },
      aheadLeader.log.take 2, rfl, ⟨⟨rfl, rfl, rfl⟩, fun empty => by cases empty⟩,
      List.take_prefix _ _, by decide, by decide, rfl⟩
  obtain ⟨mid, earlier, all⟩ := append_entries_redelivery tailedFollower_holds
    tailedFollower_matching [staleRequest] (by simpa using stale)
  obtain ⟨after, reply, once, -, accepted⟩ := all aheadRequest request
  obtain rfl := Except.ok.inj earlier
  have success : reply.success = true := by
    obtain ⟨-, rfl⟩ := Prod.mk.inj (Except.ok.inj once)
    rfl
  obtain ⟨agrees, stays⟩ := accepted success
  obtain ⟨final, ends, lii, same⟩ := stays [staleRequest, staleRequest, aheadRequest]
    (by simpa using ⟨stale, request⟩)
  refine ⟨_, after, reply, final, earlier, once, success, agrees, ends, same 2 ?_ (by decide)⟩
  obtain ⟨rfl, -⟩ := Prod.mk.inj (Except.ok.inj once)
  decide

/-- A follower raises its commit index no further than the request reaches, and
up to there it then has the log the request was built from. -/
theorem append_entries_commit_verified {leader follower : Raft n C}
    {sent mine : List (LogEntry C)} {me i : Fin n} (sender : leader.Holds sent)
    (committed : leader.commitIndex ≤ leader.lastLogIndex)
    (above : leader.lastIncludedIndex < leader.nextIndex i)
    (within : leader.nextIndex i ≤ leader.lastLogIndex + 1) (holds : follower.Holds mine)
    (matching : Matching LogEntry.term mine sent) :
    ∃ args after reply, leader.newAppendEntriesArgsFor me i = .ok args ∧
      follower.appendEntries args = .ok (after, reply) ∧
      after.commitIndex ≤ max follower.commitIndex (args.prevLogIndex + args.entries.length) ∧
      (follower.commitIndex < after.commitIndex →
        after.AgreesThrough sent after.commitIndex) := by
  have long := lastLogIndex_of_slice sender.slice
  have positive := sender.length_pos
  have retained : leader.log ≠ [] := by
    intro empty
    have size := sender.slice.length
    rw [empty, List.length_nil] at size
    omega
  have sends := newAppendEntriesArgsFor_inside me retained above within
  cases built : leader.newAppendEntriesArgsFor me i with
  | error dead =>
    rw [built] at sends
    cases sends
  | ok args =>
    obtain ⟨ask, -, leaderCommit, reach⟩ := newAppendEntriesArgsFor_offered sender above built
    obtain ⟨after, reply, once, -, -, receipt⟩ := appendEntries_receipt holds ask matching
    refine ⟨args, after, reply, rfl, once, ?_⟩
    rcases receipt with ⟨-, -, same⟩ | ⟨-, holds', commit⟩
    · rw [same]
      exact ⟨Nat.le_max_left _ _, fun raised => absurd raised (Nat.lt_irrefl _)⟩
    · -- the cap by the follower's own log never matters: the leader's commit index
      -- already lies within what the request carries
      have bound : after.commitIndex ≤ max follower.commitIndex
          (args.prevLogIndex + args.entries.length) := by
        rw [commit]
        split <;> omega
      exact ⟨bound, fun raised => ask.agreesThrough holds' (by omega)⟩

theorem append_entries_commit_verified_tail :
    ∃ args after reply, aheadLeader.newAppendEntriesArgsFor 0 1 = .ok args ∧
      tailedFollower.appendEntries args = .ok (after, reply) ∧
      after.commitIndex ≤ max tailedFollower.commitIndex
        (args.prevLogIndex + args.entries.length) ∧
      (tailedFollower.commitIndex < after.commitIndex →
        after.AgreesThrough aheadLeader.log after.commitIndex) :=
  append_entries_commit_verified aheadLeader_holds (by decide) (by decide) (by decide)
    tailedFollower_holds tailedFollower_matching

end Raft

end KvStore
