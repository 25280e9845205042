import KvStore.Raft.Outcomes

set_option autoImplicit false

/-! The applier of one peer against its compaction point and commit index. -/

namespace KvStore

variable {n : Nat} {C : Type}

/-- The message has been picked and its delivery not yet recorded. -/
def Applier.InFlight (applier : Applier C) (msg : ApplyMsg C) : Prop :=
  applier = .sending msg ∨ applier = .sent msg

namespace Raft

/-- What `lastApplied` will be once the message in flight is recorded. -/
def progress (rf : Raft n C) : Nat :=
  match rf.applier with
  | .idle => rf.lastApplied
  | .sending msg => msg.index
  | .sent msg => msg.index

theorem progress_idle {rf : Raft n C} (idle : rf.applier = .idle) :
    rf.progress = rf.lastApplied := by
  simp only [progress, idle]

theorem progress_congr {rf rf' : Raft n C} (applier : rf'.applier = rf.applier)
    (lastApplied : rf'.lastApplied = rf.lastApplied) : rf'.progress = rf.progress := by
  simp only [progress, applier, lastApplied]

/-- What installing a snapshot means for the applier: it is told of the snapshot
unless it is already past it. -/
theorem installed_effect (rf : Raft n C) (args : InstallSnapshotArgs n) :
    (rf.installed args).applier = rf.applier ∧
      (rf.installed args).lastApplied = rf.lastApplied ∧
      (rf.installed args).matchIndex = rf.matchIndex ∧
      (rf.installed args).lastIncludedIndex = args.lastIncludedIndex ∧
      (rf.installed args).snapshotData = args.data ∧
      (rf.lastApplied < args.lastIncludedIndex ∧ (rf.installed args).snapshotPending = true ∧
          (rf.installed args).commitIndex = max args.lastIncludedIndex rf.commitIndex ∨
        args.lastIncludedIndex ≤ rf.lastApplied ∧
          (rf.installed args).snapshotPending = rf.snapshotPending ∧
          (rf.installed args).commitIndex = rf.commitIndex) := by
  have replaced : (rf.replaceLog args).applier = rf.applier ∧
      (rf.replaceLog args).lastApplied = rf.lastApplied ∧
      (rf.replaceLog args).commitIndex = rf.commitIndex ∧
      (rf.replaceLog args).matchIndex = rf.matchIndex ∧
      (rf.replaceLog args).snapshotPending = rf.snapshotPending ∧
      (rf.replaceLog args).lastIncludedIndex = args.lastIncludedIndex ∧
      (rf.replaceLog args).snapshotData = args.data := by
    unfold replaceLog
    split <;> exact ⟨rfl, rfl, rfl, rfl, rfl, rfl, rfl⟩
  obtain ⟨applier, lastApplied, commit, matched, waiting, index, data⟩ := replaced
  unfold installed
  dsimp only
  split
  · rename_i behind
    rw [lastApplied] at behind
    refine ⟨applier, lastApplied, matched, index, data, Or.inl ⟨behind, rfl, ?_⟩⟩
    simp only [commit]
  · rename_i past
    rw [lastApplied] at past
    exact ⟨applier, lastApplied, matched, index, data,
      Or.inr ⟨Nat.le_of_not_lt past, waiting, commit⟩⟩

end Raft

/-- The applier never reads at or below the compaction point: it is past that
point unless a snapshot is waiting for it. -/
structure Paced (rf : Raft n C) : Prop where
  next : ∀ command index, rf.applier.InFlight (.command command index) →
    index = rf.lastApplied + 1
  behind : ∀ data term index, rf.applier.InFlight (.snapshot data term index) →
    index ≤ rf.lastIncludedIndex
  applied : rf.lastApplied ≤ rf.progress
  pending : rf.snapshotPending = true → rf.progress ≤ rf.lastIncludedIndex
  caughtUp : rf.snapshotPending = false → rf.lastIncludedIndex ≤ rf.progress

namespace Paced

variable {rf rf' : Raft n C}

theorem make (persister : Persister n C) : Paced (Raft.make persister) := by
  unfold Raft.make Raft.readPersist
  split
  · refine ⟨?_, ?_, Nat.le_refl _, nofun, fun _ => Nat.le_refl _⟩
    · rintro command index (flight | flight) <;> cases flight
    · rintro data term index (flight | flight) <;> cases flight
  · refine ⟨?_, ?_, Nat.le_refl _, nofun, fun _ => Nat.le_refl _⟩
    · rintro command index (flight | flight) <;> cases flight
    · rintro data term index (flight | flight) <;> cases flight

section

variable (paced : Paced rf)

include paced

/-- The compaction point moves up: either a snapshot waits for the applier, or
the applier is already past the new point. -/
theorem compact (applier : rf'.applier = rf.applier)
    (lastApplied : rf'.lastApplied = rf.lastApplied)
    (up : rf.lastIncludedIndex ≤ rf'.lastIncludedIndex)
    (waits : rf'.snapshotPending = true → rf.progress ≤ rf'.lastIncludedIndex)
    (past : rf'.snapshotPending = false → rf'.lastIncludedIndex ≤ rf.progress) : Paced rf' := by
  have progress := Raft.progress_congr applier lastApplied
  refine ⟨?_, ?_, ?_, ?_, ?_⟩
  · rw [applier, lastApplied]
    exact paced.next
  · rw [applier]
    exact fun data term index flight => (paced.behind data term index flight).trans up
  · rw [lastApplied, progress]
    exact paced.applied
  · rw [progress]
    exact waits
  · rw [progress]
    exact past

/-- Nothing the applier looks at has changed. -/
theorem keep (applier : rf'.applier = rf.applier) (lastApplied : rf'.lastApplied = rf.lastApplied)
    (index : rf'.lastIncludedIndex = rf.lastIncludedIndex)
    (pending : rf'.snapshotPending = rf.snapshotPending) : Paced rf' := by
  apply paced.compact applier lastApplied (Nat.le_of_eq index.symm)
  · rw [pending, index]
    exact paced.pending
  · rw [pending, index]
    exact paced.caughtUp

/-- A message in flight takes the applier at most one entry on, or to a snapshot
the peer already has. -/
theorem progress_le : rf.progress ≤ max (rf.lastApplied + 1) rf.lastIncludedIndex := by
  have inFlight : ∀ msg, rf.applier.InFlight msg →
      msg.index ≤ max (rf.lastApplied + 1) rf.lastIncludedIndex := by
    intro msg flight
    cases msg with
    | command command index =>
      have := paced.next command index flight
      simp only [ApplyMsg.index]
      omega
    | snapshot data term index =>
      have := paced.behind data term index flight
      simp only [ApplyMsg.index]
      omega
  unfold Raft.progress
  split
  · omega
  · exact inFlight _ (Or.inl ‹_›)
  · exact inFlight _ (Or.inr ‹_›)

theorem installed {args : InstallSnapshotArgs n}
    (ahead : rf.lastIncludedIndex < args.lastIncludedIndex) : Paced (rf.installed args) := by
  obtain ⟨applier, lastApplied, _, index, _, told⟩ := rf.installed_effect args
  have bound := paced.progress_le
  have le := paced.applied
  apply paced.compact applier lastApplied
  · omega
  · intro waits
    rcases told with ⟨behind, _, _⟩ | ⟨past, pending, _⟩
    · omega
    · have := paced.pending (pending ▸ waits)
      omega
  · intro calm
    rcases told with ⟨_, pending, _⟩ | ⟨past, _, _⟩
    · rw [pending] at calm
      cases calm
    · omega

/-- The service compacts at an index it has been given. -/
theorem cut {index : Nat} (data : Bytes) (log : List (LogEntry C))
    (above : rf.lastIncludedIndex < index) (given : index ≤ rf.progress) :
    Paced (Raft.persist { rf with log, lastIncludedIndex := index, snapshotData := data }) := by
  refine paced.compact rfl rfl (Nat.le_of_lt above) ?_ ?_
  · intro pending
    exact (paced.pending pending).trans (Nat.le_of_lt above)
  · exact fun _ => given

theorem readSnapshot (idle : rf.applier = .idle) (pending : rf.snapshotPending = true)
    (term : Nat) :
    Paced { rf with
      snapshotPending := false
      applier := .sending (.snapshot rf.snapshotData term rf.lastIncludedIndex) } := by
  have waits := paced.pending pending
  rw [Raft.progress_idle idle] at waits
  refine ⟨?_, ?_, waits, nofun, fun _ => Nat.le_refl _⟩
  · rintro command index (flight | flight) <;> cases flight
  · rintro data term index (flight | flight)
    · cases flight
      exact Nat.le_refl _
    · cases flight

theorem readCommand (idle : rf.applier = .idle) (calm : rf.snapshotPending = false)
    (command : Option C) :
    Paced { rf with applier := .sending (.command command (rf.lastApplied + 1)) } ∧
      rf.lastIncludedIndex < rf.lastApplied + 1 := by
  have past := paced.caughtUp calm
  rw [Raft.progress_idle idle] at past
  refine ⟨⟨?_, ?_, Nat.le_succ _, ?_, fun _ => past.trans (Nat.le_succ _)⟩, Nat.lt_succ_of_le past⟩
  · rintro command index (flight | flight)
    · cases flight
      rfl
    · cases flight
  · rintro data term index (flight | flight) <;> cases flight
  · intro pending
    simp only [calm] at pending
    cases pending

variable {msg : ApplyMsg C}

theorem send (sending : rf.applier = .sending msg) :
    Paced { rf with applier := .sent msg } := by
  have before : rf.progress = msg.index := by simp only [Raft.progress, sending]
  have flight : ∀ {other}, (Applier.sent msg).InFlight other → rf.applier.InFlight other := by
    rintro other (flight | flight)
    · cases flight
    · cases flight
      exact Or.inl sending
  obtain ⟨next, behind, applied, pending, past⟩ := paced
  rw [before] at applied pending past
  exact ⟨fun command index held => next command index (flight held),
    fun data term index held => behind data term index (flight held), applied, pending, past⟩

/-- Recording a delivery takes `lastApplied` to the index delivered. -/
theorem recorded (sent : rf.applier = .sent msg) {applied : Nat}
    (records : applied = msg.index ∨ ∃ command index,
      msg = .command command index ∧ applied = rf.lastApplied + 1) : applied = msg.index := by
  rcases records with same | ⟨command, index, rfl, same⟩
  · exact same
  · rw [same, ApplyMsg.index, paced.next command index (Or.inr sent)]

theorem ack (sent : rf.applier = .sent msg) :
    Paced { rf with lastApplied := msg.index, applier := .idle } := by
  have before : rf.progress = msg.index := by simp only [Raft.progress, sent]
  have pending := paced.pending
  have past := paced.caughtUp
  rw [before] at pending past
  refine ⟨?_, ?_, Nat.le_refl _, pending, past⟩
  · rintro command index (flight | flight) <;> cases flight
  · rintro data term index (flight | flight) <;> cases flight

end

end Paced

/-- The applier against the commit index as well: nothing uncommitted is applied
or compacted. -/
structure Applying (rf : Raft n C) (delivered : Nat) : Prop where
  next : ∀ command index, rf.applier.InFlight (.command command index) →
    index = rf.lastApplied + 1
  behind : ∀ data term index, rf.applier.InFlight (.snapshot data term index) →
    index ≤ rf.lastIncludedIndex
  applied : rf.lastApplied ≤ rf.progress
  pending : rf.snapshotPending = true → rf.progress ≤ rf.lastIncludedIndex
  caughtUp : rf.snapshotPending = false → rf.lastIncludedIndex ≤ rf.progress
  delivered : delivered ≤ rf.progress
  committed : rf.progress ≤ rf.commitIndex
  compacted : rf.lastIncludedIndex ≤ rf.commitIndex

theorem Paced.applying {rf : Raft n C} {delivered : Nat} (paced : Paced rf)
    (reach : delivered ≤ rf.progress) (committed : rf.progress ≤ rf.commitIndex)
    (compacted : rf.lastIncludedIndex ≤ rf.commitIndex) : Applying rf delivered :=
  ⟨paced.next, paced.behind, paced.applied, paced.pending, paced.caughtUp, reach, committed,
    compacted⟩

namespace Applying

variable {rf rf' : Raft n C} {delivered : Nat}

theorem paced (applying : Applying rf delivered) : Paced rf :=
  ⟨applying.next, applying.behind, applying.applied, applying.pending, applying.caughtUp⟩

/-- Nothing the applier looks at has changed, and no commit has been taken back. -/
theorem keep (applying : Applying rf delivered) (applier : rf'.applier = rf.applier)
    (lastApplied : rf'.lastApplied = rf.lastApplied)
    (index : rf'.lastIncludedIndex = rf.lastIncludedIndex)
    (pending : rf'.snapshotPending = rf.snapshotPending)
    (commit : rf.commitIndex ≤ rf'.commitIndex) : Applying rf' delivered := by
  have progress := Raft.progress_congr applier lastApplied
  apply (applying.paced.keep applier lastApplied index pending).applying
  · rw [progress]
    exact applying.delivered
  · rw [progress]
    exact applying.committed.trans commit
  · rw [index]
    exact applying.compacted.trans commit

theorem make (persister : Persister n C) :
    Applying (Raft.make persister) (Raft.make persister : Raft n C).lastIncludedIndex := by
  apply (Paced.make persister).applying
  all_goals
    unfold Raft.make Raft.readPersist
    split <;> exact Nat.le_refl _

section

variable (applying : Applying rf delivered)

include applying

theorem installed {args : InstallSnapshotArgs n}
    (ahead : rf.lastIncludedIndex < args.lastIncludedIndex) :
    Applying (rf.installed args) delivered ∧
      (rf.installed args).applier = rf.applier ∧
      (rf.installed args).matchIndex = rf.matchIndex ∧
      ((rf.installed args).commitIndex = rf.commitIndex ∨
        (rf.installed args).commitIndex = args.lastIncludedIndex) := by
  obtain ⟨applier, lastApplied, matched, index, _, told⟩ := rf.installed_effect args
  have progress := Raft.progress_congr applier lastApplied
  have reach := applying.delivered
  have le := applying.applied
  have cap := applying.committed
  refine ⟨(applying.paced.installed ahead).applying ?_ ?_ ?_, applier, matched, ?_⟩
  · omega
  all_goals
    rcases told with ⟨_, _, commit⟩ | ⟨_, _, commit⟩ <;> omega

/-- The service compacts at an index it has been given. -/
theorem cut {index : Nat} (data : Bytes) (log : List (LogEntry C))
    (above : rf.lastIncludedIndex < index) (given : index ≤ delivered) :
    Applying (Raft.persist { rf with log, lastIncludedIndex := index, snapshotData := data })
      delivered := by
  have below : index ≤ rf.progress := given.trans applying.delivered
  exact (applying.paced.cut data log above below).applying applying.delivered applying.committed
    (below.trans applying.committed)

theorem readSnapshot (idle : rf.applier = .idle) (pending : rf.snapshotPending = true)
    (term : Nat) :
    Applying { rf with
      snapshotPending := false
      applier := .sending (.snapshot rf.snapshotData term rf.lastIncludedIndex) } delivered :=
  (applying.paced.readSnapshot idle pending term).applying
    (applying.delivered.trans (applying.pending pending)) applying.compacted applying.compacted

theorem readCommand (idle : rf.applier = .idle) (calm : rf.snapshotPending = false)
    (below : rf.lastApplied < rf.commitIndex) (command : Option C) :
    Applying { rf with applier := .sending (.command command (rf.lastApplied + 1)) } delivered ∧
      rf.lastIncludedIndex < rf.lastApplied + 1 := by
  obtain ⟨paced, above⟩ := applying.paced.readCommand idle calm command
  have reach := applying.delivered
  rw [Raft.progress_idle idle] at reach
  exact ⟨paced.applying (reach.trans (Nat.le_succ _)) below applying.compacted, above⟩

theorem send {msg : ApplyMsg C} (sending : rf.applier = .sending msg) :
    Applying { rf with applier := .sent msg } msg.index := by
  have cap := applying.committed
  simp only [Raft.progress, sending] at cap
  exact (applying.paced.send sending).applying (Nat.le_refl _) cap applying.compacted

theorem ack {msg : ApplyMsg C} (sent : rf.applier = .sent msg) {applied : Nat}
    (records : applied = msg.index ∨ ∃ command index,
      msg = .command command index ∧ applied = rf.lastApplied + 1) :
    Applying { rf with lastApplied := applied, applier := .idle } delivered := by
  obtain rfl := applying.paced.recorded sent records
  have cap := applying.committed
  have reach := applying.delivered
  simp only [Raft.progress, sent] at cap reach
  exact (applying.paced.ack sent).applying reach cap applying.compacted

end

end Applying

end KvStore
