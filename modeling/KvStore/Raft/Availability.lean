import KvStore.Raft.CatchUp
import KvStore.Raft.Draining

set_option autoImplicit false

/-! Any majority of two or more servers can get a new command through on its own, from
whatever state the run has left them in: one of them is elected and starts it, and all of
them apply it. -/

namespace KvStore

open ReplicatedLog

variable {n : Nat} {C : Type}

namespace Cluster

variable {quorum : Finset (Fin n)} {σ σ' : Cluster n C} {s i : Fin n}

/-- No server of a term up to the leader's has committed, or applied, or compacted more
than the leader's log. -/
theorem Kept.young (kept : σ.Kept) (leads : (σ.nodes s).state = .leader)
    (term : (σ.nodes i).currentTerm ≤ (σ.nodes s).currentTerm) :
    (σ.nodes i).lastIncludedIndex ≤ (σ.nodes s).lastLogIndex ∧
      (σ.nodes i).progress ≤ (σ.nodes s).lastLogIndex := by
  have committed := (kept.committed_led leads term).length_le
  obtain ⟨core, ⟨rel, _, ledger⟩, _⟩ := kept
  have inside := (ledger.nodes i).inside
  have compacted := (ledger.nodes i).applying.compacted
  have applied := (ledger.nodes i).applying.committed
  rw [Raft.lastLogIndex_of_slice (rel.nodes s).slice]
  rw [List.length_take] at committed
  omega

/-- A new leader takes a command. -/
theorem Leads.starts (leads : Leads quorum s σ) (kept : σ.Kept) (several : 1 < n)
    (command : Option C) :
    ∃ σ', Reaches quorum σ σ' ∧
      Drive quorum s (σ.nodes s).currentTerm ((σ.nodes s).lastLogIndex + 1) command
        ((s, (σ.nodes s).lastLogIndex + 1, (σ.nodes s).currentTerm, command) :: σ.started) σ' := by
  let entry : LogEntry C := { term := (σ.nodes s).currentTerm, command }
  let after : Raft n C := Raft.persist { σ.nodes s with log := (σ.nodes s).log ++ [entry] }
  have index : after.lastLogIndex = (σ.nodes s).lastLogIndex + 1 := by
    have positive := List.length_pos_iff.mpr (kept.log_nonempty s)
    simp only [after, Raft.lastLogIndex, Raft.persist_log, Raft.persist_lastIncludedIndex,
      List.length_append, List.length_singleton]
    omega
  let σ' : Cluster n C :=
    { (σ.setNode s after).setLogical s (σ.logical s ++ [entry]) with
      started := (s, (σ.nodes s).lastLogIndex + 1, (σ.nodes s).currentTerm, command) :: σ.started }
  have moved : σ.step (.start s command) = some σ' := by
    simp only [step, start, Raft.start, if_pos leads.leads, ↓reduceIte]
    rw [show ((after.lastLogIndex : Nat) : Int).toNat = (σ.nodes s).lastLogIndex + 1 from index]
    rfl
  have reaches : Reaches quorum σ σ' := .single ⟨.start s command, ⟨rfl, leads.member⟩, moved⟩
  have here : σ'.nodes s = after := Function.update_self ..
  have others {j : Fin n} (other : j ≠ s) : σ'.nodes j = σ.nodes j :=
    Function.update_of_ne other ..
  have young (j : Fin n) (inside : j ∈ quorum) := kept.young leads.leads (leads.bound j inside)
  refine ⟨σ', reaches, kept.reaches reaches, leads.member, ?_, ?_, fun j inside => ?_, ?_, ?_,
    fun j inside => ?_, fun j inside other => ?_, fun majority => ?_, rfl⟩
  · rw [here]
    exact leads.leads
  · rw [here]
    rfl
  · by_cases mine : j = s
    · rw [mine, here]
      exact Nat.le_refl _
    · rw [others mine]
      exact leads.bound j inside
  · rw [here, index]
  · obtain ⟨core, ⟨rel, _, ledger⟩, _⟩ := kept
    have inside := (ledger.nodes s).inside
    have length : (σ.logical s).length = (σ.nodes s).lastLogIndex + 1 := by
      rw [Raft.lastLogIndex_of_slice (rel.nodes s).slice]
      omega
    rw [show σ'.logical s = σ.logical s ++ [entry] from Function.update_self .., ← length]
    exact List.getElem?_concat_length ..
  · have low := young j inside
    by_cases mine : j = s
    · rw [mine] at low
      rw [mine, here]
      exact ⟨Nat.lt_succ_of_le low.1, Nat.lt_succ_of_le low.2⟩
    · rw [others mine]
      exact ⟨Nat.lt_succ_of_le low.1, Nat.lt_succ_of_le low.2⟩
  · have next : after.nextIndex j = (σ.nodes s).lastLogIndex + 1 := congrFun leads.next j
    have matched : after.matchIndex j = 0 := congrFun leads.matched j
    rw [here, others other, Aimed, next, matched]
    exact ⟨Nat.succ_pos _, Or.inl (Nat.lt_succ_of_le (young j inside).1)⟩
  · -- nobody is known to have the command yet, and one server is no majority
    have none : (Finset.univ.filter fun j => j ≠ s ∧
        (σ.nodes s).lastLogIndex + 1 ≤ after.matchIndex j) = ∅ := by
      refine Finset.filter_eq_empty_iff.mpr fun j _ known => ?_
      have matched : after.matchIndex j = 0 := congrFun leads.matched j
      omega
    rw [here, Raft.replicas, none, Finset.card_empty] at majority
    omega

namespace Drive

variable {T N : Nat} {command : Option C} {started : List (Fin n × Nat × Nat × Option C)}

theorem replicates (drive : Drive quorum s T N command started σ) :
    ∃ σ', Reaches quorum σ σ' ∧ Drive quorum s T N command started σ' ∧
      ∀ i ∈ quorum, i ≠ s → N ≤ (σ'.nodes s).matchIndex i := by
  have visit : ∀ i ∈ (quorum.erase s).toList, ∀ σ : Cluster n C,
      Drive quorum s T N command started σ → ∃ σ', Reaches quorum σ σ' ∧
        Drive quorum s T N command started σ' ∧ N ≤ (σ'.nodes s).matchIndex i ∧
        ∀ j, N ≤ (σ.nodes s).matchIndex j → N ≤ (σ'.nodes s).matchIndex j := by
    intro i member σ drive
    obtain ⟨apart, inside⟩ := Finset.mem_erase.mp (Finset.mem_toList.mp member)
    obtain ⟨σ', reaches, drive', onward, here⟩ := drive.catchUp inside apart
    exact ⟨σ', reaches, drive', here, fun j known => known.trans (onward.matched j)⟩
  obtain ⟨σ', reaches, drive', -, all⟩ := Runs.sweep visit drive
  refine ⟨σ', reaches, drive', fun i inside apart => all i ?_⟩
  exact Finset.mem_toList.mpr (Finset.mem_erase.mpr ⟨apart, inside⟩)

/-- The leader has committed the command once it knows the quorum to have it. -/
theorem decides (drive : Drive quorum s T N command started σ) (majority : n < 2 * quorum.card)
    (known : ∀ i ∈ quorum, i ≠ s → N ≤ (σ.nodes s).matchIndex i) :
    N ≤ (σ.nodes s).commitIndex := by
  refine drive.counted ?_
  have others : quorum.erase s ⊆ Finset.univ.filter fun j => j ≠ s ∧
      N ≤ (σ.nodes s).matchIndex j := by
    intro j member
    obtain ⟨apart, inside⟩ := Finset.mem_erase.mp member
    exact Finset.mem_filter.mpr ⟨Finset.mem_univ j, apart, known j inside apart⟩
  have count := Finset.card_le_card others
  rw [Finset.card_erase_of_mem drive.member] at count
  rw [Raft.replicas]
  omega

/-- One more round to everyone carries the leader's commit index. -/
theorem informs (drive : Drive quorum s T N command started σ)
    (known : ∀ i ∈ quorum, i ≠ s → N ≤ (σ.nodes s).matchIndex i)
    (decided : N ≤ (σ.nodes s).commitIndex) :
    ∃ σ', Reaches quorum σ σ' ∧ Drive quorum s T N command started σ' ∧
      ∀ i ∈ quorum, N ≤ (σ'.nodes i).commitIndex := by
  have visit : ∀ i ∈ (quorum.erase s).toList, ∀ σ : Cluster n C,
      (Drive quorum s T N command started σ ∧ N ≤ (σ.nodes s).commitIndex ∧
        ∀ i ∈ quorum, i ≠ s → N ≤ (σ.nodes s).matchIndex i) → ∃ σ', Reaches quorum σ σ' ∧
        (Drive quorum s T N command started σ' ∧ N ≤ (σ'.nodes s).commitIndex ∧
          ∀ i ∈ quorum, i ≠ s → N ≤ (σ'.nodes s).matchIndex i) ∧
        N ≤ (σ'.nodes i).commitIndex ∧
        ∀ j, N ≤ (σ.nodes j).commitIndex → N ≤ (σ'.nodes j).commitIndex := by
    rintro i member σ ⟨drive, decided, known⟩
    obtain ⟨apart, inside⟩ := Finset.mem_erase.mp (Finset.mem_toList.mp member)
    obtain ⟨m, pair⟩ := drive.behind inside apart
    have within := pair.within
    have below := pair.behind
    have reached := known i inside apart
    have young := (drive.young s drive.member).1
    rw [drive.last] at within
    obtain ⟨σ', reaches, drive', onward, -, here⟩ :=
      drive.append_matched inside apart (by omega) (by omega)
    exact ⟨σ', reaches, ⟨drive', onward.committed s decided, fun j inside' apart' =>
      (known j inside' apart').trans (onward.matched j)⟩, here decided, onward.committed⟩
  obtain ⟨σ', reaches, ⟨drive', decided', -⟩, -, all⟩ := Runs.sweep visit ⟨drive, decided, known⟩
  refine ⟨σ', reaches, drive', fun i inside => ?_⟩
  by_cases mine : i = s
  · rw [mine]
    exact decided'
  · exact all i (Finset.mem_toList.mpr (Finset.mem_erase.mpr ⟨mine, inside⟩))

end Drive

/-- The applier of a server of the quorum moves on its own. -/
theorem Drains.reaches (drains : Drains i σ σ') (member : i ∈ quorum) : Reaches quorum σ σ' := by
  refine Relation.ReflTransGen.mono ?_ _ _ drains
  rintro before after ⟨action, ⟨applier, -⟩, moved⟩
  refine ⟨action, ⟨freshReply_of_applier applier, ?_⟩, moved⟩
  cases action with
  | applierRead s => exact applier ▸ member
  | applierSend s => exact applier ▸ member
  | applierAck s => exact applier ▸ member
  | _ => cases applier

/-- Two servers that have committed an index have the same entry there. -/
theorem Kept.committed_entry (kept : σ.Kept) {i j : Fin n} {N : Nat}
    (mine : N ≤ (σ.nodes i).commitIndex) (theirs : N ≤ (σ.nodes j).commitIndex) :
    (σ.logical i)[N]? = (σ.logical j)[N]? := by
  obtain ⟨core, ⟨rel, _, ledger⟩, _⟩ := kept
  have short {i : Fin n} (reached : N ≤ (σ.nodes i).commitIndex) :
      RaftCommitted core (σ.nodes i).currentTerm ((σ.logical i).take (N + 1)) ∧
        ((σ.logical i).take (N + 1)).length = N + 1 := by
    refine ⟨(ledger.nodes i).committed.shorten (List.take_prefix_take_left (by omega)), ?_⟩
    have inside := (ledger.nodes i).inside
    rw [List.length_take]
    omega
  have same := (short mine).1.eq_of_length rel.safe (short theirs).1
    ((short mine).2.trans (short theirs).2.symm)
  rw [← List.getElem?_take_of_lt (Nat.lt_succ_self N), same,
    List.getElem?_take_of_lt (Nat.lt_succ_self N)]

/-- The whole quorum has committed the command at index `N`, and each of its servers has
applied it or has yet to get there. -/
structure Decided (quorum : Finset (Fin n)) (s : Fin n) (T N : Nat) (command : Option C)
    (started : List (Fin n × Nat × Nat × Option C)) (σ : Cluster n C) : Prop where
  kept : σ.Kept
  leads : (σ.nodes s).state = .leader
  term : (σ.nodes s).currentTerm = T
  started : σ.started = started
  committed : ∀ i ∈ quorum, N ≤ (σ.nodes i).commitIndex
  entry : ∀ i ∈ quorum, (σ.logical i)[N]? = some { term := T, command }
  reached : ∀ i ∈ quorum, (i, .command command N) ∈ σ.applied ∨
    (σ.nodes i).lastIncludedIndex < N ∧ (σ.nodes i).progress < N

namespace Decided

variable {T N : Nat} {command : Option C} {started : List (Fin n × Nat × Nat × Option C)}

theorem applies (decided : Decided quorum s T N command started σ) (reaches : Reaches quorum σ σ')
    (applies : Applies i σ σ') (done : (i, .command command N) ∈ σ'.applied) :
    Decided quorum s T N command started σ' := by
  obtain ⟨commit, -, state, term⟩ := applies.node
  refine ⟨decided.kept.reaches reaches, ?_, ?_, applies.started.trans decided.started,
    fun j inside => ?_, applies.logical ▸ decided.entry, fun j inside => ?_⟩
  · by_cases here : s = i
    · rw [here, state, ← here]
      exact decided.leads
    · rw [applies.other here]
      exact decided.leads
  · by_cases here : s = i
    · rw [here, term, ← here]
      exact decided.term
    · rw [applies.other here]
      exact decided.term
  · by_cases here : j = i
    · rw [here, commit, ← here]
      exact decided.committed j inside
    · rw [applies.other here]
      exact decided.committed j inside
  · by_cases here : j = i
    · rw [here]
      exact Or.inl done
    · rw [applies.other here]
      exact (decided.reached j inside).imp_left (applies.applied _)

theorem all_apply (decided : Decided quorum s T N command started σ) :
    ∃ σ', Reaches quorum σ σ' ∧ Decided quorum s T N command started σ' ∧
      ∀ i ∈ quorum, (i, .command command N) ∈ σ'.applied := by
  have visit : ∀ i ∈ quorum.toList, ∀ σ : Cluster n C,
      Decided quorum s T N command started σ → ∃ σ', Reaches quorum σ σ' ∧
        Decided quorum s T N command started σ' ∧ (i, .command command N) ∈ σ'.applied ∧
        ∀ j, (j, .command command N) ∈ σ.applied → (j, .command command N) ∈ σ'.applied := by
    intro i member σ decided
    have inside := Finset.mem_toList.mp member
    rcases decided.reached i inside with done | young
    · exact ⟨σ, .refl, decided, done, fun _ => id⟩
    · obtain ⟨σ', drains, applies, -, -, all⟩ := decided.kept.applies_all i
      have done := all N _ young.1 young.2 (decided.committed i inside) (decided.entry i inside)
      have reaches := drains.reaches inside
      exact ⟨σ', reaches, decided.applies reaches applies done, done, fun j => applies.applied _⟩
  obtain ⟨σ', reaches, decided', -, all⟩ := Runs.sweep visit decided
  exact ⟨σ', reaches, decided', fun i inside => all i (Finset.mem_toList.mpr inside)⟩

end Decided

theorem Drive.decided {T N : Nat} {command : Option C}
    {started : List (Fin n × Nat × Nat × Option C)} (drive : Drive quorum s T N command started σ)
    (committed : ∀ i ∈ quorum, N ≤ (σ.nodes i).commitIndex) :
    Decided quorum s T N command started σ where
  kept := drive.kept
  leads := drive.leads
  term := drive.term
  started := drive.started
  committed := committed
  entry i inside :=
    (drive.kept.committed_entry (committed i inside) (committed s drive.member)).trans drive.own
  reached i inside := Or.inr (drive.young i inside)

end Cluster

/-- From any state of any run whose replies are handled in the term of their requests, a
majority of two or more servers can elect one of them, start a command there and apply it
everywhere among them, on their own and without a crash. -/
theorem majority_can_commit {trace : List (Cluster n C)} (run : Cluster.FreshReplyRun trace)
    {σ : Cluster n C} (member : σ ∈ trace) (quorum : Finset (Fin n))
    (majority : n < 2 * quorum.card) (several : 1 < n) (command : Option C) :
    ∃ σ' leader index term, Cluster.Reaches quorum σ σ' ∧ leader ∈ quorum ∧
      (σ'.nodes leader).state = .leader ∧ (σ'.nodes leader).currentTerm = term ∧
      σ'.started = (leader, index, term, command) :: σ.started ∧
      ∀ s ∈ quorum, index ≤ (σ'.nodes s).commitIndex ∧
        (s, .command command index) ∈ σ'.applied := by
  have kept := fresh_indexed run σ member
  obtain ⟨s, led, election, same, leads⟩ := Cluster.elects kept majority several
  obtain ⟨begun, starts, drive⟩ := leads.starts (kept.reaches election) several command
  obtain ⟨copied, copies, drive, known⟩ := drive.replicates
  obtain ⟨told, tells, drive, committed⟩ := drive.informs known (drive.decides majority known)
  obtain ⟨σ', applies, decided, applied⟩ := (drive.decided committed).all_apply
  refine ⟨σ', s, _, _, (((election.trans starts).trans copies).trans tells).trans applies,
    leads.member, decided.leads, decided.term, ?_, fun i inside =>
      ⟨decided.committed i inside, applied i inside⟩⟩
  rw [decided.started, same.started]

/-- Servers 0 and 2 get on even where the leader 0 cannot reach the compacted log of 2. -/
theorem majority_can_commit_unheard :
    ∃ trace : List (Cluster 3 Nat), Cluster.FreshReplyRun trace ∧ ∃ σ ∈ trace,
      (σ.nodes 0).state = .leader ∧ (σ.nodes 0).nextIndex 2 = (σ.nodes 2).lastIncludedIndex ∧
      ∃ σ' leader index, Cluster.Reaches { 0, 2 } σ σ' ∧
        (leader, .command (some 9) index) ∈ σ'.applied ∧
        (2, .command (some 9) index) ∈ σ'.applied := by
  obtain ⟨σ, past, run, checked⟩ := Runs.Run.ends Cluster.step Cluster.freshReply
    (Cluster.init 3 Nat) Raft.compactedUnheard
    (fun σ => decide ((σ.nodes 0).state = .leader ∧
      (σ.nodes 0).nextIndex 2 = (σ.nodes 2).lastIncludedIndex)) (by decide +kernel)
  obtain ⟨leads, stuck⟩ := of_decide_eq_true checked
  obtain ⟨σ', leader, index, _, reaches, inside, -, -, -, applied⟩ :=
    majority_can_commit run (List.mem_cons_self ..) { 0, 2 } (by decide) (by decide) (some 9)
  exact ⟨_, run, σ, List.mem_cons_self .., leads, stuck, σ', leader, index, reaches,
    (applied leader inside).2, (applied 2 (by decide)).2⟩

end KvStore
