import KvStore.Lib.Runs
import KvStore.Tester.ServerGrp

set_option autoImplicit false

/-! The demo's cluster manager cuts nodes of a group off the network and keeps a record of
them. The record agrees with the network as long as no node is recovered while another
one is cut off, and the group is not started with a node cut off. -/

namespace KvStore.Demo

open Tester Runs

/-- One group of the manager; `isolated` is its entry in the record of isolated nodes. -/
structure ClusterManager (n : Nat) where
  sg : ServerGrp n
  isolated : Fin n → Bool

/-- Node indices out of range are refused. -/
def index (n : Nat) (srv : Int) : Option (Fin n) :=
  if bounds : 0 ≤ srv ∧ srv.toNat < n then some ⟨srv.toNat, bounds.2⟩ else none

namespace ClusterManager

variable {n : Nat} {cm : ClusterManager n}

/-- The connected nodes besides `srv`. -/
def rest (cm : ClusterManager n) (srv : Fin n) : List (Fin n) :=
  (ServerGrp.all n).filter fun i => i ≠ srv && cm.sg.connected i

/-- Every call starts the group's record afresh. -/
def isolateNode (cm : ClusterManager n) (srv : Int) : ClusterManager n :=
  match index n srv with
  | none => cm
  | some srv => { sg := cm.sg.partition (cm.rest srv) [srv], isolated := fun i => i = srv }

/-- The nodes the node is connected to include those that are isolated. -/
def recoverNode (cm : ClusterManager n) (srv : Int) : ClusterManager n :=
  match index n srv with
  | none => cm
  | some srv =>
    { sg := cm.sg.partition (cm.rest srv ++ [srv]) []
      isolated := Function.update cm.isolated srv false }

def killServer (cm : ClusterManager n) (srv : Int) : ClusterManager n :=
  match index n srv with
  | none => cm
  | some srv => { cm with sg := cm.sg.shutdownServer srv }

/-- Cuts the recorded nodes off again. -/
def reapplyIsolation (cm : ClusterManager n) : ClusterManager n :=
  let online := (ServerGrp.all n).filter cm.sg.connected
  let isolated := online.filter fun i => cm.isolated i
  let rest := online.filter fun i => !cm.isolated i
  if isolated ≠ [] ∧ rest ≠ [] then { cm with sg := cm.sg.partition rest isolated } else cm

/-- `launched` says whether the daemon came up; if not, the node is not connected. -/
def startServer (cm : ClusterManager n) (srv : Int) (launched : Bool) : ClusterManager n :=
  match index n srv with
  | none => cm
  | some srv =>
    let (sg, started) := cm.sg.startServer srv launched
    if started then reapplyIsolation { cm with sg := sg.connectOne srv } else { cm with sg := sg }

def killGroup (cm : ClusterManager n) : ClusterManager n :=
  { cm with sg := cm.sg.shutdown }

/-- The isolation is not reapplied. -/
def startGroup (cm : ClusterManager n) (launched : Fin n → Bool) : ClusterManager n :=
  { cm with sg := cm.sg.startServers launched }

/-- A group right after `MakeGroupStart`. -/
def started (n : Nat) (launched : Fin n → Bool) : ClusterManager n :=
  { sg := (ServerGrp.make n).startServers launched, isolated := fun _ => false }

end ClusterManager

inductive Op (n : Nat) where
  | isolateNode (srv : Int)
  | recoverNode (srv : Int)
  | killServer (srv : Int)
  | startServer (srv : Int) (launched : Bool)
  | killGroup
  | startGroup (launched : Fin n → Bool)

namespace ClusterManager

variable {n : Nat} {cm after : ClusterManager n}

def step (cm : ClusterManager n) : Op n → Option (ClusterManager n)
  | .isolateNode srv => some (cm.isolateNode srv)
  | .recoverNode srv => some (cm.recoverNode srv)
  | .killServer srv => some (cm.killServer srv)
  | .startServer srv launched => some (cm.startServer srv launched)
  | .killGroup => some cm.killGroup
  | .startGroup launched => some (cm.startGroup launched)

/-- The node has no enabled end to another one, and no other one has one to it. -/
def Severed (sg : ServerGrp n) (i : Fin n) : Prop :=
  ∀ j, j ≠ i → sg.ends i j = false ∧ sg.ends j i = false

/-- Every node recorded as isolated is cut off from all others. -/
def RecordHolds (cm : ClusterManager n) : Prop :=
  ∀ i, cm.isolated i = true → Severed cm.sg i

/-- The calls that do not connect a node recorded as isolated: a node is recovered only
if no other recorded one is connected, and the group is started only if no node that has
a peer is recorded. -/
def Harmless (cm : ClusterManager n) : Op n → Prop
  | .recoverNode srv => ∀ j, index n srv = some j → ∀ i, i ≠ j → cm.isolated i = true →
      cm.sg.connected i = false
  | .startGroup _ => ∀ i, cm.isolated i = true → ∀ j, j = i
  | _ => True

instance decidableHarmless (cm : ClusterManager n) : (op : Op n) → Decidable (cm.Harmless op)
  | .isolateNode _ => instDecidableTrue
  | .recoverNode srv => inferInstanceAs (Decidable (∀ j, index n srv = some j → ∀ i, i ≠ j →
      cm.isolated i = true → cm.sg.connected i = false))
  | .killServer _ => instDecidableTrue
  | .startServer _ _ => instDecidableTrue
  | .killGroup => instDecidableTrue
  | .startGroup _ => inferInstanceAs (Decidable (∀ i, cm.isolated i = true → ∀ j, j = i))

/-- The state after any call: the record holds, it has at most one node, and enabled ends
are between connected nodes. -/
structure Sound (cm : ClusterManager n) : Prop where
  consistent : cm.sg.Consistent
  single : ∀ i j, cm.isolated i = true → cm.isolated j = true → i = j
  holds : cm.RecordHolds

/-- Ends that were not enabled before do not matter if none was enabled since. -/
theorem Severed.mono {sg sg' : ServerGrp n} {i : Fin n} (severed : Severed sg i)
    (fewer : ∀ a b, a = i ∨ b = i → sg'.ends a b = true → sg.ends a b = true) :
    Severed sg' i := by
  intro j other
  obtain ⟨outgoing, incoming⟩ := severed j other
  constructor
  · exact Bool.eq_false_iff.mpr fun enabled =>
      Bool.eq_false_iff.mp outgoing (fewer i j (Or.inl rfl) enabled)
  · exact Bool.eq_false_iff.mpr fun enabled =>
      Bool.eq_false_iff.mp incoming (fewer j i (Or.inr rfl) enabled)

/-- A node that is not on the net is cut off. -/
theorem severed_of_offline {sg : ServerGrp n} {i : Fin n} (consistent : sg.Consistent)
    (offline : sg.connected i = false) : Severed sg i := by
  intro j _
  have online : ¬ sg.connected i = true := Bool.eq_false_iff.mp offline
  constructor
  · exact Bool.eq_false_iff.mpr fun enabled => online (consistent i j enabled).1
  · exact Bool.eq_false_iff.mpr fun enabled => online (consistent j i enabled).2

/-- A partition with only `i` on one side and all other connected nodes on the other. -/
theorem partition_severs {sg : ServerGrp n} {i : Fin n} {p1 p2 : List (Fin n)}
    (consistent : sg.Consistent) (here : i ∈ p2) (alone : ∀ j ∈ p2, j = i)
    (others : ∀ j ∈ p1, j ≠ i) (covers : ∀ j, j ≠ i → sg.connected j = true → j ∈ p1) :
    Severed (sg.partition p1 p2) i := by
  intro j other
  have disjoint : ∀ k ∈ p1, k ∉ p2 := fun k first second => others k first (alone k second)
  by_cases listed : j ∈ p1
  · obtain ⟨outgoing, incoming⟩ := sg.partition_apart disjoint here listed
    exact ⟨Bool.eq_false_iff.mpr outgoing, Bool.eq_false_iff.mpr incoming⟩
  · -- a node on neither side is not connected, and gets no end
    have offline : ¬ sg.connected j = true := fun online => listed (covers j other online)
    have apart : j ∉ p2 := fun second => other (alone j second)
    constructor
    · refine Bool.eq_false_iff.mpr fun enabled => ?_
      rcases ServerGrp.partition_ends enabled with before | ⟨-, first⟩ | ⟨-, second⟩
      · exact offline (consistent i j before).2
      · exact listed first
      · exact apart second
    · refine Bool.eq_false_iff.mpr fun enabled => ?_
      rcases ServerGrp.partition_ends enabled with before | ⟨first, -⟩ | ⟨second, -⟩
      · exact offline (consistent j i before).1
      · exact listed first
      · exact apart second

theorem mem_rest {srv i : Fin n} : i ∈ cm.rest srv ↔ i ≠ srv ∧ cm.sg.connected i = true := by
  simp [rest, ServerGrp.all]

namespace Sound

theorem started (launched : Fin n → Bool) : (started n launched).Sound := by
  have consistent : (ServerGrp.make n).Consistent := by
    intro a b enabled
    cases enabled
  refine ⟨consistent.startServers launched, fun i j marked => ?_, fun i marked => ?_⟩
  · cases marked
  · cases marked

theorem isolateNode (sound : cm.Sound) (srv : Int) : (cm.isolateNode srv).Sound := by
  unfold ClusterManager.isolateNode
  cases index n srv with
  | none => exact sound
  | some srv =>
    refine ⟨sound.consistent.partition _ _, fun i j first second => ?_, fun i marked => ?_⟩
    · exact (of_decide_eq_true first).trans (of_decide_eq_true second).symm
    · obtain rfl : i = srv := of_decide_eq_true marked
      refine partition_severs sound.consistent (List.mem_singleton_self i)
        (fun j listed => List.mem_singleton.mp listed) (fun j listed => (mem_rest.mp listed).1)
        fun j other online => mem_rest.mpr ⟨other, online⟩

theorem recoverNode (sound : cm.Sound) {srv : Int} (harmless : cm.Harmless (.recoverNode srv)) :
    (cm.recoverNode srv).Sound := by
  unfold ClusterManager.recoverNode
  cases found : index n srv with
  | none => exact sound
  | some srv =>
    have marked : ∀ i, Function.update cm.isolated srv false i = true →
        i ≠ srv ∧ cm.isolated i = true := by
      intro i marked
      by_cases same : i = srv
      · rw [same, Function.update_self] at marked
        cases marked
      · rw [Function.update_of_ne same] at marked
        exact ⟨same, marked⟩
    refine ⟨sound.consistent.partition _ _, fun i j first second => ?_, fun i still => ?_⟩
    · exact sound.single i j (marked i first).2 (marked j second).2
    · -- a node that is still recorded is not connected, and on neither side
      obtain ⟨other, recorded⟩ := marked i still
      have offline := harmless srv found i other recorded
      have absent : i ∉ cm.rest srv ++ [srv] := by
        rw [List.mem_append, List.mem_singleton, mem_rest, offline]
        rintro (⟨-, online⟩ | same)
        · cases online
        · exact other same
      refine (sound.holds i recorded).mono fun a b touches enabled => ?_
      rcases ServerGrp.partition_ends enabled with before | ⟨first, second⟩ | ⟨none, -⟩
      · exact before
      · rcases touches with rfl | rfl
        · exact absurd first absent
        · exact absurd second absent
      · cases none

theorem killServer (sound : cm.Sound) (srv : Int) : (cm.killServer srv).Sound := by
  unfold ClusterManager.killServer
  cases index n srv with
  | none => exact sound
  | some srv =>
    refine ⟨sound.consistent.shutdownServer srv, sound.single, fun i marked => ?_⟩
    exact (sound.holds i marked).mono fun a b _ enabled =>
      (ServerGrp.shutdownServer_ends enabled).1

theorem killGroup (sound : cm.Sound) : cm.killGroup.Sound :=
  ⟨sound.consistent.kill _, sound.single, fun i marked =>
    (sound.holds i marked).mono fun _ _ _ enabled => ServerGrp.kill_ends enabled⟩

/-- Whatever the ends were, the recorded node is cut off afterwards. -/
theorem reapplyIsolation (consistent : cm.sg.Consistent)
    (single : ∀ i j, cm.isolated i = true → cm.isolated j = true → i = j) :
    cm.reapplyIsolation.Sound := by
  unfold ClusterManager.reapplyIsolation
  dsimp only
  have mem : ∀ {i wanted}, i ∈ ((ServerGrp.all n).filter cm.sg.connected).filter wanted ↔
      cm.sg.connected i = true ∧ wanted i = true := by
    intro i wanted
    rw [List.mem_filter, List.mem_filter]
    exact ⟨fun ⟨⟨_, online⟩, chosen⟩ => ⟨online, chosen⟩,
      fun ⟨online, chosen⟩ => ⟨⟨List.mem_finRange i, online⟩, chosen⟩⟩
  split
  · refine ⟨consistent.partition _ _, single, fun i marked => ?_⟩
    by_cases online : cm.sg.connected i = true
    · refine partition_severs consistent (mem.mpr ⟨online, marked⟩)
        (fun j listed => single j i (mem.mp listed).2 marked) (fun j listed same => ?_)
        fun j other connected => mem.mpr ⟨connected, ?_⟩
      · have clear := (mem.mp listed).2
        rw [same, marked] at clear
        cases clear
      · rw [Bool.not_eq_true', Bool.eq_false_iff]
        exact fun second => other (single j i second marked)
    · -- not connected, it is on neither side
      refine (severed_of_offline consistent (Bool.eq_false_iff.mpr online)).mono
        fun a b touches enabled => ?_
      rcases ServerGrp.partition_ends enabled with before | ⟨first, second⟩ | ⟨first, second⟩
      · exact before
      all_goals
        rcases touches with rfl | rfl
        · exact absurd (mem.mp first).1 online
        · exact absurd (mem.mp second).1 online
  · rename_i idle
    refine ⟨consistent, single, fun i marked => ?_⟩
    by_cases online : cm.sg.connected i = true
    · -- there is no other connected node
      intro j other
      have offline : ¬ cm.sg.connected j = true := by
        intro connected
        refine idle ⟨List.ne_nil_of_mem (mem.mpr ⟨online, marked⟩),
          List.ne_nil_of_mem (mem.mpr ⟨connected, ?_⟩)⟩
        rw [Bool.not_eq_true', Bool.eq_false_iff]
        exact fun second => other (single j i second marked)
      exact ⟨Bool.eq_false_iff.mpr fun enabled => offline (consistent i j enabled).2,
        Bool.eq_false_iff.mpr fun enabled => offline (consistent j i enabled).1⟩
    · exact severed_of_offline consistent (Bool.eq_false_iff.mpr online)

theorem startServer (sound : cm.Sound) (srv : Int) (launched : Bool) :
    (cm.startServer srv launched).Sound := by
  unfold ClusterManager.startServer
  cases index n srv with
  | none => exact sound
  | some srv =>
    dsimp only
    split
    · exact reapplyIsolation ((sound.consistent.startServer srv launched).connect srv _)
        sound.single
    · refine ⟨sound.consistent.startServer srv launched, sound.single, fun i marked => ?_⟩
      exact (sound.holds i marked).mono fun a b _ enabled => ServerGrp.startServer_ends enabled

theorem startGroup (sound : cm.Sound) {launched : Fin n → Bool}
    (harmless : cm.Harmless (.startGroup launched)) : (cm.startGroup launched).Sound :=
  ⟨sound.consistent.startServers launched, sound.single, fun i marked j other =>
    absurd (harmless i marked j) other⟩

theorem step (sound : cm.Sound) {op : Op n} (harmless : cm.Harmless op)
    (moved : cm.step op = some after) : after.Sound := by
  cases op with
  | isolateNode srv => exact Option.some.inj moved ▸ sound.isolateNode srv
  | recoverNode srv => exact Option.some.inj moved ▸ sound.recoverNode harmless
  | killServer srv => exact Option.some.inj moved ▸ sound.killServer srv
  | startServer srv launched => exact Option.some.inj moved ▸ sound.startServer srv launched
  | killGroup => exact Option.some.inj moved ▸ sound.killGroup
  | startGroup launched => exact Option.some.inj moved ▸ sound.startGroup harmless

end Sound

/-- Any other call enables an end of a recorded node. -/
theorem harmless_of_holds {op : Op n} (moved : cm.step op = some after)
    (holds : after.RecordHolds) : cm.Harmless op := by
  cases op with
  | recoverNode srv =>
    obtain rfl := Option.some.inj moved
    intro j found i other marked
    rw [recoverNode, found] at holds
    refine Bool.eq_false_iff.mpr fun online => ?_
    have joined : (cm.sg.partition (cm.rest j ++ [j]) []).ends i j = true :=
      ServerGrp.partition_joins (mem_rest.mpr ⟨other, online⟩) online
    have cut := (holds i ((Function.update_of_ne other ..).trans marked) j other.symm).1
    exact Bool.eq_false_iff.mp cut joined
  | startGroup launched =>
    obtain rfl := Option.some.inj moved
    intro i marked j
    by_contra other
    exact Bool.eq_false_iff.mp (holds i marked j other).1 (ServerGrp.connectAll_ends _ i j)
  | _ => trivial

/-- In every run of harmless calls on a started group of any size, the nodes recorded as
isolated are cut off in every state, and the next call keeps it so exactly if it is
harmless too. -/
theorem isolation_recorded {launched : Fin n → Bool} {trace : List (ClusterManager n)}
    (run : Run step Harmless (started n launched) trace) : ∀ cm ∈ trace, cm.RecordHolds ∧
      ∀ op after, cm.step op = some after → (after.RecordHolds ↔ cm.Harmless op) := by
  have sound := run.invariant (Sound.started launched)
    fun _ _ _ harmless moved before => before.step harmless moved
  intro cm member
  exact ⟨(sound cm member).holds, fun op after moved =>
    ⟨harmless_of_holds moved, fun harmless => ((sound cm member).step harmless moved).holds⟩⟩

/-- The first node of three. -/
def node0 : Fin 3 := ⟨0, by decide⟩

/-- The second node of three. -/
def node1 : Fin 3 := ⟨1, by decide⟩

/-- Node 0 is isolated and killed, node 1 recovered, and node 0 started again: it is
connected, recorded and cut off. -/
theorem isolation_recorded_restarted :
    ∃ trace : List (ClusterManager 3),
      Run step Harmless (started 3 fun _ => true) trace ∧ ∃ cm ∈ trace,
        cm.sg.connected node0 = true ∧ cm.isolated node0 = true ∧ Severed cm.sg node0 := by
  obtain ⟨cm, past, run, ended⟩ := Run.ends step (fun cm op => decide (cm.Harmless op))
    (started 3 fun _ => true)
    [.isolateNode 0, .killServer 0, .recoverNode 1, .startServer 0 true]
    (fun cm => cm.sg.connected node0 && cm.isolated node0) (by decide +kernel)
  rw [Bool.and_eq_true] at ended
  have run' := run.mono fun _ _ admitted => of_decide_eq_true admitted
  exact ⟨_, run', cm, List.mem_cons_self .., ended.1, ended.2,
    (isolation_recorded run' cm (List.mem_cons_self ..)).1 node0 ended.2⟩

/-- Node 0 is isolated. Then node 1 is recovered, or the group started: either way node 0
is still recorded as isolated and the end from it to node 1 is enabled. -/
theorem isolation_forgotten :
    (∃ cm past, Run step (fun _ _ => True) (started 3 fun _ => true) (cm :: past) ∧
      cm = ((started 3 fun _ => true).isolateNode 0).recoverNode 1 ∧
      cm.isolated node0 = true ∧ cm.sg.ends node0 node1 = true ∧ ¬ cm.RecordHolds) ∧
    ∃ cm past, Run step (fun _ _ => True) (started 3 fun _ => true) (cm :: past) ∧
      cm = ((started 3 fun _ => true).isolateNode 0).startGroup (fun _ => true) ∧
      cm.isolated node0 = true ∧ cm.sg.ends node0 node1 = true ∧ ¬ cm.RecordHolds := by
  have broken : ∀ cm : ClusterManager 3, cm.isolated node0 = true ∧ cm.sg.ends node0 node1 = true →
      cm.isolated node0 = true ∧ cm.sg.ends node0 node1 = true ∧ ¬ cm.RecordHolds := by
    rintro cm ⟨marked, enabled⟩
    refine ⟨marked, enabled, fun holds => ?_⟩
    rw [(holds node0 marked node1 (by decide)).1] at enabled
    cases enabled
  have first : (started 3 fun _ => true).step (.isolateNode 0) =
      some ((started 3 fun _ => true).isolateNode 0) := rfl
  have recovered : ((started 3 fun _ => true).isolateNode 0).step (.recoverNode 1) =
      some (((started 3 fun _ => true).isolateNode 0).recoverNode 1) := rfl
  have restarted : ((started 3 fun _ => true).isolateNode 0).step (.startGroup fun _ => true) =
      some (((started 3 fun _ => true).isolateNode 0).startGroup fun _ => true) := rfl
  constructor
  · exact ⟨_, _, (Run.start.step trivial first).step trivial recovered, rfl,
      broken _ (by decide +kernel)⟩
  · exact ⟨_, _, (Run.start.step trivial first).step trivial restarted, rfl,
      broken _ (by decide +kernel)⟩

end ClusterManager

end KvStore.Demo
