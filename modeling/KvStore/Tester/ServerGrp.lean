import Mathlib.Data.List.FinRange
import Mathlib.Data.List.Induction
import Mathlib.Logic.Function.Basic
import Mathlib.Tactic.Common

set_option autoImplicit false

/-! The test harness's group of servers: which servers are on the net, and which of the
ends between them the network lets messages through. -/

namespace KvStore.Tester

/-- For every server the end it has for every other, and whether the network has it
enabled. -/
abbrev Ends (n : Nat) := Fin n → Fin n → Bool

namespace Ends

variable {n : Nat}

/-- `net.Enable` of one end. -/
def enable (ends : Ends n) (source target : Fin n) (on : Bool) : Ends n :=
  Function.update ends source (Function.update (ends source) target on)

/-- `net.Enable` of one end after the other. -/
def enableEach (ends : Ends n) (on : Bool) (pairs : List (Fin n × Fin n)) : Ends n :=
  pairs.foldl (fun ends pair => ends.enable pair.1 pair.2 on) ends

@[simp] theorem enable_apply (ends : Ends n) (source target : Fin n) (on : Bool) (a b : Fin n) :
    ends.enable source target on a b = if (a, b) = (source, target) then on else ends a b := by
  rw [enable, Function.update_apply]
  by_cases first : a = source
  · subst first
    by_cases second : b = target <;> simp [second]
  · simp [first]

@[simp] theorem enableEach_apply (pairs : List (Fin n × Fin n)) (ends : Ends n) (on : Bool)
    (a b : Fin n) :
    ends.enableEach on pairs a b = if (a, b) ∈ pairs then on else ends a b := by
  induction pairs generalizing ends with
  | nil => rfl
  | cons pair rest ih =>
    have last := ih (ends.enable pair.1 pair.2 on)
    rw [enable_apply] at last
    rw [enableEach, List.foldl_cons, ← enableEach, last]
    by_cases later : (a, b) ∈ rest
    · simp [later]
    · simp [later]

end Ends

/-- `running` says whether the server's daemon runs. A restarted server has ends of its
own; `ends` are those it has now. -/
structure ServerGrp (n : Nat) where
  connected : Fin n → Bool
  running : Fin n → Bool
  ends : Ends n

namespace ServerGrp

variable {n : Nat} {sg : ServerGrp n}

/-- `makeSrvGrp`: new ends are disabled. -/
def make (n : Nat) : ServerGrp n :=
  { connected := fun _ => false, running := fun _ => false, ends := fun _ _ => false }

def all (n : Nat) : List (Fin n) := List.finRange n

/-- Attach server `i` to those of the servers in `peers` that are connected. -/
def connect (sg : ServerGrp n) (i : Fin n) (peers : List (Fin n)) : ServerGrp n :=
  let connected := Function.update sg.connected i true
  let online := peers.filter connected
  { sg with
    connected := connected
    ends := (sg.ends.enableEach true (online.map fun j => (i, j))).enableEach true
      (online.map fun j => (j, i)) }

/-- Detach server `i` from the servers in `peers`. -/
def disconnect (sg : ServerGrp n) (i : Fin n) (peers : List (Fin n)) : ServerGrp n :=
  { sg with
    connected := Function.update sg.connected i false
    ends := (sg.ends.enableEach false (peers.map fun j => (i, j))).enableEach false
      (peers.map fun j => (j, i)) }

def connectOne (sg : ServerGrp n) (i : Fin n) : ServerGrp n := sg.connect i (all n)

def connectAll (sg : ServerGrp n) : ServerGrp n := (all n).foldl connectOne sg

/-- What `Partition` does with the servers of one side. -/
def side (sg : ServerGrp n) (servers apart together : List (Fin n)) : ServerGrp n :=
  servers.foldl (fun sg i => (sg.disconnect i apart).connect i together) sg

def partition (sg : ServerGrp n) (p1 p2 : List (Fin n)) : ServerGrp n :=
  (sg.side p1 p2 p1).side p2 p1 p2

/-- A server that runs is left alone; `launched` says whether the new daemon came up. -/
def startServer (sg : ServerGrp n) (i : Fin n) (launched : Bool) : ServerGrp n × Bool :=
  if sg.running i then (sg, true)
  else
    ({ sg with
        running := Function.update sg.running i launched
        ends := Function.update sg.ends i fun _ => false }, launched)

/-- Its errors are not looked at. -/
def startSrvs (sg : ServerGrp n) (srvs : List (Fin n)) (launched : Fin n → Bool) : ServerGrp n :=
  srvs.foldl (fun sg i => (sg.startServer i (launched i)).1) sg

def startServers (sg : ServerGrp n) (launched : Fin n → Bool) : ServerGrp n :=
  (sg.startSrvs (all n) launched).connectAll

def shutdownServer (sg : ServerGrp n) (i : Fin n) : ServerGrp n :=
  let sg := sg.disconnect i (all n)
  { sg with running := Function.update sg.running i false }

def kill (sg : ServerGrp n) (srvs : List (Fin n)) : ServerGrp n :=
  srvs.foldl shutdownServer sg

def shutdown (sg : ServerGrp n) : ServerGrp n := sg.kill (all n)

theorem connect_ends (sg : ServerGrp n) (i : Fin n) (peers : List (Fin n)) (a b : Fin n) :
    (sg.connect i peers).ends a b = true ↔
      sg.ends a b = true ∨
        (a = i ∧ b ∈ peers ∧ (sg.connect i peers).connected b = true) ∨
        (b = i ∧ a ∈ peers ∧ (sg.connect i peers).connected a = true) := by
  dsimp only [connect]
  rw [Ends.enableEach_apply, Ends.enableEach_apply]
  simp only [List.mem_map, List.mem_filter, Prod.mk.injEq]
  split
  · rename_i incoming
    obtain ⟨j, ⟨listed, online⟩, rfl, rfl⟩ := incoming
    simp only [listed, online, and_self, or_true]
  · rename_i incoming
    split
    · rename_i outgoing
      obtain ⟨j, ⟨listed, online⟩, rfl, rfl⟩ := outgoing
      simp only [listed, online, and_self, true_or, or_true]
    · rename_i outgoing
      refine ⟨Or.inl, fun held => ?_⟩
      rcases held with held | ⟨rfl, listed, online⟩ | ⟨rfl, listed, online⟩
      · exact held
      · exact absurd ⟨b, ⟨listed, online⟩, rfl, rfl⟩ outgoing
      · exact absurd ⟨a, ⟨listed, online⟩, rfl, rfl⟩ incoming

theorem disconnect_ends (sg : ServerGrp n) (i : Fin n) (peers : List (Fin n)) (a b : Fin n) :
    (sg.disconnect i peers).ends a b = true ↔
      sg.ends a b = true ∧ ¬ (a = i ∧ b ∈ peers) ∧ ¬ (b = i ∧ a ∈ peers) := by
  dsimp only [disconnect]
  rw [Ends.enableEach_apply, Ends.enableEach_apply]
  simp only [List.mem_map, Prod.mk.injEq]
  split
  · rename_i incoming
    obtain ⟨j, listed, rfl, rfl⟩ := incoming
    simp [listed]
  · rename_i incoming
    split
    · rename_i outgoing
      obtain ⟨j, listed, rfl, rfl⟩ := outgoing
      simp [listed]
    · rename_i outgoing
      refine ⟨fun held => ⟨held, ?_, ?_⟩, And.left⟩
      · rintro ⟨rfl, listed⟩
        exact outgoing ⟨b, listed, rfl, rfl⟩
      · rintro ⟨rfl, listed⟩
        exact incoming ⟨a, listed, rfl, rfl⟩

/-- An enabled end is one between two servers that are on the net. -/
def Consistent (sg : ServerGrp n) : Prop :=
  ∀ a b, sg.ends a b = true → sg.connected a = true ∧ sg.connected b = true

theorem connect_connected (sg : ServerGrp n) (i : Fin n) (peers : List (Fin n)) (a : Fin n) :
    (sg.connect i peers).connected a = true ↔ a = i ∨ sg.connected a = true := by
  change Function.update sg.connected i true a = true ↔ _
  rw [Function.update_apply]
  split <;> simp_all

/-- It is enough that the ends enabled before are between servers on the net now. -/
theorem connect_consistent {i : Fin n} {peers : List (Fin n)}
    (old : ∀ a b, sg.ends a b = true →
      (sg.connect i peers).connected a = true ∧ (sg.connect i peers).connected b = true) :
    (sg.connect i peers).Consistent := by
  have self : (sg.connect i peers).connected i = true := (connect_connected ..).mpr (Or.inl rfl)
  intro a b enabled
  rcases (connect_ends ..).mp enabled with before | ⟨rfl, -, online⟩ | ⟨rfl, -, online⟩
  · exact old a b before
  · exact ⟨self, online⟩
  · exact ⟨online, self⟩

theorem Consistent.connect (sound : sg.Consistent) (i : Fin n) (peers : List (Fin n)) :
    (sg.connect i peers).Consistent := by
  refine connect_consistent fun a b enabled => ?_
  obtain ⟨source, target⟩ := sound a b enabled
  exact ⟨(connect_connected ..).mpr (Or.inr source), (connect_connected ..).mpr (Or.inr target)⟩

theorem Consistent.connectAll (sound : sg.Consistent) : sg.connectAll.Consistent := by
  unfold ServerGrp.connectAll
  induction all n generalizing sg with
  | nil => exact sound
  | cons i rest ih => exact ih (sound.connect i (all n))

/-- After `ConnectAll` every server is on the net and every end enabled. The servers
connected so far are the induction's invariant: each is joined to those before it. -/
theorem connectAll_ends (sg : ServerGrp n) (a b : Fin n) : sg.connectAll.ends a b = true := by
  have joined : ∀ servers : List (Fin n), ∀ a ∈ servers,
      (servers.foldl connectOne sg).connected a = true ∧
        ∀ b ∈ servers, (servers.foldl connectOne sg).ends a b = true := by
    intro servers
    induction servers using List.reverseRecOn with
    | nil => simp
    | append_singleton servers i ih =>
      rw [List.foldl_concat]
      have online : ∀ a ∈ servers ++ [i],
          ((servers.foldl connectOne sg).connectOne i).connected a = true := by
        intro a listed
        refine (connect_connected ..).mpr ?_
        rcases List.mem_append.mp listed with before | last
        · exact Or.inr (ih a before).1
        · exact Or.inl (List.mem_singleton.mp last)
      refine fun a here => ⟨online a here, fun b there => (connect_ends ..).mpr ?_⟩
      rcases List.mem_append.mp here with before | last
      · rcases List.mem_append.mp there with before' | last'
        · exact Or.inl ((ih a before).2 b before')
        · exact Or.inr (Or.inr ⟨List.mem_singleton.mp last', List.mem_finRange a, online a here⟩)
      · exact Or.inr (Or.inl ⟨List.mem_singleton.mp last, List.mem_finRange b, online b there⟩)
  exact (joined (all n) a (List.mem_finRange a)).2 b (List.mem_finRange b)

/-- A restarted server has only disabled ends. -/
theorem startServer_ends {i a b : Fin n} {launched : Bool}
    (enabled : (sg.startServer i launched).1.ends a b = true) : sg.ends a b = true := by
  unfold startServer at enabled
  split at enabled
  · exact enabled
  · change Function.update sg.ends i (fun _ => false) a b = true at enabled
    by_cases restarted : a = i
    · rw [restarted, Function.update_self] at enabled
      cases enabled
    · rwa [Function.update_of_ne restarted] at enabled

theorem Consistent.startServer (sound : sg.Consistent) (i : Fin n) (launched : Bool) :
    (sg.startServer i launched).1.Consistent := by
  have same : (sg.startServer i launched).1.connected = sg.connected := by
    unfold ServerGrp.startServer
    split <;> rfl
  intro a b enabled
  rw [same]
  exact sound a b (startServer_ends enabled)

theorem Consistent.startServers (sound : sg.Consistent) (launched : Fin n → Bool) :
    (sg.startServers launched).Consistent := by
  refine Consistent.connectAll ?_
  unfold startSrvs
  induction all n generalizing sg with
  | nil => exact sound
  | cons i rest ih => exact ih (sound.startServer i (launched i))

/-- A server taken from the net has no enabled end left, and no other gets one. -/
theorem shutdownServer_ends {i a b : Fin n} (enabled : (sg.shutdownServer i).ends a b = true) :
    sg.ends a b = true ∧ a ≠ i ∧ b ≠ i := by
  obtain ⟨before, outgoing, incoming⟩ := (disconnect_ends ..).mp enabled
  exact ⟨before, fun same => outgoing ⟨same, List.mem_finRange b⟩,
    fun same => incoming ⟨same, List.mem_finRange a⟩⟩

theorem Consistent.shutdownServer (sound : sg.Consistent) (i : Fin n) :
    (sg.shutdownServer i).Consistent := by
  intro a b enabled
  obtain ⟨before, source, target⟩ := shutdownServer_ends enabled
  change Function.update sg.connected i false a = true ∧
    Function.update sg.connected i false b = true
  rw [Function.update_of_ne source, Function.update_of_ne target]
  exact sound a b before

theorem Consistent.kill (sound : sg.Consistent) (srvs : List (Fin n)) :
    (sg.kill srvs).Consistent := by
  unfold ServerGrp.kill
  induction srvs generalizing sg with
  | nil => exact sound
  | cons i rest ih => exact ih (sound.shutdownServer i)

theorem kill_ends {srvs : List (Fin n)} {a b : Fin n} (enabled : (sg.kill srvs).ends a b = true) :
    sg.ends a b = true := by
  unfold ServerGrp.kill at enabled
  induction srvs generalizing sg with
  | nil => exact enabled
  | cons i rest ih => exact (shutdownServer_ends (ih enabled)).1

section Partition

variable {i a b : Fin n} {servers apart together p1 p2 : List (Fin n)}

/-- One pass of a loop of `Partition`. -/
theorem rejoin_ends (enabled : ((sg.disconnect i apart).connect i together).ends a b = true) :
    (sg.ends a b = true ∧ ¬ (a = i ∧ b ∈ apart) ∧ ¬ (b = i ∧ a ∈ apart)) ∨
      (a = i ∧ b ∈ together) ∨ (b = i ∧ a ∈ together) := by
  rcases (connect_ends ..).mp enabled with before | ⟨source, listed, -⟩ | ⟨target, listed, -⟩
  · exact Or.inl ((disconnect_ends ..).mp before)
  · exact Or.inr (Or.inl ⟨source, listed⟩)
  · exact Or.inr (Or.inr ⟨target, listed⟩)

theorem rejoin_connected :
    ((sg.disconnect i apart).connect i together).connected a = true ↔
      a = i ∨ sg.connected a = true := by
  rw [connect_connected]
  change _ ∨ Function.update sg.connected i false a = true ↔ _
  by_cases same : a = i
  · simp [same]
  · rw [Function.update_of_ne same]

theorem Consistent.rejoin (sound : sg.Consistent) :
    ((sg.disconnect i apart).connect i together).Consistent := by
  refine connect_consistent fun a b enabled => ?_
  obtain ⟨source, target⟩ := sound a b ((disconnect_ends ..).mp enabled).1
  exact ⟨rejoin_connected.mpr (Or.inr source), rejoin_connected.mpr (Or.inr target)⟩

theorem Consistent.side (sound : sg.Consistent) : (sg.side servers apart together).Consistent := by
  unfold ServerGrp.side
  induction servers generalizing sg with
  | nil => exact sound
  | cons i rest ih => exact ih sound.rejoin

theorem Consistent.partition (sound : sg.Consistent) (p1 p2 : List (Fin n)) :
    (sg.partition p1 p2).Consistent :=
  sound.side.side

theorem side_connected (online : sg.connected a = true) :
    (sg.side servers apart together).connected a = true := by
  unfold side
  induction servers generalizing sg with
  | nil => exact online
  | cons i rest ih => exact ih (rejoin_connected.mpr (Or.inr online))

/-- With nobody on the other side, the last server is joined to every connected one. -/
theorem partition_joins (listed : a ∈ servers) (online : sg.connected a = true) :
    (sg.partition (servers ++ [i]) []).ends a i = true := by
  change (sg.side (servers ++ [i]) [] (servers ++ [i])).ends a i = true
  rw [side, List.foldl_concat]
  exact (connect_ends ..).mpr (Or.inr (Or.inr ⟨rfl, List.mem_append_left _ listed,
    rejoin_connected.mpr (Or.inr (side_connected online))⟩))

/-- The ends a side gets are between its own servers. -/
theorem side_ends (inside : ∀ i ∈ servers, i ∈ together)
    (enabled : (sg.side servers apart together).ends a b = true) :
    sg.ends a b = true ∨ (a ∈ together ∧ b ∈ together) := by
  unfold side at enabled
  induction servers generalizing sg with
  | nil => exact Or.inl enabled
  | cons i rest ih =>
    rw [List.forall_mem_cons] at inside
    rcases ih inside.2 enabled with before | new
    · rcases rejoin_ends before with ⟨held, -⟩ | ⟨rfl, listed⟩ | ⟨rfl, listed⟩
      · exact Or.inl held
      · exact Or.inr ⟨inside.1, listed⟩
      · exact Or.inr ⟨listed, inside.1⟩
    · exact Or.inr new

/-- The servers of a side lose their ends to and from the other side. -/
theorem side_apart (inside : ∀ i ∈ servers, i ∈ together) (disjoint : ∀ j ∈ apart, j ∉ together)
    (here : a ∈ servers) (there : b ∈ apart) :
    ¬ (sg.side servers apart together).ends a b = true ∧
      ¬ (sg.side servers apart together).ends b a = true := by
  unfold side
  induction servers generalizing sg with
  | nil => cases here
  | cons i rest ih =>
    rw [List.forall_mem_cons] at inside
    rcases List.mem_cons.mp here with rfl | later
    · -- this pass disables the ends, and no later pass has a server of the other side
      have elsewhere : b ∉ together := disjoint b there
      have other : b ≠ a := fun same => elsewhere (same ▸ inside.1)
      refine ⟨fun enabled => ?_, fun enabled => ?_⟩
      · rcases side_ends inside.2 enabled with before | ⟨-, new⟩
        · rcases rejoin_ends before with ⟨-, apart, -⟩ | ⟨-, listed⟩ | ⟨same, -⟩
          · exact apart ⟨rfl, there⟩
          · exact elsewhere listed
          · exact other same
        · exact elsewhere new
      · rcases side_ends inside.2 enabled with before | ⟨new, -⟩
        · rcases rejoin_ends before with ⟨-, -, apart⟩ | ⟨same, -⟩ | ⟨-, listed⟩
          · exact apart ⟨rfl, there⟩
          · exact other same
          · exact elsewhere listed
        · exact elsewhere new
    · exact ih inside.2 later

/-- What `Partition` enables is within one of its sides. -/
theorem partition_ends (enabled : (sg.partition p1 p2).ends a b = true) :
    sg.ends a b = true ∨ (a ∈ p1 ∧ b ∈ p1) ∨ (a ∈ p2 ∧ b ∈ p2) := by
  rcases side_ends (fun _ listed => listed) enabled with first | second
  · rcases side_ends (fun _ listed => listed) first with before | first
    · exact Or.inl before
    · exact Or.inr (Or.inl first)
  · exact Or.inr (Or.inr second)

theorem partition_apart (sg : ServerGrp n) (disjoint : ∀ j ∈ p1, j ∉ p2) (here : a ∈ p2)
    (there : b ∈ p1) :
    ¬ (sg.partition p1 p2).ends a b = true ∧ ¬ (sg.partition p1 p2).ends b a = true :=
  side_apart (fun _ listed => listed) disjoint here there

end Partition

end ServerGrp

end KvStore.Tester
