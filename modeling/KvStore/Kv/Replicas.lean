import KvStore.Kv.ExactlyOnce
import KvStore.Rsm.ReplicaState

set_option autoImplicit false

/-! The kvraft service as a replicated state machine: after any number of committed
requests it holds the plain versioned map of them, each Put counted once. -/

namespace KvStore.KvRaft

/-- The server as the replicated state machine calls it. A snapshot that does not
decode ends the process; the servers are only handed snapshots they have taken. -/
def machine (gob : Gob) : StateMachine KVServer Request Reply where
  init := KVServer.start
  doOp kv req := kv.doOp req
  snapshot kv := kv.snapshot gob
  restore data kv := (kv.restore gob data).getD kv

theorem machine_recoverable (gob : Gob) : (machine gob).Recoverable where
  restored kv other := by
    have back : (machine gob).restore ((machine gob).snapshot kv) other = kv := by
      simp only [machine, KVServer.restore_snapshot, Option.getD_some]
    rw [back]
    exact .refl kv
  empty kv nothing := absurd nothing (gob.encode_nonempty _)

variable {n : Nat}

/-- The log that a list of committed commands is to the server. -/
def requests (committed : List (Op n Request)) : List Entry := committed.map (.request ·.req)

theorem run_requests (gob : Gob) (committed : List (Op n Request)) :
    ∃ replies, KVServer.run gob (requests committed) =
      some (committed.foldl (fun sm op => ((machine gob).doOp sm op.req).1) (machine gob).init,
        replies) := by
  induction committed using List.reverseRecOn with
  | nil => exact ⟨[], rfl⟩
  | append_singleton committed op ih =>
    obtain ⟨replies, ran⟩ := ih
    rw [requests, List.map_append, List.map_singleton, KVServer.run_snoc, ← requests, ran,
      List.foldl_append]
    exact ⟨_, rfl⟩

theorem requests_take (committed : List (Op n Request)) (index : Nat) :
    requests (committed.take index) = (requests committed).take index := List.map_take ..

theorem Serialised.take {log : List Entry} (serial : Serialised log) (index : Nat) :
    Serialised (log.take index) := by
  rw [← List.take_append_drop index log] at serial
  exact serial.of_append

/-- The state after any number of committed commands refines the plain map. -/
theorem after_refines (gob : Gob) {committed : List (Op n Request)}
    (serial : Serialised (requests committed)) (index : Nat) :
    ∃ replies, Refines ((requests committed).take index)
      ((machine gob).after committed index) replies := by
  obtain ⟨kv, replies, ran, refines⟩ := run_refines gob _ (serial.take index)
  obtain ⟨replies', ran'⟩ := run_requests gob (committed.take index)
  rw [requests_take, ran] at ran'
  cases ran'
  exact ⟨replies, refines⟩

end KvStore.KvRaft
