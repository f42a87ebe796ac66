import Mathlib.Data.List.Basic

namespace RichPresence.Lib

/-- A bounded first-in first-out channel, with what its reader has taken so far,
oldest first. -/
structure Channel (α : Type) where
  queue : List α := []
  taken : List α := []
  deriving DecidableEq, Repr

namespace Channel

variable {α : Type}

def HasRoom (cap : Nat) (c : Channel α) : Prop := c.queue.length < cap

instance (cap : Nat) (c : Channel α) : Decidable (c.HasRoom cap) := inferInstanceAs (Decidable (_ < _))

def push (a : α) (c : Channel α) : Channel α := { c with queue := c.queue ++ [a] }

def trySend (cap : Nat) (a : α) (c : Channel α) : Option (Channel α) :=
  if c.HasRoom cap then some (c.push a) else none

def offer (cap : Nat) (a : α) (c : Channel α) : Channel α := (c.trySend cap a).getD c

def recv (c : Channel α) : Channel α :=
  match c.queue with
  | [] => c
  | a :: queue => ⟨queue, c.taken ++ [a]⟩

def carried (c : Channel α) : List α := c.taken ++ c.queue

@[simp] theorem carried_push (a : α) (c : Channel α) : (c.push a).carried = c.carried ++ [a] := by
  rw [carried, push, carried, List.append_assoc]

@[simp] theorem carried_recv (c : Channel α) : c.recv.carried = c.carried := by
  rw [carried, recv]
  split
  next => rfl
  next a queue hq => simp [carried, hq]

theorem recv_of_cons {a : α} {queue : List α} {c : Channel α} (h : c.queue = a :: queue) :
    c.recv = ⟨queue, c.taken ++ [a]⟩ := by
  rw [recv, h]

theorem length_push_le {cap : Nat} {a : α} {c : Channel α} (h : c.HasRoom cap) : (c.push a).queue.length ≤ cap := by
  rw [push, List.length_append, List.length_singleton]
  exact h

theorem length_recv_le (c : Channel α) : c.recv.queue.length ≤ c.queue.length := by
  rw [recv]
  split
  next => exact Nat.le_refl _
  next a queue hq => rw [hq]; exact Nat.le_succ _

theorem offer_of_room {cap : Nat} {a : α} {c : Channel α} (h : c.HasRoom cap) : c.offer cap a = c.push a := by
  rw [offer, trySend, if_pos h, Option.getD_some]

theorem offer_of_full {cap : Nat} {a : α} {c : Channel α} (h : ¬c.HasRoom cap) : c.offer cap a = c := by
  rw [offer, trySend, if_neg h, Option.getD_none]

end Channel

end RichPresence.Lib
