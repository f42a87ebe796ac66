import Mathlib.Algebra.Group.Nat.Defs
import RichPresence.Lib.Run

namespace RichPresence.Telemetry

open Lib

inductive SendChecked
  | sent
  | shed
  | closed
  deriving DecidableEq, Repr

/-- A call of `send` or `send_checked` by its next atomic step. A plain `send` that
fails returns the value, here `closed`. -/
inductive Sending (α : Type)
  | adding (value : α)
  | loading (value : α) (cap : UInt64)
  | swapping (value : α) (cap depth : UInt64)
  | pushing (value : α) (checked : Bool)
  | rollingBack (checked : Bool)
  | probing
  | shedding
  | returned (checked : Bool) (result : SendChecked)
  deriving DecidableEq, Repr

/-- The receiver: between two calls, behind the pop of one, or in its drop, which
clears the liveness flag first and then disconnects the channel. -/
inductive Receiving
  | idle
  | popped
  | dropping
  | gone
  deriving DecidableEq, Repr

/-- A gauge channel with the calls of its senders. The messages that were queued when
the receiver disconnected are counted as lost. -/
structure Gauge (α : Type) where
  depth : UInt64 := 0
  dropped : UInt64 := 0
  live : Bool := true
  queue : List α := []
  receiver : Receiving := .idle
  calls : List (Sending α) := []
  lost : Nat := 0
  deriving DecidableEq, Repr

inductive GaugeStep (α : Type)
  | send (value : α)
  | sendChecked (value : α) (cap : UInt64)
  | advance (call : Nat) (spurious : Bool)
  | pop
  | release
  | clearLive
  | disconnect

namespace Gauge

variable {α : Type}

/-- One atomic step of a call. The compare-exchange is a weak one: it may fail for no
reason. -/
def perform (g : Gauge α) (spurious : Bool) : Sending α → Sending α × Gauge α
  | .adding value => (.pushing value false, { g with depth := g.depth + 1 })
  | .loading value cap => (if g.depth ≥ cap then .probing else .swapping value cap g.depth, g)
  | .swapping value cap depth =>
      if g.depth = depth ∧ spurious = false then (.pushing value true, { g with depth := depth + 1 })
      else (.loading value cap, g)
  | .pushing value checked =>
      if g.receiver = .gone then (.rollingBack checked, g)
      else (.returned checked .sent, { g with queue := g.queue ++ [value] })
  | .rollingBack checked => (.returned checked .closed, { g with depth := g.depth - 1 })
  | .probing => (if g.live then .shedding else .returned true .closed, g)
  | .shedding => (.returned true .shed, { g with dropped := g.dropped + 1 })
  | .returned checked result => (.returned checked result, g)

def step (g : Gauge α) : GaugeStep α → Gauge α
  | .send value => { g with calls := g.calls ++ [.adding value] }
  | .sendChecked value cap => { g with calls := g.calls ++ [.loading value cap] }
  | .advance i spurious =>
      match g.calls[i]? with
      | some call => { (g.perform spurious call).2 with calls := g.calls.set i (g.perform spurious call).1 }
      | none => g
  | .pop =>
      match g.receiver, g.queue with
      | .idle, _ :: rest => { g with queue := rest, receiver := .popped }
      | _, _ => g
  | .release => if g.receiver = .popped then { g with depth := g.depth - 1, receiver := .idle } else g
  | .clearLive => if g.receiver = .idle then { g with live := false, receiver := .dropping } else g
  | .disconnect =>
      if g.receiver = .dropping then
        { g with queue := [], receiver := .gone, lost := g.lost + g.queue.length }
      else g

def run (steps : List (GaugeStep α)) : Gauge α := steps.foldl step {}

/-- The call has added to the depth, and its message is not queued yet. -/
def held : Sending α → Bool
  | .pushing _ _ | .rollingBack _ => true
  | _ => false

def popped : Receiving → Nat
  | .popped => 1
  | _ => 0

/-- Queued messages, increments without their message, and messages popped and not
subtracted. -/
def backlog (g : Gauge α) : Nat := g.queue.length + g.calls.countP held + popped g.receiver

def total (g : Gauge α) : Nat := g.backlog + g.lost

/-- The step is an increment: a plain one, or a compare-exchange that finds the depth
it loaded. -/
def Raises (g : Gauge α) : GaugeStep α → Prop
  | .advance i _ =>
      ∃ value, g.calls[i]? = some (.adding value) ∨ ∃ cap, g.calls[i]? = some (.swapping value cap g.depth)
  | _ => False

def Subtracts (g : Gauge α) : GaugeStep α → Prop
  | .advance i _ => ∃ checked, g.calls[i]? = some (.rollingBack checked)
  | .release => g.receiver = .popped
  | _ => False

end Gauge

namespace Gauge

variable {α : Type} {g : Gauge α}

theorem countP_set_add {p : Sending α → Bool} {calls : List (Sending α)} {i : Nat} {call : Sending α}
    (h : calls[i]? = some call) (next : Sending α) :
    (calls.set i next).countP p + (p call).toNat = calls.countP p + (p next).toNat := by
  obtain ⟨hi, rfl⟩ := List.getElem?_eq_some_iff.mp h
  have hle := List.boole_getElem_le_countP (p := p) hi
  rw [List.countP_set hi]
  cases hcall : p calls[i] with
  | false => cases p next <;> simp
  | true =>
      rw [hcall, if_pos rfl] at hle
      cases p next <;> simp <;> omega

/-- What a step does to the depth, it does to what the depth counts. -/
inductive Balanced (g : Gauge α) (e : GaugeStep α) (g' : Gauge α) : Prop
  | raised (hraises : g.Raises e) (hdepth : g'.depth = g.depth + 1) (htotal : g'.total = g.total + 1)
  | kept (hdepth : g'.depth = g.depth) (htotal : g'.total = g.total)
  | lowered (hdepth : g'.depth = g.depth - 1) (htotal : g'.total + 1 = g.total)

section Advance

variable {i : Nat} {spurious : Bool} {call next : Sending α}

theorem balanced_raise {depth : UInt64} (hcall : g.calls[i]? = some call) (hraises : g.Raises (.advance i spurious))
    (hheld : held call = false) (hnext : held next = true) (hdepth : depth = g.depth) :
    Balanced g (.advance i spurious) { g with depth := depth + 1, calls := g.calls.set i next } := by
  have hcount := countP_set_add (p := held) hcall next
  rw [hheld, hnext, Bool.toNat_true, Bool.toNat_false] at hcount
  refine .raised hraises (hdepth ▸ rfl) ?_
  simp only [total, backlog]
  omega

theorem balanced_keep {dropped : UInt64} (hcall : g.calls[i]? = some call) (hheld : held next = held call) :
    Balanced g (.advance i spurious) { g with dropped := dropped, calls := g.calls.set i next } := by
  have hcount := countP_set_add (p := held) hcall next
  rw [hheld] at hcount
  refine .kept rfl ?_
  simp only [total, backlog]
  omega

theorem balanced_advance (hcall : g.calls[i]? = some call) :
    Balanced g (.advance i spurious)
      { (g.perform spurious call).2 with calls := g.calls.set i (g.perform spurious call).1 } := by
  cases call with
  | adding value => exact balanced_raise hcall ⟨value, .inl hcall⟩ rfl rfl rfl
  | loading value cap =>
      refine balanced_keep hcall ?_
      rw [perform]
      dsimp only
      split <;> rfl
  | swapping value cap depth =>
      rw [perform]
      split
      next h =>
        obtain ⟨rfl, _⟩ := h
        exact balanced_raise hcall ⟨value, .inr ⟨cap, hcall⟩⟩ rfl rfl rfl
      next => exact balanced_keep hcall rfl
  | pushing value checked =>
      rw [perform]
      split
      next => exact balanced_keep hcall rfl
      next =>
        have hcount := countP_set_add (p := held) hcall (.returned checked .sent)
        simp only [held, Bool.toNat_true, Bool.toNat_false] at hcount
        refine .kept rfl ?_
        simp only [total, backlog, List.length_append, List.length_singleton]
        omega
  | rollingBack checked =>
      have hcount := countP_set_add (p := held) hcall (.returned checked .closed)
      simp only [held, Bool.toNat_true, Bool.toNat_false] at hcount
      refine .lowered rfl ?_
      simp only [total, backlog, perform]
      omega
  | probing =>
      refine balanced_keep hcall ?_
      rw [perform]
      dsimp only
      split <;> rfl
  | shedding => exact balanced_keep hcall rfl
  | returned checked result => exact balanced_keep hcall rfl

end Advance

theorem balanced_start {e : GaugeStep α} {call : Sending α} (hcall : held call = false) :
    Balanced g e { g with calls := g.calls ++ [call] } := by
  refine .kept rfl ?_
  simp only [total, backlog, List.countP_append, List.countP_singleton, hcall, Bool.false_eq_true, reduceIte]
  omega

theorem balanced_step (g : Gauge α) (e : GaugeStep α) : Balanced g e (g.step e) := by
  cases e with
  | send value => exact balanced_start rfl
  | sendChecked value cap => exact balanced_start rfl
  | advance i spurious =>
      rw [step]
      split
      next call hcall => exact balanced_advance hcall
      next => exact .kept rfl rfl
  | pop =>
      rw [step]
      split
      next value rest hidle hqueue =>
        refine .kept rfl ?_
        simp only [total, backlog, popped, hidle, hqueue, List.length_cons]
        omega
      next => exact .kept rfl rfl
  | release =>
      rw [step]
      split
      next hpopped =>
        refine .lowered rfl ?_
        simp only [total, backlog, popped, hpopped]
        omega
      next => exact .kept rfl rfl
  | clearLive =>
      rw [step]
      split
      next hidle =>
        refine .kept rfl ?_
        simp only [total, backlog, popped, hidle]
      next => exact .kept rfl rfl
  | disconnect =>
      rw [step]
      split
      next hdropping =>
        refine .kept rfl ?_
        simp only [total, backlog, popped, hdropping, List.length_nil]
        omega
      next => exact .kept rfl rfl

theorem ofNat_succ_sub_one (n : Nat) : UInt64.ofNat (n + 1) - 1 = .ofNat n := by
  rw [UInt64.ofNat_add]
  exact UInt64.add_sub_cancel ..

/-- The depth counts what it should, modulo its width. -/
def Exact (g : Gauge α) : Prop := g.depth = .ofNat g.total

theorem Exact.step (g : Gauge α) (e : GaugeStep α) (h : g.Exact) : (g.step e).Exact := by
  rw [Exact] at h ⊢
  cases balanced_step g e with
  | raised _ hdepth htotal =>
      rw [hdepth, htotal, UInt64.ofNat_add, ← h]
      rfl
  | kept hdepth htotal => rw [hdepth, htotal, h]
  | lowered hdepth htotal => rw [hdepth, h, ← htotal, ofNat_succ_sub_one]

theorem run_append (past rest : List (GaugeStep α)) : run (past ++ rest) = rest.foldl step (run past) :=
  List.foldl_append ..

theorem exact_run (steps : List (GaugeStep α)) : (run steps).Exact :=
  Along.invariant (P := fun _ _ => True) Exact (fun g e h _ => h.step g e) rfl (Along.of_forall fun _ _ => trivial)

theorem depth_eq_total (h : g.Exact) (hfits : g.total < 2 ^ 64) : g.depth.toNat = g.total := by
  rw [show g.depth = .ofNat g.total from h, UInt64.toNat_ofNat', Nat.mod_eq_of_lt hfits]

theorem total_pos_of_subtracts {e : GaugeStep α} (h : g.Subtracts e) : 0 < g.total := by
  cases e with
  | advance i spurious =>
      obtain ⟨checked, hcall⟩ := h
      have hpos : 0 < g.calls.countP held :=
        List.countP_pos_iff.mpr ⟨.rollingBack checked, List.mem_of_getElem? hcall, rfl⟩
      rw [total, backlog]
      omega
  | release =>
      have hpopped : popped g.receiver = 1 := by
        rw [show g.receiver = .popped from h]
        rfl
      rw [total, backlog]
      omega
  | send | sendChecked | pop | clearLive | disconnect => exact h.elim

end Gauge

end RichPresence.Telemetry
