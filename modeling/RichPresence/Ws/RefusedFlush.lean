import Mathlib.Data.List.Induction
import RichPresence.Ws.Transport

namespace RichPresence.Ws

open Lib

namespace Sink

/-- The first `n` staged commands have gone down the channel. -/
def handedOn (n : Nat) (s : Sink) : Sink :=
  { s with
    channel := { s.channel with queue := s.channel.queue ++ (s.pending.take n).map PendingEntry.issued }
    pending := s.pending.drop n }

variable {s : Sink}

theorem handedOn_zero (s : Sink) : s.handedOn 0 = s := by
  rw [handedOn, List.take_zero, List.map_nil, List.append_nil, List.drop_zero]

theorem handedOn_of_nil (h : s.pending = []) (n : Nat) : s.handedOn n = s := by
  rw [handedOn, h, List.take_nil, List.map_nil, List.append_nil, List.drop_nil]
  cases s
  cases h
  rfl

theorem handedOn_succ {entry : PendingEntry} {rest : List PendingEntry} (h : s.pending = entry :: rest) (n : Nat) :
    { s with channel := s.channel.push entry.issued, pending := rest }.handedOn n = s.handedOn (n + 1) := by
  rw [handedOn, handedOn, h, Channel.push, List.take_succ_cons, List.map_cons, List.drop_succ_cons]
  simp only [List.append_assoc, List.singleton_append]

theorem flushOne_full {cap : Nat} (hopen : s.closed = false) (hfull : cap ≤ s.channel.queue.length) :
    s.flushOne (some cap) = (false, s) := by
  rw [flushOne]
  split
  next => rfl
  next entry rest hp =>
    have hroom : ¬{ s with pending := rest }.HasRoom (some cap) := fun h => Nat.not_lt_of_le hfull (h.2 cap rfl)
    have hissued : entry.issued.cmd = entry.payload.intoCmd := rfl
    rw [tryEmit, if_neg hroom, if_neg (by simp [hopen])]
    simp only [hissued, PendingPayload.restaged_intoCmd]
    rw [← hp]

theorem flushOne_room {cap : Nat} {entry : PendingEntry} {rest : List PendingEntry} (hopen : s.closed = false)
    (hroom : s.channel.queue.length < cap) (hp : s.pending = entry :: rest) :
    s.flushOne (some cap) = (true, { s with channel := s.channel.push entry.issued, pending := rest }) := by
  have hhas : { s with pending := rest }.HasRoom (some cap) := by
    refine ⟨hopen, fun n hn => ?_⟩
    obtain rfl := Option.some.inj hn
    exact hroom
  rw [flushOne, hp]
  dsimp only
  rw [tryEmit, if_pos hhas]

end Sink

/-- A command is staged as it is, a clear as what is needed to make it again. -/
inductive Staging
  | publish (now : Nat) (cmd : Issued)
  | clear (now : Nat) (published : PublishedSlot) (number : Nat) (client : ClientId)

def Staging.issued : Staging → Issued
  | publish _ cmd => cmd
  | clear _ published number client => ⟨number, client, clearForSlot published⟩

namespace Sink

def staging (s : Sink) : Staging → Sink
  | .publish now cmd => s.stagePublish now cmd
  | .clear now published number client => s.stageClear now published number client

variable {s : Sink}

theorem pending_staging (h : s.pending.length ≤ maxPendingCommands) (e : Staging) :
    (s.staging e).pending.map PendingEntry.issued =
      (s.pending.map PendingEntry.issued).drop (s.pending.length + 1 - maxPendingCommands) ++ [e.issued] := by
  have hstage (entry : PendingEntry) : (s.stage entry).pending =
      s.pending.drop (s.pending.length + 1 - maxPendingCommands) ++ [entry] := by
    rw [stage]
    split
    next hfull => rw [Nat.le_antisymm h hfull, Nat.add_sub_cancel_left]
    next hroom =>
      rw [Nat.sub_eq_zero_of_le (Nat.lt_of_not_le hroom)]
      rfl
  cases e with
  | publish now cmd =>
      rw [staging, stagePublish, hstage, List.map_append, List.map_drop]
      rfl
  | clear now published number client =>
      rw [staging, stageClear, hstage, List.map_append, List.map_drop]
      rfl

/-- A queue that is filled by stagings holds the commands of the last ones, in order. -/
theorem pending_stagings (hempty : s.pending = []) (es : List Staging) :
    (es.foldl staging s).pending.map PendingEntry.issued =
      (es.map Staging.issued).drop (es.length - maxPendingCommands) := by
  induction es using List.reverseRecOn with
  | nil =>
      rw [List.foldl_nil, hempty]
      rfl
  | append_singleton es e ih =>
      have hlen := congrArg List.length ih
      rw [List.length_map, List.length_drop, List.length_map] at hlen
      have hle : es.length + 1 - maxPendingCommands ≤ (es.map Staging.issued).length := by
        rw [List.length_map, maxPendingCommands]
        omega
      have hkept : es.length - maxPendingCommands +
          (es.length - (es.length - maxPendingCommands) + 1 - maxPendingCommands) =
            es.length + 1 - maxPendingCommands := by omega
      rw [List.foldl_concat, pending_staging (by omega), ih, hlen, List.drop_drop, hkept, List.map_append,
        List.map_singleton, List.length_append, List.length_singleton, List.drop_append_of_le_length hle]

end Sink

namespace Transport

variable {t : Transport}

theorem run_flush (cap : Option Nat) (t : Transport) :
    Script.run (act cap) Pump.flush t = ((t.sink.flushOne cap).1, { t with sink := (t.sink.flushOne cap).2 }) := rfl

theorem run_flushLoop {turns : Nat} (hopen : t.sink.closed = false) (hturns : t.sink.pending.length ≤ turns)
    (n : Nat) : Script.run (act (some (t.sink.channel.queue.length + n))) (Pump.flushLoop turns) t =
      ((), { t with sink := t.sink.handedOn n }) := by
  -- the room shrinks with the turns that remain, and the state is what the first turns handed on
  induction turns generalizing t n with
  | zero =>
      have hp := List.length_eq_zero_iff.mp (Nat.le_zero.mp hturns)
      rw [Sink.handedOn_of_nil hp]
      rfl
  | succ turns ih =>
      rw [Pump.flushLoop, Script.run_bind, run_flush]
      cases hp : t.sink.pending with
      | nil =>
          have hnone : t.sink.flushOne (some (t.sink.channel.queue.length + n)) = (false, t.sink) := by
            rw [Sink.flushOne, hp]
          rw [hnone, Sink.handedOn_of_nil hp]
          rfl
      | cons entry rest =>
          rw [hp] at hturns
          cases n with
          | zero =>
              rw [Nat.add_zero, Sink.flushOne_full hopen (Nat.le_refl _), Sink.handedOn_zero]
              rfl
          | succ n =>
              have hroom : t.sink.channel.queue.length + (n + 1) =
                  (t.sink.channel.push entry.issued).queue.length + n := by
                rw [Channel.push, List.length_append, List.length_singleton]
                omega
              rw [Sink.flushOne_room hopen (by omega) hp, ← Sink.handedOn_succ hp n, hroom]
              let sent : Sink := { t.sink with channel := t.sink.channel.push entry.issued, pending := rest }
              exact @ih { t with sink := sent } hopen (Nat.le_of_succ_le_succ hturns) n

theorem run_flushPending_full {cap : Nat} (hopen : t.sink.closed = false)
    (hfull : cap ≤ t.sink.channel.queue.length) : Script.run (act (some cap)) Pump.flushPending t = ((), t) := by
  rw [Pump.flushPending, Script.run_bind]
  change Script.run (act (some cap)) (Pump.flushLoop t.sink.pending.length) t = _
  cases t.sink.pending.length with
  | zero => rfl
  | succ turns =>
      rw [Pump.flushLoop, Script.run_bind, run_flush, Sink.flushOne_full hopen hfull]
      rfl

/-- A flush that finds no room leaves everything as it was. One that does hands on as many staged
commands as there is room for, oldest first, and leaves the others as they were staged. -/
theorem flushPending_exact (t : Transport) (hopen : t.sink.closed = false) :
    (∀ cap ≤ t.sink.channel.queue.length, Script.run (act (some cap)) Pump.flushPending t = ((), t)) ∧
    ∀ n, Script.run (act (some (t.sink.channel.queue.length + n))) Pump.flushPending t =
      ((), { t with
        sink := { t.sink with
          channel := { t.sink.channel with
            queue := t.sink.channel.queue ++ (t.sink.pending.take n).map PendingEntry.issued }
          pending := t.sink.pending.drop n } }) := by
  refine ⟨fun cap hfull => run_flushPending_full hopen hfull, fun n => ?_⟩
  rw [Pump.flushPending, Script.run_bind]
  exact run_flushLoop hopen (Nat.le_refl _) n

def parked : Transport where
  sink := [Staging.publish 0 ⟨0, 1, { cmd := "SET_ACTIVITY" }⟩,
    Staging.clear 5 ⟨some ⟨"app-7"⟩, 9, .string "n9"⟩ 1 1].foldl Sink.staging {}

theorem flushPending_exact_parked :
    parked.sink.closed = false ∧ Script.run (act (some 0)) Pump.flushPending parked = ((), parked) ∧
      (Script.run (act (some 1)) Pump.flushPending parked).2.sink.pending =
        [⟨.clear ⟨some ⟨"app-7"⟩, 9, .string "n9"⟩, 1005, 1, 1⟩] := by
  obtain ⟨hfull, hroom⟩ := flushPending_exact parked rfl
  refine ⟨rfl, hfull 0 (Nat.zero_le _), ?_⟩
  rw [show 1 = parked.sink.channel.queue.length + 1 from rfl, hroom 1]
  rfl

end Transport

end RichPresence.Ws
