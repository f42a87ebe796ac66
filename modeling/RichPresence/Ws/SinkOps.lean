import RichPresence.Ws.Transport

namespace RichPresence.Ws

open Lib

variable {α β : Type}

namespace Pump

/-- The clear waits for room while the clock, read once a lap, is before the
deadline: `laps` times. -/
def emitClearRetry (id : ClientId) (cmd : ActivityCmd) : (laps : Nat) → Pump Bool
  | 0 => do
      match ← tryEmit id cmd with
      | .sent => return true
      | .closed | .full _ =>
          countShed
          return false
  | laps + 1 => do
      match ← tryEmit id cmd with
      | .sent => return true
      | .closed =>
          countShed
          return false
      | .full _ => emitClearRetry id cmd laps

def clearOrStage (now : Nat) (id : ClientId) (published : PublishedSlot) : Pump Unit := do
  match ← tryEmit id (clearForSlot published) with
  | .sent => return
  | .full _ => stageClear now id published
  | .closed => countShed

theorem removeAndClear_eq (now : Nat) (id : ClientId) : removeAndClear now id = (do
    match ← remove id with
    | none => return
    | some slot =>
        flushPending
        forM slot.published (clearOrStage now id)) := rfl

end Pump

/-- The ways a command is handed to the sink, and the flush. Entries expire around
them, at any moment. -/
inductive SinkOp
  | emit (id : ClientId) (cmd : ActivityCmd)
  | emitOrStagePublish (now : Nat) (id : ClientId) (cmd : ActivityCmd)
  | stagePublish (now : Nat) (id : ClientId) (cmd : ActivityCmd)
  | stageClear (now : Nat) (id : ClientId) (published : PublishedSlot)
  | flushPending
  | emitClearRetry (id : ClientId) (cmd : ActivityCmd) (laps : Nat)
  | clearOrStage (now : Nat) (id : ClientId) (published : PublishedSlot)

namespace SinkOp

def script : SinkOp → Pump Unit
  | emit id cmd => do let _ ← Pump.emit id cmd
  | emitOrStagePublish now id cmd => do let _ ← Pump.emitOrStagePublish now id cmd
  | stagePublish now id cmd => Pump.stagePublish now id cmd
  | stageClear now id published => Pump.stageClear now id published
  | flushPending => Pump.flushPending
  | emitClearRetry id cmd laps => do let _ ← Pump.emitClearRetry id cmd laps
  | clearOrStage now id published => Pump.clearOrStage now id published

def handed : SinkOp → List ActivityCmd
  | emit _ cmd | emitOrStagePublish _ _ cmd | stagePublish _ _ cmd | emitClearRetry _ cmd _ => [cmd]
  | stageClear _ _ published | clearOrStage _ _ published => [clearForSlot published]
  | flushPending => []

end SinkOp

/-- The commands a call disposes of: it sends them, stages them or counts one it
was told of. -/
def Call.Settles : (c : Call) → c.Answer → List ActivityCmd → Prop
  | .emit _ cmd, _, l => l = [cmd]
  | .tryEmit _ cmd, .sent, l => l = [cmd]
  | .stagePublish _ _ cmd, _, l => l = [cmd]
  | .stageClear _ _ published, _, l => l = [clearForSlot published]
  | .countShed, _, l => l.length = 1
  | _, _, l => l = []

/-- A refused command comes back as it was. -/
def Call.Possible : (c : Call) → c.Answer → Prop
  | .tryEmit _ cmd, .full i => i.cmd = cmd
  | _, _ => True

/-- A script that disposes of these commands, whatever the answers it gets. -/
def Hands : Pump α → List ActivityCmd → Prop
  | .done _, l => l = []
  | .call c k, l => ∀ r, c.Possible r → ∃ now rest, c.Settles r now ∧ l = now ++ rest ∧ Hands (k r) rest

namespace Hands

theorem bind {p : Pump α} {g : α → Pump β} {l l' : List ActivityCmd} (hp : Hands p l) (hg : ∀ a, Hands (g a) l') :
    Hands (p >>= g) (l ++ l') := by
  induction p generalizing l with
  | done a =>
      obtain rfl := hp
      exact hg a
  | call c k ih =>
      intro r hr
      obtain ⟨now, rest, hs, rfl, hk⟩ := hp r hr
      exact ⟨now, rest ++ l', hs, List.append_assoc .., ih r hk⟩

theorem ignored {p : Pump α} {l : List ActivityCmd} (hp : Hands p l) : Hands (do let _ ← p) l := by
  have h : Hands (p >>= fun _ => (pure () : Pump Unit)) (l ++ []) := hp.bind fun _ => rfl
  rwa [List.append_nil] at h

theorem forM {γ : Type} {f : γ → Pump Unit} {g : γ → List ActivityCmd} (h : ∀ x, Hands (f x) (g x)) (xs : List γ) :
    Hands (forM xs f) (xs.flatMap g) := by
  induction xs with
  | nil => exact rfl
  | cons x xs ih => exact (h x).bind fun _ => ih

variable {id : ClientId} {cmd : ActivityCmd}

theorem emit : Hands (Pump.emit id cmd) [cmd] := fun _ _ => ⟨[cmd], [], rfl, rfl, rfl⟩

theorem stagePublish {now : Nat} : Hands (Pump.stagePublish now id cmd) [cmd] := fun _ _ => ⟨[cmd], [], rfl, rfl, rfl⟩

theorem stageClear {now : Nat} {published : PublishedSlot} :
    Hands (Pump.stageClear now id published) [clearForSlot published] := fun _ _ => ⟨[_], [], rfl, rfl, rfl⟩

theorem countShed (cmd : ActivityCmd) (a : α) : Hands (do Pump.countShed; return a) [cmd] :=
  fun _ _ => ⟨[cmd], [], rfl, rfl, rfl⟩

theorem tryEmit {g : TryEmit → Pump β} (hsent : Hands (g .sent) []) (hclosed : Hands (g .closed) [cmd])
    (hfull : ∀ i, i.cmd = cmd → Hands (g (.full i)) [cmd]) : Hands (Pump.tryEmit id cmd >>= g) [cmd] := by
  intro r hr
  cases r with
  | sent => exact ⟨[cmd], [], rfl, rfl, hsent⟩
  | closed => exact ⟨[], [cmd], rfl, rfl, hclosed⟩
  | full i => exact ⟨[], [cmd], rfl, rfl, hfull i hr⟩

theorem emitOrStagePublish {now : Nat} : Hands (Pump.emitOrStagePublish now id cmd) [cmd] := by
  refine tryEmit rfl (countShed cmd false) fun i hi => ?_
  rw [← hi]
  exact stagePublish.bind fun _ => rfl

theorem flushLoop (n : Nat) : Hands (Pump.flushLoop n) [] := by
  induction n with
  | zero => exact rfl
  | succ n ih =>
      intro more _
      refine ⟨[], [], rfl, rfl, ?_⟩
      cases more with
      | false => exact rfl
      | true => exact ih

theorem flushPending : Hands Pump.flushPending [] := fun n _ => ⟨[], [], rfl, rfl, flushLoop n⟩

theorem emitClearRetry (laps : Nat) : Hands (Pump.emitClearRetry id cmd laps) [cmd] := by
  induction laps with
  | zero => exact tryEmit rfl (countShed cmd false) fun _ _ => countShed cmd false
  | succ laps ih => exact tryEmit rfl (countShed cmd false) fun _ _ => ih

theorem clearOrStage {now : Nat} {published : PublishedSlot} :
    Hands (Pump.clearOrStage now id published) [clearForSlot published] :=
  tryEmit rfl (countShed _ ()) fun _ _ => stageClear

theorem script (op : SinkOp) : Hands op.script op.handed := by
  cases op with
  | emit id cmd => exact emit.ignored
  | emitOrStagePublish now id cmd => exact emitOrStagePublish.ignored
  | stagePublish now id cmd => exact stagePublish
  | stageClear now id published => exact stageClear
  | flushPending => exact flushPending
  | emitClearRetry id cmd laps => exact (emitClearRetry laps).ignored
  | clearOrStage now id published => exact clearOrStage

end Hands

end RichPresence.Ws
