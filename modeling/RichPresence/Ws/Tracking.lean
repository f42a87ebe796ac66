import Mathlib.Data.Finset.Card
import RichPresence.Lib.Triple
import RichPresence.Ws.Session
import RichPresence.Ws.SinkOps

namespace RichPresence

/-- The pids that hold a publish, after one more command of a connection and whether
it was forwarded. A command without arguments is neither a publish nor a clear. -/
def holdAfter (held : Finset Nat) : ActivityCmd × Bool → Finset Nat
  | (_, false) => held
  | (cmd, true) =>
      if cmd.activity.isSome then insert cmd.pid held
      else if cmd.args.isSome then held.erase cmd.pid
      else held

/-- The pids with a forwarded publish that no forwarded clear of theirs followed. -/
def heldBy (log : List (ActivityCmd × Bool)) : Finset Nat := log.foldl holdAfter ∅

@[simp] theorem heldBy_concat (log : List (ActivityCmd × Bool)) (entry : ActivityCmd × Bool) :
    heldBy (log ++ [entry]) = holdAfter (heldBy log) entry := by
  simp [heldBy]

section

variable {held : Finset Nat} {cmd : ActivityCmd}

theorem holdAfter_publish (h : cmd.activity.isSome) : holdAfter held (cmd, true) = insert cmd.pid held := by
  rw [holdAfter, if_pos h]

theorem holdAfter_clear (ha : cmd.activity = none) (h : cmd.args.isSome) :
    holdAfter held (cmd, true) = held.erase cmd.pid := by
  rw [holdAfter, if_neg (by simp [ha]), if_pos h]

theorem holdAfter_noArgs (h : cmd.args = none) : holdAfter held (cmd, true) = held := by
  rw [holdAfter, if_neg (by simp [ActivityCmd.activity, h]), if_neg (by simp [h])]

end

end RichPresence

namespace RichPresence.Ws

open Lib

variable {slot : ClientSlot} {event : ActivityCmd} {entry : PublishedSlot} {pid : Nat}

namespace ClientSlot

/-- The slot after one `SET_ACTIVITY` message, and whether the command is on its way,
when the sink accepts it or sheds it. -/
def tracked (event : ActivityCmd) (accepts : Bool) (slot : ClientSlot) : ClientSlot × Bool :=
  if event.activity.isNone then (if accepts then slot.forgetPublished event.pid else slot, accepts)
  else match slot.notePublished ⟨event.applicationId.or slot.queryClientId, event.pid, event.nonce⟩ with
    | (.admitted displaced, noted) =>
        if accepts then (noted, true) else (noted.rollbackPublish event.pid displaced, false)
    | (.refusedFull, noted) => (noted, false)

theorem tracked_clear (h : event.activity.isNone = true) (accepts : Bool) (slot : ClientSlot) :
    slot.tracked event accepts = (if accepts then slot.forgetPublished event.pid else slot, accepts) := if_pos h

/-- What a connection remembers of a publish. -/
def record (event : ActivityCmd) (slot : ClientSlot) : PublishedSlot :=
  ⟨event.applicationId.or slot.queryClientId, event.pid, event.nonce⟩

variable {noted : ClientSlot}

theorem tracked_admitted (h : event.activity.isNone = false) {displaced : Option PublishedSlot}
    (hn : slot.notePublished (slot.record event) = (.admitted displaced, noted)) (accepts : Bool) :
    slot.tracked event accepts =
      if accepts then (noted, true) else (noted.rollbackPublish event.pid displaced, false) := by
  rw [record] at hn
  rw [tracked, if_neg (by simp [h]), hn]

theorem tracked_refused (h : event.activity.isNone = false)
    (hn : slot.notePublished (slot.record event) = (.refusedFull, noted)) (accepts : Bool) :
    slot.tracked event accepts = (noted, false) := by
  rw [record] at hn
  rw [tracked, if_neg (by simp [h]), hn]

def pids (slot : ClientSlot) : List Nat := slot.published.map PublishedSlot.pid

end ClientSlot

def admitActivity (id : ClientId) (slot : ClientSlot) (event : ActivityCmd) : Pump (Option Admission) :=
  if event.activity.isNone then pure none
  else Pump.notePublished id ⟨event.applicationId.or slot.queryClientId, event.pid, event.nonce⟩

def settleActivity (id : ClientId) (event : ActivityCmd) (admission : Option Admission) (delivered : Bool) :
    Pump Unit :=
  if delivered then if event.activity.isNone then Pump.forgetPublished id event.pid else pure ()
  else match admission with
    | some (.admitted displaced) => Pump.rollbackPublish id event.pid displaced
    | _ => pure ()

/-- `onSetActivity` with the fate of the command in its answer. -/
def fateOfActivity (moment : Moment) (id : ClientId) (slot : ClientSlot) (event : ActivityCmd) :
    Pump (Bool × Bool) := do
  let admission ← admitActivity id slot event
  let backlog ← Pump.backlog
  let (alive, delivered) ← handleSetActivity moment id slot.queryClientId event
    (forwardOf event.activity.isNone (backlog != 0) admission)
  settleActivity id event admission delivered
  return (alive, delivered)

theorem onSetActivity_eq (moment : Moment) (id : ClientId) (slot : ClientSlot) (event : ActivityCmd) :
    onSetActivity moment id slot event = Prod.fst <$> fateOfActivity moment id slot event := by
  rw [fateOfActivity, admitActivity, onSetActivity]
  simp only [map_bind, map_pure]
  split
  next h =>
      refine bind_congr fun admission => bind_congr fun backlog => bind_congr fun outcome => ?_
      rcases outcome with ⟨alive, _ | _⟩
      · rcases admission with _ | _ | _ <;> rfl
      · simp [settleActivity, h]
  next h =>
      refine bind_congr fun admission => bind_congr fun backlog => bind_congr fun outcome => ?_
      rcases outcome with ⟨alive, _ | _⟩
      · rcases admission with _ | _ | _ <;> rfl
      · simp [settleActivity, h]

section Fate

def Registered (id : ClientId) (slot : ClientSlot) (t : Transport) : Prop := t.clients.lookup id = some slot

variable {cap : Option Nat} {id : ClientId}

theorem registered_stable : Script.Stable (Transport.around cap) (Registered id slot) := by
  intro t e h
  cases e <;> exact h

theorem registered_modify {t : Transport} (h : Registered id slot t) (f : ClientSlot → ClientSlot) :
    Registered id (f slot) (t.modify id f) := by
  rw [Transport.modify, h]
  exact AList.lookup_insert ..

theorem ensures_sink {α : Type} {c : Call} {k : c.Answer → Pump α} {Q : α → Transport → Prop}
    (hc : ∀ t : Transport, (t.act cap c).2.clients = t.clients)
    (hk : ∀ r, Script.Ensures (Transport.act cap) (Transport.around cap) (Registered id slot) (k r) Q) :
    Script.Ensures (Transport.act cap) (Transport.around cap) (Registered id slot) (.call c k) Q :=
  .call registered_stable (fun t ht => by rw [Registered, hc]; exact ht) hk

theorem ensures_pure {α : Type} {Q : α → Transport → Prop} {a : α} (h : ∀ t, Registered id slot t → Q a t) :
    Script.Ensures (Transport.act cap) (Transport.around cap) (Registered id slot) (pure a : Pump α) Q :=
  .done registered_stable h

theorem ensures_handleSetActivity (moment : Moment) (queryClientId : Option AppId) (event : ActivityCmd)
    (forward : Forward) :
    Script.Ensures (Transport.act cap) (Transport.around cap) (Registered id slot)
      (handleSetActivity moment id queryClientId event forward)
      fun outcome t => (forward = .refused → outcome.2 = false) ∧ Registered id slot t := by
  rw [handleSetActivity]
  cases forward with
  | direct => exact ensures_sink (fun _ => rfl) fun _ => ensures_pure fun t ht => ⟨by rintro ⟨⟩, ht⟩
  | refused => exact ensures_pure fun t ht => ⟨fun _ => rfl, ht⟩
  | staged =>
      refine ensures_sink (fun _ => rfl) fun outcome => ?_
      cases outcome with
      | sent => exact ensures_pure fun t ht => ⟨by rintro ⟨⟩, ht⟩
      | full cmd => exact ensures_sink (fun _ => rfl) fun _ => ensures_pure fun t ht => ⟨by rintro ⟨⟩, ht⟩
      | closed => exact ensures_sink (fun _ => rfl) fun _ => ensures_pure fun t ht => ⟨by rintro ⟨⟩, ht⟩

theorem ensures_slot {c : Call} {f : ClientSlot → ClientSlot} {k : c.Answer → Pump Unit}
    (hc : ∀ t, (Transport.act cap c t).2 = t.modify id f) (hk : ∀ r, k r = pure ()) :
    Script.Ensures (Transport.act cap) (Transport.around cap) (Registered id slot) (.call c k)
      fun _ t => Registered id (f slot) t := by
  refine .call (R := fun _ t => Registered id (f slot) t) registered_stable ?_ ?_
  · intro t ht
    rw [hc]
    exact registered_modify ht f
  · intro r
    rw [hk]
    exact ensures_pure fun t ht => ht

theorem ensures_note (entry : PublishedSlot) :
    Script.Ensures (Transport.act cap) (Transport.around cap) (Registered id slot) (Pump.notePublished id entry)
      fun admission t => admission = some (slot.notePublished entry).1 ∧
        Registered id (slot.notePublished entry).2 t := by
  refine .call (R := fun admission t => admission = some (slot.notePublished entry).1 ∧
    Registered id (slot.notePublished entry).2 t) registered_stable ?_ ?_
  · intro t ht
    have hlookup : t.clients.lookup id = some slot := ht
    refine ⟨?_, registered_modify ht fun slot => (slot.notePublished entry).2⟩
    rw [Transport.act, hlookup]
    rfl
  · intro admission
    exact .pre fun h => ensures_pure fun t ht => ⟨h, ht⟩

/-- However the retry tasks and the bridge step in, a message leaves the slot as the
fate of its command says. -/
theorem ensures_fateOfActivity (moment : Moment) (slot : ClientSlot) (event : ActivityCmd) :
    Script.Ensures (Transport.act cap) (Transport.around cap) (Registered id slot)
      (fateOfActivity moment id slot event)
      fun outcome t => ∃ accepts, outcome.2 = (slot.tracked event accepts).2 ∧
        Registered id (slot.tracked event accepts).1 t := by
  rw [fateOfActivity, admitActivity]
  cases h : event.activity.isNone with
  | true =>
      refine ensures_sink (fun _ => rfl) fun backlog =>
        (ensures_handleSetActivity moment _ event _).bind fun outcome => .pre fun _ => ?_
      simp only [ClientSlot.tracked_clear h]
      rcases outcome with ⟨alive, _ | _⟩
      · exact ensures_pure fun t ht => ⟨false, rfl, ht⟩
      · have hsettle : settleActivity id event none true = Pump.forgetPublished id event.pid := by
          simp [settleActivity, h]
        rw [hsettle]
        exact (ensures_slot (f := (·.forgetPublished event.pid)) (fun _ => rfl) fun _ => rfl).bind fun _ =>
          ensures_pure fun t ht => ⟨true, rfl, ht⟩
  | false =>
      refine (ensures_note (slot.record event)).bind fun admission => .pre ?_
      rintro rfl
      refine ensures_sink (fun _ => rfl) fun backlog =>
        (ensures_handleSetActivity moment _ event _).bind fun outcome => .pre fun hrefused => ?_
      cases hn : slot.notePublished (slot.record event) with
      | mk admission noted =>
          cases admission with
          | admitted displaced =>
              simp only [ClientSlot.tracked_admitted h hn]
              rcases outcome with ⟨alive, _ | _⟩
              · exact (ensures_slot (f := (·.rollbackPublish event.pid displaced)) (fun _ => rfl) fun _ => rfl).bind
                  fun _ => ensures_pure fun t ht => ⟨false, rfl, ht⟩
              · have hsettle : settleActivity id event (some (.admitted displaced)) true = pure () := by
                  simp [settleActivity, h]
                rw [hsettle]
                exact ensures_pure fun t ht => ⟨true, rfl, ht⟩
          | refusedFull =>
              rw [hn] at hrefused
              simp only [ClientSlot.tracked_refused h hn]
              obtain ⟨alive, delivered⟩ := outcome
              obtain rfl : delivered = false := hrefused rfl
              exact ensures_pure fun t ht => ⟨false, rfl, ht⟩

end Fate

end RichPresence.Ws
