import RichPresence.Bridge.Ownership
import RichPresence.Ipc.OwnPresence
import RichPresence.Ws.Session

namespace RichPresence

open Lib

section Ipc

open Ipc

variable {W : Wire} {world : Nat → Ipc.Moment} {ending : Ending} {input : Bytes}

def Ipc.Incoming.isClose : Incoming → Bool
  | .packet .close _ _ => true
  | _ => false

/-- What the pump remembers covers the slots the connection still holds when it
ends: a close frame frees the current pid for the current client id only, and a
refused handshake frees nothing. -/
structure Ipc.SlotsCovered (W : Wire) (ending : Ending) (s : Head) : Prop where
  close : (readPacket ending s.input).isClose = true → ∀ app, app ≠ s.pump.ipc.clientId → s.pump.ipc.pid ≠ 0 →
    holds app s.pump.ipc.pid (presence s.pump.sent) = false
  refused : RefusesHandshake W ending s → ∀ app pid, pid ≠ 0 → holds app pid (presence s.pump.sent) = false

theorem tracked_of_holds {s : Pump} (htracks : s.Tracks) {app : AppId} {pid : Nat}
    (h : holds app pid (presence s.sent) = true) : pid ∈ s.ipc.publishedPids := by
  obtain ⟨cmd, hm, hclaim⟩ := exists_claim h
  exact (htracks pid).mpr ⟨cmd, hm, hclaim.2.2⟩

theorem clear_frees (app : AppId) (pid : Nat) : FreesSlot app pid (ActivityCmd.clear none pid) := ⟨rfl, rfl, .inl rfl⟩

theorem mem_clearPids_of_tracked {ipc : ConnFacilitator} {pid q : Nat} (h : q ∈ ipc.publishedPids) :
    q ∈ (clearPids ipc pid).1 := by
  rw [clearPids]
  split
  next => exact h
  next => exact List.mem_append_left _ h

theorem ipc_frees (h : Ipc.SlotsCovered W ending (lastHead W world ending input)) {app : AppId} {pid : Nat}
    (hpid : pid ≠ 0) : holds app pid (presence (handleStream W world ending input).sent) = false := by
  obtain ⟨htracks, -, hlast⟩ := lastHead_tracks W world ending input
  rw [Bool.eq_false_iff]
  intro hheld
  rcases last_turn_cases hlast with ⟨hrefused, hsent⟩ | ⟨message, rest, hp, hout⟩ | hsent
  · rw [hsent, h.refused hrefused app pid hpid] at hheld
    cases hheld
  · rw [hout, Pump.onClose_presence] at hheld
    obtain ⟨hbefore, hkept⟩ := holds_append_clears (fun cmd hm => by
      rcases List.mem_cons.mp hm with rfl | hm
      · rfl
      · obtain ⟨q, -, rfl⟩ := List.mem_map.mp hm
        rfl) hheld
    by_cases hcur : pid = (lastHead W world ending input).pump.ipc.pid
    · by_cases happ : app = (lastHead W world ending input).pump.ipc.clientId
      · exact hkept (lastHead W world ending input).pump.closing (by simp)
          ⟨rfl, hcur.symm, .inr (congrArg some happ.symm)⟩
      · have hfree := h.close (by rw [hp]; rfl) app happ (hcur ▸ hpid)
        rw [← hcur, hbefore] at hfree
        cases hfree
    · refine hkept (ActivityCmd.clear none pid) ?_ (clear_frees app pid)
      refine List.mem_cons_of_mem _ (List.mem_map_of_mem (List.mem_filter.mpr ⟨tracked_of_holds htracks hbefore, ?_⟩))
      simpa using hcur
  · rw [hsent] at hheld
    obtain ⟨hbefore, hkept⟩ := holds_append_clears (fun cmd hm => by
      obtain ⟨q, -, rfl⟩ := List.mem_map.mp hm
      rfl) hheld
    have hin := @mem_clearPids_of_tracked _ (lastHead W world ending input).pump.ipc.pid _
      (tracked_of_holds htracks hbefore)
    exact hkept (ActivityCmd.clear none pid) (List.mem_map_of_mem hin) (clear_frees app pid)

end Ipc

section Ws

open Ws Ipc

variable {decode : String → Option ActivityCmd} {settings : Settings} {id : ClientId}

/-- Every slot the connection still holds stands in the record of its pid. -/
def Ws.Session.Covered (s : Session) : Prop :=
  ∀ app pid, pid ≠ 0 → holds app pid (presence s.sent) = true →
    ∃ slot ∈ s.slot, ∃ entry ∈ slot.published, entry.pid = pid ∧ (entry.appId = none ∨ entry.appId = some app)

/-- The slots are covered when an event ends the connection. -/
def Ws.Session.EndsCovered (decode : String → Option ActivityCmd) (settings : Settings) (id : ClientId) (s : Session)
    (e : PumpEvent) : Prop :=
  e.client = id → (s.handled decode settings e).2 = true → (s.handled decode settings e).1.Covered

/-- A connection that is gone has freed all its slots. -/
def Ws.Session.Freed (s : Session) : Prop :=
  s.slot = none → ∀ app pid, pid ≠ 0 → holds app pid (presence s.sent) = false

theorem presence_clears (slot : ClientSlot) : presence slot.clears = slot.clears := by
  rw [presence, List.filter_eq_self]
  intro cmd hm
  obtain ⟨entry, -, rfl⟩ := List.mem_map.mp hm
  rfl

theorem finish_freed {s : Session} (h : s.Covered) : s.finish.Freed := by
  intro _ app pid hpid
  rw [Bool.eq_false_iff]
  intro hheld
  cases hslot : s.slot with
  | none =>
      rw [Session.finish, hslot, Option.elim_none, List.append_nil] at hheld
      obtain ⟨slot, hmem, -⟩ := h app pid hpid hheld
      rw [hslot] at hmem
      cases hmem
  | some slot =>
      rw [Session.finish, hslot, Option.elim_some, presence_append, presence_clears] at hheld
      obtain ⟨hbefore, hkept⟩ := holds_append_clears (fun cmd hm => by
        obtain ⟨entry, -, rfl⟩ := List.mem_map.mp hm
        rfl) hheld
      obtain ⟨slot', hmem, entry, hentry, hpid', happ⟩ := h app pid hpid hbefore
      obtain rfl : slot = slot' := Option.some.inj (hslot.symm.trans hmem)
      exact hkept (clearForSlot entry) (List.mem_map_of_mem hentry) ⟨rfl, hpid', happ⟩

theorem handled_freed {s : Session} (h : s.Freed) (e : PumpEvent) : (s.handled decode settings e).1.Freed := by
  cases e with
  | connect moment id upgrade =>
      rw [Session.handled]
      split
      · exact fun hnone => by cases hnone
      · exact h
  | disconnect moment id => exact h
  | message moment id message =>
      rw [Session.handled]
      split
      · exact h
      · split
        · exact h
        · exact fun hnone => by cases hnone

theorem run_freed {s : Session} {events : List PumpEvent} (h : s.Freed)
    (hcov : Along (fun s e => s.step decode settings id e) (Session.EndsCovered decode settings id) s events) :
    (s.run decode settings id events).Freed := by
  refine hcov.invariant Session.Freed (fun s e hs he => ?_) h
  rw [Session.step]
  split
  next hid =>
      split
      next hends => exact finish_freed (he hid hends)
      next => exact handled_freed hs e
  next => exact hs

end Ws

/-- The transport of the game clients after some events, its sink having lost nothing. -/
def Ws.served (decode : String → Option ActivityCmd) (settings : Ws.Settings) (events : List Ws.PumpEvent) :
    Ws.Transport :=
  (Script.run (Ws.Transport.act none) (Ws.pumpLoop decode settings events) {}).2

/-- A connection that has ended owns no slot it published, whatever the bridge
handles meanwhile, if the slots it still held at its end are those its transport
frees: on the IPC side as on the side of the game clients. -/
theorem finished_connection_owns_nothing (C : Codec) :
    (∀ W world ending input, Ipc.SlotsCovered W ending (Ipc.lastHead W world ending input) →
      OwnsNothing C (Ipc.presence (Ipc.handleStream W world ending input).sent)) ∧
    ∀ decode settings events id,
      Along (fun s e => s.step decode settings id e) (Ws.Session.EndsCovered decode settings id) ⟨none, []⟩ events →
      (Ws.served decode settings events).clients.lookup id = none →
      OwnsNothing C (Ipc.presence ((Ws.served decode settings events).sentFor id)) := by
  constructor
  · intro W world ending input hcov
    exact ownsNothing_of_freed fun app pid hpid => ipc_frees hcov hpid
  · intro decode settings events id hcov hgone
    have hsession : (Ws.served decode settings events).session id =
        Ws.Session.run decode settings ⟨none, []⟩ id events :=
      Ws.Transport.run_pumpLoop ⟨rfl, rfl⟩ decode settings events id
    have hfreed : ((Ws.served decode settings events).session id).Freed := by
      rw [hsession]
      exact run_freed (fun _ _ _ _ => rfl) hcov
    exact ownsNothing_of_freed (hfreed hgone)

section Samples

open Ipc Ws

theorem Ws.Session.covered_of_recorded {s : Session}
    (h : ∀ cmd ∈ presence s.sent, ∃ entry ∈ s.slot.elim [] ClientSlot.published,
      entry.pid = cmd.pid ∧ (entry.appId = none ∨ entry.appId = cmd.applicationId)) : s.Covered := by
  intro app pid _ hheld
  obtain ⟨cmd, hm, hclaim⟩ := exists_claim hheld
  obtain ⟨entry, hentry, hpid, happ⟩ := h cmd hm
  rw [hclaim.2.1] at happ
  cases hslot : s.slot with
  | none =>
      rw [hslot] at hentry
      cases hentry
  | some slot =>
      rw [hslot] at hentry
      exact ⟨slot, rfl, entry, hentry, hpid.trans hclaim.2.2, happ⟩

def twoGames (text : String) : Option ActivityCmd :=
  if text = "Hades" then some (.publish ⟨"1145360"⟩ 77 "Elysium")
  else if text = "Celeste" then some (.publish ⟨"504230"⟩ 77 "Summit")
  else none

def gameMoment : Ws.Moment := ⟨0, 1763200000, true⟩

def gameVisit (messages : List String) : List PumpEvent :=
  .connect gameMoment 1 ⟨some "1", none, none, none⟩ ::
    messages.map (fun text => .message gameMoment 1 (.text text)) ++ [.disconnect gameMoment 1]

theorem finished_connection_owns_nothing_single :
    OwnsNothing Serde.codec (presence (handleStream steadyWire noon .eof (played ++ encode .close "")).sent) ∧
      OwnsNothing Serde.codec (presence ((Ws.served twoGames ⟨true, true⟩ (gameVisit ["Hades"])).sentFor 1)) := by
  obtain ⟨hipc, hws⟩ := finished_connection_owns_nothing Serde.codec
  constructor
  · refine hipc steadyWire noon .eof (played ++ encode .close "") ⟨fun _ app happ _ => ?_, fun hrefuses => ?_⟩
    · rw [Bool.eq_false_iff]
      intro hheld
      obtain ⟨cmd, hm, hclaim⟩ := exists_claim hheld
      have hown : ∀ cmd ∈ presence (lastHead steadyWire noon .eof (played ++ encode .close "")).pump.sent,
          cmd.applicationId =
            some (lastHead steadyWire noon .eof (played ++ encode .close "")).pump.ipc.clientId := by
        decide +kernel
      exact happ (Option.some.inj (hclaim.2.1.symm.trans (hown cmd hm)))
    · exact absurd hrefuses steadyWire_refuses_nothing
  · refine hws twoGames ⟨true, true⟩ (gameVisit ["Hades"]) 1 ⟨?_, ?_, fun _ _ => ?_, trivial⟩ (by decide +kernel)
    · exact fun _ hends => absurd hends (by decide +kernel)
    · exact fun _ hends => absurd hends (by decide +kernel)
    · exact Ws.Session.covered_of_recorded (by decide +kernel)

def otherGreeting : String := "\x7b\"v\":1,\"client_id\":\"504230\"\x7d"

def twoNamesWire : Wire :=
  { sampleWire with
    handshake := fun message =>
      if message = Ipc.greeting then some ⟨1, "1145360"⟩
      else if message = otherGreeting then some ⟨1, "504230"⟩
      else none }

def twoNames : Bytes := played ++ encode .handshake otherGreeting ++ encode .frame playing ++ encode .close ""

/-- A connection publishes one process under two applications and leaves: the clear
names the second one, and the slot of the first stays with the process. -/
theorem first_application_stays_owned :
    ¬OwnsNothing Serde.codec (presence (handleStream twoNamesWire noon .eof twoNames).sent) ∧
      ¬OwnsNothing Serde.codec
        (presence ((Ws.served twoGames ⟨true, true⟩ (gameVisit ["Hades", "Celeste"])).sentFor 1)) := by
  constructor
  · intro h
    obtain ⟨cmd, hm, hclaim⟩ : ∃ cmd ∈ presence (handleStream twoNamesWire noon .eof twoNames).sent,
        ClaimsSlot ⟨"1145360"⟩ 77 cmd := by decide +kernel
    exact h.alone hm hclaim (by decide) {} (calmAt 0) (by decide +kernel)
  · intro h
    obtain ⟨cmd, hm, hclaim⟩ : ∃ cmd ∈ presence
        ((Ws.served twoGames ⟨true, true⟩ (gameVisit ["Hades", "Celeste"])).sentFor 1),
        ClaimsSlot ⟨"1145360"⟩ 77 cmd := by decide +kernel
    exact h.alone hm hclaim (by decide) {} (calmAt 0) (by decide +kernel)

end Samples

end RichPresence
