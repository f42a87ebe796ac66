import RichPresence.Ws.Tracking
import RichPresence.WsServer.Shutdown

namespace RichPresence

/-- The text on both sides of the first occurrence of a character. -/
def splitOnce (c : Char) (text : List Char) : Option (List Char × List Char) :=
  if c ∈ text then some (text.takeWhile (· ≠ c), (text.dropWhile (· ≠ c)).tail) else none

/-- A key that is repeated answers with its last value. -/
def queryParam (uri key : String) : Option String :=
  (splitOnce '?' uri.toList).bind fun (_, query) =>
    (query.splitOn '&').foldl (fun found pair =>
      match splitOnce '=' pair with
      | some (k, value) => if k = key.toList then some (String.ofList value) else found
      | none => found) none

/-- A header value is only read as text if all of it is visible. -/
def headerText (value : String) : Option String :=
  if value.toList.all fun c => (32 ≤ c.toNat ∧ c.toNat < 127) ∨ c = '\t' then some value else none

namespace Ws

open Lib WsServer

def Upgrade.ofDetails (details : ConnectionDetails) : Upgrade where
  version := queryParam details.uri "v"
  encoding := queryParam details.uri "encoding"
  clientId := (queryParam details.uri "client_id").map AppId.mk
  origin := (details.headers.lookup "origin").bind headerText

def PumpEvent.ofEvent (moment : Moment) : WsServer.Event → PumpEvent
  | .connect id details => .connect moment id (.ofDetails details)
  | .disconnect id _ => .disconnect moment id
  | .message id text => .message moment id text

/-- The transport with the count of clients that telemetry reads. -/
structure Counted where
  transport : Transport := {}
  total : UInt64 := 0

namespace Counted

/-- The count follows the table. -/
def act (cap : Option Nat) (c : Call) (t : Counted) : c.Answer × Counted :=
  let total := match c with
    | .register _ _ => t.total + 1
    | .remove id => if (t.transport.clients.lookup id).isSome then t.total - 1 else t.total
    | _ => t.total
  ((t.transport.act cap c).1, ⟨(t.transport.act cap c).2, total⟩)

def around (cap : Option Nat) (t : Counted) (e : Around) : Counted :=
  { t with transport := t.transport.around cap e }

/-- The count is right, and only these clients can be registered. -/
def Within (here : Finset ClientId) (t : Counted) : Prop :=
  t.total = .ofNat (Table.size t.transport.clients) ∧ ∀ id ∈ t.transport.clients, id ∈ here

variable {cap : Option Nat} {here here' : Finset ClientId} {t : Counted}

theorem within_mono (h : Within here t) (hsub : here ⊆ here') : Within here' t :=
  ⟨h.1, fun id hid => hsub (h.2 id hid)⟩

theorem within_stable : Script.Stable (around cap) (Within here) := by
  intro t e h
  cases e <;> exact h

theorem within_modify (h : Within here t) (id : ClientId) (f : ClientSlot → ClientSlot) :
    Within here ⟨t.transport.modify id f, t.total⟩ := by
  rw [Transport.modify]
  split
  next slot hslot =>
      have hmem : id ∈ t.transport.clients := Table.mem_iff_lookup.mpr ⟨slot, hslot⟩
      refine ⟨?_, fun j hj => ?_⟩
      · dsimp only
        rw [Table.size_insert_of_mem hmem]
        exact h.1
      · obtain rfl | hj := AList.mem_insert _ |>.mp hj
        · exact h.2 j hmem
        · exact h.2 j hj
  next => exact h

theorem within_register (h : Within here t) {id : ClientId} (hnew : id ∉ here) (slot : ClientSlot) :
    Within (insert id here) (act cap (.register id slot) t).2 := by
  refine ⟨?_, fun j hj => ?_⟩
  · dsimp only [act, Transport.act]
    rw [Table.size_insert_of_notMem fun hmem => hnew (h.2 id hmem), UInt64.ofNat_add, h.1]
    rfl
  · obtain rfl | hj := AList.mem_insert _ |>.mp hj
    · exact Finset.mem_insert_self _ _
    · exact Finset.mem_insert_of_mem (h.2 j hj)

theorem within_remove (h : Within here t) (id : ClientId) : Within (here.erase id) (act cap (.remove id) t).2 := by
  refine ⟨?_, fun j hj => ?_⟩
  · dsimp only [act, Transport.act]
    split
    next hsome =>
        have hmem : id ∈ t.transport.clients.keys := AList.mem_keys.mp (AList.lookup_isSome.mp hsome)
        obtain ⟨n, hn⟩ := Nat.exists_eq_add_one_of_ne_zero (List.length_pos_of_mem hmem).ne'
        rw [h.1, Table.size, Table.size, AList.keys_erase, List.length_erase_of_mem hmem, hn, Nat.add_sub_cancel,
          UInt64.ofNat_add]
        exact UInt64.add_sub_cancel _ _
    next hnone =>
        have hmem : id ∉ t.transport.clients.keys := fun hmem =>
          hnone (AList.lookup_isSome.mpr (AList.mem_keys.mpr hmem))
        rw [Table.size, AList.keys_erase, List.erase_of_not_mem hmem]
        exact h.1
  · obtain ⟨hne, hj⟩ := AList.mem_erase.mp hj
    exact Finset.mem_erase.mpr ⟨hne, h.2 j hj⟩

end Counted

def Call.Spares : Call → Prop
  | .register _ _ => False
  | _ => True

theorem Counted.within_act {cap : Option Nat} {here : Finset ClientId} {c : Call} {t : Counted} (hc : c.Spares)
    (h : Within here t) : Within here (act cap c t).2 := by
  cases c with
  | register => exact hc.elim
  | remove id => exact within_mono (within_remove h id) (Finset.erase_subset _ _)
  | notePublished id entry => exact within_modify h id _
  | forgetPublished id pid => exact within_modify h id _
  | rollbackPublish id pid displaced => exact within_modify h id _
  | _ => exact h

section Spares

theorem makes_flushPending : Script.Makes Call.Spares Pump.flushPending := by
  refine .bind (Script.makes_call trivial) fun n => ?_
  induction n with
  | zero => exact trivial
  | succ n ih =>
      refine .bind (Script.makes_call trivial) fun more => ?_
      cases more with
      | false => exact trivial
      | true => exact ih

theorem makes_clearOrStage (now : Nat) (id : ClientId) (published : PublishedSlot) :
    Script.Makes Call.Spares (Pump.clearOrStage now id published) := by
  refine .bind (Script.makes_call trivial) fun outcome => ?_
  cases outcome with
  | sent => exact trivial
  | full | closed => exact Script.makes_call trivial

theorem makes_removeAndClear (now : Nat) (id : ClientId) :
    Script.Makes Call.Spares (Pump.removeAndClear now id) := by
  rw [Pump.removeAndClear_eq]
  refine .bind (Script.makes_call trivial) fun slot => ?_
  cases slot with
  | none => exact trivial
  | some slot => exact .bind makes_flushPending fun _ => .forM (makes_clearOrStage now id) _

theorem makes_handleSetActivity (moment : Moment) (id : ClientId) (queryClientId : Option AppId)
    (event : ActivityCmd) (forward : Forward) :
    Script.Makes Call.Spares (handleSetActivity moment id queryClientId event forward) := by
  rw [handleSetActivity]
  cases forward with
  | direct => exact .bind (Script.makes_call trivial) fun _ => trivial
  | refused => exact trivial
  | staged =>
      refine .bind (.bind (Script.makes_call trivial) fun outcome => ?_) fun _ => trivial
      cases outcome with
      | sent => exact trivial
      | full | closed => exact .bind (Script.makes_call trivial) fun _ => trivial

theorem makes_settleActivity (id : ClientId) (event : ActivityCmd) (admission : Option Admission)
    (delivered : Bool) : Script.Makes Call.Spares (settleActivity id event admission delivered) := by
  unfold settleActivity
  cases delivered with
  | true =>
      cases event.activity.isNone with
      | true => exact Script.makes_call trivial
      | false => exact trivial
  | false =>
      rcases admission with _ | _ | _
      · exact trivial
      · exact Script.makes_call trivial
      · exact trivial

theorem makes_onSetActivity (moment : Moment) (id : ClientId) (slot : ClientSlot) (event : ActivityCmd) :
    Script.Makes Call.Spares (onSetActivity moment id slot event) := by
  rw [onSetActivity_eq, map_eq_pure_bind, fateOfActivity, admitActivity]
  refine .bind (.bind ?_ fun admission => .bind (Script.makes_call trivial) fun backlog =>
    .bind (makes_handleSetActivity ..) fun outcome => .bind (makes_settleActivity ..) fun _ => trivial)
    fun _ => trivial
  cases event.activity.isNone with
  | true => exact trivial
  | false => exact Script.makes_call trivial

theorem makes_handleBrowserCommand (moment : Moment) (id : ClientId) (event : ActivityCmd) :
    Script.Makes Call.Spares (handleBrowserCommand moment id event) := by
  rw [handleBrowserCommand]
  cases hasCode event with
  | true => exact .bind (Script.makes_call trivial) fun _ => trivial
  | false => exact trivial

theorem makes_dispatch (settings : Settings) (moment : Moment) (id : ClientId) (slot : ClientSlot)
    (event : ActivityCmd) : Script.Makes Call.Spares (dispatch settings moment id slot event) := by
  rw [dispatch]
  cases CommandKind.of event.cmd with
  | setActivity =>
      cases settings.setActivity with
      | true => exact makes_onSetActivity moment id slot event
      | false => exact trivial
  | browser =>
      cases settings.secondaryEvents with
      | true => exact makes_handleBrowserCommand moment id event
      | false => exact trivial
  | answeredIfEnabled | answered => exact trivial

theorem makes_onMessage (decode : String → Option ActivityCmd) (settings : Settings) (moment : Moment)
    (id : ClientId) (message : Message) :
    Script.Makes Call.Spares (onMessage decode settings moment id message) := by
  refine .bind makes_flushPending fun _ => .bind (Script.makes_call trivial) fun slot => ?_
  cases slot with
  | none => exact trivial
  | some slot =>
      dsimp only
      cases readCommand decode message with
      | none => exact trivial
      | some event =>
          refine .bind (makes_dispatch settings moment id slot event) fun alive => ?_
          cases alive with
          | true => exact trivial
          | false => exact makes_removeAndClear moment.now id

end Spares

/-- The clients that are here after an event, as far as the hub tells. -/
def hereAfter (here : Finset ClientId) : WsServer.Event → Finset ClientId
  | .connect id _ => insert id here
  | .disconnect id _ => here.erase id
  | .message _ _ => here

def present (events : List WsServer.Event) : Finset ClientId := events.foldl hereAfter ∅

theorem present_concat (events : List WsServer.Event) (e : WsServer.Event) :
    present (events ++ [e]) = hereAfter (present events) e := by
  rw [present, List.foldl_concat]
  rfl

theorem mem_present_eventsOf (id : ClientId) (events : List WsServer.Event) :
    id ∈ present (eventsOf id events) ↔ id ∈ present events := by
  induction events using List.reverseRecOn with
  | nil => rfl
  | append_singleton events e ih =>
      rw [present_concat]
      by_cases hclient : e.client = id
      · rw [eventsOf_concat_self hclient, present_concat]
        cases e <;> simp [hereAfter, ih]
      · rw [eventsOf_concat_of_ne hclient, ih]
        cases e <;> simp_all [hereAfter, WsServer.Event.client, eq_comm]

section Pump

variable {cap : Option Nat} {here : Finset ClientId} (decode : String → Option ActivityCmd) (settings : Settings)

theorem ensures_spares {α : Type} {p : Pump α} (hp : Script.Makes Call.Spares p) :
    Script.Ensures (Counted.act cap) (Counted.around cap) (Counted.Within here) p fun _ => Counted.Within here :=
  hp.ensures Counted.within_stable fun _ _ hc h => Counted.within_act hc h

theorem ensures_removeAndClear (now : Nat) (id : ClientId) :
    Script.Ensures (Counted.act cap) (Counted.around cap) (Counted.Within here) (Pump.removeAndClear now id)
      fun _ => Counted.Within (here.erase id) := by
  have hremove : Script.Ensures (Counted.act cap) (Counted.around cap) (Counted.Within here) (Pump.remove id)
      fun _ => Counted.Within (here.erase id) :=
    .call (R := fun _ => Counted.Within (here.erase id)) Counted.within_stable
      (fun t h => Counted.within_remove h id) fun _ => .done Counted.within_stable fun _ h => h
  rw [Pump.removeAndClear_eq]
  refine .bind hremove fun slot => ?_
  cases slot with
  | none => exact .done Counted.within_stable fun _ h => h
  | some slot => exact ensures_spares (.bind makes_flushPending fun _ => .forM (makes_clearOrStage now id) _)

theorem ensures_handle (moment : Moment) (e : WsServer.Event) (hnew : ∀ id ∈ here, e.announces id = false) :
    Script.Ensures (Counted.act cap) (Counted.around cap) (Counted.Within here)
      ((PumpEvent.ofEvent moment e).handle decode settings) fun _ => Counted.Within (hereAfter here e) := by
  cases e with
  | connect id details =>
      have hid : id ∉ here := fun hmem => by simpa [WsServer.Event.announces] using hnew id hmem
      rw [PumpEvent.ofEvent, PumpEvent.handle, onConnect]
      split
      next =>
          exact .call (R := fun _ => Counted.Within (insert id here)) Counted.within_stable
            (fun t h => Counted.within_register h hid _) fun _ => .done Counted.within_stable fun _ h => h
      next => exact .done Counted.within_stable fun _ h => Counted.within_mono h (Finset.subset_insert _ _)
  | disconnect id reason => exact ensures_removeAndClear moment.now id
  | message id text => exact ensures_spares (makes_onMessage decode settings moment id text)

/-- The events announce every client at most once, and nobody who is here already. -/
def Fresh (here : Finset ClientId) (events : List WsServer.Event) : Prop :=
  (∀ id, events.countP (WsServer.Event.announces id) ≤ 1) ∧
    ∀ id ∈ here, events.countP (WsServer.Event.announces id) = 0

theorem mem_hereAfter {id : ClientId} {e : WsServer.Event} (h : id ∈ hereAfter here e) :
    id ∈ here ∨ e.announces id = true := by
  cases e with
  | connect id' details => simpa [hereAfter, WsServer.Event.announces, eq_comm, or_comm] using h
  | disconnect id' reason => exact .inl (Finset.mem_of_mem_erase h)
  | message => exact .inl h

theorem Fresh.head {e : WsServer.Event} {events : List WsServer.Event} (h : Fresh here (e :: events)) :
    (∀ id ∈ here, e.announces id = false) ∧ Fresh (hereAfter here e) events := by
  have htail (id) :
      events.countP (WsServer.Event.announces id) ≤ (e :: events).countP (WsServer.Event.announces id) :=
    (List.sublist_cons_self e events).countP_le
  refine ⟨fun id hid => ?_, fun id => Nat.le_trans (htail id) (h.1 id), fun id hid => ?_⟩
  · exact Bool.eq_false_of_not_eq_true (List.countP_eq_zero.mp (h.2 id hid) e List.mem_cons_self)
  · obtain hid | hann := mem_hereAfter hid
    · exact Nat.le_zero.mp (h.2 id hid ▸ htail id)
    · have hone := h.1 id
      rw [List.countP_cons_of_pos hann] at hone
      omega

theorem ensures_pumpLoop (handled : List (Moment × WsServer.Event)) (hfresh : Fresh here (handled.map Prod.snd)) :
    Script.Ensures (Counted.act cap) (Counted.around cap) (Counted.Within here)
      (pumpLoop decode settings (handled.map fun (moment, e) => .ofEvent moment e))
      fun _ => Counted.Within ((handled.map Prod.snd).foldl hereAfter here) := by
  induction handled generalizing here with
  | nil => exact .done Counted.within_stable fun _ h => h
  | cons head handled ih =>
      obtain ⟨moment, e⟩ := head
      obtain ⟨hnew, hrest⟩ := Fresh.head hfresh
      rw [pumpLoop, List.map_cons, List.forM_cons]
      exact .bind (ensures_handle decode settings moment e hnew) fun _ => ih hrest

end Pump

theorem exists_of_mem_present {id : ClientId} {events : List WsServer.Event} (h : id ∈ present events) :
    ∃ e ∈ events, e.announces id = true := by
  induction events using List.reverseRecOn with
  | nil => cases h
  | append_singleton events e ih =>
      rw [present_concat] at h
      obtain h | hann := mem_hereAfter h
      · obtain ⟨e', he', hann⟩ := ih h
        exact ⟨e', List.mem_append_left _ he', hann⟩
      · exact ⟨e, List.mem_append_right _ (List.mem_singleton_self e), hann⟩

theorem stage_of_mem_present {c : Conn} (htells : c.Tells false) (h : c.id ∈ present c.told) :
    c.live = true ∨ c.stage = .aborted := by
  cases hstage : c.stage with
  | aborted => exact .inr rfl
  | left =>
      rw [Conn.Tells, hstage] at htells
      obtain htold | ⟨reason, htold⟩ | ⟨hgone, _⟩ := htells
      · rw [htold] at h
        cases h
      · rw [htold, present_concat] at h
        exact absurd h (Finset.notMem_erase _ _)
      · cases hgone
  | _ => exact .inl (by simp [Conn.live, Stage.live, hstage])

section Server

variable (limits : Nat → Limits) (steps : List ProcessStep) {cap : Option Nat}
  (decode : String → Option ActivityCmd) (settings : Settings)

/-- The pump has handled these events, while the retry tasks and the bridge stepped in
at any moment. -/
def Handled (cap : Option Nat) (handled : List (Moment × WsServer.Event)) (t : Counted) : Prop :=
  Script.Amid (Counted.act cap) (Counted.around cap)
    (pumpLoop decode settings (handled.map fun (moment, e) => .ofEvent moment e)) {} () t

variable {decode settings}

theorem Handled.within {handled : List (Moment × WsServer.Event)} {t : Counted}
    (h : Handled decode settings cap handled t)
    (hroom : (Process.run limits steps).issued ≤ 2 ^ 64) (k : Nat)
    (hhandled : handled.map Prod.snd <+: ((Process.run limits steps).servers k).hub.events.carried) :
    Counted.Within (present (handled.map Prod.snd)) t := by
  refine ensures_pumpLoop decode settings handled ⟨fun id => ?_, fun id hid => by cases hid⟩ {} () t ?_ h
  · exact Nat.le_trans hhandled.sublist.countP_le (Process.announced_once limits steps hroom k id)
  · exact ⟨rfl, fun id hid => by cases AList.notMem_empty id hid⟩

/-- Whenever the pump has handled the events of a hub up to some point, the count is
that of the registered clients, and each of them is a connection of the server that was
announced. Once the pump has caught up with a server whose tasks were left to end by
themselves, only running connections are registered: no more than the server admits, and
none when it has wound down. -/
theorem census_follows_server (hroom : (Process.run limits steps).issued ≤ 2 ^ 64) (k : Nat)
    (handled : List (Moment × WsServer.Event))
    (hhandled : handled.map Prod.snd <+: ((Process.run limits steps).servers k).hub.events.carried) (t : Counted)
    (hrun : Handled decode settings cap handled t) :
    let s := (Process.run limits steps).servers k
    t.total = .ofNat (Table.size t.transport.clients) ∧
      (∀ id ∈ t.transport.clients, id ∈ present (handled.map Prod.snd) ∧ ∃ c ∈ s.conns.tasks, c.id = id) ∧
      (handled.map Prod.snd = s.hub.events.carried → s.hub.gone = false →
        (∀ c ∈ s.conns.tasks, c.stage ≠ .aborted) →
          (∀ id ∈ t.transport.clients, ∃ c ∈ s.conns.tasks, c.id = id ∧ c.live = true) ∧
            Table.size t.transport.clients ≤ (limits k).maxConnections ∧ (¬s.Busy → t.total = 0)) := by
  intro s
  have htold : Told s.conns := Process.told_run limits steps hroom k
  obtain ⟨htotal, hhere⟩ := hrun.within limits steps hroom k hhandled
  have hconn : ∀ id ∈ t.transport.clients, ∃ c ∈ s.conns.tasks, c.id = id := by
    intro id hid
    obtain ⟨e, he, hann⟩ := exists_of_mem_present (hhere id hid)
    rw [← WsServer.Event.client_of_announces hann]
    exact List.mem_map.mp (htold.known e (hhandled.subset he))
  refine ⟨htotal, fun id hid => ⟨hhere id hid, hconn id hid⟩, fun hall hkept hnone => ?_⟩
  have hlive : ∀ id ∈ t.transport.clients, ∃ c ∈ s.conns.tasks, c.id = id ∧ c.live = true := by
    intro id hid
    obtain ⟨c, hc, rfl⟩ := hconn id hid
    obtain ⟨hrouted, htells⟩ := htold.routed c hc
    have hpresent : c.id ∈ present c.told := by
      rw [← hrouted, mem_present_eventsOf]
      exact hall ▸ hhere c.id hid
    rw [show s.conns.shared.hub.gone = false from hkept] at htells
    obtain hlive | habort := stage_of_mem_present htells hpresent
    · exact ⟨c, hc, rfl, hlive⟩
    · exact absurd habort (hnone c hc)
  have hsize : Table.size t.transport.clients ≤ s.conns.tasks.countP Conn.live := by
    rw [List.countP_eq_length_filter, ← List.length_map Conn.id]
    refine Table.size_le_of_subset _ fun id hid => ?_
    obtain ⟨c, hc, rfl, hlive⟩ := hlive id (AList.mem_keys.mpr hid)
    exact List.mem_map_of_mem (List.mem_filter.mpr ⟨hc, hlive⟩)
  refine ⟨hlive, ?_, fun hquiet => ?_⟩
  · have hbalance : s.Balanced (limits k) := (Process.sound_run limits steps k).balanced
    exact Nat.le_trans hsize (by have hconns := hbalance.conns; omega)
  · have hzero : s.conns.tasks.countP Conn.live = 0 := List.countP_eq_zero.mpr fun c hc hlive =>
      hquiet (.inr (Server.exists_isLive hc hlive))
    have hempty : Table.size t.transport.clients = 0 := by omega
    rw [htotal, hempty]
    rfl

theorem visit_census :
    let moment : Moment := ⟨0, 0, true⟩
    let handled := ((Process.run Process.defaultLimits Process.visit).servers 0).hub.events.carried.map
      fun e => (moment, e)
    let settings : Settings := ⟨true, true⟩
    let t := (Script.run (Counted.act (some 8))
      (pumpLoop (fun _ => none) settings (handled.map fun (moment, e) => .ofEvent moment e)) {}).2
    Handled (fun _ => none) settings (some 8) handled t ∧ t.total = .ofNat (Table.size t.transport.clients) := by
  intro moment handled settings t
  have hrun : Handled (fun _ => none) settings (some 8) handled t := Script.amid_run _ _ _ _
  have hhandled : handled.map Prod.snd =
      ((Process.run Process.defaultLimits Process.visit).servers 0).hub.events.carried := by
    simp [handled, Function.comp_def]
  exact ⟨hrun, (census_follows_server Process.defaultLimits Process.visit (by decide) 0 handled
    (hhandled ▸ List.prefix_refl _) t hrun).1⟩

end Server

end Ws

end RichPresence
