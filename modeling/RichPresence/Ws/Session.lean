import RichPresence.Ws.Transport

namespace RichPresence.Ws

open Lib

namespace ClientSlot

/-- What a sink that loses nothing makes of one `SET_ACTIVITY` message: the slot
afterwards, and the command if it is forwarded. -/
def served (clock : Nat) (event : ActivityCmd) (slot : ClientSlot) : ClientSlot × Option ActivityCmd :=
  let cmd := (confirmed clock slot.queryClientId event).2
  if event.activity.isNone then (slot.forgetPublished event.pid, some cmd)
  else match slot.notePublished ⟨event.applicationId.or slot.queryClientId, event.pid, event.nonce⟩ with
    | (.admitted _, slot) => (slot, some cmd)
    | (.refusedFull, slot) => (slot, none)

/-- The same for any command, with whether the client is still there. -/
def dispatched (settings : Settings) (moment : Moment) (event : ActivityCmd) (slot : ClientSlot) :
    ClientSlot × Option ActivityCmd × Bool :=
  match CommandKind.of event.cmd with
  | .setActivity =>
      if settings.setActivity then
        ((slot.served moment.clock event).1, (slot.served moment.clock event).2,
          (confirmed moment.clock slot.queryClientId event).1.isNone || moment.replies)
      else (slot, none, true)
  | .browser =>
      if settings.secondaryEvents then (slot, if hasCode event then some event else none, moment.replies)
      else (slot, none, true)
  | .answeredIfEnabled => (slot, none, !settings.secondaryEvents || moment.replies)
  | .answered => (slot, none, moment.replies)

def clears (slot : ClientSlot) : List ActivityCmd := slot.published.map clearForSlot

end ClientSlot

def PumpEvent.client : PumpEvent → ClientId
  | connect _ id _ => id
  | disconnect _ id => id
  | message _ id _ => id

/-- One connection: its slot while it is registered, and what was sent for it. -/
structure Session where
  slot : Option ClientSlot
  sent : List ActivityCmd

namespace Session

variable (decode : String → Option ActivityCmd) (settings : Settings) (s : Session)

/-- The event up to the point where the connection may end, and whether it does. -/
def handled : PumpEvent → Session × Bool
  | .connect moment _ upgrade =>
      if upgrade.accepted && moment.replies then
        ({ s with slot := some { queryClientId := upgrade.clientId } }, false)
      else (s, false)
  | .disconnect _ _ => (s, true)
  | .message moment _ message =>
      match s.slot with
      | none => (s, false)
      | some slot =>
          match readCommand decode message with
          | none => (s, false)
          | some event =>
              let (slot, cmd, alive) := slot.dispatched settings moment event
              (⟨some slot, s.sent ++ cmd.toList⟩, !alive)

def finish : Session := ⟨none, s.sent ++ s.slot.elim [] ClientSlot.clears⟩

def step (id : ClientId) (e : PumpEvent) : Session :=
  if e.client = id then
    if (s.handled decode settings e).2 then (s.handled decode settings e).1.finish
    else (s.handled decode settings e).1
  else s

def run (id : ClientId) (events : List PumpEvent) : Session :=
  events.foldl (fun s e => s.step decode settings id e) s

end Session

namespace Transport

def forward (id : ClientId) (cmd : ActivityCmd) (t : Transport) : Transport :=
  { t with
    sink := { t.sink with channel := t.sink.channel.push ⟨t.issued, id, cmd⟩ }
    issued := t.issued + 1 }

def sentFor (id : ClientId) (t : Transport) : List ActivityCmd :=
  (t.sink.channel.carried.filter fun i => i.client = id).map Issued.cmd

/-- The sink has lost nothing and keeps nothing back. -/
structure Lossless (t : Transport) : Prop where
  closed : t.sink.closed = false
  pending : t.sink.pending = []

def session (id : ClientId) (t : Transport) : Session := ⟨t.clients.lookup id, t.sentFor id⟩

/-- The transport did nothing but bring the session of one client to this point. -/
structure Serves (id : ClientId) (s : Session) (t u : Transport) : Prop where
  lossless : u.Lossless
  session : u.session id = s
  others : ∀ j, j ≠ id → u.session j = t.session j

variable {id : ClientId} {t u v : Transport}

namespace Serves

variable {s s' : Session}

theorem refl (h : t.Lossless) (id : ClientId) : Serves id (t.session id) t t := ⟨h, rfl, fun _ _ => rfl⟩

theorem trans (h : Serves id s t u) (h' : Serves id s' u v) : Serves id s' t v :=
  ⟨h'.lossless, h'.session, fun j hj => (h'.others j hj).trans (h.others j hj)⟩

theorem slot (h : Serves id s t u) : u.clients.lookup id = s.slot := congrArg Session.slot h.session

theorem sent (h : Serves id s t u) : u.sentFor id = s.sent := congrArg Session.sent h.session

theorem forward (h : t.Lossless) (id : ClientId) (cmd : ActivityCmd) :
    Serves id ⟨t.clients.lookup id, t.sentFor id ++ [cmd]⟩ t (t.forward id cmd) where
  lossless := ⟨h.closed, h.pending⟩
  session := by simp [Transport.session, sentFor, Transport.forward]
  others j hj := by simp [Transport.session, sentFor, Transport.forward, hj.symm]

theorem register (h : t.Lossless) (slot : ClientSlot) :
    Serves id ⟨some slot, t.sentFor id⟩ t { t with clients := t.clients.insert id slot } := by
  refine ⟨⟨h.closed, h.pending⟩, ?_, fun j hj => ?_⟩
  · rw [Transport.session, AList.lookup_insert]
    rfl
  · rw [Transport.session, AList.lookup_insert_ne hj]
    rfl

theorem modify (h : t.Lossless) {slot : ClientSlot} (hslot : t.clients.lookup id = some slot)
    (f : ClientSlot → ClientSlot) : Serves id ⟨some (f slot), t.sentFor id⟩ t (t.modify id f) := by
  rw [Transport.modify, hslot]
  exact register h (f slot)

theorem remove (h : t.Lossless) : Serves id ⟨none, t.sentFor id⟩ t { t with clients := t.clients.erase id } := by
  refine ⟨⟨h.closed, h.pending⟩, ?_, fun j hj => ?_⟩
  · rw [Transport.session, AList.lookup_erase]
    rfl
  · rw [Transport.session, AList.lookup_erase_ne hj]
    rfl

end Serves

variable {slot : ClientSlot}

theorem Lossless.hasRoom (h : t.Lossless) : t.sink.HasRoom none := ⟨h.closed, fun _ hn => by cases hn⟩

@[simp] theorem run_emit (h : t.Lossless) (cmd : ActivityCmd) :
    Script.run (act none) (Pump.emit id cmd) t = (true, t.forward id cmd) := by
  show act none (.emit id cmd) t = _
  rw [act, Sink.emit, Sink.tryEmit, if_pos h.hasRoom]
  rfl

theorem run_tryEmit (h : t.Lossless) (cmd : ActivityCmd) :
    Script.run (act none) (Pump.tryEmit id cmd) t = (.sent, t.forward id cmd) := by
  show act none (.tryEmit id cmd) t = _
  rw [act, Sink.tryEmit, if_pos h.hasRoom]
  rfl

theorem run_backlog (h : t.Lossless) : Script.run (act none) Pump.backlog t = (0, t) := by
  show act none .backlog t = _
  rw [act, h.pending]
  rfl

theorem run_flushPending (h : t.Lossless) : Script.run (act none) Pump.flushPending t = ((), t) := by
  rw [Pump.flushPending, Script.run_bind, run_backlog h]
  rfl

theorem run_clears (h : t.Lossless) (now : Nat) (published : List PublishedSlot) :
    Serves id ⟨t.clients.lookup id, t.sentFor id ++ published.map clearForSlot⟩ t
      (Script.run (act none) (forM published fun entry => do
        match ← Pump.tryEmit id (clearForSlot entry) with
        | .sent => return
        | .full _ => Pump.stageClear now id entry
        | .closed => Pump.countShed) t).2 := by
  induction published generalizing t with
  | nil =>
      rw [List.map_nil, List.append_nil]
      exact .refl h id
  | cons entry published ih =>
      rw [List.forM_cons, Script.run_bind, Script.run_bind, run_tryEmit h]
      have hone := Serves.forward h id (clearForSlot entry)
      have hrest := ih hone.lossless
      rw [hone.slot, hone.sent, List.append_assoc, List.singleton_append] at hrest
      exact hone.trans hrest

theorem run_removeAndClear (h : t.Lossless) (now : Nat) :
    Serves id (t.session id).finish t (Script.run (act none) (Pump.removeAndClear now id) t).2 := by
  have hgone := @Serves.remove id t h
  have hremove : Script.run (act none) (Pump.remove id) t =
      (t.clients.lookup id, { t with clients := t.clients.erase id }) := rfl
  rw [Pump.removeAndClear, Script.run_bind, hremove, Session.finish, session]
  cases hslot : t.clients.lookup id with
  | none =>
      rw [Option.elim_none, List.append_nil]
      exact hgone
  | some slot =>
      simp only [Script.run_bind, run_flushPending hgone.lossless]
      have hclears := @run_clears id _ hgone.lossless now slot.published
      rw [hgone.slot, hgone.sent] at hclears
      exact hgone.trans hclears

theorem run_handleSetActivity_direct (h : t.Lossless) (moment : Moment) (queryClientId : Option AppId)
    (event : ActivityCmd) :
    Script.run (act none) (handleSetActivity moment id queryClientId event .direct) t =
      (((confirmed moment.clock queryClientId event).1.isNone || moment.replies, true),
        t.forward id (confirmed moment.clock queryClientId event).2) := by
  simp only [handleSetActivity, Script.run_bind, run_emit h, Script.run_pure]

theorem run_notePublished (hslot : t.clients.lookup id = some slot) (entry : PublishedSlot) :
    Script.run (act none) (Pump.notePublished id entry) t =
      (some (slot.notePublished entry).1, t.modify id fun slot => (slot.notePublished entry).2) := by
  show act none (.notePublished id entry) t = _
  rw [act, hslot]
  rfl

theorem run_onSetActivity (h : t.Lossless) (moment : Moment) (hslot : t.clients.lookup id = some slot)
    (event : ActivityCmd) :
    (Script.run (act none) (onSetActivity moment id slot event) t).1 =
        ((confirmed moment.clock slot.queryClientId event).1.isNone || moment.replies) ∧
      Serves id ⟨some (slot.served moment.clock event).1, t.sentFor id ++ (slot.served moment.clock event).2.toList⟩ t
        (Script.run (act none) (onSetActivity moment id slot event) t).2 := by
  cases hclear : event.activity.isNone with
  | true =>
      have hdirect : forwardOf true (0 != 0) none = .direct := rfl
      have hsent := Serves.forward h id (confirmed moment.clock slot.queryClientId event).2
      have hforgot := Serves.modify hsent.lossless (hsent.slot.trans hslot) (·.forgetPublished event.pid)
      rw [hsent.sent] at hforgot
      simp only [onSetActivity, hclear, if_true, Script.run_bind, Script.run_pure, run_backlog h, hdirect,
        run_handleSetActivity_direct h, ClientSlot.served, Option.toList_some]
      exact ⟨trivial, hsent.trans hforgot⟩
  | false =>
      have hnoted := Serves.modify h hslot fun known =>
        (known.notePublished ⟨event.applicationId.or slot.queryClientId, event.pid, event.nonce⟩).2
      simp only [onSetActivity, hclear, Bool.false_eq_true, if_false, Script.run_bind, run_notePublished hslot,
        run_backlog hnoted.lossless, ClientSlot.served]
      cases hnote : slot.notePublished ⟨event.applicationId.or slot.queryClientId, event.pid, event.nonce⟩ with
      | mk admission slot' =>
          rw [hnote] at hnoted
          cases admission with
          | admitted displaced =>
              have hdirect : forwardOf false (0 != 0) (some (.admitted displaced)) = .direct := rfl
              have hsent := Serves.forward hnoted.lossless id (confirmed moment.clock slot.queryClientId event).2
              rw [hnoted.slot, hnoted.sent] at hsent
              simp only [hdirect, run_handleSetActivity_direct hnoted.lossless, if_true, Script.run_pure,
                Option.toList_some]
              exact ⟨trivial, hnoted.trans hsent⟩
          | refusedFull =>
              rw [Option.toList_none, List.append_nil]
              exact ⟨rfl, hnoted⟩

theorem run_handleBrowserCommand (h : t.Lossless) (moment : Moment) (event : ActivityCmd) :
    (Script.run (act none) (handleBrowserCommand moment id event) t).1 = moment.replies ∧
      Serves id ⟨t.clients.lookup id, t.sentFor id ++ (if hasCode event then some event else none).toList⟩ t
        (Script.run (act none) (handleBrowserCommand moment id event) t).2 := by
  rw [handleBrowserCommand]
  split
  next =>
      rw [Script.run_bind, run_emit h]
      exact ⟨rfl, Serves.forward h id event⟩
  next =>
      rw [Option.toList_none, List.append_nil]
      exact ⟨rfl, .refl h id⟩

theorem run_dispatch (h : t.Lossless) (settings : Settings) (moment : Moment)
    (hslot : t.clients.lookup id = some slot) (event : ActivityCmd) :
    (Script.run (act none) (dispatch settings moment id slot event) t).1 =
        (slot.dispatched settings moment event).2.2 ∧
      Serves id
        ⟨some (slot.dispatched settings moment event).1,
          t.sentFor id ++ (slot.dispatched settings moment event).2.1.toList⟩ t
        (Script.run (act none) (dispatch settings moment id slot event) t).2 := by
  have hidle : Serves id ⟨some slot, t.sentFor id ++ (none : Option ActivityCmd).toList⟩ t t := by
    rw [Option.toList_none, List.append_nil, ← hslot]
    exact .refl h id
  rw [dispatch, ClientSlot.dispatched]
  cases CommandKind.of event.cmd with
  | setActivity =>
      cases settings.setActivity with
      | true => exact run_onSetActivity h moment hslot event
      | false => exact ⟨rfl, hidle⟩
  | browser =>
      cases settings.secondaryEvents with
      | true => exact hslot ▸ run_handleBrowserCommand h moment event
      | false => exact ⟨rfl, hidle⟩
  | answeredIfEnabled => exact ⟨rfl, hidle⟩
  | answered => exact ⟨rfl, hidle⟩

theorem run_handle (h : t.Lossless) (decode : String → Option ActivityCmd) (settings : Settings) (e : PumpEvent) :
    Serves e.client ((t.session e.client).step decode settings e.client e) t
      (Script.run (act none) (e.handle decode settings) t).2 := by
  rw [Session.step, if_pos rfl]
  cases e with
  | connect moment id upgrade =>
      rw [PumpEvent.handle, onConnect, Session.handled]
      split
      · exact Serves.register h _
      · exact .refl h id
  | disconnect moment id => exact run_removeAndClear h moment.now
  | message moment id message =>
      have hlookup : Script.run (act none) (Pump.lookup id) t = (t.clients.lookup id, t) := rfl
      have hidle : Serves id ⟨t.clients.lookup id, t.sentFor id⟩ t t := .refl h id
      rw [PumpEvent.handle, onMessage, Script.run_bind, run_flushPending h, Script.run_bind, hlookup]
      rcases hslot : t.clients.lookup id with _ | slot
      · rw [hslot] at hidle
        simp only [Session.handled, session, PumpEvent.client, hslot]
        exact hidle
      · rw [hslot] at hidle
        simp only [Session.handled, session, PumpEvent.client, hslot]
        cases readCommand decode message with
        | none => exact hidle
        | some event =>
            obtain ⟨halive, hserved⟩ := run_dispatch h settings moment hslot event
            simp only [Script.run_bind, halive]
            cases (slot.dispatched settings moment event).2.2 with
            | true => exact hserved
            | false =>
                have hgone := @run_removeAndClear id _ hserved.lossless moment.now
                rw [hserved.session] at hgone
                exact hserved.trans hgone

theorem run_pumpLoop (h : t.Lossless) (decode : String → Option ActivityCmd) (settings : Settings)
    (events : List PumpEvent) (id : ClientId) :
    (Script.run (act none) (pumpLoop decode settings events) t).2.session id =
      (t.session id).run decode settings id events := by
  induction events generalizing t with
  | nil => rfl
  | cons e events ih =>
      have hone := run_handle h decode settings e
      rw [pumpLoop, List.forM_cons, Script.run_bind]
      have hrest := ih hone.lossless
      rw [pumpLoop] at hrest
      rw [hrest, Session.run, Session.run, List.foldl_cons]
      by_cases hid : id = e.client
      · rw [hid, hone.session]
      · rw [hone.others id hid, Session.step, if_neg (Ne.symm hid)]

end Transport

end RichPresence.Ws
