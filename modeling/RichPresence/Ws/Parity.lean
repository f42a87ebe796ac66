import RichPresence.Ipc.Covered
import RichPresence.Ws.Publications

namespace RichPresence

open Lib

/-- The same commands on one connection of each transport, with what each made of
the earlier ones. -/
structure Twins where
  ipc : Ipc.Pump
  ws : Ws.Transport
  ipcLog : List (ActivityCmd × Bool) := []
  wsLog : List (ActivityCmd × Bool) := []

namespace Twins

variable (W : Ipc.Wire) (id : ClientId)

def onIpc (s : Twins) (message : Ws.Moment × ActivityCmd) : Ipc.Pump :=
  s.ipc.handleSetActivity W message.1.clock message.2

/-- The sink has no bound, so it loses nothing. -/
def onWs (s : Twins) (message : Ws.Moment × ActivityCmd) : Ws.Transport :=
  match s.ws.clients.lookup id with
  | some slot => (Script.run (Ws.Transport.act none) (Ws.onSetActivity message.1 id slot message.2) s.ws).2
  | none => s.ws

def ipcForwards (s : Twins) (message : Ws.Moment × ActivityCmd) : Bool :=
  s.ipc.sent.length < (s.onIpc W message).sent.length

def wsForwards (s : Twins) (message : Ws.Moment × ActivityCmd) : Bool :=
  (s.ws.sentFor id).length < ((s.onWs id message).sentFor id).length

def step (s : Twins) (message : Ws.Moment × ActivityCmd) : Twins where
  ipc := s.onIpc W message
  ws := s.onWs id message
  ipcLog := s.ipcLog ++ [(message.2, s.ipcForwards W message)]
  wsLog := s.wsLog ++ [(message.2, s.wsForwards id message)]

def start (clientId : AppId) (queryClientId : Option AppId) : Twins where
  ipc := { ipc := { handshake := true, clientId } }
  ws := { clients := (∅ : Table ClientId Ws.ClientSlot).insert id { queryClientId } }

/-- The pid holds a publish, or there is room for one more. -/
def MayPublish (log : List (ActivityCmd × Bool)) (pid : Nat) : Prop := pid ∈ heldBy log ∨ (heldBy log).card < 16

/-- Both transports make the same of a command, and of a publish what the pids that
hold one say. -/
structure Agrees (s : Twins) (message : Ws.Moment × ActivityCmd) : Prop where
  same : s.ipcForwards W message = s.wsForwards id message
  ipc : message.2.activity.isSome → (s.ipcForwards W message = true ↔ MayPublish s.ipcLog message.2.pid)
  ws : message.2.activity.isSome → (s.wsForwards id message = true ↔ MayPublish s.wsLog message.2.pid)

/-- The IPC history never lets a pid go: once it is full, a pid that is not in it
must come as a publish, and when as many pids hold one. -/
def Fits (s : Twins) (message : Ws.Moment × ActivityCmd) : Prop :=
  message.2.pid ∈ s.ipc.ipc.publishedPids ∨ s.ipc.ipc.publishedPids.length < 16 ∨
    (message.2.activity.isSome ∧ 16 ≤ (heldBy s.wsLog).card)

instance (s : Twins) (message : Ws.Moment × ActivityCmd) : Decidable (s.Fits message) :=
  inferInstanceAs (Decidable (_ ∨ _))

variable {W id} {s : Twins} {message : Ws.Moment × ActivityCmd}

section Ipc

theorem ipcForwards_eq (h : message.2.args.isSome) :
    s.ipcForwards W message = (Ipc.admitPid s.ipc.ipc.publishedPids message.2.pid).1 := by
  rw [ipcForwards, onIpc]
  cases hknown : (Ipc.admitPid s.ipc.ipc.publishedPids message.2.pid).1 with
  | true =>
      rw [(Ipc.Pump.handleSetActivity_admitted h hknown).1]
      simp
  | false =>
      rw [(Ipc.Pump.handleSetActivity_refused h hknown).1]
      simp

theorem admitPid_iff {history : List Nat} {pid : Nat} :
    (Ipc.admitPid history pid).1 = true ↔ pid ∈ history ∨ history.length < 16 := by
  by_cases hm : pid ∈ history
  · simp [Ipc.admitPid, hm]
  · by_cases hlen : history.length ≥ 16
    · simp [Ipc.admitPid, Ipc.maxTrackedPids, hm, hlen]
    · simp [Ipc.admitPid, Ipc.maxTrackedPids, hm, hlen]
      omega

theorem trackPid_of_mem {history : List Nat} {pid : Nat} (h : pid ∈ history) :
    Ipc.trackPid history pid = history.erase pid ++ [pid] := by
  simp [Ipc.trackPid, Ipc.admitPid, h]

theorem nodup_refreshed {history : List Nat} (pid : Nat) (h : history.Nodup) :
    (history.erase pid ++ [pid]).Nodup := by
  rw [List.nodup_append]
  refine ⟨h.erase _, List.nodup_singleton _, fun a ha b hb => ?_⟩
  rw [List.mem_singleton.mp hb]
  exact (h.mem_erase_iff.mp ha).1

/-- The history as the pump keeps it: no pid twice, and sixteen at most. -/
structure Kept (history : List Nat) : Prop where
  nodup : history.Nodup
  length : history.length ≤ 16

theorem Kept.refreshed {history : List Nat} {pid : Nat} (h : Kept history) (hm : pid ∈ history) :
    Kept (history.erase pid ++ [pid]) := by
  refine ⟨nodup_refreshed pid h.nodup, ?_⟩
  have hlen := h.length
  have hpos := List.length_pos_of_mem hm
  rw [List.length_append, List.length_erase_of_mem hm, List.length_singleton]
  omega

theorem Kept.admitted {history : List Nat} {pid : Nat} (h : Kept history)
    (hknown : (Ipc.admitPid history pid).1 = true) : Kept (Ipc.trackPid (Ipc.admitPid history pid).2 pid) := by
  rw [trackPid_of_mem ((Ipc.mem_admitPid hknown).mpr (.inr rfl))]
  refine Kept.refreshed ?_ ((Ipc.mem_admitPid hknown).mpr (.inr rfl))
  by_cases hm : pid ∈ history
  · rw [Ipc.admitPid, if_pos hm]
    exact h.refreshed hm
  · have hlen : history.length < 16 := (admitPid_iff.mp hknown).resolve_left hm
    rw [Ipc.admitPid, if_neg hm, if_neg (by simpa [Ipc.maxTrackedPids] using hlen)]
    refine ⟨?_, by rw [List.length_append, List.length_singleton]; omega⟩
    have hback := nodup_refreshed pid h.nodup
    rwa [List.erase_of_not_mem hm] at hback

end Ipc

section Ws

open Ws

variable {slot : ClientSlot} {event : ActivityCmd}

theorem served_eq (clock : Nat) (event : ActivityCmd) (slot : ClientSlot) :
    (slot.served clock event).1 = (slot.tracked event true).1 ∧
      (slot.served clock event).2.isSome = (slot.tracked event true).2 := by
  rw [ClientSlot.served]
  cases h : event.activity.isNone with
  | true =>
      rw [ClientSlot.tracked_clear h]
      exact ⟨rfl, rfl⟩
  | false =>
      rw [if_neg (by simp)]
      cases hn : slot.notePublished (slot.record event) with
      | mk admission noted =>
          have hn' := hn
          rw [ClientSlot.record] at hn'
          rw [hn']
          cases admission with
          | admitted displaced =>
              rw [ClientSlot.tracked_admitted h hn]
              exact ⟨rfl, rfl⟩
          | refusedFull =>
              rw [ClientSlot.tracked_refused h hn]
              exact ⟨rfl, rfl⟩

/-- The client is registered, its list has the pids that hold a publish, and the sink has lost nothing. -/
structure Serving (id : ClientId) (s : Twins) (slot : ClientSlot) : Prop where
  lossless : s.ws.Lossless
  registered : s.ws.clients.lookup id = some slot
  listed : Publications.Listed ⟨slot, [], s.wsLog⟩
  held : ∀ pid ∈ slot.pids, pid ∈ heldBy s.wsLog

theorem Serving.pids_iff (h : Serving id s slot) {pid : Nat} : pid ∈ slot.pids ↔ pid ∈ heldBy s.wsLog :=
  ⟨h.held pid, h.listed.listed pid⟩

theorem Serving.forwards (h : Serving id s slot) (message : Moment × ActivityCmd) :
    s.wsForwards id message = (slot.tracked message.2 true).2 := by
  have hserves := (Transport.run_onSetActivity h.lossless message.1 h.registered message.2).2
  rw [wsForwards, onWs, h.registered, hserves.sent, ← (served_eq message.1.clock message.2 slot).2]
  cases (slot.served message.1.clock message.2).2 <;> simp

theorem Serving.step (h : Serving id s slot) (hargs : message.2.args.isSome) :
    Serving id (s.step W id message) (slot.tracked message.2 true).1 := by
  have hserves := (Transport.run_onSetActivity h.lossless message.1 h.registered message.2).2
  have hws : (s.step W id message).ws =
      (Script.run (Transport.act none) (onSetActivity message.1 id slot message.2) s.ws).2 := by
    rw [Twins.step, onWs, h.registered]
  have hlisted := (h.listed.step_iff (e := .message message.2 .accepted)).mpr fun _ _ hstray =>
    absurd ⟨hargs, rfl⟩ hstray
  have hheld := h.listed.held h.held hargs
  rw [Publications.step_accepted] at hlisted hheld
  refine ⟨hws ▸ hserves.lossless, ?_, ?_, ?_⟩
  · rw [hws, hserves.slot, (served_eq message.1.clock message.2 slot).1]
  · rw [Twins.step, h.forwards message]
    exact hlisted
  · rw [Twins.step, h.forwards message]
    exact hheld

theorem Serving.mayPublish (h : Serving id s slot) (hpub : message.2.activity.isSome) :
    s.wsForwards id message = true ↔ MayPublish s.wsLog message.2.pid := by
  have hnone : message.2.activity.isNone = false := by simpa using hpub
  have hcard : (heldBy s.wsLog).card = slot.published.length := by
    have hset : heldBy s.wsLog = slot.pids.toFinset := by
      ext p
      rw [List.mem_toFinset]
      exact h.pids_iff.symm
    rw [hset, List.toFinset_card_of_nodup h.listed.distinct, ClientSlot.pids, List.length_map]
  rw [h.forwards, MayPublish, hcard, ← h.pids_iff]
  rcases ClientSlot.notePublished_cases (slot.record message.2) slot with
    ⟨old, hperm, hold, hn⟩ | ⟨hnew, hlen, hn⟩ | ⟨hnew, hlen, hn⟩
  · have hmem : message.2.pid ∈ slot.pids := List.mem_map.mpr ⟨old, hperm.mem_iff.mpr (by simp), hold⟩
    simp [ClientSlot.tracked_admitted hnone hn, hmem]
  · have hfull : ¬slot.published.length < 16 := Nat.not_lt.mpr hlen
    have hnot : message.2.pid ∉ slot.pids := hnew
    simp [ClientSlot.tracked_refused hnone hn, hnot, hfull]
  · have hroom : slot.published.length < 16 := hlen
    simp [ClientSlot.tracked_admitted hnone hn, hroom]

theorem Serving.clears (h : Serving id s slot) (hclear : message.2.activity.isSome = false) :
    s.wsForwards id message = true := by
  rw [h.forwards, ClientSlot.tracked_clear (by simpa using hclear)]

end Ws

/-- Every pid that holds a publish is in the history of the IPC connection, which has
made the same of every command. -/
structure Nested (s : Twins) : Prop where
  log : s.ipcLog = s.wsLog
  kept : Kept s.ipc.ipc.publishedPids
  held : ∀ pid ∈ heldBy s.wsLog, pid ∈ s.ipc.ipc.publishedPids

theorem Nested.card_le (h : s.Nested) : (heldBy s.wsLog).card ≤ s.ipc.ipc.publishedPids.length := by
  rw [← List.toFinset_card_of_nodup h.kept.nodup]
  exact Finset.card_le_card fun p hp => List.mem_toFinset.mpr (h.held p hp)

theorem Nested.card_lt (h : s.Nested) {pid : Nat} (hm : pid ∈ s.ipc.ipc.publishedPids) (hp : pid ∉ heldBy s.wsLog) :
    (heldBy s.wsLog).card < 16 := by
  have hsub : heldBy s.wsLog ⊂ s.ipc.ipc.publishedPids.toFinset := by
    refine (Finset.ssubset_iff_of_subset fun p hp => List.mem_toFinset.mpr (h.held p hp)).mpr ?_
    exact ⟨pid, List.mem_toFinset.mpr hm, hp⟩
  have hlt := Finset.card_lt_card hsub
  rw [List.toFinset_card_of_nodup h.kept.nodup] at hlt
  exact Nat.lt_of_lt_of_le hlt h.kept.length

theorem Nested.mayPublish (h : s.Nested) (hfits : s.Fits message) :
    (Ipc.admitPid s.ipc.ipc.publishedPids message.2.pid).1 = true ↔ MayPublish s.wsLog message.2.pid := by
  rw [admitPid_iff, MayPublish]
  constructor
  · rintro (hm | hlen)
    · by_cases hp : message.2.pid ∈ heldBy s.wsLog
      · exact .inl hp
      · exact .inr (h.card_lt hm hp)
    · exact .inr (Nat.lt_of_le_of_lt h.card_le hlen)
  · rintro (hp | hlt)
    · exact .inl (h.held _ hp)
    · rcases hfits with hm | hlen | ⟨-, hfull⟩
      · exact .inl hm
      · exact .inr hlen
      · omega

variable {slot : Ws.ClientSlot}

theorem agrees_of_fits (hn : s.Nested) (hs : Serving id s slot) (hargs : message.2.args.isSome)
    (hfits : s.Fits message) : s.Agrees W id message := by
  have hipc : s.ipcForwards W message = true ↔ MayPublish s.wsLog message.2.pid := by
    rw [ipcForwards_eq hargs]
    exact hn.mayPublish hfits
  refine ⟨?_, fun _ => hn.log ▸ hipc, fun hpub => hs.mayPublish hpub⟩
  cases hpub : message.2.activity.isSome with
  | true => exact Bool.eq_iff_iff.mpr (hipc.trans (hs.mayPublish hpub).symm)
  | false =>
      rw [hs.clears hpub, ipcForwards_eq hargs, admitPid_iff]
      rcases hfits with hm | hlen | ⟨hpub', -⟩
      · exact .inl hm
      · exact .inr hlen
      · rw [hpub] at hpub'
        cases hpub'

theorem fits_of_agrees (hs : Serving id s slot) (hargs : message.2.args.isSome) (h : s.Agrees W id message) :
    s.Fits message := by
  by_contra hfits
  rw [Fits, not_or, not_or] at hfits
  obtain ⟨hm, hlen, hheld⟩ := hfits
  have hipc : ¬s.ipcForwards W message = true := by
    rw [ipcForwards_eq hargs, admitPid_iff]
    exact not_or.mpr ⟨hm, hlen⟩
  have hws : s.wsForwards id message = true := by
    cases hpub : message.2.activity.isSome with
    | true => exact (hs.mayPublish hpub).mpr (.inr (Nat.not_le.mp fun hle => hheld ⟨hpub, hle⟩))
    | false => exact hs.clears hpub
  exact hipc (h.same.trans hws)

theorem Nested.step (hn : s.Nested) (hargs : message.2.args.isSome) (h : s.Agrees W id message) :
    (s.step W id message).Nested := by
  have hlog : (s.step W id message).wsLog =
      s.wsLog ++ [(message.2, (Ipc.admitPid s.ipc.ipc.publishedPids message.2.pid).1)] := by
    rw [← ipcForwards_eq hargs, h.same]
    rfl
  have hipcLog : (s.step W id message).ipcLog = (s.step W id message).wsLog := by
    rw [hlog, ← hn.log, ← ipcForwards_eq hargs]
    rfl
  cases hknown : (Ipc.admitPid s.ipc.ipc.publishedPids message.2.pid).1 with
  | true =>
      have hpids : (s.step W id message).ipc.ipc.publishedPids =
          Ipc.trackPid (Ipc.admitPid s.ipc.ipc.publishedPids message.2.pid).2 message.2.pid :=
        congrArg Ipc.ConnFacilitator.publishedPids (Ipc.Pump.handleSetActivity_admitted hargs hknown).2
      refine ⟨hipcLog, hpids ▸ hn.kept.admitted hknown, fun p hp => ?_⟩
      rw [hpids, Ipc.mem_tracked hknown]
      rw [hlog, hknown, heldBy_concat] at hp
      cases hpub : message.2.activity with
      | some activity =>
          rw [holdAfter_publish (by simp [hpub]), Finset.mem_insert] at hp
          exact hp.symm.imp_left (hn.held p)
      | none =>
          rw [holdAfter_clear hpub hargs, Finset.mem_erase] at hp
          exact .inl (hn.held p hp.2)
  | false =>
      have hpids : (s.step W id message).ipc.ipc.publishedPids = s.ipc.ipc.publishedPids :=
        (congrArg Ipc.ConnFacilitator.publishedPids (Ipc.Pump.handleSetActivity_refused hargs hknown).2).trans rfl
      refine ⟨hipcLog, hpids ▸ hn.kept, fun p hp => ?_⟩
      rw [hlog, hknown, heldBy_concat] at hp
      exact hpids ▸ hn.held p hp

variable (W id) (clientId : AppId) (queryClientId : Option AppId)

theorem start_nested : (start id clientId queryClientId).Nested :=
  ⟨rfl, ⟨List.nodup_nil, Nat.zero_le _⟩, fun _ hp => by cases hp⟩

theorem start_serving : Serving id (start id clientId queryClientId) { queryClientId } :=
  ⟨⟨rfl, rfl⟩, AList.lookup_insert .., Ws.Publications.start_listed queryClientId, fun _ hp => by cases hp⟩

variable {W id clientId queryClientId}

theorem serving_after {messages : List (Ws.Moment × ActivityCmd)} (hargs : ∀ m ∈ messages, m.2.args.isSome) :
    ∃ slot, Serving id (messages.foldl (step W id) (start id clientId queryClientId)) slot := by
  refine (Along.of_forall hargs).invariant (fun s => ∃ slot, Serving id s slot) ?_
    ⟨_, start_serving id clientId queryClientId⟩
  rintro s m ⟨slot, hs⟩ hm
  exact ⟨_, hs.step hm⟩

theorem nested_after {messages : List (Ws.Moment × ActivityCmd)} (hargs : ∀ m ∈ messages, m.2.args.isSome)
    (hfits : Along (step W id) Fits (start id clientId queryClientId) messages) :
    (messages.foldl (step W id) (start id clientId queryClientId)).Nested := by
  have hboth := hfits.and (Along.of_forall hargs)
  refine (hboth.invariant (fun s => s.Nested ∧ ∃ slot, Serving id s slot) ?_
    ⟨start_nested id clientId queryClientId, _, start_serving id clientId queryClientId⟩).1
  rintro s m ⟨hn, slot, hs⟩ ⟨hfit, hm⟩
  exact ⟨hn.step hm (agrees_of_fits hn hs hm hfit), _, hs.step hm⟩

/-- On one connection of each transport the same commands with arguments get the
same answer, and publishes the one that the pids holding a publish give, exactly
when no pid outside a full IPC history comes too early. -/
theorem same_admissions_iff (W : Ipc.Wire) (id : ClientId) (clientId : AppId) (queryClientId : Option AppId)
    (messages : List (Ws.Moment × ActivityCmd)) (hargs : ∀ m ∈ messages, m.2.args.isSome) :
    Along (step W id) (fun s m => s.Agrees W id m) (start id clientId queryClientId) messages ↔
      Along (step W id) Fits (start id clientId queryClientId) messages := by
  have hpre : ∀ {pre m}, pre ++ [m] <+: messages → (∀ m' ∈ pre, m'.2.args.isSome) ∧ m.2.args.isSome := by
    intro pre m hp
    exact ⟨fun m' hm' => hargs m' (hp.subset (by simp [hm'])), hargs m (hp.subset (by simp))⟩
  constructor
  · intro h
    rw [Along.iff_forall] at h ⊢
    intro pre m hp
    obtain ⟨slot, hs⟩ := serving_after (hpre hp).1
    exact fits_of_agrees hs (hpre hp).2 (h pre m hp)
  · intro h
    rw [Along.iff_forall]
    intro pre m hp
    obtain ⟨slot, hs⟩ := serving_after (hpre hp).1
    have hn := nested_after (hpre hp).1 (h.initial ((List.prefix_append ..).trans hp))
    exact agrees_of_fits hn hs (hpre hp).2 (Along.iff_forall.mp h pre m hp)

def wire : Ipc.Wire := ⟨fun _ => none, fun _ => none, fun _ => ""⟩

def showing (pid : Nat) : ActivityCmd where
  cmd := "SET_ACTIVITY"
  args := some { pid := some pid, activity := some {} }

def leaving (pid : Nat) : ActivityCmd where
  cmd := "SET_ACTIVITY"
  args := some { pid := some pid }

def atNoon (cmd : ActivityCmd) : Ws.Moment × ActivityCmd := (⟨0, 1763200000, true⟩, cmd)

theorem same_admissions_two_pids :
    let messages := [showing 1, showing 2, leaving 1, showing 1].map atNoon
    (∀ m ∈ messages, m.2.args.isSome) ∧
      Along (step wire 1) (fun s m => s.Agrees wire 1 m) (start 1 ⟨"1145360"⟩ none) messages := by
  intro messages
  have hargs : ∀ m ∈ messages, m.2.args.isSome := by decide
  refine ⟨hargs, (same_admissions_iff wire 1 ⟨"1145360"⟩ none messages hargs).mpr ?_⟩
  decide +kernel

/-- Sixteen pids publish and one of them clears its card: the other transport has
room for a seventeenth now, the IPC transport has not. -/
theorem ipc_keeps_cleared_pid :
    let messages := ((List.range 16).map showing ++ [leaving 0]).map atNoon
    let s := messages.foldl (step wire 1) (start 1 ⟨"1145360"⟩ none)
    s.wsForwards 1 (atNoon (showing 16)) = true ∧ s.ipcForwards wire (atNoon (showing 16)) = false := by
  decide +kernel

end Twins

end RichPresence
