import RichPresence.Bridge.ProcPump
import RichPresence.Ipc.ConnectionLoss

namespace RichPresence.Ipc

/-- The commands the bridge takes for presence; the rest is fanned out as it is. -/
def presence (sent : List ActivityCmd) : List ActivityCmd := sent.filter fun cmd => cmd.cmd = "SET_ACTIVITY"

@[simp] theorem presence_append (xs ys : List ActivityCmd) : presence (xs ++ ys) = presence xs ++ presence ys :=
  List.filter_append xs ys

namespace Pump

variable {W : Wire} {s t : Pump}

/-- The history holds the pids of the commands that were forwarded. -/
def Tracks (s : Pump) : Prop := ∀ pid, pid ∈ s.ipc.publishedPids ↔ ∃ cmd ∈ presence s.sent, cmd.pid = pid

/-- No command reached the bridge: the pid may be new, if the history is full. -/
def Quiet (s t : Pump) : Prop :=
  presence t.sent = presence s.sent ∧ t.ipc.publishedPids = s.ipc.publishedPids ∧
    (t.ipc.pid = s.ipc.pid ∨ s.ipc.publishedPids ≠ [])

/-- A command reached the bridge under the current client id, and its pid is in the history. -/
def Forwards (s t : Pump) (cmd : ActivityCmd) : Prop :=
  presence t.sent = presence s.sent ++ [cmd] ∧ cmd.applicationId = some s.ipc.clientId ∧
    t.ipc.clientId = s.ipc.clientId ∧ cmd.args.isSome ∧
    t.ipc.pid = cmd.pid ∧ ∀ q, q ∈ t.ipc.publishedPids ↔ q ∈ s.ipc.publishedPids ∨ q = cmd.pid

theorem forwarded_args {now : Nat} {cmd : ActivityCmd} (h : cmd.args.isSome) :
    (s.forwarded now cmd).args.isSome := by
  simp [forwarded, Commands.setActivityResponse, ActivityCmd.fix, ActivityCmd.mapActivity, h]

theorem handleSetActivity_cases (now : Nat) {cmd : ActivityCmd} (hcmd : cmd.cmd = "SET_ACTIVITY") :
    Quiet s (s.handleSetActivity W now cmd) ∨ ∃ sent, Forwards s (s.handleSetActivity W now cmd) sent := by
  cases hargs : cmd.args.isSome with
  | false =>
      have hnone : cmd.args = none := by simpa using hargs
      obtain ⟨hsent, hipc⟩ := @handleSetActivity_malformed W s now cmd hnone
      exact .inl ⟨by rw [hsent], by rw [hipc], .inl (by rw [hipc])⟩
  | true =>
      cases hknown : (admitPid s.ipc.publishedPids cmd.pid).1 with
      | false =>
          obtain ⟨hsent, hipc⟩ := @handleSetActivity_refused W s now cmd hargs hknown
          exact .inl ⟨by rw [hsent], by rw [hipc], .inr (admitPid_full hknown)⟩
      | true =>
          obtain ⟨hsent, hipc⟩ := @handleSetActivity_admitted W s now cmd hargs hknown
          have hname : (s.forwarded now cmd).cmd = "SET_ACTIVITY" := hcmd
          refine .inr ⟨s.forwarded now cmd, ?_, rfl, by rw [hipc], forwarded_args hargs, ?_, fun q => ?_⟩
          · rw [hsent, presence_append, presence, presence, List.filter_singleton]
            simp [hname]
          · rw [hipc, forwarded_pid]
          · rw [hipc, forwarded_pid, mem_tracked hknown]

theorem quiet_emit {cmd : ActivityCmd} (h : cmd.cmd ≠ "SET_ACTIVITY") (body : Value) :
    Quiet s ((s.emit cmd).reply W body) := by
  refine ⟨?_, rfl, .inl rfl⟩
  rw [reply_sent, emit, presence_append]
  simp [presence, h]

theorem onFrame_cases (moment : Moment) (message : String) :
    Quiet s (s.onFrame W moment message).1 ∨ ∃ sent, Forwards s (s.onFrame W moment message).1 sent := by
  have hquiet (body : Value) : Quiet s (s.reply W body) := ⟨rfl, rfl, .inl rfl⟩
  rw [onFrame]
  split
  next => exact .inl ⟨rfl, rfl, .inl rfl⟩
  next =>
      split
      next => exact .inl (hquiet _)
      next cmd _ =>
          split
          next => exact .inl (hquiet _)
          next => exact .inl (hquiet _)
          next hc => exact handleSetActivity_cases moment.now hc
          next => exact .inl (hquiet _)
          next => exact .inl (hquiet _)
          next hc => exact .inl (quiet_emit (by simp [hc]) _)
          next hc => exact .inl (quiet_emit (by simp [hc]) _)
          next hc => exact .inl (quiet_emit (by simp [hc]) _)
          next hc => exact .inl (quiet_emit (by simp [hc]) _)
          next => exact .inl (hquiet _)

theorem sendEmpty_all_presence (pids : List Nat) (s : Pump) :
    presence (pids.foldl sendEmpty s).sent = presence s.sent ++ pids.map (ActivityCmd.clear none) := by
  induction pids generalizing s with
  | nil => simp
  | cons pid pids ih =>
      have hone : presence (s.sendEmpty pid).sent = presence s.sent ++ [.clear none pid] :=
        presence_append s.sent [.clear none pid]
      rw [List.foldl_cons, ih, hone, List.map_cons, List.append_assoc, List.singleton_append]

theorem clearAll_presence (s : Pump) (pid : Nat) :
    presence (s.clearAll pid).sent = presence s.sent ++ (clearPids s.ipc pid).1.map (ActivityCmd.clear none) :=
  sendEmpty_all_presence _ _

/-- The clear a close frame is answered with: it names the current client. -/
def closing (s : Pump) : ActivityCmd :=
  { ActivityCmd.clear (some s.ipc.clientId) s.ipc.pid with nonce := s.ipc.nonce }

theorem onClose_presence (s : Pump) :
    presence s.onClose.sent =
      presence s.sent ++ s.closing :: (s.ipc.publishedPids.filter (· ≠ s.ipc.pid)).map (ActivityCmd.clear none) := by
  have hone : presence (s.emit s.closing).sent = presence s.sent ++ [s.closing] :=
    presence_append s.sent [s.closing]
  have hall := sendEmpty_all_presence (s.ipc.publishedPids.filter (· ≠ s.ipc.pid)) (s.emit s.closing)
  rw [hone, List.append_assoc, List.singleton_append] at hall
  exact hall

end Pump

section Turns

variable {W : Wire} {world : Nat → Moment} {ending : Ending} {s t : Head} {out : Pump}

theorem turn_cases (ht : pumpTurn W world ending s = .inl t) :
    s.pump.Quiet t.pump ∨ ∃ cmd, s.pump.Forwards t.pump cmd := by
  obtain ⟨type, message, rest, -, hd, -, -⟩ := pumpTurn_next ht
  have hpump : t.pump = (s.pump.dispatch W (world s.turn) message type).1 := by rw [hd]
  rw [hpump]
  cases type with
  | handshake =>
      obtain ⟨hsent, hpids, -⟩ := Pump.onHandshake_spec (W := W) (world s.turn).user s.pump message
      refine .inl ⟨congrArg presence hsent, hpids, .inl ?_⟩
      rw [Pump.dispatch, Pump.onHandshake]
      split
      next => rfl
      next => split <;> [rfl; split <;> rfl]
  | frame => exact Pump.onFrame_cases (world s.turn) message
  | close => simp [Pump.dispatch] at hd
  | ping => exact .inl ⟨rfl, rfl, .inl rfl⟩
  | pong => exact .inl ⟨rfl, rfl, .inl rfl⟩

theorem last_turn_cases (ht : pumpTurn W world ending s = .inr out) :
    (RefusesHandshake W ending s ∧ presence out.sent = presence s.pump.sent) ∨
    (∃ message rest, readPacket ending s.input = .packet .close message rest ∧ out = s.pump.onClose) ∨
    presence out.sent =
      presence s.pump.sent ++ (clearPids s.pump.ipc s.pump.ipc.pid).1.map (ActivityCmd.clear none) := by
  simp only [pumpTurn] at ht
  split at ht
  next =>
      obtain rfl := Sum.inr.inj ht
      exact .inr (.inr (Pump.clearAll_presence _ _))
  next =>
      obtain rfl := Sum.inr.inj ht
      exact .inr (.inr (Pump.clearAll_presence _ _))
  next =>
      obtain rfl := Sum.inr.inj ht
      exact .inr (.inr (Pump.clearAll_presence _ _))
  next type message rest hp =>
      split at ht
      next pump hd =>
          obtain rfl := Sum.inr.inj ht
          cases type with
          | handshake =>
              obtain ⟨hsent, -, hstop⟩ := Pump.onHandshake_spec (W := W) (world s.turn).user s.pump message
              obtain ⟨data, hw, hrefused⟩ := hstop.mp (congrArg Prod.snd hd)
              refine .inl ⟨⟨message, rest, data, hp, hw, hrefused⟩, ?_⟩
              rw [← hsent]
              exact congrArg (fun p => presence p.1.sent) hd.symm
          | frame =>
              have hgo := s.pump.onFrame_goes_on (W := W) (world s.turn) message
              exact absurd ((congrArg Prod.snd hd).symm.trans hgo) (by simp)
          | close => exact .inr (.inl ⟨message, rest, hp, (Prod.mk.inj hd).1.symm⟩)
          | ping => simp [Pump.dispatch] at hd
          | pong => simp [Pump.dispatch] at hd
      next => cases ht

theorem tracks_turn (h : s.pump.Tracks) (ht : pumpTurn W world ending s = .inl t) : t.pump.Tracks := by
  intro pid
  rcases turn_cases ht with ⟨hsent, hpids, -⟩ | ⟨cmd, hsent, -, -, -, -, hpids⟩
  · rw [hsent, hpids]
    exact h pid
  · rw [hpids, h pid, hsent]
    constructor
    · rintro (⟨c, hc, rfl⟩ | rfl)
      · exact ⟨c, List.mem_append_left _ hc, rfl⟩
      · exact ⟨cmd, by simp, rfl⟩
    · rintro ⟨c, hc, rfl⟩
      rcases List.mem_append.mp hc with hc | hc
      · exact .inl ⟨c, hc, rfl⟩
      · exact .inr (by rw [List.mem_singleton.mp hc])

theorem idle_turn (h : s.pump.Tracks) (hidle : presence s.pump.sent = [] → s.pump.ipc.pid = 0)
    (ht : pumpTurn W world ending s = .inl t) : presence t.pump.sent = [] → t.pump.ipc.pid = 0 := by
  intro hnone
  rcases turn_cases ht with ⟨hsent, -, hpid⟩ | ⟨cmd, hsent, -⟩
  · rw [hsent] at hnone
    rcases hpid with hpid | hfull
    · rw [hpid]
      exact hidle hnone
    · obtain ⟨q, hq⟩ := List.exists_mem_of_ne_nil _ hfull
      obtain ⟨c, hc, -⟩ := (h q).mp hq
      rw [hnone] at hc
      cases hc
  · rw [hsent] at hnone
    simp at hnone

end Turns

def lastHead (W : Wire) (world : Nat → Moment) (ending : Ending) (input : Bytes) : Head :=
  (pumpLoop W world ending).last { input }

theorem lastHead_tracks (W : Wire) (world : Nat → Moment) (ending : Ending) (input : Bytes) :
    (lastHead W world ending input).pump.Tracks ∧
      (presence (lastHead W world ending input).pump.sent = [] →
        (lastHead W world ending input).pump.ipc.pid = 0) ∧
      pumpTurn W world ending (lastHead W world ending input) = .inr (handleStream W world ending input) := by
  obtain ⟨hs, hb⟩ := (pumpLoop W world ending).ends { input }
  obtain ⟨htracks, hidle⟩ := hs.invariant
    (fun s => s.pump.Tracks ∧ (presence s.pump.sent = [] → s.pump.ipc.pid = 0))
    (fun _ _ h ht => ⟨tracks_turn h.1 ht, idle_turn h.1 h.2 ht⟩) ⟨by simp [Pump.Tracks, presence], fun _ => rfl⟩
  exact ⟨htracks, hidle, hb⟩

end RichPresence.Ipc
