import RichPresence.Ipc.Framing

namespace RichPresence

def Value.member (key : String) : Value → Option Value
  | .object members => members.lookup key
  | _ => none

namespace Ipc

open Commands

/-- The one frame that answers a command frame: it carries the nonce of the
command, or a null nonce and the encoding error where nothing decodes. -/
def Answered (W : Wire) (message : String) (out : List Bytes) : Prop :=
  ∃ body, out = [encode .frame (W.text body)] ∧
    match W.command message with
    | some cmd => body.member "nonce" = some cmd.nonce
    | none => body.member "nonce" = some .null ∧
        (body.member "data").bind (Value.member "code") = some (Serde.unsigned 4005)

namespace Packet

def greets (W : Wire) (p : Packet) : Bool :=
  p.type = .handshake ∧ (W.handshake p.body).any fun data => data.v = 1 ∧ data.clientId ≠ ""

/-- What the pump writes for a packet it goes on from. -/
def Answer (W : Wire) (user : RpcUser) (greeted : Bool) (p : Packet) (out : List Bytes) : Prop :=
  match p.type with
  | .handshake => out = if p.greets W then [encode .frame (W.text user.readyPayload)] else []
  | .frame => if greeted then Answered W p.body out else out = []
  | .ping => out = [encode .pong p.body]
  | .close | .pong => out = []

def farewell (W : Wire) (p : Packet) : List Bytes :=
  match p.type, W.handshake p.body with
  | .handshake, some data =>
      if data.v ≠ 1 then [closeFrame W 4004 "Invalid version"] else [closeFrame W 4000 "Invalid client_id"]
  | _, _ => []

end Packet

/-- The frames a sequence of packets is answered with, packet by packet up to
the first one the pump stops at. -/
inductive LockStep (W : Wire) (world : Nat → Moment) : Nat → Bool → List Packet → List Bytes → Prop
  | idle {turn greeted} : LockStep W world turn greeted [] []
  | stopped {turn greeted p ps} : p.stops W = true → LockStep W world turn greeted (p :: ps) (p.farewell W)
  | next {turn greeted p ps out outs} : p.stops W = false → p.Answer W (world turn).user greeted out →
      LockStep W world (turn + 1) (greeted || p.greets W) ps outs →
      LockStep W world turn greeted (p :: ps) (out ++ outs)

theorem reply_nonce (cmd : String) (data : Value) (evt : Option String) (nonce : Value) :
    (reply cmd data evt nonce).member "nonce" = some nonce := by
  simp [reply, Value.member, List.lookup_cons]

theorem rpcError_code (cmd : String) (nonce : Value) (code : Nat) (text : String) :
    ((rpcError cmd nonce code text).member "data").bind (Value.member "code") = some (Serde.unsigned code) := by
  simp [rpcError, reply, Value.member, List.lookup_cons]

theorem setActivityResponse_nonce {cmd : ActivityCmd} {body : Value}
    (h : (setActivityResponse cmd).1 = some body) : body.member "nonce" = some cmd.nonce := by
  obtain ⟨args, -, rfl⟩ := Option.map_eq_some_iff.mp h
  exact reply_nonce _ _ _ _

namespace Pump

variable {W : Wire} {s : Pump}

theorem sendEmpty_all_written (pids : List Nat) (s : Pump) :
    (pids.foldl sendEmpty s).written = s.written := by
  induction pids generalizing s with
  | nil => rfl
  | cons pid pids ih => exact ih (s.sendEmpty pid)

theorem clearAll_written (s : Pump) (pid : Nat) : (s.clearAll pid).written = s.written :=
  sendEmpty_all_written _ _

theorem onClose_written (s : Pump) : s.onClose.written = s.written :=
  sendEmpty_all_written _ _

/-- A frame was answered by one more frame, and the handshake still stands. -/
def Replied (W : Wire) (s t : Pump) (nonce : Value) : Prop :=
  t.ipc.handshake = s.ipc.handshake ∧
    ∃ body, t.written = s.written ++ [encode .frame (W.text body)] ∧ body.member "nonce" = some nonce

theorem replied_reply {t : Pump} {body : Value} {nonce : Value} (hipc : t.ipc.handshake = s.ipc.handshake)
    (hw : t.written = s.written) (hn : body.member "nonce" = some nonce) : Replied W s (t.reply W body) nonce :=
  ⟨hipc, body, by rw [reply, write, hw], hn⟩

theorem handleSetActivity_replies (now : Nat) (s : Pump) (cmd : ActivityCmd) :
    Replied W s (s.handleSetActivity W now cmd) cmd.nonce := by
  rw [handleSetActivity]
  split
  next => exact replied_reply rfl rfl (reply_nonce _ _ _ _)
  next args hargs =>
      have hsome : ({ cmd with applicationId := some s.ipc.clientId }.fix now).args.isSome := by
        simp [ActivityCmd.fix, ActivityCmd.mapActivity, hargs]
      obtain ⟨body, hbody⟩ := Option.isSome_iff_exists.mp (setActivityResponse_isSome hsome)
      have hnonce := setActivityResponse_nonce hbody
      simp only [hbody, Option.elim_some]
      refine replied_reply ?_ ?_ hnonce <;> split <;> rfl

theorem onFrame_replies (moment : Moment) (message : String) (h : s.ipc.handshake = true) :
    (s.onFrame W moment message).1.ipc.handshake = true ∧
      ∃ out, Answered W message out ∧ (s.onFrame W moment message).1.written = s.written ++ out := by
  rw [onFrame, if_neg (by simp [h])]
  cases hcmd : W.command message with
  | none =>
      refine ⟨h, _, ⟨_, rfl, ?_⟩, rfl⟩
      rw [hcmd]
      exact ⟨reply_nonce _ _ _ _, rpcError_code _ _ _ _⟩
  | some cmd =>
      have hreplied : ∀ t, Replied W s t cmd.nonce → t.ipc.handshake = true ∧
          ∃ out, Answered W message out ∧ t.written = s.written ++ out := by
        rintro t ⟨hshake, body, hw, hn⟩
        refine ⟨hshake.trans h, _, ⟨body, rfl, ?_⟩, hw⟩
        rw [hcmd]
        exact hn
      simp only
      split
      -- a presence has a handler of its own, and all other commands are answered from here
      case h_3 => exact hreplied _ (handleSetActivity_replies moment.now s cmd)
      all_goals exact hreplied _ (replied_reply rfl rfl (reply_nonce _ _ _ _))

theorem onHandshake_answer (user : RpcUser) (s : Pump) {p : Packet} (ht : p.type = .handshake)
    (h : p.stops W = false) :
    (s.onHandshake W user p.body).1.ipc.handshake = (s.ipc.handshake || p.greets W) ∧
      (s.onHandshake W user p.body).1.written =
        s.written ++ if p.greets W then [encode .frame (W.text user.readyPayload)] else [] := by
  simp only [Packet.stops, ht] at h
  rw [onHandshake]
  cases hw : W.handshake p.body with
  | none => simp [Packet.greets, hw]
  | some data =>
      have hok : data.v = 1 ∧ ¬ data.clientId = "" := by simpa [hw] using h
      simp [Packet.greets, ht, hw, hok, reply, write]

theorem dispatch_answer (moment : Moment) (s : Pump) {p : Packet} (h : p.stops W = false) :
    (s.dispatch W moment p.body p.type).1.ipc.handshake = (s.ipc.handshake || p.greets W) ∧
      ∃ out, p.Answer W moment.user s.ipc.handshake out ∧
        (s.dispatch W moment p.body p.type).1.written = s.written ++ out := by
  cases ht : p.type with
  | handshake =>
      obtain ⟨hshake, hw⟩ := onHandshake_answer moment.user s ht h
      exact ⟨hshake, _, by simp [Packet.Answer, ht], hw⟩
  | frame =>
      have hgreets : p.greets W = false := by simp [Packet.greets, ht]
      rw [hgreets, Bool.or_false]
      simp only [Packet.Answer, ht, dispatch]
      cases hs : s.ipc.handshake with
      | false =>
          rw [onFrame, if_pos hs]
          exact ⟨hs, [], by simp⟩
      | true => simpa using onFrame_replies moment p.body hs
  | close => simp [Packet.stops, ht] at h
  | ping => exact ⟨by simp [Packet.greets, ht, dispatch, onPing, write], _, by simp [Packet.Answer, ht], rfl⟩
  | pong => exact ⟨by simp [Packet.greets, ht, dispatch], [], by simp [Packet.Answer, ht], by simp [dispatch]⟩

theorem dispatch_farewell (moment : Moment) (s : Pump) {p : Packet} (h : p.stops W = true) :
    (s.dispatch W moment p.body p.type).2 = true ∧
      (s.dispatch W moment p.body p.type).1.written = s.written ++ p.farewell W := by
  cases ht : p.type with
  | handshake =>
      simp only [Packet.stops, ht] at h
      simp only [dispatch, onHandshake, Packet.farewell, ht]
      cases hw : W.handshake p.body with
      | none => simp [hw] at h
      | some data =>
          by_cases hv : data.v = 1
          · have hc : data.clientId = "" := by simpa [hw, hv] using h
            simp [hv, hc, sendClose, write]
          · simp [hv, sendClose, write]
  | close => exact ⟨rfl, by simp [Packet.farewell, ht, dispatch, onClose_written]⟩
  | frame => simp [Packet.stops, ht] at h
  | ping => simp [Packet.stops, ht] at h
  | pong => simp [Packet.stops, ht] at h

end Pump

section Streams

variable {W : Wire} {world : Nat → Moment} {ending : Ending}

theorem run_lockStep (W : Wire) (world : Nat → Moment) (ending : Ending) (ps : List Packet)
    (h : ∀ p ∈ ps, p.Fits) (s : Head)
    (hs : s.input = ps.flatMap Packet.bytes) :
    ∃ outs, LockStep W world s.turn s.pump.ipc.handshake ps outs ∧
      ((pumpLoop W world ending).run s).written = s.pump.written ++ outs := by
  induction ps generalizing s with
  | nil =>
      have hb : (pumpLoop W world ending).body s = .inr (s.pump.clearAll s.pump.ipc.pid) := by
        simp only [pumpLoop, pumpTurn, hs]
        rfl
      refine ⟨[], .idle, ?_⟩
      rw [Lib.Loop.run_last hb, Pump.clearAll_written, List.append_nil]
  | cons p ps ih =>
      have hfits := h p (by simp)
      have hsplit : s.input = p.bytes ++ ps.flatMap Packet.bytes := hs
      cases hstop : p.stops W with
      | true =>
          obtain ⟨hend, hw⟩ := Pump.dispatch_farewell (world s.turn) s.pump hstop
          have hd : s.pump.dispatch W (world s.turn) p.body p.type =
              ((s.pump.dispatch W (world s.turn) p.body p.type).1, true) := Prod.ext rfl hend
          have hb : (pumpLoop W world ending).body s =
              .inr (s.pump.dispatch W (world s.turn) p.body p.type).1 := by
            simp only [pumpLoop, pumpTurn, hsplit, readPacket_bytes ending hfits]
            rw [hd]
          exact ⟨p.farewell W, .stopped hstop, by rw [Lib.Loop.run_last hb, hw]⟩
      | false =>
          obtain ⟨hshake, out, hanswer, hw⟩ := Pump.dispatch_answer (world s.turn) s.pump hstop
          have hb := pumpTurn_bytes world ending hfits hstop s hsplit
          obtain ⟨outs, hstep, hrun⟩ := ih (fun q hq => h q (by simp [hq]))
            ⟨(s.pump.dispatch W (world s.turn) p.body p.type).1, ps.flatMap Packet.bytes, s.turn + 1⟩ rfl
          simp only [hshake] at hstep
          refine ⟨out ++ outs, .next hstop hanswer hstep, ?_⟩
          rw [Lib.Loop.run_next hb, hrun, hw, List.append_assoc]

end Streams

/-- A message that must not touch presence: it does not decode, or it is an
activity without arguments or a command that is not forwarded. -/
def Unforwarded (W : Wire) (message : String) : Prop :=
  ∀ cmd, W.command message = some cmd → cmd.cmd = "SET_ACTIVITY" ∧ cmd.args = none ∨
    cmd.cmd ∉ ["SET_ACTIVITY", "INVITE_BROWSER", "GUILD_TEMPLATE_BROWSER", "GIFT_CODE_BROWSER", "DEEP_LINK"]

theorem onFrame_unforwarded {W : Wire} {message : String} (h : Unforwarded W message) (s : Pump)
    (moment : Moment) :
    (s.onFrame W moment message).1.sent = s.sent ∧ (s.onFrame W moment message).1.ipc = s.ipc := by
  rw [Pump.onFrame]
  split
  next => exact ⟨rfl, rfl⟩
  next =>
      split
      next => exact ⟨rfl, rfl⟩
      next cmd hcmd =>
          have hkind := h cmd hcmd
          split
          next => exact ⟨rfl, rfl⟩
          next => exact ⟨rfl, rfl⟩
          next hc =>
              have hargs : cmd.args = none := by simpa [hc] using hkind
              exact Pump.handleSetActivity_malformed hargs
          next => exact ⟨rfl, rfl⟩
          next => exact ⟨rfl, rfl⟩
          next hc => simp [hc] at hkind
          next hc => simp [hc] at hkind
          next hc => simp [hc] at hkind
          next hc => simp [hc] at hkind
          next => exact ⟨rfl, rfl⟩

/-- Well-framed packets are answered in lock step, and what is not forwarded
leaves the sink and the connection's pids and nonce as they were. -/
theorem lock_step_replies (W : Wire) (world : Nat → Moment) (ending : Ending) :
    (∀ ps : List Packet, (∀ p ∈ ps, p.Fits) →
      LockStep W world 0 false ps (handleStream W world ending (ps.flatMap Packet.bytes)).written) ∧
    ∀ (s : Pump) (moment : Moment) (message : String), Unforwarded W message →
      (s.onFrame W moment message).1.sent = s.sent ∧
      (s.onFrame W moment message).1.ipc.pid = s.ipc.pid ∧
      (s.onFrame W moment message).1.ipc.publishedPids = s.ipc.publishedPids ∧
      (s.onFrame W moment message).1.ipc.nonce = s.ipc.nonce := by
  constructor
  · intro ps h
    obtain ⟨outs, hstep, hrun⟩ := run_lockStep W world ending ps h
      { input := ps.flatMap Packet.bytes } rfl
    rw [handleStream, hrun]
    exact hstep
  · intro s moment message h
    obtain ⟨hsent, hipc⟩ := onFrame_unforwarded h s moment
    rw [hipc]
    exact ⟨hsent, rfl, rfl, rfl⟩

theorem lock_step_replies_pinged :
    LockStep sampleWire noon 0 false pinged
        (handleStream sampleWire noon .eof (pinged.flatMap Packet.bytes)).written ∧
      (Pump.onFrame sampleWire (noon 0) { ipc := { handshake := true } } "?").1.sent = [] := by
  refine ⟨(lock_step_replies sampleWire noon .eof).1 pinged (by decide +kernel), ?_⟩
  have hgarbage : sampleWire.command "?" = none := by decide +kernel
  have hidle : Unforwarded sampleWire "?" := by
    intro cmd hcmd
    rw [hgarbage] at hcmd
    cases hcmd
  exact ((lock_step_replies sampleWire noon .eof).2 { ipc := { handshake := true } } (noon 0) "?" hidle).1

end Ipc

end RichPresence
