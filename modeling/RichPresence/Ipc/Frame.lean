import RichPresence.Lib.Loop
import RichPresence.Protocol.Replies

namespace RichPresence.Ipc

open Commands

inductive PacketType
  | handshake
  | frame
  | close
  | ping
  | pong
  deriving DecidableEq, Repr

namespace PacketType

def tryFromU32 : Nat → Option PacketType
  | 0 => some handshake
  | 1 => some frame
  | 2 => some close
  | 3 => some ping
  | 4 => some pong
  | _ => none

def toU32 : PacketType → Nat
  | handshake => 0
  | frame => 1
  | close => 2
  | ping => 3
  | pong => 4

end PacketType

def maxIpcPayload : Nat := 1024 * 1024

def maxTrackedPids : Nat := 16

structure Handshake where
  v : Nat
  clientId : String
  deriving DecidableEq, Repr

/-- The JSON library as the pump uses it: the two decoders and the writer. -/
structure Wire where
  handshake : String → Option Handshake
  command : String → Option ActivityCmd
  text : Value → String

def toLeBytes (n : Nat) : Bytes := (List.range 4).map fun i => UInt8.ofNat (n / 256 ^ i)

def fromLeBytes (bytes : Bytes) : Nat := bytes.foldr (fun b n => b.toNat + 256 * n) 0

def encode (type : PacketType) (data : String) : Bytes :=
  toLeBytes type.toU32 ++ toLeBytes data.toUTF8.size ++ data.toUTF8.data.toList

def closeFrame (W : Wire) (code : Nat) (message : String) : Bytes :=
  encode .close (W.text (.object [("code", Serde.unsigned code), ("message", Serde.text message)]))

def admitPid (history : List Nat) (pid : Nat) : Bool × List Nat :=
  if pid ∈ history then (true, history.erase pid ++ [pid])
  else if history.length ≥ maxTrackedPids then (false, history)
  else (true, history ++ [pid])

def trackPid (history : List Nat) (pid : Nat) : List Nat :=
  match admitPid history pid with
  | (true, history) => history
  | (false, history) => history.drop 1 ++ [pid]

structure ConnFacilitator where
  handshake : Bool := false
  clientId : AppId := ⟨""⟩
  pid : Nat := 0
  nonce : Value := .null
  publishedPids : List Nat := []

def clearPids (ipc : ConnFacilitator) (currentPid : Nat) : List Nat × ConnFacilitator :=
  let pids := ipc.publishedPids
  (if currentPid ∈ pids then pids else pids ++ [currentPid], { ipc with publishedPids := [] })

/-- One connection: its facilitator, what its sink was given and what was
written to the peer, oldest first. -/
structure Pump where
  ipc : ConnFacilitator := {}
  sent : List ActivityCmd := []
  written : List Bytes := []

structure Moment where
  now : Nat
  user : RpcUser

namespace Pump

def emit (s : Pump) (cmd : ActivityCmd) : Pump := { s with sent := s.sent ++ [cmd] }

/-- Write errors are ignored, so a write only adds to what was written. -/
def write (s : Pump) (frame : Bytes) : Pump := { s with written := s.written ++ [frame] }

def reply (W : Wire) (s : Pump) (body : Value) : Pump := s.write (encode .frame (W.text body))

def sendClose (W : Wire) (s : Pump) (code : Nat) (message : String) : Pump :=
  s.write (closeFrame W code message)

def sendEmpty (s : Pump) (pid : Nat) : Pump :=
  s.emit { cmd := "SET_ACTIVITY", args := some { pid := some pid } }

def clearAll (s : Pump) (currentPid : Nat) : Pump :=
  let (pids, ipc) := clearPids s.ipc currentPid
  pids.foldl sendEmpty { s with ipc }

def onHandshake (W : Wire) (user : RpcUser) (s : Pump) (message : String) : Pump × Bool :=
  match W.handshake message with
  | none => (s, false)
  | some data =>
      if data.v ≠ 1 then (s.sendClose W 4004 "Invalid version", true)
      else if data.clientId = "" then (s.sendClose W 4000 "Invalid client_id", true)
      else
        let s := { s with ipc := { s.ipc with handshake := true, clientId := ⟨data.clientId⟩ } }
        (s.reply W user.readyPayload, false)

def onClose (s : Pump) : Pump :=
  let current := s.ipc.pid
  let s := s.emit
    { applicationId := some s.ipc.clientId
      cmd := "SET_ACTIVITY"
      args := some { pid := some current }
      nonce := s.ipc.nonce }
  let s := (s.ipc.publishedPids.filter (· ≠ current)).foldl sendEmpty s
  { s with ipc := { s.ipc with handshake := false, clientId := ⟨""⟩, pid := 0, publishedPids := [] } }

def onPing (s : Pump) (message : String) : Pump := s.write (encode .pong message)

def handleSetActivity (W : Wire) (now : Nat) (s : Pump) (cmd : ActivityCmd) : Pump :=
  match cmd.args with
  | none => s.reply W (rpcError cmd.cmd cmd.nonce 4005 "Missing activity args")
  | some args =>
      let cmd := { cmd with applicationId := some s.ipc.clientId }
      let pid := args.pid.getD 0
      let ipc := { s.ipc with pid, nonce := cmd.nonce }
      let (response, cmd) := setActivityResponse (cmd.fix now)
      let (admitted, history) := admitPid ipc.publishedPids pid
      let s :=
        if admitted then { s with ipc := { ipc with publishedPids := trackPid history pid } }.emit cmd
        else { s with ipc := { ipc with publishedPids := history } }
      response.elim s (s.reply W)

def onFrame (W : Wire) (moment : Moment) (s : Pump) (message : String) : Pump × Bool :=
  if s.ipc.handshake = false then (s, false)
  else match W.command message with
    | none => (s.reply W (rpcError "" .null 4005 "Invalid encoding"), false)
    | some cmd =>
        match cmd.cmd with
        | "SUBSCRIBE" | "UNSUBSCRIBE" => (s.reply W (subscribeAck cmd), false)
        | "SET_ACTIVITY" => (s.handleSetActivity W moment.now cmd, false)
        | "GET_USER" =>
            let wanted := cmd.args.bind (·.userId)
            let matched := wanted.all (· == moment.user.id)
            (s.reply W (userResponse cmd (if matched then some moment.user else none)), false)
        | "CONNECTIONS_CALLBACK" =>
            (s.reply W (rpcError cmd.cmd cmd.nonce 1000 "CONNECTIONS_CALLBACK is not supported"), false)
        | "INVITE_BROWSER" | "GUILD_TEMPLATE_BROWSER" | "GIFT_CODE_BROWSER" | "DEEP_LINK" =>
            let cmd := { cmd with applicationId := some s.ipc.clientId }
            ((s.emit cmd).reply W (genericAck cmd), false)
        | other =>
            let (code, text) := (unsupportedCommand other).getD (1000, "Unknown command")
            (s.reply W (rpcError cmd.cmd cmd.nonce code text), false)

def dispatch (W : Wire) (moment : Moment) (s : Pump) (message : String) : PacketType → Pump × Bool
  | .handshake => s.onHandshake W moment.user message
  | .frame => s.onFrame W moment message
  | .close => (s.onClose, true)
  | .ping => (s.onPing message, false)
  | .pong => (s, false)

end Pump

inductive Ending
  | eof
  | error
  deriving DecidableEq, Repr

inductive Incoming
  | lost
  | tooLarge
  | unknownType
  | packet (type : PacketType) (message : String) (rest : Bytes)

def readExact (n : Nat) (input : Bytes) : Option (Bytes × Bytes) :=
  if n ≤ input.length then some (input.take n, input.drop n) else none

/-- A stream that is over before the limit gives a shorter text; only a failed
read or text that is not UTF-8 is an error. -/
def readToString (limit : Nat) (ending : Ending) (input : Bytes) : Option (String × Bytes) :=
  if input.length < limit ∧ ending = .error then none
  else (String.fromUTF8? ⟨(input.take limit).toArray⟩).map (·, input.drop limit)

def readPacket (ending : Ending) (input : Bytes) : Incoming :=
  match readExact 4 input with
  | none => .lost
  | some (packetType, input) =>
      match readExact 4 input with
      | none => .lost
      | some (dataSize, input) =>
          let dataSize := fromLeBytes dataSize
          if dataSize > maxIpcPayload then .tooLarge
          else match readToString dataSize ending input with
            | none => .lost
            | some (message, input) =>
                match PacketType.tryFromU32 (fromLeBytes packetType) with
                | none => .unknownType
                | some type => .packet type message input

structure Head where
  pump : Pump := {}
  input : Bytes
  turn : Nat := 0

def pumpTurn (W : Wire) (world : Nat → Moment) (ending : Ending) (s : Head) : Head ⊕ Pump :=
  let currentPid := s.pump.ipc.pid
  match readPacket ending s.input with
  | .lost => .inr (s.pump.clearAll currentPid)
  | .tooLarge => .inr ((s.pump.sendClose W 1003 "Payload too large").clearAll currentPid)
  | .unknownType => .inr ((s.pump.sendClose W 1003 "Unsupported packet type").clearAll currentPid)
  | .packet type message rest =>
      match s.pump.dispatch W (world s.turn) message type with
      | (pump, true) => .inr pump
      | (pump, false) => .inl { pump, input := rest, turn := s.turn + 1 }

theorem readExact_spec {n : Nat} {input taken rest : Bytes} (h : readExact n input = some (taken, rest)) :
    input.length = n + rest.length := by
  rw [readExact] at h
  split at h
  next hn =>
      obtain ⟨-, rfl⟩ := Prod.mk.inj (Option.some.inj h)
      rw [List.length_drop]
      omega
  next => cases h

theorem readToString_spec {limit : Nat} {ending : Ending} {input rest : Bytes} {message : String}
    (h : readToString limit ending input = some (message, rest)) : rest = input.drop limit := by
  rw [readToString] at h
  split at h
  next => cases h
  next =>
      obtain ⟨_, -, hp⟩ := Option.map_eq_some_iff.mp h
      exact (Prod.mk.inj hp).2.symm

theorem readPacket_shrinks {ending : Ending} {input rest : Bytes} {type : PacketType} {message : String}
    (h : readPacket ending input = .packet type message rest) : rest.length < input.length := by
  rw [readPacket] at h
  split at h
  next => cases h
  next packetType input₁ h₁ =>
      split at h
      next => cases h
      next dataSize input₂ h₂ =>
          simp only at h
          split at h
          next => cases h
          next =>
              split at h
              next => cases h
              next text input₃ h₃ =>
                  have hlen := readExact_spec h₁
                  have hlen' := readExact_spec h₂
                  have hrest : rest = input₃ := by
                    split at h
                    next => cases h
                    next => exact (Incoming.packet.inj h).2.2.symm
                  rw [hrest, readToString_spec h₃, List.length_drop]
                  omega

theorem pumpTurn_next {W : Wire} {world : Nat → Moment} {ending : Ending} {s t : Head}
    (h : pumpTurn W world ending s = .inl t) :
    ∃ type message rest, readPacket ending s.input = .packet type message rest ∧
      s.pump.dispatch W (world s.turn) message type = (t.pump, false) ∧
      t.input = rest ∧ t.turn = s.turn + 1 := by
  simp only [pumpTurn] at h
  split at h
  next => cases h
  next => cases h
  next => cases h
  next type message rest hp =>
      split at h
      next => cases h
      next pump hd =>
          obtain rfl := Sum.inl.inj h
          exact ⟨type, message, rest, hp, hd, rfl, rfl⟩

/-- The pump of one connection as a loop: every turn that goes on has taken a
packet off the stream, so the pump of a finite stream returns. -/
def pumpLoop (W : Wire) (world : Nat → Moment) (ending : Ending) : Lib.Loop Head Pump where
  body := pumpTurn W world ending
  size s := s.input.length
  shrinks := by
    intro s t h
    obtain ⟨_, _, rest, hp, -, ht, -⟩ := pumpTurn_next h
    rw [ht]
    exact readPacket_shrinks hp

def handleStream (W : Wire) (world : Nat → Moment) (ending : Ending) (input : Bytes) : Pump :=
  (pumpLoop W world ending).run { input }

end RichPresence.Ipc
