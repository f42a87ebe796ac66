import RichPresence.Ipc.ConnectionLoss

namespace RichPresence.Ipc

structure Packet where
  type : PacketType
  body : String
  deriving DecidableEq, Repr

namespace Packet

def bytes (p : Packet) : Bytes := encode p.type p.body

def Fits (p : Packet) : Prop := p.body.toUTF8.size ≤ maxIpcPayload

instance (p : Packet) : Decidable p.Fits := inferInstanceAs (Decidable (_ ≤ _))

/-- A packet the pump stops at: a close, or a handshake it decodes and refuses. -/
def stops (W : Wire) (p : Packet) : Bool :=
  match p.type with
  | .close => true
  | .handshake => (W.handshake p.body).any fun data => data.v ≠ 1 ∨ data.clientId = ""
  | _ => false

end Packet

def Incoming.dispatched : Incoming → Option Packet
  | .packet type message _ => some ⟨type, message⟩
  | _ => none

/-- The packets the pump of a stream gives to a handler, in order. -/
def dispatched (W : Wire) (world : Nat → Moment) (ending : Ending) (input : Bytes) : List Packet :=
  ((pumpLoop W world ending).heads { input }).filterMap fun s => (readPacket ending s.input).dispatched

def opcode (input : Bytes) : Nat := fromLeBytes (input.take 4)

def declaredSize (input : Bytes) : Nat := fromLeBytes ((input.drop 4).take 4)

/-- The stream is at a header that declares more bytes than are left. -/
def Truncated (input : Bytes) : Prop := 8 ≤ input.length ∧ input.length < 8 + declaredSize input

instance (input : Bytes) : Decidable (Truncated input) := inferInstanceAs (Decidable (_ ∧ _))

/-- The turn gives nothing to a handler and ends the pump as every lost
connection ends, behind a close frame or without one. -/
def TakenAsLoss (W : Wire) (world : Nat → Moment) (ending : Ending) (s : Head) : Prop :=
  (readPacket ending s.input).dispatched = none ∧
    ∃ pump, (pump = s.pump ∨ ∃ text, pump = s.pump.sendClose W 1003 text) ∧
      pumpTurn W world ending s = .inr (pump.clearAll s.pump.ipc.pid)

section Words

theorem toLeBytes_length (n : Nat) : (toLeBytes n).length = 4 := by simp [toLeBytes]

theorem fromLeBytes_toLeBytes {n : Nat} (h : n < 2 ^ 32) : fromLeBytes (toLeBytes n) = n := by
  simp [fromLeBytes, toLeBytes, List.range_succ]
  omega

theorem tryFromU32_toU32 (type : PacketType) : PacketType.tryFromU32 type.toU32 = some type := by
  cases type <;> rfl

theorem toU32_lt (type : PacketType) : type.toU32 < 2 ^ 32 := by cases type <;> decide

end Words

section Reads

variable {ending : Ending} {input rest : Bytes}

theorem readExact_append {n : Nat} {taken : Bytes} (h : taken.length = n) :
    readExact n (taken ++ rest) = some (taken, rest) := by
  rw [readExact, if_pos (by simp [← h]), List.take_left' h, List.drop_left' h]

theorem readToString_append (ending : Ending) (text : String) (rest : Bytes) :
    readToString text.toUTF8.size ending (text.toUTF8.data.toList ++ rest) = some (text, rest) := by
  have hlen : text.toUTF8.data.toList.length = text.toUTF8.size := rfl
  have hvalid : String.fromUTF8? ⟨text.toUTF8.data.toList.toArray⟩ = some text := by
    simp only [Array.toArray_toList, String.fromUTF8?]
    exact dif_pos text.isValidUTF8
  rw [readToString, if_neg (by rw [List.length_append, hlen]; omega), List.take_left' hlen,
    List.drop_left' hlen, hvalid, Option.map_some]

theorem readPacket_bytes (ending : Ending) {p : Packet} (h : p.Fits) (rest : Bytes) :
    readPacket ending (p.bytes ++ rest) = .packet p.type p.body rest := by
  have hsize : p.body.toUTF8.size < 2 ^ 32 := Nat.lt_of_le_of_lt h (by decide)
  have hsplit : p.bytes ++ rest = toLeBytes p.type.toU32 ++
      (toLeBytes p.body.toUTF8.size ++ (p.body.toUTF8.data.toList ++ rest)) := by
    simp [Packet.bytes, encode]
  rw [hsplit]
  simp only [readPacket, readExact_append (toLeBytes_length _), fromLeBytes_toLeBytes hsize,
    fromLeBytes_toLeBytes (toU32_lt _), tryFromU32_toU32, if_neg (Nat.not_lt.mpr h), readToString_append]

theorem readPacket_header (ending : Ending) (h : 8 ≤ input.length) :
    readPacket ending input =
      if declaredSize input > maxIpcPayload then .tooLarge
      else match readToString (declaredSize input) ending (input.drop 8) with
        | none => .lost
        | some (message, input') =>
            match PacketType.tryFromU32 (opcode input) with
            | none => .unknownType
            | some type => .packet type message input' := by
  have htype : readExact 4 input = some (input.take 4, input.drop 4) := if_pos (by omega)
  have hsize : readExact 4 (input.drop 4) = some ((input.drop 4).take 4, input.drop 8) := by
    rw [readExact, if_pos (by rw [List.length_drop]; omega), List.drop_drop]
  simp only [readPacket, htype, hsize]
  rfl

/-- A packet the stream breaks off in reaches a handler exactly when the stream
is over in order, the size is not refused, and opcode and text are readable. -/
theorem truncated_dispatched (h : Truncated input) :
    (readPacket ending input).dispatched = none ↔
      ending = .error ∨ maxIpcPayload < declaredSize input ∨ PacketType.tryFromU32 (opcode input) = none ∨
        String.fromUTF8? ⟨(input.drop 8).toArray⟩ = none := by
  obtain ⟨hheader, hshort⟩ := h
  have hleft : (input.drop 8).length < declaredSize input := by rw [List.length_drop]; omega
  rw [readPacket_header ending hheader]
  by_cases hsize : declaredSize input > maxIpcPayload
  · simp [hsize, Incoming.dispatched]
  rw [if_neg hsize, readToString, List.take_of_length_le (Nat.le_of_lt hleft)]
  cases ending with
  | error =>
      rw [if_pos ⟨hleft, rfl⟩]
      simp [Incoming.dispatched]
  | eof =>
      rw [if_neg (by simp)]
      cases htext : String.fromUTF8? ⟨(input.drop 8).toArray⟩ with
      | none => simp [Incoming.dispatched]
      | some text =>
          cases htype : PacketType.tryFromU32 (opcode input) with
          | none => simp [Incoming.dispatched]
          | some type => simpa [Incoming.dispatched] using hsize

end Reads

section Streams

variable {W : Wire} {world : Nat → Moment} {ending : Ending}

theorem takenAsLoss_iff {s : Head} :
    TakenAsLoss W world ending s ↔ (readPacket ending s.input).dispatched = none := by
  refine ⟨fun h => h.1, fun h => ⟨h, ?_⟩⟩
  rw [pumpTurn]
  cases hp : readPacket ending s.input with
  | lost => exact ⟨s.pump, .inl rfl, rfl⟩
  | tooLarge => exact ⟨_, .inr ⟨_, rfl⟩, rfl⟩
  | unknownType => exact ⟨_, .inr ⟨_, rfl⟩, rfl⟩
  | packet type message rest =>
      rw [hp] at h
      cases h

theorem dispatch_goes_on (moment : Moment) (s : Pump) {p : Packet} (h : p.stops W = false) :
    (s.dispatch W moment p.body p.type).2 = false := by
  obtain ⟨type, body⟩ := p
  cases type with
  | handshake =>
      obtain ⟨-, -, hstop⟩ := Pump.onHandshake_spec (W := W) moment.user s body
      rw [Pump.dispatch, ← Bool.not_eq_true, hstop]
      rintro ⟨data, hw, hr⟩
      have hok : data.v = 1 ∧ ¬ data.clientId = "" := by simpa [Packet.stops, hw] using h
      exact hr.elim (fun hv => hv hok.1) hok.2
  | frame => exact s.onFrame_goes_on moment body
  | close => simp [Packet.stops] at h
  | ping => rfl
  | pong => rfl

theorem pumpTurn_bytes (world : Nat → Moment) (ending : Ending) {p : Packet} (hfits : p.Fits)
    (h : p.stops W = false) (s : Head) {rest : Bytes}
    (hs : s.input = p.bytes ++ rest) :
    (pumpLoop W world ending).body s =
      .inl ⟨(s.pump.dispatch W (world s.turn) p.body p.type).1, rest, s.turn + 1⟩ := by
  have hd : s.pump.dispatch W (world s.turn) p.body p.type =
      ((s.pump.dispatch W (world s.turn) p.body p.type).1, false) :=
    Prod.ext rfl (dispatch_goes_on (world s.turn) s.pump h)
  simp only [pumpLoop, pumpTurn, hs, readPacket_bytes ending hfits]
  rw [hd]

theorem packets_dispatched (ps : List Packet) (h : ∀ p ∈ ps, p.Fits ∧ p.stops W = false) {s : Head}
    (hs : s.input = ps.flatMap Packet.bytes) :
    ((pumpLoop W world ending).heads s).filterMap (fun s => (readPacket ending s.input).dispatched) = ps := by
  induction ps generalizing s with
  | nil =>
      have hlost : readPacket ending s.input = .lost := by rw [hs]; rfl
      have hb : (pumpLoop W world ending).body s = .inr (s.pump.clearAll s.pump.ipc.pid) := by
        simp only [pumpLoop, pumpTurn, hlost]
      rw [Lib.Loop.heads_last hb]
      simp [hlost, Incoming.dispatched]
  | cons p ps ih =>
      obtain ⟨hfits, hgo⟩ := h p (by simp)
      have hsplit : s.input = p.bytes ++ ps.flatMap Packet.bytes := hs
      have hread := readPacket_bytes ending hfits (ps.flatMap Packet.bytes)
      rw [Lib.Loop.heads_next (pumpTurn_bytes world ending hfits hgo s hsplit), List.filterMap_cons, hsplit, hread]
      simp only [Incoming.dispatched]
      exact congrArg (p :: ·) (ih (fun q hq => h q (by simp [hq])) rfl)

end Streams

/-- Packets none of which stops the pump reach the handlers as they were encoded,
and a packet the stream breaks off in is taken as a lost connection exactly when
the read fails, or its size, its opcode or its text is refused. -/
theorem framing_faithful (W : Wire) (world : Nat → Moment) (ending : Ending) :
    (∀ ps : List Packet, (∀ p ∈ ps, p.Fits ∧ p.stops W = false) →
      dispatched W world ending (ps.flatMap Packet.bytes) = ps) ∧
    ∀ input, (∀ s, (pumpLoop W world ending).Reaches { input } s → Truncated s.input →
        TakenAsLoss W world ending s) ↔
      ∀ s, (pumpLoop W world ending).Reaches { input } s → Truncated s.input →
        ending = .error ∨ maxIpcPayload < declaredSize s.input ∨
          PacketType.tryFromU32 (opcode s.input) = none ∨
            String.fromUTF8? ⟨(s.input.drop 8).toArray⟩ = none := by
  refine ⟨fun ps h => packets_dispatched ps h rfl, fun input => ?_⟩
  refine forall₃_congr fun s _ ht => ?_
  rw [takenAsLoss_iff, truncated_dispatched ht]

def cutPing : Bytes := toLeBytes 3 ++ toLeBytes 5 ++ "hi".toUTF8.data.toList

def pinged : List Packet := [⟨.handshake, greeting⟩, ⟨.ping, "hi"⟩, ⟨.frame, playing⟩]

theorem framing_faithful_pinged :
    dispatched sampleWire noon .eof (pinged.flatMap Packet.bytes) = pinged ∧
      TakenAsLoss sampleWire noon .error { input := cutPing } := by
  refine ⟨(framing_faithful sampleWire noon .eof).1 pinged (by decide +kernel), ?_⟩
  have hcut : Truncated cutPing := by decide +kernel
  exact ((framing_faithful sampleWire noon .error).2 cutPing).mpr (fun _ _ _ => .inl rfl) { input := cutPing }
    .refl hcut

/-- A stream that is over two bytes into a ping of five is answered as a ping of two. -/
theorem cut_ping_answered :
    Truncated cutPing ∧ ¬ TakenAsLoss sampleWire noon .eof { input := cutPing } ∧
      (handleStream sampleWire noon .eof cutPing).written = [encode .pong "hi"] := by
  refine ⟨by decide +kernel, ?_, by decide +kernel⟩
  intro h
  have hread : (readPacket .eof cutPing).dispatched = some ⟨.ping, "hi"⟩ := by decide +kernel
  simp [h.1] at hread

end RichPresence.Ipc
