import RichPresence.Bridge.Outbox
import RichPresence.Protocol.Replies

namespace RichPresence

open Lib

/-- How reply values are written: the JSON text, and the MessagePack form derived
from it on demand. -/
structure FrameCodec where
  json : Value → String
  msgpack : Value → Option Bytes

def FrameCodec.Derives (F : FrameCodec) : Prop := ∀ v, (F.msgpack v).isSome

def FrameCodec.encode (F : FrameCodec) (v : Value) : BridgeProtocol → Option Message
  | .json => some (.text (F.json v))
  | .msgPack => (F.msgpack v).map .binary

theorem FrameCodec.encode_isSome (F : FrameCodec) (hF : F.Derives) (v : Value) (protocol : BridgeProtocol) :
    (F.encode v protocol).isSome := by
  cases protocol with
  | json => rfl
  | msgPack => rw [FrameCodec.encode, Option.isSome_map]; exact hF v

/-- How far the pump is with the connect event of a connection. -/
inductive Arrival
  | unseen
  | refused
  | greeting
  | replaying
  | handled
  deriving DecidableEq, Repr

/-- A bridge connection. Its task serves it until a write fails, the peer leaves
or the server closes it. That a fan-out found its outbox full is kept as history. -/
structure Line where
  protocol : BridgeProtocol := .json
  arrival : Arrival := .unseen
  serving : Bool := false
  handing : Handing := ⟨[], {}⟩
  overrun : Bool := false
  deriving DecidableEq, Repr

namespace Line

variable (cap : Nat) (l : Line)

def accepts : Bool := l.serving && decide (l.handing.outbox.HasRoom cap)

def queue (frame : Message) : Line := { l with handing := { l.handing with outbox := l.handing.outbox.push frame } }

def offered (frame : Message) : Line := if l.accepts cap then l.queue frame else l

def fanned : Option Message → Line
  | none => l
  | some frame => if l.accepts cap then l.queue frame else { l with overrun := l.overrun || l.serving }

/-- A turn of the connect handling or of the task. The outbox of a task that has
ended takes nothing. -/
def handed (turn : Turn) : Line := { l with handing := l.handing.step (if l.serving then cap else 0) turn }

/-- The connection is open and the pump has admitted it. -/
def Connected : Prop := l.arrival = .handled ∧ l.serving = true

instance : Decidable l.Connected := inferInstanceAs (Decidable (_ ∧ _))

end Line

structure Desk where
  shared : Shared := {}
  lines : ClientId → Line := fun _ => {}
  resending : List CachedActivity := []

/-- One atomic step of the pumps, the refresh task and the connection tasks. -/
inductive Act : Type 1
  | connect (id : ClientId) (allowed : Bool) (protocol : BridgeProtocol) (ready : Message)
  | snapshot (env : Env) (id : ClientId)
  | offer (id : ClientId)
  | register (id : ClientId)
  | disconnect (id : ClientId)
  | answer (id : ClientId) (frame : Message)
  | updateUser (env : Env) (user : RpcUser)
  | broadcastRaw (env : Env) (encode : BridgeProtocol → Option Message)
  | updateCache (env : Env) (payload : CachedActivity) (socketId : SocketId)
  | sendToAll (env : Env) (payload : CachedActivity)
  | refresh (env : Env)
  | resend (env : Env)
  | drain (id : ClientId)
  | hangUp (id : ClientId)

/-- The fan-out of an identity change; a consumer without a frame in its encoding
counts as dead. -/
def Shared.sendFrame (env : Env) (encode : BridgeProtocol → Option Message) (s : Shared) : Shared :=
  { s with
    consumers := Table.filterMap
      (fun id c => (encode c.protocol).bind fun frame => c.trySend env id frame) s.consumers }

/-- The fan-out of a command that is not an activity; an encoding that fails is
left out. -/
def Shared.broadcastRaw (env : Env) (encode : BridgeProtocol → Option Message) (s : Shared) : Shared :=
  let kept := Table.filterMap (fun id c =>
    match encode c.protocol with
    | some frame => c.trySend env id frame
    | none => some c) s.consumers
  { s with
    consumers := kept
    droppedBroadcasts := s.droppedBroadcasts + (Table.size s.consumers - Table.size kept) }

namespace Desk

variable (F : FrameCodec) (cap : Nat) (s : Desk)

def setLine (id : ClientId) (l : Line) : Desk := { s with lines := Function.update s.lines id l }

def around (env : Env) : Env := { env with accepts := fun id _ => (s.lines id).accepts cap }

def fan (encode : BridgeProtocol → Option Message) (id : ClientId) : Line :=
  match s.shared.consumers.lookup id with
  | some c => (s.lines id).fanned cap (encode c.protocol)
  | none => s.lines id

def sendToAll (env : Env) (payload : CachedActivity) : Desk :=
  { s with
    shared := s.shared.sendToAll (s.around cap env) payload
    lines := s.fan cap fun protocol => some (encodeFor protocol payload) }

def step : Act → Desk
  | .connect id allowed protocol ready =>
      if (s.lines id).arrival = .unseen then
        if allowed then
          s.setLine id { protocol := protocol, arrival := .greeting, serving := true, handing := ⟨[ready], {}⟩ }
        else s.setLine id { arrival := .refused }
      else s
  | .snapshot env id =>
      if (s.lines id).arrival = .greeting ∧ (s.lines id).handing.left = [] then
        s.setLine id
          { s.lines id with
            arrival := .replaying
            handing := { (s.lines id).handing with
              left := (replayOf env s.shared.cache).map (encodeFor (s.lines id).protocol) } }
      else s
  | .offer id =>
      if (s.lines id).handing.left = [] then s else s.setLine id ((s.lines id).handed cap .pump)
  | .register id =>
      if (s.lines id).arrival = .replaying ∧ (s.lines id).handing.left = [] then
        { s.setLine id { s.lines id with arrival := .handled } with
          shared := s.shared.register id ⟨(s.lines id).protocol, (s.lines id).handing.outbox.carried⟩ }
      else s
  | .disconnect id =>
      -- the event comes from the task, as the last thing it does
      if (s.lines id).arrival = .handled ∧ (s.lines id).serving = false then
        { s with shared := { s.shared with consumers := s.shared.consumers.erase id } }
      else s
  | .answer id frame =>
      if (s.shared.consumers.lookup id).isSome then s.setLine id ((s.lines id).offered cap frame) else s
  | .updateUser env user =>
      { s with
        shared := s.shared.sendFrame (s.around cap env) (F.encode (Commands.currentUserUpdate user))
        lines := s.fan cap (F.encode (Commands.currentUserUpdate user)) }
  | .broadcastRaw env encode =>
      { s with
        shared := s.shared.broadcastRaw (s.around cap env) encode
        lines := s.fan cap encode }
  | .updateCache env payload socketId => { s with shared := s.shared.updateCache env payload socketId }
  | .sendToAll env payload => s.sendToAll cap env payload
  | .refresh env =>
      if s.shared.consumers.keys = [] ∨ replayOf env s.shared.cache = [] then { s with shared := s.shared.setDirty }
      else if s.resending = [] then { s with resending := replayOf env s.shared.cache }
      else s
  | .resend env =>
      match s.resending with
      | [] => s
      | payload :: rest =>
          let s := s.sendToAll cap env payload
          { s with resending := rest, shared := if rest = [] then s.shared.setDirty else s.shared }
  | .drain id => if (s.lines id).serving then s.setLine id ((s.lines id).handed cap .task) else s
  | .hangUp id => s.setLine id { s.lines id with serving := false }

def run (acts : List Act) : Desk := acts.foldl (step F cap) s

@[simp] theorem setLine_self (id : ClientId) (l : Line) : (s.setLine id l).lines id = l := Function.update_self ..

theorem setLine_of_ne {id id' : ClientId} (h : id' ≠ id) (l : Line) : (s.setLine id l).lines id' = s.lines id' :=
  Function.update_of_ne h ..

/-- Every open connection the pump has admitted is in the consumer map, unless a
fan-out found its outbox full. -/
def Listed : Prop :=
  ∀ id, (s.lines id).Connected → (s.lines id).overrun = false → (s.shared.consumers.lookup id).isSome

variable {F cap s}

theorem Listed.setLine (h : s.Listed) {id : ClientId} {l : Line}
    (hl : l.Connected → l.overrun = false → (s.lines id).Connected ∧ (s.lines id).overrun = false) :
    (s.setLine id l).Listed := by
  intro id' hc ho
  by_cases hid : id' = id
  · subst hid
    rw [setLine_self] at hc ho
    obtain ⟨hc', ho'⟩ := hl hc ho
    exact h id' hc' ho'
  · rw [setLine_of_ne s hid] at hc ho
    exact h id' hc ho

theorem Listed.handed (h : s.Listed) (id : ClientId) (turn : Turn) :
    (s.setLine id ((s.lines id).handed cap turn)).Listed := h.setLine fun hc ho => ⟨hc, ho⟩

theorem Listed.fan (h : s.Listed) {shared : Shared} {encode : BridgeProtocol → Option Message}
    (hkeeps : ∀ id c, s.shared.consumers.lookup id = some c →
      (∀ frame ∈ encode c.protocol, (s.lines id).accepts cap = true) → (shared.consumers.lookup id).isSome)
    (resending : List CachedActivity) : (⟨shared, s.fan cap encode, resending⟩ : Desk).Listed := by
  intro id hc ho
  cases hcon : s.shared.consumers.lookup id with
  | none =>
      simp only [Desk.fan, hcon] at hc ho
      have hin := h id hc ho
      rw [hcon] at hin
      cases hin
  | some c =>
      apply hkeeps id c hcon
      intro frame hframe
      simp only [Desk.fan, hcon, Option.mem_def.mp hframe, Line.fanned] at hc ho
      split at hc
      next hacc => exact hacc
      next hacc =>
          have hserving : (s.lines id).serving = true := hc.2
          rw [if_neg hacc, hserving, Bool.or_true] at ho
          cases ho

theorem Listed.sendToAll (h : s.Listed) (env : Env) (payload : CachedActivity) :
    (s.sendToAll cap env payload).Listed := by
  refine h.fan (fun id c hcon hacc => ?_) _
  rw [Shared.sendToAll, Table.lookup_filterMap, hcon]
  simp [Consumer.trySend, around, hacc _ rfl]

theorem Listed.sendFrame (hF : F.Derives) (h : s.Listed) (env : Env) (v : Value) :
    ({ s with
      shared := s.shared.sendFrame (s.around cap env) (F.encode v)
      lines := s.fan cap (F.encode v) } : Desk).Listed := by
  refine h.fan (fun id c hcon hacc => ?_) _
  obtain ⟨frame, hframe⟩ := Option.isSome_iff_exists.mp (F.encode_isSome hF v c.protocol)
  rw [Shared.sendFrame, Table.lookup_filterMap, hcon]
  simp [hframe, Consumer.trySend, around, hacc frame hframe]

theorem Listed.broadcastRaw (h : s.Listed) (env : Env) (encode : BridgeProtocol → Option Message) :
    ({ s with
      shared := s.shared.broadcastRaw (s.around cap env) encode
      lines := s.fan cap encode } : Desk).Listed := by
  refine h.fan (fun id c hcon hacc => ?_) _
  rw [Shared.broadcastRaw, Table.lookup_filterMap, hcon]
  cases hframe : encode c.protocol with
  | none => simp [hframe]
  | some frame => simp [hframe, Consumer.trySend, around, hacc frame hframe]

theorem Listed.offered (h : s.Listed) (id : ClientId) (frame : Message) :
    (s.setLine id ((s.lines id).offered cap frame)).Listed := by
  apply h.setLine
  intro hc ho
  rw [Line.offered] at hc ho
  split at hc <;> simp_all [Line.queue, Line.Connected]

theorem Listed.register (h : s.Listed) (id : ClientId) (l : Line) (consumer : Consumer) :
    ({ s.setLine id l with shared := s.shared.register id consumer } : Desk).Listed := by
  intro id' hc ho
  show ((s.shared.register id consumer).consumers.lookup id').isSome
  rw [Shared.register, Table.lookup_insert_eq]
  split
  next => rfl
  next hid =>
      have hline := setLine_of_ne s hid l
      exact h id' (hline ▸ hc) (hline ▸ ho)

theorem Listed.erase (h : s.Listed) {id : ClientId} (hgone : (s.lines id).serving = false) :
    ({ s with shared := { s.shared with consumers := s.shared.consumers.erase id } } : Desk).Listed := by
  intro id' hc ho
  rw [Table.lookup_erase_eq]
  split
  next hid =>
      subst hid
      exact absurd hc.2 (by simp [hgone])
  next => exact h id' hc ho

theorem listed_step (hF : F.Derives) (h : s.Listed) (act : Act) : (s.step F cap act).Listed := by
  cases act with
  | connect id allowed protocol ready =>
      rw [step]
      split
      next =>
          split
          · exact h.setLine fun hc _ => by cases hc.1
          · exact h.setLine fun hc _ => by cases hc.1
      next => exact h
  | snapshot env id =>
      rw [step]
      split
      · exact h.setLine fun hc _ => by cases hc.1
      · exact h
  | offer id =>
      rw [step]
      split
      · exact h
      · exact h.handed id .pump
  | register id =>
      rw [step]
      split
      · exact h.register id _ _
      · exact h
  | disconnect id =>
      rw [step]
      split
      next hgone => exact h.erase hgone.2
      next => exact h
  | answer id frame =>
      rw [step]
      split
      · exact h.offered id frame
      · exact h
  | updateUser env user => exact h.sendFrame hF env _
  | broadcastRaw env encode => exact h.broadcastRaw env encode
  | updateCache env payload socketId =>
      intro id hc ho
      rw [step, Shared.updateCache]
      split
      · exact h id hc ho
      · exact h id hc ho
  | sendToAll env payload => exact h.sendToAll env payload
  | refresh env =>
      rw [step]
      split
      · exact h
      · split
        · exact h
        · exact h
  | resend env =>
      rw [step]
      split
      next => exact h
      next payload rest _ =>
          intro id hc ho
          have hin := @Listed.sendToAll cap s h env payload id hc ho
          dsimp only
          split
          · exact hin
          · exact hin
  | drain id =>
      rw [step]
      split
      · exact h.handed id .task
      · exact h
  | hangUp id => exact h.setLine fun hc _ => by cases hc.2

theorem listed_run (hF : F.Derives) (h : s.Listed) (acts : List Act) : (s.run F cap acts).Listed :=
  List.foldlRecOn acts (step F cap) h fun _ hs act _ => listed_step hF hs act

theorem offered_of_listed {id : ClientId} {c : Consumer} (h : s.shared.consumers.lookup id = some c) :
    (∀ env payload, (s.step F cap (.sendToAll env payload)).lines id =
        (s.lines id).fanned cap (some (encodeFor c.protocol payload))) ∧
      ∀ frame, (s.step F cap (.answer id frame)).lines id = (s.lines id).offered cap frame := by
  refine ⟨fun env payload => ?_, fun frame => ?_⟩
  · simp only [step, sendToAll, fan, h]
  · rw [step, if_pos (by rw [h, Option.isSome_some]), setLine_self]

end Desk

/-- In every state of every run, an open connection that was admitted is in the
consumer map, and so is offered later broadcasts and the answers to its messages,
unless a fan-out found its outbox full. -/
theorem connected_consumer_listed (F : FrameCodec) (hF : F.Derives) (cap : Nat) (acts : List Act) (id : ClientId)
    (hc : ((Desk.run F cap {} acts).lines id).Connected)
    (ho : ((Desk.run F cap {} acts).lines id).overrun = false) :
    ∃ c, (Desk.run F cap {} acts).shared.consumers.lookup id = some c ∧
      (∀ env payload, ((Desk.run F cap {} acts).step F cap (.sendToAll env payload)).lines id =
        ((Desk.run F cap {} acts).lines id).fanned cap (some (encodeFor c.protocol payload))) ∧
      ∀ frame, ((Desk.run F cap {} acts).step F cap (.answer id frame)).lines id =
        ((Desk.run F cap {} acts).lines id).offered cap frame := by
  have hstart : Desk.Listed {} := fun _ hc _ => by cases hc.1
  obtain ⟨c, hlisted⟩ := Option.isSome_iff_exists.mp (Desk.listed_run hF hstart acts id hc ho)
  exact ⟨c, hlisted, Desk.offered_of_listed hlisted⟩

def Serde.frames : FrameCodec where
  json v := String.ofList (valueJson v)
  msgpack v := some (valueMsgpack v)

def admission : List Act :=
  [.connect guest.id true guest.protocol guest.ready, .offer guest.id, .snapshot calm guest.id, .register guest.id]

/-- Eight cards are broadcast, and the task writes every frame as it comes. -/
theorem connected_consumer_listed_reading :
    ∃ c, (Desk.run Serde.frames defaultPerClientQueue {} (admission ++ (List.replicate 8
        [.sendToAll calm (cardOf 77), .drain guest.id]).flatten)).shared.consumers.lookup guest.id = some c := by
  obtain ⟨c, hc, _⟩ := connected_consumer_listed Serde.frames (fun _ => rfl) defaultPerClientQueue
    (admission ++ (List.replicate 8 [.sendToAll calm (cardOf 77), .drain guest.id]).flatten) guest.id
    (by decide +kernel) (by decide +kernel)
  exact ⟨c, hc⟩

/-- Eight cards are broadcast before the task gets a turn: the connection stays
open, but later broadcasts and answers pass it by. -/
theorem slow_consumer_goes_deaf :
    ∃ acts, ((Desk.run Serde.frames defaultPerClientQueue {} acts).lines guest.id).Connected ∧
      ((Desk.run Serde.frames defaultPerClientQueue {} acts).shared.consumers.lookup guest.id).isNone = true :=
  ⟨admission ++ List.replicate 8 (.sendToAll calm (cardOf 77)) ++ List.replicate 8 (.drain guest.id),
    by decide +kernel⟩

end RichPresence
