import RichPresence.Lib.Script
import RichPresence.Types.Text
import RichPresence.Ws.Sink

namespace RichPresence.Ws

open Lib

/-- The registered clients and the sink, with how often the pump has handed a
command on: every send and every staging takes the next number. -/
structure Transport where
  clients : Table ClientId ClientSlot := ∅
  sink : Sink := {}
  issued : Nat := 0

/-- What the pump does in one atomic step: a short guard over the clients, a guard
over the staged queue, or one send. -/
inductive Call
  | lookup (id : ClientId)
  | register (id : ClientId) (slot : ClientSlot)
  | remove (id : ClientId)
  | notePublished (id : ClientId) (entry : PublishedSlot)
  | forgetPublished (id : ClientId) (pid : Nat)
  | rollbackPublish (id : ClientId) (pid : Nat) (displaced : Option PublishedSlot)
  | backlog
  | flush
  | emit (id : ClientId) (cmd : ActivityCmd)
  | tryEmit (id : ClientId) (cmd : ActivityCmd)
  | countShed
  | stagePublish (now : Nat) (id : ClientId) (cmd : ActivityCmd)
  | stageClear (now : Nat) (id : ClientId) (published : PublishedSlot)

def Call.Answer : Call → Type
  | lookup _ => Option ClientSlot
  | remove _ => Option ClientSlot
  | notePublished _ _ => Option Admission
  | backlog => Nat
  | flush => Bool
  | emit _ _ => Bool
  | tryEmit _ _ => TryEmit
  | _ => Unit

namespace Transport

def modify (id : ClientId) (f : ClientSlot → ClientSlot) (t : Transport) : Transport :=
  match t.clients.lookup id with
  | some slot => { t with clients := t.clients.insert id (f slot) }
  | none => t

def act (cap : Option Nat) : (c : Call) → Transport → c.Answer × Transport
  | .lookup id, t => (t.clients.lookup id, t)
  | .register id slot, t => ((), { t with clients := t.clients.insert id slot })
  | .remove id, t => (t.clients.lookup id, { t with clients := t.clients.erase id })
  | .notePublished id entry, t =>
      ((t.clients.lookup id).map fun slot => (slot.notePublished entry).1,
        t.modify id fun slot => (slot.notePublished entry).2)
  | .forgetPublished id pid, t => ((), t.modify id (·.forgetPublished pid))
  | .rollbackPublish id pid displaced, t => ((), t.modify id (·.rollbackPublish pid displaced))
  | .backlog, t => (t.sink.pending.length, t)
  | .flush, t =>
      let (more, sink) := t.sink.flushOne cap
      (more, { t with sink })
  | .emit id cmd, t =>
      let (accepted, sink) := t.sink.emit cap ⟨t.issued, id, cmd⟩
      (accepted, { t with sink, issued := t.issued + 1 })
  | .tryEmit id cmd, t =>
      let (outcome, sink) := t.sink.tryEmit cap ⟨t.issued, id, cmd⟩
      (outcome, { t with sink, issued := t.issued + 1 })
  | .countShed, t => ((), { t with sink := t.sink.countShed 1 })
  | .stagePublish now id cmd, t =>
      ((), { t with sink := t.sink.stagePublish now ⟨t.issued, id, cmd⟩, issued := t.issued + 1 })
  | .stageClear now id published, t =>
      ((), { t with sink := t.sink.stageClear now published t.issued id, issued := t.issued + 1 })

end Transport

/-- What goes on around the pump: the bridge takes a command or goes away, and a
retry task flushes an entry or sheds those past their deadline. -/
inductive Around
  | receive
  | close
  | flush
  | expire (now : Nat)
  deriving DecidableEq, Repr

def Transport.around (cap : Option Nat) (t : Transport) : Around → Transport
  | .receive => { t with sink := { t.sink with channel := t.sink.channel.recv } }
  | .close => { t with sink := { t.sink with closed := true, channel := { t.sink.channel with queue := [] } } }
  | .flush => { t with sink := (t.sink.flushOne cap).2 }
  | .expire now => { t with sink := t.sink.expirePending now }

abbrev Pump := Script Call Call.Answer

namespace Pump

def lookup (id : ClientId) : Pump (Option ClientSlot) := .call (.lookup id) .done

def register (id : ClientId) (slot : ClientSlot) : Pump Unit := .call (.register id slot) .done

def remove (id : ClientId) : Pump (Option ClientSlot) := .call (.remove id) .done

def notePublished (id : ClientId) (entry : PublishedSlot) : Pump (Option Admission) :=
  .call (.notePublished id entry) .done

def forgetPublished (id : ClientId) (pid : Nat) : Pump Unit := .call (.forgetPublished id pid) .done

def rollbackPublish (id : ClientId) (pid : Nat) (displaced : Option PublishedSlot) : Pump Unit :=
  .call (.rollbackPublish id pid displaced) .done

def backlog : Pump Nat := .call .backlog .done

def flush : Pump Bool := .call .flush .done

def emit (id : ClientId) (cmd : ActivityCmd) : Pump Bool := .call (.emit id cmd) .done

def tryEmit (id : ClientId) (cmd : ActivityCmd) : Pump TryEmit := .call (.tryEmit id cmd) .done

def countShed : Pump Unit := .call .countShed .done

def stagePublish (now : Nat) (id : ClientId) (cmd : ActivityCmd) : Pump Unit := .call (.stagePublish now id cmd) .done

def stageClear (now : Nat) (id : ClientId) (published : PublishedSlot) : Pump Unit :=
  .call (.stageClear now id published) .done

def flushLoop : Nat → Pump Unit
  | 0 => return
  | n + 1 => do
      if ← flush then
        flushLoop n

/-- Staged commands go first, oldest first, until the channel refuses one. -/
def flushPending : Pump Unit := do
  flushLoop (← backlog)

def emitOrStagePublish (now : Nat) (id : ClientId) (cmd : ActivityCmd) : Pump Bool := do
  match ← tryEmit id cmd with
  | .sent => return true
  | .full cmd =>
      stagePublish now id cmd.cmd
      return true
  | .closed =>
      countShed
      return false

/-- The slot goes, and one clear for every publication it remembers. -/
def removeAndClear (now : Nat) (id : ClientId) : Pump Unit := do
  match ← remove id with
  | none => return
  | some slot =>
      flushPending
      forM slot.published fun published => do
        match ← tryEmit id (clearForSlot published) with
        | .sent => return
        | .full _ => stageClear now id published
        | .closed => countShed

end Pump

inductive Forward
  | direct
  | staged
  | refused
  deriving DecidableEq, Repr

structure Settings where
  setActivity : Bool
  secondaryEvents : Bool

/-- What the pump finds while it handles one event: the clocks, and whether a reply
gets through to the client in time. -/
structure Moment where
  now : Nat
  clock : Nat
  replies : Bool

def forwardOf (isClear backlog : Bool) (admission : Option Admission) : Forward :=
  if isClear then
    if backlog then .staged else .direct
  else match admission with
    | some (.admitted _) => if backlog then .staged else .direct
    | _ => .refused

/-- The command as it goes downstream, with the reply it is confirmed with. -/
def confirmed (clock : Nat) (queryClientId : Option AppId) (event : ActivityCmd) : Option Value × ActivityCmd :=
  Commands.setActivityResponse
    (ActivityCmd.fix clock { event with applicationId := event.applicationId.or queryClientId })

def handleSetActivity (moment : Moment) (id : ClientId) (queryClientId : Option AppId) (event : ActivityCmd)
    (forward : Forward) : Pump (Bool × Bool) := do
  let (response, event) := confirmed moment.clock queryClientId event
  let delivered ← match forward with
    | .direct => Pump.emit id event
    | .staged => Pump.emitOrStagePublish moment.now id event
    | .refused => pure false
  return (response.isNone || moment.replies, delivered)

def onSetActivity (moment : Moment) (id : ClientId) (slot : ClientSlot) (event : ActivityCmd) : Pump Bool := do
  let appId := event.applicationId.or slot.queryClientId
  let isClear := event.activity.isNone
  let admission ← if isClear then pure none else Pump.notePublished id ⟨appId, event.pid, event.nonce⟩
  let backlog ← Pump.backlog
  let (alive, delivered) ← handleSetActivity moment id slot.queryClientId event
    (forwardOf isClear (backlog != 0) admission)
  if delivered then
    if isClear then
      Pump.forgetPublished id event.pid
  else match admission with
    | some (.admitted displaced) => Pump.rollbackPublish id event.pid displaced
    | _ => pure ()
  return alive

def hasCode (event : ActivityCmd) : Bool :=
  (event.args.bind (·.code)).any fun code => code.toList.any (!isWhiteSpace ·)

def handleBrowserCommand (moment : Moment) (id : ClientId) (event : ActivityCmd) : Pump Bool := do
  if hasCode event then
    let _ ← Pump.emit id event
  return moment.replies

inductive CommandKind
  | setActivity
  | browser
  | answeredIfEnabled
  | answered
  deriving DecidableEq, Repr

def CommandKind.of : String → CommandKind
  | "SET_ACTIVITY" => setActivity
  | "INVITE_BROWSER" | "GUILD_TEMPLATE_BROWSER" | "GIFT_CODE_BROWSER" => browser
  | "DEEP_LINK" | "CONNECTIONS_CALLBACK" => answeredIfEnabled
  | _ => answered

/-- Commands that are switched off or only answered leave the transport alone; a
client the answer does not reach is not alive. -/
def dispatch (settings : Settings) (moment : Moment) (id : ClientId) (slot : ClientSlot) (event : ActivityCmd) :
    Pump Bool :=
  match CommandKind.of event.cmd with
  | .setActivity => if settings.setActivity then onSetActivity moment id slot event else return true
  | .browser => if settings.secondaryEvents then handleBrowserCommand moment id event else return true
  | .answeredIfEnabled => return !settings.secondaryEvents || moment.replies
  | .answered => return moment.replies

def readCommand (decode : String → Option ActivityCmd) : Message → Option ActivityCmd
  | .text text => decode text
  | .binary _ => none

def onMessage (decode : String → Option ActivityCmd) (settings : Settings) (moment : Moment) (id : ClientId)
    (message : Message) : Pump Unit := do
  Pump.flushPending
  match ← Pump.lookup id with
  | none => return
  | some slot =>
      match readCommand decode message with
      | none => return
      | some event =>
          if !(← dispatch settings moment id slot event) then
            Pump.removeAndClear moment.now id

def allowedOrigins : List String := ["https://discord.com", "https://canary.discord.com", "https://ptb.discord.com"]

/-- The query of a connect, and its origin. -/
structure Upgrade where
  version : Option String
  encoding : Option String
  clientId : Option AppId
  origin : Option String

def Upgrade.accepted (upgrade : Upgrade) : Bool :=
  upgrade.version.getD "0" == "1" && upgrade.encoding.getD "json" == "json" &&
    upgrade.origin.all allowedOrigins.contains

/-- Registered once `READY` is on its way. -/
def onConnect (moment : Moment) (id : ClientId) (upgrade : Upgrade) : Pump Unit :=
  if upgrade.accepted && moment.replies then Pump.register id { queryClientId := upgrade.clientId } else return

inductive PumpEvent
  | connect (moment : Moment) (id : ClientId) (upgrade : Upgrade)
  | disconnect (moment : Moment) (id : ClientId)
  | message (moment : Moment) (id : ClientId) (message : Message)

def PumpEvent.handle (decode : String → Option ActivityCmd) (settings : Settings) : PumpEvent → Pump Unit
  | connect moment id upgrade => onConnect moment id upgrade
  | disconnect moment id => Pump.removeAndClear moment.now id
  | message moment id text => onMessage decode settings moment id text

def pumpLoop (decode : String → Option ActivityCmd) (settings : Settings) (events : List PumpEvent) : Pump Unit :=
  forM events (PumpEvent.handle decode settings)

end RichPresence.Ws
