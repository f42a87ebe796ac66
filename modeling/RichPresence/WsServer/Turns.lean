import RichPresence.WsServer.Task

namespace RichPresence.WsServer

open Lib

namespace Hub

variable {cap : Nat} {event : Event} {hub hub' : Hub}

theorem send_queued (h : hub.send cap event = .queued hub') :
    hub.gone = false ∧ hub.events.HasRoom cap ∧ hub' = { hub with events := hub.events.push event } := by
  rw [send] at h
  split at h
  next => cases h
  next hgone =>
      split at h
      next hroom => exact ⟨by simpa using hgone, hroom, (Sent.queued.inj h).symm⟩
      next => cases h

theorem send_refused (h : hub.send cap event = .refused) : hub.gone = true := by
  rw [send] at h
  split at h
  next hgone => exact hgone
  next => split at h <;> cases h

end Hub

namespace Conn

/-- All that can happen to a connection, with what it needs and what comes of it. -/
inductive Turn (limits : Limits) (now : Nat) (cancelled : Bool) (c : Conn) (p : Port) : Conn → Port → Prop
  | stays (inbox) (responder outboxOpen : Bool) :
      Turn limits now cancelled c p { c with inbox := inbox, responder := responder, outboxOpen := outboxOpen } p
  | turnedAway (hstage : c.stage = .handshaking) : Turn limits now cancelled c p (c.leave p).1 (c.leave p).2
  | shaken (headers) (uri : String) (hstage : c.stage = .handshaking) (hrun : cancelled = false) :
      Turn limits now cancelled c p
        { c with stage := .announcing, details := { c.details with headers := headers, uri := uri } } p
  | announced (hstage : c.stage = .announcing) (hkept : p.hub.gone = false)
      (hroom : p.hub.events.HasRoom limits.eventQueue) :
      Turn limits now cancelled c p
        { c.tell (.connect c.id c.details) .pumping with
          lastSeen := now, nextPing := now + limits.keepaliveInterval }
        { p with hub := { p.hub with events := p.hub.events.push (.connect c.id c.details) } }
  | unannounced (hstage : c.stage = .announcing) (hgone : p.hub.gone = true) :
      Turn limits now cancelled c p (c.leave p).1 (c.leave p).2
  | stopped (hstage : c.stage = .pumping) (hstop : cancelled = true) :
      Turn limits now cancelled c p { c with stage := .closing .normal .serverShutdown } p
  | takes (message) (rest) (hstage : c.stage = .pumping) (hrun : cancelled = false)
      (hqueue : c.outbox.queue = .message message :: rest) :
      Turn limits now cancelled c p { c with outbox := c.outbox.recv, stage := .writing (.data message) } p
  | closes (code) (rest) (hstage : c.stage = .pumping) (hrun : cancelled = false)
      (hqueue : c.outbox.queue = .close code :: rest) :
      Turn limits now cancelled c p { c with outbox := c.outbox.recv, stage := .closing code .clean } p
  | reads (message) (inbox) (hstage : c.stage = .pumping) (hrun : cancelled = false) :
      Turn limits now cancelled c p
        { c with inbox := inbox, lastSeen := now, stage := .relaying message, read := c.read ++ [message] } p
  | hears (inbox) (hstage : c.stage = .pumping) (hrun : cancelled = false) :
      Turn limits now cancelled c p { c with inbox := inbox, lastSeen := now } p
  | peerLeft (inbox) (reason) (hstage : c.stage = .pumping) (hrun : cancelled = false)
      (hreason : reason = .clean ∨ reason = .error) :
      Turn limits now cancelled c p { c with inbox := inbox, stage := .departing reason } p
  | pings (hstage : c.stage = .pumping) (hrun : cancelled = false) (hdue : c.nextPing ≤ now) :
      Turn limits now cancelled c p
        { c with stage := .writing .ping, nextPing := limits.nextTick now c.nextPing } p
  | idles (hstage : c.stage = .pumping) (hrun : cancelled = false) (hinbox : c.inbox = [])
      (hdue : c.lastSeen + limits.idleTimeout ≤ now) :
      Turn limits now cancelled c p { c with stage := .closing .internalError .idleTimeout } p
  | relayed (message) (hstage : c.stage = .relaying message) (hkept : p.hub.gone = false)
      (hroom : p.hub.events.HasRoom limits.eventQueue) :
      Turn limits now cancelled c p (c.tell (.message c.id message) .pumping)
        { p with hub := { p.hub with events := p.hub.events.push (.message c.id message) } }
  | unrelayed (message) (hstage : c.stage = .relaying message) (hgone : p.hub.gone = true) :
      Turn limits now cancelled c p { c with stage := .departing .serverShutdown } p
  | written (frame) (hstage : c.stage = .writing frame) :
      Turn limits now cancelled c p { c with stage := .pumping, wire := c.wire ++ [frame] } p
  | unwritten (frame) (hstage : c.stage = .writing frame) :
      Turn limits now cancelled c p { c with stage := .departing .error } p
  | closed (code) (reason) (sent : Bool) (hstage : c.stage = .closing code reason) :
      Turn limits now cancelled c p
        { c with stage := .departing reason, wire := if sent then c.wire ++ [.close code] else c.wire } p
  | departed (reason) (hstage : c.stage = .departing reason) (hkept : p.hub.gone = false)
      (hroom : p.hub.events.HasRoom limits.eventQueue) :
      Turn limits now cancelled c p (c.tell (.disconnect c.id reason) .left)
        { hub := { p.hub with events := p.hub.events.push (.disconnect c.id reason) }, permits := p.permits + 1 }
  | undeparted (reason) (hstage : c.stage = .departing reason) (hgone : p.hub.gone = true) :
      Turn limits now cancelled c p (c.leave p).1 (c.leave p).2
  | queued (cmd) (haccepts : c.Accepts limits) :
      Turn limits now cancelled c p { c with outbox := c.outbox.push cmd } p
  | aborts (hlive : c.live = true) :
      Turn limits now cancelled c p { c with stage := .aborted } { p with permits := p.permits + 1 }

variable (limits : Limits) (now : Nat) (cancelled : Bool) (c : Conn) (p : Port)

theorem turn_self : Turn limits now cancelled c p c p := .stays c.inbox c.responder c.outboxOpen

theorem turn_select (hstage : c.stage = .pumping) :
    Turn limits now cancelled c p (c.select limits now cancelled) p := by
  rw [select]
  split
  next hstop => exact .stopped hstage hstop
  next hstop =>
      have hrun : cancelled = false := by simpa using hstop
      split
      next cmd rest _ hqueue =>
          cases cmd with
          | message message => exact .takes message rest hstage hrun hqueue
          | close code => exact .closes code rest hstage hrun hqueue
      next => exact .stays c.inbox c.responder false
      next item inbox _ _ _ =>
          cases item with
          | message message => exact .reads message inbox hstage hrun
          | heartbeat => exact .hears inbox hstage hrun
          | frame => exact .stays inbox c.responder c.outboxOpen
          | close => exact .peerLeft inbox .clean hstage hrun (.inl rfl)
          | ended => exact .peerLeft inbox .clean hstage hrun (.inl rfl)
          | failure => exact .peerLeft inbox .error hstage hrun (.inr rfl)
      next =>
          split
          next hdue => exact .pings hstage hrun hdue
          next =>
              split
              next hdue => exact .idles hstage hrun ‹_› hdue
              next => exact turn_self limits now cancelled c p

theorem turn_poll :
    Turn limits now cancelled c p (c.poll limits now cancelled p).1 (c.poll limits now cancelled p).2 := by
  have hself := turn_self limits now cancelled c p
  rw [poll]
  split
  next hstage =>
      split
      next => exact .turnedAway hstage
      next => exact hself
  next hstage =>
      split
      next hsend =>
          obtain ⟨hkept, hroom, rfl⟩ := Hub.send_queued hsend
          exact .announced hstage hkept hroom
      next => exact hself
      next hsend => exact .unannounced hstage (Hub.send_refused hsend)
  next hstage => exact turn_select limits now cancelled c p hstage
  next message hstage =>
      split
      next hsend =>
          obtain ⟨hkept, hroom, rfl⟩ := Hub.send_queued hsend
          exact .relayed message hstage hkept hroom
      next => exact hself
      next hsend => exact .unrelayed message hstage (Hub.send_refused hsend)
  next reason hstage =>
      split
      next hsend =>
          obtain ⟨hkept, hroom, rfl⟩ := Hub.send_queued hsend
          exact .departed reason hstage hkept hroom
      next => exact hself
      next hsend => exact .undeparted reason hstage (Hub.send_refused hsend)
  all_goals exact hself

theorem turn_step (e : ConnStep) :
    Turn limits now cancelled c p (c.step limits now cancelled e p).1 (c.step limits now cancelled e p).2 := by
  have hself := turn_self limits now cancelled c p
  cases e with
  | poll => exact turn_poll limits now cancelled c p
  | handshake request =>
      rw [step]
      unfold shake
      split
      next hstage =>
          split
          next headers uri => exact .shaken headers uri hstage rfl
          next => exact .turnedAway hstage
      next => exact hself
  | wrote sent =>
      rw [step, wrote]
      split
      next frame hstage =>
          split
          next => exact .written frame hstage
          next => exact .unwritten frame hstage
      next code reason hstage => exact .closed code reason sent hstage
      next => exact hself
  | arrive item => exact .stays (c.inbox ++ [item]) c.responder c.outboxOpen
  | enqueue cmd =>
      rw [step, enqueue]
      split
      next haccepts => exact .queued cmd haccepts
      next => exact hself
  | release => exact .stays c.inbox false c.outboxOpen

theorem turn_abort : Turn limits now cancelled c p (c.abort p).1 (c.abort p).2 := by
  rw [abort]
  split
  next hlive => exact .aborts hlive
  next => exact turn_self limits now cancelled c p

end Conn

end RichPresence.WsServer
