import RichPresence.WsServer.Events

namespace RichPresence.WsServer

open Lib

def Frame.isClose : Frame → Bool
  | .close _ => true
  | _ => false

def Cmd.isClose : Cmd → Bool
  | .close _ => true
  | .message _ => false

def Frame.data? : Frame → Option Message
  | .data m => some m
  | _ => none

def Cmd.message? : Cmd → Option Message
  | .message m => some m
  | .close _ => none

def sentMessages (wire : List Frame) : List Message := wire.filterMap Frame.data?

def queuedMessages (cmds : List Cmd) : List Message := cmds.filterMap Cmd.message?

/-- What has been written, and which commands have been taken for it, by where the task
stands. A close frame or a close command is the last one. -/
def Stage.Writes (wire : List Frame) (taken : List Cmd) : Stage → Prop
  | .handshaking | .announcing | .pumping | .relaying _ =>
      sentMessages wire = queuedMessages taken ∧ (∀ frame ∈ wire, frame.isClose = false) ∧
        ∀ cmd ∈ taken, cmd.isClose = false
  | .writing frame =>
      sentMessages (wire ++ [frame]) = queuedMessages taken ∧ (∀ f ∈ wire ++ [frame], f.isClose = false) ∧
        ∀ cmd ∈ taken, cmd.isClose = false
  | .closing _ _ =>
      sentMessages wire = queuedMessages taken ∧ (∀ frame ∈ wire, frame.isClose = false) ∧
        ∀ cmd ∈ taken.dropLast, cmd.isClose = false
  | .departing _ | .left | .aborted =>
      sentMessages wire <+: queuedMessages taken ∧ (∀ frame ∈ wire.dropLast, frame.isClose = false) ∧
        ∀ cmd ∈ taken.dropLast, cmd.isClose = false

section Rules

variable {stage : Stage} {wire : List Frame} {taken : List Cmd}

/-- However the task ends, what it has written is in the order it was asked for. -/
theorem Stage.Writes.ordered (h : stage.Writes wire taken) : Stage.left.Writes wire taken := by
  have hlast : ∀ {α : Type} {p : α → Bool} {l : List α}, (∀ a ∈ l, p a = false) → ∀ a ∈ l.dropLast, p a = false :=
    fun hl a ha => hl a (List.dropLast_subset _ ha)
  cases stage with
  | handshaking | announcing | pumping | relaying =>
      obtain ⟨hsent, hwire, htaken⟩ := h
      exact ⟨hsent ▸ List.prefix_refl _, hlast hwire, hlast htaken⟩
  | writing frame =>
      obtain ⟨hsent, hwire, htaken⟩ := h
      rw [sentMessages, List.filterMap_append] at hsent
      exact ⟨⟨_, hsent⟩, hlast fun f hf => hwire f (List.mem_append_left _ hf), hlast htaken⟩
  | closing =>
      obtain ⟨hsent, hwire, htaken⟩ := h
      exact ⟨hsent ▸ List.prefix_refl _, hlast hwire, htaken⟩
  | departing | left | aborted => exact h

theorem Stage.Writes.take {message : Message} (h : Stage.pumping.Writes wire taken) :
    (Stage.writing (.data message)).Writes wire (taken ++ [.message message]) := by
  obtain ⟨hsent, hwire, htaken⟩ := h
  refine ⟨?_, ?_, ?_⟩
  · rw [sentMessages, queuedMessages, List.filterMap_append, List.filterMap_append]
    exact congrArg (· ++ [message]) hsent
  · simpa [or_imp, forall_and, Frame.isClose] using hwire
  · simpa [or_imp, forall_and, Cmd.isClose] using htaken

theorem Stage.Writes.close {code code' : CloseCode} {reason : DisconnectReason}
    (h : Stage.pumping.Writes wire taken) :
    (Stage.closing code reason).Writes wire (taken ++ [.close code']) := by
  obtain ⟨hsent, hwire, htaken⟩ := h
  refine ⟨?_, hwire, by rwa [List.dropLast_concat]⟩
  rw [queuedMessages, List.filterMap_append]
  exact hsent.trans (List.append_nil _).symm

theorem Stage.Writes.ping (h : Stage.pumping.Writes wire taken) : (Stage.writing .ping).Writes wire taken := by
  obtain ⟨hsent, hwire, htaken⟩ := h
  refine ⟨?_, ?_, htaken⟩
  · rw [sentMessages, List.filterMap_append]
    exact (List.append_nil _).trans hsent
  · simpa [or_imp, forall_and, Frame.isClose] using hwire

theorem Stage.Writes.stop {code : CloseCode} {reason : DisconnectReason} (h : Stage.pumping.Writes wire taken) :
    (Stage.closing code reason).Writes wire taken :=
  ⟨h.1, h.2.1, fun cmd hcmd => h.2.2 cmd (List.dropLast_subset _ hcmd)⟩

theorem Stage.Writes.closed {code : CloseCode} {reason : DisconnectReason}
    (h : (Stage.closing code reason).Writes wire taken) : Stage.left.Writes (wire ++ [.close code]) taken := by
  obtain ⟨hsent, hwire, htaken⟩ := h
  refine ⟨?_, by rwa [List.dropLast_concat], htaken⟩
  rw [sentMessages, List.filterMap_append, ← hsent]
  exact ⟨[], by simp [sentMessages, Frame.data?]⟩

end Rules

namespace Conn

def Writes (c : Conn) : Prop := c.stage.Writes c.wire c.outbox.taken

variable {limits : Limits} {now : Nat} {cancelled : Bool} {c c' : Conn} {p p' : Port}

theorem Turn.writes (h : Turn limits now cancelled c p c' p') (hw : c.Writes) : c'.Writes := by
  cases h with
  | stays | hears | queued => exact hw
  | turnedAway | unannounced | unrelayed | undeparted | departed | peerLeft | unwritten | aborts => exact hw.ordered
  | shaken _ _ hstage | announced hstage | reads _ _ hstage | relayed _ hstage | written _ hstage =>
      rw [Writes, hstage] at hw
      exact hw
  | stopped hstage | idles hstage =>
      rw [Writes, hstage] at hw
      exact hw.stop
  | takes message rest hstage hrun hqueue =>
      rw [Writes, hstage] at hw
      rw [Channel.recv_of_cons hqueue]
      exact hw.take
  | closes code rest hstage hrun hqueue =>
      rw [Writes, hstage] at hw
      rw [Channel.recv_of_cons hqueue]
      exact hw.close
  | pings hstage =>
      rw [Writes, hstage] at hw
      exact hw.ping
  | closed code reason sent hstage =>
      rw [Writes, hstage] at hw
      cases sent with
      | true => exact hw.closed
      | false => exact hw.ordered

end Conn

namespace Process

/-- However senders, peer and server interleave, a client is sent the messages its
outbox has taken in, in their order and without a gap: all of them while the connection
is served, with the frame that is being written. Nothing follows a close frame, and
nothing accepted behind a close command is looked at. -/
theorem outbox_is_written_in_order (limits : Nat → Limits) (steps : List ProcessStep) (k : Nat) :
    ∀ c ∈ ((run limits steps).servers k).conns.tasks,
      sentMessages c.wire <+: queuedMessages c.outbox.carried ∧
        ((c.stage = .pumping ∨ ∃ message, c.stage = .relaying message) →
          sentMessages c.wire ++ queuedMessages c.outbox.queue = queuedMessages c.outbox.carried) ∧
        (∀ frame, c.stage = .writing frame →
          sentMessages (c.wire ++ [frame]) ++ queuedMessages c.outbox.queue = queuedMessages c.outbox.carried) ∧
        (∀ frame ∈ c.wire.dropLast, frame.isClose = false) ∧
        ∀ cmd ∈ c.outbox.taken.dropLast, cmd.isClose = false := by
  intro c hc
  have hw : c.Writes := (reached_run limits steps k).2.forall_conns Conn.Writes
    (fun _ _ => ⟨rfl, List.forall_mem_nil _, List.forall_mem_nil _⟩) (fun h => h.writes) (List.forall_mem_nil _) c hc
  obtain ⟨hsent, hwire, htaken⟩ := hw.ordered
  have hcarried : queuedMessages c.outbox.carried =
      queuedMessages c.outbox.taken ++ queuedMessages c.outbox.queue := List.filterMap_append
  rw [hcarried]
  refine ⟨hsent.trans (List.prefix_append _ _), ?_, fun frame hstage => ?_, hwire, htaken⟩
  · rintro (hstage | ⟨message, hstage⟩) <;>
    · rw [Conn.Writes, hstage] at hw
      exact congrArg (· ++ _) hw.1
  · rw [Conn.Writes, hstage] at hw
    exact congrArg (· ++ _) hw.1

def frameSent : List ProcessStep :=
  [.server 0 (.accept "127.0.0.1:50000"), .server 0 .spawn, .server 0 (.conn 0 (.handshake (some ([], "/")))),
    .server 0 (.conn 0 .poll), .server 0 (.conn 0 (.enqueue (.message (.text "hello")))), .server 0 (.conn 0 .poll),
    .server 0 (.conn 0 (.wrote true))]

theorem sent_frame_was_queued : ∃ c ∈ ((run defaultLimits frameSent).servers 0).conns.tasks,
    c.wire = [.data (.text "hello")] ∧ sentMessages c.wire <+: queuedMessages c.outbox.carried :=
  ⟨_, List.mem_cons_self, rfl, (outbox_is_written_in_order defaultLimits frameSent 0 _ List.mem_cons_self).1⟩

end Process

end RichPresence.WsServer
