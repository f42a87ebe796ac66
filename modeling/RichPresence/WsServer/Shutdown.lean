import RichPresence.WsServer.Events
import RichPresence.WsServer.Limits

namespace RichPresence.WsServer

open Lib

/-- How much a connection task has still to do once the token is cancelled. An event
that it has to send counts twice, for the queue it adds to. -/
def Stage.work : Stage → Nat
  | .handshaking => 1
  | .announcing | .relaying _ => 6
  | .writing _ => 5
  | .pumping => 4
  | .closing _ _ => 3
  | .departing _ => 2
  | .left | .aborted => 0

def Conn.work (c : Conn) : Nat := c.stage.work

def Rejecting.work (r : Rejecting) : Nat := r.live.toNat

def Accepting.work : Accepting → Nat
  | .spawning _ | .spawningReject => 3
  | .backingOff => 2
  | .polling => 1
  | .ended => 0

def Hub.backlog (hub : Hub) : Nat := if hub.gone then 0 else hub.events.queue.length

theorem Hub.backlog_receive_le (hub : Hub) : hub.receive.backlog ≤ hub.backlog := by
  cases hgone : hub.gone with
  | true => simp [receive, backlog, hgone]
  | false => simpa [receive, backlog, hgone] using Channel.length_recv_le hub.events

theorem Hub.backlog_receive_lt {hub : Hub} (hkept : hub.gone = false) (hqueue : 0 < hub.events.queue.length) :
    hub.receive.backlog < hub.backlog := by
  cases hevents : hub.events.queue with
  | nil => simp [hevents] at hqueue
  | cons event queue => simp [receive, backlog, hkept, Channel.recv_of_cons hevents, hevents]

/-- The steps that the tasks of a server take by themselves once the token is
cancelled, and the reader of the hub. Nothing is aborted. -/
def ServerStep.Drains : ServerStep → Prop
  | .stopAccepting | .resume | .spawn | .receive | .reject _ _ => True
  | .conn _ e => e = .poll ∨ e = .wrote true
  | _ => False

def Server.work (s : Server) : Nat :=
  (s.conns.tasks.map Conn.work).sum + (s.rejects.tasks.map Rejecting.work).sum + s.accepting.work + s.hub.backlog

theorem Rejecting.live_of_step {cancelled : Bool} {e : RejectStep} {r : Rejecting} {permits : Nat}
    (h : (r.step cancelled e permits).1.live = true) : r.live = true := by
  cases r with
  | handshaking | closing => rfl
  | left | aborted => exact h

theorem Rejecting.live_of_abort {r : Rejecting} {permits : Nat} (h : (r.abort permits).1.live = true) :
    r.live = true := by
  cases r with
  | handshaking | closing => rfl
  | left | aborted => exact h

namespace Conn

variable {limits : Limits} {now : Nat} {c c' : Conn} {p p' : Port}

theorem Turn.work_le (h : Turn limits now true c p c' p') : c'.work + p'.hub.backlog ≤ c.work + p.hub.backlog := by
  cases h with
  | stays | queued => exact Nat.le_refl _
  | shaken _ _ _ hrun | takes _ _ _ hrun | closes _ _ _ hrun | reads _ _ _ hrun | hears _ _ hrun
  | peerLeft _ _ _ hrun | pings _ hrun | idles _ hrun => cases hrun
  | turnedAway hstage | unannounced hstage | stopped hstage | unrelayed _ hstage | written _ hstage
  | unwritten _ hstage | closed _ _ _ hstage | undeparted _ hstage =>
      simp [work, Stage.work, hstage, leave]
  | announced hstage hkept | relayed _ hstage hkept | departed _ hstage hkept =>
      simp only [work, Stage.work, hstage, tell, Hub.backlog, hkept, Bool.false_eq_true, if_false, Channel.push,
        List.length_append, List.length_singleton]
      omega
  | aborts => exact Nat.add_le_add_right (Nat.zero_le _) _

theorem exists_step_work_lt (limits : Limits) (now : Nat) (c : Conn) (p : Port) (hlive : c.live = true)
    (hroom : p.hub.gone = true ∨ p.hub.events.HasRoom limits.eventQueue) :
    ∃ e, (e = .poll ∨ e = .wrote true) ∧
      (c.step limits now true e p).1.work + (c.step limits now true e p).2.hub.backlog < c.work + p.hub.backlog := by
  cases hstage : c.stage with
  | handshaking => exact ⟨.poll, .inl rfl, by simp [step, poll, hstage, leave, work, Stage.work]⟩
  | announcing | relaying message | departing reason =>
      refine ⟨.poll, .inl rfl, ?_⟩
      cases hgone : p.hub.gone with
      | true => simp [step, poll, hstage, Hub.send, hgone, leave, work, Stage.work]
      | false =>
          have hfree : p.hub.events.HasRoom limits.eventQueue := by simpa [hgone] using hroom
          simp [step, poll, hstage, Hub.send, hgone, hfree, tell, leave, work, Stage.work, Hub.backlog, Channel.push]
          omega
  | pumping => exact ⟨.poll, .inl rfl, by simp [step, poll, hstage, select, work, Stage.work]⟩
  | writing frame => exact ⟨.wrote true, .inr rfl, by simp [step, wrote, hstage, work, Stage.work]⟩
  | closing code reason => exact ⟨.wrote true, .inr rfl, by simp [step, wrote, hstage, work, Stage.work]⟩
  | left | aborted => simp [live, Stage.live, hstage] at hlive

end Conn

namespace Server

variable {limits : Limits} {s : Server}

theorem work_le_of {s' : Server}
    (hconns : (s'.conns.tasks.map Conn.work).sum + s'.hub.backlog ≤ (s.conns.tasks.map Conn.work).sum + s.hub.backlog)
    (hrejects : (s'.rejects.tasks.map Rejecting.work).sum ≤ (s.rejects.tasks.map Rejecting.work).sum)
    (haccept : s'.accepting.work ≤ s.accepting.work) : s'.work ≤ s.work := by
  rw [work, work]
  omega

theorem conns_work_le {f : Conn → Port → Conn × Port}
    (hf : ∀ c p, (f c p).1.work + (f c p).2.hub.backlog ≤ c.work + p.hub.backlog) (i : Nat) :
    { s with conns := s.conns.advance f i }.work ≤ s.work :=
  work_le_of (Pool.potential_advance Conn.work (fun p : Port => p.hub.backlog) hf) (Nat.le_refl _) (Nat.le_refl _)

theorem rejects_work_le {f : Rejecting → Nat → Rejecting × Nat}
    (hf : ∀ r permits, (f r permits).1.live = true → r.live = true) (i : Nat) :
    { s with rejects := s.rejects.advance f i }.work ≤ s.work := by
  refine work_le_of (Nat.le_refl _) ?_ (Nat.le_refl _)
  refine Pool.potential_advance (p := s.rejects) Rejecting.work (fun _ => 0) fun r permits => ?_
  rw [Rejecting.work, Rejecting.work]
  cases hlive : (f r permits).1.live with
  | false => exact Nat.zero_le _
  | true => rw [hf r permits hlive]

theorem work_abortAll_le (limits : Limits) (tasks : List TaskId) (s : Server) : (s.abortAll tasks).work ≤ s.work := by
  induction tasks generalizing s with
  | nil => exact Nat.le_refl _
  | cons task tasks ih =>
      refine Nat.le_trans (ih (s.abort task)) ?_
      cases task with
      | conn i => exact conns_work_le (fun c p => (Conn.turn_abort limits 0 true c p).work_le) i
      | reject i => exact rejects_work_le (fun _ _ => Rejecting.live_of_abort) i

theorem cancelled_abortAll (tasks : List TaskId) (s : Server) : (s.abortAll tasks).cancelled = s.cancelled := by
  induction tasks generalizing s with
  | nil => rfl
  | cons task tasks ih => exact (ih (s.abort task)).trans (by cases task <;> rfl)

theorem work_spawn_lt (hfresh : s.accepting.Fresh) (hspawn : s.accepting.work = 3) : s.spawn.work < s.work := by
  cases haccept : s.accepting with
  | spawning c =>
      rw [haccept] at hfresh
      have hwork : c.work = 1 := by rw [show c = { id := c.id, details := c.details } from hfresh]; rfl
      simp [spawn, work, haccept, hub, Pool.spawn, Accepting.work, hwork]
      omega
  | spawningReject =>
      simp [spawn, work, haccept, hub, Pool.spawn, Accepting.work, Rejecting.work, Rejecting.live]
      omega
  | polling | backingOff | ended =>
      rw [haccept] at hspawn
      cases hspawn

theorem work_spawn_le (hfresh : s.accepting.Fresh) : s.spawn.work ≤ s.work := by
  by_cases hspawn : s.accepting.work = 3
  · exact Nat.le_of_lt (work_spawn_lt hfresh hspawn)
  · rw [spawn]
    split
    next h => exact absurd (congrArg Accepting.work h) hspawn
    next h => exact absurd (congrArg Accepting.work h) hspawn
    next => exact Nat.le_refl _

theorem cancelled_spawn (s : Server) : s.spawn.cancelled = s.cancelled := by
  rw [spawn]
  split <;> rfl

/-- Once the token is cancelled no step of anybody adds to the work. -/
theorem work_step_le (hfresh : s.accepting.Fresh) (hcancel : s.cancelled = true) (now : Nat) (id : ClientId)
    (e : ServerStep) : (s.step limits now id e).work ≤ s.work ∧ (s.step limits now id e).cancelled = true := by
  have hself : s.work ≤ s.work ∧ s.cancelled = true := ⟨Nat.le_refl _, hcancel⟩
  have haccept : ∀ {a : Accepting}, a.work ≤ s.accepting.work → { s with accepting := a }.work ≤ s.work :=
    fun ha => work_le_of (Nat.le_refl _) (Nat.le_refl _) ha
  cases e with
  | accept peer =>
      rw [step, accept]
      split
      next => exact ⟨haccept (Nat.zero_le _), hcancel⟩
      next => exact hself
  | acceptError error =>
      rw [step, acceptError]
      split
      next => exact ⟨haccept (Nat.zero_le _), hcancel⟩
      next => exact hself
  | resume =>
      rw [step]
      split
      next hpaused => exact ⟨haccept (by rw [hpaused]; decide), hcancel⟩
      next => exact hself
  | spawn => exact ⟨work_spawn_le hfresh, (cancelled_spawn s).trans hcancel⟩
  | stopAccepting =>
      rw [step]
      split
      next => exact ⟨haccept (Nat.zero_le _), hcancel⟩
      next => exact hself
  | conn i e =>
      refine ⟨conns_work_le (fun c p => ?_) i, hcancel⟩
      rw [hcancel]
      exact (Conn.turn_step limits now true c p e).work_le
  | reject i e => exact ⟨rejects_work_le (fun _ _ => Rejecting.live_of_step) i, hcancel⟩
  | receive =>
      exact ⟨work_le_of (Nat.add_le_add_left (Hub.backlog_receive_le _) _) (Nat.le_refl _) (Nat.le_refl _), hcancel⟩
  | dropHub => exact ⟨work_le_of (Nat.add_le_add_left (Nat.zero_le _) _) (Nat.le_refl _) (Nat.le_refl _), hcancel⟩
  | shutdown =>
      rw [step]
      split
      next => exact ⟨Nat.le_refl _, rfl⟩
      next => exact hself
  | takeTasks timedOut =>
      rw [step, takeTasks]
      split <;> exact hself
  | finish timedOut =>
      rw [step, finish]
      split
      next owned _ =>
          split
          next => exact ⟨work_abortAll_le limits owned s, (cancelled_abortAll owned s).trans hcancel⟩
          next => exact hself
      next => exact hself
  | drop =>
      rw [step]
      split
      next =>
          refine ⟨?_, rfl⟩
          rw [abortAccept]
          split <;> exact work_le_of (Nat.le_refl _) (Nat.le_refl _) (Nat.zero_le _)
      next => exact hself
  | dropTasks =>
      rw [step]
      split
      next => exact ⟨work_abortAll_le limits s.joinSet s, (cancelled_abortAll s.joinSet s).trans hcancel⟩
      next => exact hself

/-- A task of the server runs, or its accept loop does. -/
def Busy (s : Server) : Prop := s.accepting ≠ .ended ∨ ∃ task, s.isLive task = true

theorem exists_isLive {c : Conn} (hc : c ∈ s.conns.tasks) (hlive : c.live = true) : ∃ task, s.isLive task = true := by
  obtain ⟨i, hi⟩ := List.mem_iff_getElem?.mp hc
  exact ⟨.conn i, by rw [isLive, hi]; exact hlive⟩

theorem accept_work_lt (hfresh : s.accepting.Fresh) (hcancel : s.cancelled = true) (now : Nat) (id : ClientId)
    (hbusy : s.accepting ≠ .ended) :
    ∃ e, ServerStep.Drains e ∧ (s.step limits now id e).work < s.work := by
  cases haccept : s.accepting with
  | polling => exact ⟨.stopAccepting, trivial, by simp [step, work, haccept, hcancel, Accepting.work, hub]⟩
  | backingOff => exact ⟨.resume, trivial, by simp [step, work, haccept, Accepting.work, hub]⟩
  | spawning | spawningReject => exact ⟨.spawn, trivial, work_spawn_lt hfresh (by rw [haccept]; rfl)⟩
  | ended => exact absurd haccept hbusy

theorem conn_work_lt (hcancel : s.cancelled = true) (now : Nat) (id : ClientId) {i : Nat} {c : Conn}
    (hi : s.conns.tasks[i]? = some c) (hlive : c.live = true) :
    ∃ e, ServerStep.Drains e ∧ (s.step limits now id e).work < s.work := by
  by_cases hroom : s.hub.gone = true ∨ s.hub.events.HasRoom limits.eventQueue
  · obtain ⟨e, he, hlt⟩ := c.exists_step_work_lt limits now s.conns.shared hlive hroom
    refine ⟨.conn i e, he, ?_⟩
    have hsum := Pool.potential_advance_lt Conn.work (fun p : Port => p.hub.backlog) hi hlt
    simp only [step, hcancel, work, hub] at hsum ⊢
    omega
  · -- the hub is full, so it has an event to read
    obtain ⟨hgone, hfull⟩ := not_or.mp hroom
    refine ⟨.receive, trivial, ?_⟩
    have hkept : s.conns.shared.hub.gone = false := by simpa [hub] using hgone
    have hlt := Hub.backlog_receive_lt hkept (Nat.lt_of_lt_of_le limits.eventQueue_pos (Nat.le_of_not_lt hfull))
    simp only [step, work, hub, setPort]
    omega

theorem reject_work_lt (hcancel : s.cancelled = true) (now : Nat) (id : ClientId) {i : Nat} {r : Rejecting}
    (hi : s.rejects.tasks[i]? = some r) (hlive : r.live = true) :
    ∃ e, ServerStep.Drains e ∧ (s.step limits now id e).work < s.work := by
  have hstep : ∃ e : RejectStep, (r.step true e s.rejects.shared).1.work + 0 < r.work + 0 := by
    cases r with
    | handshaking => exact ⟨.poll, Nat.zero_lt_one⟩
    | closing => exact ⟨.wrote, Nat.zero_lt_one⟩
    | left | aborted => cases hlive
  obtain ⟨e, hlt⟩ := hstep
  refine ⟨.reject i e, trivial, ?_⟩
  have hsum := Pool.potential_advance_lt Rejecting.work (fun _ => 0) hi hlt
  simp only [step, hcancel, work, hub] at hsum ⊢
  omega

/-- Where a server on its way down is still busy, a step of its own tasks or of the
reader of the hub brings the work down. -/
theorem exists_step_work_lt (limits : Limits) (now : Nat) (id : ClientId) (hfresh : s.accepting.Fresh)
    (hcancel : s.cancelled = true) (hbusy : s.Busy) :
    ∃ e, ServerStep.Drains e ∧ (s.step limits now id e).work < s.work := by
  obtain hbusy | ⟨task, hlive⟩ := hbusy
  · exact accept_work_lt hfresh hcancel now id hbusy
  · cases task with
    | conn i =>
        obtain ⟨c, hi, hlive⟩ := (Option.any_eq_true _ _).mp hlive
        exact conn_work_lt hcancel now id hi hlive
    | reject i =>
        obtain ⟨r, hi, hlive⟩ := (Option.any_eq_true _ _).mp hlive
        exact reject_work_lt hcancel now id hi hlive

end Server

namespace Process

variable {limits : Nat → Limits}

theorem run_append (limits : Nat → Limits) (steps more : List ProcessStep) :
    run limits (steps ++ more) = more.foldl (step limits) (run limits steps) := List.foldl_append ..

theorem work_run_le (steps more : List ProcessStep) (k : Nat)
    (hcancel : ((run limits steps).servers k).cancelled = true) :
    ((run limits (steps ++ more)).servers k).work ≤ ((run limits steps).servers k).work ∧
      ((run limits (steps ++ more)).servers k).cancelled = true := by
  induction more generalizing steps with
  | nil => rw [List.append_nil]; exact ⟨Nat.le_refl _, hcancel⟩
  | cons e more ih =>
      have hstep : ((run limits (steps ++ [e])).servers k).work ≤ ((run limits steps).servers k).work ∧
          ((run limits (steps ++ [e])).servers k).cancelled = true := by
        rw [run_append]
        cases e with
        | elapse ms => exact ⟨Nat.le_refl _, hcancel⟩
        | server j e =>
            by_cases hk : k = j
            · subst hk
              simp only [List.foldl_cons, List.foldl_nil, step, Function.update_self]
              exact Server.work_step_le (reached_run limits steps k).1 hcancel _ _ e
            · simp only [List.foldl_cons, List.foldl_nil, step, Function.update_of_ne hk]
              exact ⟨Nat.le_refl _, hcancel⟩
      obtain ⟨hle, hcancel'⟩ := ih (steps ++ [e]) hstep.2
      rw [List.append_assoc, List.singleton_append] at hle hcancel'
      exact ⟨Nat.le_trans hle hstep.1, hcancel'⟩

theorem step_server (p : Process) (k : Nat) (e : ServerStep) :
    (step limits p (.server k e)).servers k = (p.servers k).step (limits k) p.clock (p.issued % 2 ^ 64) e :=
  Function.update_self ..

theorem exists_drain (n : Nat) (steps : List ProcessStep) (k : Nat)
    (hcancel : ((run limits steps).servers k).cancelled = true) (hn : ((run limits steps).servers k).work ≤ n) :
    ∃ more : List ServerStep, (∀ e ∈ more, e.Drains) ∧ more.length ≤ ((run limits steps).servers k).work ∧
      ¬((run limits (steps ++ more.map (.server k))).servers k).Busy := by
  induction n generalizing steps with
  | zero =>
      refine ⟨[], List.forall_mem_nil _, Nat.zero_le _, fun hbusy => ?_⟩
      rw [List.map_nil, List.append_nil] at hbusy
      obtain ⟨e, _, hlt⟩ := Server.exists_step_work_lt (limits k) 0 0 (reached_run limits steps k).1 hcancel hbusy
      exact Nat.not_lt_zero _ (Nat.lt_of_lt_of_le hlt hn)
  | succ n ih =>
      by_cases hbusy : ((run limits steps).servers k).Busy
      · obtain ⟨e, hdrains, hlt⟩ := Server.exists_step_work_lt (limits k) (run limits steps).clock
          ((run limits steps).issued % 2 ^ 64) (reached_run limits steps k).1 hcancel hbusy
        have hnext : run limits (steps ++ [.server k e]) = step limits (run limits steps) (.server k e) :=
          run_append limits steps [.server k e]
        have hless :
            ((run limits (steps ++ [.server k e])).servers k).work < ((run limits steps).servers k).work := by
          rw [hnext, step_server]
          exact hlt
        clear hlt hnext
        obtain ⟨more, hmore, hlen, hquiet⟩ := ih (steps ++ [.server k e])
          (work_run_le steps [.server k e] k hcancel).2 (by omega)
        refine ⟨e :: more, List.forall_mem_cons.mpr ⟨hdrains, hmore⟩, ?_, ?_⟩
        · rw [List.length_cons]
          omega
        · rwa [List.append_assoc] at hquiet
      · exact ⟨[], List.forall_mem_nil _, Nat.zero_le _, by rwa [List.map_nil, List.append_nil]⟩

/-- Once the token of a server is cancelled, nothing that anybody does adds to its work,
and as many steps as there is work, taken by its tasks and the reader of the hub, bring
it to a state in which no task runs: nobody has to be aborted. -/
theorem cancelled_server_winds_down (limits : Nat → Limits) (steps : List ProcessStep) (k : Nat)
    (hcancel : ((run limits steps).servers k).cancelled = true) :
    (∀ more, ((run limits (steps ++ more)).servers k).work ≤ ((run limits steps).servers k).work) ∧
      ∃ more : List ServerStep, (∀ e ∈ more, e.Drains) ∧ more.length ≤ ((run limits steps).servers k).work ∧
        ¬((run limits (steps ++ more.map (.server k))).servers k).Busy :=
  ⟨fun more => (work_run_le steps more k hcancel).1, exists_drain _ steps k hcancel (Nat.le_refl _)⟩

def interrupted : List ProcessStep :=
  [.server 0 (.accept "127.0.0.1:50000"), .server 0 .spawn,
    .server 0 (.conn 0 (.handshake (some ([], "/?v=1&client_id=42")))), .server 0 (.conn 0 .poll),
    .server 0 .shutdown]

theorem interrupted_winds_down :
    ((run defaultLimits interrupted).servers 0).cancelled = true ∧
      ∃ more : List ServerStep, (∀ e ∈ more, e.Drains) ∧ more.length ≤ 6 ∧
        ¬((run defaultLimits (interrupted ++ more.map (.server 0))).servers 0).Busy :=
  ⟨rfl, (cancelled_server_winds_down defaultLimits interrupted 0 rfl).2⟩

end Process

end RichPresence.WsServer
