import RichPresence.WsServer.Reach

namespace RichPresence.WsServer

open Lib

theorem Conn.Turn.permits {limits : Limits} {now : Nat} {cancelled : Bool} {c c' : Conn} {p p' : Port}
    (h : Turn limits now cancelled c p c' p') : p'.permits + c'.live.toNat = p.permits + c.live.toNat := by
  cases h with
  | aborts hlive => rw [hlive]; rfl
  | stays | hears | queued => rfl
  | turnedAway hstage | shaken _ _ hstage | announced hstage | unannounced hstage | stopped hstage
  | takes _ _ hstage | closes _ _ hstage | reads _ _ hstage | peerLeft _ _ hstage | pings hstage | idles hstage
  | relayed _ hstage | unrelayed _ hstage | written _ hstage | unwritten _ hstage | closed _ _ _ hstage
  | departed _ hstage | undeparted _ hstage => simp [live, Stage.live, leave, tell, hstage]

theorem Conn.Turn.bounded {limits : Limits} {now : Nat} {cancelled : Bool} {c c' : Conn} {p p' : Port}
    (h : Turn limits now cancelled c p c' p') (hhub : p.hub.events.queue.length ≤ limits.eventQueue)
    (hout : c.outbox.queue.length ≤ limits.perClientQueue) :
    p'.hub.events.queue.length ≤ limits.eventQueue ∧ c'.outbox.queue.length ≤ limits.perClientQueue := by
  cases h with
  | announced _ _ hroom | relayed _ _ _ hroom | departed _ _ _ hroom => exact ⟨Channel.length_push_le hroom, hout⟩
  | takes | closes => exact ⟨hhub, Nat.le_trans (Channel.length_recv_le _) hout⟩
  | queued cmd haccepts => exact ⟨hhub, Channel.length_push_le haccepts.2.2.2⟩
  | _ => exact ⟨hhub, hout⟩

theorem Hub.length_receive_le (hub : Hub) : hub.receive.events.queue.length ≤ hub.events.queue.length := by
  rw [receive]
  split
  next => exact Nat.le_refl _
  next => exact Channel.length_recv_le _

/-- The queue of the hub and all outboxes are within their bounds. -/
def Bounded (limits : Limits) (P : Pool Conn Port) : Prop :=
  P.shared.hub.events.queue.length ≤ limits.eventQueue ∧
    ∀ c ∈ P.tasks, c.outbox.queue.length ≤ limits.perClientQueue

theorem Bounded.step {limits : Limits} {P Q : Pool Conn Port} (h : Bounded limits P) (hstep : PoolStep limits P Q) :
    Bounded limits Q := by
  cases hstep with
  | turn f i hf =>
      refine ⟨?_, Pool.forall_tasks_advance (fun c _ hout => ?_) h.2⟩
      · cases hi : P.tasks[i]? with
        | none => rw [Pool.advance_of_none hi]; exact h.1
        | some c =>
            obtain ⟨_, _, hturn⟩ := hf c P.shared
            rw [Pool.advance_of_some hi]
            exact (hturn.bounded h.1 (h.2 c (List.mem_of_getElem? hi))).1
      · obtain ⟨_, _, hturn⟩ := hf c P.shared
        exact (hturn.bounded h.1 hout).2
  | receive => exact ⟨Nat.le_trans (Hub.length_receive_le _) h.1, h.2⟩
  | dropHub | permits => exact h
  | spawn id details =>
      refine ⟨h.1, fun c hc => ?_⟩
      obtain hc | hc := List.mem_append.mp hc
      · exact h.2 c hc
      · rw [List.mem_singleton.mp hc]; exact Nat.zero_le _

theorem Rejecting.permits_step (cancelled : Bool) (e : RejectStep) (r : Rejecting) (permits : Nat) :
    (r.step cancelled e permits).2 + (r.step cancelled e permits).1.live.toNat = permits + r.live.toNat := by
  cases r with
  | handshaking =>
      cases e with
      | poll => cases cancelled <;> rfl
      | handshake completed => cases completed <;> cases cancelled <;> rfl
      | wrote => rfl
  | closing => cases e <;> rfl
  | left | aborted => rfl

theorem Rejecting.permits_abort (r : Rejecting) (permits : Nat) :
    (r.abort permits).2 + (r.abort permits).1.live.toNat = permits + r.live.toNat := by
  cases r <;> rfl

def Accepting.rejects : Accepting → Nat
  | .spawningReject => 1
  | _ => 0

namespace Server

structure WithinLimits (limits : Limits) (s : Server) : Prop where
  conns : s.conns.tasks.countP Conn.live ≤ limits.maxConnections
  rejects : s.rejects.tasks.countP Rejecting.live ≤ maxPendingRejects
  events : s.hub.events.queue.length ≤ limits.eventQueue
  outboxes : ∀ c ∈ s.conns.tasks, c.outbox.queue.length ≤ limits.perClientQueue

/-- Every permit is free, held by a task, or held by the accept task for the next one. -/
structure Balanced (limits : Limits) (s : Server) : Prop where
  conns : s.conns.shared.permits + s.conns.tasks.countP Conn.live + s.accepting.ids.length = limits.maxConnections
  rejects : s.rejects.shared + s.rejects.tasks.countP Rejecting.live + s.accepting.rejects = maxPendingRejects

variable {limits : Limits} {s s' : Server}

theorem balanced_bind (limits : Limits) : Balanced limits (bind limits) where
  conns := rfl
  rejects := rfl

theorem Balanced.advance_conns (h : Balanced limits s) {f : Conn → Port → Conn × Port} (hf : Turns limits f)
    (i : Nat) : Balanced limits { s with conns := s.conns.advance f i } := by
  have hbalance := Pool.balance_advance (p := s.conns) (i := i) (f := f) (q := Conn.live) Port.permits fun c p => by
    obtain ⟨_, _, hturn⟩ := hf c p
    exact hturn.permits
  exact ⟨(congrArg (· + _) hbalance).trans h.conns, h.rejects⟩

theorem Balanced.advance_rejects (h : Balanced limits s) {f : Rejecting → Nat → Rejecting × Nat}
    (hf : ∀ r permits, (f r permits).2 + (f r permits).1.live.toNat = permits + r.live.toNat) (i : Nat) :
    Balanced limits { s with rejects := s.rejects.advance f i } := by
  have hbalance := Pool.balance_advance (p := s.rejects) (i := i) (fun permits => permits) hf
  exact ⟨h.conns, (congrArg (· + _) hbalance).trans h.rejects⟩

theorem Balanced.abortAll (h : Balanced limits s) (tasks : List TaskId) : Balanced limits (s.abortAll tasks) := by
  induction tasks generalizing s with
  | nil => exact h
  | cons task tasks ih =>
      refine ih ?_
      cases task with
      | conn i => exact h.advance_conns (turns_abort limits) i
      | reject i => exact h.advance_rejects Rejecting.permits_abort i

theorem Balanced.accepting (h : Balanced limits s) {accepting : Accepting}
    (hids : accepting.ids.length = s.accepting.ids.length) (hrejects : accepting.rejects = s.accepting.rejects) :
    Balanced limits { s with accepting := accepting } where
  conns := (congrArg (_ + ·) hids).trans h.conns
  rejects := (congrArg (_ + ·) hrejects).trans h.rejects

theorem Balanced.accept (h : Balanced limits s) (id : ClientId) (peer : String) :
    Balanced limits (s.accept id peer) := by
  rw [Server.accept]
  split
  next hpoll =>
      have hconns := h.conns
      have hrejects := h.rejects
      rw [hpoll] at hconns hrejects
      split
      next => exact ⟨hconns, hrejects⟩
      next =>
          split
          next =>
              split
              next => exact h
              next =>
                  refine ⟨hconns, ?_⟩
                  simp only [Accepting.rejects] at hrejects ⊢
                  omega
          next =>
              refine ⟨?_, hrejects⟩
              simp only [Accepting.ids, List.length_nil, List.length_singleton, setPort] at hconns ⊢
              omega
  next => exact h

theorem Balanced.spawn (h : Balanced limits s) (hfresh : s.accepting.Fresh) : Balanced limits s.spawn := by
  have hconns := h.conns
  have hrejects := h.rejects
  rw [Server.spawn]
  split
  next c haccept =>
      rw [haccept] at hconns hrejects hfresh
      refine ⟨?_, hrejects⟩
      simp only [Accepting.ids, List.length_nil, List.length_singleton, Pool.spawn, List.countP_append] at hconns ⊢
      rw [show c = { id := c.id, details := c.details } from hfresh]
      exact hconns
  next haccept =>
      rw [haccept] at hconns hrejects
      refine ⟨hconns, ?_⟩
      simp only [Accepting.rejects, Pool.spawn, List.countP_append] at hrejects ⊢
      exact hrejects
  next => exact h

theorem Balanced.abortAccept (h : Balanced limits s) : Balanced limits s.abortAccept := by
  have hconns := h.conns
  have hrejects := h.rejects
  cases haccept : s.accepting with
  | spawning c =>
      rw [haccept] at hconns hrejects
      rw [Server.abortAccept, haccept]
      refine ⟨?_, hrejects⟩
      simp only [Accepting.ids, List.length_nil, List.length_singleton, setPort] at hconns ⊢
      omega
  | spawningReject =>
      rw [haccept] at hconns hrejects
      rw [Server.abortAccept, haccept]
      refine ⟨hconns, ?_⟩
      simp only [Accepting.rejects] at hrejects ⊢
      omega
  | polling | backingOff | ended =>
      rw [Server.abortAccept, haccept]
      exact h.accepting (haccept ▸ rfl) (haccept ▸ rfl)

theorem Balanced.step (h : Balanced limits s) (hfresh : s.accepting.Fresh) (now : Nat) (id : ClientId)
    (e : ServerStep) : Balanced limits (s.step limits now id e) := by
  cases e with
  | accept peer => exact h.accept id peer
  | acceptError error =>
      rw [Server.step, acceptError]
      split
      next hpoll =>
          split
          next => exact h.accepting (hpoll ▸ rfl) (hpoll ▸ rfl)
          next =>
              split
              next => exact h.accepting (hpoll ▸ rfl) (hpoll ▸ rfl)
              next => exact h
      next => exact h
  | resume =>
      rw [Server.step]
      split
      next hpaused => exact h.accepting (hpaused ▸ rfl) (hpaused ▸ rfl)
      next => exact h
  | spawn => exact h.spawn hfresh
  | stopAccepting =>
      rw [Server.step]
      split
      next hpoll => exact h.accepting (hpoll.1 ▸ rfl) (hpoll.1 ▸ rfl)
      next => exact h
  | conn i e => exact h.advance_conns (turns_step limits now s.cancelled e) i
  | reject i e => exact h.advance_rejects (Rejecting.permits_step s.cancelled e) i
  | receive | dropHub => exact ⟨h.conns, h.rejects⟩
  | shutdown =>
      rw [Server.step]
      split
      next => exact ⟨h.conns, h.rejects⟩
      next => exact h
  | takeTasks timedOut =>
      rw [Server.step, takeTasks]
      split
      next => exact ⟨h.conns, h.rejects⟩
      next => exact h
  | finish timedOut =>
      rw [Server.step, finish]
      split
      next owned _ =>
          split
          next => exact ⟨(h.abortAll owned).conns, (h.abortAll owned).rejects⟩
          next => exact h
      next => exact h
  | drop =>
      rw [Server.step]
      split
      next => exact ⟨h.abortAccept.conns, h.abortAccept.rejects⟩
      next => exact h
  | dropTasks =>
      rw [Server.step]
      split
      next => exact ⟨(h.abortAll s.joinSet).conns, (h.abortAll s.joinSet).rejects⟩
      next => exact h

end Server

namespace Process

variable (limits : Nat → Limits) (steps : List ProcessStep)

structure Sound (limits : Limits) (s : Server) : Prop where
  fresh : s.accepting.Fresh
  balanced : s.Balanced limits

theorem sound_run (k : Nat) : Sound (limits k) ((run limits steps).servers k) := by
  refine List.foldlRecOn (motive := fun p => ∀ k, Sound (limits k) (p.servers k)) steps (step limits)
    (fun k => ?_) (fun p h e _ k => ?_) k
  · exact ⟨trivial, Server.balanced_bind _⟩
  · cases e with
    | elapse ms => exact h k
    | server j e =>
        by_cases hk : k = j
        · subst hk
          simp only [step, Function.update_self]
          exact ⟨(Server.effect_step (limits k) p.clock _ e (h k).fresh).fresh,
            (h k).balanced.step (h k).fresh p.clock _ e⟩
        · simp only [step, Function.update_of_ne hk]
          exact h k

/-- However peers come and go and tasks interleave, a server never serves more
connections or turns away more peers at once than its limits say, and its queues stay
bounded. -/
theorem server_stays_within_limits (k : Nat) : ((run limits steps).servers k).WithinLimits (limits k) := by
  have hsound := sound_run limits steps k
  obtain ⟨hhub, hout⟩ := (reached_run limits steps k).2.invariant (Bounded (limits k))
    (fun _ _ h hstep => h.step hstep) ⟨Nat.zero_le _, fun _ hc => by cases hc⟩
  have hconns := hsound.balanced.conns
  have hrejects := hsound.balanced.rejects
  exact ⟨by omega, by omega, hhub, hout⟩

end Process

end RichPresence.WsServer
