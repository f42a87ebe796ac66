import RichPresence.WsServer.Reach

namespace RichPresence.WsServer

open Lib

def eventsOf (id : ClientId) (events : List Event) : List Event := events.filter fun e => e.client = id

theorem eventsOf_concat_self {id : ClientId} {events : List Event} {e : Event} (h : e.client = id) :
    eventsOf id (events ++ [e]) = eventsOf id events ++ [e] := by
  simp [eventsOf, h]

theorem eventsOf_concat_of_ne {id : ClientId} {events : List Event} {e : Event} (h : e.client ≠ id) :
    eventsOf id (events ++ [e]) = eventsOf id events := by
  simp [eventsOf, h]

def Event.announces (id : ClientId) : Event → Bool
  | connect id' _ => id' = id
  | _ => false

theorem Event.client_of_announces {id : ClientId} {e : Event} (h : e.announces id = true) : e.client = id := by
  cases e with
  | connect id' details => exact of_decide_eq_true h
  | disconnect | message => cases h

theorem countP_eventsOf (id : ClientId) (events : List Event) :
    (eventsOf id events).countP (Event.announces id) = events.countP (Event.announces id) := by
  rw [eventsOf, List.countP_filter]
  refine List.countP_congr fun e _ => ?_
  simpa using Event.client_of_announces

namespace Hub

variable (hub : Hub)

@[simp] theorem carried_receive : hub.receive.events.carried = hub.events.carried := by
  rw [receive]
  split
  next => rfl
  next => exact Channel.carried_recv _

@[simp] theorem gone_receive : hub.receive.gone = hub.gone := by
  rw [receive]
  split <;> rfl

end Hub

namespace Conn

/-- What the hub is to hear of a connection before its end: that it is there, and its
messages in the order they were read. -/
def story (c : Conn) : List Event := .connect c.id c.details :: c.read.map (.message c.id)

/-- What the hub has been told, by where the task stands. -/
def Tells (gone : Bool) (c : Conn) : Prop :=
  match c.stage with
  | .handshaking | .announcing => c.read = [] ∧ c.told = []
  | .pumping | .writing _ | .closing _ _ => c.told = c.story
  | .relaying message => c.told ++ [.message c.id message] = c.story
  | .departing _ => c.told = c.story ∨ gone = true ∧ c.told <+: c.story
  | .left =>
      c.told = [] ∨ (∃ reason, c.told = c.story ++ [.disconnect c.id reason]) ∨ gone = true ∧ c.told <+: c.story
  | .aborted => c.told <+: c.story

variable {limits : Limits} {now : Nat} {cancelled gone : Bool} {c c' : Conn} {p p' : Port}

theorem Tells.prefix_story (h : c.Tells gone) (hlive : c.live = true) : c.told <+: c.story := by
  cases hstage : c.stage with
  | handshaking | announcing =>
      rw [Tells, hstage] at h
      exact h.2 ▸ List.nil_prefix
  | pumping | writing | closing =>
      rw [Tells, hstage] at h
      exact h ▸ List.prefix_refl _
  | relaying message =>
      rw [Tells, hstage] at h
      exact ⟨_, h⟩
  | departing =>
      rw [Tells, hstage] at h
      obtain h | ⟨_, h⟩ := h
      · exact h ▸ List.prefix_refl _
      · exact h
  | left | aborted => simp [live, Stage.live, hstage] at hlive

theorem countP_announces_story (c : Conn) (reason : DisconnectReason) :
    (c.story ++ [Event.disconnect c.id reason]).countP (Event.announces c.id) = 1 := by
  have hread : (c.read.map (Event.message c.id)).countP (Event.announces c.id) = 0 := by
    rw [List.countP_map, List.countP_eq_zero]
    intro message _ h
    cases h
  rw [story, List.cons_append, List.countP_cons, List.countP_append, hread]
  simp [Event.announces]

theorem Tells.prefix_full (h : c.Tells gone) : ∃ reason, c.told <+: c.story ++ [.disconnect c.id reason] := by
  cases hlive : c.live with
  | true => exact ⟨.clean, (h.prefix_story hlive).trans (List.prefix_append _ _)⟩
  | false =>
      cases hstage : c.stage with
      | left =>
          rw [Tells, hstage] at h
          obtain h | ⟨reason, h⟩ | ⟨_, h⟩ := h
          · exact ⟨.clean, h ▸ List.nil_prefix⟩
          · exact ⟨reason, h ▸ List.prefix_refl _⟩
          · exact ⟨.clean, h.trans (List.prefix_append _ _)⟩
      | aborted =>
          rw [Tells, hstage] at h
          exact ⟨.clean, h.trans (List.prefix_append _ _)⟩
      | _ => simp [live, Stage.live, hstage] at hlive

theorem Tells.mono {gone' : Bool} (h : c.Tells gone) (hgone : gone = true → gone' = true) : c.Tells gone' := by
  cases hstage : c.stage with
  | departing reason =>
      rw [Tells, hstage] at h ⊢
      exact h.imp_right (And.imp_left hgone)
  | left =>
      rw [Tells, hstage] at h ⊢
      exact h.imp_right (Or.imp_right (And.imp_left hgone))
  | _ =>
      rw [Tells, hstage] at h ⊢
      exact h

theorem Turn.hub (h : Turn limits now cancelled c p c' p') :
    p'.hub = p.hub ∧ c'.told = c.told ∨
      ∃ e : Event, e.client = c.id ∧ p.hub.gone = false ∧ p.hub.events.HasRoom limits.eventQueue ∧
        p'.hub = { p.hub with events := p.hub.events.push e } ∧ c'.told = c.told ++ [e] := by
  cases h with
  | announced _ hkept hroom | relayed _ _ hkept hroom | departed _ _ hkept hroom =>
      exact .inr ⟨_, rfl, hkept, hroom, rfl, rfl⟩
  | _ => exact .inl ⟨rfl, rfl⟩

theorem Turn.tells (h : Turn limits now cancelled c p c' p') (ht : c.Tells p.hub.gone) : c'.Tells p'.hub.gone := by
  cases h with
  | stays | queued | hears => exact ht
  | turnedAway hstage | unannounced hstage =>
      rw [Tells, hstage] at ht
      exact .inl ht.2
  | shaken _ _ hstage =>
      rw [Tells, hstage] at ht
      exact ht
  | announced hstage =>
      rw [Tells, hstage] at ht
      simp [Tells, tell, story, ht.1, ht.2]
  | stopped hstage | takes _ _ hstage | closes _ _ hstage | pings hstage | idles hstage | written _ hstage =>
      rw [Tells, hstage] at ht
      exact ht
  | reads message _ hstage =>
      rw [Tells, hstage] at ht
      simp [Tells, story, ht]
  | peerLeft _ _ hstage | unwritten _ hstage | closed _ _ _ hstage =>
      rw [Tells, hstage] at ht
      exact .inl ht
  | relayed message hstage =>
      rw [Tells, hstage] at ht
      exact ht
  | unrelayed message hstage hgone =>
      rw [Tells, hstage] at ht
      exact .inr ⟨hgone, _, ht⟩
  | departed reason hstage hkept =>
      rw [Tells, hstage, hkept] at ht
      have htold : c.told = c.story := by simpa using ht
      exact .inr (.inl ⟨reason, congrArg (· ++ _) htold⟩)
  | undeparted reason hstage hgone => exact .inr (.inr ⟨hgone, ht.prefix_story (by simp [live, Stage.live, hstage])⟩)
  | aborts hlive => exact ht.prefix_story hlive

end Conn

/-- The hub has carried for every connection what its task has told it, and nothing
else. -/
structure Told (P : Pool Conn Port) : Prop where
  routed : ∀ c ∈ P.tasks, eventsOf c.id P.shared.hub.events.carried = c.told ∧ c.Tells P.shared.hub.gone
  known : ∀ e ∈ P.shared.hub.events.carried, e.client ∈ P.tasks.map Conn.id

namespace Told

variable {limits : Limits} {P : Pool Conn Port}

theorem bind (limits : Limits) : Told (Server.bind limits).conns where
  routed _ h := by cases h
  known _ h := by cases h

theorem turn (h : Told P) (hnodup : (P.tasks.map Conn.id).Nodup) {f : Conn → Port → Conn × Port}
    (hf : Turns limits f) (i : Nat) : Told (P.advance f i) where
  routed := by
    refine Pool.forall_advance (J := fun p c => eventsOf c.id p.hub.events.carried = c.told ∧ c.Tells p.hub.gone)
      hnodup (fun c _ hc => ?_) (fun c _ d _ hne hd => ?_) h.routed
    · obtain ⟨now, cancelled, hturn⟩ := hf c P.shared
      refine ⟨?_, hturn.tells hc.2⟩
      rw [hturn.id_eq]
      obtain ⟨hhub, htold⟩ | ⟨e, hclient, _, _, hhub, htold⟩ := hturn.hub
      · rw [hhub, htold]; exact hc.1
      · rw [hhub, htold, Channel.carried_push, eventsOf_concat_self hclient, hc.1]
    · obtain ⟨now, cancelled, hturn⟩ := hf c P.shared
      obtain ⟨hhub, _⟩ | ⟨e, hclient, _, _, hhub, _⟩ := hturn.hub
      · rw [hhub]; exact hd
      · rw [hhub, Channel.carried_push, eventsOf_concat_of_ne (hclient ▸ hne.symm)]; exact hd
  known := by
    rw [Server.map_id_advance hf]
    cases hi : P.tasks[i]? with
    | none => rw [Pool.advance_of_none hi]; exact h.known
    | some c =>
        rw [Pool.advance_of_some hi]
        obtain ⟨now, cancelled, hturn⟩ := hf c P.shared
        obtain ⟨hhub, _⟩ | ⟨e, hclient, _, _, hhub, _⟩ := hturn.hub
        · rw [hhub]; exact h.known
        · rw [hhub, Channel.carried_push]
          intro e' he'
          obtain he' | he' := List.mem_append.mp he'
          · exact h.known e' he'
          · rw [List.mem_singleton.mp he', hclient]
            exact List.mem_map_of_mem (List.mem_of_getElem? hi)

theorem port (h : Told P) (hub : Hub) (permits : Nat) (hcarried : hub.events.carried = P.shared.hub.events.carried)
    (hgone : P.shared.hub.gone = true → hub.gone = true) : Told { P with shared := ⟨hub, permits⟩ } where
  routed c hc := by
    obtain ⟨hrouted, htells⟩ := h.routed c hc
    refine ⟨?_, ?_⟩
    · dsimp only; rw [hcarried, hrouted]
    · exact htells.mono hgone
  known := by dsimp only; rw [hcarried]; exact h.known

theorem spawn (h : Told P) {c : Conn} (hfresh : c.stage = .handshaking ∧ c.read = [] ∧ c.told = [])
    (hnew : c.id ∉ P.tasks.map Conn.id) : Told (P.spawn c) where
  routed d hd := by
    obtain hd | hd := List.mem_append.mp hd
    · exact h.routed d hd
    · obtain ⟨hstage, hread, htold⟩ := hfresh
      rw [List.mem_singleton.mp hd, htold, Conn.Tells, hstage]
      refine ⟨List.filter_eq_nil_iff.mpr fun e he hclient => ?_, hread, htold⟩
      have hid : e.client = c.id := of_decide_eq_true hclient
      exact hnew (hid ▸ h.known e he)
  known e he := by
    rw [Pool.spawn, List.map_append]
    exact List.mem_append_left _ (h.known e he)

theorem map_id_initial {Q : Pool Conn Port} (hstep : PoolStep limits P Q) :
    P.tasks.map Conn.id <+: Q.tasks.map Conn.id := by
  cases hstep with
  | turn f i hf => exact ⟨[], by rw [List.append_nil, Server.map_id_advance hf]⟩
  | receive | dropHub | permits => exact List.prefix_refl _
  | spawn id details =>
      rw [Pool.spawn, List.map_append]
      exact List.prefix_append _ _

theorem step {Q : Pool Conn Port} (h : (P.tasks.map Conn.id).Nodup → Told P) (hstep : PoolStep limits P Q)
    (hnodup : (Q.tasks.map Conn.id).Nodup) : Told Q := by
  have hbefore : (P.tasks.map Conn.id).Nodup := (map_id_initial hstep).sublist.nodup hnodup
  replace h := h hbefore
  cases hstep with
  | turn f i hf => exact h.turn hbefore hf i
  | receive => exact h.port _ _ (Hub.carried_receive _) (by rw [Hub.gone_receive]; exact id)
  | dropHub => exact h.port { P.shared.hub with gone := true } _ rfl fun _ => rfl
  | permits n => exact h.port P.shared.hub n rfl id
  | spawn id details =>
      refine h.spawn ⟨rfl, rfl, rfl⟩ fun hmem => ?_
      rw [Pool.spawn, List.map_append] at hnodup
      exact List.disjoint_of_nodup_append hnodup hmem (List.mem_singleton_self _)

end Told

namespace Process

variable (limits : Nat → Limits) (steps : List ProcessStep)

theorem told_run (hroom : (run limits steps).issued ≤ 2 ^ 64) (k : Nat) :
    Told ((run limits steps).servers k).conns := by
  refine ((reached_run limits steps k).2).invariant (fun P => (P.tasks.map Conn.id).Nodup → Told P)
    (fun _ _ h hstep => Told.step h hstep) (fun _ => .bind (limits k)) ?_
  exact ((distinct_run limits steps hroom).nodup k).sublist (List.sublist_append_left _ _)

theorem announced_once (hroom : (run limits steps).issued ≤ 2 ^ 64) (k : Nat) (id : ClientId) :
    ((run limits steps).servers k).hub.events.carried.countP (Event.announces id) ≤ 1 := by
  have htold := told_run limits steps hroom k
  by_cases hid : id ∈ ((run limits steps).servers k).conns.tasks.map Conn.id
  · obtain ⟨c, hc, rfl⟩ := List.mem_map.mp hid
    obtain ⟨hrouted, htells⟩ := htold.routed c hc
    obtain ⟨reason, hprefix⟩ := htells.prefix_full
    calc ((run limits steps).servers k).hub.events.carried.countP (Event.announces c.id)
      _ = c.told.countP (Event.announces c.id) := by rw [← countP_eventsOf, ← hrouted]; rfl
      _ ≤ (c.story ++ [Event.disconnect c.id reason]).countP (Event.announces c.id) := hprefix.sublist.countP_le
      _ = 1 := c.countP_announces_story reason
  · have hnone : ((run limits steps).servers k).hub.events.carried.countP (Event.announces id) = 0 :=
      List.countP_eq_zero.mpr fun e he hann => hid (Event.client_of_announces hann ▸ htold.known e he)
    omega

/-- However the tasks of the servers interleave, the events a hub has carried for a
connection are the ones its task has told, in order: its arrival, the messages in the
order they were read, and one departure when the task has ended by itself. Only a
message that is being handed over, or one that a dropped hub refused, is missing, and
no event has another origin. -/
theorem hub_tells_every_connection (hroom : (run limits steps).issued ≤ 2 ^ 64) (k : Nat) :
    let s := (run limits steps).servers k
    (∀ c ∈ s.conns.tasks,
      eventsOf c.id s.hub.events.carried = c.told ∧ c.Tells s.hub.gone ∧
        ∃ reason, c.told <+: c.story ++ [.disconnect c.id reason]) ∧
      ∀ e ∈ s.hub.events.carried, ∃ c ∈ s.conns.tasks, c.id = e.client := by
  intro s
  have htold := told_run limits steps hroom k
  refine ⟨fun c hc => ?_, fun e he => List.mem_map.mp (htold.known e he)⟩
  obtain ⟨hrouted, htells⟩ := htold.routed c hc
  exact ⟨hrouted, htells, htells.prefix_full⟩

def defaultLimits : Nat → Limits := fun _ =>
  ⟨{}, fun now _ => now + 30000, by decide, by decide, by decide, by decide, by decide⟩

/-- A game connects, sends a message and goes, while another one is at the bridge. -/
def visit : List ProcessStep :=
  [.server 0 (.accept "127.0.0.1:50000"), .server 0 .spawn,
    .server 0 (.conn 0 (.handshake (some ([], "/?v=1&client_id=42")))), .server 0 (.conn 0 .poll),
    .server 1 (.accept "127.0.0.1:50001"), .server 1 .spawn, .server 1 (.conn 0 (.handshake (some ([], "/")))),
    .server 1 (.conn 0 .poll), .server 0 .receive, .server 0 (.conn 0 (.arrive (.message (.text "first")))),
    .server 0 (.conn 0 .poll), .server 0 (.conn 0 .poll), .server 0 (.conn 0 (.arrive .close)),
    .server 0 (.conn 0 .poll), .server 0 (.conn 0 .poll)]

theorem visit_is_told :
    (run defaultLimits visit).issued ≤ 2 ^ 64 ∧
      ∀ c ∈ ((run defaultLimits visit).servers 0).conns.tasks, ∃ reason,
        c.told <+: c.story ++ [.disconnect c.id reason] :=
  have hroom : (run defaultLimits visit).issued ≤ 2 ^ 64 := by decide
  ⟨hroom, fun c hc => ((hub_tells_every_connection defaultLimits visit hroom 0).1 c hc).2.2⟩

/-- Across all servers of the process an id is announced at most once, so a departure
always belongs to the one arrival under its id. -/
theorem client_ids_are_never_reused (hroom : (run limits steps).issued ≤ 2 ^ 64) (j k : Nat) :
    let hub i := ((run limits steps).servers i).hub.events.carried
    (∀ id, (hub k).countP (Event.announces id) ≤ 1) ∧
      (j ≠ k → ∀ e ∈ hub j, ∀ e' ∈ hub k, e.client ≠ e'.client) := by
  intro hub
  refine ⟨announced_once limits steps hroom k, fun hjk e he e' he' hclient => ?_⟩
  have htold := told_run limits steps hroom
  have hdistinct := (distinct_run limits steps hroom).apart j k hjk
  exact hdistinct (List.mem_append_left _ ((htold j).known e he))
    (hclient ▸ List.mem_append_left _ ((htold k).known e' he'))

theorem visit_ids_differ :
    (run defaultLimits visit).issued ≤ 2 ^ 64 ∧
      ∀ e ∈ ((run defaultLimits visit).servers 0).hub.events.carried,
        ∀ e' ∈ ((run defaultLimits visit).servers 1).hub.events.carried, e.client ≠ e'.client :=
  have hroom : (run defaultLimits visit).issued ≤ 2 ^ 64 := by decide
  ⟨hroom, (client_ids_are_never_reused defaultLimits visit hroom 0 1).2 Nat.zero_ne_one⟩

end Process

end RichPresence.WsServer
