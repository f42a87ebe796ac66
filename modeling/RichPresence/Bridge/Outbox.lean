import RichPresence.Bridge.ConsumerView
import RichPresence.Bridge.Tuned
import RichPresence.Lib.Channel

namespace RichPresence

open Lib

section LateJoin

variable {A : Type} {read : Read A} {C : Codec} {n : Newcomer} {refreshed : Bool}

def refreshAll (s : Shared) (refreshes : List Env) : Shared :=
  refreshes.foldl (fun s env => (refreshOnce env).exec s) s

theorem refreshAll_mirrors {protocol : BridgeProtocol} {id : ClientId} {shared : Shared} {c : Consumer}
    (hfiled : Filed read protocol shared.cache) (hc : shared.consumers.lookup id = some c)
    (hp : c.protocol = protocol)
    (hview : ∀ k, shared.cache.lookup k = none → viewOf read c.sent k = none) {refreshes : List Env}
    (hacc : ∀ env ∈ refreshes, ∀ sent, env.accepts id sent = true)
    (hm : refreshes = [] → Mirrors read protocol (viewOf read c.sent) shared.cache) :
    ∃ c', (refreshAll shared refreshes).consumers.lookup id = some c' ∧ c'.protocol = protocol ∧
      Mirrors read protocol (viewOf read c'.sent) (refreshAll shared refreshes).cache := by
  induction refreshes generalizing shared c with
  | nil => exact ⟨c, hc, hp, hm rfl⟩
  | cons env refreshes ih =>
      obtain ⟨hsent, hcache⟩ := refreshOnce_accepted (hacc env (by simp)) hc
      have hmirrors : Mirrors read protocol
          (viewOf read (c.sent ++ (replayOf env shared.cache).map (encodeFor c.protocol))) shared.cache := by
        rw [viewOf, List.foldl_append, hp]
        exact mirrors_replay env hfiled hview
      refine ih (by rwa [hcache]) hsent hp (fun k hk => ?_) (fun e he => hacc e (by simp [he])) fun _ => ?_
      · have hshown := hmirrors k
        rw [hcache] at hk
        rwa [hk] at hshown
      · rwa [hcache]

/-- However the sections of one connect and of the broadcasts of several pumps
interleave, and however many refreshes follow, the newcomer ends up showing what
the cache holds, if every section is orderly. -/
theorem late_joiner_mirrors (hread : Reads read C n.protocol) (hready : read n.ready = none) {shared : Shared}
    (hfiled : Filed read n.protocol shared.cache) {steps : List LockStep} {refreshes : List Env}
    (hregular : ∀ e ∈ steps, e.Regular C n.id)
    (hacc : ∀ env ∈ refreshes, ∀ sent, env.accepts n.id sent = true)
    (horderly : Along (Gathering.step n) (Orderly !refreshes.isEmpty) { shared := shared } steps)
    (hdone : (Gathering.run n { shared := shared } steps).flights = ∅)
    (hjoined : (Gathering.run n { shared := shared } steps).joiner = .registered) :
    ∃ c, (refreshAll (Gathering.run n { shared := shared } steps).shared refreshes).consumers.lookup n.id = some c ∧
      c.protocol = n.protocol ∧
      Mirrors read n.protocol (viewOf read c.sent)
        (refreshAll (Gathering.run n { shared := shared } steps).shared refreshes).cache := by
  have hall := horderly.and (.of_forall hregular)
  have htuned : (Gathering.run n { shared := shared } steps).Tuned read n !refreshes.isEmpty :=
    hall.invariant _ (fun _ _ hs he => hs.step hread hready he.2 he.1) (.start hfiled)
  set s := Gathering.run n { shared := shared } steps
  obtain ⟨c, hc, hp⟩ := htuned.member hjoined
  have hinbox : s.inbox n = some c.sent := by
    rw [Gathering.inbox, hjoined, hc]
    rfl
  have hserved : ∀ k, s.Final (!refreshes.isEmpty) k → Displays read n.protocol (viewOf read c.sent) k (s.due k) := by
    intro k hfinal
    rcases htuned.served k hfinal c.sent hinbox with hd | ⟨pump, f, hf, _⟩
    · exact hd
    · rw [hdone] at hf
      simp at hf
  apply refreshAll_mirrors htuned.filed hc hp _ hacc
  · rintro rfl k
    exact hserved k (.inl rfl)
  · intro k hk
    have hnone : s.due k = none := by
      rw [Gathering.due, hk]
      rfl
    have hd := hserved k (.inr hnone)
    rwa [hnone] at hd

def calm : Env := .calm (fun _ => true) 0

def guest : Newcomer := ⟨7, .json, .text "\x7b\"evt\":\"READY\"\x7d"⟩

def cardOf (pid : Nat) : CachedActivity :=
  (sdkCard Serde.codec calm (.publish ⟨"1145360"⟩ pid "In the House")).get rfl

def clearOf (pid : Nat) : CachedActivity := (emptyCached Serde.codec pid (SocketId.ofPid pid)).get rfl

def missedClear : List LockStep :=
  [.update 0 calm (cardOf 77) (SocketId.ofPid 77), .fanOut 0 calm, .snapshot calm,
    .update 1 calm (clearOf 77) (SocketId.ofPid 77), .fanOut 1 calm, .queue calm, .register]

theorem missedClear_end :
    (Gathering.run guest { shared := {} } missedClear).joiner = .registered ∧
      (Gathering.run guest { shared := {} } missedClear).flights.keys = [] ∧
      ((refreshAll (Gathering.run guest { shared := {} } missedClear).shared [calm, calm]).cache.lookup
        (SocketId.ofPid 77)).isNone = true ∧
      ((refreshAll (Gathering.run guest { shared := {} } missedClear).shared [calm, calm]).consumers.lookup 7).any
        (fun c => (viewOf Serde.readText c.sent (SocketId.ofPid 77)).isSome) = true := by
  decide +kernel

/-- The newcomer keeps the card of a client that has left, and refreshes do not
take it away. -/
theorem missed_clear_stays :
    (Gathering.run guest { shared := {} } missedClear).joiner = .registered ∧
      (Gathering.run guest { shared := {} } missedClear).flights.keys = [] ∧
      ∃ c, (refreshAll (Gathering.run guest { shared := {} } missedClear).shared [calm, calm]).consumers.lookup 7 =
          some c ∧
        ¬Mirrors Serde.readText .json (viewOf Serde.readText c.sent)
          (refreshAll (Gathering.run guest { shared := {} } missedClear).shared [calm, calm]).cache := by
  obtain ⟨hjoined, hdone, hgone, hshown⟩ := missedClear_end
  obtain ⟨c, hc, hview⟩ := (Option.any_eq_true _ _).mp hshown
  rw [Option.isNone_iff_eq_none] at hgone
  refine ⟨hjoined, hdone, c, hc, fun hm => ?_⟩
  have hk : viewOf Serde.readText c.sent (SocketId.ofPid 77) = none := by
    have h := hm (SocketId.ofPid 77)
    rwa [hgone] at h
  rw [hk] at hview
  cases hview

/-- One broadcast goes out while the newcomer connects, but was in its snapshot;
another one updates the cache meanwhile and goes out after the registration. -/
def closeCall : List LockStep :=
  [.update 0 calm (cardOf 77) (SocketId.ofPid 77), .snapshot calm, .update 1 calm (cardOf 88) (SocketId.ofPid 88),
    .fanOut 0 calm, .queue calm, .register, .fanOut 1 calm]

theorem late_joiner_mirrors_closeCall :
    ∃ c, (refreshAll (Gathering.run guest { shared := {} } closeCall).shared []).consumers.lookup 7 = some c ∧
      c.protocol = .json ∧
      Mirrors Serde.readText .json (viewOf Serde.readText c.sent)
        (refreshAll (Gathering.run guest { shared := {} } closeCall).shared []).cache := by
  have hcard : ∀ pid, Built Serde.codec (cardOf pid) (SocketId.ofPid pid) := fun pid =>
    Built.sdk calm (.publish ⟨"1145360"⟩ pid "In the House") (Option.some_get _).symm
  have hregular : ∀ e ∈ closeCall, e.Regular Serde.codec guest.id := by
    intro e he
    simp only [closeCall, List.mem_cons, List.not_mem_nil, or_false] at he
    rcases he with rfl | rfl | rfl | rfl | rfl | rfl | rfl
    · exact hcard 77
    · trivial
    · exact hcard 88
    · exact fun _ => rfl
    · exact fun _ => rfl
    · trivial
    · exact fun _ => rfl
  have horderly : Along (Gathering.step guest) (Orderly false) { shared := {} } closeCall := by decide +kernel
  have hdone : (Gathering.run guest { shared := {} } closeCall).flights.entries = [] := by decide +kernel
  have hjoined : (Gathering.run guest { shared := {} } closeCall).joiner = .registered := by decide +kernel
  exact late_joiner_mirrors Serde.codec_reads (by decide +kernel) (fun _ _ hc => by simp at hc) hregular
    (fun _ he => by cases he) horderly (AList.ext hdone) hjoined

end LateJoin

def defaultPerClientQueue : Nat := 8

/-- What the connect handling sends to a new consumer: `READY`, then one frame for
every card of its snapshot. -/
def greeting (env : Env) (protocol : BridgeProtocol) (ready : Message) (cache : ReplayCache) : List Message :=
  ready :: (replayOf env cache).map (encodeFor protocol)

/-- The connect handling of one consumer under way: the frames the pump has still
to send, and the outbox the connection task drains. -/
structure Handing where
  left : List Message
  outbox : Channel Message := {}
  deriving DecidableEq, Repr

inductive Turn
  | pump
  | task
  deriving DecidableEq, Repr

namespace Handing

def step (cap : Nat) (h : Handing) : Turn → Handing
  | .pump =>
      match h.left with
      | [] => h
      | frame :: left => ⟨left, h.outbox.offer cap frame⟩
  | .task => { h with outbox := h.outbox.recv }

def run (cap : Nat) (h : Handing) (turns : List Turn) : Handing := turns.foldl (step cap) h

def Keeps (cap : Nat) (h : Handing) : Turn → Prop
  | .pump => h.left = [] ∨ h.outbox.HasRoom cap
  | .task => True

instance (cap : Nat) (h : Handing) : (t : Turn) → Decidable (h.Keeps cap t)
  | .pump => inferInstanceAs (Decidable (_ ∨ _))
  | .task => inferInstanceAs (Decidable True)

def frames (h : Handing) : List Message := h.outbox.carried ++ h.left

variable {cap : Nat} {h : Handing} {t : Turn}

theorem frames_step (hk : h.Keeps cap t) : (h.step cap t).frames = h.frames := by
  cases t with
  | task => rw [step, frames, frames, Channel.carried_recv]
  | pump =>
      rw [step]
      cases hl : h.left with
      | nil => rfl
      | cons frame left =>
          have hroom : h.outbox.HasRoom cap := hk.resolve_left (by simp [hl])
          simp only [frames, hl, Channel.offer_of_room hroom, Channel.carried_push, List.append_assoc,
            List.singleton_append]

theorem length_step_of_full (hk : ¬h.Keeps cap t) : (h.step cap t).frames.length < h.frames.length := by
  cases t with
  | task => exact absurd trivial hk
  | pump =>
      rw [Keeps, not_or] at hk
      rw [step]
      cases hl : h.left with
      | nil => exact absurd hl hk.1
      | cons frame left => simp [frames, hl, Channel.offer_of_full hk.2]

theorem length_run_le (turns : List Turn) : (h.run cap turns).frames.length ≤ h.frames.length := by
  induction turns generalizing h with
  | nil => exact le_refl _
  | cons t turns ih =>
      apply ih.trans
      by_cases hk : h.Keeps cap t
      · rw [frames_step hk]
      · exact (length_step_of_full hk).le

theorem frames_run_iff (turns : List Turn) :
    (h.run cap turns).frames = h.frames ↔ Along (step cap) (Keeps cap) h turns := by
  induction turns generalizing h with
  | nil => exact ⟨fun _ => trivial, fun _ => rfl⟩
  | cons t turns ih =>
      by_cases hk : h.Keeps cap t
      · have hrest := @ih (h.step cap t)
        rw [frames_step hk] at hrest
        exact hrest.trans (and_iff_right hk).symm
      · constructor
        · intro he
          have hlt : (h.run cap (t :: turns)).frames.length < h.frames.length :=
            (length_run_le turns).trans_lt (length_step_of_full hk)
          exact absurd (congrArg List.length he) hlt.ne
        · intro ha
          exact absurd ha.1 hk

theorem keeps_of_fits (hfits : h.outbox.queue.length + h.left.length ≤ cap) (turns : List Turn) :
    Along (step cap) (Keeps cap) h turns := by
  induction turns generalizing h with
  | nil => trivial
  | cons t turns ih =>
      cases t with
      | task =>
          refine ⟨trivial, ih (le_trans (Nat.add_le_add_right ?_ _) hfits)⟩
          rw [step, Channel.recv]
          split <;> simp_all
      | pump =>
          cases hl : h.left with
          | nil =>
              refine ⟨.inl hl, ih ?_⟩
              simpa only [step, hl] using hfits
          | cons frame left =>
              rw [hl, List.length_cons] at hfits
              have hroom : h.outbox.HasRoom cap := by rw [Channel.HasRoom]; omega
              refine ⟨.inr hroom, ih ?_⟩
              simp only [step, hl, Channel.offer_of_room hroom, Channel.push, List.length_append,
                List.length_singleton]
              omega

/-- While the task does not get a turn, the outbox takes what a fixed outbox of
that size accepts. -/
theorem run_pump_queueReplay {env : Env} {id : ClientId}
    (hacc : ∀ sent, env.accepts id sent = decide (sent.length < cap)) (protocol : BridgeProtocol) (ready : Message)
    (cache : ReplayCache) :
    ((⟨greeting env protocol ready cache, {}⟩ : Handing).run cap
      (.replicate (greeting env protocol ready cache).length .pump)).outbox.queue =
        queueReplay env id protocol ready (replayOf env cache) := by
  have hall : ∀ (frames : List Message) (outbox : Channel Message),
      ((⟨frames, outbox⟩ : Handing).run cap (.replicate frames.length .pump)).outbox.queue =
        frames.foldl (queueFrame env id) outbox.queue := by
    intro frames
    induction frames with
    | nil => exact fun _ => rfl
    | cons frame frames ih =>
        intro outbox
        have hsend : (outbox.offer cap frame).queue = queueFrame env id outbox.queue frame := by
          rw [queueFrame, hacc]
          by_cases hroom : outbox.HasRoom cap
          · rw [Channel.offer_of_room hroom]
            exact (if_pos (decide_eq_true hroom)).symm
          · rw [Channel.offer_of_full hroom]
            exact (if_neg (by simpa [Channel.HasRoom] using hroom)).symm
        rw [List.foldl_cons, ← hsend]
        exact ih (outbox.offer cap frame)
  exact hall _ {}

end Handing

/-- Once the pump has sent everything and the task has written everything, the
client has `READY` and then every card of the snapshot exactly when no send found
the outbox full. -/
theorem replay_complete (cap : Nat) (env : Env) (protocol : BridgeProtocol) (ready : Message) (s : Shared)
    (turns : List Turn)
    (hsent : (Handing.run cap ⟨greeting env protocol ready s.cache, {}⟩ turns).left = [])
    (hwritten : (Handing.run cap ⟨greeting env protocol ready s.cache, {}⟩ turns).outbox.queue = []) :
    (Handing.run cap ⟨greeting env protocol ready s.cache, {}⟩ turns).outbox.taken =
        greeting env protocol ready s.cache ↔
      Along (Handing.step cap) (Handing.Keeps cap) ⟨greeting env protocol ready s.cache, {}⟩ turns := by
  rw [← Handing.frames_run_iff, Handing.frames, Channel.carried, hsent, hwritten, List.append_nil, List.append_nil]
  exact Iff.rfl

theorem length_greeting (env : Env) (protocol : BridgeProtocol) (ready : Message) (cache : ReplayCache) :
    (greeting env protocol ready cache).length = Table.size cache + 1 := by
  rw [greeting, List.length_cons, List.length_map, replayOf, List.length_map, (env.walk.perm _).length_eq]
  simp [Table.size, AList.keys, List.keys]

/-- A replay that fits into the outbox together with `READY` arrives whatever the
task does. -/
theorem small_replay_kept {cap : Nat} {cache : ReplayCache} (h : Table.size cache < cap) (env : Env)
    (protocol : BridgeProtocol) (ready : Message) (turns : List Turn) :
    Along (Handing.step cap) (Handing.Keeps cap) ⟨greeting env protocol ready cache, {}⟩ turns := by
  apply Handing.keeps_of_fits
  rw [length_greeting, List.length_nil]
  omega

/-- What a newcomer is to receive when `n` clients have published. -/
def fullReplay (n : Nat) : List Message :=
  greeting calm guest.protocol guest.ready (run Serde.codec (crowd 1 n)).cache

/-- Twelve cards are in the cache, and the task writes every frame as it comes. -/
theorem replay_complete_attentive :
    (Handing.run defaultPerClientQueue ⟨fullReplay 12, {}⟩
      (List.replicate 13 [Turn.pump, Turn.task]).flatten).outbox.taken = fullReplay 12 :=
  (replay_complete defaultPerClientQueue calm guest.protocol guest.ready (run Serde.codec (crowd 1 12)) _
    (by decide +kernel) (by decide +kernel)).mpr (by decide +kernel)

/-- Eight cards are in the cache, and the task gets its first turn when the pump
has sent them all: the last one is lost. -/
theorem burst_loses_card :
    Table.size (run Serde.codec (crowd 1 8)).cache = 8 ∧
    ∃ turns, (Handing.run defaultPerClientQueue ⟨fullReplay 8, {}⟩ turns).left = [] ∧
      (Handing.run defaultPerClientQueue ⟨fullReplay 8, {}⟩ turns).outbox.queue = [] ∧
      (Handing.run defaultPerClientQueue ⟨fullReplay 8, {}⟩ turns).outbox.taken ≠ fullReplay 8 :=
  ⟨by decide +kernel, .replicate 9 .pump ++ .replicate 8 .task, by decide +kernel⟩

end RichPresence
