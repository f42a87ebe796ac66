import RichPresence.Bridge.Bystander
import RichPresence.Ipc.Tracked

namespace RichPresence.Ipc

open Lib

/-- The bridge takes the presence commands of a connection one by one, each in
surroundings of its own. -/
def Replays (sent : List ActivityCmd) (es : List Event) : Prop :=
  es.map (·.input) = (presence sent).map .setActivity

def forwardedPids (W : Wire) (world : Nat → Moment) (ending : Ending) (input : Bytes) : List Nat :=
  (presence (lastHead W world ending input).pump.sent).map (·.pid)

variable {C : Codec} {W : Wire} {world : Nat → Moment} {ending : Ending} {input : Bytes} {s : Shared} {k : SocketId}

theorem mem_replayed {sent : List ActivityCmd} {es : List Event} (h : Replays sent es) {e : Event} (he : e ∈ es) :
    ∃ cmd ∈ presence sent, e = ⟨e.env, .setActivity cmd⟩ := by
  have hm : e.input ∈ (presence sent).map Input.setActivity := h ▸ List.mem_map_of_mem he
  obtain ⟨cmd, hc, hi⟩ := List.mem_map.mp hm
  exact ⟨cmd, hc, by rw [hi]⟩

theorem mem_clearPids {ipc : ConnFacilitator} {pid q : Nat} (h : q ∈ (clearPids ipc pid).1) :
    q ∈ ipc.publishedPids ∨ q = pid := by
  rw [clearPids] at h
  split at h
  next => exact .inl h
  next => simpa using h

theorem sent_pids {cmd : ActivityCmd} (h : cmd ∈ presence (handleStream W world ending input).sent) :
    cmd.pid ∈ forwardedPids W world ending input ∨
      cmd.pid = (lastHead W world ending input).pump.ipc.pid ∧ cmd.activity = none := by
  obtain ⟨htracks, -, hlast⟩ := lastHead_tracks W world ending input
  have hforwarded {q : Nat} (hq : q ∈ (lastHead W world ending input).pump.ipc.publishedPids) :
      q ∈ forwardedPids W world ending input := by
    obtain ⟨c, hc, rfl⟩ := (htracks q).mp hq
    exact List.mem_map_of_mem hc
  rcases last_turn_cases hlast with ⟨-, hsent⟩ | ⟨-, -, -, hout⟩ | hsent
  · rw [hsent] at h
    exact .inl (List.mem_map_of_mem h)
  · rw [hout, Pump.onClose_presence] at h
    rcases List.mem_append.mp h with h | h
    · exact .inl (List.mem_map_of_mem h)
    · rcases List.mem_cons.mp h with rfl | h
      · exact .inr ⟨rfl, rfl⟩
      · obtain ⟨q, hq, rfl⟩ := List.mem_map.mp h
        exact .inl (hforwarded (List.mem_of_mem_filter hq))
  · rw [hsent] at h
    rcases List.mem_append.mp h with h | h
    · exact .inl (List.mem_map_of_mem h)
    · obtain ⟨q, hq, rfl⟩ := List.mem_map.mp h
      rcases mem_clearPids hq with hq | rfl
      · exact .inl (hforwarded hq)
      · exact .inr ⟨rfl, rfl⟩

theorem unidentified_clear {e : Event} {cmd : ActivityCmd} (hinput : e.input = .setActivity cmd) (hpid : cmd.pid = 0)
    (ha : cmd.activity = none) (hk : k ≠ SocketId.ofPid 0) :
    (step C s e).cache.lookup k = s.cache.lookup k := by
  obtain ⟨env, input⟩ := e
  obtain rfl : input = .setActivity cmd := hinput
  change ((handleSetActivity C env cmd).exec s).cache.lookup k = _
  by_cases hargs : cmd.args = none
  · rw [handleSetActivity_noArgs hargs]
    rfl
  · have hg : isGenuineClear cmd = false := by
      rw [Bool.eq_false_iff, ne_eq, isGenuineClear_iff]
      exact fun h => h.1 hpid
    rw [handleSetActivity_clear ha (Option.isSome_iff_ne_none.mpr hargs), announce_clear_other ha (by rwa [hpid]),
      resumeAfterClear_publish hg]
    rfl

/-- Replayed to the bridge, a connection leaves every card alone that is not
under one of its pids, the last one it named included, under a game a clear
resumes, or among the oldest that make room. One that had no activity forwarded
touches nothing but the card of pid 0. -/
theorem own_presence_only (C : Codec) (W : Wire) (world : Nat → Moment) (ending : Ending) (input : Bytes)
    (s : Shared) {es : List Event} (hes : Replays (handleStream W world ending input).sent es) :
    (∀ k, (∀ pid ∈ forwardedPids W world ending input, k ≠ SocketId.ofPid pid) →
      k ≠ SocketId.ofPid (lastHead W world ending input).pump.ipc.pid →
      Along (step C) (fun t e => k ∉ e.shows C t ∧ Outlives t.cache (e.shows C t) k) s es →
      (runFrom C s es).cache.lookup k = s.cache.lookup k) ∧
    (forwardedPids W world ending input = [] → ∀ k, k ≠ SocketId.ofPid 0 →
      (runFrom C s es).cache.lookup k = s.cache.lookup k) := by
  constructor
  · intro k hpids hlast hspared
    have hown : Along (step C)
        (fun _ e => ∃ cmd, k ≠ SocketId.ofPid cmd.pid ∧ e = ⟨e.env, .setActivity cmd⟩) s es := by
      refine Along.of_forall fun e he => ?_
      obtain ⟨cmd, hc, hcmd⟩ := mem_replayed hes he
      refine ⟨cmd, ?_, hcmd⟩
      rcases sent_pids hc with hp | ⟨hp, -⟩
      · exact hpids _ hp
      · rwa [hp]
    refine (hspared.and hown).invariant (fun t => t.cache.lookup k = s.cache.lookup k) ?_ rfl
    rintro t e ht ⟨⟨hshows, hout⟩, cmd, hk, he⟩
    rw [he] at hshows hout ⊢
    exact (handleSetActivity_spares hk hshows hout).trans ht
  · intro hnone k hk
    obtain ⟨-, hidle, -⟩ := lastHead_tracks W world ending input
    have hpid := hidle (List.map_eq_nil_iff.mp hnone)
    have hclears : Along (step C) (fun _ e => ∃ cmd, cmd.pid = 0 ∧ cmd.activity = none ∧ e.input = .setActivity cmd)
        s es := by
      refine Along.of_forall fun e he => ?_
      obtain ⟨cmd, hc, hcmd⟩ := mem_replayed hes he
      rcases sent_pids hc with hp | ⟨hp, ha⟩
      · rw [hnone] at hp
        cases hp
      · exact ⟨cmd, hp.trans hpid, ha, congrArg Event.input hcmd⟩
    refine hclears.invariant (fun t => t.cache.lookup k = s.cache.lookup k) ?_ rfl
    rintro t e ht ⟨cmd, hp, ha, he⟩
    exact (unidentified_clear he hp ha hk).trans ht

def replay (instant : Nat) (input : Bytes) : List Event :=
  (presence (handleStream sampleWire noon .eof input).sent).map fun cmd => ⟨calmAt instant, .setActivity cmd⟩

theorem replay_replays (instant : Nat) (input : Bytes) :
    Replays (handleStream sampleWire noon .eof input).sent (replay instant input) := by
  rw [Replays, replay, List.map_map]
  rfl

def neighbour : Shared := run Serde.codec [.publish (calmAt 0) ⟨"480"⟩ 5 "In the menu"]

theorem own_presence_only_played :
    (runFrom Serde.codec neighbour (replay 1 played)).cache.lookup (SocketId.ofPid 5) =
        neighbour.cache.lookup (SocketId.ofPid 5) ∧
      (runFrom Serde.codec neighbour (replay 1 [])).cache.lookup (SocketId.ofPid 5) =
        neighbour.cache.lookup (SocketId.ofPid 5) := by
  constructor
  · have hplayed := (own_presence_only Serde.codec sampleWire noon .eof played neighbour (replay_replays 1 played)).1
    have hfit : Along (step Serde.codec) (fun t e => SocketId.ofPid 5 ∉ e.shows Serde.codec t ∧
        CardsFit Serde.codec t e) neighbour (replay 1 played) := by decide +kernel
    refine hplayed (SocketId.ofPid 5) (by decide +kernel) (by decide +kernel)
      (hfit.imp fun t e h => ⟨h.1, .of_fits ?_⟩)
    rw [sockets, List.card_toFinset]
    exact h.2
  · have hidle := (own_presence_only Serde.codec sampleWire noon .eof [] neighbour (replay_replays 1 [])).2
    exact hidle (by decide +kernel) (SocketId.ofPid 5) (by decide +kernel)

def withheld : Shared :=
  run Serde.codec [.publish (calmAt 0) hades.id 77 "In the House", .detected (calmAt 1) hades]

/-- The client of a running game goes away, and the game's own card comes up
under the application id. -/
theorem clear_resumes_other_socket :
    Replays (handleStream sampleWire noon .eof played).sent (replay 2 played) ∧
      (∀ pid ∈ forwardedPids sampleWire noon .eof played, SocketId.ofApp hades.id ≠ SocketId.ofPid pid) ∧
      (withheld.cache.lookup (SocketId.ofApp hades.id)).isNone = true ∧
      (runFrom Serde.codec withheld (replay 2 played)).showsGeneric hades.id = true := by
  exact ⟨replay_replays 2 played, by decide +kernel⟩

end RichPresence.Ipc
