import RichPresence.Detect.SnapshotLane
import RichPresence.Lib.Run

namespace RichPresence.Detect

open Lib

/-- Where the EXEC watcher stands: between its store to the flag and its send, a
tick may have taken the flag. -/
inductive ExecPhase
  | idle
  | marked (hit : ScannedHit) (taken : Bool)
  | stopped

/-- Where the scan loop stands. A tick is forced if it found the flag set. -/
inductive TickPhase
  | idle
  | sending (hits : List ScannedHit) (rest : List ProcessDetectedEvent) (forced : Bool)
  | stopped

inductive LaneMove
  | mark (hit : ScannedHit)
  | publish (answer : SendChecked)
  | swap (hits : List ScannedHit)
  | send (answer : SendChecked)

/-- The two threads around the flag, with their history: the publications so far,
those before the swap of the last tick, those before the swap of the last tick
that was delivered completely, and the last one that lost its flag, to a forced
emission cut short or to a tick between its store and its send. -/
structure Lanes where
  lane : Lane := {}
  watcher : ExecPhase := .idle
  polling : TickPhase := .idle
  published : Nat := 0
  asOf : Nat := 0
  covered : Nat := 0
  lost : Nat := 0

def ExecPhase.swapped : ExecPhase → ExecPhase
  | .marked hit _ => .marked hit true
  | w => w

namespace Lanes

def cut (s : Lanes) (forced : Bool) : Lanes := if forced then { s with lost := max s.lost s.asOf } else s

/-- After an event was accepted: the table is recorded with the last one. -/
def sent (s : Lanes) (hits : List ScannedHit) (forced : Bool) : List ProcessDetectedEvent → Lanes
  | [] =>
      { s with
        lane := { s.lane with lastEmitted := snapshotOf hits }
        polling := .idle
        covered := s.asOf }
  | event :: rest => { s with polling := .sending hits (event :: rest) forced }

/-- One move; a move whose thread stands elsewhere does nothing. The comparison and
the record are on data of the scan loop alone, so they are one move with the swap
and with the last send. -/
def step (s : Lanes) : LaneMove → Lanes
  | .mark hit =>
      match s.watcher with
      | .idle => { s with lane := { s.lane with scanDirty := true }, watcher := .marked hit false }
      | _ => s
  | .publish answer =>
      match s.watcher with
      | .marked hit taken =>
          { s with
            watcher := if (publishExecHit answer hit).1 then .idle else .stopped
            published := s.published + 1
            lost := if taken then s.published + 1 else s.lost }
      | _ => s
  | .swap hits =>
      match s.polling with
      | .idle =>
          { s with
            lane := { s.lane with scanDirty := false }
            watcher := s.watcher.swapped
            asOf := s.published
            polling :=
              if s.lane.emits hits then
                .sending hits (snapshotEvents (removedSlots s.lane.lastEmitted (snapshotOf hits)) hits hits.isEmpty)
                  s.lane.scanDirty
              else .idle }
      | _ => s
  | .send answer =>
      match s.polling with
      | .sending hits (_ :: rest) forced =>
          match answer with
          | .sent => s.sent hits forced rest
          | .shed => { s.cut forced with polling := .idle }
          | .closed => { s.cut forced with polling := .stopped }
      | _ => s

def run (moves : List LaneMove) : Lanes := moves.foldl step {}

/-- The tick that found `hits` has nothing to say, though no complete emission
answers the last publication. -/
def quietWhileOwed (s : Lanes) (hits : List ScannedHit) : Bool :=
  match s.polling with
  | .idle => !s.lane.emits hits && s.covered < s.published
  | _ => false

/-- A tick that comes after a publication lost its flag emits, until one of them is
delivered completely. -/
def Heeds (s : Lanes) : LaneMove → Prop
  | .swap hits =>
      match s.polling with
      | .idle => s.covered < s.lost → s.lane.emits hits = true
      | _ => True
  | _ => True

/-- What keeps a publication from being forgotten at this point: the flag, a complete
emission, or that it is counted as lost. -/
def Owing (s : Lanes) : TickPhase → Prop
  | .idle => s.lane.scanDirty = true ∨ s.published ≤ max s.covered s.lost
  | .sending _ _ forced =>
      (s.lane.scanDirty = true ∨ s.published ≤ max s.asOf s.lost) ∧
        (forced = true ∨ s.asOf ≤ max s.covered s.lost)
  | .stopped => True

structure Accounted (s : Lanes) : Prop where
  lost_le : s.lost ≤ s.published
  asOf_le : s.asOf ≤ s.published
  marked : ∀ hit, s.watcher = .marked hit false → s.lane.scanDirty = true
  owing : s.Owing s.polling

variable {s : Lanes}

theorem Accounted.mark (h : s.Accounted) (hit : ScannedHit) : (s.step (.mark hit)).Accounted := by
  rw [step]
  split
  next =>
    refine ⟨h.lost_le, h.asOf_le, fun _ _ => rfl, ?_⟩
    have howing := h.owing
    dsimp only
    cases hp : s.polling with
    | idle => exact .inl rfl
    | sending hits rest forced =>
        rw [hp] at howing
        exact ⟨.inl rfl, howing.2⟩
    | stopped => trivial
  next => exact h

theorem Accounted.publish (h : s.Accounted) (answer : SendChecked) : (s.step (.publish answer)).Accounted := by
  obtain ⟨hlost, hasOf, hmarked, howing⟩ := h
  rw [step]
  split
  next hit taken hw =>
    -- the flag is still up, or the publication is the lost one
    have hup (n : Nat) : s.lane.scanDirty = true ∨
        s.published + 1 ≤ max n (if taken then s.published + 1 else s.lost) := by
      cases taken with
      | true => exact .inr (le_max_right _ _)
      | false => exact .inl (hmarked hit hw)
    refine ⟨?_, Nat.le_succ_of_le hasOf, ?_, ?_⟩
    · dsimp only
      split <;> omega
    · intro other hother
      dsimp only at hother
      split at hother <;> cases hother
    · dsimp only
      cases hp : s.polling with
      | stopped => trivial
      | idle => exact hup _
      | sending hits rest forced =>
          rw [hp] at howing
          refine ⟨hup _, howing.2.imp_right fun hle => ?_⟩
          dsimp only
          split <;> omega
  next => exact ⟨hlost, hasOf, hmarked, howing⟩

theorem Accounted.swap (h : s.Accounted) (hits : List ScannedHit) : (s.step (.swap hits)).Accounted := by
  obtain ⟨hlost, hasOf, hmarked, howing⟩ := h
  rw [step]
  split
  next hp =>
    rw [hp] at howing
    refine ⟨hlost, Nat.le_refl _, ?_, ?_⟩
    · intro hit hw
      dsimp only at hw
      cases hs : s.watcher <;> simp [hs, ExecPhase.swapped] at hw
    · dsimp only
      split
      next => exact ⟨.inr (le_max_left _ _), howing⟩
      next he => exact .inr (howing.resolve_left (by simp [(Lane.quiet_iff.mp (by simpa using he)).2]))
  next => exact ⟨hlost, hasOf, hmarked, howing⟩

/-- An emission that stops early leaves the publications before it lost, if it was
forced; otherwise they were accounted for already. -/
theorem Accounted.cut (h : s.Accounted) {hits : List ScannedHit} {rest : List ProcessDetectedEvent} {forced : Bool}
    (hp : s.polling = .sending hits rest forced) : { s.cut forced with polling := .idle }.Accounted := by
  obtain ⟨hlost, hasOf, hmarked, howing⟩ := h
  rw [hp] at howing
  obtain ⟨hleft, hright⟩ := howing
  cases forced with
  | true =>
      refine ⟨max_le hlost hasOf, hasOf, hmarked, hleft.imp_right fun hle => ?_⟩
      simp only [Lanes.cut, if_true]
      omega
  | false =>
      refine ⟨hlost, hasOf, hmarked, hleft.imp_right fun hle => ?_⟩
      have hbefore := hright.resolve_left Bool.false_ne_true
      simp only [Lanes.cut, Bool.false_eq_true, if_false]
      omega

theorem Accounted.send (h : s.Accounted) (answer : SendChecked) : (s.step (.send answer)).Accounted := by
  rw [step]
  split
  next hits event rest forced hp =>
    have howing := h.owing
    rw [hp] at howing
    cases answer with
    | sent =>
        cases rest with
        | nil => exact ⟨h.lost_le, h.asOf_le, h.marked, howing.1⟩
        | cons event rest => exact ⟨h.lost_le, h.asOf_le, h.marked, howing⟩
    | shed => exact h.cut hp
    | closed =>
        obtain ⟨hlost, hasOf, hmarked, -⟩ := h.cut hp
        exact ⟨hlost, hasOf, hmarked, trivial⟩
  next => exact h

theorem accounted_run (moves : List LaneMove) : (run moves).Accounted := by
  refine Along.invariant Accounted (P := fun _ _ => True) (fun s m h _ => ?_)
    ⟨Nat.le_refl _, Nat.le_refl _, nofun, .inr (Nat.zero_le _)⟩ (Along.of_forall fun _ _ => trivial)
  cases m with
  | mark hit => exact h.mark hit
  | publish answer => exact h.publish answer
  | swap hits => exact h.swap hits
  | send answer => exact h.send answer

theorem heeds_iff (h : s.Accounted) (hits : List ScannedHit) :
    s.Heeds (.swap hits) ↔ s.quietWhileOwed hits = false := by
  have howing := h.owing
  have hlost := h.lost_le
  rw [Heeds, quietWhileOwed]
  cases hp : s.polling with
  | sending hits rest forced => simp
  | stopped => simp
  | idle =>
      dsimp only
      cases he : s.lane.emits hits with
      | true => simp
      | false =>
          rw [hp] at howing
          have hle := howing.resolve_left (by simp [(Lane.quiet_iff.mp he).2])
          simp only [Bool.false_eq_true, imp_false, Bool.not_false, Bool.true_and, decide_eq_false_iff_not]
          omega

/-- The answers of a channel to the events of one delivery. -/
def answers (channel : Nat → SendChecked) : Nat → List ProcessDetectedEvent → List LaneMove
  | _, [] => []
  | i, _ :: rest => .send (channel i) :: answers channel (i + 1) rest

theorem answers_idle (h : ∀ hits rest forced, s.polling ≠ .sending hits rest forced) (channel : Nat → SendChecked)
    (i : Nat) (events : List ProcessDetectedEvent) : (answers channel i events).foldl step s = s := by
  induction events generalizing i with
  | nil => rfl
  | cons event rest ih =>
      have hstep : s.step (.send (channel i)) = s := by
        rw [step]
        split
        next hp => exact absurd hp (h _ _ _)
        next => rfl
      rw [answers, List.foldl_cons, hstep, ih]

theorem answers_lane (channel : Nat → SendChecked) {hits : List ScannedHit} {forced : Bool} (i : Nat)
    (event : ProcessDetectedEvent) (rest : List ProcessDetectedEvent)
    (h : s.polling = .sending hits (event :: rest) forced) :
    ((answers channel i (event :: rest)).foldl step s).lane =
      ⟨if (sendAll channel i (event :: rest)).1 = .complete then snapshotOf hits else s.lane.lastEmitted,
        s.lane.scanDirty⟩ := by
  have hcut : (s.cut forced).lane = s.lane := by cases forced <;> rfl
  induction rest generalizing i event s with
  | nil => cases hc : channel i <;> simp [answers, step, h, hc, sendAll, sent, hcut]
  | cons next rest ih =>
      rw [answers, List.foldl_cons, sendAll]
      cases hc : channel i with
      | sent =>
          have hstep : s.step (.send .sent) = { s with polling := .sending hits (next :: rest) forced } := by
            simp only [step, h, sent]
          rw [hstep]
          exact ih (i + 1) next rfl (by cases forced <;> rfl)
      | shed | closed =>
          rw [answers_idle (by simp [step, h])]
          simp [step, h, hcut]

/-- A tick that the watcher does not interrupt is the scan loop's tick. -/
theorem tick_lane (h : s.polling = .idle) (hits : List ScannedHit) (channel : Nat → SendChecked) :
    ((.swap hits :: answers channel 0 (snapshotEvents (removedSlots s.lane.lastEmitted (snapshotOf hits)) hits
      hits.isEmpty)).foldl step s).lane = (s.lane.tick hits channel).2 := by
  rw [List.foldl_cons]
  cases he : s.lane.emits hits with
  | false =>
      rw [answers_idle (by simp [step, h, he]), Lane.tick_quiet he]
      simp [step, h]
  | true =>
      rw [Lane.tick_emits he, deliverSnapshot]
      generalize hev : snapshotEvents (removedSlots s.lane.lastEmitted (snapshotOf hits)) hits hits.isEmpty = events
      cases events with
      | nil =>
          -- a table always has an event: a detection, or the clear
          cases hits <;> simp [snapshotEvents] at hev
      | cons event rest =>
          have hsending : (s.step (.swap hits)).polling = .sending hits (event :: rest) s.lane.scanDirty := by
            simp only [step, h, he, if_true, hev]
          rw [answers_lane channel 0 event rest hsending]
          simp [step, h]

end Lanes

/-- No tick of a run is quiet while a full table is owed. -/
def ForcedKept (moves : List LaneMove) : Prop :=
  ∀ pre hits, pre ++ [.swap hits] <+: moves → (Lanes.run pre).quietWhileOwed hits = false

/-- In every interleaving of the watcher with the scan loop, whatever the channel
answers, no tick is quiet while a full table is owed exactly when every tick after a
publication lost its flag emits, until one is delivered completely. -/
theorem forced_emission_kept_iff (moves : List LaneMove) :
    ForcedKept moves ↔ Along Lanes.step Lanes.Heeds {} moves := by
  rw [Along.iff_forall]
  constructor
  · intro h pre m hp
    cases m with
    | swap hits => exact (Lanes.heeds_iff (Lanes.accounted_run pre) hits).mpr (h pre hits hp)
    | mark hit => trivial
    | publish answer => trivial
    | send answer => trivial
  · intro h pre hits hp
    exact (Lanes.heeds_iff (Lanes.accounted_run pre) hits).mp (h pre _ hp)

/-- A game is published by the EXEC lane and exits before a poll sees it. Either the
forced clear of the empty table is shed, or the tick takes the flag and clears before
the publication is sent; the next tick is quiet. -/
theorem forced_clear_forgotten :
    let hit : ScannedHit := ⟨{ id := ⟨"1145360"⟩, name := "Hades" }, 4242, 1763199000000, .steamAppId⟩
    ¬ForcedKept [.mark hit, .publish .sent, .swap [], .send .shed, .swap []] ∧
      ¬ForcedKept [.mark hit, .swap [], .send .sent, .publish .sent, .swap []] := by
  intro hit
  refine ⟨fun h => ?_, fun h => ?_⟩
  · exact absurd (h [.mark hit, .publish .sent, .swap [], .send .shed] [] (List.prefix_refl _)) (by decide)
  · exact absurd (h [.mark hit, .swap [], .send .sent, .publish .sent] [] (List.prefix_refl _)) (by decide)

end RichPresence.Detect
