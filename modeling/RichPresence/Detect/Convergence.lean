import RichPresence.Bridge.Published
import RichPresence.Detect.SnapshotLane
import RichPresence.Lib.Run
import RichPresence.Protocol.Serde

namespace RichPresence.Detect

open Lib Published

def feed (surroundings : Nat → Env) (processStartMs : Nat → Option Nat) (events : List ProcessDetectedEvent) :
    List Event :=
  events.mapIdx fun i event => ⟨surroundings i, .proc (toInput processStartMs event)⟩

/-- One polling tick: what the scan finds, how the channel answers the sends, and
what the bridge meets while it handles the delivered events. -/
structure Tick : Type 1 where
  hits : List ScannedHit
  channel : Nat → SendChecked
  surroundings : Nat → Env
  processStartMs : Nat → Option Nat

/-- Scan loop and bridge. The events that incomplete ticks got through since the
last complete emission are kept as history. -/
structure Polling where
  lane : Lane := {}
  bridge : Shared := {}
  stopped : Bool := false
  leaked : List ProcessDetectedEvent := []

namespace Polling

def delivery (s : Polling) (t : Tick) : SnapshotDelivery :=
  if s.stopped then .closed else (s.lane.tick t.hits t.channel).1.1

def delivered (s : Polling) (t : Tick) : List Event :=
  if s.stopped then [] else feed t.surroundings t.processStartMs (s.lane.tick t.hits t.channel).1.2

def step (C : Codec) (s : Polling) (t : Tick) : Polling :=
  if s.stopped then s
  else
    let (delivery, lane) := s.lane.tick t.hits t.channel
    { lane
      bridge := runFrom C s.bridge (s.delivered t)
      stopped := delivery.1 = .closed
      leaked := if delivery.1 = .complete then if s.lane.emits t.hits then [] else s.leaked
        else s.leaked ++ delivery.2 }

def run (C : Codec) (ts : List Tick) : Polling := ts.foldl (step C) {}

def HasRoom (C : Codec) (s : Polling) (t : Tick) : Prop :=
  Along (RichPresence.step C) (StartsWithRoom C) s.bridge (s.delivered t)

instance (C : Codec) (s : Polling) (t : Tick) : Decidable (HasRoom C s t) :=
  inferInstanceAs (Decidable (Along ..))

def leakedHits (s : Polling) : List ScannedHit :=
  s.leaked.filterMap fun
    | .detected hit => some hit
    | _ => none

def Accepted (s : Polling) (t : Tick) : Prop :=
  ∀ i < (snapshotEvents (removedSlots s.lane.lastEmitted (snapshotOf t.hits)) t.hits t.hits.isEmpty).length,
    t.channel i = .sent

/-- A quiet tick follows no incomplete one, and a tick that replaces a partly
delivered table by one that is not empty still lists, or has on record, every
game that got through. -/
def Repairs (s : Polling) (t : Tick) : Prop :=
  if s.lane.emits t.hits then
    s.Accepted t → t.hits = [] ∨
      ∀ hit ∈ s.leakedHits, hit.slot ∈ s.lane.lastEmitted ∨ hit.slot ∈ snapshotOf t.hits
  else s.leaked = []

instance (s : Polling) (t : Tick) : Decidable (s.Accepted t) := Nat.decidableBallLT _ _

instance (s : Polling) (t : Tick) : Decidable (s.Repairs t) := inferInstanceAs (Decidable (ite ..))

end Polling

def Matches (f : Published) (snapshot : List Slot) : Prop :=
  (∀ a, (f a).isSome ↔ a ∈ snapshot.map Prod.fst) ∧ ∀ a p, f a = some p → (a, p) ∈ snapshot

variable {C : Codec}

theorem feed_published {surroundings : Nat → Env} {processStartMs : Nat → Option Nat}
    {events : List ProcessDetectedEvent} {s : Shared} (ho : s.owners = free)
    (hr : Along (step C) (StartsWithRoom C) s (feed surroundings processStartMs events)) :
    (runFrom C s (feed surroundings processStartMs events)).owners = free ∧
      (runFrom C s (feed surroundings processStartMs events)).published =
        (events.map (toInput processStartMs)).foldl (apply free) s.published := by
  induction events generalizing surroundings s with
  | nil => exact ⟨ho, rfl⟩
  | cons event events ih =>
      have hcons : feed surroundings processStartMs (event :: events) =
          ⟨surroundings 0, .proc (toInput processStartMs event)⟩ ::
            feed (fun i => surroundings (i + 1)) processStartMs events := by
        rw [feed, List.mapIdx_cons]
        rfl
      rw [hcons] at hr ⊢
      have ho' : (step C s ⟨surroundings 0, .proc (toInput processStartMs event)⟩).owners = free := by
        rw [← ho]
        exact procPump_owners _
      have hp : (step C s ⟨surroundings 0, .proc (toInput processStartMs event)⟩).published =
          apply free s.published (toInput processStartMs event) := by
        rw [← ho]
        exact procPump_published hr.1.here.2.1 _
      obtain ⟨h1, h2⟩ := ih ho' hr.2
      refine ⟨h1, h2.trans ?_⟩
      rw [hp]
      rfl

def ScannedHit.game (processStartMs : Nat → Option Nat) (hit : ScannedHit) : ScannedGame :=
  ⟨hit.entry.id, hit.entry.name, hit.pid, hit.start, hit.source, processStartMs hit.pid⟩

theorem map_snapshotEvents (processStartMs : Nat → Option Nat) (removed : List Slot) (hits : List ScannedHit)
    (cleared : Bool) :
    (snapshotEvents removed hits cleared).map (toInput processStartMs) =
      removed.map (fun slot => .removed slot.1 slot.2) ++
        (hits.map (ScannedHit.game processStartMs)).map .detected ++ if cleared then [.cleared] else [] := by
  rw [snapshotEvents, List.map_append, List.map_append, List.map_map, List.map_map, List.map_map]
  cases cleared <;> rfl

/-- A fully delivered table leaves exactly its games published, once every slot
published before is in the old table or in the new one. -/
theorem matches_of_delivered {f : Published} {previous : List Slot} {hits : List ScannedHit}
    (processStartMs : Nat → Option Nat)
    (hf : hits = [] ∨ ∀ a p, f a = some p → (a, p) ∈ previous ∨ (a, p) ∈ snapshotOf hits) :
    Matches (((snapshotEvents (removedSlots previous (snapshotOf hits)) hits hits.isEmpty).map
      (toInput processStartMs)).foldl (apply free) f) (snapshotOf hits) := by
  rw [map_snapshotEvents, List.foldl_append, List.foldl_append]
  cases hh : hits with
  | nil => exact ⟨fun a => by simp [apply, snapshotOf], fun a p h => by cases h⟩
  | cons hit rest =>
      rw [← hh]
      have hne : hits ≠ [] := by simp [hh]
      have hempty : hits.isEmpty = false := by simp [hh]
      rw [hempty]
      set f' := (List.map (fun slot => ProcInput.removed slot.1 slot.2)
        (removedSlots previous (snapshotOf hits))).foldl (apply free) f with hf'
      have hkept : ∀ a p, f' a = some p → (a, p) ∈ snapshotOf hits := by
        intro a p h
        obtain ⟨hfa, hnot⟩ := (foldl_removed _).mp h
        rcases hf with hnil | hf
        · exact absurd hnil hne
        · rcases hf a p hfa with hprev | hsnap
          · by_contra hsnap
            exact hnot (mem_removedSlots.mpr ⟨hprev, hsnap⟩)
          · exact hsnap
      constructor
      · intro a
        simp only [Bool.false_eq_true, if_false, List.foldl_nil]
        rw [← foldl_detected]
        constructor
        · rintro (h | ⟨game, hm, rfl⟩)
          · obtain ⟨p, hp⟩ := Option.isSome_iff_exists.mp h
            exact List.mem_map.mpr ⟨(a, p), hkept a p hp, rfl⟩
          · obtain ⟨hit, hhit, rfl⟩ := List.mem_map.mp hm
            exact List.mem_map.mpr ⟨hit.slot, mem_snapshotOf.mpr ⟨hit, hhit, rfl⟩, rfl⟩
        · intro h
          obtain ⟨slot, hslot, rfl⟩ := List.mem_map.mp h
          obtain ⟨hit, hhit, rfl⟩ := mem_snapshotOf.mp hslot
          exact .inr ⟨hit.game processStartMs, List.mem_map.mpr ⟨hit, hhit, rfl⟩, rfl⟩
      · intro a p h
        simp only [Bool.false_eq_true, if_false, List.foldl_nil] at h
        rcases foldl_sub h with h | ⟨game, hm, rfl, rfl⟩
        · exact hkept a p h
        · obtain ⟨game', hm', he⟩ := List.mem_map.mp hm
          cases he
          obtain ⟨hit, hhit, rfl⟩ := List.mem_map.mp hm'
          exact mem_snapshotOf.mpr ⟨hit, hhit, rfl⟩

/-- Every published slot is on record or got through with an incomplete tick;
when nothing did, the record is what is published. -/
structure Polling.Tracked (s : Polling) : Prop where
  clean : s.lane.scanDirty = false
  free : s.bridge.owners = free
  slots : ∀ a p, s.bridge.published a = some p →
    (a, p) ∈ s.lane.lastEmitted ∨ ∃ hit ∈ s.leakedHits, hit.slot = (a, p)
  settled : s.leaked = [] → Matches s.bridge.published s.lane.lastEmitted

namespace Polling

variable {s : Polling} {t : Tick}

theorem tracked_start : Tracked {} where
  clean := rfl
  free := rfl
  slots a p h := by simp [Shared.published] at h
  settled _ := ⟨fun a => by simp [Shared.published], fun a p h => by simp [Shared.published] at h⟩

theorem step_quiet (hs : s.stopped = false) (h : s.lane.emits t.hits = false) :
    s.step C t = { s with lane := { s.lane with scanDirty := false } } := by
  simp only [step, hs, Bool.false_eq_true, if_false, delivered, Lane.tick_quiet h, if_true, h, feed]
  rfl

theorem delivered_emits (hs : s.stopped = false) (h : s.lane.emits t.hits = true) :
    s.delivered t = feed t.surroundings t.processStartMs
      (deliverSnapshot t.channel (removedSlots s.lane.lastEmitted (snapshotOf t.hits)) t.hits
        t.hits.isEmpty).2 := by
  rw [delivered, hs, Lane.tick_emits h]
  rfl

theorem Tracked.quiet (h : s.Tracked) (hs : s.stopped = false) (he : s.lane.emits t.hits = false)
    (hq : s.leaked = []) :
    (s.step C t).Tracked ∧ Matches (s.step C t).bridge.published (snapshotOf t.hits) := by
  obtain ⟨hsnap, _⟩ := Lane.quiet_iff.mp he
  rw [step_quiet hs he]
  refine ⟨⟨rfl, h.free, h.slots, h.settled⟩, ?_⟩
  rw [hsnap]
  exact h.settled hq

theorem Tracked.complete (h : s.Tracked) (hs : s.stopped = false) (he : s.lane.emits t.hits = true)
    (hr : HasRoom C s t) (hrep : s.Repairs t)
    (hc : (deliverSnapshot t.channel (removedSlots s.lane.lastEmitted (snapshotOf t.hits)) t.hits
      t.hits.isEmpty).1 = .complete) :
    (s.step C t).Tracked ∧ Matches (s.step C t).bridge.published (snapshotOf t.hits) := by
  rw [HasRoom, delivered_emits hs he, deliverSnapshot_complete hc] at hr
  rw [Repairs, if_pos he] at hrep
  have hacc : s.Accepted t := fun i hi => by simpa using sendAll_accepted hc i hi
  obtain ⟨hown, hpub⟩ := feed_published h.free hr
  have hstep : s.step C t = ⟨⟨snapshotOf t.hits, false⟩,
      runFrom C s.bridge (feed t.surroundings t.processStartMs
        (snapshotEvents (removedSlots s.lane.lastEmitted (snapshotOf t.hits)) t.hits t.hits.isEmpty)),
      false, []⟩ := by
    simp only [step, hs, Bool.false_eq_true, if_false, delivered_emits hs he, Lane.tick_emits he, hc, if_true, he,
      deliverSnapshot_complete hc]
    rfl
  have hmatch : Matches (s.step C t).bridge.published (snapshotOf t.hits) := by
    rw [hstep, hpub]
    refine matches_of_delivered t.processStartMs ?_
    rcases hrep hacc with hnil | hleak
    · exact .inl hnil
    · refine .inr fun a p hap => ?_
      rcases h.slots a p hap with hl | ⟨hit, hm, hslot⟩
      · exact .inl hl
      · exact hslot ▸ hleak hit hm
  refine ⟨?_, hmatch⟩
  rw [hstep] at hmatch ⊢
  exact ⟨rfl, hown, fun a p hap => .inl (hmatch.2 a p hap), fun _ => hmatch⟩

theorem Tracked.incomplete (h : s.Tracked) (hs : s.stopped = false) (he : s.lane.emits t.hits = true)
    (hr : HasRoom C s t)
    (hc : (deliverSnapshot t.channel (removedSlots s.lane.lastEmitted (snapshotOf t.hits)) t.hits
      t.hits.isEmpty).1 ≠ .complete) : (s.step C t).Tracked := by
  rw [HasRoom, delivered_emits hs he] at hr
  obtain ⟨hown, hpub⟩ := feed_published h.free hr
  set out := (deliverSnapshot t.channel (removedSlots s.lane.lastEmitted (snapshotOf t.hits)) t.hits
    t.hits.isEmpty).2 with hout
  have hlane : (s.step C t).lane = ⟨s.lane.lastEmitted, false⟩ := by
    simp only [step, hs, Bool.false_eq_true, if_false, Lane.tick_emits he, hc]
  have hbridge : (s.step C t).bridge = runFrom C s.bridge (feed t.surroundings t.processStartMs out) := by
    simp only [step, hs, Bool.false_eq_true, if_false, delivered_emits hs he, ← hout]
  have hleaked : (s.step C t).leaked = s.leaked ++ out := by
    simp only [step, hs, Bool.false_eq_true, if_false, Lane.tick_emits he, hc, ← hout]
  refine ⟨by rw [hlane], by rw [hbridge, hown], fun a p hap => ?_, fun hnil => ?_⟩
  · rw [hbridge, hpub] at hap
    rw [hlane, leakedHits, hleaked, List.filterMap_append]
    rcases foldl_sub hap with hold | ⟨game, hm, rfl, rfl⟩
    · rcases h.slots a p hold with hl | ⟨hit, hm, hslot⟩
      · exact .inl hl
      · exact .inr ⟨hit, List.mem_append_left _ hm, hslot⟩
    · obtain ⟨event, hev, hin⟩ := List.mem_map.mp hm
      cases event with
      | detected hit =>
          cases hin
          exact .inr ⟨hit, List.mem_append_right _ (List.mem_filterMap.mpr ⟨_, hev, rfl⟩), rfl⟩
      | cleared => cases hin
      | removed id pid => cases hin
  · rw [hleaked, List.append_eq_nil_iff] at hnil
    rw [hbridge, hpub, hlane, hnil.2]
    exact h.settled hnil.1

theorem Tracked.step (h : s.Tracked) (hr : HasRoom C s t) (hrep : s.Repairs t) :
    (s.step C t).Tracked ∧
      (s.delivery t = .complete → Matches (s.step C t).bridge.published (snapshotOf t.hits)) := by
  cases hs : s.stopped with
  | true =>
      rw [Polling.step, if_pos hs, delivery, if_pos hs]
      exact ⟨h, fun hc => by cases hc⟩
  | false =>
      cases he : s.lane.emits t.hits with
      | false =>
          rw [Repairs, he] at hrep
          obtain ⟨ht, hm⟩ := h.quiet (C := C) hs he hrep
          exact ⟨ht, fun _ => hm⟩
      | true =>
          rw [delivery, hs, if_neg Bool.false_ne_true, Lane.tick_emits he]
          by_cases hc : (deliverSnapshot t.channel (removedSlots s.lane.lastEmitted (snapshotOf t.hits)) t.hits
              t.hits.isEmpty).1 = .complete
          · obtain ⟨ht, hm⟩ := h.complete hs he hr hrep hc
            exact ⟨ht, fun _ => hm⟩
          · exact ⟨h.incomplete hs he hr hc, fun hc' => absurd hc' hc⟩

end Polling

/-- Whatever the channel sheds, a tick that ends complete leaves the bridge
showing the games of its scan, in every run whose ticks repair what incomplete
ones got through. -/
theorem poll_converges {ts pre : List Tick} {t : Tick}
    (hroom : Along (Polling.step C) (Polling.HasRoom C) {} ts)
    (hrep : Along (Polling.step C) Polling.Repairs {} ts) (hpre : pre ++ [t] <+: ts)
    (hc : (Polling.run C pre).delivery t = .complete) :
    Matches (Polling.run C (pre ++ [t])).bridge.published (snapshotOf t.hits) := by
  obtain ⟨hall, hlast⟩ := Along.concat.mp ((hroom.and hrep).initial hpre)
  have hinv : (Polling.run C pre).Tracked :=
    hall.invariant Polling.Tracked (fun _ _ hs ht => (hs.step ht.1 ht.2).1) Polling.tracked_start
  have hstep := (hinv.step hlast.1 hlast.2).2 hc
  rwa [Polling.run, List.foldl_append]

def hadesHit : ScannedHit := ⟨{ id := ⟨"1145360"⟩, name := "Hades" }, 4242, 1763199000000, .steamAppId⟩

def celesteHit : ScannedHit := ⟨{ id := ⟨"504230"⟩, name := "Celeste" }, 4343, 1763199100000, .steamAppId⟩

def Tick.calm (hits : List ScannedHit) (room : Nat) : Tick where
  hits := hits
  channel i := if i < room then .sent else .shed
  surroundings _ := .calm (fun _ => true) 0
  processStartMs _ := some 1763199000000

/-- Two games start and only the first detection gets through; that game is gone
at the next tick, which completes, and the bridge keeps its card. -/
theorem shed_detection_stays :
    let ts := [Tick.calm [hadesHit, celesteHit] 1, Tick.calm [celesteHit] 128]
    Along (Polling.step Serde.codec) (Polling.HasRoom Serde.codec) {} ts ∧
      (Polling.run Serde.codec [Tick.calm [hadesHit, celesteHit] 1]).delivery (Tick.calm [celesteHit] 128) =
        .complete ∧
      ¬Matches (Polling.run Serde.codec ts).bridge.published (snapshotOf [celesteHit]) := by
  intro ts
  refine ⟨by decide +kernel, by decide +kernel, fun h => ?_⟩
  have hghost : (Polling.run Serde.codec ts).bridge.published hadesHit.entry.id = some 4242 := by decide +kernel
  exact absurd (h.2 _ _ hghost) (by decide +kernel)

/-- The same shed tick is repaired when both games are still there. -/
theorem poll_converges_after_shed :
    let ts := [Tick.calm [hadesHit, celesteHit] 1, Tick.calm [hadesHit, celesteHit] 128]
    Matches (Polling.run Serde.codec ts).bridge.published (snapshotOf [hadesHit, celesteHit]) :=
  @poll_converges Serde.codec _ [Tick.calm [hadesHit, celesteHit] 1] (Tick.calm [hadesHit, celesteHit] 128)
    (by decide +kernel) (by decide +kernel) (List.prefix_refl _) (by decide +kernel)

end RichPresence.Detect
