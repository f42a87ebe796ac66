import RichPresence.Detect.Session

namespace RichPresence.Detect

open Lib

variable {C : Codec} {a : AppId}

/-- What every turn keeps. While no listed process was found dead, every listed
slot is ready or about to be. -/
structure Session.Upheld (Sdk : Nat → Prop) (Scan : AppId → Prop) (s : Session) : Prop where
  placed : Placed Sdk Scan s.bridge
  carded : Carded s.bridge
  queued : ∀ hit, .detected hit ∈ s.queue → Scan hit.entry.id
  listed : s.table = s.lane.lastEmitted
  covered : s.deaths = false → ∀ a ∈ s.table.map Prod.fst, Covered s a

namespace Session.Upheld

variable {Sdk : Nat → Prop} {Scan : AppId → Prop} {s : Session}

theorem start : Upheld Sdk Scan {} where
  placed := Placed.start
  carded a := rfl
  queued _ h := by cases h
  listed := rfl
  covered _ a ha := by cases ha

theorem tick (h : s.Upheld Sdk Scan) {hits : List ScannedHit} (hscan : ∀ hit ∈ hits, Scan hit.entry.id) :
    (s.step C (.tick hits)).Upheld Sdk Scan := by
  cases he : s.lane.emits hits with
  | false =>
      have hsame : s.step C (.tick hits) =
          { s with lane := { s.lane with scanDirty := false }, table := snapshotOf hits } := by
        simp only [Session.step, Lane.tick_quiet he, he, List.append_nil, Bool.not_false, Bool.and_true]
      have htable : snapshotOf hits = s.table := by
        rw [h.listed]
        exact (Lane.quiet_iff.mp he).1
      rw [hsame, htable]
      exact ⟨h.placed, h.carded, h.queued, h.listed, h.covered⟩
  | true =>
      have hnew : s.step C (.tick hits) =
          { s with
            lane := ⟨snapshotOf hits, false⟩
            queue := s.queue ++
              snapshotEvents (removedSlots s.lane.lastEmitted (snapshotOf hits)) hits hits.isEmpty
            table := snapshotOf hits
            deaths := false } := by
        simp only [Session.step, Lane.tick_lossless he, he, Bool.not_true, Bool.and_false]
      rw [hnew]
      refine ⟨h.placed, h.carded, fun hit hm => ?_, rfl, fun _ a ha => .inl (due_of_emitted _ _ ha)⟩
      rcases List.mem_append.mp hm with hm | hm
      · exact h.queued hit hm
      · apply hscan
        simpa [snapshotEvents] using hm

theorem deliver (hC : C.Encodes) (h : s.Upheld Sdk Scan) {env : Env} {processStartMs : Nat → Option Nat}
    (hr : s.HasRoom C (.deliver env processStartMs)) :
    (s.step C (.deliver env processStartMs)).Upheld Sdk Scan := by
  cases hq : s.queue with
  | nil =>
      simp only [Session.step, hq]
      exact h
  | cons event queue =>
      simp only [Session.HasRoom, hq] at hr
      simp only [Session.step, hq]
      have hroom : s.bridge.HasRoom := hr.here
      refine ⟨h.placed.step ⟨fun p hp => (by cases hp), fun a ha => ?_⟩, h.carded.proc hC _ hroom,
        fun hit hm => h.queued hit (by rw [hq]; exact List.mem_cons_of_mem _ hm), h.listed, fun hd a ha => ?_⟩
      · cases event with
        | detected hit =>
            cases ha
            exact h.queued hit (by simp [hq])
        | cleared => cases ha
        | removed id pid => cases ha
      · rcases h.covered hd a ha with ⟨ahead, hit, behind, hsplit, hid, hslot, hrest⟩ | ⟨hspare, hready⟩
        · rw [hq] at hsplit
          cases ahead with
          | nil =>
              obtain ⟨rfl, rfl⟩ := List.cons.inj hsplit
              exact .inr ⟨hrest, Ready.of_detected processStartMs hid hslot hroom⟩
          | cons first ahead =>
              obtain ⟨rfl, rfl⟩ := List.cons.inj hsplit
              exact .inl ⟨ahead, hit, behind, rfl, hid, hslot, hrest⟩
        · rw [hq] at hspare
          obtain ⟨hit, rfl, hid⟩ := hspare event (by simp)
          exact .inr ⟨hspare.tail, hready.detected_other hid hroom⟩

theorem command (hC : C.Encodes) (h : s.Upheld Sdk Scan) {env : Env} {cmd : ActivityCmd} (hsdk : Sdk cmd.pid)
    (hsep : ∀ p a, Sdk p → Scan a → SocketId.ofPid p ≠ SocketId.ofApp a)
    (hr : s.HasRoom C (.command env cmd)) : (s.step C (.command env cmd)).Upheld Sdk Scan := by
  refine ⟨h.placed.setActivity hsdk,
    h.carded.setActivity hC h.placed (fun a ha => hsep cmd.pid a hsdk ha) hsdk hr, h.queued, h.listed,
    fun hd a ha => ?_⟩
  obtain ⟨hbefore, hnow⟩ := Bool.or_eq_false_iff.mp hd
  rcases h.covered hbefore a ha with hdue | ⟨hspare, hready⟩
  · exact .inl hdue
  · refine .inr ⟨hspare, hready.command hr fun slot hslot => ?_⟩
    have := List.any_eq_false.mp hnow slot hslot
    simpa using this

end Session.Upheld

theorem Session.Upheld.step {Sdk : Nat → Prop} {Scan : AppId → Prop} {s : Session} {t : Turn}
    (hC : C.Encodes) (h : s.Upheld Sdk Scan)
    (hsep : ∀ p a, Sdk p → Scan a → SocketId.ofPid p ≠ SocketId.ofApp a)
    (hsdk : ∀ p ∈ t.sdkPid, Sdk p) (hscan : ∀ a ∈ t.scannedApps, Scan a) (hr : s.HasRoom C t) :
    (s.step C t).Upheld Sdk Scan := by
  cases t with
  | tick hits => exact h.tick fun hit hm => hscan _ (List.mem_map_of_mem hm)
  | deliver env processStartMs => exact h.deliver hC hr
  | command env cmd => exact h.command hC (hsdk _ rfl) hsep hr

/-- Once the events of the latest tick are handled, every listed game without an
owner is published and shown, provided no listed process was found dead since
the table was last emitted; and a null activity for a slot that belongs to
someone else changes no owner and no generic card. -/
theorem generic_restored (hC : C.Encodes) {ts : List Turn} (hsep : Apart ts)
    (hroom : Along (Session.step C) (Session.HasRoom C) {} ts) :
    (∀ pre, pre <+: ts → (Session.run C pre).queue = [] → (Session.run C pre).deaths = false →
      ∀ a ∈ (Session.run C pre).table.map Prod.fst, (Session.run C pre).bridge.owners a = none →
        ((Session.run C pre).bridge.published a).isSome ∧
          (Session.run C pre).bridge.showsGeneric a = true) ∧
    ∀ pre env cmd a, pre ++ [.command env cmd] <+: ts → cmd.activity = none → cmd.applicationId = some a →
      (Session.run C pre).bridge.owners a ≠ some cmd.pid →
        (Session.run C (pre ++ [.command env cmd])).bridge.owners = (Session.run C pre).bridge.owners ∧
        ∀ v : CachedActivity × UInt64, v.1.isGeneric = true →
          ((Session.run C (pre ++ [.command env cmd])).bridge.cache.lookup (SocketId.ofApp a) = some v ↔
            (Session.run C pre).bridge.cache.lookup (SocketId.ofApp a) = some v) := by
  have hsdk : ∀ t ∈ ts, ∀ p ∈ t.sdkPid, p ∈ ts.filterMap Turn.sdkPid :=
    fun t ht p hp => List.mem_filterMap.mpr ⟨t, ht, hp⟩
  have hscan : ∀ t ∈ ts, ∀ a ∈ t.scannedApps, a ∈ ts.flatMap Turn.scannedApps :=
    fun t ht a ha => List.mem_flatMap.mpr ⟨t, ht, ha⟩
  have hinv : ∀ pre, pre <+: ts →
      (Session.run C pre).Upheld (· ∈ ts.filterMap Turn.sdkPid) (· ∈ ts.flatMap Turn.scannedApps) := by
    intro pre hpre
    have hall := (hroom.and (.of_forall fun t ht => And.intro (hsdk t ht) (hscan t ht))).initial hpre
    apply hall.invariant _ _ Session.Upheld.start
    intro s t hs ⟨hr, hp, ha⟩
    exact hs.step hC (fun p a hp ha => hsep p hp a ha) hp ha hr
  constructor
  · intro pre hpre hq hd a ha ho
    have h := hinv pre hpre
    have hready : Ready (Session.run C pre).table a (Session.run C pre).bridge := by
      rcases h.covered hd a ha with ⟨ahead, hit, behind, hsplit, _⟩ | ⟨_, hready⟩
      · rw [hq] at hsplit
        simp at hsplit
      · exact hready
    have hp := hready.2 ho
    exact ⟨hp, by rw [← h.carded a, hp]⟩
  · intro pre env cmd a hpre hact happ ho
    have hpid : cmd.pid ∈ ts.filterMap Turn.sdkPid :=
      hsdk (.command env cmd) (hpre.subset (by simp)) _ rfl
    have h := (hinv pre ((List.prefix_append _ _).trans hpre)).placed
    obtain ⟨hhand, hcard⟩ :=
      setActivity_stale (C := C) env h (fun b hb => hsep cmd.pid hpid b hb) hact happ ho
    have hrun : (Session.run C (pre ++ [.command env cmd])).bridge =
        (handleSetActivity C env cmd).exec (Session.run C pre).bridge := by
      rw [Session.run, List.foldl_append]
      rfl
    rw [hrun]
    refine ⟨?_, hcard⟩
    funext b
    rw [Shared.owners, hhand, Shared.owners]

def everyoneAlive : Env := .calm (fun _ => true) 0

/-- Hades is scanned, its own client takes the slot and gives it back while the
process is dead; the next scan finds a process with the same pid and the tick
stays quiet. -/
theorem recycled_pid_stays_dark :
    let start := fun _ => some 1763199000000
    let ts : List Turn := [.tick [hadesHit], .deliver everyoneAlive start,
      .command everyoneAlive (.publish ⟨"1145360"⟩ 77 "In the House"), .tick [hadesHit, celesteHit],
      .deliver everyoneAlive start, .deliver everyoneAlive start,
      .command (.calm (· != 4242) 5) (.clear (some ⟨"1145360"⟩) 77), .tick [hadesHit, celesteHit]]
    Apart ts ∧ Along (Session.step Serde.codec) (Session.HasRoom Serde.codec) {} ts ∧
      (Session.run Serde.codec ts).queue = [] ∧
      ⟨"1145360"⟩ ∈ (Session.run Serde.codec ts).table.map Prod.fst ∧
      (Session.run Serde.codec ts).bridge.owners ⟨"1145360"⟩ = none ∧
      (Session.run Serde.codec ts).bridge.published ⟨"1145360"⟩ = none ∧
      (Session.run Serde.codec ts).bridge.showsGeneric ⟨"1145360"⟩ = false := by
  decide +kernel

/-- With the process alive the same hand-back restores the card. -/
theorem generic_restored_after_takeover :
    let start := fun _ => some 1763199000000
    let ts : List Turn := [.tick [hadesHit], .deliver everyoneAlive start,
      .command everyoneAlive (.publish ⟨"1145360"⟩ 77 "In the House"), .tick [hadesHit, celesteHit],
      .deliver everyoneAlive start, .deliver everyoneAlive start,
      .command everyoneAlive (.clear (some ⟨"1145360"⟩) 77), .tick [hadesHit, celesteHit]]
    ((Session.run Serde.codec ts).bridge.published ⟨"1145360"⟩).isSome ∧
      (Session.run Serde.codec ts).bridge.showsGeneric ⟨"1145360"⟩ = true := by
  intro start ts
  exact (@generic_restored Serde.codec Serde.codec_encodes ts (by decide +kernel) (by decide +kernel)).1 ts
    (List.prefix_refl _) (by decide +kernel) (by decide +kernel) _ (by decide +kernel) (by decide +kernel)

end RichPresence.Detect
