import RichPresence.Bridge.Carded
import RichPresence.Detect.Watching

namespace RichPresence.Detect

open Lib Published

namespace Watching

/-- The bridge has no owners, and its published slots are those with a card. -/
structure Generic (s : Watching) : Prop where
  free : s.bridge.owners = free
  carded : Carded s.bridge

variable {C : Codec} {s : Watching} {a : AppId} {hits : List ScannedHit}

theorem step_bridge (m : Move) : (s.step C m).bridge = s.bridge ∨
    ∃ env input, (s.step C m).bridge = RichPresence.step C s.bridge ⟨env, .proc input⟩ := by
  cases m with
  | publish env processStartMs =>
      rw [step]
      split
      next => exact .inr ⟨_, _, rfl⟩
      next => exact .inl rfl
  | send env processStartMs =>
      rw [step]
      split
      next => exact .inr ⟨_, _, rfl⟩
      next => exact .inl rfl
  | _ =>
      left
      rw [step]
      split <;> rfl

theorem Generic.step (hC : C.Encodes) (h : s.Generic) (hr : s.bridge.HasRoom) (m : Move) :
    (s.step C m).Generic := by
  rcases step_bridge (C := C) (s := s) m with hb | ⟨env, input, hb⟩
  · exact ⟨hb ▸ h.free, hb ▸ h.carded⟩
  · refine ⟨?_, ?_⟩
    · rw [hb, ← h.free]
      exact procPump_owners input
    · rw [hb]
      exact h.carded.proc hC input hr

theorem generic_start : Generic {} := ⟨rfl, fun _ => rfl⟩

/-- The slot `a` as the rest of the tick under way will leave it, when nothing
else touches it. -/
def outlook (a : AppId) (s : Watching) : Option Nat :=
  match s.scan with
  | .sending _ rest => (rest.map (toInput fun _ => none)).foldl (applyAt a) (s.bridge.published a)
  | _ => s.bridge.published a

theorem applyAt_toInput (x : Option Nat) (processStartMs : Nat → Option Nat) (event : ProcessDetectedEvent) :
    applyAt a x (toInput processStartMs event) = applyAt a x (toInput (fun _ => none) event) := by
  cases event <;> rfl

theorem bridge_slot (hf : s.bridge.owners = free) (hr : s.bridge.HasRoom) (env : Env) (input : ProcInput) :
    (RichPresence.step C s.bridge ⟨env, .proc input⟩).published a = applyAt a (s.bridge.published a) input := by
  rw [← apply_at, ← hf]
  exact congrFun (procPump_published hr.2.1 input) a

theorem outlook_step (hg : s.Generic) (hr : s.bridge.HasRoom) {m : Move} (hm : s.Undisturbed a m)
    (hs : ∀ hits, s.scan ≠ .refilled hits) : (s.step C m).outlook a = s.outlook a := by
  cases m with
  | scan hits => cases hm.1
  | publish env processStartMs =>
      cases hw : s.watcher with
      | marked hit =>
          have hne : hit.entry.id ≠ a := fun he => hm.2 (by simp [publication, hw, he])
          have hslot : (RichPresence.step C s.bridge
              ⟨env, .proc (toInput processStartMs (.detected hit))⟩).published a = s.bridge.published a := by
            rw [bridge_slot hg.free hr, toInput, applyAt, if_neg fun hc => hne hc.1]
          simp only [step, hw, outlook, hslot]
      | idle => simp only [step, hw]
      | inserted hit => simp only [step, hw]
  | send env processStartMs =>
      cases hsc : s.scan with
      | sending hits rest =>
          cases rest with
          | nil => simp only [step, hsc]
          | cons event rest =>
              simp only [step, hsc, outlook, bridge_slot hg.free hr, List.map_cons, List.foldl_cons,
                applyAt_toInput _ processStartMs]
      | idle => simp only [step, hsc]
      | scanned hits => simp only [step, hsc]
      | refilled hits => simp only [step, hsc]
  | record =>
      cases hsc : s.scan with
      | sending hits rest =>
          cases rest with
          | nil => simp only [step, hsc, outlook, List.map_nil, List.foldl_nil]
          | cons event rest => simp only [step, hsc]
      | idle => simp only [step, hsc]
      | scanned hits => simp only [step, hsc]
      | refilled hits => simp only [step, hsc]
  | swap =>
      cases hsc : s.scan with
      | refilled hits => exact absurd hsc (hs hits)
      | idle => simp only [step, hsc]
      | scanned hits => simp only [step, hsc]
      | sending hits rest => simp only [step, hsc]
  | insert hit => cases hw : s.watcher <;> simp only [step, hw, outlook]
  | mark => cases hw : s.watcher <;> simp only [step, hw, outlook]
  | refill =>
      cases hsc : s.scan with
      | scanned hits => simp only [step, hsc, outlook]
      | idle => simp only [step, hsc]
      | refilled hits => simp only [step, hsc]
      | sending hits rest => simp only [step, hsc]

def InTick (s : Watching) : Prop := s.scan = .idle ∨ ∃ hits rest, s.scan = .sending hits rest

theorem InTick.step (h : s.InTick) {m : Move} (hm : m.isScan = false) : (s.step C m).InTick := by
  cases m with
  | scan hits => cases hm
  | insert hit => cases hw : s.watcher <;> simpa only [InTick, Watching.step, hw] using h
  | mark => cases hw : s.watcher <;> simpa only [InTick, Watching.step, hw] using h
  | publish env processStartMs => cases hw : s.watcher <;> simpa only [InTick, Watching.step, hw] using h
  | _ =>
      rcases h with h | ⟨hits, rest, h⟩
      · simp [InTick, Watching.step, h]
      · cases rest <;> simp [InTick, Watching.step, h]

theorem InTick.not_refilled (h : s.InTick) (hits : List ScannedHit) : s.scan ≠ .refilled hits := by
  rcases h with h | ⟨hits', rest, h⟩ <;> simp [h]

theorem swap_inTick (h : s.scan = .refilled hits) : (s.step C .swap).InTick := by
  simp only [InTick, step, h]
  split
  next => exact .inr ⟨_, _, rfl⟩
  next => exact .inl rfl

theorem swap_outlook (h : s.scan = .refilled hits) :
    (s.step C .swap).outlook a =
      if s.lane.emits hits then
        (s.tickEvents hits).map (toInput fun _ => none) |>.foldl (applyAt a) (s.bridge.published a)
      else s.bridge.published a := by
  simp only [outlook, step, h]
  cases s.lane.emits hits <;> rfl

theorem tickEvents_slot (ha : ∀ hit ∈ hits, hit.entry.id ≠ a) (x : Option Nat) :
    ((s.tickEvents hits).map (toInput fun _ => none)).foldl (applyAt a) x = none ↔
      x = none ∨ hits = [] ∨ ∃ slot ∈ s.lane.lastEmitted, slot.1 = a ∧ x = some slot.2 := by
  rw [tickEvents, map_snapshotEvents, List.foldl_append, List.foldl_append]
  have hgames : ∀ game ∈ hits.map (ScannedHit.game fun _ => none), game.id ≠ a := by
    intro game hm
    obtain ⟨hit, hhit, rfl⟩ := List.mem_map.mp hm
    exact ha hit hhit
  have hsnap (slot : Slot) (hs : slot.1 = a) : slot ∉ snapshotOf hits := by
    intro hm
    obtain ⟨hit, hhit, rfl⟩ := mem_snapshotOf.mp hm
    exact ha hit hhit hs
  rw [foldl_at_detected _ _ hgames]
  cases hh : hits.isEmpty with
  | true =>
      have hnil := List.isEmpty_iff.mp hh
      exact ⟨fun _ => .inr (.inl hnil), fun _ => rfl⟩
  | false =>
      have hnil : hits ≠ [] := by simpa using hh
      simp only [Bool.false_eq_true, if_false, List.foldl_nil, foldl_at_removed, mem_removedSlots, hnil, false_or]
      refine or_congr_right (exists_congr fun slot => ?_)
      constructor
      · rintro ⟨⟨hl, _⟩, hs, hx⟩
        exact ⟨hl, hs, hx⟩
      · rintro ⟨hl, hs, hx⟩
        exact ⟨⟨hl, hsnap slot hs⟩, hs, hx⟩

theorem tick_reaches (hs : s.scan = .refilled hits) (ha : ∀ hit ∈ hits, hit.entry.id ≠ a) :
    (s.step C .swap).outlook a = none ↔ s.Reaches a hits := by
  rw [swap_outlook hs, Reaches]
  cases he : s.lane.emits hits with
  | false => simp
  | true =>
      rw [if_pos rfl, tickEvents_slot ha]
      simp

end Watching

variable {C : Codec}

/-- With a channel that never sheds and room in the bridge's tables, take any
interleaving of both lanes and any tick whose scan has no process of `a`, with
no EXEC publication of `a` sent between its swap and its end. Then the bridge
ends the tick without a generic card for `a` exactly when the tick could reach it. -/
theorem tick_clears_iff (hC : C.Encodes) {before during : List Move} {hits : List ScannedHit} {a : AppId}
    (hroom : Along (Watching.step C) (fun s _ => s.bridge.HasRoom) {} (before ++ .swap :: during))
    (hready : (Watching.run C before).scan = .refilled hits) (ha : ∀ hit ∈ hits, hit.entry.id ≠ a)
    (hduring : Along (Watching.step C) (Watching.Undisturbed a)
      (Watching.step C (Watching.run C before) .swap) during)
    (hend : (Watching.run C (before ++ .swap :: during)).scan = .idle) :
    (Watching.run C (before ++ .swap :: during)).bridge.showsGeneric a = false ↔
      (Watching.run C before).Reaches a hits := by
  obtain ⟨hr1, hr2, hr3⟩ := Along.append.mp hroom
  change Along _ _ (Watching.step C (Watching.run C before) .swap) during at hr3
  have hg : (Watching.run C before).Generic :=
    hr1.invariant _ (fun _ m hs hr => hs.step hC hr m) Watching.generic_start
  have hswap := hg.step hC hr2 .swap
  -- From the swap on the outlook of the slot stays what it was right after it.
  have hall := (hr3.and hduring).invariant
    (fun s => s.Generic ∧ s.InTick ∧
      s.outlook a = (Watching.step C (Watching.run C before) .swap).outlook a)
    (fun s m ⟨hs, ht, ho⟩ ⟨hr, hm⟩ => ⟨hs.step hC hr m, ht.step hm.1,
      (Watching.outlook_step hs hr hm ht.not_refilled).trans ho⟩)
    ⟨hswap, Watching.swap_inTick hready, rfl⟩
  have hrun : Watching.run C (before ++ .swap :: during) =
      during.foldl (Watching.step C) (Watching.step C (Watching.run C before) .swap) := by
    rw [Watching.run, List.foldl_append]
    rfl
  rw [hrun] at hend ⊢
  obtain ⟨hgen, _, hout⟩ := hall
  rw [← Watching.tick_reaches hready ha, ← hout, Watching.outlook, hend, ← hgen.carded a,
    Option.isSome_eq_false_iff, Option.isNone_iff_eq_none]

def tickMoves (hits : List ScannedHit) (n : Nat) : List Move :=
  Watching.opening hits ++
    List.replicate n (.send (.calm (fun _ => true) 0) fun _ => some 1763199000000) ++ [.record]

def execMoves (hit : ScannedHit) : List Move :=
  [.insert hit, .mark, .publish (.calm (fun _ => true) 0) fun _ => some 1763199000000]

/-- Celeste runs; Hades starts, is published by the EXEC lane and exits. The
forced tick lists Celeste alone, and the card of Hades stays. -/
theorem exec_card_outlives_tick :
    let moves := tickMoves [celesteHit] 1 ++ execMoves hadesHit ++ tickMoves [celesteHit] 1
    Along (Watching.step Serde.codec) (fun s _ => s.bridge.HasRoom) {} moves ∧
      (Watching.run Serde.codec moves).scan = .idle ∧
      (Watching.run Serde.codec moves).bridge.showsGeneric hadesHit.entry.id = true := by
  decide +kernel

/-- With nothing else running the forced tick clears it. -/
theorem tick_clears_iff_lone_game :
    let before := execMoves hadesHit ++ [Move.scan [], .refill]
    let during := [Move.send (.calm (fun _ => true) 0) fun _ => none, .record]
    (Watching.run Serde.codec (execMoves hadesHit)).bridge.showsGeneric hadesHit.entry.id = true ∧
      (Watching.run Serde.codec (before ++ .swap :: during)).bridge.showsGeneric hadesHit.entry.id = false :=
  ⟨by decide +kernel, (@tick_clears_iff Serde.codec Serde.codec_encodes _ _ [] _ (by decide +kernel) rfl
    (by simp) (by decide +kernel) rfl).mpr (by decide +kernel)⟩

end RichPresence.Detect
