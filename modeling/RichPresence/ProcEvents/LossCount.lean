import RichPresence.Lib.Context
import RichPresence.ProcEvents.Tracker

namespace RichPresence.ProcEvents

open Lib

section Losses

/-- A message of the kernel: the CPU it was counted on, and whether it was delivered. -/
abbrev Sent := UInt32 × Bool

def countOf (cpu : UInt32) (sent : List Sent) : Nat := sent.countP fun m => m.1 = cpu

/-- The delivered messages in order with their numbers: each counter starts somewhere and goes up by one,
wrapping, with every message of its CPU. -/
def delivered (start : UInt32 → UInt32) (sent : List Sent) : List (UInt32 × UInt32) :=
  (placed sent).filterMap fun p =>
    if p.item.2 then some (p.item.1, start p.item.1 + UInt32.ofNat (countOf p.item.1 p.before)) else none

/-- The dropped messages with a delivered one of their CPU before them and one behind. -/
def lostBetween (sent : List Sent) : Nat :=
  (placed sent).countP fun p => !p.item.2 && p.before.contains (p.item.1, true) && p.after.contains (p.item.1, true)

/-- The messages of a CPU that were dropped since its last delivered one. -/
def droppedSince (cpu : UInt32) (sent : List Sent) : Nat :=
  (placed sent).countP fun p =>
    p.item.1 == cpu && !p.item.2 && p.before.contains (cpu, true) && !p.after.contains (cpu, true)

/-- Between two delivered messages of a CPU fewer than half of the circle are dropped. -/
def Spaced (sent : List Sent) : Prop :=
  ∀ earlier cpu, earlier ++ [(cpu, true)] <+: sent → droppedSince cpu earlier ≤ 2 ^ 31 - 1

variable {start : UInt32 → UInt32} {sent : List Sent} {cpu other : UInt32}

theorem countOf_concat (cpu : UInt32) (sent : List Sent) (m : Sent) :
    countOf cpu (sent ++ [m]) = countOf cpu sent + if m.1 = cpu then 1 else 0 := by
  rw [countOf, List.countP_append, List.countP_singleton]
  simp [countOf]

theorem delivered_concat (start : UInt32 → UInt32) (sent : List Sent) (m : Sent) :
    delivered start (sent ++ [m]) =
      delivered start sent ++ if m.2 then [(m.1, start m.1 + UInt32.ofNat (countOf m.1 sent))] else [] := by
  rw [delivered, placed_concat, List.filterMap_append, List.filterMap_map]
  congr 1
  obtain ⟨cpu, _ | _⟩ := m <;> rfl

theorem lostBetween_dropped (sent : List Sent) (cpu : UInt32) :
    lostBetween (sent ++ [(cpu, false)]) = lostBetween sent := by
  rw [lostBetween, countP_placed_concat]
  simp [lostBetween, Placed.extend]

theorem lostBetween_delivered (sent : List Sent) (cpu : UInt32) :
    lostBetween (sent ++ [(cpu, true)]) = lostBetween sent + droppedSince cpu sent := by
  rw [lostBetween, countP_placed_concat]
  simp only [Bool.not_true, Bool.false_and, Bool.false_eq_true, if_false, Nat.add_zero]
  refine countP_or fun p _ => ?_
  obtain ⟨before, ⟨c, b⟩, after⟩ := p
  by_cases hc : c = cpu
  · subst hc
    cases b <;> cases hb : before.contains (c, true) <;> cases ha : after.contains (c, true) <;>
      simp_all [Placed.extend]
  · cases b <;> simp [Placed.extend, hc]

theorem droppedSince_delivered (sent : List Sent) (cpu : UInt32) : droppedSince cpu (sent ++ [(cpu, true)]) = 0 := by
  rw [droppedSince, countP_placed_concat]
  simp [Placed.extend]

theorem droppedSince_other (sent : List Sent) (b : Bool) (h : other ≠ cpu) :
    droppedSince cpu (sent ++ [(other, b)]) = droppedSince cpu sent := by
  rw [droppedSince, countP_placed_concat]
  simp [droppedSince, Placed.extend, h, Ne.symm h]

theorem droppedSince_dropped (sent : List Sent) (cpu : UInt32) :
    droppedSince cpu (sent ++ [(cpu, false)]) = droppedSince cpu sent + if (cpu, true) ∈ sent then 1 else 0 := by
  rw [droppedSince, countP_placed_concat]
  simp [droppedSince, Placed.extend]

theorem droppedSince_of_not_mem (h : (cpu, true) ∉ sent) : droppedSince cpu sent = 0 := by
  rw [droppedSince, List.countP_eq_zero]
  intro p hp
  have hb : (cpu, true) ∉ p.before := fun hmem => h (before_subset hp hmem)
  simp [hb]

theorem Spaced.init {m : Sent} (h : Spaced (sent ++ [m])) : Spaced sent :=
  fun earlier cpu hp => h earlier cpu (hp.trans (List.prefix_append _ _))

theorem Spaced.last (h : Spaced (sent ++ [(cpu, true)])) : droppedSince cpu sent ≤ 2 ^ 31 - 1 :=
  h sent cpu (List.prefix_refl _)

namespace SeqTracker

variable {tracker : SeqTracker} {seq last : UInt32}

theorem note_first (h : tracker.last.lookup cpu = none) :
    (tracker.note cpu seq).1 = ⟨tracker.last.insert cpu seq, tracker.missed⟩ := by
  rw [note]
  split
  · rfl
  next hsome =>
    rw [h] at hsome
    cases hsome

theorem note_forward {gap : Nat} (h : tracker.last.lookup cpu = some last)
    (hseq : last + 1 + UInt32.ofNat gap = seq) (hgap : gap ≤ 2 ^ 31 - 1) (hmissed : tracker.missed ≤ u64Max) :
    (tracker.note cpu seq).1 = ⟨tracker.last.insert cpu seq, min (tracker.missed + gap) u64Max⟩ := by
  have hto : (UInt32.ofNat gap).toNat = gap := UInt32.toNat_ofNat_of_lt' (by rw [UInt32.size]; omega)
  have hdiff : seq - (last + 1) = UInt32.ofNat gap := by
    rw [← hseq, UInt32.add_comm (last + 1), UInt32.add_sub_cancel]
  rw [note]
  split
  next hnone =>
    rw [h] at hnone
    cases hnone
  next found hsome =>
    rw [h] at hsome
    obtain rfl := Option.some.inj hsome
    dsimp only
    split
    next heq =>
      have hzero : gap = 0 := by
        rw [← hto, ← hdiff, heq, UInt32.sub_self]
        rfl
      rw [hzero, Nat.add_zero, Nat.min_eq_left hmissed]
    next => rw [hdiff, hto, if_pos (by omega)]

end SeqTracker

/-- What the tracker knows after the delivered messages of a stream. -/
structure Tracks (start : UInt32 → UInt32) (sent : List Sent) (tracker : SeqTracker) : Prop where
  fresh : ∀ cpu, (cpu, true) ∉ sent → tracker.last.lookup cpu = none
  anchored : ∀ cpu, (cpu, true) ∈ sent → ∃ last, tracker.last.lookup cpu = some last ∧
    last + 1 + UInt32.ofNat (droppedSince cpu sent) = start cpu + UInt32.ofNat (countOf cpu sent)
  missed : tracker.missed = min (lostBetween sent) SeqTracker.u64Max

namespace Tracks

variable {tracker : SeqTracker}

theorem dropped (h : Tracks start sent tracker) (cpu : UInt32) : Tracks start (sent ++ [(cpu, false)]) tracker where
  fresh c hc := h.fresh c fun hmem => hc (List.mem_append_left _ hmem)
  anchored c hc := by
    have hmem : (c, true) ∈ sent := by simpa using hc
    obtain ⟨last, hlast, hseq⟩ := h.anchored c hmem
    refine ⟨last, hlast, ?_⟩
    by_cases hcpu : cpu = c
    · subst hcpu
      rw [droppedSince_dropped, if_pos hmem, countOf_concat, if_pos rfl, UInt32.ofNat_add, UInt32.ofNat_add,
        ← UInt32.add_assoc, hseq, UInt32.add_assoc]
    · rw [droppedSince_other sent false hcpu, countOf_concat, if_neg hcpu, Nat.add_zero, hseq]
  missed := by rw [h.missed, lostBetween_dropped]

theorem delivered (h : Tracks start sent tracker) (hspaced : droppedSince cpu sent ≤ 2 ^ 31 - 1) :
    Tracks start (sent ++ [(cpu, true)]) (tracker.note cpu (start cpu + UInt32.ofNat (countOf cpu sent))).1 := by
  have hnote : (tracker.note cpu (start cpu + UInt32.ofNat (countOf cpu sent))).1 =
      ⟨tracker.last.insert cpu (start cpu + UInt32.ofNat (countOf cpu sent)),
        min (lostBetween (sent ++ [(cpu, true)])) SeqTracker.u64Max⟩ := by
    rw [lostBetween_delivered]
    by_cases hseen : (cpu, true) ∈ sent
    · obtain ⟨last, hlast, hseq⟩ := h.anchored cpu hseen
      rw [SeqTracker.note_forward hlast hseq hspaced (h.missed ▸ Nat.min_le_right _ _), h.missed]
      congr 1
      omega
    · rw [SeqTracker.note_first (h.fresh cpu hseen), h.missed, droppedSince_of_not_mem hseen, Nat.add_zero]
  rw [hnote]
  refine ⟨fun c hc => ?_, fun c hc => ?_, rfl⟩
  · rw [List.mem_append, not_or, List.mem_singleton] at hc
    have hne : c ≠ cpu := fun heq => hc.2 (by rw [heq])
    rw [Table.lookup_insert_eq, if_neg hne, h.fresh c hc.1]
  · by_cases hcpu : c = cpu
    · subst hcpu
      refine ⟨_, by rw [Table.lookup_insert_eq, if_pos rfl], ?_⟩
      rw [droppedSince_delivered, countOf_concat, if_pos rfl, UInt32.ofNat_add, ← UInt32.add_assoc]
      exact UInt32.add_zero _
    · have hmem : (c, true) ∈ sent := by simpa [hcpu] using hc
      obtain ⟨last, hlast, hseq⟩ := h.anchored c hmem
      refine ⟨last, by rw [Table.lookup_insert_eq, if_neg hcpu, hlast], ?_⟩
      rw [droppedSince_other sent true (Ne.symm hcpu), countOf_concat, if_neg (Ne.symm hcpu), Nat.add_zero, hseq]

end Tracks

theorem tracks_delivered (start : UInt32 → UInt32) (hspaced : Spaced sent) :
    Tracks start sent (SeqTracker.noteAll {} (delivered start sent)) := by
  induction sent using List.reverseRecOn with
  | nil => exact ⟨fun _ _ => rfl, fun _ h => absurd h List.not_mem_nil, rfl⟩
  | append_singleton sent m ih =>
      obtain ⟨cpu, b⟩ := m
      have hrest := ih hspaced.init
      rw [delivered_concat]
      cases b with
      | false =>
          rw [if_neg (by simp), List.append_nil]
          exact hrest.dropped cpu
      | true =>
          rw [if_pos rfl, SeqTracker.noteAll, List.foldl_append]
          exact hrest.delivered hspaced.last

end Losses

section LossCount

variable {sent : List Sent} {cpu : UInt32}

/-- The total is exact as long as it fits its 64 bits, and then stays at their maximum. -/
theorem missed_eq_losses (start : UInt32 → UInt32) (hspaced : Spaced sent) :
    (SeqTracker.noteAll {} (delivered start sent)).missed = min (lostBetween sent) SeqTracker.u64Max :=
  (tracks_delivered start hspaced).missed

theorem spaced_of_length (h : sent.length ≤ 2 ^ 31) : Spaced sent := by
  intro earlier cpu hp
  have hle : droppedSince cpu earlier ≤ (placed earlier).length := List.countP_le_length
  have hlen := hp.length_le
  rw [List.length_append, List.length_singleton] at hlen
  rw [length_placed] at hle
  omega

/-- Two CPUs, one of whose counters wraps behind a dropped message. -/
def wrappingStream : List Sent := [(0, true), (1, false), (0, false), (1, true), (0, true), (0, false)]

theorem missed_eq_losses_wrappingStream :
    (SeqTracker.noteAll {} (delivered (fun cpu => if cpu = 0 then 0xffffffff else 7) wrappingStream)).missed = 1 :=
  missed_eq_losses _ (spaced_of_length (show wrappingStream.length ≤ 2 ^ 31 by decide))

theorem Spaced.concat (h : Spaced sent) {m : Sent}
    (hm : ∀ cpu, m = (cpu, true) → droppedSince cpu sent ≤ 2 ^ 31 - 1) : Spaced (sent ++ [m]) := by
  intro earlier cpu hp
  rcases List.prefix_concat_iff.mp hp with heq | hp
  · obtain ⟨rfl, hlast⟩ := List.append_inj' heq rfl
    exact hm cpu (List.singleton_inj.mp hlast).symm
  · exact h earlier cpu hp

def silence (cpu : UInt32) (n : Nat) : List Sent := List.replicate n (cpu, false)

theorem spaced_silence (h : Spaced sent) (cpu : UInt32) (n : Nat) : Spaced (sent ++ silence cpu n) := by
  induction n with
  | zero => simpa [silence] using h
  | succ n ih =>
      rw [silence, List.replicate_succ', ← List.append_assoc]
      exact ih.concat fun c hc => nomatch hc

theorem lostBetween_silence (sent : List Sent) (cpu : UInt32) (n : Nat) :
    lostBetween (sent ++ silence cpu n) = lostBetween sent := by
  induction n with
  | zero => simp [silence]
  | succ n ih =>
      rw [silence, List.replicate_succ', ← List.append_assoc, lostBetween_dropped]
      exact ih

theorem droppedSince_silence (hmem : (cpu, true) ∈ sent) (n : Nat) :
    droppedSince cpu (sent ++ silence cpu n) = droppedSince cpu sent + n := by
  induction n with
  | zero => simp [silence]
  | succ n ih =>
      rw [silence, List.replicate_succ', ← List.append_assoc, droppedSince_dropped,
        if_pos (List.mem_append_left _ hmem), ← Nat.add_assoc]
      exact congrArg (· + 1) ih

/-- One CPU that is silent for as long as is allowed, again and again. -/
def outages : Nat → List Sent
  | 0 => [(0, true)]
  | n + 1 => outages n ++ silence 0 (2 ^ 31 - 1) ++ [(0, true)]

theorem mem_outages (n : Nat) : ((0, true) : Sent) ∈ outages n := by
  cases n with
  | zero => exact List.mem_singleton.mpr rfl
  | succ n => exact List.mem_append_right _ (List.mem_singleton.mpr rfl)

theorem droppedSince_outages (n : Nat) : droppedSince 0 (outages n) = 0 := by
  cases n with
  | zero => exact droppedSince_delivered [] 0
  | succ n => exact droppedSince_delivered _ 0

theorem spaced_outages (n : Nat) : Spaced (outages n) := by
  induction n with
  | zero => exact spaced_of_length (by decide)
  | succ n ih =>
      refine (spaced_silence ih 0 _).concat fun c hc => ?_
      obtain rfl : 0 = c := congrArg Prod.fst hc
      rw [droppedSince_silence (mem_outages n), droppedSince_outages, Nat.zero_add]

theorem lostBetween_outages (n : Nat) : lostBetween (outages n) = n * (2 ^ 31 - 1) := by
  induction n with
  | zero => rw [Nat.zero_mul]; rfl
  | succ n ih =>
      rw [outages, lostBetween_delivered, lostBetween_silence, droppedSince_silence (mem_outages n),
        droppedSince_outages, ih, Nat.zero_add, Nat.succ_mul]

/-- Past the 64 bits the total says less than was lost. -/
theorem losses_saturate :
    Spaced (outages (2 ^ 34)) ∧
      (SeqTracker.noteAll {} (delivered (fun _ => 0) (outages (2 ^ 34)))).missed <
        lostBetween (outages (2 ^ 34)) := by
  have hspaced := spaced_outages (2 ^ 34)
  have hmissed := (tracks_delivered (fun _ => 0) hspaced).missed
  have hlost := lostBetween_outages (2 ^ 34)
  refine ⟨hspaced, ?_⟩
  rw [hmissed, hlost, SeqTracker.u64Max]
  decide

end LossCount

end RichPresence.ProcEvents
