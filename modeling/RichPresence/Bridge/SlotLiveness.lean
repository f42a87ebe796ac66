import Mathlib.Data.List.TakeWhile
import RichPresence.Bridge.StateFile

namespace RichPresence

def persistInterval : Nat := 5

def refreshInterval : Nat := 30

/-- What concerns the snapshot in the life of a bridge. A write takes the activities
of the moment; the flag is set by every broadcast and by every refresh, also when
there is nothing to send. -/
inductive BridgeTick
  | broadcast
  | refresh
  | persist (activities : List StateActivity)

def BridgeTick.isPersist : BridgeTick → Bool
  | persist _ => true
  | _ => false

def BridgeTick.isRefresh : BridgeTick → Bool
  | refresh => true
  | _ => false

/-- The part of a bridge that keeps its slot: what it stamps on a snapshot, the flag
and the file in the slot. -/
structure SlotKeeper where
  appVersion : String
  servers : StateServers
  dirty : Bool
  file : SlotFile

namespace SlotKeeper

def persistNow (nowSecs : Nat) (activities : List StateActivity) (k : SlotKeeper) : SlotKeeper :=
  { k with file := .parsed (StateSnapshot.new (1000 * nowSecs) k.appVersion k.servers activities).toValue }

def tick (nowSecs : Nat) (k : SlotKeeper) : BridgeTick → SlotKeeper
  | .broadcast | .refresh => { k with dirty := true }
  | .persist activities => if k.dirty then { k with dirty := false }.persistNow nowSecs activities else k

/-- A bridge that has just been bound: the flag is set, and the empty presence is
written at once. -/
def bound (bindSecs : Nat) (appVersion : String) (servers : StateServers) : SlotKeeper :=
  SlotKeeper.persistNow bindSecs [] ⟨appVersion, servers, true, .missing⟩

end SlotKeeper

/-- What happens in each second after bind, in order. The first tick of the persist
timer, which is immediate, is skipped; the refresh timer may be at any phase. -/
structure Timetable where
  ticks : Nat → List BridgeTick
  phase : Nat
  persists : ∀ k, (ticks k).countP BridgeTick.isPersist = if 0 < k ∧ k % persistInterval = 0 then 1 else 0
  refreshes : ∀ k, (ticks k).countP BridgeTick.isRefresh = if k % refreshInterval = phase then 1 else 0

structure Bridging where
  bindSecs : Nat
  appVersion : String
  servers : StateServers
  table : Timetable

namespace Bridging

variable (b : Bridging)

/-- The slot at the beginning of a second after bind. -/
def opening : Nat → SlotKeeper
  | 0 => .bound b.bindSecs b.appVersion b.servers
  | k + 1 => (b.table.ticks k).foldl (SlotKeeper.tick (b.bindSecs + k)) (opening k)

def during (k : Nat) (pre : List BridgeTick) : SlotKeeper :=
  pre.foldl (SlotKeeper.tick (b.bindSecs + k)) (b.opening k)

def flagAt (k : Nat) : Bool := (b.during k ((b.table.ticks k).takeWhile fun t => !t.isPersist)).dirty

def Persists (k : Nat) : Prop := 0 < k ∧ k % persistInterval = 0 ∧ b.flagAt k = true

instance (k : Nat) : Decidable (b.Persists k) := inferInstanceAs (Decidable (_ ∧ _))

def lastWrite : Nat → Nat
  | 0 => 0
  | k + 1 => if b.Persists k then k else lastWrite k

end Bridging

def SlotFile.WrittenAt (secs : Nat) (file : SlotFile) : Prop :=
  ∃ appVersion servers activities,
    file = .parsed (StateSnapshot.new (1000 * secs) appVersion servers activities).toValue

theorem SlotFile.WrittenAt.reusable {file : SlotFile} {written nowSecs : Nat} (h : file.WrittenAt written)
    (hfit : 1000 * written < 2 ^ 63) : slotReusable file nowSecs = decide (stateStaleSecs < nowSecs - written) := by
  obtain ⟨appVersion, servers, activities, rfl⟩ := h
  exact slotReusable_written appVersion servers activities hfit

namespace SlotKeeper

variable {nowSecs : Nat}

theorem tick_file (k : SlotKeeper) (nowSecs : Nat) (t : BridgeTick) :
    (k.tick nowSecs t).file = k.file ∨ (k.tick nowSecs t).file.WrittenAt nowSecs := by
  cases t with
  | broadcast | refresh => exact .inl rfl
  | persist activities =>
      rw [tick]
      split
      · exact .inr ⟨_, _, _, rfl⟩
      · exact .inl rfl

theorem ticks_file (k : SlotKeeper) (nowSecs : Nat) (ts : List BridgeTick) :
    (ts.foldl (tick nowSecs) k).file = k.file ∨ (ts.foldl (tick nowSecs) k).file.WrittenAt nowSecs := by
  induction ts generalizing k with
  | nil => exact .inl rfl
  | cons t ts ih =>
      rcases ih (k.tick nowSecs t) with h | h
      · rcases k.tick_file nowSecs t with h' | h'
        · exact .inl (h.trans h')
        · exact .inr (h ▸ h')
      · exact .inr h

theorem quiet_file (k : SlotKeeper) {ts : List BridgeTick} (h : ∀ t ∈ ts, t.isPersist = false) :
    (ts.foldl (tick nowSecs) k).file = k.file := by
  induction ts generalizing k with
  | nil => rfl
  | cons t ts ih =>
      rw [List.forall_mem_cons] at h
      rw [List.foldl_cons, ih _ h.2]
      cases t with
      | broadcast | refresh => rfl
      | persist activities => cases h.1

end SlotKeeper

theorem split_at_persist {ts : List BridgeTick} (h : ts.countP BridgeTick.isPersist = 1) : ∃ activities post,
    ts = ts.takeWhile (fun t => !t.isPersist) ++ .persist activities :: post ∧ ∀ t ∈ post, t.isPersist = false := by
  induction ts with
  | nil => cases h
  | cons t ts ih =>
      cases t with
      | persist activities =>
          rw [List.countP_cons_of_pos rfl, Nat.add_eq_right, List.countP_eq_zero] at h
          exact ⟨activities, ts, rfl, fun t ht => by simpa using h t ht⟩
      | broadcast =>
          rw [List.countP_cons_of_neg (by simp [BridgeTick.isPersist])] at h
          obtain ⟨activities, post, hts, hpost⟩ := ih h
          exact ⟨activities, post, congrArg (BridgeTick.broadcast :: ·) hts, hpost⟩
      | refresh =>
          rw [List.countP_cons_of_neg (by simp [BridgeTick.isPersist])] at h
          obtain ⟨activities, post, hts, hpost⟩ := ih h
          exact ⟨activities, post, congrArg (BridgeTick.refresh :: ·) hts, hpost⟩

namespace Bridging

variable {b : Bridging} {k : Nat}

theorem opening_quiet (h : ¬(0 < k ∧ k % persistInterval = 0)) : (b.opening (k + 1)).file = (b.opening k).file := by
  have hcount := b.table.persists k
  rw [if_neg h, List.countP_eq_zero] at hcount
  exact SlotKeeper.quiet_file _ fun t ht => by simpa using hcount t ht

theorem opening_persist (h : 0 < k ∧ k % persistInterval = 0) :
    if b.flagAt k then (b.opening (k + 1)).file.WrittenAt (b.bindSecs + k)
    else (b.opening (k + 1)).file = (b.opening k).file := by
  have hcount := b.table.persists k
  rw [if_pos h] at hcount
  obtain ⟨activities, post, hts, hpost⟩ := split_at_persist hcount
  have hbefore : (b.during k ((b.table.ticks k).takeWhile fun t => !t.isPersist)).file = (b.opening k).file :=
    SlotKeeper.quiet_file _ fun t ht => by simpa using List.mem_takeWhile_imp ht
  have hafter : (b.opening (k + 1)).file =
      ((b.during k ((b.table.ticks k).takeWhile fun t => !t.isPersist)).tick (b.bindSecs + k)
        (.persist activities)).file := by
    have hfold : b.opening (k + 1) = ((b.table.ticks k).takeWhile (fun t => !t.isPersist) ++
        .persist activities :: post).foldl (SlotKeeper.tick (b.bindSecs + k)) (b.opening k) := by
      rw [← hts]
      rfl
    rw [hfold, List.foldl_append, List.foldl_cons, SlotKeeper.quiet_file _ hpost]
    rfl
  rw [hafter, SlotKeeper.tick, flagAt]
  split
  next => exact ⟨_, _, _, rfl⟩
  next => exact hbefore

theorem opening_written (b : Bridging) (k : Nat) : (b.opening k).file.WrittenAt (b.bindSecs + b.lastWrite k) := by
  induction k with
  | zero => exact ⟨_, _, _, rfl⟩
  | succ k ih =>
      rw [lastWrite]
      by_cases hk : 0 < k ∧ k % persistInterval = 0
      · have hpersist := @opening_persist b k hk
        cases hflag : b.flagAt k with
        | true =>
            rw [if_pos ⟨hk.1, hk.2, hflag⟩]
            rwa [if_pos hflag] at hpersist
        | false =>
            rw [if_neg fun h => Bool.false_ne_true (hflag.symm.trans h.2.2)]
            rw [if_neg (by simp [hflag])] at hpersist
            rwa [hpersist]
      · rw [if_neg fun h => hk ⟨h.1, h.2.1⟩, opening_quiet hk]
        exact ih

theorem lastWrite_spec (b : Bridging) (k : Nat) :
    b.lastWrite k % 5 = 0 ∧ (b.lastWrite k < k ∨ b.lastWrite k = 0) := by
  induction k with
  | zero => exact ⟨rfl, .inr rfl⟩
  | succ k ih =>
      rw [lastWrite]
      split
      next hp => exact ⟨hp.2.1, .inl (Nat.lt_succ_self k)⟩
      next => omega

theorem lastWrite_persist (h : b.Persists k) : b.lastWrite (k + 1) = k := if_pos h

theorem lastWrite_skip (h : ¬b.Persists k) : b.lastWrite (k + 1) = b.lastWrite k := if_neg h

theorem lastWrite_mono (b : Bridging) {k m : Nat} (h : k ≤ m) : b.lastWrite k ≤ b.lastWrite m := by
  induction h with
  | refl => exact Nat.le_refl _
  | @step m _ ih =>
      by_cases hp : b.Persists m
      · have hspec := b.lastWrite_spec m
        rw [lastWrite_persist hp]
        omega
      · rw [lastWrite_skip hp]
        exact ih

theorem lastWrite_between (hmod : k % 5 = 0) {i : Nat} (hi : i < 5) :
    b.lastWrite (k + 1 + i) = b.lastWrite (k + 1) := by
  induction i with
  | zero => rfl
  | succ i ih =>
      have hskip : ¬b.Persists (k + 1 + i) := by
        intro hp
        have hm : (k + 1 + i) % 5 = 0 := hp.2.1
        omega
      exact (lastWrite_skip hskip).trans (ih (by omega))

/-- Gaps between writes stay within ten seconds exactly when the timer never finds
the flag clear twice in a row. -/
theorem gaps_iff (b : Bridging) (n : Nat) : (∀ k ≤ n, k - b.lastWrite k ≤ 10) ↔
    ∀ k, 0 < k → k % persistInterval = 0 → k + 6 ≤ n → b.flagAt k = true ∨ b.flagAt (k + 5) = true := by
  constructor
  · intro h k hpos hmod hle
    by_contra hflags
    rw [not_or] at hflags
    have hlast : b.lastWrite (k + 6) = b.lastWrite k :=
      calc b.lastWrite (k + 6) = b.lastWrite (k + 1 + 4) := lastWrite_skip fun hp => hflags.2 hp.2.2
        _ = b.lastWrite (k + 1) := lastWrite_between hmod (by decide)
        _ = b.lastWrite k := lastWrite_skip fun hp => hflags.1 hp.2.2
    have hspec := b.lastWrite_spec k
    have hgap := h (k + 6) hle
    rw [persistInterval] at hmod
    omega
  · intro h k hle
    by_cases hten : k ≤ 10
    · omega
    -- the last two persist ticks before the second
    · obtain ⟨m, hm, hlt, hk⟩ : ∃ m, m % 5 = 0 ∧ m + 5 < k ∧ k ≤ m + 10 :=
        ⟨(k - 1) / 5 * 5 - 5, by omega, by omega, by omega⟩
      have hwritten : m ≤ b.lastWrite k := by
        rcases h m (by omega) hm (by omega) with hflag | hflag
        · rw [← lastWrite_persist ⟨by omega, hm, hflag⟩]
          exact b.lastWrite_mono (by omega)
        · have hmod : (m + 5) % persistInterval = 0 := by rw [persistInterval]; omega
          have hlast := b.lastWrite_mono (show m + 5 + 1 ≤ k by omega)
          rw [lastWrite_persist ⟨by omega, hmod, hflag⟩] at hlast
          omega
      omega

/-- The slot of a running bridge is fresh in every second up to the horizon, before
and after every tick, and no daemon that looks for a slot then takes it. -/
def NeverLooksStale (b : Bridging) (n : Nat) : Prop :=
  ∀ k ≤ n, ∀ pre, pre <+: b.table.ticks k →
    slotReusable (b.during k pre).file (b.bindSecs + k) = false ∧
      ∀ dir slot, dir slot = (b.during k pre).file → selectSlot dir (b.bindSecs + k) ≠ some slot

theorem neverLooksStale_iff_gaps {n : Nat} (hclock : 1000 * (b.bindSecs + n) < 2 ^ 63) :
    b.NeverLooksStale n ↔ ∀ k ≤ n, k - b.lastWrite k ≤ 10 := by
  have hreusable : ∀ k ≤ n, slotReusable (b.opening k).file (b.bindSecs + k) = decide (10 < k - b.lastWrite k) := by
    intro k hk
    have hspec := b.lastWrite_spec k
    rw [(b.opening_written k).reusable (by omega), stateStaleSecs]
    congr 1
    rw [Nat.add_sub_add_left]
  constructor
  · intro h k hk
    have hfresh := (h k hk [] List.nil_prefix).1
    rw [during, List.foldl_nil, hreusable k hk] at hfresh
    exact Nat.not_lt.mp (of_decide_eq_false hfresh)
  · intro h k hk pre hpre
    have hfresh : slotReusable (b.during k pre).file (b.bindSecs + k) = false := by
      rcases (b.opening k).ticks_file (b.bindSecs + k) pre with hfile | hfile
      · rw [during, hfile, hreusable k hk]
        exact decide_eq_false (Nat.not_lt.mpr (h k hk))
      · rw [during, hfile.reusable (by omega), Nat.sub_self]
        rfl
    exact ⟨hfresh, fun dir slot hdir => selectSlot_ne (hdir ▸ hfresh)⟩

/-- As long as the clock fits its format, a running bridge never looks stale exactly
when the persist timer never finds the flag clear twice in a row. -/
theorem live_slot_fresh_iff (b : Bridging) (n : Nat) (hclock : 1000 * (b.bindSecs + n) < 2 ^ 63) :
    b.NeverLooksStale n ↔
      ∀ k, 0 < k → k % persistInterval = 0 → k + 6 ≤ n → b.flagAt k = true ∨ b.flagAt (k + 5) = true :=
  (neverLooksStale_iff_gaps hclock).trans (b.gaps_iff n)

end Bridging

/-- The timers, and as many broadcasts in every second. -/
def Timetable.steady (broadcasts : Nat) : Timetable where
  ticks k := .replicate broadcasts .broadcast ++ (if k % refreshInterval = 0 then [.refresh] else []) ++
    (if 0 < k ∧ k % persistInterval = 0 then [.persist []] else [])
  phase := 0
  persists k := by
    rw [List.countP_append, List.countP_append, List.countP_replicate, if_neg (by simp [BridgeTick.isPersist])]
    split <;> split <;> simp [BridgeTick.isPersist]
  refreshes k := by
    rw [List.countP_append, List.countP_append, List.countP_replicate, if_neg (by simp [BridgeTick.isRefresh])]
    split <;> split <;> simp [BridgeTick.isRefresh]

def Bridging.sample (broadcasts : Nat) : Bridging := ⟨1763200000, "0.1.0", {}, .steady broadcasts⟩

theorem busy_slot_fresh : 1000 * (1763200000 + 60) < 2 ^ 63 ∧ (Bridging.sample 1).NeverLooksStale 60 := by
  have hflag : ∀ k, (Bridging.sample 1).flagAt k = true := by
    intro k
    simp only [Bridging.flagAt, Bridging.during, Bridging.sample, Timetable.steady]
    split <;> split <;> simp [BridgeTick.isPersist, SlotKeeper.tick]
  exact ⟨by decide, (Bridging.live_slot_fresh_iff _ 60 (by decide)).mpr fun k _ _ _ => .inl (hflag k)⟩

/-- Nothing happens on the bridge: the snapshot of second 5 stands until second 30,
and from second 16 on another daemon takes the slot. -/
theorem idle_slot_looks_stale :
    slotReusable ((Bridging.sample 0).opening 15).file (1763200000 + 15) = false ∧
      slotReusable ((Bridging.sample 0).opening 16).file (1763200000 + 16) = true ∧
      selectSlot (fun _ => ((Bridging.sample 0).opening 16).file) (1763200000 + 16) = some 0 ∧
      ¬(Bridging.sample 0).NeverLooksStale 16 := by
  refine ⟨by decide +kernel, by decide +kernel, by decide +kernel, fun h => ?_⟩
  have hfresh := (h 16 (Nat.le_refl 16) [] List.nil_prefix).1
  revert hfresh
  decide +kernel

end RichPresence
