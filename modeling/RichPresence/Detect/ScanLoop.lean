import RichPresence.Detect.Sightings

namespace RichPresence.Detect

open Lib

section Cadence

/-- A length of time in nanoseconds. The seconds in it fit a machine word. -/
structure Duration where
  nanos : Nat
  fits : nanos < 2 ^ 64 * 10 ^ 9
  deriving DecidableEq, Repr

namespace Duration

theorem nanos_injective : Function.Injective nanos := by
  rintro ⟨a, _⟩ ⟨b, _⟩ rfl
  rfl

instance : LinearOrder Duration := LinearOrder.lift' nanos nanos_injective

theorem le_iff {a b : Duration} : a ≤ b ↔ a.nanos ≤ b.nanos := Iff.rfl

theorem nanos_min (a b : Duration) : (min a b).nanos = min a.nanos b.nanos := by
  rcases le_total a b with h | h
  · rw [min_eq_left h, min_eq_left (le_iff.mp h)]
  · rw [min_eq_right h, min_eq_right (le_iff.mp h)]

def ofSecs (secs : Nat) (h : secs < 2 ^ 64) : Duration := ⟨secs * 10 ^ 9, Nat.mul_lt_mul_of_pos_right h (by decide)⟩

def checkedMul (d : Duration) (k : Nat) : Option Duration :=
  if h : d.nanos * k < 2 ^ 64 * 10 ^ 9 then some ⟨d.nanos * k, h⟩ else none

end Duration

open Duration

def maxBackoff : Duration := ofSecs 30 (by decide)

def idleWait (base : Duration) (idleTicks : Nat) : Duration :=
  min ((base.checkedMul (1 <<< min idleTicks 4)).getD maxBackoff) maxBackoff

/-- Without the watcher nothing would end a longer wait early. -/
def scanCadence (base : Duration) (idleTicks : Nat) (watcherLive : Bool) : Duration :=
  if watcherLive then idleWait base idleTicks else base

variable {base : Duration}

theorem nanos_idleWait (base : Duration) (idleTicks : Nat) :
    (idleWait base idleTicks).nanos = min (base.nanos * 2 ^ min idleTicks 4) maxBackoff.nanos := by
  rw [idleWait, nanos_min, Nat.one_shiftLeft, checkedMul]
  split
  next => rfl
  next hout =>
    have hcap : maxBackoff.nanos ≤ base.nanos * 2 ^ min idleTicks 4 :=
      Nat.le_trans (Nat.le_of_lt maxBackoff.fits) (Nat.le_of_not_lt hout)
    rw [Option.getD_none, min_self, min_eq_right hcap]

theorem idleWait_mono (base : Duration) {i j : Nat} (h : i ≤ j) : idleWait base i ≤ idleWait base j := by
  rw [le_iff, nanos_idleWait, nanos_idleWait]
  have hpow : 2 ^ min i 4 ≤ 2 ^ min j 4 := Nat.pow_le_pow_right (by decide) (min_le_min_right 4 h)
  exact min_le_min_right _ (Nat.mul_le_mul_left _ hpow)

theorem idleWait_le (base : Duration) (idleTicks : Nat) : idleWait base idleTicks ≤ maxBackoff := min_le_right ..

theorem le_idleWait_iff (idleTicks : Nat) : base ≤ idleWait base idleTicks ↔ base ≤ maxBackoff := by
  rw [le_iff, nanos_idleWait, Nat.le_min]
  have hstretch : base.nanos ≤ base.nanos * 2 ^ min idleTicks 4 := Nat.le_mul_of_pos_right _ (Nat.two_pow_pos _)
  exact ⟨fun h => h.2, fun h => ⟨hstretch, h⟩⟩

theorem idleWait_le_first_iff {idleTicks : Nat} : idleWait base (idleTicks + 1) ≤ idleWait base 1 ↔
    idleTicks = 0 ∨ base.nanos = 0 ∨ maxBackoff.nanos ≤ base.nanos * 2 := by
  cases idleTicks with
  | zero => exact iff_of_true (le_refl _) (.inl rfl)
  | succ idleTicks =>
      have hpow : 2 ^ 2 ≤ 2 ^ min (idleTicks + 1 + 1) 4 := Nat.pow_le_pow_right (by decide) (by omega)
      have hlong : base.nanos * 4 ≤ base.nanos * 2 ^ min (idleTicks + 1 + 1) 4 := Nat.mul_le_mul_left _ hpow
      have hzero : base.nanos = 0 → base.nanos * 2 ^ min (idleTicks + 1 + 1) 4 = 0 := by
        intro h
        rw [h, Nat.zero_mul]
      rw [le_iff, nanos_idleWait, nanos_idleWait, show 2 ^ min 1 4 = 2 from rfl]
      generalize base.nanos * 2 ^ min (idleTicks + 1 + 1) 4 = later at hlong hzero ⊢
      generalize maxBackoff.nanos = cap
      omega

end Cadence

def applyIgnoreList (ignoredIds : Finset String) (detected : List ScannedHit) : List ScannedHit :=
  if ignoredIds = ∅ then detected else detected.filter fun game => game.idText ∉ ignoredIds

/-- What the loop is started with. A wait that ends before nine tenths of it have passed, in single
precision, counts as woken early. -/
structure ScanSettings where
  base : Duration
  ignoredIds : Finset String := ∅
  nineTenths : Duration → Duration

structure ScanLoop where
  idleTicks : Nat := 0
  seenIds : Finset String := ∅
  lane : Lane := {}
  detectedPids : List Nat := []
  stopped : Bool := false

/-- What a turn of the loop meets: a shutdown at one of its three checks, a scan that may fail, an EXEC
publication since the last turn, the channel to the bridge, the watcher, and how long it waits. -/
structure ScanTurn where
  shutdownAtHead : Bool := false
  shutdownBeforeWait : Bool := false
  shutdownAfterWait : Bool := false
  scan : Option (List ScannedHit)
  execPublished : Bool := false
  channel : Nat → SendChecked
  watcherLive : Bool
  elapsed : Duration

/-- What a turn does outside the loop: the games it announces, the events the channel takes, and the
wait it chooses. -/
structure ScanOutcome where
  announced : List ScannedHit := []
  events : List ProcessDetectedEvent := []
  wait : Option Duration := none

/-- An empty tick counts up to the largest number of its type. -/
def nextIdleTicks (idleTicks : Nat) (detected : List ScannedHit) : Nat :=
  if detected.isEmpty then min (idleTicks + 1) (2 ^ 32 - 1) else 0

namespace ScanLoop

variable (settings : ScanSettings)

def markedLane (s : ScanLoop) (t : ScanTurn) : Lane :=
  { s.lane with scanDirty := s.lane.scanDirty || t.execPublished }

def turn (s : ScanLoop) (t : ScanTurn) : ScanOutcome × ScanLoop :=
  if s.stopped then ({}, s)
  else if t.shutdownAtHead then ({}, { s with stopped := true })
  else
    match t.scan with
    | none => ({ wait := some settings.base }, { s with lane := s.markedLane t })
    | some hits =>
        let detected := applyIgnoreList settings.ignoredIds hits
        let (seenIds, announced) := firstSightings s.seenIds detected
        let (delivery, lane) := (s.markedLane t).tick detected t.channel
        let s := { s with seenIds, lane, detectedPids := detected.map ScannedHit.pid }
        if delivery.1 = .closed then ({ announced, events := delivery.2 }, { s with stopped := true })
        else
          let idleTicks := nextIdleTicks s.idleTicks detected
          let cadence := scanCadence settings.base idleTicks t.watcherLive
          let outcome := { announced, events := delivery.2, wait := some cadence }
          if t.shutdownBeforeWait || t.shutdownAfterWait then (outcome, { s with idleTicks, stopped := true })
          else
            (outcome, { s with idleTicks := if t.elapsed < settings.nineTenths cadence then 0 else idleTicks })

def step (s : ScanLoop) (t : ScanTurn) : ScanLoop := (turn settings s t).2

def run (turns : List ScanTurn) : ScanLoop := turns.foldl (step settings) {}

def waits (s : ScanLoop) : List ScanTurn → List Duration
  | [] => []
  | t :: turns => (turn settings s t).1.wait.toList ++ waits (step settings s t) turns

def scanned (s : ScanLoop) (t : ScanTurn) : Option (List ScannedHit) :=
  if s.stopped || t.shutdownAtHead then none else t.scan.map (applyIgnoreList settings.ignoredIds)

/-- The turn gets as far as choosing a wait by what it detects. -/
def Ticks (s : ScanLoop) (t : ScanTurn) (detected : List ScannedHit) : Prop :=
  scanned settings s t = some detected ∧ ((s.markedLane t).tick detected t.channel).1.1 ≠ .closed

variable {settings} {s : ScanLoop} {t : ScanTurn} {detected : List ScannedHit}

theorem scanned_eq_some : scanned settings s t = some detected ↔
    s.stopped = false ∧ t.shutdownAtHead = false ∧
      ∃ hits, t.scan = some hits ∧ applyIgnoreList settings.ignoredIds hits = detected := by
  rw [scanned]
  split
  next h =>
    rw [Bool.or_eq_true] at h
    constructor
    · nofun
    · rintro ⟨hrun, hhead, -⟩
      rw [hrun, hhead] at h
      exact absurd h (by decide)
  next h =>
    rw [Bool.not_eq_true, Bool.or_eq_false_iff] at h
    rw [Option.map_eq_some_iff]
    exact ⟨fun hscan => ⟨h.1, h.2, hscan⟩, fun hscan => hscan.2.2⟩

theorem turn_of_ticks (h : Ticks settings s t detected) :
    (turn settings s t).1.wait =
      some (scanCadence settings.base (nextIdleTicks s.idleTicks detected) t.watcherLive) ∧
    ((step settings s t).stopped = false → (step settings s t).idleTicks =
      if t.elapsed < settings.nineTenths
          (scanCadence settings.base (nextIdleTicks s.idleTicks detected) t.watcherLive) then 0
      else nextIdleTicks s.idleTicks detected) := by
  obtain ⟨hscanned, hdelivered⟩ := h
  obtain ⟨hrun, hhead, hits, hscan, rfl⟩ := scanned_eq_some.mp hscanned
  rw [step, turn, hrun, hhead, hscan]
  simp only [Bool.false_eq_true, if_false, if_neg hdelivered]
  split
  next => exact ⟨rfl, nofun⟩
  next => exact ⟨rfl, fun _ => rfl⟩

theorem wait_of_not_ticks (h : ∀ detected, ¬Ticks settings s t detected) :
    ∀ w ∈ (turn settings s t).1.wait, w = settings.base := by
  intro w hw
  rw [turn] at hw
  split at hw
  next => cases hw
  next hrun =>
    split at hw
    next => cases hw
    next hhead =>
      rw [Bool.not_eq_true] at hrun hhead
      cases hscan : t.scan with
      | none =>
          rw [hscan] at hw
          exact (Option.some.inj hw).symm
      | some hits =>
          have hclosed :
              ((s.markedLane t).tick (applyIgnoreList settings.ignoredIds hits) t.channel).1.1 = .closed := by
            by_contra hopen
            exact h _ ⟨scanned_eq_some.mpr ⟨hrun, hhead, hits, hscan, rfl⟩, hopen⟩
          rw [hscan] at hw
          simp only [if_pos hclosed] at hw
          cases hw

theorem forall_waits_iff {P : Duration → Prop} {turns : List ScanTurn} :
    (∀ w ∈ waits settings s turns, P w) ↔
      Along (step settings) (fun s t => ∀ w ∈ (turn settings s t).1.wait, P w) s turns := by
  induction turns generalizing s with
  | nil => exact iff_of_true nofun trivial
  | cons t turns ih =>
      rw [waits, List.forall_mem_append, ih]
      simp only [Option.mem_toList]
      rfl

variable (settings) in
/-- No wait of the turn is chosen while the watcher is live. -/
def Polls (s : ScanLoop) (t : ScanTurn) : Prop := ∀ detected, Ticks settings s t detected → t.watcherLive = false

theorem inRange_iff :
    (∀ w ∈ (turn settings s t).1.wait, settings.base ≤ w ∧ w ≤ max settings.base maxBackoff) ↔
      settings.base ≤ maxBackoff ∨ Polls settings s t := by
  by_cases hticks : ∃ detected, Ticks settings s t detected
  · obtain ⟨detected, hticks⟩ := hticks
    rw [(turn_of_ticks hticks).1]
    cases hlive : t.watcherLive with
    | false =>
        refine iff_of_true (fun w hw => ?_) (.inr fun _ _ => hlive)
        obtain rfl := Option.some.inj hw
        exact ⟨le_refl _, le_max_left _ _⟩
    | true =>
        have hpolls : ¬Polls settings s t := fun h => absurd (h detected hticks) (by rw [hlive]; decide)
        rw [or_iff_left hpolls, scanCadence, if_pos rfl, ← le_idleWait_iff (nextIdleTicks s.idleTicks detected)]
        constructor
        · exact fun h => (h _ rfl).1
        · intro h w hw
          obtain rfl := Option.some.inj hw
          exact ⟨h, le_max_of_le_right (idleWait_le _ _)⟩
  · rw [not_exists] at hticks
    refine iff_of_true (fun w hw => ?_) (.inr fun detected h => absurd h (hticks detected))
    rw [wait_of_not_ticks hticks w hw]
    exact ⟨le_refl _, le_max_left _ _⟩

theorem waits_inRange_iff {turns : List ScanTurn} :
    (∀ w ∈ waits settings s turns, settings.base ≤ w ∧ w ≤ max settings.base maxBackoff) ↔
      settings.base ≤ maxBackoff ∨ Along (step settings) (Polls settings) s turns := by
  rw [forall_waits_iff]
  constructor
  · intro h
    by_cases hbase : settings.base ≤ maxBackoff
    · exact .inl hbase
    · exact .inr (h.imp fun s t hw => (inRange_iff.mp hw).resolve_left hbase)
  · rintro (hbase | h)
    · exact Along.iff_forall.mpr fun _ _ _ => inRange_iff.mpr (.inl hbase)
    · exact h.imp fun s t hpolls => inRange_iff.mpr (.inr hpolls)

variable (settings) in
def Idles (s : ScanLoop) (t : ScanTurn) : Prop := Ticks settings s t [] ∧ t.watcherLive = true

variable (settings) in
def WokenEarly (s : ScanLoop) (t : ScanTurn) : Prop :=
  ∀ w ∈ (turn settings s t).1.wait, t.elapsed < settings.nineTenths w

theorem nextIdleTicks_nil (idleTicks : Nat) : nextIdleTicks idleTicks [] = min idleTicks (2 ^ 32 - 2) + 1 := by
  change min (idleTicks + 1) (2 ^ 32 - 1) = _
  omega

theorem Idles.wait_eq (h : Idles settings s t) :
    (turn settings s t).1.wait = some (idleWait settings.base (min s.idleTicks (2 ^ 32 - 2) + 1)) := by
  rw [(turn_of_ticks h.1).1, h.2, nextIdleTicks_nil]
  rfl

theorem Idles.wokenEarly_iff (h : Idles settings s t) : WokenEarly settings s t ↔
    t.elapsed < settings.nineTenths (idleWait settings.base (min s.idleTicks (2 ^ 32 - 2) + 1)) := by
  rw [WokenEarly, h.wait_eq]
  exact ⟨fun h => h _ rfl, fun h w hw => Option.some.inj hw ▸ h⟩

theorem Idles.idleTicks_step (h : Idles settings s t) (hrun : (step settings s t).stopped = false)
    [Decidable (WokenEarly settings s t)] :
    (step settings s t).idleTicks = if WokenEarly settings s t then 0 else min s.idleTicks (2 ^ 32 - 2) + 1 := by
  rw [(turn_of_ticks h.1).2 hrun, h.2, nextIdleTicks_nil]
  exact if_congr h.wokenEarly_iff.symm rfl rfl

/-- Between two empty ticks the wait grows, or stays at the cap, unless the loop was woken early from
a wait that had grown already. -/
theorem Idles.le_iff {t' : ScanTurn} (h : Idles settings s t) (h' : Idles settings (step settings s t) t') :
    (∀ w ∈ (turn settings s t).1.wait, ∀ w' ∈ (turn settings (step settings s t) t').1.wait, w ≤ w') ↔
      (WokenEarly settings s t → s.idleTicks = 0 ∨ settings.base.nanos = 0 ∨
        maxBackoff.nanos ≤ settings.base.nanos * 2) := by
  classical
  have hrun : (step settings s t).stopped = false := (scanned_eq_some.mp h'.1.1).1
  have hwaits : (∀ w ∈ (turn settings s t).1.wait, ∀ w' ∈ (turn settings (step settings s t) t').1.wait, w ≤ w') ↔
      idleWait settings.base (min s.idleTicks (2 ^ 32 - 2) + 1) ≤
        idleWait settings.base (min (step settings s t).idleTicks (2 ^ 32 - 2) + 1) := by
    rw [h.wait_eq, h'.wait_eq]
    constructor
    · exact fun hle => hle _ rfl _ rfl
    · rintro hle w hw w' hw'
      obtain rfl := Option.some.inj hw
      obtain rfl := Option.some.inj hw'
      exact hle
  rw [hwaits, h.idleTicks_step hrun]
  by_cases hearly : WokenEarly settings s t
  · have hzero : min s.idleTicks (2 ^ 32 - 2) = 0 ↔ s.idleTicks = 0 := by omega
    rw [if_pos hearly, forall_prop_of_true hearly, Nat.zero_min, Nat.zero_add, idleWait_le_first_iff, hzero]
  · rw [if_neg hearly]
    refine iff_of_true (idleWait_mono _ ?_) fun hwoken => absurd hwoken hearly
    omega

/-- The waits of a run lie between the base interval and the larger of it and the cap, and do not
shrink from one empty tick to the next, exactly if the base interval is not above the cap, or the
watcher is never live when a wait is chosen, and no wait that has grown is ended early. -/
theorem idle_stretch_iff (settings : ScanSettings) (turns : List ScanTurn) :
    ((∀ w ∈ waits settings {} turns, settings.base ≤ w ∧ w ≤ max settings.base maxBackoff) ∧
      ∀ before t t', before ++ [t, t'] <+: turns → Idles settings (run settings before) t →
        Idles settings (run settings (before ++ [t])) t' →
        ∀ w ∈ (turn settings (run settings before) t).1.wait,
          ∀ w' ∈ (turn settings (run settings (before ++ [t])) t').1.wait, w ≤ w') ↔
    (settings.base ≤ maxBackoff ∨ Along (step settings) (Polls settings) {} turns) ∧
      ∀ before t t', before ++ [t, t'] <+: turns → Idles settings (run settings before) t →
        Idles settings (run settings (before ++ [t])) t' → WokenEarly settings (run settings before) t →
        (run settings before).idleTicks = 0 ∨ settings.base.nanos = 0 ∨
          maxBackoff.nanos ≤ settings.base.nanos * 2 := by
  have hconcat (before : List ScanTurn) (t : ScanTurn) :
      run settings (before ++ [t]) = step settings (run settings before) t := List.foldl_concat ..
  refine and_congr waits_inRange_iff (forall_congr' fun before => forall_congr' fun t => forall_congr' fun t' => ?_)
  rw [hconcat]
  exact forall_congr' fun _ => forall_congr' fun h => forall_congr' fun h' => h.le_iff h'

def minutely : ScanSettings where
  base := .ofSecs 60 (by decide)
  nineTenths d := ⟨d.nanos * 9 / 10, by have := d.fits; omega⟩

def quietTurn : ScanTurn where
  scan := some []
  channel _ := .sent
  watcherLive := true
  elapsed := maxBackoff

/-- With the watcher live a loop that is to scan once a minute scans twice. -/
theorem base_above_cap_is_cut : waits minutely {} [quietTurn] = [maxBackoff] ∧ maxBackoff < minutely.base := by
  constructor <;> decide +kernel

variable (settings) in
def batches (s : ScanLoop) : List ScanTurn → List (List ScannedHit)
  | [] => []
  | t :: turns => (scanned settings s t).toList ++ batches (step settings s t) turns

variable (settings) in
def announcements (s : ScanLoop) : List ScanTurn → List ScannedHit
  | [] => []
  | t :: turns => (turn settings s t).1.announced ++ announcements (step settings s t) turns

theorem turn_sightings (settings : ScanSettings) (s : ScanLoop) (t : ScanTurn) :
    ((step settings s t).seenIds, (turn settings s t).1.announced) =
      (scanned settings s t).elim (s.seenIds, []) (firstSightings s.seenIds) := by
  rw [step, turn, scanned]
  cases s.stopped with
  | true => rfl
  | false =>
      cases t.shutdownAtHead with
      | true => rfl
      | false =>
          cases t.scan with
          | none => rfl
          | some hits =>
              simp only [Bool.false_eq_true, if_false, Bool.or_self, Option.map_some, Option.elim_some]
              split
              next => rfl
              next => split <;> rfl

theorem sightings_run (turns : List ScanTurn) (s : ScanLoop) :
    (turns.foldl (step settings) s).seenIds = (batches settings s turns).foldl seenStep s.seenIds ∧
      announcements settings s turns = reported s.seenIds (batches settings s turns) := by
  induction turns generalizing s with
  | nil => exact ⟨rfl, rfl⟩
  | cons t turns ih =>
      obtain ⟨hseen, hannounced⟩ := ih (step settings s t)
      have hturn := turn_sightings settings s t
      rw [List.foldl_cons, hseen, announcements, hannounced, batches]
      cases hscan : scanned settings s t with
      | none =>
          rw [hscan] at hturn
          obtain ⟨hids, hnone⟩ := Prod.mk.inj hturn
          rw [hids, hnone]
          exact ⟨rfl, rfl⟩
      | some batch =>
          rw [hscan] at hturn
          have hids : (step settings s t).seenIds = seenStep s.seenIds batch := congrArg Prod.fst hturn
          have hfirst : (turn settings s t).1.announced = (firstSightings s.seenIds batch).2 :=
            congrArg Prod.snd hturn
          rw [hids, hfirst]
          exact ⟨rfl, rfl⟩

end ScanLoop

end RichPresence.Detect
