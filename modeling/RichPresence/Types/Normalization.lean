import RichPresence.Types.Activity

namespace RichPresence

section Timestamps

/-- A timestamp that is taken for milliseconds once it has been normalized, at
`now` and at any time up to `later`; or one that scaling leaves as it is. -/
def KeepsUnit (now later : Nat) (v : Int) : Prop :=
  v = 0 ∨ 1000 * v ≤ -(2 ^ 63) ∨
    (millisThreshold later < v ∧ v < 10 ^ 14) ∨
    (v ≤ millisThreshold now ∧ millisThreshold later < 1000 * v ∧ 1000 * v < 10 ^ 14) ∨
    (10 ^ 14 ≤ v ∧ v < 10 ^ 17 ∧ 1000 * (millisThreshold later + 1) ≤ v) ∨
    (10 ^ 17 ≤ v ∧ v < 10 ^ 20 ∧ 10 ^ 6 * (millisThreshold later + 1) ≤ v)

variable {now later : Nat} {v : Int}

theorem normalize_nanos {threshold : Int} (h : 10 ^ 17 ≤ v) : normalizeTimestamp v threshold = v / 10 ^ 6 := by
  rw [normalizeTimestamp, if_pos (by omega), Int.tdiv_eq_ediv_of_nonneg (by omega)]
  rfl

theorem normalize_micros {threshold : Int} (h : 10 ^ 14 ≤ v) (h' : v < 10 ^ 17) :
    normalizeTimestamp v threshold = v / 1000 := by
  rw [normalizeTimestamp, if_neg (by omega), if_pos (by omega), Int.tdiv_eq_ediv_of_nonneg (by omega)]

theorem normalize_millis {threshold : Int} (h : threshold < v) (h' : v < 10 ^ 14) :
    normalizeTimestamp v threshold = v := by
  rw [normalizeTimestamp, if_neg (by omega), if_neg (by omega), if_pos (by omega)]

theorem normalize_seconds {threshold : Int} (h : v ≤ threshold) (h' : v < 10 ^ 14) :
    normalizeTimestamp v threshold = saturateI64 (v * 1000) := by
  rw [normalizeTimestamp, if_neg (by omega), if_neg (by omega), if_neg (by omega)]

theorem normalize_fixed_iff {threshold : Int} (h : 0 < threshold) : normalizeTimestamp v threshold = v ↔
    v = 0 ∨ v = -(2 ^ 63) ∨ (threshold < v ∧ v < 10 ^ 14) := by
  by_cases hn : 10 ^ 17 ≤ v
  · rw [normalize_nanos hn]
    omega
  · by_cases hu : 10 ^ 14 ≤ v
    · rw [normalize_micros hu (by omega)]
      omega
    · by_cases hm : threshold < v
      · rw [normalize_millis hm (by omega)]
        omega
      · rw [normalize_seconds (by omega) (by omega), saturateI64]
        omega

theorem millisThreshold_pos (now : Nat) : 0 < millisThreshold now := by
  rw [millisThreshold]
  omega

theorem millisThreshold_mono (h : now ≤ later) : millisThreshold now ≤ millisThreshold later := by
  rw [millisThreshold, millisThreshold]
  omega

theorem normalize_twice_iff (h : now ≤ later) :
    normalizeTimestamp (normalizeTimestamp v (millisThreshold now)) (millisThreshold later) =
      normalizeTimestamp v (millisThreshold now) ↔ KeepsUnit now later v := by
  have hpos := millisThreshold_pos now
  have hmono := millisThreshold_mono h
  rw [normalize_fixed_iff (millisThreshold_pos later), KeepsUnit]
  generalize millisThreshold now = t at *
  generalize millisThreshold later = t' at *
  by_cases hn : 10 ^ 17 ≤ v
  · rw [normalize_nanos hn]
    omega
  · by_cases hu : 10 ^ 14 ≤ v
    · rw [normalize_micros hu (by omega)]
      omega
    · by_cases hm : t < v
      · rw [normalize_millis hm (by omega)]
        omega
      · rw [normalize_seconds (by omega) (by omega), saturateI64]
        omega

end Timestamps

section Buttons

namespace Value

def isObject : Value → Bool
  | .object _ => true
  | _ => false

def label : Value → Option Value
  | .object members => members.lookup "label"
  | _ => none

/-- What splitting keeps of a button: of an object, the label at most. -/
def kept (b : Value) : List Value := if b.isObject then b.label.toList else [b]

theorem sizeOf_label {b l : Value} (h : b.label = some l) : sizeOf l < sizeOf b := by
  cases b with
  | object members =>
      obtain ⟨before, after, rfl, -⟩ := List.lookup_eq_some_iff.mp h
      have hmem : ("label", l) ∈ before ++ ("label", l) :: after := by simp
      have hsize := List.sizeOf_lt_of_mem hmem
      rw [object.sizeOf_spec, Prod.mk.sizeOf_spec] at *
      omega
  | _ => cases h

theorem length_kept_le (b : Value) : b.kept.length ≤ 1 := by
  rw [kept]
  split
  · cases b.label <;> simp
  · exact Nat.le_refl 1

end Value

variable {buttons : List Value}

theorem splitButtons_labels (buttons : List Value) : (splitButtons buttons).2 = buttons.flatMap Value.kept := by
  induction buttons with
  | nil => rfl
  | cons b rest ih =>
      rw [List.flatMap_cons, ← ih]
      cases b <;> rfl

theorem length_kept_labels_le (buttons : List Value) : (buttons.flatMap Value.kept).length ≤ buttons.length := by
  induction buttons with
  | nil => exact Nat.le_refl 0
  | cons b rest ih =>
      have hb := b.length_kept_le
      rw [List.flatMap_cons, List.length_append, List.length_cons]
      omega

theorem splitButtons_of_plain (h : ∀ b ∈ buttons, b.isObject = false) : splitButtons buttons = ([], buttons) := by
  induction buttons with
  | nil => rfl
  | cons b rest ih =>
      rw [List.forall_mem_cons] at h
      cases b with
      | object members => cases h.1
      | _ => rw [splitButtons, ih h.2]; simp

theorem plain_of_labels_fixed (h : buttons.flatMap Value.kept = buttons) : ∀ b ∈ buttons, b.isObject = false := by
  induction buttons with
  | nil => simp
  | cons b rest ih =>
      rw [List.flatMap_cons] at h
      cases hb : b.isObject with
      | false =>
          rw [Value.kept, hb, if_neg (by simp), List.singleton_append] at h
          exact List.forall_mem_cons.mpr ⟨hb, ih (List.cons.inj h).2⟩
      | true =>
          rw [Value.kept, if_pos hb] at h
          cases hl : b.label with
          | none =>
              rw [hl] at h
              have hlen := congrArg List.length h
              have hle := length_kept_labels_le rest
              simp only [Option.toList_none, List.nil_append, List.length_cons] at hlen
              omega
          | some l =>
              rw [hl] at h
              have hsize := Value.sizeOf_label hl
              rw [(List.cons.inj h).1] at hsize
              omega

theorem plain_kept_iff (b : Value) : (∀ l ∈ b.kept, l.isObject = false) ↔ ∀ l ∈ b.label, l.isObject = false := by
  cases b with
  | object members => simp [Value.kept, Value.isObject]
  | _ => simp [Value.kept, Value.isObject, Value.label]

theorem splitButtons_twice_iff : (splitButtons (splitButtons buttons).2).2 = (splitButtons buttons).2 ↔
    ∀ b ∈ buttons, ∀ l ∈ b.label, l.isObject = false := by
  rw [splitButtons_labels, splitButtons_labels]
  constructor
  · intro h b hb
    have hplain := plain_of_labels_fixed h
    exact (plain_kept_iff b).mp fun l hl => hplain l (List.mem_flatMap.mpr ⟨b, hb, hl⟩)
  · intro h
    rw [← splitButtons_labels (buttons.flatMap Value.kept), splitButtons_of_plain]
    intro l hl
    obtain ⟨b, hb, hl⟩ := List.mem_flatMap.mp hl
    exact (plain_kept_iff b).mpr (h b hb) l hl

end Buttons

namespace Activity

variable {now later : Nat} {a : Activity}

def normalizeAt (now : Nat) (v : Int) : Int := normalizeTimestamp v (millisThreshold now)

def FlagsFilled (a : Activity) : Prop := a.instance_.getD false = true → a.flags.isSome

@[simp] theorem fixFlags_timestamps (a : Activity) : a.fixFlags.timestamps = a.timestamps := by
  rw [fixFlags]
  split <;> rfl

@[simp] theorem fixFlags_buttons (a : Activity) : a.fixFlags.buttons = a.buttons := by
  rw [fixFlags]
  split <;> rfl

@[simp] theorem fixButtons_timestamps (a : Activity) : a.fixButtons.timestamps = a.timestamps := by
  rw [fixButtons]
  split <;> rfl

theorem fixButtons_buttons (a : Activity) : a.fixButtons.buttons = a.buttons.map fun bs => (splitButtons bs).2 := by
  rw [fixButtons]
  split
  next h => rw [h]; rfl
  next h => rw [h]; rfl

theorem fix_timestamps (now : Nat) (a : Activity) : (a.fix now).timestamps =
    a.timestamps.map fun t => ⟨t.start.map (normalizeAt now), t.stop.map (normalizeAt now)⟩ := by
  rw [fix, fixFlags_timestamps, fixButtons_timestamps, fixTimestamps]
  rfl

theorem fix_buttons (now : Nat) (a : Activity) :
    (a.fix now).buttons = a.buttons.map fun bs => (splitButtons bs).2 := by
  rw [fix, fixFlags_buttons, fixButtons_buttons, fixTimestamps]

theorem fixFlags_filled (a : Activity) : a.fixFlags.FlagsFilled := by
  rw [fixFlags]
  split
  next h => exact fun _ => rfl
  next h =>
    intro hi
    rw [Option.isSome_iff_ne_none]
    intro hf
    exact h ⟨hi, by rw [hf]; rfl⟩

theorem fix_filled (now : Nat) (a : Activity) : (a.fix now).FlagsFilled := fixFlags_filled _

theorem fixFlags_self (h : a.FlagsFilled) : a.fixFlags = a := by
  rw [fixFlags, if_neg]
  rintro ⟨hi, hn⟩
  rw [Option.isNone_iff_eq_none] at hn
  have hs := h hi
  rw [hn] at hs
  cases hs

theorem fixButtons_self (h : ∀ bs ∈ a.buttons, ∀ b ∈ bs, b.isObject = false) : a.fixButtons = a := by
  rw [fixButtons]
  split
  next => rfl
  next bs hbs =>
    rw [splitButtons_of_plain (h bs hbs)]
    cases a
    cases hbs
    rfl

theorem fix_self (ht : (a.fix now).timestamps = a.timestamps)
    (hb : ∀ bs ∈ a.buttons, ∀ b ∈ bs, b.isObject = false) (hf : a.FlagsFilled) : a.fix now = a := by
  rw [fix, fixFlags_timestamps, fixButtons_timestamps] at ht
  have hts : a.fixTimestamps now = a :=
    calc a.fixTimestamps now = { a with timestamps := (a.fixTimestamps now).timestamps } := rfl
      _ = { a with timestamps := a.timestamps } := by rw [ht]
      _ = a := rfl
  rw [fix, hts, fixButtons_self hb, fixFlags_self hf]

def Settled (now later : Nat) (a : Activity) : Prop :=
  (∀ t ∈ a.timestamps, (∀ v ∈ t.start, KeepsUnit now later v) ∧ ∀ v ∈ t.stop, KeepsUnit now later v) ∧
    ∀ bs ∈ a.buttons, ∀ b ∈ bs, ∀ l ∈ b.label, l.isObject = false

theorem normalizeAt_twice_iff (h : now ≤ later) (v : Option Int) :
    (v.map (normalizeAt now)).map (normalizeAt later) = v.map (normalizeAt now) ↔
      ∀ x ∈ v, KeepsUnit now later x := by
  cases v with
  | none => simp
  | some x => simpa [normalizeAt] using normalize_twice_iff h

theorem timestamps_twice_iff (h : now ≤ later) (a : Activity) :
    ((a.fix now).fix later).timestamps = (a.fix now).timestamps ↔
      ∀ t ∈ a.timestamps, (∀ v ∈ t.start, KeepsUnit now later v) ∧ ∀ v ∈ t.stop, KeepsUnit now later v := by
  rw [fix_timestamps, fix_timestamps]
  cases a.timestamps with
  | none => simp
  | some t =>
      simp only [Option.map_some, Option.some.injEq, Timestamps.mk.injEq, normalizeAt_twice_iff h]
      simp

theorem buttons_twice_iff (now later : Nat) (a : Activity) :
    ((a.fix now).fix later).buttons = (a.fix now).buttons ↔
      ∀ bs ∈ a.buttons, ∀ b ∈ bs, ∀ l ∈ b.label, l.isObject = false := by
  rw [fix_buttons, fix_buttons]
  cases a.buttons with
  | none => simp
  | some bs =>
      simp only [Option.map_some, Option.some.injEq, splitButtons_twice_iff]
      simp

theorem fix_twice_iff (h : now ≤ later) : (a.fix now).fix later = a.fix now ↔ a.Settled now later := by
  constructor
  · intro heq
    exact ⟨(timestamps_twice_iff h a).mp (congrArg timestamps heq),
      (buttons_twice_iff now later a).mp (congrArg buttons heq)⟩
  · rintro ⟨ht, hb⟩
    refine fix_self ((timestamps_twice_iff h a).mpr ht) ?_ (fix_filled now a)
    intro bs hbs b hmem
    have hfix := (buttons_twice_iff now later a).mpr hb
    rw [fix_buttons, hbs] at hfix
    have hkept : bs.flatMap Value.kept = bs := by
      rw [← splitButtons_labels]
      exact Option.some.inj hfix
    exact plain_of_labels_fixed hkept b hmem

theorem Settled.earlier {t₁ t₂ t₃ : Nat} (h : t₂ ≤ t₃) (ha : a.Settled t₁ t₃) : a.Settled t₁ t₂ := by
  have hmono := millisThreshold_mono h
  have hkeeps : ∀ v, KeepsUnit t₁ t₃ v → KeepsUnit t₁ t₂ v := by
    intro v hv
    rw [KeepsUnit] at *
    omega
  refine ⟨fun t ht => ?_, ha.2⟩
  obtain ⟨hstart, hstop⟩ := ha.1 t ht
  exact ⟨fun v hv => hkeeps v (hstart v hv), fun v hv => hkeeps v (hstop v hv)⟩

theorem fix_withId (now : Nat) (a : Activity) (id : Option AppId) :
    { a with applicationId := id }.fix now = { a.fix now with applicationId := id } := by
  have hbuttons : ∀ b : Activity, { b with applicationId := id }.fixButtons =
      { b.fixButtons with applicationId := id } := by
    intro b
    cases h : b.buttons <;> simp only [fixButtons, h]
  have hflags : ∀ b : Activity, { b with applicationId := id }.fixFlags =
      { b.fixFlags with applicationId := id } := by
    intro b
    rw [fixFlags, fixFlags]
    by_cases h : b.instance_.getD false = true ∧ b.flags.isNone = true
    · rw [if_pos h, if_pos h]
    · rw [if_neg h, if_neg h]
  rw [fix, fix, ← hflags, ← hbuttons]
  rfl

def look (a : Activity) : Option Timestamps × Option (List Value) × Option Nat := (a.timestamps, a.buttons, a.flags)

end Activity

end RichPresence
