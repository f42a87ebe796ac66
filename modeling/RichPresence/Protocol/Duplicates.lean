import Mathlib.Data.List.Dedup
import RichPresence.Lib.Run
import RichPresence.Protocol.FloodGuard

namespace RichPresence.RecentActivities

open Lib

/-- A call of the guard, with the order in which the table would be walked then. -/
structure Call where
  appId : Option AppId
  pid : Nat
  payload : Option Bytes
  now : Nat
  walk : Walk

def Call.key (c : Call) : Option AppId × Nat := (c.appId, c.pid)

def call (r : RecentActivities) (c : Call) : Bool × RecentActivities :=
  shouldDrop c.walk c.appId c.pid c.payload c.now r

/-- The guard and the calls made so far, each with what it returned. -/
structure History where
  guard : RecentActivities
  past : List (Call × Bool) := []

namespace History

def step (s : History) (c : Call) : History :=
  ⟨(s.guard.call c).2, s.past ++ [(c, (s.guard.call c).1)]⟩

def fresh (window cap : Nat) : History := ⟨new window cap, []⟩

/-- The most recent call for a key that returned false. -/
def lastPassed (key : Option AppId × Nat) (past : List (Call × Bool)) : Option Call :=
  (past.reverse.find? fun p => p.1.key = key && !p.2).map Prod.fst

/-- The most recent call for the key that returned false was a publish of the same bytes,
made less than the window earlier. -/
def Repeats (window : Nat) (past : List (Call × Bool)) (c : Call) : Prop :=
  ∃ p bytes, lastPassed c.key past = some p ∧ p.payload = some bytes ∧ c.payload = some bytes ∧
    p.now ≤ c.now ∧ c.now < p.now + window

end History

section Calls

variable {r : RecentActivities} {c : Call}

theorem call_clear (h : c.payload = none) : r.call c = (false, { r with entries := r.entries.erase c.key }) := by
  rw [call, h, shouldDrop]
  rfl

theorem call_seen {bytes : Bytes} {at_ : Nat} (hpayload : c.payload = some bytes)
    (hseen : r.entries.lookup c.key = some (bytes, at_)) (hnow : c.now - at_ < r.window) : r.call c = (true, r) := by
  rw [Call.key] at hseen
  rw [call, hpayload, shouldDrop]
  simp only [hseen]
  rw [if_pos (by simpa using hnow)]

theorem call_passes {bytes : Bytes} (hpayload : c.payload = some bytes) (h : (r.call c).1 = false) :
    r.call c = (false, { r with
      entries := (Table.makeRoom c.walk r.cap (fun _ e => c.now - e.2 < r.window) c.key r.entries).insert c.key
        (bytes, c.now) }) := by
  have hpass (seen : Bool) (passed : Bool × RecentActivities) (h : (if seen then (true, r) else passed).1 = false) :
      (if seen then (true, r) else passed) = passed := by
    cases seen with
    | true => cases h
    | false => rfl
  rw [call, hpayload, shouldDrop] at h ⊢
  exact hpass _ _ h

theorem call_dropped (h : (r.call c).1 = true) : ∃ bytes at_, c.payload = some bytes ∧
    r.entries.lookup c.key = some (bytes, at_) ∧ c.now - at_ < r.window ∧ (r.call c).2 = r :=
  shouldDrop_repeats h

end Calls

namespace History

variable {s : History} {c : Call} {window cap : Nat} {calls : List Call}

theorem lastPassed_concat (key : Option AppId × Nat) (past : List (Call × Bool)) (c : Call) (b : Bool) :
    lastPassed key (past ++ [(c, b)]) = if c.key = key ∧ b = false then some c else lastPassed key past := by
  rw [lastPassed, List.reverse_append, List.reverse_singleton, List.singleton_append, List.find?_cons]
  by_cases h : c.key = key ∧ b = false
  · simp [h]
  · rw [if_neg h]
    have hnot : (decide (c.key = key) && !b) = false := by
      cases b with
      | true => rw [Bool.not_true, Bool.and_false]
      | false => rw [decide_eq_false fun hkey => h ⟨hkey, rfl⟩, Bool.false_and]
    rw [hnot]
    rfl

/-- What a table without a bound would hold under a key. -/
def slot (past : List (Call × Bool)) (key : Option AppId × Nat) : Option (Bytes × Nat) :=
  (lastPassed key past).bind fun p => p.payload.map (·, p.now)

theorem slot_dropped (past : List (Call × Bool)) (c : Call) (key : Option AppId × Nat) :
    slot (past ++ [(c, true)]) key = slot past key := by
  rw [slot, lastPassed_concat, if_neg (by simp)]
  rfl

theorem slot_passed (past : List (Call × Bool)) (c : Call) (key : Option AppId × Nat) :
    slot (past ++ [(c, false)]) key = if key = c.key then c.payload.map (·, c.now) else slot past key := by
  rw [slot, lastPassed_concat]
  by_cases hkey : c.key = key
  · rw [if_pos ⟨hkey, rfl⟩, if_pos hkey.symm]
    rfl
  · rw [if_neg fun h => hkey h.1, if_neg (Ne.symm hkey)]
    rfl

/-- The table never remembers more than the calls that passed, nor more slots than its cap. -/
structure Bounded (window cap : Nat) (s : History) : Prop where
  window_eq : s.guard.window = window
  cap_eq : s.guard.cap = cap
  size_le : Table.size s.guard.entries ≤ cap
  holds : ∀ key e, s.guard.entries.lookup key = some e → slot s.past key = some e

theorem step_cases (s : History) (c : Call) :
    s.step c = ⟨s.guard, s.past ++ [(c, true)]⟩ ∨
    c.payload = none ∧ s.step c =
      ⟨{ s.guard with entries := s.guard.entries.erase c.key }, s.past ++ [(c, false)]⟩ ∨
    ∃ bytes, c.payload = some bytes ∧ s.step c =
      ⟨{ s.guard with
        entries := (Table.makeRoom c.walk s.guard.cap (fun _ e => c.now - e.2 < s.guard.window) c.key
          s.guard.entries).insert c.key (bytes, c.now) }, s.past ++ [(c, false)]⟩ := by
  rw [step]
  cases hanswer : (s.guard.call c).1 with
  | true =>
      obtain ⟨_, _, -, -, -, hsame⟩ := call_dropped hanswer
      rw [hsame]
      exact .inl rfl
  | false =>
      cases hpayload : c.payload with
      | none =>
          rw [call_clear hpayload]
          exact .inr (.inl ⟨rfl, rfl⟩)
      | some bytes =>
          rw [call_passes hpayload hanswer]
          exact .inr (.inr ⟨bytes, rfl, rfl⟩)

theorem bounded_step (hcap : 1 ≤ cap) (c : Call) (h : Bounded window cap s) : Bounded window cap (s.step c) := by
  obtain ⟨⟨_, _, entries⟩, past⟩ := s
  obtain ⟨rfl, rfl, hsize, hholds⟩ := h
  rcases step_cases _ c with hstep | ⟨hpayload, hstep⟩ | ⟨bytes, hpayload, hstep⟩
  all_goals rw [hstep]
  · refine ⟨rfl, rfl, hsize, fun key e he => ?_⟩
    rw [slot_dropped]
    exact hholds key e he
  · refine ⟨rfl, rfl, Nat.le_trans (Table.size_erase_le entries c.key) hsize, fun key e he => ?_⟩
    dsimp only at he ⊢
    rw [Table.lookup_erase_eq] at he
    rw [slot_passed]
    split at he
    next => cases he
    next hkey =>
        rw [if_neg hkey]
        exact hholds key e he
  · refine ⟨rfl, rfl, Table.size_insert_makeRoom hcap hsize _, fun key e he => ?_⟩
    dsimp only at he ⊢
    rw [Table.lookup_insert_eq] at he
    rw [slot_passed, hpayload]
    split at he
    next hkey =>
        rw [if_pos hkey]
        exact he
    next hkey =>
        rw [if_neg hkey]
        exact hholds key e (Table.lookup_makeRoom he)

/-- With few keys nothing is ever forgotten. -/
structure Exact (keys : List (Option AppId × Nat)) (s : History) : Prop where
  room : keys.length ≤ s.guard.cap
  lookup_eq : ∀ key, s.guard.entries.lookup key = slot s.past key
  mem_keys : ∀ key, key ∈ s.guard.entries → key ∈ keys

theorem Exact.size_lt {keys : List (Option AppId × Nat)} {key : Option AppId × Nat} (h : Exact keys s)
    (hkey : key ∈ keys) : Table.size s.guard.entries < s.guard.cap ∨ key ∈ s.guard.entries := by
  refine Classical.or_iff_not_imp_right.mpr fun hnot => ?_
  have hsub : ∀ k ∈ s.guard.entries.keys, k ∈ keys.erase key := by
    intro k hk
    have hmem := AList.mem_keys.mpr hk
    have hne : k ≠ key := fun heq => hnot (heq ▸ hmem)
    exact (List.mem_erase_of_ne hne).mpr (h.mem_keys k hmem)
  have hle := Table.size_le_of_subset _ hsub
  rw [List.length_erase_of_mem hkey] at hle
  have hpos := List.length_pos_of_mem hkey
  have hroom := h.room
  omega

theorem exact_step {keys : List (Option AppId × Nat)} (hkey : c.key ∈ keys) (h : Exact keys s) :
    Exact keys (s.step c) := by
  rcases step_cases s c with hstep | ⟨hpayload, hstep⟩ | ⟨bytes, hpayload, hstep⟩
  all_goals rw [hstep]
  · refine ⟨h.room, fun key => ?_, h.mem_keys⟩
    rw [slot_dropped]
    exact h.lookup_eq key
  · refine ⟨h.room, fun key => ?_, fun key hmem => h.mem_keys key (AList.mem_erase.mp hmem).2⟩
    dsimp only
    rw [Table.lookup_erase_eq, slot_passed, hpayload, h.lookup_eq]
    rfl
  · rw [Table.makeRoom_of_room (h.size_lt hkey)]
    refine ⟨h.room, fun key => ?_, fun key hmem => ?_⟩
    · dsimp only
      rw [Table.lookup_insert_eq, slot_passed, hpayload, h.lookup_eq]
      rfl
    · rcases (AList.mem_insert _).mp hmem with rfl | hmem
      · exact hkey
      · exact h.mem_keys key hmem

theorem past_run (s : History) (calls : List Call) :
    (calls.foldl step s).past.map Prod.fst = s.past.map Prod.fst ++ calls := by
  induction calls generalizing s with
  | nil => rw [List.foldl_nil, List.append_nil]
  | cons c calls ih =>
      rw [List.foldl_cons, ih, step, List.map_append, List.append_assoc]
      rfl

theorem mem_of_lastPassed {key : Option AppId × Nat} {past : List (Call × Bool)} {p : Call}
    (h : lastPassed key past = some p) : p ∈ past.map Prod.fst := by
  obtain ⟨q, hq, rfl⟩ := Option.map_eq_some_iff.mp h
  exact List.mem_map_of_mem (List.mem_reverse.mp (List.mem_of_find?_eq_some hq))

theorem bounded_run (hcap : 1 ≤ cap) (calls : List Call) :
    Bounded window cap (calls.foldl step (fresh window cap)) := by
  refine Along.invariant (P := fun _ _ => True) (Bounded window cap) (fun s c h _ => bounded_step hcap c h) ?_
    (Along.of_forall fun _ _ => trivial)
  exact ⟨rfl, rfl, Nat.zero_le cap, fun key e he => by cases he⟩

theorem exact_run (hfew : (calls.map Call.key).dedup.length ≤ cap) {pre : List Call} (hpre : pre <+: calls) :
    Exact (calls.map Call.key).dedup (pre.foldl step (fresh window cap)) := by
  refine Along.invariant (P := fun _ c => c ∈ calls) (Exact _) (fun s c h hc => ?_) ?_
    (Along.of_forall fun c hc => hpre.subset hc)
  · exact exact_step (List.mem_dedup.mpr (List.mem_map_of_mem hc)) h
  · exact ⟨hfew, fun key => rfl, fun key hmem => by cases hmem⟩

/-- The guard drops a publish only when the last call for its slot that passed was a publish of the
same bytes inside the window. As long as the slots fit the table it drops every such publish. -/
theorem drops_only_repeats (window cap : Nat) (hcap : 1 ≤ cap) (calls : List Call)
    (htimes : calls.Pairwise fun a b => a.now ≤ b.now) :
    (∀ pre, pre <+: calls → Table.size (pre.foldl step (fresh window cap)).guard.entries ≤ cap) ∧
    (∀ pre c, pre ++ [c] <+: calls → ((pre.foldl step (fresh window cap)).guard.call c).1 = true →
      Repeats window (pre.foldl step (fresh window cap)).past c) ∧
    (∀ pre c, pre ++ [c] <+: calls → c.payload = none →
      ((pre.foldl step (fresh window cap)).guard.call c).1 = false) ∧
    ((calls.map Call.key).dedup.length ≤ cap → ∀ pre c, pre ++ [c] <+: calls →
      Repeats window (pre.foldl step (fresh window cap)).past c →
      ((pre.foldl step (fresh window cap)).guard.call c).1 = true) := by
  refine ⟨fun pre _ => (bounded_run hcap pre).size_le, fun pre c hpre hdrop => ?_, fun pre c _ hclear => ?_,
    fun hfew pre c hpre hrepeats => ?_⟩
  · have hbounded : Bounded window cap _ := bounded_run hcap pre
    obtain ⟨bytes, at_, hpayload, hlookup, hnow, -⟩ := call_dropped hdrop
    obtain ⟨p, hlast, hslot⟩ := Option.bind_eq_some_iff.mp (hbounded.holds c.key _ hlookup)
    obtain ⟨bytes', hp, heq⟩ := Option.map_eq_some_iff.mp hslot
    obtain ⟨rfl, rfl⟩ := Prod.mk.inj heq
    have hearlier : p.now ≤ c.now := by
      have hmem := mem_of_lastPassed hlast
      rw [past_run] at hmem
      exact (List.pairwise_append.mp (htimes.sublist hpre.sublist)).2.2 p hmem c List.mem_cons_self
    rw [hbounded.window_eq] at hnow
    exact ⟨p, bytes', hlast, hp, hpayload, hearlier, by omega⟩
  · rw [call_clear hclear]
  · obtain ⟨p, bytes, hlast, hp, hpayload, hearlier, hnow⟩ := hrepeats
    have hbounded : Bounded window cap _ := bounded_run hcap pre
    have hexact : Exact _ (pre.foldl step (fresh window cap)) :=
      exact_run hfew ((List.prefix_append pre [c]).trans hpre)
    have hlookup := hexact.lookup_eq c.key
    rw [slot, hlast, Option.bind_some, hp] at hlookup
    rw [call_seen hpayload hlookup]
    rw [hbounded.window_eq]
    omega

def resent (now : Nat) : Call := ⟨none, 7, some [1, 2], now, .inOrder⟩

theorem drops_resent_publish :
    (([resent 0].foldl step (fresh 5000 1)).guard.call (resent 10)).1 = true ∧
      Repeats 5000 ([resent 0].foldl step (fresh 5000 1)).past (resent 10) := by
  have hdrop : (([resent 0].foldl step (fresh 5000 1)).guard.call (resent 10)).1 = true := rfl
  have htimes : [resent 0, resent 10].Pairwise fun a b => a.now ≤ b.now := by simp [resent]
  obtain ⟨-, honly, -, -⟩ := drops_only_repeats 5000 1 (Nat.le_refl 1) [resent 0, resent 10] htimes
  exact ⟨hdrop, honly [resent 0] (resent 10) (List.prefix_refl _) hdrop⟩

end History

end RichPresence.RecentActivities
