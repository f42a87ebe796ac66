import RichPresence.Lib.Table
import RichPresence.Protocol.Payload

namespace RichPresence

open Lib

/-- Instants and the window are counted in nanoseconds. -/
structure RecentActivities where
  window : Nat := 5 * 10 ^ 9
  cap : Nat := 128
  entries : Table (Option AppId × Nat) (Bytes × Nat) := ∅

namespace RecentActivities

def new (window cap : Nat) : RecentActivities := ⟨window, cap, ∅⟩

/-- Whether this payload was already seen from `(appId, pid)` inside the window.
A clear forgets its own key; anything else that is not dropped is recorded. -/
def shouldDrop (w : Walk) (appId : Option AppId) (pid : Nat) (payload : Option Bytes) (now : Nat)
    (r : RecentActivities) : Bool × RecentActivities :=
  let key := (appId, pid)
  match payload with
  | none => (false, { r with entries := r.entries.erase key })
  | some bytes =>
      let seen := match r.entries.lookup key with
        | some (last, at_) => last == bytes && now - at_ < r.window
        | none => false
      if seen then (true, r)
      else
        let purged := Table.retain (fun _ e => now - e.2 < r.window) r.entries
        let entries :=
          if Table.size r.entries ≥ r.cap ∧ key ∉ r.entries then
            if Table.size purged ≥ r.cap then Table.evictFirst w purged else purged
          else r.entries
        (false, { r with entries := entries.insert key (bytes, now) })

theorem shouldDrop_repeats {w : Walk} {appId : Option AppId} {pid now : Nat} {payload : Option Bytes}
    {r : RecentActivities} (h : (shouldDrop w appId pid payload now r).1 = true) :
    ∃ bytes at_, payload = some bytes ∧ r.entries.lookup (appId, pid) = some (bytes, at_) ∧
      now - at_ < r.window ∧ (shouldDrop w appId pid payload now r).2 = r := by
  cases payload with
  | none => exact absurd h (by simp [shouldDrop])
  | some bytes =>
      rw [shouldDrop] at h ⊢
      cases hl : r.entries.lookup (appId, pid) with
      | none => simp [hl] at h
      | some e =>
          obtain ⟨last, at_⟩ := e
          simp only [hl] at h ⊢
          split at h
          next hs =>
            obtain ⟨hb, ht⟩ := Bool.and_eq_true_iff.mp hs
            have hb' := beq_iff_eq.mp hb
            subst hb'
            refine ⟨last, at_, rfl, rfl, by simpa using ht, ?_⟩
            rw [if_pos hs]
          next => cases h

end RecentActivities

end RichPresence
