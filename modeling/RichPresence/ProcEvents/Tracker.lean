import Mathlib.Algebra.Group.Nat.Defs
import RichPresence.Lib.Table

namespace RichPresence.ProcEvents

open Lib

/-- The last sequence number seen of each CPU and how many numbers were passed over. -/
structure SeqTracker where
  last : Table UInt32 UInt32 := ∅
  missed : Nat := 0

namespace SeqTracker

def u64Max : Nat := 2 ^ 64 - 1

/-- Observe one number. A step back in the circle means that the counter began anew. -/
def note (tracker : SeqTracker) (cpu seq : UInt32) : SeqTracker × Nat :=
  match tracker.last.lookup cpu with
  | none => ({ tracker with last := tracker.last.insert cpu seq }, 0)
  | some last =>
      let expected := last + 1
      if seq = expected then ({ tracker with last := tracker.last.insert cpu seq }, 0)
      else
        let missed := (seq - expected).toNat
        if missed ≤ (2 ^ 32 - 1) / 2 then
          (⟨tracker.last.insert cpu seq, min (tracker.missed + missed) u64Max⟩, missed)
        else ({ tracker with last := tracker.last.insert cpu seq }, 0)

def noteAll (tracker : SeqTracker) (seen : List (UInt32 × UInt32)) : SeqTracker :=
  seen.foldl (fun tracker message => (tracker.note message.1 message.2).1) tracker

end SeqTracker

end RichPresence.ProcEvents
