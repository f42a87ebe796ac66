import RichPresence.Detect.AppIdCache
import RichPresence.Detect.MatchProcess
import RichPresence.Detect.ProcTable
import RichPresence.Detect.Variants

namespace RichPresence.Detect

open Lib

/-- The state letter of a process stands behind the last parenthesis. -/
def parseStatState (stat : Path) : Option Char :=
  if ')' ∈ stat then (words isWhiteSpace (stat.reverse.takeWhile (· ≠ ')')).reverse).head?.bind List.head? else none

def maxEnvironBytes : Nat := 256 * 1024

def steamAppIdKey : List UInt8 := "SteamAppId=".toList.map fun c => UInt8.ofNat c.toNat

def steamAppIdOf (entry : List UInt8) : Option String := do
  let value ← entry.dropPrefix? steamAppIdKey
  let id := trim (← decodeUtf8 value)
  if id.isEmpty then none else some (String.ofList id)

abbrev AppIdMemos := Nat → Option AppIdMemo

namespace AppIdMemo

def id? : AppIdMemo → Option AppId
  | present _ id => some id
  | _ => none

theorem fresh_of_miss {memo : Option AppIdMemo} {seq0 : UInt64} (h : miss memo = some seq0) :
    fresh seq0 memo = true := by
  rcases memo with _ | ⟨_ | _ | seq⟩
  all_goals cases h
  all_goals simp [fresh]

theorem miss_verified (seq0 : UInt64) (id : Option AppId) : miss (some (verified seq0 id)) = none := by
  cases id <;> rfl

theorem id?_verified (seq0 : UInt64) (id : Option AppId) : (verified seq0 id).id? = id := by
  cases id <;> rfl

end AppIdMemo

namespace ProcTable

variable (table : ProcTable)

def readCwd (pid : Nat) : Option String :=
  (table.readLink (procFile pid "cwd")).map fun cwd => String.ofList (lower cwd.toList)

def isSuspended (pid : Nat) (stat : Path) : Bool × Path :=
  let stat := cleared stat
  match table.openFile (procFile pid "stat") with
  | none => (false, stat)
  | some file =>
      let read := file.readToString (8 * 1024) stat
      (read.1 && (parseStatState read.2).any fun state => state = 'T' || state = 't', read.2)

def readSteamAppId (pid : Nat) (scratch : ExecScratch) : Option String × ExecScratch :=
  let scratch := { scratch with path := "" }
  let scratch := { scratch with path := scratch.path ++ procFile pid "environ" }
  match table.openFile scratch.path with
  | none => (none, scratch)
  | some file =>
      let scratch := { scratch with environ := [] }
      let read := file.readToEnd (maxEnvironBytes + 1) scratch.environ
      let scratch := { scratch with environ := read.2 }
      if !read.1 then (none, scratch)
      else
        let scratch := { scratch with environ := scratch.environ.take maxEnvironBytes }
        ((scratch.environ.splitOnP (· == 0)).findSome? steamAppIdOf, scratch)

/-- A verified memo is answered from the cache. Otherwise the environ is read, and
what it says is remembered. -/
def cachedAppId (pid : Nat) (cache : AppIdMemos) (scratch : ExecScratch) : Option AppId × AppIdMemos × ExecScratch :=
  match AppIdMemo.miss (cache pid) with
  | none => ((cache pid).bind AppIdMemo.id?, cache, scratch)
  | some seq0 =>
      let read := table.readSteamAppId pid scratch
      let id := read.1.map AppId.mk
      (id, if AppIdMemo.fresh seq0 (cache pid) then Function.update cache pid (some (.verified seq0 id)) else cache,
        read.2)

section Reuse

variable {table}

theorem isSuspended_fst (pid : Nat) (stat : Path) : (table.isSuspended pid stat).1 = (table.isSuspended pid []).1 :=
  rfl

theorem readSteamAppId_fst (pid : Nat) (scratch : ExecScratch) :
    (table.readSteamAppId pid scratch).1 = (table.readSteamAppId pid {}).1 := by
  rw [readSteamAppId, readSteamAppId]
  dsimp only
  split
  · rfl
  · split <;> rfl

theorem cachedAppId_eq (pid : Nat) (cache : AppIdMemos) (scratch : ExecScratch) :
    ∃ left, table.cachedAppId pid cache scratch =
      ((table.cachedAppId pid cache {}).1, (table.cachedAppId pid cache {}).2.1, left) := by
  rw [cachedAppId, cachedAppId]
  cases AppIdMemo.miss (cache pid) with
  | none => exact ⟨_, rfl⟩
  | some seq0 =>
      dsimp only
      rw [readSteamAppId_fst pid scratch]
      exact ⟨_, rfl⟩

theorem cachedAppId_congr {pid : Nat} {cache cache' : AppIdMemos} (h : cache pid = cache' pid)
    (scratch : ExecScratch) : (table.cachedAppId pid cache scratch).1 = (table.cachedAppId pid cache' scratch).1 := by
  rw [cachedAppId, cachedAppId, h]
  cases AppIdMemo.miss (cache' pid) <;> rfl

theorem cachedAppId_again (pid other : Nat) (cache : AppIdMemos) :
    (table.cachedAppId other (table.cachedAppId pid cache {}).2.1 {}).1 = (table.cachedAppId other cache {}).1 := by
  cases hmiss : AppIdMemo.miss (cache pid) with
  | none =>
      have hcache : (table.cachedAppId pid cache {}).2.1 = cache := by rw [cachedAppId, hmiss]
      rw [hcache]
  | some seq0 =>
      have hcache : (table.cachedAppId pid cache {}).2.1 =
          Function.update cache pid (some (.verified seq0 (table.cachedAppId pid cache {}).1)) := by
        rw [cachedAppId, hmiss]
        exact if_pos (AppIdMemo.fresh_of_miss hmiss)
      rw [hcache]
      by_cases hother : other = pid
      · subst hother
        rw [cachedAppId, Function.update_self, AppIdMemo.miss_verified]
        exact AppIdMemo.id?_verified seq0 _
      · exact cachedAppId_congr (Function.update_of_ne hother _ _) {}

end Reuse

end ProcTable

end RichPresence.Detect
