import RichPresence.Detect.Scratch

namespace RichPresence.Detect

open Lib

structure MatchScratch where
  lowered : Path := []
  normOut : Path := []
  steamPath : Path := []
  stat : Path := []

/-- What a server knows besides the process table. Steam's install directories come
with their ids, and the case of a path is folded by the full mapping. -/
structure Server where
  matcher : Matcher Char.toLower
  exclusions : Exclusions := {}
  dirs : List (String × String) := []
  toLowercase : Char → Path
  epochMs : Nat

namespace Server

variable (server : Server) (table : ProcTable) (bundle : DetectablesBundle)

def canonicalSteamPathInto (raw dst : Path) : Path :=
  let dst := cleared dst
  let dst := raw.foldl (fun dst ch => dst ++ if ch = '\\' then ['/'] else server.toLowercase ch) dst
  if dst.head? = some '/' then dst else '/' :: dst

/-- The id of the longest directory that the path lies in. -/
def matchPrefixInto (path scratch : Path) : Option String × Path :=
  let scratch := server.canonicalSteamPathInto path scratch
  let best := server.dirs.foldl (fun (best : Option String × Nat) dir =>
    if best.2 < dir.1.utf8ByteSize ∧ dir.1.toList.isPrefixOf scratch then (some dir.2, dir.1.utf8ByteSize) else best)
    (none, 0)
  (best.1, scratch)

/-- The surroundings of the scanner when every question is asked with buffers of its own. -/
def host (cache : AppIdMemos) : Host where
  matcher := server.matcher
  exclusions := server.exclusions
  readCwd := table.readCwd
  cachedAppId pid := (table.cachedAppId pid cache {}).1
  isSuspended pid _ := (table.isSuspended pid []).1
  steamPrefixAppId path := (server.matchPrefixInto path []).1
  epochMs := server.epochMs

def liveOrNone (obj : ScannedEntry) (pid : Nat) (source : DetectSource) (scratch : MatchScratch) :
    Option ScannedHit × MatchScratch :=
  let suspended := table.isSuspended pid scratch.stat
  (if suspended.1 then none else some ⟨obj, pid, server.epochMs, source⟩, { scratch with stat := suspended.2 })

def finishDirectHit (obj : ScannedEntry) (exeIndex : Nat) (process : Exec) (source : DetectSource)
    (scratch : MatchScratch) : Option ScannedHit × MatchScratch :=
  match obj.executables[exeIndex]? with
  | none => (none, scratch)
  | some executable =>
      if hasArguments process executable then server.liveOrNone table obj process.pid source scratch
      else (none, scratch)

def matchSteamId (pid : Nat) (appId : Option String) (processPath : Path) (source : DetectSource)
    (scratch : MatchScratch) : Option ScannedHit × MatchScratch :=
  match appId with
  | none => (none, scratch)
  | some appId =>
      match bundle.steamMap.get appId with
      | some index =>
          match bundle.list[index]? with
          | none => (none, scratch)
          | some obj =>
              if argvNamesAnExecutable processPath obj then server.liveOrNone table obj pid source scratch
              else (none, scratch)
      | none =>
          match bundle.custom.find? fun obj =>
            obj.steamIds.contains appId && argvNamesAnExecutable processPath obj with
          | none => (none, scratch)
          | some obj => server.liveOrNone table obj pid source scratch

/-- The folders are normalized into one buffer, in which the name is then looked up. -/
def folderWalk (skipped : Path → Bool) (refill : Path → Path → Path) (map : SortedIndex) :
    List Path → Path → Option ScannedEntry × Path
  | [], normOut => (none, normOut)
  | folder :: folders, normOut =>
      if skipped folder then folderWalk skipped refill map folders normOut
      else
        let normOut := refill folder normOut
        match Host.lookupName bundle map normOut with
        | some obj => (some obj, normOut)
        | none => folderWalk skipped refill map folders normOut

def matchNameOrFolder (processPath : Path) (pid : Nat) (scratch : MatchScratch) : Option ScannedHit × MatchScratch :=
  match Host.lookupName bundle bundle.nameMap (exeStem processPath) with
  | some obj => server.liveOrNone table obj pid .exeStem scratch
  | none =>
      let folders := (components processPath).reverse.drop 1
      let plain := folderWalk bundle (·.contains '.') normalizeLoweredInto bundle.nameMap folders scratch.normOut
      let scratch := { scratch with normOut := plain.2 }
      match plain.1 with
      | some obj => server.liveOrNone table obj pid .folder scratch
      | none =>
          let dotted := folderWalk bundle (fun folder => !folder.contains '.') normalizeLoweredDedottedInto
            bundle.nameMapNodot folders scratch.normOut
          let scratch := { scratch with normOut := dotted.2 }
          match dotted.1 with
          | some obj => server.liveOrNone table obj pid .folder scratch
          | none => (none, scratch)

variable {server table bundle} (cache : AppIdMemos)

theorem liveOrNone_fst (obj : ScannedEntry) (pid : Nat) (source : DetectSource) (scratch : MatchScratch) :
    (server.liveOrNone table obj pid source scratch).1 = (server.host table cache).liveOrNone obj pid source := by
  rw [liveOrNone, Host.liveOrNone]
  dsimp only
  rw [ProcTable.isSuspended_fst]
  rfl

theorem finishDirectHit_fst (obj : ScannedEntry) (exeIndex : Nat) (process : Exec) (source : DetectSource)
    (scratch : MatchScratch) :
    (server.finishDirectHit table obj exeIndex process source scratch).1 =
      (server.host table cache).finishDirectHit obj exeIndex process source := by
  rw [finishDirectHit, Host.finishDirectHit]
  cases obj.executables[exeIndex]? with
  | none => rfl
  | some executable =>
      rw [Option.bind_eq_bind, Option.bind_some]
      dsimp only
      split
      · exact liveOrNone_fst cache obj _ _ scratch
      · rfl

theorem matchSteamId_fst (pid : Nat) (appId : Option String) (processPath : Path) (source : DetectSource)
    (scratch : MatchScratch) :
    (server.matchSteamId table bundle pid appId processPath source scratch).1 =
      (server.host table cache).matchSteamId bundle pid appId processPath source := by
  rw [matchSteamId.eq_def, Host.matchSteamId]
  cases appId with
  | none => rfl
  | some appId =>
      simp only [Option.bind_eq_bind, Option.bind_some]
      cases bundle.steamMap.get appId with
      | some index =>
          dsimp only
          cases bundle.list[index]? with
          | none => rfl
          | some obj =>
              rw [Option.bind_some]
              dsimp only
              split
              · exact liveOrNone_fst cache obj _ _ scratch
              · rfl
      | none =>
          dsimp only
          cases bundle.custom.find? _ with
          | none => rfl
          | some obj => exact liveOrNone_fst cache obj _ _ scratch

theorem folderWalk_fst {skipped : Path → Bool} {refill : Path → Path → Path} {normalize : Path → Path}
    (hrefill : ∀ folder out, refill folder out = normalize folder) (map : SortedIndex) (folders : List Path)
    (normOut : Path) :
    (folderWalk bundle skipped refill map folders normOut).1 =
      folders.findSome? fun folder =>
        if skipped folder then none else Host.lookupName bundle map (normalize folder) := by
  induction folders generalizing normOut with
  | nil => rfl
  | cons folder folders ih =>
      rw [folderWalk, List.findSome?_cons]
      by_cases hskip : skipped folder = true
      · rw [if_pos hskip, if_pos hskip]
        exact ih normOut
      · rw [if_neg hskip, if_neg hskip, hrefill]
        dsimp only
        cases Host.lookupName bundle map (normalize folder) with
        | some obj => rfl
        | none => exact ih (normalize folder)

theorem matchNameOrFolder_fst (processPath : Path) (pid : Nat) (scratch : MatchScratch) :
    (server.matchNameOrFolder table bundle processPath pid scratch).1 =
      (server.host table cache).matchNameOrFolder bundle processPath pid := by
  rw [matchNameOrFolder, Host.matchNameOrFolder]
  cases Host.lookupName bundle bundle.nameMap (exeStem processPath) with
  | some obj => exact liveOrNone_fst cache obj _ _ scratch
  | none =>
      have hdotted (folder : Path) :
          (if (!folder.contains '.') = true then none
            else Host.lookupName bundle bundle.nameMapNodot (normalizeLoweredDedotted folder)) =
          if folder.contains '.' then Host.lookupName bundle bundle.nameMapNodot (normalizeLoweredDedotted folder)
          else none := by
        cases folder.contains '.' <;> rfl
      dsimp only
      rw [folderWalk_fst normalizeLoweredInto_eq, folderWalk_fst normalizeLoweredDedottedInto_eq]
      simp only [hdotted]
      cases List.findSome? _ _ with
      | some obj => exact liveOrNone_fst cache obj _ _ _
      | none =>
          rw [Option.none_or]
          dsimp only
          cases List.findSome? _ _ with
          | some obj => exact liveOrNone_fst cache obj _ _ _
          | none => rfl

end Server

end RichPresence.Detect
