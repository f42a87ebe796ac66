import RichPresence.Detect.Tiers

namespace RichPresence.Detect

open Lib

structure Buffers where
  slots : List Exec := []
  exec : ExecScratch := {}
  scratch : MatchScratch := {}
  variants : VariantBufs := {}
  reversed : Path := []

/-- A refusal from before only matters when nothing else is found. -/
def MatchOutcome.after (refused : Bool) : MatchOutcome → MatchOutcome
  | .noMatch => if refused then .refused else .noMatch
  | outcome => outcome

namespace Server

variable (server : Server) (table : ProcTable) (bundle : DetectablesBundle)

def probe (patterns : List Path) (indexes : List PatternIndex) (entries : List ScannedEntry) (reversedPath : Path) :
    List (ScannedEntry × Nat) :=
  (server.matcher.find patterns reversedPath).filterMap fun found => do
    let pair ← indexes[found.pattern]?
    let obj ← entries[pair.1]?
    some (obj, pair.2)

def mainProbe : Path → List (ScannedEntry × Nat) := server.probe bundle.ac bundle.indexes bundle.list

def customProbe (reversedPath : Path) : List (ScannedEntry × Nat) :=
  bundle.customAc.elim [] fun ac => server.probe ac bundle.customIndexes bundle.custom reversedPath

def protonProbe (reversedPath : Path) : List (ScannedEntry × Nat) :=
  bundle.protonAc.elim [] fun ac => server.probe ac bundle.protonIndexes bundle.list reversedPath

/-- Each variant is reversed into one buffer and that is searched. A refusal is remembered over the walk. -/
def walkProbes : List ((Path → List (ScannedEntry × Nat)) × Path) → Bool → Path → MatchOutcome × Path
  | [], refused, reversedPath => (if refused then .refused else .noMatch, reversedPath)
  | (probe, variant) :: rest, refused, reversedPath =>
      let reversedPath := cleared reversedPath ++ variant.reverse
      let outcome := firstHitNamingPath (probe reversedPath) variant
      match outcome.takeHit with
      | some (obj, exeIndex) => (.corroborated obj exeIndex, reversedPath)
      | none => walkProbes rest (refused || outcome.isRefused) reversedPath

def probeVariants (path : Path) (proton : Bool) (b : Buffers) : MatchOutcome × Buffers :=
  let filled := pathVariantsInto path b.variants
  let b := { b with variants := filled.2 }
  let passes :=
    if proton then [server.protonProbe bundle]
    else if bundle.customAc.isNone then [server.mainProbe bundle]
    else [server.mainProbe bundle, server.customProbe bundle]
  let walked := walkProbes
    (passes.flatMap fun probe => (b.variants.bufs.take filled.1).map fun variant => (probe, variant)) false b.reversed
  (walked.1, { b with reversed := walked.2 })

theorem walkProbes_fst (walk : List ((Path → List (ScannedEntry × Nat)) × Path)) (refused : Bool)
    (reversedPath : Path) :
    (walkProbes walk refused reversedPath).1 =
      MatchOutcome.after refused (settle (walk.map fun p => firstHitNamingPath (p.1 p.2.reverse) p.2)) := by
  induction walk generalizing refused reversedPath with
  | nil => rfl
  | cons p rest ih =>
      obtain ⟨probe, variant⟩ := p
      rw [walkProbes, List.map_cons, cleared, List.nil_append]
      dsimp only
      cases firstHitNamingPath (probe variant.reverse) variant with
      | corroborated obj exeIndex => rfl
      | noMatch =>
          change (walkProbes rest (refused || false) variant.reverse).1 = _
          rw [Bool.or_false, ih, settle]
      | refused =>
          change (walkProbes rest (refused || true) variant.reverse).1 = _
          rw [Bool.or_true, ih, settle]
          cases settle _ with
          | corroborated obj exeIndex => rfl
          | refused => rfl
          | noMatch => rfl

variable {server bundle} in
theorem probeVariants_fst (cache : AppIdMemos) (path : Path) (proton : Bool) (b : Buffers) :
    (server.probeVariants bundle path proton b).1 = (server.host table cache).probeVariants bundle path proton := by
  have hafter (outcome : MatchOutcome) : outcome.after false = outcome := by cases outcome <;> rfl
  rw [probeVariants, Host.probeVariants]
  dsimp only
  rw [walkProbes_fst, hafter, pathVariantsInto_eq, List.map_flatMap]
  simp only [List.map_map]
  split
  · rfl
  · split <;> rfl

def directProbe (pid : Nat) (path : Path) (b : Buffers) : Host.DirectProbe × Buffers :=
  let (found, b) := server.probeVariants bundle path false b
  match found.takeHit, bareExe path, table.readCwd pid with
  | none, some exe, some cwd =>
      let candidate := cwd.toList ++ '/' :: exe
      let (again, b) := server.probeVariants bundle candidate false b
      let refused := found.isRefused || again.isRefused
      if again.takeHit.isSome then (⟨again, refused, .cwdJoined, none⟩, b)
      else (⟨again, refused, .automaton, some candidate⟩, b)
  | _, _, _ => (⟨found, found.isRefused, .automaton, none⟩, b)

def lastTiers (process : Exec) (lowered : Path) (nonSteam : Bool) (scratch : MatchScratch) :
    Option ScannedHit × MatchScratch :=
  let library := server.matchPrefixInto lowered scratch.steamPath
  let scratch := { scratch with steamPath := library.2 }
  let store := server.matchSteamId table bundle process.pid library.1 lowered .steamLibrary scratch
  match store.1 with
  | some hit => (some hit, store.2)
  | none => if nonSteam then (none, store.2) else server.matchNameOrFolder table bundle lowered process.pid store.2

def protonTier (process : Exec) (lowered : Path) (nonSteam refused : Bool) (joined : Option Path) (b : Buffers) :
    Option ScannedHit × Buffers :=
  let (proton, b) := server.probeVariants bundle (joined.getD process.processPath) true b
  let tier :=
    match proton.takeHit with
    | some (obj, exeIndex) => server.finishDirectHit table obj exeIndex process .protonAutomaton b.scratch
    | none =>
        if refused || proton.isRefused then (none, b.scratch)
        else server.lastTiers table bundle process lowered nonSteam b.scratch
  (tier.1, { b with scratch := tier.2 })

/-- The path in lower case is written into its buffer and read from there by all tiers below. -/
def tailTiers (process : Exec) (refused : Bool) (joined : Option Path) (cache : AppIdMemos) (b : Buffers) :
    Option ScannedHit × AppIdMemos × Buffers :=
  let b := { b with scratch := { b.scratch with lowered := cleared b.scratch.lowered ++ lower process.processPath } }
  let lowered := b.scratch.lowered
  let (cached, cache, exec) := table.cachedAppId process.pid cache b.exec
  let b := { b with exec := exec }
  let appId := cached.or (appIdFromArgs process.arguments)
  let nonSteam := appId.any fun id => isShortcutId id.text
  let store :=
    server.matchSteamId table bundle process.pid (appId.map AppId.text) lowered .steamAppId b.scratch
  match store.1 with
  | some hit => (some hit, cache, { b with scratch := store.2 })
  | none =>
      let named :=
        if refused then (none, store.2)
        else if nonSteam then server.matchNameOrFolder table bundle lowered process.pid store.2
        else (none, store.2)
      match named.1 with
      | some hit => (some hit, cache, { b with scratch := named.2 })
      | none =>
          let (hit, b) :=
            server.protonTier table bundle process lowered nonSteam refused joined { b with scratch := named.2 }
          (hit, cache, b)

def classify (process : Exec) (cache : AppIdMemos) (b : Buffers) : Option ScannedHit × AppIdMemos × Buffers :=
  let (direct, b) := server.directProbe table bundle process.pid process.processPath b
  match direct.found.takeHit with
  | some (obj, exeIndex) =>
      let (hit, scratch) := server.finishDirectHit table obj exeIndex process direct.source b.scratch
      (hit, cache, { b with scratch := scratch })
  | none => server.tailTiers table bundle process direct.refused direct.joined cache b

def matchProcess (process : Exec) (obsOpen : Bool) (cache : AppIdMemos) (b : Buffers) :
    (Option ScannedHit × Bool) × AppIdMemos × Buffers :=
  if server.exclusions.isExcluded (String.ofList process.basename) || isSteamSidecar process.basename then
    ((none, obsOpen), cache, b)
  else
    let obsOpen := obsOpen || decide ("obs64".toList <:+: process.processPath) ||
      decide ("streamlabs".toList <:+: process.processPath)
    let (hit, cache, b) := server.classify table bundle process cache b
    ((hit, obsOpen), cache, b)

section Fresh

variable {server table bundle} (cache : AppIdMemos)

theorem directProbe_fst (pid : Nat) (path : Path) (b : Buffers) :
    (server.directProbe table bundle pid path b).1 = (server.host table cache).directProbe bundle pid path := by
  have hcwd : (server.host table cache).readCwd pid = table.readCwd pid := rfl
  rw [directProbe, Host.directProbe]
  dsimp only
  simp only [probeVariants_fst table cache, hcwd]
  cases ((server.host table cache).probeVariants bundle path false).takeHit with
  | some hit => rfl
  | none =>
      cases bareExe path with
      | none => rfl
      | some exe =>
          cases table.readCwd pid with
          | none => rfl
          | some cwd =>
              dsimp only
              split <;> rfl

theorem lastTiers_fst (process : Exec) (scratch : MatchScratch) :
    (server.lastTiers table bundle process (lower process.processPath)
      ((server.host table cache).nonSteam process) scratch).1 =
        (server.host table cache).lastTiers bundle process := by
  have hlibrary : (server.matchPrefixInto (lower process.processPath) scratch.steamPath).1 =
      (server.host table cache).steamPrefixAppId (lower process.processPath) := rfl
  rw [lastTiers, Host.lastTiers, Host.storeHit]
  simp only [matchSteamId_fst cache, hlibrary]
  cases Host.matchSteamId _ _ _ _ _ _ with
  | some hit => rfl
  | none =>
      dsimp only
      split
      · rfl
      · exact matchNameOrFolder_fst cache _ _ _

theorem protonTier_fst (process : Exec) (refused : Bool) (joined : Option Path) (b : Buffers) :
    (server.protonTier table bundle process (lower process.processPath) ((server.host table cache).nonSteam process)
      refused joined b).1 = (server.host table cache).protonTier bundle process refused joined := by
  rw [protonTier, Host.protonTier]
  dsimp only
  simp only [probeVariants_fst table cache]
  cases ((server.host table cache).probeVariants bundle (joined.getD process.processPath) true).takeHit with
  | some hit => exact finishDirectHit_fst cache _ _ _ _ _
  | none =>
      dsimp only
      split
      · rfl
      · exact lastTiers_fst cache process _

end Fresh

variable (cache : AppIdMemos)

theorem tailTiers_eq (process : Exec) (refused : Bool) (joined : Option Path) (b : Buffers) :
    ∃ left, server.tailTiers table bundle process refused joined cache b =
      ((server.host table cache).tailTiers bundle process refused joined,
        (table.cachedAppId process.pid cache {}).2.1, left) := by
  obtain ⟨exec, hcached⟩ := table.cachedAppId_eq process.pid cache b.exec
  have happId : (table.cachedAppId process.pid cache {}).1.or (appIdFromArgs process.arguments) =
      (server.host table cache).appId process := rfl
  rw [tailTiers, Host.tailTiers, Host.storeHit]
  simp only [hcached, happId, cleared, List.nil_append, matchSteamId_fst cache]
  cases Host.matchSteamId _ _ _ _ _ _ with
  | some hit => exact ⟨_, rfl⟩
  | none =>
      have hnonSteam : ((server.host table cache).appId process).any (fun id => isShortcutId id.text) =
          (server.host table cache).nonSteam process := rfl
      simp only [hnonSteam, apply_ite Prod.fst, matchNameOrFolder_fst cache]
      rw [Host.nameHit]
      generalize (if refused = true then none
        else if (server.host table cache).nonSteam process = true then
          (server.host table cache).matchNameOrFolder bundle (lower process.processPath) process.pid
        else none) = named
      cases named with
      | some hit => exact ⟨_, rfl⟩
      | none =>
          simp only [protonTier_fst cache]
          exact ⟨_, rfl⟩

/-- The ids that are remembered after a process has been classified: its own is looked up unless a path settles it. -/
def memos (process : Exec) (cache : AppIdMemos) : AppIdMemos :=
  let host := server.host table cache
  if host.skips process || (host.directProbe bundle process.pid process.processPath).found.takeHit.isSome then cache
  else (table.cachedAppId process.pid cache {}).2.1

theorem classify_eq (process : Exec) (b : Buffers) (hskips : (server.host table cache).skips process = false) :
    ∃ left, server.classify table bundle process cache b =
      ((server.host table cache).classify bundle process, server.memos table bundle process cache, left) := by
  rw [classify, Host.classify, memos]
  dsimp only
  rw [directProbe_fst cache, hskips, Bool.false_or]
  cases ((server.host table cache).directProbe bundle process.pid process.processPath).found.takeHit with
  | some hit =>
      simp only [finishDirectHit_fst cache]
      exact ⟨_, rfl⟩
  | none => exact tailTiers_eq server table bundle cache process _ _ _

theorem matchProcess_eq (process : Exec) (obsOpen : Bool) (b : Buffers) :
    ∃ left, server.matchProcess table bundle process obsOpen cache b =
      ((server.host table cache).matchProcess bundle process obsOpen, server.memos table bundle process cache,
        left) := by
  have hskips : (server.exclusions.isExcluded (String.ofList process.basename) || isSteamSidecar process.basename) =
      (server.host table cache).skips process := rfl
  rw [matchProcess, Host.matchProcess, hskips]
  cases hskip : (server.host table cache).skips process with
  | true =>
      rw [memos, hskip, Bool.true_or, if_pos rfl]
      exact ⟨b, rfl⟩
  | false =>
      obtain ⟨left, hclassify⟩ := server.classify_eq table bundle cache process b hskip
      rw [if_neg Bool.false_ne_true, if_neg Bool.false_ne_true, hclassify]
      exact ⟨left, rfl⟩

theorem host_memos (process : Exec) :
    server.host table (server.memos table bundle process cache) = server.host table cache := by
  have hcached : (fun pid => (table.cachedAppId pid (server.memos table bundle process cache) {}).1) =
      fun pid => (table.cachedAppId pid cache {}).1 := by
    funext pid
    rw [memos]
    split
    · rfl
    · exact table.cachedAppId_again process.pid pid cache
  rw [host, hcached]
  rfl

end Server

end RichPresence.Detect
