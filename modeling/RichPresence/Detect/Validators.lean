import RichPresence.Detect.Refresh

namespace RichPresence.Detect

open Lib

section Validity

variable (S : Source) (platform : Platform)

/-- No two of the bodies have one hash, and no two databases among theirs that the
scanner tells apart. -/
structure NoCollisions (bodies : Set String) : Prop where
  raw : Set.InjOn S.bodyHash bodies
  canonical : ∀ a ∈ bodies, ∀ b ∈ bodies, ∀ parsed parsed', S.parseBody a = .ok parsed → S.parseBody b = .ok parsed' →
    S.contentHashOf parsed = S.contentHashOf parsed' →
    parsed.map ScannedEntry.fromActivity = parsed'.map ScannedEntry.fromActivity

def Decodes (body : String) (list : List ScannedEntry) : Prop :=
  ∃ parsed, S.parseBody body = .ok parsed ∧ list = parsed.map .fromActivity

/-- The seeds that are there were taken from the list. -/
structure RefreshConfig.Describes (config : RefreshConfig) (names : String → String) (bodies : Set String)
    (list : List ScannedEntry) : Prop where
  etag : ∀ tag, config.etag = some tag → Decodes S (names tag) list
  contentHash : ∀ hashes, config.contentHash = some hashes →
    ∃ body ∈ bodies, ∃ parsed, S.parseBody body = .ok parsed ∧ hashes = S.contentHashes body parsed ∧
      list = parsed.map .fromActivity

/-- Each validator that is there stands for the installed list. -/
structure Refresh.Described (names : String → String) (bodies : Set String) (s : Refresh) : Prop where
  etag : ∀ tag, s.known.etag = some tag → Decodes S (names tag) s.bundle.list
  raw : ∀ hash, s.known.contentHash = some hash →
    ∃ body ∈ bodies, S.bodyHash body = hash ∧ Decodes S body s.bundle.list
  trimmed : ∀ hash, s.known.trimmedHash = some hash →
    ∃ body ∈ bodies, ∃ parsed, S.parseBody body = .ok parsed ∧ S.contentHashOf parsed = hash ∧
      s.bundle.list = parsed.map .fromActivity
  paired : s.known.contentHash.isSome → s.known.trimmedHash.isSome

/-- What the server may answer to a request with the ETag, where a tag names one
body for good. -/
def Serves (names : String → String) (current : String) (presented : Option String) : Answer → Prop
  | .notModified => ∃ tag, presented = some tag ∧ names tag = current
  | .served etag body => body = current ∧ ∀ tag, etag = some tag → names tag = current
  | .failed => True

def Refresh.Faithful (names : String → String) (bodies : Set String) (s : Refresh) : Event → Prop
  | .check c => c.current ∈ bodies ∧ Serves names c.current s.known.etag c.answer
  | .edit _ => True

variable {S platform} {names : String → String} {bodies : Set String} {s : Refresh} {c : Check}

theorem RefreshConfig.Describes.described {config : RefreshConfig} {bundle : DetectablesBundle}
    (h : config.Describes S names bodies bundle.list) : Refresh.Described S names bodies ⟨bundle, config.seeds⟩ where
  etag := h.etag
  raw hash hraw := by
    obtain ⟨hashes, hhashes, rfl⟩ := Option.map_eq_some_iff.mp hraw
    obtain ⟨body, hbody, parsed, hparsed, rfl, hlist⟩ := h.contentHash hashes hhashes
    exact ⟨body, hbody, rfl, parsed, hparsed, hlist⟩
  trimmed hash htrimmed := by
    obtain ⟨hashes, hhashes, rfl⟩ := Option.map_eq_some_iff.mp htrimmed
    obtain ⟨body, hbody, parsed, hparsed, rfl, hlist⟩ := h.contentHash hashes hhashes
    exact ⟨body, hbody, parsed, hparsed, rfl, hlist⟩
  paired hraw := by
    rw [seeds, Option.isSome_map] at hraw ⊢
    exact hraw

theorem list_updateMainDetectables {builds : Bool} {detectable : List DetectableActivity} {bundle : DetectablesBundle}
    (h : (updateMainDetectables platform builds detectable bundle).1 = true) :
    (updateMainDetectables platform builds detectable bundle).2.list = detectable.map .fromActivity := by
  rw [updateMainDetectables] at h ⊢
  split at h
  next => cases h
  next hswap =>
    rw [if_neg hswap]
    rfl

theorem refused_updateMainDetectables {builds : Bool} {detectable : List DetectableActivity}
    {bundle : DetectablesBundle} (h : ¬(updateMainDetectables platform builds detectable bundle).1 = true) :
    detectable = [] ∨ builds = false := by
  rw [updateMainDetectables] at h
  split at h
  next hrefused =>
    rw [Bool.or_eq_true, Bool.not_eq_true'] at hrefused
    exact hrefused.imp_left List.isEmpty_iff.mp
  next => exact absurd rfl h

theorem Refresh.described_of_served {bundle : DetectablesBundle} {etag : Option String} {body : String}
    {parsed : List DetectableActivity} {contentHash trimmedHash : UInt64} (hbody : body ∈ bodies)
    (hetag : ∀ tag, etag = some tag → names tag = body) (hparsed : S.parseBody body = .ok parsed)
    (hlist : bundle.list = parsed.map .fromActivity) (hraw : contentHash = S.bodyHash body)
    (htrimmed : ∃ other ∈ bodies, ∃ parsed', S.parseBody other = .ok parsed' ∧ S.contentHashOf parsed' = trimmedHash ∧
      bundle.list = parsed'.map .fromActivity) :
    Refresh.Described S names bodies ⟨bundle, ⟨etag, some contentHash, some trimmedHash⟩⟩ where
  etag tag htag := ⟨parsed, (hetag tag htag).symm ▸ hparsed, hlist⟩
  raw _ hhash := ⟨body, hbody, hraw.symm.trans (Option.some.inj hhash), parsed, hparsed, hlist⟩
  trimmed _ hhash := Option.some.inj hhash ▸ htrimmed
  paired _ := rfl

/-- A check that fails or is refused leaves everything as it was; any other installs
the list of the server's body, or finds it installed. -/
theorem Refresh.check_spec (platform : Platform) (hhash : NoCollisions S bodies) (h : s.Described S names bodies)
    (hfaithful : s.Faithful names bodies (.check c)) :
    (∃ error, s.check S platform c = (.failed error, s)) ∨
    (s.check S platform c = (.refused, s) ∧ ∃ parsed, S.parseBody c.current = .ok parsed ∧
      (parsed = [] ∨ c.builds = false)) ∨
    ∃ result ∈ [CheckResult.unchanged, .sameContent, .updated], ∃ next, s.check S platform c = (result, next) ∧
      Decodes S c.current next.bundle.list ∧ next.Described S names bodies := by
  obtain ⟨hcurrent, hserves⟩ := hfaithful
  rw [check]
  cases hanswer : c.answer with
  | failed => exact .inl ⟨.http, rfl⟩
  | notModified =>
      rw [hanswer] at hserves
      obtain ⟨tag, htag, hnames⟩ := hserves
      exact .inr (.inr ⟨_, .head _, s, rfl, hnames ▸ h.etag tag htag, h⟩)
  | served etag body =>
      rw [hanswer] at hserves
      obtain ⟨rfl, hetag⟩ := hserves
      rw [fetchDetectableEtag]
      by_cases hraw : s.known.contentHash = some (S.bodyHash c.current)
      · -- the same bytes as when the raw hash was taken
        rw [if_pos hraw]
        obtain ⟨seen, hseen, hsame, parsed, hparsed, hlist⟩ := h.raw _ hraw
        obtain rfl := hhash.raw hseen hcurrent hsame
        obtain ⟨trimmedHash, htrimmed⟩ := Option.isSome_iff_exists.mp (h.paired (hraw ▸ rfl))
        refine .inr (.inr ⟨_, .tail _ (.head _), _, rfl, ⟨parsed, hparsed, hlist⟩, ?_⟩)
        exact described_of_served hcurrent hetag hparsed hlist rfl (h.trimmed _ (by rw [htrimmed]; rfl))
      rw [if_neg hraw]
      cases hparsed : S.parseBody c.current with
      | error error => exact .inl ⟨.database error, rfl⟩
      | ok parsed =>
          dsimp only
          rw [finishFetch]
          by_cases htrimmed : s.known.trimmedHash = some (S.contentHashOf parsed)
          · rw [if_pos htrimmed]
            obtain ⟨seen, hseen, parsed', hparsed', hsame, hlist⟩ := h.trimmed _ htrimmed
            have hlist' : s.bundle.list = parsed.map .fromActivity :=
              hlist.trans (hhash.canonical _ hseen _ hcurrent _ _ hparsed' hparsed hsame)
            refine .inr (.inr ⟨_, .tail _ (.head _), _, rfl, ⟨parsed, hparsed, hlist'⟩, ?_⟩)
            exact described_of_served hcurrent hetag hparsed hlist' rfl
              ⟨c.current, hcurrent, parsed, hparsed, rfl, hlist'⟩
          rw [if_neg htrimmed]
          dsimp only
          split
          next hswap =>
            have hlist := list_updateMainDetectables hswap
            refine .inr (.inr ⟨_, .tail _ (.tail _ (.head _)), _, rfl, ⟨parsed, hparsed, hlist⟩, ?_⟩)
            exact described_of_served hcurrent hetag hparsed hlist rfl
              ⟨c.current, hcurrent, parsed, hparsed, rfl, hlist⟩
          next hswap => exact .inr (.inl ⟨rfl, parsed, rfl, refused_updateMainDetectables hswap⟩)

theorem Refresh.described_step (hhash : NoCollisions S bodies) (s : Refresh) (e : Event)
    (h : s.Described S names bodies) (hfaithful : s.Faithful names bodies e) :
    (s.step S platform e).Described S names bodies := by
  cases e with
  | check c =>
      rw [step]
      rcases check_spec platform hhash h hfaithful with ⟨_, hcheck⟩ | ⟨hcheck, _⟩ | ⟨_, _, next, hcheck, _, hnext⟩
      · rw [hcheck]
        exact h
      · rw [hcheck]
        exact h
      · rw [hcheck]
        exact hnext
  | edit update =>
      rw [step]
      split
      next => exact h
      next hcustom =>
        have hlist : (update.rebuild platform s.bundle).list = s.bundle.list := by
          cases update with
          | updateMainDetectables => exact absurd rfl hcustom
          | appendDetectables | removeDetectableByName => rfl
        obtain ⟨hetag, hraw, htrimmed, hpaired⟩ := h
        rw [← hlist] at hetag hraw htrimmed
        exact ⟨hetag, hraw, htrimmed, hpaired⟩

end Validity

/-- Along every sequence of checks of a server whose tags are honest: a check that
does not fail, of a body that decodes to a database that builds, ends with that
body's list installed; one that fails or is refused changes nothing. -/
theorem validators_hide_no_change (S : Source) (platform : Platform) (names : String → String) (bodies : Set String)
    (hhash : NoCollisions S bodies) (bundle : DetectablesBundle) (config : RefreshConfig)
    (hseeds : config.Describes S names bodies bundle.list) (events : List Refresh.Event)
    (hserver : Along (Refresh.step S platform) (Refresh.Faithful names bodies) ⟨bundle, config.seeds⟩ events)
    (past : List Refresh.Event) (c : Check) (hpast : past ++ [.check c] <+: events) :
    let before := past.foldl (Refresh.step S platform) ⟨bundle, config.seeds⟩
    let (result, after) := before.check S platform c
    ((∀ error, result ≠ .failed error) → ∀ parsed, S.parseBody c.current = .ok parsed → parsed ≠ [] →
      c.builds = true → after.bundle.list = parsed.map .fromActivity) ∧
    ((∃ error, result = .failed error) ∨ result = .refused →
      after.bundle.list = before.bundle.list ∧ after.known = before.known) := by
  obtain ⟨hbefore, hfaithful⟩ := Along.concat.mp (hserver.initial hpast)
  have hdescribed := hbefore.invariant (Refresh.Described S names bodies) (Refresh.described_step hhash)
    hseeds.described
  dsimp only
  rcases Refresh.check_spec platform hhash hdescribed hfaithful with
    ⟨error, hcheck⟩ | ⟨hcheck, parsed, hparsed, hrefused⟩ | ⟨result, hresult, next, hcheck, hdecodes, _⟩
  · rw [hcheck]
    exact ⟨fun h => absurd rfl (h error), fun _ => ⟨rfl, rfl⟩⟩
  · rw [hcheck]
    refine ⟨fun _ other hother hne hbuilds => ?_, fun _ => ⟨rfl, rfl⟩⟩
    obtain rfl := Except.ok.inj (hparsed.symm.trans hother)
    rcases hrefused with hempty | hfails
    · exact absurd hempty hne
    · exact absurd (hbuilds.symm.trans hfails) nofun
  · rw [hcheck]
    refine ⟨fun _ other hother _ _ => ?_, fun h => ?_⟩
    · obtain ⟨parsed, hparsed, hlist⟩ := hdecodes
      obtain rfl := Except.ok.inj (hparsed.symm.trans hother)
      exact hlist
    · simp only [List.mem_cons, List.not_mem_nil, or_false] at hresult
      rcases hresult with rfl | rfl | rfl <;> rcases h with ⟨_, h⟩ | h <;> cases h

section Hours

/-- A source whose bodies are the name of their only game. -/
def namedGames : Source where
  readJson body := if body = "" then none
    else some (.array [.object [("id", .string body), ("name", .string body), ("hook", .bool false)]])
  display := .compact
  finish bytes := UInt64.ofNat bytes.length

def games : List String := ["Celeste", "Hades", "Portal 2"]

theorem namedGames_noCollisions : NoCollisions namedGames {body | body ∈ games} where
  raw := by
    have hraw : ∀ a ∈ games, ∀ b ∈ games, namedGames.bodyHash a = namedGames.bodyHash b → a = b := by decide +kernel
    exact fun a ha b hb => hraw a ha b hb
  canonical a ha b hb parsed parsed' hparsed hparsed' h := by
    have hparse : ∀ body ∈ games, namedGames.parseBody body = .ok [namedActivity body] := by decide +kernel
    have hcanonical : ∀ a ∈ games, ∀ b ∈ games,
        namedGames.contentHashOf [namedActivity a] = namedGames.contentHashOf [namedActivity b] → a = b := by
      decide +kernel
    obtain rfl := Except.ok.inj (hparsed.symm.trans (hparse a ha))
    obtain rfl := Except.ok.inj (hparsed'.symm.trans (hparse b hb))
    rw [hcanonical a ha b hb h]

def bootConfig : RefreshConfig :=
  ⟨some "w0", some (namedGames.contentHashes "Celeste" [namedActivity "Celeste"])⟩

def earlierHours : List Refresh.Event :=
  [.check ⟨"Celeste", .notModified, true⟩, .check ⟨"Hades", .served (some "w1") "Hades", true⟩,
    .edit (.appendDetectables [namedActivity "Tetris"]), .check ⟨"Hades", .served none "Hades", true⟩,
    .check ⟨"Portal 2", .failed, true⟩]

/-- An unchanged hour, a new database, an edit, the same bytes and an outage before
the hour in which the new body is served. -/
theorem changed_hour_installed :
    let before := earlierHours.foldl (Refresh.step namedGames .linux)
      ⟨buildBundle .linux [.fromActivity (namedActivity "Celeste")] [], bootConfig.seeds⟩
    before.bundle.list = [.fromActivity (namedActivity "Hades")] ∧
      (before.check namedGames .linux ⟨"Portal 2", .served none "Portal 2", true⟩).2.bundle.list =
        [.fromActivity (namedActivity "Portal 2")] := by
  refine ⟨by decide +kernel, ?_⟩
  have hceleste : namedGames.parseBody "Celeste" = .ok [namedActivity "Celeste"] := by decide +kernel
  let names := fun tag => if tag = "w0" then "Celeste" else "Hades"
  refine (validators_hide_no_change namedGames .linux names _ namedGames_noCollisions
    (buildBundle .linux [.fromActivity (namedActivity "Celeste")] []) bootConfig ⟨?_, ?_⟩
    (earlierHours ++ [.check ⟨"Portal 2", .served none "Portal 2", true⟩]) ?_ earlierHours _ List.prefix_rfl).1 ?_
    [namedActivity "Portal 2"] (by decide +kernel) (by decide) rfl
  · rintro tag ⟨⟩
    exact ⟨_, hceleste, rfl⟩
  · rintro hashes ⟨⟩
    exact ⟨"Celeste", .head _, _, hceleste, rfl, rfl⟩
  · refine ⟨⟨.head _, "w0", rfl, rfl⟩, ⟨.tail _ (.head _), rfl, ?_⟩, trivial, ⟨.tail _ (.head _), rfl, nofun⟩,
      ⟨.tail _ (.tail _ (.head _)), trivial⟩, ⟨.tail _ (.tail _ (.head _)), rfl, nofun⟩, trivial⟩
    rintro tag ⟨⟩
    rfl
  · intro error herror
    have hupdated : ((earlierHours.foldl (Refresh.step namedGames .linux)
        ⟨buildBundle .linux [.fromActivity (namedActivity "Celeste")] [], bootConfig.seeds⟩).check
        namedGames .linux ⟨"Portal 2", .served none "Portal 2", true⟩).1 = .updated := by decide +kernel
    exact absurd (hupdated.symm.trans herror) nofun

end Hours

end RichPresence.Detect
