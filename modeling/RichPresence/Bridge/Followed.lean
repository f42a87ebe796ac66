import Mathlib.Data.List.Dedup
import RichPresence.Bridge.Frames
import RichPresence.Lib.Run

namespace RichPresence

open Lib

def Event.shows (C : Codec) (s : Shared) (e : Event) : List SocketId :=
  match e.input with
  | .setActivity cmd =>
      if cmd.activity.isSome then if dropped C e.env cmd s then [] else [SocketId.ofPid cmd.pid]
      else if isGenuineClear cmd then (resumable e.env cmd s).map fun game => SocketId.ofApp game.id
      else []
  | .proc (.detected game) =>
      if (s.handoff.ownerOf game.id).isSome ∨ (s.lastProcess.lookup game.id).isSome then []
      else [SocketId.ofApp game.id]
  | .proc _ => []

def CardsFit (C : Codec) (s : Shared) (e : Event) : Prop :=
  (s.cache.keys ++ e.shows C s).dedup.length ≤ maxCachedActivities

instance (C : Codec) (s : Shared) (e : Event) : Decidable (CardsFit C s e) := Nat.decLe _ _

variable {A : Type} (read : Read A) (id : ClientId) (protocol : BridgeProtocol)

/-- The consumer, as long as it is registered, shows what the cache holds. -/
def Followed (s : Shared) : Prop :=
  ∀ c, s.consumers.lookup id = some c →
    c.protocol = protocol ∧ Mirrors read protocol (viewOf read c.sent) s.cache

variable {read id protocol} {C : Codec} {env : Env} {cmd : ActivityCmd} {s s' : Shared}

theorem shows_publish (ha : cmd.activity.isSome) (hd : dropped C env cmd s = false) :
    Event.shows C s ⟨env, .setActivity cmd⟩ = [SocketId.ofPid cmd.pid] := by
  simp only [Event.shows, ha, hd, if_true, Bool.false_eq_true, if_false]

theorem shows_clear (hg : isGenuineClear cmd = true) :
    Event.shows C s ⟨env, .setActivity cmd⟩ =
      (resumable env cmd s).map fun game => SocketId.ofApp game.id := by
  have ha : cmd.activity.isSome = false := by simp [(isGenuineClear_iff.mp hg).2]
  simp only [Event.shows, ha, hg, if_true, Bool.false_eq_true, if_false]

theorem shows_detected {game : ScannedGame} (ho : s.handoff.liveIpc.lookup game.id = none)
    (hp : s.lastProcess.lookup game.id = none) :
    Event.shows C s ⟨env, .proc (.detected game)⟩ = [SocketId.ofApp game.id] := by
  simp [Event.shows, HandoffState.ownerOf, ho, hp]

theorem broadcastActivity_consumers (payload : CachedActivity) (k : SocketId) :
    ((broadcastActivity env payload k).exec s).consumers.lookup id =
      (s.consumers.lookup id).bind fun c => c.trySend env id (encodeFor c.protocol payload) := by
  simp only [broadcastActivity, Shared.setDirty, Shared.sendToAll, Prog.exec_bind, Prog.exec_updates,
    Shared.updateCache_consumers, Table.lookup_filterMap]

theorem trySend_eq {message : Message} {c c' : Consumer} (h : c.trySend env id message = some c') :
    c' = { c with sent := c.sent ++ [message] } := by
  rw [Consumer.trySend] at h
  split at h
  next => exact (Option.some.inj h).symm
  next => cases h

namespace Followed

theorem start {consumers : Table ClientId Consumer}
    (h : ∀ c, consumers.lookup id = some c → c.protocol = protocol ∧ ∀ k, viewOf read c.sent k = none) :
    Followed read id protocol { consumers := consumers } := h

theorem of_same (h : Followed read id protocol s) (hc : s'.consumers = s.consumers)
    (hk : s'.cache = s.cache) : Followed read id protocol s' := by
  intro c hl
  rw [hc] at hl
  rw [hk]
  exact h c hl

theorem broadcastActivity (h : Followed read id protocol s) {payload : CachedActivity} {k : SocketId}
    (hn : Names read protocol payload k)
    (hfit : payload.isClear = false →
      Table.size (s.cache.insert k (payload, s.activitySeq + 1)) ≤ maxCachedActivities) :
    Followed read id protocol ((broadcastActivity env payload k).exec s) := by
  intro c' hl
  rw [broadcastActivity_consumers, Option.bind_eq_some_iff] at hl
  obtain ⟨c, hc, hsend⟩ := hl
  obtain ⟨rfl, hm⟩ := h c hc
  rw [trySend_eq hsend]
  refine ⟨rfl, ?_⟩
  rw [viewOf_concat, broadcastActivity_cache]
  exact hm.apply hn (updateCache_outcome env hfit)

theorem broadcastClear (hread : Reads read C protocol) (h : Followed read id protocol s) (pid : Nat)
    (k : SocketId) : Followed read id protocol ((broadcastClear C env pid k).exec s) := by
  rw [RichPresence.broadcastClear]
  split
  next payload hp =>
    refine h.broadcastActivity (emptyCached_names hread hp) fun hc => ?_
    rw [(emptyCached_spec hp).1] at hc
    cases hc
  next => exact h.of_same rfl rfl

theorem clears {α : Type} (hread : Reads read C protocol) (h : Followed read id protocol s) (pid : α → Nat)
    (k : α → SocketId) (l : List α) :
    Followed read id protocol ((forM l fun a => RichPresence.broadcastClear C env (pid a) (k a)).exec s) := by
  apply Prog.exec_forM_induction (Followed read id protocol) h
  intro a _ t ht
  exact ht.broadcastClear hread (pid a) (k a)

theorem resumeGeneric (hread : Reads read C protocol) (h : Followed read id protocol s) (game : ScannedGame)
    (hfit : ∀ v, Table.size (s.cache.insert (SocketId.ofApp game.id) v) ≤ maxCachedActivities) :
    Followed read id protocol ((resumeGeneric C env game).exec s) := by
  have htracked : Followed read id protocol
      { s with lastProcess := trackProcessPublication env game.id game.pid s.lastProcess } := h.of_same rfl rfl
  rw [RichPresence.resumeGeneric, Prog.exec_bind]
  split
  next payload hp => exact htracked.broadcastActivity (genericPayload_names hread hp) fun _ => hfit _
  next => exact htracked.of_same rfl rfl

theorem announce (hread : Reads read C protocol) (h : Followed read id protocol s) (changed : Bool)
    (hfit : cmd.activity.isSome → CardFits cmd s) :
    Followed read id protocol (announce C env cmd s changed) := by
  rw [RichPresence.announce]
  split
  next =>
    split
    next payload hp =>
      refine h.broadcastActivity (sdkCard_names hread hp) fun hc => hfit ?_ _
      rw [(sdkCard_spec hp).isClear] at hc
      simpa using hc
    next => exact h
  next => exact h

end Followed

def Listed (ks : List SocketId) (s : Shared) : Prop := ∀ k v, s.cache.lookup k = some v → k ∈ ks

theorem Listed.fits {ks : List SocketId} (h : Listed ks s) (hks : ks.dedup.length ≤ maxCachedActivities)
    {k : SocketId} (hk : k ∈ ks) (v : CachedActivity × UInt64) :
    Table.size (s.cache.insert k v) ≤ maxCachedActivities := by
  refine (Table.size_le_of_subset ks.dedup fun k' hk' => ?_).trans hks
  rw [List.mem_dedup]
  obtain ⟨w, hw⟩ := Table.mem_keys_iff_lookup.mp hk'
  rw [Table.lookup_insert_eq] at hw
  split at hw
  next he => rwa [he]
  next => exact h k' w hw

theorem listed_keys (s : Shared) (ks : List SocketId) : Listed (s.cache.keys ++ ks) s :=
  fun _ v hv => List.mem_append_left _ (Table.mem_keys_iff_lookup.mpr ⟨v, hv⟩)

namespace Followed

theorem resumes (hread : Reads read C protocol) (h : Followed read id protocol s) {games : List ScannedGame}
    {ks : List SocketId} (hl : Listed ks s) (hks : ks.dedup.length ≤ maxCachedActivities)
    (hg : ∀ game ∈ games, SocketId.ofApp game.id ∈ ks) :
    Followed read id protocol ((forM games (RichPresence.resumeGeneric C env)).exec s) := by
  refine (Prog.exec_forM_induction (fun t => Followed read id protocol t ∧ Listed ks t) ⟨h, hl⟩ ?_).1
  rintro game hm t ⟨ht, hlt⟩
  refine ⟨ht.resumeGeneric hread game (hlt.fits hks (hg game hm)), fun k v hv => ?_⟩
  rcases resumeGeneric_cache_sub hv with ⟨rfl, _⟩ | hv
  · exact hg game hm
  · exact hlt k v hv

theorem setActivity (hread : Reads read C protocol) (h : Followed read id protocol s)
    (hfit : CardsFit C s ⟨env, .setActivity cmd⟩) :
    Followed read id protocol ((handleSetActivity C env cmd).exec s) := by
  have hrec : Followed read id protocol (recorded C env cmd s) := h.of_same rfl rfl
  by_cases hargs : cmd.args = none
  · rw [handleSetActivity_noArgs hargs]
    exact hrec
  · cases ha : cmd.activity with
    | none =>
        rw [handleSetActivity_clear ha (Option.isSome_iff_ne_none.mpr hargs)]
        refine announce hread ?_ _ fun hs => absurd hs (by simp [ha])
        cases hg : isGenuineClear cmd with
        | false =>
            rw [resumeAfterClear_publish hg]
            exact hrec
        | true =>
            rw [resumeAfterClear_genuine hg]
            have hrel : Followed read id protocol (released env cmd (recorded C env cmd s)) := hrec.of_same rfl rfl
            rw [CardsFit, shows_clear hg] at hfit
            refine hrel.resumes hread (listed_keys s _) hfit fun game hm => ?_
            exact List.mem_append_right _ (List.mem_map.mpr ⟨game, hm, rfl⟩)
    | some activity =>
        cases hd : dropped C env cmd s with
        | true =>
            rw [handleSetActivity_dropped hd]
            exact h
        | false =>
            rw [handleSetActivity_publish (by simp [ha]) hd]
            have hclaimed : Followed read id protocol (claimed env cmd (recorded C env cmd s)) :=
              hrec.of_same claimed_consumers claimed_cache
            rw [CardsFit, shows_publish (by simp [ha]) hd] at hfit
            refine hclaimed.announce hread _ fun _ v => ?_
            rw [claimed_cache]
            exact (listed_keys s _).fits hfit (by simp) v

theorem detected (hread : Reads read C protocol) (h : Followed read id protocol s) {game : ScannedGame}
    (hfit : CardsFit C s ⟨env, .proc (.detected game)⟩) :
    Followed read id protocol ((onDetected C env game).exec s) := by
  have hs : Followed read id protocol (scanned env (some game) s) := h.of_same rfl rfl
  cases ho : s.handoff.liveIpc.lookup game.id with
  | some owner =>
      rw [onDetected_owned ho]
      cases s.lastProcess.lookup game.id with
      | some pid =>
          apply broadcastClear hread
          exact hs.of_same rfl rfl
      | none => exact hs.of_same rfl rfl
  | none =>
      cases hp : s.lastProcess.lookup game.id with
      | some pid =>
          rw [onDetected_shown ho hp]
          exact hs
      | none =>
          rw [onDetected_fresh ho hp]
          rw [CardsFit, shows_detected ho hp] at hfit
          exact hs.resumeGeneric hread game ((listed_keys s _).fits hfit (by simp))

theorem removed (hread : Reads read C protocol) (h : Followed read id protocol s) (app : AppId) (pid : Nat) :
    Followed read id protocol ((onRemoved C env app pid).exec s) := by
  have hs : Followed read id protocol (unscanned app pid s) := h.of_same rfl rfl
  by_cases hp : s.lastProcess.lookup app = some pid
  · rw [onRemoved_match hp]
    apply broadcastClear hread
    exact hs.of_same rfl rfl
  · rw [onRemoved_stale hp]
    exact hs

theorem cleared (hread : Reads read C protocol) (h : Followed read id protocol s) :
    Followed read id protocol ((onCleared C env).exec s) := by
  have hs : Followed read id protocol { scanned env none s with lastProcess := ∅ } := h.of_same rfl rfl
  rw [onCleared_exec]
  exact (hs.clears hread (fun p : Nat × AppId => p.1) (fun p => SocketId.ofApp p.2) _).clears hread
    (fun g : SocketId × Nat => g.2) (fun g => g.1) _

theorem step (hread : Reads read C protocol) (h : Followed read id protocol s) {e : Event}
    (hfit : CardsFit C s e) : Followed read id protocol (step C s e) := by
  obtain ⟨env, input⟩ := e
  rcases input with cmd | game | ⟨app, pid⟩ | _
  · exact h.setActivity hread hfit
  · exact h.detected hread hfit
  · exact h.removed hread app pid
  · exact h.cleared hread

end Followed

end RichPresence
