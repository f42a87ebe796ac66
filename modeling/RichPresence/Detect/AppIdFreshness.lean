import RichPresence.Detect.AppIdCache
import RichPresence.Lib.Run

namespace RichPresence.Detect

open Lib

namespace AppIdCache

def seqOf (memo : Option AppIdMemo) : UInt64 := memo.elim 0 AppIdMemo.seq

section Soundness

variable (cache : Nat → Option AppIdMemo) (drops : Nat → Nat) (lastDrop : Nat → Option Nat)

/-- No drop of the pid lies after the start of the read. -/
def After (pid started : Nat) : Prop := ∀ dropped, lastDrop pid = some dropped → dropped < started

/-- What holds of a call under way: unless the pid was dropped meanwhile, its read is
not older than the latest drop. -/
structure CallSound (c : CachedCall) : Prop where
  seen : c.dropsSeen ≤ drops c.pid
  read : ∀ started id, c.read = some (started, id) → drops c.pid = c.dropsSeen → After lastDrop c.pid started

/-- The scan thread's call can be overtaken by drops, and each of them shows in the
sequence: only the scan thread itself removes memos. -/
structure Counted (c : CachedCall) : Prop where
  seq : seqOf (cache c.pid) = c.seq0 + .ofNat (drops c.pid - c.dropsSeen)
  kept : drops c.pid ≠ c.dropsSeen → cache c.pid ≠ none

end Soundness

structure Sound (s : AppIdCache) : Prop where
  past : ∀ pid, After s.lastDrop pid s.clock
  resolved : ∀ pid memo, s.cache pid = some memo → memo.isResolved → After s.lastDrop pid (s.readAt pid)
  call : ∀ reader c, s.call reader = some c → CallSound s.drops s.lastDrop c
  scan : ∀ c, s.call .scan = some c → Counted s.cache s.drops c
  dispatch : ∀ c, s.call .dispatch = some c → s.drops c.pid = c.dropsSeen

theorem sound_init : Sound {} where
  past _ _ h := nomatch h
  resolved _ _ h := nomatch h
  call _ _ h := nomatch h
  scan _ h := nomatch h
  dispatch _ h := nomatch h

variable {s : AppIdCache}

theorem seqOf_miss {memo : Option AppIdMemo} {seq0 : UInt64} (h : AppIdMemo.miss memo = some seq0) :
    seqOf memo = seq0 := by
  fun_cases AppIdMemo.miss memo with
  | case1 seq => exact Option.some.inj h
  | case2 => exact Option.some.inj h
  | case3 => simp only [AppIdMemo.miss] at h; cases h

theorem seqOf_fresh {memo : Option AppIdMemo} {seq0 : UInt64} (h : AppIdMemo.fresh seq0 memo = true) :
    seqOf memo = seq0 := by
  fun_cases AppIdMemo.fresh seq0 memo with
  | case1 seq => exact of_decide_eq_true h
  | case2 => exact (of_decide_eq_true h).symm
  | case3 => simp only [AppIdMemo.fresh] at h; cases h

theorem seqOf_verified (seq0 : UInt64) (id : Option AppId) : seqOf (some (.verified seq0 id)) = seq0 := by
  cases id <;> rfl

theorem seqOf_dropped (memo : Option AppIdMemo) : seqOf (some (.dropped memo)) = seqOf memo + 1 := by
  cases memo with
  | none => rfl
  | some memo => rfl

theorem update_eq_some {reader other : Reader} {call : Option CachedCall} {d : CachedCall}
    (h : Function.update s.call reader call other = some d) :
    other = reader ∧ call = some d ∨ s.call other = some d := by
  by_cases hother : other = reader
  · subst hother
    rw [Function.update_self] at h
    exact .inl ⟨rfl, h⟩
  · rw [Function.update_of_ne hother] at h
    exact .inr h

theorem Sound.setCall {reader : Reader} {c : CachedCall} (h : s.Sound) (hcall : CallSound s.drops s.lastDrop c)
    (hscan : reader = .scan → Counted s.cache s.drops c)
    (hdispatch : reader = .dispatch → s.drops c.pid = c.dropsSeen) :
    Sound { s with call := Function.update s.call reader (some c) } where
  past := h.past
  resolved := h.resolved
  call other d hd := by
    rcases update_eq_some hd with ⟨_, ⟨⟩⟩ | hd
    · exact hcall
    · exact h.call other d hd
  scan d hd := by
    rcases update_eq_some hd with ⟨hreader, ⟨⟩⟩ | hd
    · exact hscan hreader.symm
    · exact h.scan d hd
  dispatch d hd := by
    rcases update_eq_some hd with ⟨hreader, ⟨⟩⟩ | hd
    · exact hdispatch hreader.symm
    · exact h.dispatch d hd

theorem Sound.endCall (h : s.Sound) (reader : Reader) :
    Sound { s with call := Function.update s.call reader none } where
  past := h.past
  resolved := h.resolved
  call other d hd := by
    rcases update_eq_some hd with ⟨_, ⟨⟩⟩ | hd
    exact h.call other d hd
  scan d hd := by
    rcases update_eq_some hd with ⟨_, ⟨⟩⟩ | hd
    exact h.scan d hd
  dispatch d hd := by
    rcases update_eq_some hd with ⟨_, ⟨⟩⟩ | hd
    exact h.dispatch d hd

theorem Sound.lookup (h : s.Sound) (reader : Reader) (pid : Nat) : (s.lookup reader pid).Sound := by
  rw [AppIdCache.lookup]
  split
  next seq0 hcall hmiss =>
    refine h.setCall ⟨Nat.le_refl _, nofun⟩ (fun _ => ⟨?_, fun hne => absurd rfl hne⟩) fun _ => rfl
    rw [seqOf_miss hmiss, Nat.sub_self]
    exact (UInt64.add_zero _).symm
  next => exact h

theorem Sound.readEnviron (h : s.Sound) (reader : Reader) (id : Option AppId) : (s.readEnviron reader id).Sound := by
  rw [AppIdCache.readEnviron]
  split
  next pid seq0 dropsSeen hcall =>
    refine h.setCall ⟨(h.call reader _ hcall).seen, ?_⟩ ?_ ?_
    · rintro started _ ⟨⟩ _
      exact h.past pid
    · rintro rfl
      exact ⟨(h.scan _ hcall).seq, (h.scan _ hcall).kept⟩
    · rintro rfl
      have hdrops := h.dispatch _ hcall
      exact hdrops
  next => exact h

/-- With fewer than `2 ^ 64` drops since its lookup, a call that finds its memo fresh
was overtaken by none. -/
theorem no_drop_of_fresh {c : CachedCall} {reader : Reader} (h : s.Sound) (hcall : s.call reader = some c)
    (hunwrapped : s.drops c.pid < c.dropsSeen + 2 ^ 64) (hfresh : AppIdMemo.fresh c.seq0 (s.cache c.pid) = true) :
    s.drops c.pid = c.dropsSeen := by
  cases reader with
  | dispatch => exact h.dispatch c hcall
  | scan =>
      have hseen := (h.call _ _ hcall).seen
      have hseq := (h.scan c hcall).seq
      rw [seqOf_fresh hfresh] at hseq
      have hnat := congrArg UInt64.toNat hseq
      rw [UInt64.toNat_add, UInt64.toNat_ofNat'] at hnat
      have hlt := c.seq0.toNat_lt
      omega

theorem Counted.store {pid : Nat} {seq0 : UInt64} {id : Option AppId} {c : CachedCall}
    (h : Counted s.cache s.drops c) (hfresh : AppIdMemo.fresh seq0 (s.cache pid) = true) :
    Counted (Function.update s.cache pid (some (.verified seq0 id))) s.drops c := by
  by_cases hpid : c.pid = pid
  · subst hpid
    refine ⟨?_, fun _ => ?_⟩
    · rw [Function.update_self, seqOf_verified, ← seqOf_fresh hfresh]
      exact h.seq
    · rw [Function.update_self]
      exact Option.some_ne_none _
  · refine ⟨?_, fun hne => ?_⟩
    · rw [Function.update_of_ne hpid]
      exact h.seq
    · rw [Function.update_of_ne hpid]
      exact h.kept hne

theorem Sound.store {pid started : Nat} {seq0 : UInt64} {id : Option AppId} (h : s.Sound)
    (hfresh : AppIdMemo.fresh seq0 (s.cache pid) = true) (hread : After s.lastDrop pid started) :
    Sound { s with
      cache := Function.update s.cache pid (some (.verified seq0 id))
      readAt := Function.update s.readAt pid started } where
  past := h.past
  resolved other memo hmemo hresolved := by
    dsimp only at hmemo ⊢
    by_cases hother : other = pid
    · subst hother
      rw [Function.update_self]
      exact hread
    · rw [Function.update_of_ne hother] at hmemo ⊢
      exact h.resolved other memo hmemo hresolved
  call := h.call
  scan c hc := (h.scan c hc).store hfresh
  dispatch := h.dispatch

theorem Sound.settle {reader : Reader} (h : s.Sound)
    (hunwrapped : ∀ c, s.call reader = some c → s.drops c.pid < c.dropsSeen + 2 ^ 64) : (s.settle reader).Sound := by
  rw [AppIdCache.settle]
  split
  next pid seq0 dropsSeen started id hcall =>
    dsimp only
    split
    next hfresh =>
      have hdrops := no_drop_of_fresh h hcall (hunwrapped _ hcall) hfresh
      exact (h.endCall reader).store hfresh ((h.call reader _ hcall).read started id rfl hdrops)
    next => exact h.endCall reader
  next => exact h

theorem CallSound.drop {c : CachedCall} (h : CallSound s.drops s.lastDrop c) (pid : Nat) :
    CallSound (Function.update s.drops pid (s.drops pid + 1)) (Function.update s.lastDrop pid (some s.clock)) c := by
  have hseen := h.seen
  by_cases hpid : c.pid = pid
  · subst hpid
    refine ⟨?_, fun _ _ _ hsame => ?_⟩
    · rw [Function.update_self]
      omega
    · rw [Function.update_self] at hsame
      omega
  · refine ⟨?_, fun started id hread hsame => ?_⟩
    · rw [Function.update_of_ne hpid]
      exact hseen
    · rw [Function.update_of_ne hpid] at hsame
      rw [After, Function.update_of_ne hpid]
      exact h.read started id hread hsame

theorem Counted.drop {c : CachedCall} (h : Counted s.cache s.drops c) (hseen : c.dropsSeen ≤ s.drops c.pid)
    (pid : Nat) :
    Counted (Function.update s.cache pid (some (.dropped (s.cache pid))))
      (Function.update s.drops pid (s.drops pid + 1)) c := by
  by_cases hpid : c.pid = pid
  · subst hpid
    refine ⟨?_, fun _ => ?_⟩
    · rw [Function.update_self, Function.update_self, seqOf_dropped, h.seq, Nat.succ_sub hseen, Nat.succ_eq_add_one,
        UInt64.ofNat_add, UInt64.add_assoc]
      rfl
    · rw [Function.update_self]
      exact Option.some_ne_none _
  · refine ⟨?_, fun hne => ?_⟩
    · rw [Function.update_of_ne hpid, Function.update_of_ne hpid]
      exact h.seq
    · rw [Function.update_of_ne hpid] at hne ⊢
      exact h.kept hne

theorem Sound.tick (h : s.Sound) : Sound { s with clock := s.clock + 1 } where
  past pid dropped hdropped := Nat.lt_succ_of_lt (h.past pid dropped hdropped)
  resolved := h.resolved
  call := h.call
  scan := h.scan
  dispatch := h.dispatch

theorem Sound.dropAppid (h : s.Sound) (pid : Nat) : Sound { s.dropAppid pid with clock := s.clock + 1 } := by
  rw [AppIdCache.dropAppid]
  split
  next => exact h.tick
  next hidle =>
    refine ⟨fun other dropped hdropped => ?_, fun other memo hmemo hresolved => ?_, fun reader c hc => ?_,
      fun c hc => ?_, fun c hc => ?_⟩
    · dsimp only at hdropped ⊢
      by_cases hother : other = pid
      · rw [hother, Function.update_self] at hdropped
        exact Option.some.inj hdropped ▸ Nat.lt_succ_self _
      · rw [Function.update_of_ne hother] at hdropped
        exact Nat.lt_succ_of_lt (h.past other dropped hdropped)
    · dsimp only at hmemo ⊢
      by_cases hother : other = pid
      · -- the dropped memo is not resolved
        rw [hother, Function.update_self] at hmemo
        obtain rfl := Option.some.inj hmemo
        cases hcache : s.cache pid <;> rw [hcache] at hresolved <;> cases hresolved
      · rw [Function.update_of_ne hother] at hmemo
        rw [After, Function.update_of_ne hother]
        exact h.resolved other memo hmemo hresolved
    · exact (h.call reader c hc).drop pid
    · exact (h.scan c hc).drop (h.call _ c hc).seen pid
    · exact absurd (hidle.symm.trans hc) nofun

theorem Sound.sweepDeadAppids (h : s.Sound) (live : List Nat) : (s.sweepDeadAppids live).Sound := by
  rw [AppIdCache.sweepDeadAppids]
  split
  next => exact h
  next hidle =>
    refine ⟨h.past, fun pid memo hmemo => ?_, h.call, fun c hc => absurd (hidle.symm.trans hc) nofun, h.dispatch⟩
    dsimp only at hmemo
    split at hmemo
    · exact h.resolved pid memo hmemo
    · cases hmemo

/-- A call settles before its pid was dropped `2 ^ 64` times since its lookup. -/
def Unwrapped (s : AppIdCache) : CacheStep → Prop
  | .settle reader => ∀ c, s.call reader = some c → s.drops c.pid < c.dropsSeen + 2 ^ 64
  | _ => True

theorem clock_act (s : AppIdCache) (e : CacheStep) : (s.act e).clock = s.clock := by
  cases e with
  | lookup =>
      rw [act, AppIdCache.lookup]
      split <;> rfl
  | readEnviron =>
      rw [act, AppIdCache.readEnviron]
      split <;> rfl
  | settle =>
      rw [act, AppIdCache.settle]
      split
      · dsimp only
        split <;> rfl
      · rfl
  | dropAppid =>
      rw [act, AppIdCache.dropAppid]
      split <;> rfl
  | sweepDeadAppids =>
      rw [act, AppIdCache.sweepDeadAppids]
      split <;> rfl

theorem Sound.step (s : AppIdCache) (e : CacheStep) (h : s.Sound) (hunwrapped : s.Unwrapped e) :
    (s.step e).Sound := by
  have htick (hact : (s.act e).Sound) : (s.step e).Sound := by
    rw [AppIdCache.step, ← clock_act s e]
    exact hact.tick
  cases e with
  | lookup reader pid => exact htick (h.lookup reader pid)
  | readEnviron reader id => exact htick (h.readEnviron reader id)
  | settle reader => exact htick (h.settle hunwrapped)
  | dropAppid pid => exact h.dropAppid pid
  | sweepDeadAppids live => exact htick (h.sweepDeadAppids live)

end AppIdCache

/-- However the two threads interleave: a resolved memo comes from an environ read
that started after the latest drop of its pid, unless a call was overtaken by a full
turn of the sequence. -/
theorem resolved_after_last_drop (steps : List CacheStep)
    (hunwrapped : Along AppIdCache.step AppIdCache.Unwrapped {} steps) (pid : Nat) (memo : AppIdMemo) :
    let s := steps.foldl AppIdCache.step {}
    s.cache pid = some memo → memo.isResolved = true →
      ∀ dropped, s.lastDrop pid = some dropped → dropped < s.readAt pid :=
  (hunwrapped.invariant AppIdCache.Sound AppIdCache.Sound.step AppIdCache.sound_init).resolved pid memo

section Races

/-- An exec between the scan thread's read and its store: the dispatch thread's read
is the one that is kept. -/
def execRace : List CacheStep :=
  [.lookup .scan 7, .readEnviron .scan (some ⟨"440"⟩), .dropAppid 7, .lookup .dispatch 7,
    .readEnviron .dispatch none, .settle .scan, .settle .dispatch]

theorem execRace_keeps_new_image :
    let s := execRace.foldl AppIdCache.step {}
    s.cache 7 = some (.absent 1) ∧ s.lastDrop 7 = some 2 ∧ 2 < s.readAt 7 := by
  have hunwrapped : Along AppIdCache.step AppIdCache.Unwrapped {} execRace := by
    refine ⟨trivial, trivial, trivial, trivial, trivial, ?_, ?_, trivial⟩
    · rintro c ⟨⟩
      decide
    · rintro c ⟨⟩
      decide
  exact ⟨rfl, rfl, resolved_after_last_drop execRace hunwrapped 7 (.absent 1) rfl rfl 2 rfl⟩

/-- The state after a lookup and a read that found no memo, and so many drops. -/
def overtaken (drops : Nat) : AppIdCache :=
  (List.replicate drops (.dropAppid 7)).foldl AppIdCache.step
    ([.lookup .scan 7, .readEnviron .scan (some ⟨"440"⟩)].foldl AppIdCache.step {})

theorem overtaken_succ (drops : Nat) : overtaken (drops + 1) = (overtaken drops).step (.dropAppid 7) := by
  rw [overtaken, List.replicate_succ', List.foldl_append]
  rfl

theorem overtaken_spec (drops : Nat) :
    (overtaken (drops + 1)).cache 7 = some (.stale (.ofNat (drops + 1))) ∧
      (overtaken (drops + 1)).call .dispatch = none ∧
      (overtaken (drops + 1)).call .scan = some ⟨7, 0, 0, some (1, some ⟨"440"⟩)⟩ ∧
      (overtaken (drops + 1)).clock = drops + 3 ∧
      (overtaken (drops + 1)).lastDrop 7 = some (drops + 2) := by
  induction drops with
  | zero => exact ⟨rfl, rfl, rfl, rfl, rfl⟩
  | succ drops ih =>
      obtain ⟨hcache, hdispatch, hscan, hclock, _⟩ := ih
      rw [overtaken_succ, AppIdCache.step, AppIdCache.act, AppIdCache.dropAppid, hdispatch]
      refine ⟨?_, hdispatch, hscan, ?_, ?_⟩
      · dsimp only
        rw [Function.update_self, hcache, AppIdMemo.dropped, AppIdMemo.seq, UInt64.ofNat_add (drops + 1) 1]
        rfl
      · dsimp only
        rw [hclock]
      · dsimp only
        rw [Function.update_self, hclock]

theorem settle_overtaken {drops : Nat} (hturn : UInt64.ofNat (drops + 1) = 0) :
    ((overtaken (drops + 1)).step (.settle .scan)).cache 7 = some (.present 0 ⟨"440"⟩) ∧
      ((overtaken (drops + 1)).step (.settle .scan)).lastDrop 7 = some (drops + 2) ∧
      ((overtaken (drops + 1)).step (.settle .scan)).readAt 7 = 1 := by
  obtain ⟨hcache, _, hscan, _, hlast⟩ := overtaken_spec drops
  have hfresh : AppIdMemo.fresh 0 ((overtaken (drops + 1)).cache 7) = true := by
    rw [hcache, hturn]
    rfl
  rw [AppIdCache.step, AppIdCache.act, AppIdCache.settle, hscan]
  dsimp only
  rw [if_pos hfresh]
  dsimp only
  rw [Function.update_self, Function.update_self]
  exact ⟨rfl, hlast, rfl⟩

/-- After a full turn of the sequence the memo is as the lookup saw it, and the read
of an image long gone is stored. -/
theorem full_turn_stores_old_image :
    ∃ steps : List CacheStep, let s := steps.foldl AppIdCache.step {}
      ∃ memo dropped, s.cache 7 = some memo ∧ memo.isResolved = true ∧ s.lastDrop 7 = some dropped ∧
        s.readAt 7 < dropped := by
  obtain ⟨drops, hturn⟩ : ∃ drops, UInt64.ofNat (drops + 1) = 0 := ⟨2 ^ 64 - 1, by decide⟩
  obtain ⟨hcache, hlast, hread⟩ := settle_overtaken hturn
  refine ⟨.lookup .scan 7 :: .readEnviron .scan (some ⟨"440"⟩) ::
    (List.replicate (drops + 1) (.dropAppid 7) ++ [.settle .scan]), ?_⟩
  rw [List.foldl_cons, List.foldl_cons, List.foldl_append]
  exact ⟨_, _, hcache, rfl, hlast, lt_of_eq_of_lt hread (by omega)⟩

end Races

end RichPresence.Detect
