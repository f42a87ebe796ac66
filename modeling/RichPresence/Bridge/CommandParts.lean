import RichPresence.Bridge.Sections

namespace RichPresence

open Lib

section

variable (C : Codec) (env : Env) (cmd : ActivityCmd)

/-- The end of a command as a program: fan out when the cached card differed. -/
def announcing (changed : Bool) : Prog Shared Unit :=
  if changed then
    match sdkCard C env cmd with
    | some payload => broadcastActivity env payload (SocketId.ofPid cmd.pid)
    | none => return
  else return

def proceeding : Prog Shared Unit := do
  let changed ← activityChanged (SocketId.ofPid cmd.pid) (fingerprint C env cmd)
  noteSdkPublish env (fixed C env cmd)
  resumeAfterClear C env (fixed C env cmd)
  announcing C env cmd changed

def guarded (answer : Shared → Bool) : Prog Shared Unit := do
  let drop ← Prog.locked fun s => (answer s, recorded C env cmd s)
  if drop then
    return
  if cmd.args.isNone then
    return
  proceeding C env cmd

theorem floodDropped_eq : floodDropped env (fixed C env cmd) (fingerprint C env cmd) =
    Prog.locked fun s => (dropped C env cmd s, recorded C env cmd s) := by
  rw [floodDropped]
  rw [fixed_pid]
  rfl

theorem handleSetActivity_eq : handleSetActivity C env cmd = guarded C env cmd (dropped C env cmd) := by
  simp only [handleSetActivity, activityFingerprint_eq, floodDropped_eq, fixed_args_isNone, fixed_pid, guarded]
  congr 1
  funext drop
  cases drop with
  | true => rfl
  | false =>
      simp only [Bool.false_eq_true, if_false]
      split
      next => rfl
      next =>
        rw [proceeding]
        congr 1
        funext changed
        simp only [announcing, sdkCard]
        cases changed with
        | false => rfl
        | true => cases cachedActivity C env.buildClock (fixed C env cmd) (fingerprint C env cmd) <;> rfl

theorem resumeAfterClear_eq (hg : isGenuineClear cmd = true) : resumeAfterClear C env (fixed C env cmd) =
    Prog.locked (fun s => (resumable env cmd s, released env cmd s)) >>= fun games =>
      forM games (resumeGeneric C env) := by
  simp only [resumeAfterClear, isGenuineClear_fixed, hg, releaseSlots_fixed]
  rfl

theorem noteSdkPublish_eq : noteSdkPublish env (fixed C env cmd) =
    if cmd.activity.isSome ∧ cmd.applicationId.isSome then Prog.updates (claimed env cmd) else pure () := by
  rw [noteSdkPublish, fixed_activity, fixed_pid]
  cases cmd.activity with
  | none => rfl
  | some activity =>
      cases ha : cmd.applicationId with
      | none => rfl
      | some app =>
          have hc : claimed env cmd = fun s => { s with handoff := s.handoff.notePublish env app cmd.pid } := by
            funext s
            rw [claimed, ha]
          rw [if_pos ⟨rfl, rfl⟩, hc]
          rfl

def claim (o : Owners) : Owners :=
  match cmd.applicationId with
  | some app => Function.update o app (some cmd.pid)
  | none => o

def release (o : Owners) : Owners := fun app => if Releases cmd app ∧ o app = some cmd.pid then none else o app

end

/-- What a clear takes when it releases the slots it owns in `o`: the places of
the games it gives back. -/
def given (env : Env) (cmd : ActivityCmd) (start : Shared) (o : Owners) : Set Place :=
  {i | isGenuineClear cmd = true ∧
    ∃ game ∈ resumable env cmd start, o game.id = some cmd.pid ∧ i ∈ slotPlaces game.id}

theorem claim_apply (cmd : ActivityCmd) (o : Owners) (app : AppId) :
    claim cmd o app = if cmd.applicationId = some app then some cmd.pid else o app := by
  rw [claim]
  cases cmd.applicationId with
  | none => rfl
  | some a => simp [Function.update_apply, eq_comm]

theorem given_of_not_clear {env : Env} {cmd : ActivityCmd} {start : Shared} (h : isGenuineClear cmd = false) :
    given env cmd start = fun _ => ∅ := by
  funext o
  ext i
  simp [given, h]

theorem given_congr {env : Env} {cmd : ActivityCmd} {start : Shared} {o o' : Owners}
    (h : isGenuineClear cmd = true → ∀ game ∈ resumable env cmd start,
      (o game.id = some cmd.pid ↔ o' game.id = some cmd.pid)) : given env cmd start o = given env cmd start o' := by
  ext i
  constructor
  · rintro ⟨hg, game, hm, ho, hi⟩
    exact ⟨hg, game, hm, (h hg game hm).mp ho, hi⟩
  · rintro ⟨hg, game, hm, ho, hi⟩
    exact ⟨hg, game, hm, (h hg game hm).mpr ho, hi⟩

theorem differs_congr {x y : Option (CachedActivity × UInt64)} (h : x.map (·.1) = y.map (·.1))
    (fp : Option Bytes) : differs x fp = differs y fp := by
  cases x with
  | none => rw [Option.map_eq_none_iff.mp h.symm]
  | some a =>
      obtain ⟨b, rfl, hb⟩ := Option.map_eq_some_iff.mp h.symm
      change b.1 = a.1 at hb
      cases fp <;> simp only [differs, hb]

theorem look_claimed {env : Env} {cmd : ActivityCmd} {s : Shared} : (claimed env cmd s).look = s.look := by
  rw [claimed]
  cases cmd.applicationId with
  | none => rfl
  | some app => funext i; cases i <;> rfl

theorem owners_released {env : Env} {cmd : ActivityCmd} {s : Shared} :
    (released env cmd s).owners = release cmd s.owners := by
  funext app
  exact releaseSlots_liveIpc env cmd s.handoff app

theorem look_released {env : Env} {cmd : ActivityCmd} {s : Shared} : (released env cmd s).look = s.look := by
  funext i
  cases i with
  | scan app => exact congrArg (AList.lookup app) (releaseSlots_lastScans env cmd s.handoff)
  | _ => rfl

theorem scan_of_resumable {env : Env} {cmd : ActivityCmd} {s : Shared} {game : ScannedGame}
    (h : game ∈ resumable env cmd s) :
    s.look (.scan game.id) = some game :=
  (mem_releaseSlots.mp (List.mem_of_mem_filter h)).2.2

theorem resumable_of_owner {env : Env} {cmd : ActivityCmd} {s s₀ : Shared} {game : ScannedGame}
    (h : game ∈ resumable env cmd s₀)
    (ho : s.owners game.id = some cmd.pid) (hscan : s.look (.scan game.id) = some game) :
    game ∈ resumable env cmd s := by
  obtain ⟨hm, halive⟩ := List.mem_filter.mp h
  exact List.mem_filter.mpr ⟨mem_releaseSlots.mpr ⟨(mem_releaseSlots.mp hm).1, ho, hscan⟩, halive⟩

namespace Meeting

/-- A command the meeting has room for. No clear of the meeting gives back what
a publish from the same pid takes. -/
structure Invites (M : Meeting) (env : Env) (cmd : ActivityCmd) : Prop where
  listed : cmd ∈ M.cmds
  card : cmd.activity.isSome → SocketId.ofPid cmd.pid ∈ M.bounds.cards
  owner : cmd.activity.isSome → ∀ app, cmd.applicationId = some app → app ∈ M.bounds.owners
  rivals : cmd.activity.isSome → ∀ app, cmd.applicationId = some app → ∀ c ∈ M.cmds, isGenuineClear c = true →
    Releases c app → c.pid ≠ cmd.pid
  games : isGenuineClear cmd = true → ∀ game ∈ resumable env cmd M.start,
    game.id ∈ M.bounds.slots ∧ SocketId.ofApp game.id ∈ M.bounds.cards

variable {M : Meeting} {w : Contents} {o : Owners} {C : Codec} {env : Env} {cmd : ActivityCmd} {s : Shared}

theorem sets_recorded (C : Codec) (env : Env) (cmd : ActivityCmd) (s : Shared) :
    Sets .guard (some (guardAnswer C env cmd s).2) s (recorded C env cmd s) :=
  ⟨s.look_recorded env C cmd, rfl⟩

theorem Holds.recorded (hs : M.Holds s) : M.Holds (recorded C env cmd s) :=
  hs.write (i := .guard) (fun _ => trivial) (fun _ h => nomatch h) (sets_recorded C env cmd s)

theorem Fair.claim (h : M.Fair w o) (hi : M.Invites env cmd) (hact : cmd.activity.isSome) :
    M.Fair w (claim cmd o) := by
  rw [RichPresence.claim]
  split
  next app ha =>
    refine ⟨h.places, fun a hs => ?_, fun c hc a hg hr ho => ?_⟩
    · by_cases haa : a = app
      · exact haa ▸ hi.owner hact app ha
      · rw [Function.update_of_ne haa] at hs
        exact h.owners a hs
    · by_cases haa : a = app
      · subst haa
        rw [Function.update_self] at ho
        exact absurd (Option.some.inj ho).symm (hi.rivals hact a ha c hc hg hr)
      · rw [Function.update_of_ne haa] at ho
        exact h.held c hc a hg hr ho
  next => exact h

theorem owners_claimed (hs : M.Holds s) : (claimed env cmd s).owners = claim cmd s.owners := by
  rw [claimed, RichPresence.claim]
  cases cmd.applicationId with
  | none => rfl
  | some app =>
      funext a
      simp only [Shared.owners, HandoffState.notePublish, Table.insertBounded_of_room hs.owners_fit,
        Table.lookup_insert_eq, Function.update_apply]

theorem Holds.claimed (hs : M.Holds s) (hi : M.Invites env cmd) (hact : cmd.activity.isSome) :
    M.Holds (claimed env cmd s) := by
  rw [Holds, look_claimed, owners_claimed hs]
  exact Fair.claim hs hi hact

theorem Fair.release (h : M.Fair w o) : M.Fair w (release cmd o) where
  places := h.places
  owners app hs := by
    rw [RichPresence.release] at hs
    split at hs
    next => cases hs
    next => exact h.owners app hs
  held c hc app hg hr ho := by
    rw [RichPresence.release] at ho
    split at ho
    next => cases ho
    next => exact h.held c hc app hg hr ho

theorem Holds.released (hs : M.Holds s) : M.Holds (released env cmd s) := by
  rw [Holds, look_released, owners_released]
  exact Fair.release hs

theorem Holds.of_resumable (hs : M.Holds s) (hi : M.Invites env cmd) (hg : isGenuineClear cmd = true)
    {game : ScannedGame} (h : game ∈ resumable env cmd s) :
    game ∈ resumable env cmd M.start ∧ s.owners game.id = some cmd.pid := by
  obtain ⟨hm, halive⟩ := List.mem_filter.mp h
  obtain ⟨hr, ho, hscan⟩ := mem_releaseSlots.mp hm
  obtain ⟨hstart, hsame | hnone⟩ := Fair.held hs cmd hi.listed game.id hg hr ho
  · exact ⟨List.mem_filter.mpr ⟨mem_releaseSlots.mpr ⟨hr, hstart, hsame.symm.trans hscan⟩, halive⟩, ho⟩
  · exact absurd (hnone.symm.trans hscan) (by simp)

end Meeting

end RichPresence
