import RichPresence.Lib.Table
import RichPresence.Protocol.Payload

namespace RichPresence

open Lib

inductive DetectSource
  | automaton
  | cwdJoined
  | protonAutomaton
  | steamAppId
  | steamLibrary
  | exeStem
  | folder
  deriving DecidableEq, Repr

def DetectSource.asStr : DetectSource → String
  | automaton => "automaton"
  | cwdJoined => "cwd-joined"
  | protonAutomaton => "proton-automaton"
  | steamAppId => "steam-app-id"
  | steamLibrary => "steam-library"
  | exeStem => "exe-stem"
  | folder => "folder"

structure ScannedGame where
  id : AppId
  name : String
  pid : Nat
  start : Nat
  source : DetectSource
  processStartMs : Option Nat
  deriving DecidableEq, Repr

inductive ProcInput
  | detected (game : ScannedGame)
  | removed (appId : AppId) (pid : Nat)
  | cleared
  deriving DecidableEq, Repr

abbrev ClientId := Nat

inductive Message
  | text (payload : String)
  | binary (payload : Bytes)
  deriving DecidableEq, Repr

/-- What the bridge reads from its surroundings while it handles one input: the
order hash tables are walked in, the platform's liveness probe, the clocks, and
whether a consumer's outbox takes one more frame after those it has taken. -/
structure Env : Type 1 where
  walk : Walk
  probe : Nat → Bool
  instant : Nat
  fingerprintClock : Nat
  buildClock : Nat
  nowMs : Nat
  accepts : ClientId → List Message → Bool

def Env.isProcessAlive (env : Env) (pid : Nat) : Bool := pid != 0 && env.probe pid

/-- Surroundings that walk tables in stored order and whose consumers take
every frame, with the clocks at one moment. -/
def Env.calm (probe : Nat → Bool) (instant : Nat) : Env where
  walk := .inOrder
  probe := probe
  instant := instant
  fingerprintClock := 1763200000
  buildClock := 1763200000
  nowMs := 1763200000000
  accepts _ _ := true

def maxHandoffEntries : Nat := 64

theorem no_scans_keyed (a : AppId) (g : ScannedGame) (hg : (∅ : Table AppId ScannedGame).lookup a = some g) :
    g.id = a := by
  simp at hg

/-- Owners of the application slots and the games the scanner last reported. A
remembered game always stands under its own id. -/
structure HandoffState where
  liveIpc : Table AppId Nat := ∅
  lastScans : Table AppId ScannedGame := ∅
  keyed : ∀ a g, lastScans.lookup a = some g → g.id = a := by exact no_scans_keyed

namespace HandoffState

def notePublish (env : Env) (appId : AppId) (pid : Nat) (h : HandoffState) : HandoffState :=
  { h with liveIpc := Table.insertBounded env.walk maxHandoffEntries env.isProcessAlive appId pid h.liveIpc }

def noteClear (appId : AppId) (pid : Nat) (h : HandoffState) : Bool × HandoffState :=
  if h.liveIpc.lookup appId = some pid then (true, { h with liveIpc := h.liveIpc.erase appId })
  else (false, h)

def noteRemove (appId : AppId) (pid : Nat) (h : HandoffState) : Option ScannedGame × HandoffState :=
  if ((h.lastScans.lookup appId).map (·.pid)) = some pid then
    (h.lastScans.lookup appId,
      { h with
        lastScans := h.lastScans.erase appId
        keyed := by
          intro a g hg
          rw [Table.lookup_erase_eq] at hg
          split at hg
          next => cases hg
          next => exact h.keyed a g hg })
  else (none, h)

def noteScan (env : Env) (game : Option ScannedGame) (h : HandoffState) : HandoffState :=
  match game with
  | some game =>
      { h with
        lastScans := Table.insertBounded env.walk maxHandoffEntries (fun known => env.isProcessAlive known.pid)
          game.id game h.lastScans
        keyed := by
          intro a g hg
          rcases Table.lookup_insertBounded hg with ⟨rfl, rfl⟩ | hg
          · rfl
          · exact h.keyed a g hg }
  | none => { h with lastScans := ∅, keyed := no_scans_keyed }

def noteClearPid (env : Env) (pid : Nat) (h : HandoffState) : List AppId × HandoffState :=
  (env.walk.order (Table.retain (fun _ owner => owner == pid) h.liveIpc).keys,
    { h with liveIpc := Table.retain (fun _ owner => owner != pid) h.liveIpc })

def isSuppressed (appId : AppId) (h : HandoffState) : Bool := (h.liveIpc.lookup appId).isSome

def ownerOf (appId : AppId) (h : HandoffState) : Option Nat := h.liveIpc.lookup appId

def resumeFor (appId : AppId) (h : HandoffState) : Option ScannedGame := h.lastScans.lookup appId

@[simp] theorem noteScan_liveIpc (env : Env) (game : Option ScannedGame) (h : HandoffState) :
    (h.noteScan env game).liveIpc = h.liveIpc := by
  cases game <;> rfl

@[simp] theorem noteRemove_liveIpc (appId : AppId) (pid : Nat) (h : HandoffState) :
    (h.noteRemove appId pid).2.liveIpc = h.liveIpc := by
  rw [noteRemove]
  split <;> rfl

end HandoffState

def trackProcessPublication (env : Env) (appId : AppId) (pid : Nat) (map : Table AppId Nat) : Table AppId Nat :=
  Table.insertBounded env.walk maxHandoffEntries env.isProcessAlive appId pid map

end RichPresence
