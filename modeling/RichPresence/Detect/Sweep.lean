import RichPresence.Detect.Reuse

namespace RichPresence.Detect

/-- The name of a directory entry as a pid: digits only, and no more than fit. -/
def parseProcPid (name : List UInt8) : Option Nat :=
  if name.isEmpty then none
  else name.foldlM (fun pid byte =>
    let next := pid * 10 + (byte.toNat - 48)
    if 48 ≤ byte.toNat ∧ byte.toNat ≤ 57 ∧ next < 2 ^ 64 then some next else none) 0

/-- The slots with the number of those that this sweep has filled. -/
structure SlotList where
  slots : List Exec
  filled : Nat := 0
  scratch : ExecScratch

def slotLowTicks : Nat := 8

/-- Surplus slots go once the sweeps have left more than half of them unfilled often enough. -/
def SlotList.release (s : SlotList) : SlotList :=
  if s.filled * 2 < s.slots.length then
    let lowTicks := min (s.scratch.lowTicks + 1) 255
    if lowTicks ≥ slotLowTicks then
      { s with slots := s.slots.take s.filled, scratch := { s.scratch with lowTicks := 0 } }
    else { s with scratch := { s.scratch with lowTicks := lowTicks } }
  else { s with scratch := { s.scratch with lowTicks := 0 } }

theorem SlotList.take_release (s : SlotList) : s.release.slots.take s.release.filled = s.slots.take s.filled := by
  rw [release]
  split
  · dsimp only
    split
    · exact List.take_take.trans (by rw [Nat.min_self])
    · rfl
  · rfl

namespace ProcTable

variable (table : ProcTable)

def listTurn (s : SlotList) (entry : Option (List UInt8)) : SlotList :=
  match entry.bind parseProcPid with
  | none => s
  | some pid =>
      let slots := if s.filled = s.slots.length then s.slots ++ [Exec.default] else s.slots
      let read := table.readExecInto pid (slots.getD s.filled Exec.default) s.scratch
      { slots := slots.set s.filled read.2.1
        filled := if read.1 then s.filled + 1 else s.filled
        scratch := read.2.2 }

/-- The slots are filled from the front; only those before the returned number are of this sweep. -/
def processListInto (slots : List Exec) (scratch : ExecScratch) : Option Nat × List Exec × ExecScratch :=
  match table.entries with
  | none => (none, slots, scratch)
  | some entries =>
      let s := (entries.foldl table.listTurn { slots := slots, scratch := scratch }).release
      (some s.filled, s.slots, s.scratch)

/-- The processes that can be read, in the order of the directory. -/
def processList : Option (List Exec) :=
  table.entries.map fun entries => entries.filterMap fun entry => (entry.bind parseProcPid).bind table.readExec

theorem take_listTurn {s : SlotList} (h : s.filled ≤ s.slots.length) (entry : Option (List UInt8)) :
    (table.listTurn s entry).filled ≤ (table.listTurn s entry).slots.length ∧
      (table.listTurn s entry).slots.take (table.listTurn s entry).filled =
        s.slots.take s.filled ++ ((entry.bind parseProcPid).bind table.readExec).toList := by
  rw [listTurn]
  cases entry.bind parseProcPid with
  | none => exact ⟨h, (List.append_nil _).symm⟩
  | some pid =>
      dsimp only
      generalize hslots : (if s.filled = s.slots.length then s.slots ++ [Exec.default] else s.slots) = slots
      have hroom : s.filled < slots.length ∧ slots.take s.filled = s.slots.take s.filled := by
        rw [← hslots]
        split
        next hfull => simp [hfull]
        next hfull => exact ⟨by omega, rfl⟩
      obtain ⟨hlt, htake⟩ := hroom
      obtain ⟨left, hread⟩ := table.readExecInto_eq pid (slots.getD s.filled Exec.default) s.scratch
      rw [hread, Option.bind_some]
      cases table.readExec pid with
      | none =>
          refine ⟨by simpa using Nat.le_of_lt hlt, ?_⟩
          simp [List.take_set_of_le, htake]
      | some exec =>
          refine ⟨by simpa using Nat.succ_le_of_lt hlt, ?_⟩
          simp [List.take_add_one, List.take_set_of_le, htake, hlt]

theorem take_listTurns (entries : List (Option (List UInt8))) {s : SlotList} (h : s.filled ≤ s.slots.length) :
    (entries.foldl table.listTurn s).filled ≤ (entries.foldl table.listTurn s).slots.length ∧
      (entries.foldl table.listTurn s).slots.take (entries.foldl table.listTurn s).filled =
        s.slots.take s.filled ++ entries.filterMap fun entry => (entry.bind parseProcPid).bind table.readExec := by
  induction entries generalizing s with
  | nil => exact ⟨h, (List.append_nil _).symm⟩
  | cons entry entries ih =>
      obtain ⟨hle, htake⟩ := table.take_listTurn h entry
      obtain ⟨hle', htake'⟩ := ih hle
      refine ⟨hle', ?_⟩
      rw [List.foldl_cons, htake', htake, List.append_assoc, List.filterMap_cons]
      cases (entry.bind parseProcPid).bind table.readExec <;> rfl

theorem processListInto_eq (slots : List Exec) (scratch : ExecScratch) :
    ((table.processListInto slots scratch).1.map fun filled =>
      (table.processListInto slots scratch).2.1.take filled) = table.processList := by
  rw [processListInto, processList]
  cases table.entries with
  | none => rfl
  | some entries =>
      obtain ⟨-, htake⟩ := table.take_listTurns entries (s := ⟨slots, 0, scratch⟩) (Nat.zero_le _)
      simp only [Option.map_some, SlotList.take_release, htake, List.take_zero, List.nil_append]

-- The first slot is offered to a pid that cannot be read and keeps what it held until the next one fills it.
example :
    let table : ProcTable :=
      { entries := some [some [0x31], none, some [0x61], some [0x37]]
        openFile := fun path =>
          if path = "/proc/7/cmdline" then some ⟨"/run.exe\x00-w".toUTF8.toList, false⟩ else none
        readLink := fun _ => none }
    let listed := table.processListInto [⟨3, "old", some "args"⟩, ⟨4, "older", none⟩] { args := "stale" }
    listed.1 = some 1 ∧ listed.2.1 = [⟨7, "/run.exe", some "-w"⟩, ⟨4, "older", none⟩] := by
  decide +kernel

end ProcTable

namespace Server

variable (server : Server) (table : ProcTable) (bundle : DetectablesBundle)

def matchAll : List Exec → Bool → AppIdMemos → Buffers → (List ScannedHit × Bool) × AppIdMemos × Buffers
  | [], obsOpen, cache, b => (([], obsOpen), cache, b)
  | process :: processes, obsOpen, cache, b =>
      let (first, cache, b) := server.matchProcess table bundle process obsOpen cache b
      let (rest, cache, b) := matchAll processes first.2 cache b
      ((first.1.toList ++ rest.1, rest.2), cache, b)

/-- The process table is read into the slots, and the slots it fills are classified in turn. -/
def sweep (obsOpen : Bool) (cache : AppIdMemos) (b : Buffers) :
    Option (List ScannedHit × Bool) × AppIdMemos × Buffers :=
  let (filled, slots, exec) := table.processListInto b.slots b.exec
  let b := { b with slots := slots, exec := exec }
  match filled with
  | none => (none, cache, b)
  | some filled =>
      let (hits, cache, b) := server.matchAll table bundle (b.slots.take filled) obsOpen cache b
      (some hits, cache, b)

/-- The processes one after the other, each by itself. -/
def hits (host : Host) : List Exec → Bool → List ScannedHit × Bool
  | [], obsOpen => ([], obsOpen)
  | process :: processes, obsOpen =>
      let first := host.matchProcess bundle process obsOpen
      let rest := hits host processes first.2
      (first.1.toList ++ rest.1, rest.2)

variable (cache : AppIdMemos)

theorem matchAll_eq (processes : List Exec) (obsOpen : Bool) (b : Buffers) :
    ∃ left, server.matchAll table bundle processes obsOpen cache b =
      (hits bundle (server.host table cache) processes obsOpen,
        processes.foldl (fun cache process => server.memos table bundle process cache) cache, left) := by
  induction processes generalizing obsOpen cache b with
  | nil => exact ⟨b, rfl⟩
  | cons process processes ih =>
      obtain ⟨b₁, hfirst⟩ := server.matchProcess_eq table bundle cache process obsOpen b
      obtain ⟨b₂, hrest⟩ := ih (server.memos table bundle process cache)
        ((server.host table cache).matchProcess bundle process obsOpen).2 b₁
      rw [host_memos] at hrest
      refine ⟨b₂, ?_⟩
      rw [matchAll, hfirst]
      dsimp only
      rw [hrest, hits, List.foldl_cons]

theorem processListInto_cases (slots : List Exec) (exec : ExecScratch) :
    (∃ slots' exec', table.processListInto slots exec = (none, slots', exec') ∧ table.processList = none) ∨
      ∃ filled slots' exec', table.processListInto slots exec = (some filled, slots', exec') ∧
        table.processList = some (slots'.take filled) := by
  have hlist := table.processListInto_eq slots exec
  rcases hinto : table.processListInto slots exec with ⟨_ | filled, slots', exec'⟩
  · rw [hinto] at hlist
    exact .inl ⟨slots', exec', rfl, hlist.symm⟩
  · rw [hinto] at hlist
    exact .inr ⟨filled, slots', exec', rfl, hlist.symm⟩

theorem sweep_eq (obsOpen : Bool) (b : Buffers) :
    ∃ left, server.sweep table bundle obsOpen cache b =
      (table.processList.map fun processes => hits bundle (server.host table cache) processes obsOpen,
        (table.processList.getD []).foldl (fun cache process => server.memos table bundle process cache) cache,
        left) := by
  rcases processListInto_cases table b.slots b.exec with ⟨slots, exec, hinto, hlist⟩ |
    ⟨filled, slots, exec, hinto, hlist⟩
  · rw [sweep, hinto, hlist]
    exact ⟨_, rfl⟩
  · obtain ⟨left, hall⟩ := server.matchAll_eq table bundle cache (slots.take filled) obsOpen
      { b with slots := slots, exec := exec }
    refine ⟨left, ?_⟩
    rw [sweep, hinto, hlist]
    dsimp only
    rw [hall]
    rfl

/-- Whatever the slots and buffers hold, a sweep finds and remembers what it does with fresh ones. -/
theorem sweep_with_any_buffers (server : Server) (table : ProcTable) (bundle : DetectablesBundle) (obsOpen : Bool)
    (cache : AppIdMemos) (b : Buffers) :
    (server.sweep table bundle obsOpen cache b).1 = (server.sweep table bundle obsOpen cache {}).1 ∧
      (server.sweep table bundle obsOpen cache b).2.1 = (server.sweep table bundle obsOpen cache {}).2.1 := by
  obtain ⟨left, hb⟩ := server.sweep_eq table bundle cache obsOpen b
  obtain ⟨fresh, hfresh⟩ := server.sweep_eq table bundle cache obsOpen {}
  rw [hb, hfresh]
  exact ⟨rfl, rfl⟩

/-- The memos of processes that are gone are dropped. -/
def sweepDeadAppids (processes : List Exec) (cache : AppIdMemos) : AppIdMemos :=
  fun pid => if pid ∈ processes.map Exec.pid then cache pid else none

/-- One tick of the scanner: the slots and the scratch space are the caller's, the other buffers are its own. -/
def scanForProcesses (cache : AppIdMemos) (b : Buffers) :
    Option (List ScannedHit × Bool) × AppIdMemos × Buffers :=
  let (filled, slots, exec) := table.processListInto b.slots b.exec
  let b := { b with slots := slots, exec := exec }
  match filled with
  | none => (none, cache, b)
  | some filled =>
      let processes := b.slots.take filled
      let (hits, cache, b) := server.matchAll table bundle processes false (sweepDeadAppids processes cache)
        { b with variants := {}, reversed := [] }
      (some hits, cache, b)

/-- A tick asks with the memos of the processes that are left. -/
theorem scanForProcesses_eq (b : Buffers) :
    ∃ left, server.scanForProcesses table bundle cache b =
      (table.processList.map fun processes =>
          hits bundle (server.host table (sweepDeadAppids processes cache)) processes false,
        table.processList.elim cache fun processes =>
          processes.foldl (fun cache process => server.memos table bundle process cache)
            (sweepDeadAppids processes cache),
        left) := by
  rcases processListInto_cases table b.slots b.exec with ⟨slots, exec, hinto, hlist⟩ |
    ⟨filled, slots, exec, hinto, hlist⟩
  · rw [scanForProcesses, hinto, hlist]
    exact ⟨_, rfl⟩
  · obtain ⟨left, hall⟩ := server.matchAll_eq table bundle (sweepDeadAppids (slots.take filled) cache)
      (slots.take filled) false { b with slots := slots, exec := exec, variants := {}, reversed := [] }
    refine ⟨left, ?_⟩
    rw [scanForProcesses, hinto, hlist]
    dsimp only
    rw [hall]
    rfl

end Server

/-- What one tick meets: the settings, the process table and the database change between ticks. -/
structure ScanTick where
  server : Server
  table : ProcTable
  bundle : DetectablesBundle

/-- One tick after the other, each with the buffers that the last one left. -/
def scans : List ScanTick → AppIdMemos → Buffers → List (Option (List ScannedHit × Bool))
  | [], _, _ => []
  | tick :: ticks, cache, b =>
      let (found, cache, b) := tick.server.scanForProcesses tick.table tick.bundle cache b
      found :: scans ticks cache b

def freshScans : List ScanTick → AppIdMemos → List (Option (List ScannedHit × Bool))
  | [], _ => []
  | tick :: ticks, cache =>
      let (found, cache, _) := tick.server.scanForProcesses tick.table tick.bundle cache {}
      found :: freshScans ticks cache

theorem scans_eq_freshScans (ticks : List ScanTick) (cache : AppIdMemos) (b : Buffers) :
    scans ticks cache b = freshScans ticks cache := by
  induction ticks generalizing cache b with
  | nil => rfl
  | cons tick ticks ih =>
      obtain ⟨left, hb⟩ := tick.server.scanForProcesses_eq tick.table tick.bundle cache b
      obtain ⟨fresh, hfresh⟩ := tick.server.scanForProcesses_eq tick.table tick.bundle cache {}
      rw [scans, freshScans, hb, hfresh]
      exact congrArg _ (ih _ left)

end RichPresence.Detect
