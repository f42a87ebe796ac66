import RichPresence.Detect.Classify

namespace RichPresence.Detect

open Lib

/-- An open file: what can be read from it, and whether the read then ends or breaks off with an error. -/
structure ByteSource where
  bytes : List UInt8
  broken : Bool := false

/-- The contents of the process table. An entry of its directory may fail to be read, a file to be opened. -/
structure ProcTable where
  entries : Option (List (Option (List UInt8)))
  openFile : String → Option ByteSource
  readLink : String → Option String

/-- The greatest length up to which the bytes are valid. -/
def validUpTo (bytes : List UInt8) : Nat :=
  ((List.range (bytes.length + 1)).reverse.find? fun n => (decodeUtf8 (bytes.take n)).isSome).getD 0

/-- A character that the end of the buffer has split is dropped. -/
def wholeChars (bytes : List UInt8) : List UInt8 :=
  if (decodeUtf8 bytes).isNone then bytes.take (validUpTo bytes) else bytes

namespace ByteSource

/-- At most `limit` bytes are appended to the buffer. An error behind them is not met. -/
def readToEnd (file : ByteSource) (limit : Nat) (buf : List UInt8) : Bool × List UInt8 :=
  (!file.broken || limit ≤ file.bytes.length, buf ++ file.bytes.take limit)

/-- Text is appended whole or, when it is not valid, not at all. -/
def readToString (file : ByteSource) (limit : Nat) (buf : Path) : Bool × Path :=
  let read := file.readToEnd limit []
  match decodeUtf8 read.2 with
  | some text => (read.1, buf ++ text)
  | none => (false, buf)

end ByteSource

def procFile (pid : Nat) (name : String) : String := "/proc/" ++ Nat.repr pid ++ "/" ++ name

structure ExecScratch where
  path : String := ""
  cmdline : List UInt8 := []
  args : String := ""
  environ : List UInt8 := []
  lowTicks : Nat := 0

def Exec.default : Exec := ⟨0, "", none⟩

def maxCmdlineBytes : Nat := 64 * 1024

/-- The arguments are joined by blanks behind what the buffer holds. -/
def joinArgs (args : String) (rest : List Path) : String :=
  rest.zipIdx.foldl (fun args arg => (if arg.2 > 0 then args.push ' ' else args) ++ String.ofList arg.1) args

namespace ProcTable

variable (table : ProcTable)

/-- The slot and the scratch trade their argument buffers. -/
def fillExec (pid : Nat) (text : Path) (exec : Exec) (scratch : ExecScratch) : Exec × ExecScratch :=
  let parts := text.splitOnP (· == '\x00')
  let exec := { exec with pid := pid, path := "" }
  let exec := { exec with path := exec.path ++ String.ofList (parts.head?.getD []) }
  let scratch := { scratch with args := "" }
  let scratch := { scratch with args := joinArgs scratch.args (parts.drop 1) }
  let previous := exec.arguments
  let exec := { exec with arguments := none }
  let (exec, scratch) :=
    if scratch.args.isEmpty then (exec, scratch)
    else ({ exec with arguments := some scratch.args }, { scratch with args := "" })
  match previous with
  | none => (exec, scratch)
  | some _ => (exec, { scratch with args := "" })

def readExecInto (pid : Nat) (exec : Exec) (scratch : ExecScratch) : Bool × Exec × ExecScratch :=
  let scratch := { scratch with path := "" }
  let scratch := { scratch with path := scratch.path ++ procFile pid "cmdline" }
  match table.openFile scratch.path with
  | none => (false, exec, scratch)
  | some file =>
      let scratch := { scratch with cmdline := [] }
      let read := file.readToEnd (maxCmdlineBytes + 1) scratch.cmdline
      let scratch := { scratch with cmdline := read.2 }
      if !read.1 then (false, exec, scratch)
      else if scratch.cmdline.isEmpty then (false, exec, scratch)
      else
        let scratch := { scratch with cmdline := scratch.cmdline.take maxCmdlineBytes }
        let scratch := { scratch with cmdline := wholeChars scratch.cmdline }
        match decodeUtf8 scratch.cmdline with
        | none => (false, exec, scratch)
        | some text => (true, fillExec pid text exec scratch)

def readExec (pid : Nat) : Option Exec :=
  let read := table.readExecInto pid Exec.default {}
  if read.1 then some read.2.1 else none

theorem fillExec_fst (pid : Nat) (text : Path) (exec : Exec) (scratch : ExecScratch) :
    (fillExec pid text exec scratch).1 = (fillExec pid text Exec.default {}).1 := by
  rw [fillExec, fillExec]
  cases exec.arguments with
  | none =>
      dsimp only
      split <;> rfl
  | some previous =>
      dsimp only
      split <;> rfl

/-- The text of a command line that is there to be read. -/
def cmdline (pid : Nat) : Option Path :=
  (table.openFile (procFile pid "cmdline")).bind fun file =>
    let read := file.readToEnd (maxCmdlineBytes + 1) []
    if !read.1 || read.2.isEmpty then none else decodeUtf8 (wholeChars (read.2.take maxCmdlineBytes))

theorem readExecInto_cmdline (pid : Nat) (exec : Exec) (scratch : ExecScratch) :
    ∃ left, table.readExecInto pid exec scratch =
      match table.cmdline pid with
      | none => (false, exec, left)
      | some text => (true, fillExec pid text exec left) := by
  rw [readExecInto, cmdline]
  simp only [String.empty_append]
  cases table.openFile (procFile pid "cmdline") with
  | none => exact ⟨_, rfl⟩
  | some file =>
      simp only [Option.bind_some]
      by_cases hread : (!(file.readToEnd (maxCmdlineBytes + 1) []).1) = true
      · rw [if_pos hread, hread, Bool.true_or, if_pos rfl]
        exact ⟨_, rfl⟩
      rw [if_neg hread, eq_false_of_ne_true hread, Bool.false_or]
      split
      · exact ⟨_, rfl⟩
      · cases decodeUtf8 (wholeChars ((file.readToEnd (maxCmdlineBytes + 1) []).2.take maxCmdlineBytes)) with
        | none => exact ⟨_, rfl⟩
        | some text => exact ⟨_, rfl⟩

theorem readExecInto_eq (pid : Nat) (exec : Exec) (scratch : ExecScratch) :
    ∃ left, table.readExecInto pid exec scratch =
      ((table.readExec pid).isSome, (table.readExec pid).getD exec, left) := by
  obtain ⟨left, hleft⟩ := table.readExecInto_cmdline pid exec scratch
  obtain ⟨fresh, hfresh⟩ := table.readExecInto_cmdline pid Exec.default {}
  rw [readExec, hleft, hfresh]
  cases table.cmdline pid with
  | none => exact ⟨left, rfl⟩
  | some text =>
      refine ⟨(fillExec pid text exec left).2, ?_⟩
      have hexec := (fillExec_fst pid text exec left).trans (fillExec_fst pid text Exec.default fresh).symm
      exact congrArg (true, ·) (Prod.ext hexec rfl)

end ProcTable

end RichPresence.Detect
