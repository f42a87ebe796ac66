import RichPresence.Lib.Codec
import RichPresence.Lib.Loop
import RichPresence.ProcEvents.Tracker
import RichPresence.Protocol.Payload

namespace RichPresence.ProcEvents

open Lib

section Walk

def sizeNlmsghdr : Nat := 16
def nlmsgNoop : Nat := 1
def nlmsgError : Nat := 2
def nlmsgOverrun : Nat := 4
def cnIdxProc : UInt32 := 1
def cnValProc : UInt32 := 1
def sizeCnMsg : Nat := 20
def procEventExec : UInt32 := 0x2
def procEventExit : UInt32 := 0x80000000

inductive ProcEvent
  | exec (pid : Nat)
  | exit (pid : Nat)
  deriving DecidableEq, Repr

/-- The slice of a buffer; `none` is the panic of a slice out of bounds. -/
def slice (buf : Bytes) (start stop : Nat) : Option Bytes :=
  if start ≤ stop ∧ stop ≤ buf.length then some ((buf.drop start).take (stop - start)) else none

def readLe (buf : Bytes) (start width : Nat) : Option Nat := (slice buf start (start + width)).map leValue

def readU32 (buf : Bytes) (start : Nat) : Option UInt32 := (readLe buf start 4).map UInt32.ofNat

/-- The event of one data message. The outer `none` is a panic. -/
def parseProcEvent (body : Bytes) : Option (Option ProcEvent) :=
  if body.length < sizeCnMsg + 20 then some none
  else do
    let idx ← readU32 body 0
    let val ← readU32 body 4
    if idx ≠ cnIdxProc ∨ val ≠ cnValProc then some none
    else do
      let event ← slice body sizeCnMsg body.length
      let what ← readU32 event 0
      let pid ← readU32 event 16
      some (if what = procEventExec then some (.exec pid.toNat)
        else if what = procEventExit then some (.exit pid.toNat) else none)

variable {σ : Type}

/-- What is called for each message: the CPU, the sequence number and the event, with the answer
whether to go on. -/
abbrev Visitor (σ : Type) := σ → UInt32 → UInt32 → Option ProcEvent → σ × Bool

/-- One message; the answer says whether the walk goes on. `none` is a panic. -/
def takeMessage (visit : Visitor σ) (type : Nat) (body : Bytes) (state : σ) : Option (σ × Bool) :=
  if type = nlmsgNoop ∨ type = nlmsgOverrun then some (state, true)
  else if type = nlmsgError then
    if 4 ≤ body.length then (readU32 body 0).map fun code => (state, code = 0) else some (state, true)
  else if sizeCnMsg + 8 ≤ body.length then do
    let idx ← readU32 body 0
    let val ← readU32 body 4
    if idx = cnIdxProc ∧ val = cnValProc then do
      let seq ← readU32 body 8
      let cpu ← readU32 body 24
      let event ← parseProcEvent body
      some (visit state cpu seq event)
    else some (state, true)
  else some (state, true)

structure Walk (σ : Type) where
  offset : Nat
  state : σ

/-- One turn of the walk. It ends with the visitor's state, or with `none` when it panics. -/
def walkTurn (buf : Bytes) (visit : Visitor σ) (w : Walk σ) : Walk σ ⊕ Option σ :=
  -- the subtraction of machine integers would underflow
  if buf.length < w.offset then .inr none
  else if buf.length - w.offset < sizeNlmsghdr then .inr (some w.state)
  else
    match readLe buf w.offset 4, readLe buf (w.offset + 4) 2 with
    | some len, some type =>
        if len < sizeNlmsghdr ∨ buf.length - w.offset < len then .inr (some w.state)
        else
          match (slice buf (w.offset + sizeNlmsghdr) (w.offset + len)).bind
              fun body => takeMessage visit type body w.state with
          | none => .inr none
          | some (state, goOn) =>
              if !goOn then .inr (some state)
              else
                let offset := w.offset + max len sizeNlmsghdr
                if buf.length ≤ offset then .inr (some state) else .inl ⟨offset, state⟩
    | _, _ => .inr none

section Turn

variable {buf : Bytes} {visit : Visitor σ} {w t : Walk σ}

theorem walkTurn_next (h : walkTurn buf visit w = .inl t) :
    w.offset + sizeNlmsghdr ≤ t.offset ∧ t.offset < buf.length := by
  rw [walkTurn] at h
  split at h
  · cases h
  · split at h
    · cases h
    · split at h
      next len type _ _ =>
        split at h
        · cases h
        · split at h
          · cases h
          · dsimp only at h
            split at h
            · cases h
            · split at h
              · cases h
              next hstop =>
                obtain rfl := Sum.inl.inj h
                exact ⟨Nat.add_le_add_left (Nat.le_max_right _ _) _, Nat.lt_of_not_le hstop⟩
      · cases h

end Turn

def walk (buf : Bytes) (visit : Visitor σ) : Loop (Walk σ) (Option σ) where
  body := walkTurn buf visit
  size w := buf.length - w.offset
  shrinks h := by
    obtain ⟨hstep, hin⟩ := walkTurn_next h
    rw [sizeNlmsghdr] at hstep
    omega

theorem run_walk_next {buf : Bytes} {visit : Visitor σ} {w t : Walk σ} (h : walkTurn buf visit w = .inl t) :
    (walk buf visit).run w = (walk buf visit).run t := Loop.run_next h

theorem run_walk_last {buf : Bytes} {visit : Visitor σ} {w : Walk σ} {r : Option σ}
    (h : walkTurn buf visit w = .inr r) : (walk buf visit).run w = r := Loop.run_last h

def walkProcMessages (buf : Bytes) (visit : Visitor σ) (state : σ) : Option σ := (walk buf visit).run ⟨0, state⟩

/-- What the watcher keeps while it forwards: the tracker, the receiver of events and how many
it has taken. -/
structure Forward (ρ : Type) where
  seqs : SeqTracker
  sink : ρ
  forwarded : Nat

variable {ρ : Type}

def forwardVisitor (emit : ρ → ProcEvent → ρ × Bool) : Visitor (Forward ρ) := fun f cpu seq event =>
  let seqs := (f.seqs.note cpu seq).1
  match event with
  | none => ({ f with seqs := seqs }, true)
  | some event =>
      if (emit f.sink event).2 then (⟨seqs, (emit f.sink event).1, f.forwarded + 1⟩, true)
      else (⟨seqs, (emit f.sink event).1, f.forwarded⟩, false)

def forwardProcEvents (buf : Bytes) (seqs : SeqTracker) (emit : ρ → ProcEvent → ρ × Bool) (sink : ρ) :
    Option (Forward ρ) :=
  walkProcMessages buf (forwardVisitor emit) ⟨seqs, sink, 0⟩

end Walk

section Messages

/-- The four bytes at a place of a body that is long enough. -/
def word (body : Bytes) (start : Nat) : UInt32 := UInt32.ofNat (leValue ((body.drop start).take 4))

def eventOf (body : Bytes) : Option ProcEvent :=
  if body.length < sizeCnMsg + 20 ∨ word body 0 ≠ cnIdxProc ∨ word body 4 ≠ cnValProc then none
  else if word body 20 = procEventExec then some (.exec (word body 36).toNat)
  else if word body 20 = procEventExit then some (.exit (word body 36).toNat)
  else none

/-- A message that carries data and not only control. -/
def IsData (type : Nat) : Prop := type ≠ nlmsgNoop ∧ type ≠ nlmsgError ∧ type ≠ nlmsgOverrun

instance (type : Nat) : Decidable (IsData type) := inferInstanceAs (Decidable (_ ∧ _ ∧ _))

/-- The CPU, the sequence number and the event of a process message that is long enough for the
first two. -/
def observation (type : Nat) (body : Bytes) : Option (UInt32 × UInt32 × Option ProcEvent) :=
  if IsData type ∧ sizeCnMsg + 8 ≤ body.length ∧ word body 0 = cnIdxProc ∧ word body 4 = cnValProc then
    some (word body 24, word body 8, eventOf body)
  else none

def IsRefusal (type : Nat) (body : Bytes) : Prop := type = nlmsgError ∧ 4 ≤ body.length ∧ word body 0 ≠ 0

instance (type : Nat) (body : Bytes) : Decidable (IsRefusal type body) := inferInstanceAs (Decidable (_ ∧ _ ∧ _))

variable {σ : Type} {buf body : Bytes} {start stop width : Nat}

theorem slice_eq (hle : start ≤ stop) (hin : stop ≤ buf.length) :
    slice buf start stop = some ((buf.drop start).take (stop - start)) := if_pos ⟨hle, hin⟩

theorem readLe_eq (h : start + width ≤ buf.length) :
    readLe buf start width = some (leValue ((buf.drop start).take width)) := by
  rw [readLe, slice_eq (Nat.le_add_right _ _) h, Nat.add_sub_cancel_left]
  rfl

theorem readU32_eq (h : start + 4 ≤ body.length) : readU32 body start = some (word body start) := by
  rw [readU32, readLe_eq h]
  rfl

theorem parseProcEvent_eq (body : Bytes) : parseProcEvent body = some (eventOf body) := by
  rw [parseProcEvent, eventOf]
  by_cases hshort : body.length < sizeCnMsg + 20
  · rw [if_pos hshort, if_pos (.inl hshort)]
  · have hlong : 40 ≤ body.length := Nat.le_of_not_lt hshort
    have hevent : slice body sizeCnMsg body.length = some (body.drop 20) := by
      rw [slice_eq (by rw [sizeCnMsg]; omega) (Nat.le_refl _), sizeCnMsg, ← List.length_drop, List.take_length]
    have hword (start : Nat) : word (body.drop 20) start = word body (20 + start) := by
      rw [word, List.drop_drop, word]
    simp only [hshort, if_false, false_or, readU32_eq (show 0 + 4 ≤ body.length by omega),
      readU32_eq (show 4 + 4 ≤ body.length by omega), Option.bind_eq_bind, Option.bind_some]
    split
    · rfl
    · rw [hevent, Option.bind_some, readU32_eq (by rw [List.length_drop]; omega), Option.bind_some,
        readU32_eq (by rw [List.length_drop]; omega), Option.bind_some, hword, hword]

theorem observation_of_control {type : Nat} (h : ¬ IsData type) (body : Bytes) : observation type body = none :=
  if_neg fun hdata => h hdata.1

/-- What a message answers: where it leaves the visitor, and whether the walk goes on. -/
def answer (visit : Visitor σ) (type : Nat) (body : Bytes) (state : σ) : σ × Bool :=
  ((observation type body).map fun o => visit state o.1 o.2.1 o.2.2).getD (state, !decide (IsRefusal type body))

theorem takeMessage_eq (visit : Visitor σ) (type : Nat) (body : Bytes) (state : σ) :
    takeMessage visit type body state = some (answer visit type body state) := by
  rw [takeMessage, answer]
  by_cases hskip : type = nlmsgNoop ∨ type = nlmsgOverrun
  · have hdata : ¬ IsData type := fun h => hskip.elim h.1 h.2.2
    have hrefusal : ¬ IsRefusal type body := by
      rintro ⟨rfl, -⟩
      revert hskip
      decide
    rw [if_pos hskip, observation_of_control hdata, decide_eq_false hrefusal]
    rfl
  · rw [if_neg hskip]
    by_cases herror : type = nlmsgError
    · rw [if_pos herror, observation_of_control fun h => h.2.1 herror]
      by_cases hcode : 4 ≤ body.length
      · rw [if_pos hcode, readU32_eq (by omega)]
        simp [IsRefusal, herror, hcode]
      · rw [if_neg hcode]
        simp [IsRefusal, hcode]
    · have hdata : IsData type := ⟨fun h => hskip (.inl h), herror, fun h => hskip (.inr h)⟩
      have hrefusal : ¬ IsRefusal type body := fun h => herror h.1
      rw [if_neg herror, decide_eq_false hrefusal, observation]
      by_cases hlong : sizeCnMsg + 8 ≤ body.length
      · have hroom : 28 ≤ body.length := hlong
        simp only [hdata, hlong, true_and, if_true, readU32_eq (show 0 + 4 ≤ body.length by omega),
          readU32_eq (show 4 + 4 ≤ body.length by omega), readU32_eq (show 8 + 4 ≤ body.length by omega),
          readU32_eq (show 24 + 4 ≤ body.length by omega), parseProcEvent_eq, Option.bind_eq_bind, Option.bind_some]
        split <;> rfl
      · simp only [hlong, false_and, and_false, if_false]
        rfl

variable {σ : Type} {buf : Bytes} {visit : Visitor σ} {w : Walk σ}

theorem walkTurn_eq (hroom : w.offset + sizeNlmsghdr ≤ buf.length) :
    walkTurn buf visit w =
      let len := leValue ((buf.drop w.offset).take 4)
      let type := leValue ((buf.drop (w.offset + 4)).take 2)
      if len < sizeNlmsghdr ∨ buf.length - w.offset < len then .inr (some w.state)
      else
        let a := answer visit type ((buf.drop (w.offset + sizeNlmsghdr)).take (len - sizeNlmsghdr)) w.state
        if a.2 = false then .inr (some a.1)
        else if buf.length ≤ w.offset + len then .inr (some a.1)
        else .inl ⟨w.offset + len, a.1⟩ := by
  have hsize : sizeNlmsghdr = 16 := rfl
  rw [walkTurn, if_neg (by omega), if_neg (by omega), readLe_eq (by omega), readLe_eq (by omega)]
  dsimp only
  split
  · rfl
  next hlen =>
    rw [not_or, Nat.not_lt, Nat.not_lt] at hlen
    rw [slice_eq (by omega) (by omega), Option.bind_some, takeMessage_eq, Nat.add_sub_add_left,
      Nat.max_eq_left hlen.1]
    dsimp only
    cases (answer visit _ _ w.state).2 <;> rfl

theorem walkTurn_ne_panic (hin : w.offset ≤ buf.length) : walkTurn buf visit w ≠ .inr none := by
  by_cases hroom : w.offset + sizeNlmsghdr ≤ buf.length
  · rw [walkTurn_eq hroom]
    dsimp only
    split
    · simp
    · split
      · simp
      · split <;> simp
  · rw [walkTurn, if_neg (by omega), if_pos (by omega)]
    simp

theorem walk_isSome (buf : Bytes) (visit : Visitor σ) (state : σ) : (walkProcMessages buf visit state).isSome := by
  obtain ⟨hreach, hlast⟩ := (walk buf visit).ends ⟨0, state⟩
  have hin := hreach.invariant (fun w => w.offset ≤ buf.length)
    (fun _ _ _ hturn => Nat.le_of_lt (walkTurn_next hturn).2) (Nat.zero_le _)
  cases hrun : (walk buf visit).run ⟨0, state⟩ with
  | some s => rw [walkProcMessages, hrun, Option.isSome_some]
  | none =>
      rw [hrun] at hlast
      exact absurd hlast (walkTurn_ne_panic hin)

/-- Where the walk reads a header: at the heads of its turns that have room for one. -/
def headers (buf : Bytes) (visit : Visitor σ) (w : Walk σ) : List Nat :=
  (((walk buf visit).heads w).map Walk.offset).filter fun offset => offset + sizeNlmsghdr ≤ buf.length

theorem headers_next {t : Walk σ} (h : walkTurn buf visit w = .inl t) :
    headers buf visit w = w.offset :: headers buf visit t := by
  have hroom : w.offset + sizeNlmsghdr ≤ buf.length := by
    have hnext := walkTurn_next h
    omega
  rw [headers, Loop.heads_next h, List.map_cons, List.filter_cons_of_pos (by simpa using hroom)]
  rfl

theorem headers_last {r : Option σ} (h : walkTurn buf visit w = .inr r) :
    headers buf visit w = if w.offset + sizeNlmsghdr ≤ buf.length then [w.offset] else [] := by
  rw [headers, Loop.heads_last h, List.map_singleton, List.filter_singleton]
  simp

theorem length_headers (buf : Bytes) (visit : Visitor σ) (w : Walk σ) :
    (headers buf visit w).length * sizeNlmsghdr ≤ buf.length - w.offset := by
  induction hn : buf.length - w.offset using Nat.strongRecOn generalizing w with
  | ind n ih =>
      cases hturn : walkTurn buf visit w with
      | inl t =>
          have hnext := walkTurn_next hturn
          have hsize : sizeNlmsghdr = 16 := rfl
          have hrest := ih (buf.length - t.offset) (by omega) t rfl
          rw [headers_next hturn, List.length_cons, Nat.succ_mul]
          omega
      | inr r =>
          rw [headers_last hturn]
          split
          · rw [List.length_singleton]
            omega
          · exact Nat.le_trans (Nat.le_of_eq (Nat.zero_mul _)) (Nat.zero_le _)

end Messages

end RichPresence.ProcEvents
