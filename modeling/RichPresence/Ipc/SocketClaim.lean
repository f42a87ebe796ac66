import RichPresence.Ipc.LockStep
import RichPresence.Lib.Run

namespace RichPresence.Ipc.Claim

open Lib

def probeText : String := "rsrpc-probe"

/-- The probe of a path, from what it reads there before its budget is spent. There is
nothing to read where no connection is made. -/
def socketHolderAlive : Option Bytes → Bool
  | none => false
  | some input =>
      match readExact 8 input with
      | none => true
      | some (header, _) => fromLeBytes (header.take 4) = PacketType.pong.toU32

def candidatePaths (dirs : List String) : List String :=
  let bases := if dirs.isEmpty then ["/tmp/discord-ipc"] else dirs.map (· ++ "/discord-ipc")
  bases.flatMap fun base => (List.range 10).map fun tries => base ++ "-" ++ toString tries

inductive Node
  | socket (owner : Nat)
  | link
  | other
  deriving DecidableEq, Repr

/-- Where a transport stands, from the start of its bind until it is dropped. -/
inductive Stage
  | idle
  | trying (paths : List String)
  | inUse (path : String) (rest : List String)
  | stale (path : String) (rest : List String)
  | cleaned (path : String) (rest : List String)
  -- bound to its path, but not listening yet
  | opened (path : String)
  | serving (path : String)
  -- the listener is closed and the pumps are drained; the path still stands
  | closed (path : String)
  | ended
  deriving DecidableEq, Repr

/-- How the operating system meets the next call of a transport, and what a probe reads. -/
structure Reply where
  ok : Bool := true
  probe : Option Bytes := none

structure Host (E : Type) where
  entries : E → Option Node
  listening : Nat → Bool := fun _ => false
  stages : Nat → Stage := fun _ => .idle
  -- where a fan-out or its undoing has found a link that it is about to remove
  spotted : List E := []

inductive Event (E : Type)
  | bind (id : Nat) (dirs : List String)
  | turn (id : Nat) (reply : Reply)
  | close (id : Nat)
  | drop (id : Nat) (ok : Bool)
  | crash (id : Nat)
  | spot (entry : E)
  | unlink (entry : E) (ok : Bool)
  | link (entry : E)

namespace Event

variable {E : Type}

def mover : Event E → Option Nat
  | .bind id _ | .turn id _ | .close id | .drop id _ | .crash id => some id
  | _ => none

def ends : Event E → Option Nat
  | .close id | .drop id _ | .crash id => some id
  | _ => none

end Event

namespace Host

variable {E : Type}

def enter (h : Host E) (id : Nat) (stage : Stage) : Host E :=
  { h with stages := Function.update h.stages id stage }

def listen (h : Host E) (id : Nat) (on : Bool) : Host E :=
  { h with listening := Function.update h.listening id on }

section

variable {h : Host E} {id other : Nat} {stage : Stage} {on : Bool}

@[simp] theorem stages_enter_self : (h.enter id stage).stages id = stage := Function.update_self ..

theorem stages_enter_of_ne (hne : other ≠ id) : (h.enter id stage).stages other = h.stages other :=
  Function.update_of_ne hne ..

theorem listening_listen_of_ne (hne : other ≠ id) : (h.listen id on).listening other = h.listening other :=
  Function.update_of_ne hne ..

end

variable [DecidableEq E] (locate : String → E)

def place (h : Host E) (e : E) (node : Option Node) : Host E :=
  { h with entries := Function.update h.entries e node }

theorem entries_place_of_ne {h : Host E} {e e' : E} {node : Option Node} (hne : e' ≠ e) :
    (h.place e node).entries e' = h.entries e' :=
  Function.update_of_ne hne ..

/-- A bind at a path. An error other than that the address is in use ends the attempt
at this path, as one that comes after the cleaning does. -/
def bindAt (h : Host E) (id : Nat) (ok : Bool) (path : String) (rest : List String) (inUse : Stage) : Host E :=
  if ok = false then h.enter id (.trying rest)
  else match h.entries (locate path) with
    | none => (h.place (locate path) (some (.socket id))).enter id (.opened path)
    | some _ => h.enter id inUse

/-- The next call that a transport makes on its way to a listening socket. -/
def turn (h : Host E) (id : Nat) (reply : Reply) : Host E :=
  match h.stages id with
  | .trying [] => h.enter id .ended
  | .trying (path :: rest) => h.bindAt locate id reply.ok path rest (.inUse path rest)
  | .inUse path rest => h.enter id (if socketHolderAlive reply.probe then .trying rest else .stale path rest)
  | .stale path rest =>
      (if reply.ok then h.place (locate path) none else h).enter id (.cleaned path rest)
  | .cleaned path rest => h.bindAt locate id reply.ok path rest (.trying rest)
  | .opened path => (h.listen id true).enter id (.serving path)
  | _ => h

/-- The drop of a transport cleans its path, after a shutdown or without one. -/
def drop (h : Host E) (id : Nat) (ok : Bool) : Host E :=
  match h.stages id with
  | .serving path | .closed path =>
      ((if ok then h.place (locate path) none else h).listen id false).enter id .ended
  | _ => h

def close (h : Host E) (id : Nat) : Host E :=
  match h.stages id with
  | .serving path => (h.listen id false).enter id (.closed path)
  | _ => h

def spot (h : Host E) (e : E) : Host E :=
  if h.entries e = some .link then { h with spotted := e :: h.spotted } else h

/-- What is removed is what stands there by now. -/
def unlink (h : Host E) (e : E) (ok : Bool) : Host E :=
  if e ∈ h.spotted then { if ok then h.place e none else h with spotted := h.spotted.erase e } else h

def link (h : Host E) (e : E) : Host E :=
  if h.entries e = none then h.place e (some .link) else h

def step (h : Host E) : Event E → Host E
  | .bind id dirs => if h.stages id = .idle then h.enter id (.trying (candidatePaths dirs)) else h
  | .turn id reply => h.turn locate id reply
  | .close id => h.close id
  | .drop id ok => h.drop locate id ok
  | .crash id => (h.listen id false).enter id .ended
  | .spot e => h.spot e
  | .unlink e ok => h.unlink e ok
  | .link e => h.link e

def run (h : Host E) (events : List (Event E)) : Host E := events.foldl (step locate) h

end Host

section Probe

theorem pump_answers_probe (W : Wire) (world : Nat → Moment) (ending : Ending) :
    (handleStream W world ending (encode .ping probeText)).written = [encode .pong probeText] := by
  obtain ⟨outs, hstep, hrun⟩ := run_lockStep W world ending [⟨.ping, probeText⟩] (by decide +kernel)
    { input := encode .ping probeText } (by simp [Packet.bytes])
  cases hstep with
  | stopped hstop => cases hstop
  | next _ hanswer hrest =>
      cases hrest
      rw [handleStream, hrun]
      simpa [Packet.Answer] using hanswer

/-- A transport never takes another one for dead from its answer, however much of it
arrives in time. -/
theorem alive_of_answer {W : Wire} {world : Nat → Moment} {ending : Ending} {input : Bytes}
    (h : input <+: (handleStream W world ending (encode .ping probeText)).written.flatten) :
    socketHolderAlive (some input) = true := by
  rw [pump_answers_probe, List.flatten_singleton] at h
  rw [socketHolderAlive, readExact]
  by_cases hn : 8 ≤ input.length
  · have htake : input.take 8 = (encode .pong probeText).take 8 := by
      obtain ⟨tail, htail⟩ := h
      rw [← htail, List.take_append_of_le_length hn]
    have hkind : fromLeBytes (((encode .pong probeText).take 8).take 4) = PacketType.pong.toU32 := by decide +kernel
    rw [if_pos hn, htake]
    exact decide_eq_true hkind
  · rw [if_neg hn]

end Probe

namespace Stage

def held : Stage → Option String
  | .opened path | .serving path | .closed path => some path
  | _ => none

/-- The path that a transport is going to clean, now or when it is dropped. -/
def cleans : Stage → Option String
  | .stale path _ => some path
  | stage => stage.held

variable {stage : Stage} {path : String}

theorem cleans_of_held (h : stage.held = some path) : stage.cleans = some path := by
  cases stage <;> first | exact h | cases h

end Stage

section Moves

variable {E : Type} [DecidableEq E] (locate : String → E)

/-- The probe of a path that a listening transport holds is accepted, and reads some of
what the pump of that connection writes. -/
def answered (W : Wire) (world : Nat → Moment) (ending : Ending) (h : Host E) : Event E → Bool
  | .turn id reply =>
      match h.stages id with
      | .inUse path _ =>
          match h.entries (locate path) with
          | some (.socket owner) => !h.listening owner || reply.probe.any fun input =>
              input.isPrefixOf (handleStream W world ending (encode .ping probeText)).written.flatten
          | _ => true
      | _ => true
  | _ => true

inductive Relinks (h : Host E) : Host E → Prop
  | spots {e} : h.entries e = some .link → Relinks h { h with spotted := e :: h.spotted }
  | unlinks {e} : e ∈ h.spotted → Relinks h { h.place e none with spotted := h.spotted.erase e }
  | forgets {e} : Relinks h { h with spotted := h.spotted.erase e }
  | links {e} : h.entries e = none → Relinks h (h.place e (some .link))

inductive Moves (h : Host E) (id : Nat) : Host E → Prop
  | passes {stage} : (∀ path, h.stages id ≠ .serving path) → stage.cleans = none → Moves h id (h.enter id stage)
  | condemns {path rest} : (h.stages id).held = none →
      (∀ owner, h.entries (locate path) = some (.socket owner) → h.listening owner = false) →
        Moves h id (h.enter id (.stale path rest))
  | cleans {path rest} : h.stages id = .stale path rest →
      Moves h id ((h.place (locate path) none).enter id (.cleaned path rest))
  | opens {path} : (h.stages id).held = none → h.entries (locate path) = none →
      Moves h id ((h.place (locate path) (some (.socket id))).enter id (.opened path))
  | serves {path} : h.stages id = .opened path → Moves h id ((h.listen id true).enter id (.serving path))
  | closes {path} : h.stages id = .serving path → Moves h id ((h.listen id false).enter id (.closed path))
  | drops {path} : (h.stages id).held = some path →
      Moves h id (((h.place (locate path) none).listen id false).enter id .ended)
  | leaves : Moves h id ((h.listen id false).enter id .ended)

variable {locate} {h : Host E} {id : Nat}

theorem bindAt_moves {ok : Bool} {path : String} {rest : List String} {inUse : Stage}
    (hheld : (h.stages id).held = none) (hserving : ∀ path, h.stages id ≠ .serving path)
    (hinUse : inUse.cleans = none) : Moves locate h id (h.bindAt locate id ok path rest inUse) := by
  rw [Host.bindAt]
  split
  next => exact .passes hserving rfl
  next =>
      split
      next hnone => exact .opens hheld hnone
      next => exact .passes hserving hinUse

theorem turn_moves {W : Wire} {world : Nat → Moment} {ending : Ending} {reply : Reply}
    (hanswered : answered locate W world ending h (.turn id reply) = true) :
    h.turn locate id reply = h ∨ Moves locate h id (h.turn locate id reply) := by
  rw [Host.turn]
  split
  next hstage => exact .inr (.passes (by simp [hstage]) rfl)
  next hstage => exact .inr (bindAt_moves (by simp [hstage, Stage.held]) (by simp [hstage]) rfl)
  next path rest hstage =>
      refine .inr ?_
      split
      next => exact .passes (by simp [hstage]) rfl
      next hdead =>
          refine .condemns (by simp [hstage, Stage.held]) fun owner howner => ?_
          rw [← Bool.not_eq_true]
          intro hlistening
          simp only [answered, hstage, howner, hlistening, Bool.not_true, Bool.false_or] at hanswered
          obtain ⟨input, hinput, hpart⟩ := (Option.any_eq_true _ _).mp hanswered
          exact hdead (by rw [hinput]; exact alive_of_answer (List.isPrefixOf_iff_prefix.mp hpart))
  next hstage =>
      refine .inr ?_
      split
      next => exact .cleans hstage
      next => exact .passes (by simp [hstage]) rfl
  next hstage => exact .inr (bindAt_moves (by simp [hstage, Stage.held]) (by simp [hstage]) rfl)
  next hstage => exact .inr (.serves hstage)
  next => exact .inl rfl

theorem drop_moves {ok : Bool} : h.drop locate id ok = h ∨ Moves locate h id (h.drop locate id ok) := by
  have hdrops {path : String} (hheld : (h.stages id).held = some path) :
      Moves locate h id (((if ok then h.place (locate path) none else h).listen id false).enter id .ended) := by
    cases ok with
    | true => exact .drops hheld
    | false => exact .leaves
  rw [Host.drop]
  split
  next hstage => exact .inr (hdrops (by rw [hstage]; rfl))
  next hstage => exact .inr (hdrops (by rw [hstage]; rfl))
  next => exact .inl rfl

/-- An event is nothing, a move of the transport that it is about, or a change of links. -/
theorem step_moves {W : Wire} {world : Nat → Moment} {ending : Ending} {e : Event E}
    (hanswered : answered locate W world ending h e = true) :
    h.step locate e = h ∨ (∃ id, e.mover = some id ∧ Moves locate h id (h.step locate e)) ∨
      e.mover = none ∧ Relinks h (h.step locate e) := by
  cases e with
  | bind id dirs =>
      rw [Host.step]
      split
      next hidle => exact .inr (.inl ⟨id, rfl, .passes (by simp [hidle]) rfl⟩)
      next => exact .inl rfl
  | turn id reply => exact (turn_moves hanswered).imp_right fun hm => .inl ⟨id, rfl, hm⟩
  | close id =>
      rw [Host.step, Host.close]
      split
      next hstage => exact .inr (.inl ⟨id, rfl, .closes hstage⟩)
      next => exact .inl rfl
  | drop id ok => exact drop_moves.imp_right fun hm => .inl ⟨id, rfl, hm⟩
  | crash id => exact .inr (.inl ⟨id, rfl, .leaves⟩)
  | spot e =>
      rw [Host.step, Host.spot]
      split
      next hlink => exact .inr (.inr ⟨rfl, .spots hlink⟩)
      next => exact .inl rfl
  | unlink e ok =>
      rw [Host.step, Host.unlink]
      split
      next hspotted =>
          cases ok with
          | true => exact .inr (.inr ⟨rfl, .unlinks hspotted⟩)
          | false => exact .inr (.inr ⟨rfl, .forgets⟩)
      next => exact .inl rfl
  | link e =>
      rw [Host.step, Host.link]
      split
      next hfree => exact .inr (.inr ⟨rfl, .links hfree⟩)
      next => exact .inl rfl

end Moves

end RichPresence.Ipc.Claim
