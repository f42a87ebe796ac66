import RichPresence.Lib.Run

namespace RichPresence.Lib

/-- How far a thread is with a change of a shared cell: it takes the writer lock,
loads the cell, builds the next value, stores it and lets go of the lock. -/
inductive Phase (ω β : Type)
  | idle
  | waiting (o : ω)
  | locked (o : ω)
  | loaded (o : ω) (seen : β)
  | built (o : ω) (next : β)
  | finished

/-- A cell that is read without a lock and changed under one. The log lists the
changes in the order they took the lock, with whether their build went through. -/
structure Guarded (ω β : Type) where
  cell : β
  holder : Option Nat := none
  phase : Nat → Phase ω β := fun _ => .idle
  log : List (ω × Bool) := []

inductive WriterStep (ω : Type)
  | call (o : ω)
  | lock
  | load
  | build (succeeds : Bool)
  | store
  | unlock

def accepted {ω : Type} (log : List (ω × Bool)) : List ω := (log.filter Prod.snd).map Prod.fst

@[simp] theorem accepted_concat {ω : Type} (log : List (ω × Bool)) (o : ω) (succeeded : Bool) :
    accepted (log ++ [(o, succeeded)]) = accepted log ++ if succeeded then [o] else [] := by
  cases succeeded <;> simp [accepted]

namespace Guarded

variable {ω β : Type} (refused : ω → Bool) (apply : ω → β → β)

def moveTo (s : Guarded ω β) (thread : Nat) (phase : Phase ω β) : Guarded ω β :=
  { s with phase := Function.update s.phase thread phase }

/-- A step that the thread is not ready for does nothing. -/
def step (s : Guarded ω β) (e : Nat × WriterStep ω) : Guarded ω β :=
  match e.2, s.phase e.1 with
  | .call o, .idle => if refused o then s else s.moveTo e.1 (.waiting o)
  | .lock, .waiting o =>
      if s.holder = none then
        { s.moveTo e.1 (.locked o) with holder := some e.1, log := s.log ++ [(o, false)] }
      else s
  | .load, .locked o => s.moveTo e.1 (.loaded o s.cell)
  | .build true, .loaded o seen =>
      { s.moveTo e.1 (.built o (apply o seen)) with log := s.log.dropLast ++ [(o, true)] }
  | .build false, .loaded _ _ => s.moveTo e.1 .finished
  | .store, .built _ next => { s.moveTo e.1 .finished with cell := next }
  | .unlock, .finished => { s.moveTo e.1 .idle with holder := none }
  | _, _ => s

def replay (init : β) (log : List (ω × Bool)) : β := (accepted log).foldl (fun b o => apply o b) init

def InSection : Phase ω β → Prop
  | .idle | .waiting _ => False
  | _ => True

/-- What the log and the cell have to do with each other while the lock is held by
a thread in the given phase. -/
def Accounts (init : β) (cell : β) (log : List (ω × Bool)) : Phase ω β → Prop
  | .locked o => ∃ past, log = past ++ [(o, false)] ∧ cell = replay apply init past
  | .loaded o seen => seen = cell ∧ ∃ past, log = past ++ [(o, false)] ∧ cell = replay apply init past
  | .built o next => next = apply o cell ∧ ∃ past, log = past ++ [(o, true)] ∧ cell = replay apply init past
  | _ => cell = replay apply init log

structure Linear (init : β) (s : Guarded ω β) : Prop where
  exclusive : ∀ thread, InSection (s.phase thread) → s.holder = some thread
  free : s.holder = none → s.cell = replay apply init s.log
  held : ∀ thread, s.holder = some thread → Accounts apply init s.cell s.log (s.phase thread)

variable {refused apply} {init : β} {s : Guarded ω β}

theorem replay_concat (log : List (ω × Bool)) (o : ω) (succeeded : Bool) :
    replay apply init (log ++ [(o, succeeded)]) =
      if succeeded then apply o (replay apply init log) else replay apply init log := by
  rw [replay, accepted_concat, List.foldl_append]
  cases succeeded <;> rfl

theorem moveTo_self {thread : Nat} {phase : Phase ω β} : (s.moveTo thread phase).phase thread = phase :=
  Function.update_self ..

theorem moveTo_of_ne {thread other : Nat} {phase : Phase ω β} (h : other ≠ thread) :
    (s.moveTo thread phase).phase other = s.phase other :=
  Function.update_of_ne h ..

/-- Only the holder of the lock is in its section, so what a thread does there has
to be justified for that thread alone. -/
theorem Linear.of_section {s' : Guarded ω β} {thread : Nat} {phase : Phase ω β} (h : Linear apply init s)
    (hholder : s.holder = some thread) (hphase : s'.phase = (s.moveTo thread phase).phase)
    (hheld : s'.holder = some thread) (hacc : Accounts apply init s'.cell s'.log phase) : Linear apply init s' where
  exclusive other hin := by
    by_cases hother : other = thread
    · rw [hheld, hother]
    · rw [hphase, moveTo_of_ne hother] at hin
      exact absurd (Option.some.inj (hholder.symm.trans (h.exclusive other hin))).symm hother
  free hnone := by rw [hheld] at hnone; cases hnone
  held other hother := by
    obtain rfl := Option.some.inj (hheld.symm.trans hother)
    rw [hphase, moveTo_self]
    exact hacc

theorem linear_init (init : β) : Linear apply init ({ cell := init } : Guarded ω β) where
  exclusive _ hin := hin.elim
  free _ := rfl
  held _ h := nomatch h

theorem accounts_outside {cell : β} {log : List (ω × Bool)} {phase : Phase ω β} (h : ¬InSection phase) :
    Accounts apply init cell log phase = (cell = replay apply init log) := by
  cases phase with
  | idle | waiting => rfl
  | locked | loaded | built | finished => exact absurd trivial h

theorem Linear.outside {thread : Nat} {phase : Phase ω β} (h : Linear apply init s)
    (hbefore : ¬InSection (s.phase thread)) (hafter : ¬InSection phase) :
    Linear apply init (s.moveTo thread phase) where
  exclusive other hin := by
    by_cases hother : other = thread
    · rw [hother, moveTo_self] at hin
      exact absurd hin hafter
    · rw [moveTo_of_ne hother] at hin
      exact h.exclusive other hin
  free := h.free
  held other hother := by
    have hacc := h.held other hother
    by_cases heq : other = thread
    · subst heq
      rw [moveTo_self]
      -- outside its section the thread owes the cell for the whole log
      rw [accounts_outside hbefore] at hacc
      exact (accounts_outside hafter).symm ▸ hacc
    · rw [moveTo_of_ne heq]
      exact hacc

theorem inSection_moveTo {thread other : Nat} {phase : Phase ω β}
    (h : InSection ((s.moveTo thread phase).phase other)) :
    other = thread ∧ InSection phase ∨ other ≠ thread ∧ InSection (s.phase other) := by
  by_cases hother : other = thread
  · subst hother
    rw [moveTo_self] at h
    exact .inl ⟨rfl, h⟩
  · rw [moveTo_of_ne hother] at h
    exact .inr ⟨hother, h⟩

theorem Linear.lock {thread : Nat} {o : ω} (h : Linear apply init s) (hfree : s.holder = none) :
    Linear apply init
      { s.moveTo thread (.locked o) with holder := some thread, log := s.log ++ [(o, false)] } where
  exclusive other hin := by
    rcases inSection_moveTo hin with ⟨rfl, _⟩ | ⟨_, hin⟩
    · rfl
    · exact absurd (hfree.symm.trans (h.exclusive other hin)) nofun
  free := nofun
  held other hother := by
    obtain rfl := Option.some.inj hother
    dsimp only
    rw [moveTo_self]
    exact ⟨s.log, rfl, h.free hfree⟩

theorem Linear.unlock {thread : Nat} (h : Linear apply init s) (hholder : s.holder = some thread)
    (hacc : s.cell = replay apply init s.log) :
    Linear apply init { s.moveTo thread .idle with holder := none } where
  exclusive other hin := by
    rcases inSection_moveTo hin with ⟨_, hin⟩ | ⟨hother, hin⟩
    · exact hin.elim
    · exact absurd (Option.some.inj (hholder.symm.trans (h.exclusive other hin))).symm hother
  free _ := hacc
  held _ hother := nomatch hother

theorem Linear.step (h : Linear apply init s) (e : Nat × WriterStep ω) :
    Linear apply init (s.step refused apply e) := by
  have hsection {phase : Phase ω β} (hphase : s.phase e.1 = phase) (hin : InSection phase) :
      s.holder = some e.1 ∧ Accounts apply init s.cell s.log phase := by
    have hholder := h.exclusive e.1 (hphase ▸ hin)
    exact ⟨hholder, hphase ▸ h.held e.1 hholder⟩
  rw [Guarded.step]
  split
  next o _ hphase =>
    split
    · exact h
    · exact h.outside (hphase ▸ id) id
  next o _ hphase =>
    split
    next hfree => exact h.lock hfree
    next => exact h
  next o _ hphase =>
    obtain ⟨hholder, hacc⟩ := hsection hphase trivial
    exact h.of_section hholder rfl hholder ⟨rfl, hacc⟩
  next o seen _ hphase =>
    obtain ⟨hholder, rfl, past, hlog, hcell⟩ := hsection hphase trivial
    refine h.of_section hholder rfl hholder ⟨rfl, past, ?_, hcell⟩
    dsimp only
    rw [hlog, List.dropLast_concat]
  next o seen _ hphase =>
    obtain ⟨hholder, rfl, past, hlog, hcell⟩ := hsection hphase trivial
    refine h.of_section hholder rfl hholder ?_
    change s.cell = replay apply init s.log
    rw [hlog, replay_concat, hcell]
    rfl
  next o next _ hphase =>
    obtain ⟨hholder, rfl, past, hlog, hcell⟩ := hsection hphase trivial
    refine h.of_section hholder rfl hholder ?_
    change apply o s.cell = replay apply init s.log
    rw [hlog, replay_concat, hcell]
    rfl
  next _ hphase =>
    obtain ⟨hholder, hacc⟩ := hsection hphase trivial
    exact h.unlock hholder hacc
  next => exact h

theorem Linear.settled (h : Linear apply init s) (hquiet : ∀ thread, ¬InSection (s.phase thread)) :
    s.cell = replay apply init s.log := by
  cases hholder : s.holder with
  | none => exact h.free hholder
  | some thread =>
      have hacc := h.held thread hholder
      rwa [accounts_outside (hquiet thread)] at hacc

theorem Linear.cell_eq (h : Linear apply init s) : ∃ past, past <+: s.log ∧ s.cell = replay apply init past := by
  cases hholder : s.holder with
  | none => exact ⟨s.log, List.prefix_rfl, h.free hholder⟩
  | some thread =>
      have hacc := h.held thread hholder
      cases hphase : s.phase thread with
      | idle | waiting | finished =>
          rw [hphase] at hacc
          exact ⟨s.log, List.prefix_rfl, hacc⟩
      | locked =>
          rw [hphase] at hacc
          obtain ⟨past, hlog, hcell⟩ := hacc
          exact ⟨past, hlog ▸ List.prefix_append _ _, hcell⟩
      | loaded | built =>
          rw [hphase] at hacc
          obtain ⟨_, past, hlog, hcell⟩ := hacc
          exact ⟨past, hlog ▸ List.prefix_append _ _, hcell⟩

end Guarded

end RichPresence.Lib
