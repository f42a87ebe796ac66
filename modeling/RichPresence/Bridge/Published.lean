import RichPresence.Bridge.Room

namespace RichPresence

open Lib

abbrev Published := AppId → Option Nat

namespace Published

/-- What a scanner input is for: a detection takes a free slot and leaves an
owned one, a removal that names the published pid frees the slot, and a clear
frees every slot. -/
def apply (owner : AppId → Option Nat) (f : Published) : ProcInput → Published
  | .detected game =>
      if (owner game.id).isSome then Function.update f game.id none
      else if (f game.id).isSome then f
      else Function.update f game.id (some game.pid)
  | .removed app pid => if f app = some pid then Function.update f app none else f
  | .cleared => fun _ => none

def free : AppId → Option Nat := fun _ => none

variable {f : Published} {a : AppId} {p : Nat}

theorem apply_detected_free (game : ScannedGame) :
    apply free f (.detected game) =
      if (f game.id).isSome then f else Function.update f game.id (some game.pid) := rfl

theorem apply_sub {input : ProcInput} (h : apply free f input a = some p) :
    f a = some p ∨ ∃ game, input = .detected game ∧ game.id = a ∧ game.pid = p := by
  cases input with
  | detected game =>
      rw [apply_detected_free] at h
      split at h
      next => exact .inl h
      next =>
        rw [Function.update_apply] at h
        split at h
        next ha => exact .inr ⟨game, rfl, ha.symm, Option.some.inj h⟩
        next => exact .inl h
  | removed app pid =>
      rw [apply] at h
      split at h
      next =>
        rw [Function.update_apply] at h
        split at h
        next => cases h
        next => exact .inl h
      next => exact .inl h
  | cleared => cases h

theorem foldl_sub {inputs : List ProcInput} (h : inputs.foldl (apply free) f a = some p) :
    f a = some p ∨ ∃ game, .detected game ∈ inputs ∧ game.id = a ∧ game.pid = p := by
  induction inputs generalizing f with
  | nil => exact .inl h
  | cons input inputs ih =>
      rcases ih h with hf | ⟨game, hm, hg⟩
      · rcases apply_sub hf with hf | ⟨game, rfl, hg⟩
        · exact .inl hf
        · exact .inr ⟨game, by simp, hg⟩
      · exact .inr ⟨game, by simp [hm], hg⟩

theorem foldl_removed (slots : List (AppId × Nat)) :
    (slots.map fun slot => ProcInput.removed slot.1 slot.2).foldl (apply free) f a = some p ↔
      f a = some p ∧ (a, p) ∉ slots := by
  induction slots generalizing f with
  | nil => simp
  | cons slot slots ih =>
      obtain ⟨app, pid⟩ := slot
      rw [List.map_cons, List.foldl_cons, ih, apply]
      by_cases hf : f app = some pid
      · rw [if_pos hf, Function.update_apply]
        by_cases ha : a = app
        · subst ha
          simp only [if_true, reduceCtorEq, false_and, List.mem_cons, false_iff, not_and, not_not]
          intro hp
          rw [hf] at hp
          exact .inl (by rw [Option.some.inj hp])
        · simp [ha]
      · rw [if_neg hf, List.mem_cons, not_or]
        refine and_congr_right fun hp => ?_
        have hne : (a, p) ≠ (app, pid) := by
          rintro ⟨⟩
          exact hf hp
        simp [hne]

theorem foldl_detected (games : List ScannedGame) :
    (f a).isSome ∨ (∃ game ∈ games, game.id = a) ↔
      ((games.map ProcInput.detected).foldl (apply free) f a).isSome := by
  induction games generalizing f with
  | nil => simp
  | cons game games ih =>
      rw [List.map_cons, List.foldl_cons, ← ih, apply_detected_free]
      simp only [List.exists_mem_cons_iff]
      by_cases hf : (f game.id).isSome
      · rw [if_pos hf]
        constructor
        · rintro (h | rfl | h)
          · exact .inl h
          · exact .inl hf
          · exact .inr h
        · rintro (h | h)
          · exact .inl h
          · exact .inr (.inr h)
      · rw [if_neg hf, Function.update_apply]
        by_cases ha : a = game.id
        · simp [ha]
        · simp [ha, Ne.symm ha]

def applyAt (a : AppId) (x : Option Nat) : ProcInput → Option Nat
  | .detected game => if game.id = a ∧ x.isNone then some game.pid else x
  | .removed app pid => if app = a ∧ x = some pid then none else x
  | .cleared => none

theorem apply_at (f : Published) (a : AppId) (input : ProcInput) :
    apply free f input a = applyAt a (f a) input := by
  cases input with
  | detected game =>
      rw [apply_detected_free, applyAt]
      by_cases ha : game.id = a
      · subst ha
        cases hf : f game.id <;> simp [hf]
      · cases f game.id <;> simp [ha, Ne.symm ha]
  | removed app pid =>
      rw [apply, applyAt]
      by_cases ha : app = a
      · subst ha
        by_cases hf : f app = some pid <;> simp [hf]
      · by_cases hf : f app = some pid <;> simp [hf, ha, Ne.symm ha]
  | cleared => rfl

theorem foldl_at_removed (slots : List (AppId × Nat)) (x : Option Nat) :
    (slots.map fun slot => ProcInput.removed slot.1 slot.2).foldl (applyAt a) x = none ↔
      x = none ∨ ∃ slot ∈ slots, slot.1 = a ∧ x = some slot.2 := by
  induction slots generalizing x with
  | nil => simp
  | cons slot slots ih =>
      rw [List.map_cons, List.foldl_cons, ih, applyAt]
      by_cases hs : slot.1 = a ∧ x = some slot.2
      · rw [if_pos hs]
        exact ⟨fun _ => .inr ⟨slot, by simp, hs⟩, fun _ => .inl rfl⟩
      · rw [if_neg hs]
        simp only [List.exists_mem_cons_iff, hs, false_or]

theorem foldl_at_detected (games : List ScannedGame) (x : Option Nat) (hg : ∀ game ∈ games, game.id ≠ a) :
    (games.map ProcInput.detected).foldl (applyAt a) x = x := by
  induction games with
  | nil => rfl
  | cons game games ih =>
      rw [List.map_cons, List.foldl_cons, applyAt, if_neg fun h => hg game (by simp) h.1]
      exact ih fun g hm => hg g (by simp [hm])

end Published

variable {C : Codec} {env : Env} {s : Shared}

def Shared.published (s : Shared) : Published := fun a => s.lastProcess.lookup a

def Shared.owners (s : Shared) : AppId → Option Nat := fun a => s.handoff.liveIpc.lookup a

theorem procPump_owners (input : ProcInput) : ((procPump C env input).exec s).owners = s.owners := by
  funext a
  cases input with
  | detected game =>
      rw [procPump]
      cases ho : s.handoff.liveIpc.lookup game.id with
      | some owner =>
          rw [onDetected_owned ho]
          cases s.lastProcess.lookup game.id <;> simp [Shared.owners, scanned]
      | none =>
          cases hp : s.lastProcess.lookup game.id with
          | some pid =>
              rw [onDetected_shown ho hp]
              simp [Shared.owners, scanned]
          | none =>
              rw [onDetected_fresh ho hp]
              simp [Shared.owners, scanned]
  | removed app pid =>
      rw [procPump]
      by_cases hp : s.lastProcess.lookup app = some pid
      · rw [onRemoved_match hp]
        simp [Shared.owners, unscanned]
      · rw [onRemoved_stale hp]
        simp [Shared.owners, unscanned]
  | cleared =>
      rw [procPump, Shared.owners, onCleared_dimmed.handoff]
      simp [Shared.owners, scanned]

theorem procPump_published (hr : Table.size s.lastProcess < maxHandoffEntries) (input : ProcInput) :
    ((procPump C env input).exec s).published = Published.apply s.owners s.published input := by
  funext a
  cases input with
  | detected game =>
      rw [procPump, Published.apply]
      cases ho : s.handoff.liveIpc.lookup game.id with
      | some owner =>
          rw [onDetected_owned ho, if_pos (by simp [Shared.owners, ho]), Function.update_apply]
          cases s.lastProcess.lookup game.id <;> simp [Shared.published, Table.lookup_erase_eq]
      | none =>
          rw [if_neg (by simp [Shared.owners, ho])]
          cases hp : s.lastProcess.lookup game.id with
          | some pid =>
              rw [onDetected_shown ho hp, if_pos (by simp [Shared.published, hp])]
              rfl
          | none =>
              rw [onDetected_fresh ho hp, if_neg (by simp [Shared.published, hp]), Function.update_apply,
                Shared.published, resumeGeneric_lastProcess, trackProcessPublication,
                Table.insertBounded_of_room (by exact hr), Table.lookup_insert_eq]
              rfl
  | removed app pid =>
      rw [procPump, Published.apply]
      by_cases hp : s.lastProcess.lookup app = some pid
      · rw [onRemoved_match hp, if_pos (by exact hp), Function.update_apply, Shared.published,
          broadcastClear_lastProcess, Table.lookup_erase_eq]
        rfl
      · rw [onRemoved_stale hp, if_neg (by exact hp)]
        rfl
  | cleared =>
      rw [procPump, Published.apply, Shared.published, onCleared_dimmed.lastProcess]
      rfl

end RichPresence
