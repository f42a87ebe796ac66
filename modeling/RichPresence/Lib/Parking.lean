import Mathlib.Data.List.Basic

namespace RichPresence.Lib.Parking

variable {W L S : Type}

/-- What a thread does next. It enters itself into a registry, looks at the stop flag and
leaves when it is up, does some work with one of several outcomes, or parks. -/
inductive Instr (L S : Type)
  | register (slot : S) (next : L)
  | check (next : L)
  | work (outcomes : List L)
  | park (next : L)
  | done
  deriving DecidableEq, Repr

structure Code (L S : Type) where
  instr : L → Instr L S
  exit : L

/-- What is known of a thread at a location: it is in a registry, and it has looked at the
flag since. -/
inductive Note (S : Type)
  | fresh
  | listed (slot : S)
  | armed (slot : S)
  deriving DecidableEq, Repr

def Note.arm : Note S → Note S
  | .fresh => .fresh
  | .listed slot | .armed slot => .armed slot

def Note.isArmed : Note S → Bool
  | .armed _ => true
  | _ => false

def Note.slot? : Note S → Option S
  | .fresh => none
  | .listed slot | .armed slot => some slot

theorem Note.slot?_arm (n : Note S) : n.arm.slot? = n.slot? := by
  cases n <;> rfl

def Note.Covers : Note S → Note S → Prop
  | _, .fresh => True
  | .armed slot, .armed slot' | .armed slot, .listed slot' | .listed slot, .listed slot' => slot = slot'
  | _, _ => False

theorem Note.Covers.slot? {m n : Note S} (h : m.Covers n) {slot : S} (hslot : slot ∈ n.slot?) : slot ∈ m.slot? := by
  cases n with
  | fresh => cases hslot
  | listed slot' =>
      cases m with
      | fresh => exact h.elim
      | listed | armed => exact (congrArg some h).trans hslot
  | armed slot' =>
      cases m with
      | fresh | listed => exact h.elim
      | armed => exact (congrArg some h).trans hslot

theorem Note.Covers.armed {m : Note S} {slot : S} (h : m.Covers (.armed slot)) : m = .armed slot := by
  cases m with
  | armed slot' => exact congrArg _ h
  | fresh | listed => exact h.elim

/-- Notes on the locations, with the number of instructions up to the next look at the flag,
and whether a park can come before it. -/
structure Notes (L S : Type) where
  note : L → Note S
  rank : L → Nat
  parks : L → Bool

def Notes.Fits (a : Notes L S) (exit l : L) : Instr L S → Prop
  | .register slot next => a.note next = .listed slot ∧ a.rank next < a.rank l
  | .check next => (a.note l).arm.Covers (a.note next)
  | .work outcomes => outcomes ≠ [] ∧ ∀ next ∈ outcomes, next = exit ∨
      (a.note l).Covers (a.note next) ∧ (a.parks next = true → a.parks l = true) ∧ a.rank next < a.rank l
  | .park next => (a.note l).isArmed = true ∧ a.parks l = true ∧
      (a.note l).Covers (a.note next) ∧ a.parks next = false ∧ a.rank next < a.rank l
  | .done => True

/-- A thread registers and looks at the flag before it parks, and it looks at the flag
between two parks. -/
structure Code.Disciplined (code : Code L S) (a : Notes L S) : Prop where
  fits : ∀ l, a.Fits code.exit l (code.instr l)
  done : code.instr code.exit = .done
  fresh : a.note code.exit = .fresh

structure Thread (L : Type) where
  loc : L
  permit : Bool := false
  deriving DecidableEq, Repr

/-- Whoever signals raises the flag and goes through the registries: `some k` once the
first `k` are done. -/
structure State (W L S : Type) where
  flag : Bool := false
  listed : S → List W := fun _ => []
  threads : W → Thread L
  signals : Nat → Option Nat := fun _ => none

inductive Step (W : Type)
  | own (w : W) (outcome : Nat)
  | unpark (w : W)
  | signal (j : Nat)
  deriving DecidableEq, Repr

namespace State

variable [DecidableEq W] (code : Code L S) (sweeps : List S)

def move (w : W) (t : Thread L) (s : State W L S) : State W L S :=
  { s with threads := Function.update s.threads w t }

/-- A parked thread goes on with a permit, or when its time is up: either way the permit is
used up. -/
def own [DecidableEq S] (w : W) (outcome : Nat) (s : State W L S) : State W L S :=
  let t := s.threads w
  match code.instr t.loc with
  | .register slot next =>
      { s.move w { t with loc := next } with
        listed := Function.update s.listed slot (s.listed slot ++ [w]) }
  | .check next => s.move w { t with loc := if s.flag then code.exit else next }
  | .work outcomes =>
      match outcomes[outcome]? with
      | some next => s.move w { t with loc := next }
      | none => s
  | .park next => s.move w ⟨next, false⟩
  | .done => s

def signal (j : Nat) (s : State W L S) : State W L S :=
  match s.signals j with
  | none => { s with flag := true, signals := Function.update s.signals j (some 0) }
  | some k =>
      match sweeps[k]? with
      | some slot =>
          { s with
            threads := fun w => if w ∈ s.listed slot then { s.threads w with permit := true } else s.threads w
            signals := Function.update s.signals j (some (k + 1)) }
      | none => s

def step [DecidableEq S] (s : State W L S) : Step W → State W L S
  | .own w outcome => s.own code w outcome
  | .unpark w => s.move w { s.threads w with permit := true }
  | .signal j => s.signal sweeps j

/-- Somebody has gone through the registry with the flag up. -/
def Swept (slot : S) (s : State W L S) : Prop := ∃ j k, s.signals j = some k ∧ slot ∈ sweeps.take k

variable (a : Notes L S)

/-- The thread is where its note says, and once its registry was gone through it has a permit
or no park ahead. -/
structure Safe (s : State W L S) (w : W) : Prop where
  listed : ∀ slot ∈ (a.note (s.threads w).loc).slot?, w ∈ s.listed slot
  permit : ∀ slot, a.note (s.threads w).loc = .armed slot → s.Swept sweeps slot →
    (s.threads w).permit = true ∨ a.parks (s.threads w).loc = false

structure Guarded (s : State W L S) : Prop where
  raised : ∀ j k, s.signals j = some k → s.flag = true
  safe : ∀ w, s.Safe sweeps a w

variable {code sweeps a} {s s' : State W L S} {w : W}

omit [DecidableEq W] in
theorem Safe.mono (h : s.Safe sweeps a w) (hthread : s'.threads w = s.threads w)
    (hlisted : ∀ slot, w ∈ s.listed slot → w ∈ s'.listed slot)
    (hswept : ∀ slot, s'.Swept sweeps slot → s.Swept sweeps slot) : s'.Safe sweeps a w where
  listed slot hslot := hlisted slot (h.listed slot (hthread ▸ hslot))
  permit slot hnote hs := hthread ▸ h.permit slot (hthread ▸ hnote) (hswept slot hs)

theorem Guarded.move (h : s.Guarded sweeps a) {t : Thread L} (hself : (s.move w t).Safe sweeps a w) :
    (s.move w t).Guarded sweeps a where
  raised := h.raised
  safe v := by
    by_cases hv : v = w
    · exact hv ▸ hself
    · exact (h.safe v).mono (Function.update_of_ne hv ..) (fun _ hm => hm) fun _ hs => hs

theorem safe_move {t : Thread L} (hlisted : ∀ slot ∈ (a.note t.loc).slot?, w ∈ s.listed slot)
    (hpermit : ∀ slot, a.note t.loc = .armed slot → s.Swept sweeps slot → t.permit = true ∨ a.parks t.loc = false) :
    (s.move w t).Safe sweeps a w := by
  have hself : (s.move w t).threads w = t := Function.update_self ..
  refine ⟨fun slot hslot => hlisted slot (hself ▸ hslot), fun slot hnote hs => ?_⟩
  rw [hself] at hnote ⊢
  exact hpermit slot hnote hs

theorem safe_exit (hcode : code.Disciplined a) (permit : Bool) :
    (s.move w ⟨code.exit, permit⟩).Safe sweeps a w := by
  refine safe_move (fun slot hslot => ?_) fun slot hnote _ => ?_
  · rw [hcode.fresh] at hslot
    cases hslot
  · rw [hcode.fresh] at hnote
    cases hnote

theorem Guarded.own [DecidableEq S] (hcode : code.Disciplined a) (h : s.Guarded sweeps a) (w : W) (outcome : Nat) :
    (s.own code w outcome).Guarded sweeps a := by
  have hfits := hcode.fits (s.threads w).loc
  have hsafe := h.safe w
  rw [State.own]
  dsimp only
  split
  next slot next hinstr =>
      rw [hinstr] at hfits
      have hmoved : (s.move w { s.threads w with loc := next }).threads w = { s.threads w with loc := next } :=
        Function.update_self ..
      refine ⟨h.raised, fun v => ?_⟩
      by_cases hv : v = w
      · subst hv
        refine ⟨fun slot' hslot => ?_, fun slot' hnote _ => ?_⟩
        · dsimp only at hslot
          rw [hmoved, hfits.1] at hslot
          obtain rfl : slot = slot' := Option.some.inj hslot
          simp
        · dsimp only at hnote
          rw [hmoved, hfits.1] at hnote
          cases hnote
      · refine (h.safe v).mono (Function.update_of_ne hv ..) (fun slot' hm => ?_) fun _ hs => hs
        by_cases hslot : slot' = slot
        · subst hslot
          simpa using Or.inl hm
        · simpa [hslot] using hm
  next next hinstr =>
      rw [hinstr] at hfits
      cases hflag : s.flag with
      | true => exact h.move (safe_exit hcode _)
      | false =>
          refine h.move (safe_move (fun slot hslot => ?_) fun slot _ hswept => ?_)
          · rw [if_neg Bool.false_ne_true] at hslot
            exact hsafe.listed slot (Note.slot?_arm _ ▸ hfits.slot? hslot)
          · -- nobody has signalled yet
            obtain ⟨j, k, hj, _⟩ := hswept
            rw [h.raised j k hj] at hflag
            cases hflag
  next outcomes hinstr =>
      rw [hinstr] at hfits
      split
      next next hnext =>
          obtain rfl | ⟨hcovers, hparks, -⟩ := hfits.2 next (List.mem_of_getElem? hnext)
          · exact h.move (safe_exit hcode _)
          · refine h.move (safe_move (fun slot hslot => hsafe.listed slot (hcovers.slot? hslot))
              fun slot hnote hswept => ?_)
            obtain hpermit | hpark := hsafe.permit slot (Note.Covers.armed (hnote ▸ hcovers)) hswept
            · exact .inl hpermit
            · exact .inr (Bool.eq_false_iff.mpr fun hp => Bool.eq_false_iff.mp hpark (hparks hp))
      next => exact h
  next next hinstr =>
      rw [hinstr] at hfits
      obtain ⟨-, -, hcovers, hparks, -⟩ := hfits
      exact h.move (safe_move (fun slot hslot => hsafe.listed slot (hcovers.slot? hslot)) fun _ _ _ => .inr hparks)
  next => exact h

theorem Guarded.unpark (h : s.Guarded sweeps a) (w : W) :
    (s.move w { s.threads w with permit := true }).Guarded sweeps a :=
  h.move (safe_move (h.safe w).listed fun _ _ _ => .inl rfl)

theorem Guarded.signal (h : s.Guarded sweeps a) (j : Nat) : (s.signal sweeps j).Guarded sweeps a := by
  rw [State.signal]
  split
  next hj =>
      refine ⟨fun _ _ _ => rfl, fun w => (h.safe w).mono rfl (fun _ hm => hm) fun slot hswept => ?_⟩
      obtain ⟨i, k, hi, hslot⟩ := hswept
      by_cases hij : i = j
      · subst hij
        obtain rfl : 0 = k := by simpa using hi
        cases hslot
      · exact ⟨i, k, by simpa [hij] using hi, hslot⟩
  next k hj =>
      split
      next slot hslot =>
          refine ⟨fun _ _ _ => h.raised j k hj, fun w => ?_⟩
          have hsafe := h.safe w
          by_cases hw : w ∈ s.listed slot
          · refine ⟨fun slot' hslot' => hsafe.listed slot' ?_, fun _ _ _ => .inl ?_⟩
            · dsimp only at hslot'
              rwa [if_pos hw] at hslot'
            · dsimp only
              rw [if_pos hw]
          · refine ⟨fun slot' hslot' => hsafe.listed slot' ?_, fun slot' hnote hswept => ?_⟩
            · dsimp only at hslot'
              rwa [if_neg hw] at hslot'
            · dsimp only at hnote ⊢
              rw [if_neg hw] at hnote ⊢
              refine hsafe.permit slot' hnote ?_
              obtain ⟨i, m, hi, hmem⟩ := hswept
              by_cases hij : i = j
              · subst hij
                obtain rfl : k + 1 = m := by simpa using hi
                rw [List.take_add_one, hslot, Option.toList_some] at hmem
                obtain hmem | hmem := List.mem_append.mp hmem
                · exact ⟨i, k, hj, hmem⟩
                · -- its registry is the one gone through, and it is not in it
                  rw [List.mem_singleton.mp hmem] at hnote
                  exact absurd (hsafe.listed slot (by rw [hnote]; rfl)) hw
              · exact ⟨i, m, by simpa [hij] using hi, hmem⟩
      next => exact h

variable [DecidableEq S]

theorem Guarded.step (hcode : code.Disciplined a) (h : s.Guarded sweeps a) (e : Step W) :
    (s.step code sweeps e).Guarded sweeps a := by
  cases e with
  | own w outcome => exact h.own hcode w outcome
  | unpark w => exact h.unpark w
  | signal j => exact h.signal j

variable (code sweeps)

def run (s : State W L S) (steps : List (Step W)) : State W L S := steps.foldl (step code sweeps) s

variable {code sweeps}

theorem Guarded.run (hcode : code.Disciplined a) (h : s.Guarded sweeps a) (steps : List (Step W)) :
    (s.run code sweeps steps).Guarded sweeps a :=
  List.foldlRecOn (motive := Guarded sweeps a) steps (State.step code sweeps) h fun _ h e _ => h.step hcode e

omit [DecidableEq W] [DecidableEq S] in
theorem Guarded.permit (hcode : code.Disciplined a) (h : s.Guarded sweeps a) (hall : ∀ slot, slot ∈ sweeps) {j : Nat}
    (hj : s.signals j = some sweeps.length) {w : W} {next : L} (hpark : code.instr (s.threads w).loc = .park next) :
    (s.threads w).permit = true := by
  have hfits := hcode.fits (s.threads w).loc
  rw [hpark] at hfits
  obtain ⟨harm, hparks, -⟩ := hfits
  cases hnote : a.note (s.threads w).loc with
  | fresh | listed =>
      rw [hnote] at harm
      cases harm
  | armed slot =>
      have hswept : s.Swept sweeps slot := ⟨j, sweeps.length, hj, by rw [List.take_length]; exact hall slot⟩
      obtain hpermit | hnone := (h.safe w).permit slot hnote hswept
      · exact hpermit
      · rw [hparks] at hnone
        cases hnone

variable (code sweeps a)

/-- How many instructions a thread has left once the flag is up. -/
def togo (l : L) : Nat :=
  match code.instr l with
  | .done => 0
  | _ => a.rank l + 1

/-- The step is one instruction of the thread. Work that is still going on is none. -/
def Moves (w : W) (s : State W L S) : Step W → Bool
  | .own v outcome => v = w && match code.instr (s.threads w).loc with
      | .done => false
      | .work outcomes => outcome < outcomes.length
      | _ => true
  | _ => false

def moves (w : W) : State W L S → List (Step W) → Nat
  | _, [] => 0
  | s, e :: es => (Moves code w s e).toNat + moves w (s.step code sweeps e) es

variable {code sweeps a}

theorem own_frame (w : W) (outcome : Nat) (s : State W L S) :
    (s.own code w outcome).flag = s.flag ∧ (s.own code w outcome).signals = s.signals ∧
      ∀ v, v ≠ w → (s.own code w outcome).threads v = s.threads v := by
  have hframe : ∀ t : Thread L, (s.move w t).flag = s.flag ∧ (s.move w t).signals = s.signals ∧
      ∀ v, v ≠ w → (s.move w t).threads v = s.threads v :=
    fun t => ⟨rfl, rfl, fun v hv => Function.update_of_ne hv ..⟩
  rw [own]
  dsimp only
  split
  next => exact hframe _
  next => exact hframe _
  next =>
      split
      next => exact hframe _
      next => exact ⟨rfl, rfl, fun _ _ => rfl⟩
  next => exact hframe _
  next => exact ⟨rfl, rfl, fun _ _ => rfl⟩

theorem flag_step (h : s.flag = true) (e : Step W) : (s.step code sweeps e).flag = true := by
  cases e with
  | own w outcome => exact (own_frame w outcome s).1.trans h
  | unpark w => exact h
  | signal j =>
      rw [step, signal]
      split
      next => rfl
      next => split <;> exact h

theorem complete_step {j : Nat} (h : s.signals j = some sweeps.length) (e : Step W) :
    (s.step code sweeps e).signals j = some sweeps.length := by
  cases e with
  | own w outcome => exact (congrFun (own_frame w outcome s).2.1 j).trans h
  | unpark w => exact h
  | signal i =>
      rw [step, signal]
      by_cases hij : i = j
      · subst hij
        simp [h]
      · split
        next => simpa [Ne.symm hij] using h
        next =>
            split
            next => simpa [Ne.symm hij] using h
            next => exact h

omit [DecidableEq S] in
theorem togo_le (code : Code L S) (a : Notes L S) (l : L) : togo code a l ≤ a.rank l + 1 := by
  rw [togo]
  split <;> omega

omit [DecidableEq S] in
theorem togo_lt {l next : L} (hrank : next = code.exit ∨ a.rank next < a.rank l)
    (hcode : code.Disciplined a) : togo code a next + 1 ≤ a.rank l + 1 := by
  obtain rfl | hrank := hrank
  · have hzero : togo code a code.exit = 0 := by rw [togo, hcode.done]
    omega
  · have hle := togo_le code a next
    omega

theorem togo_own (hcode : code.Disciplined a) (hflag : s.flag = true) (w : W) (outcome : Nat) :
    togo code a ((s.own code w outcome).threads w).loc + (Moves code w s (.own w outcome)).toNat ≤
      togo code a (s.threads w).loc := by
  have hfits := hcode.fits (s.threads w).loc
  have hmoved : ∀ t : Thread L, (s.move w t).threads w = t := fun t => Function.update_self ..
  cases hinstr : code.instr (s.threads w).loc with
  | register slot next =>
      rw [hinstr] at hfits
      simpa [own, Moves, hinstr, hmoved, togo] using togo_lt (.inr hfits.2) hcode
  | check next => simpa [own, Moves, hinstr, hmoved, hflag, togo] using togo_lt (.inl rfl) hcode
  | work outcomes =>
      rw [hinstr] at hfits
      cases hnext : outcomes[outcome]? with
      | none =>
          have hover : outcomes.length ≤ outcome := List.getElem?_eq_none_iff.mp hnext
          simp [own, Moves, hinstr, togo, Nat.not_lt.mpr hover]
      | some next =>
          have hmem := List.mem_of_getElem? hnext
          obtain ⟨hlt, rfl⟩ := List.getElem?_eq_some_iff.mp hnext
          simpa [own, Moves, hinstr, hmoved, togo, hlt] using
            togo_lt ((hfits.2 _ hmem).imp_right fun h => h.2.2) hcode
  | park next =>
      rw [hinstr] at hfits
      simpa [own, Moves, hinstr, hmoved, togo] using togo_lt (.inr hfits.2.2.2.2) hcode
  | done => simp [own, Moves, hinstr, togo]

theorem togo_step (hcode : code.Disciplined a) (hflag : s.flag = true) (w : W) (e : Step W) :
    togo code a ((s.step code sweeps e).threads w).loc + (Moves code w s e).toNat ≤
      togo code a (s.threads w).loc := by
  cases e with
  | own v outcome =>
      by_cases hv : w = v
      · subst hv
        exact togo_own hcode hflag w outcome
      · rw [step, (own_frame v outcome s).2.2 w hv]
        simp [Moves, Ne.symm hv]
  | unpark v =>
      by_cases hv : w = v
      · subst hv
        simp [step, move, Moves]
      · simp [step, move, Moves, hv]
  | signal j =>
      rw [step, signal]
      split
      next => exact Nat.le_refl _
      next =>
          split
          next =>
              dsimp only
              split <;> exact Nat.le_refl _
          next => exact Nat.le_refl _

theorem togo_run (hcode : code.Disciplined a) (hflag : s.flag = true) (w : W) (steps : List (Step W)) :
    togo code a ((s.run code sweeps steps).threads w).loc + moves code sweeps w s steps ≤
      togo code a (s.threads w).loc := by
  induction steps generalizing s with
  | nil => exact Nat.le_refl _
  | cons e steps ih =>
      have hone : togo code a ((s.step code sweeps e).threads w).loc + (Moves code w s e).toNat ≤
          togo code a (s.threads w).loc := togo_step hcode hflag w e
      have hflag' : (s.step code sweeps e).flag = true := flag_step hflag e
      have hrest : togo code a ((s.run code sweeps (e :: steps)).threads w).loc +
          moves code sweeps w (s.step code sweeps e) steps ≤
            togo code a ((s.step code sweeps e).threads w).loc := ih hflag'
      rw [moves]
      omega

omit [DecidableEq S] in
theorem exists_moves (hcode : code.Disciplined a) (s : State W L S) (w : W)
    (h : code.instr (s.threads w).loc ≠ .done) : ∃ outcome, Moves code w s (.own w outcome) = true := by
  have hfits := hcode.fits (s.threads w).loc
  refine ⟨0, ?_⟩
  cases hinstr : code.instr (s.threads w).loc with
  | work outcomes =>
      rw [hinstr] at hfits
      simpa [Moves, hinstr] using List.length_pos_iff.mpr hfits.1
  | done => exact absurd hinstr h
  | _ => simp [Moves, hinstr]

end State

end RichPresence.Lib.Parking
