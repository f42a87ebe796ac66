import RichPresence.Lib.Parking

namespace RichPresence.Detect

open Lib.Parking

inductive Worker
  | refresh
  | scan
  | dispatch
  | watch
  deriving DecidableEq, Repr

inductive WakeSlot
  | shutdownWake
  | scanWake
  deriving DecidableEq, Repr

inductive Place
  | refreshStart
  | refreshFirst
  | primeExclusions
  | refreshHead
  | hourPark
  | refreshAwake
  | fetch
  | retrimHead
  | retrimPark
  | retrimAwake
  | retrim
  | scanStart
  | scanHead
  | scanTick
  | failedPark
  | scanWait
  | cadencePark
  | scanAwake
  | dispatchHead
  | receive
  | receiveTimeout
  | handleEvent
  | watchStart
  | watchHead
  | watch
  | retryHead
  | retryPark
  | gone
  deriving DecidableEq, Repr

namespace Place

def instr : Place → Instr Place WakeSlot
  -- the database refresh
  | refreshStart => .register .shutdownWake refreshFirst
  | refreshFirst => .check primeExclusions
  | primeExclusions => .work [refreshHead]
  | refreshHead => .check hourPark
  | hourPark => .park refreshAwake
  | refreshAwake => .check fetch
  -- unchanged, failed or refused; or a new bundle is installed
  | fetch => .work [refreshHead, retrimHead]
  | retrimHead => .check retrimPark
  | retrimPark => .park retrimAwake
  | retrimAwake => .check retrim
  | retrim => .work [refreshHead]
  -- the scan loop
  | scanStart => .register .scanWake scanHead
  | scanHead => .check scanTick
  -- delivered or shed, the scan failed, or the receiver is gone
  | scanTick => .work [scanWait, failedPark, gone]
  | failedPark => .park scanHead
  | scanWait => .check cadencePark
  | cadencePark => .park scanAwake
  | scanAwake => .check scanHead
  -- the dispatch of process events, which waits in its channel for a second at most
  | dispatchHead => .check receive
  | receive => .work [handleEvent, receiveTimeout, gone]
  | receiveTimeout => .check dispatchHead
  | handleEvent => .work [dispatchHead, gone]
  -- the watcher
  | watchStart => .register .shutdownWake watchHead
  | watchHead => .check watch
  | watch => .work [retryHead, gone]
  | retryHead => .check retryPark
  | retryPark => .park watchHead
  | gone => .done

/-- Who has registered where, and looked at the flag since. The heads of the loops are
reached from the registration as well. -/
def note : Place → Note WakeSlot
  | refreshFirst | watchHead => .listed .shutdownWake
  | scanHead => .listed .scanWake
  | primeExclusions | refreshHead | hourPark | refreshAwake | fetch | retrimHead | retrimPark | retrimAwake | retrim
  | watch | retryHead | retryPark => .armed .shutdownWake
  | scanTick | failedPark | scanWait | cadencePark | scanAwake => .armed .scanWake
  | refreshStart | scanStart | dispatchHead | receive | receiveTimeout | handleEvent | watchStart | gone => .fresh

/-- The instructions up to the next look at the flag. -/
def rank : Place → Nat
  | scanTick | receive => 2
  | refreshStart | primeExclusions | hourPark | fetch | retrimPark | retrim | scanStart | failedPark | cadencePark
  | handleEvent | watchStart | watch | retryPark => 1
  | _ => 0

/-- A failed scan parks without a look at the flag. -/
def parks : Place → Bool
  | hourPark | retrimPark | scanTick | failedPark | cadencePark | retryPark => true
  | _ => false

def notes : Notes Place WakeSlot := ⟨note, rank, parks⟩

def code : Code Place WakeSlot := ⟨instr, gone⟩

theorem code_disciplined : code.Disciplined notes where
  fits l := by
    cases l <;> simp [Notes.Fits, code, notes, instr, note, rank, parks, Note.arm, Note.isArmed, Note.Covers]
  done := rfl
  fresh := rfl

theorem rank_le (l : Place) : l.rank ≤ 2 := by
  cases l <;> decide

theorem eq_gone_of_done {l : Place} (h : l.instr = .done) : l = gone := by
  cases l with
  | gone => rfl
  | _ => cases h

end Place

namespace Worker

def start : Worker → Place
  | refresh => .refreshStart
  | scan => .scanStart
  | dispatch => .dispatchHead
  | watch => .watchStart

/-- `signal` raises the flag, then unparks who is registered in the one place and in the
other. -/
def sweeps : List WakeSlot := [.shutdownWake, .scanWake]

/-- The workers from their start on, with any number of callers of `signal`, and unparks for
other reasons: the exit of a game, or a watcher that failed. -/
def run (steps : List (Step Worker)) : State Worker Place WakeSlot :=
  State.run Place.code sweeps { threads := fun w => ⟨w.start, false⟩ } steps

theorem guarded_run (steps : List (Step Worker)) :
    (run steps).Guarded sweeps Place.notes := by
  refine State.Guarded.run Place.code_disciplined ⟨?_, fun w => ⟨?_, ?_⟩⟩ steps
  · intro j k hj
    cases hj
  · intro slot hslot
    cases w <;> cases hslot
  · rintro slot - ⟨j, k, hj, -⟩
    cases hj

theorem run_append (steps more : List (Step Worker)) :
    run (steps ++ more) = (run steps).run Place.code sweeps more := List.foldl_append ..

theorem flag_of_signal {steps : List (Step Worker)} {j k : Nat} (h : (run steps).signals j = some k) :
    (run steps).flag = true := (guarded_run steps).raised j k h

theorem complete_run {steps : List (Step Worker)} {j : Nat} (h : (run steps).signals j = some sweeps.length)
    (more : List (Step Worker)) : (run (steps ++ more)).signals j = some sweeps.length := by
  rw [run_append]
  exact List.foldlRecOn (motive := fun s : State Worker Place WakeSlot => s.signals j = some sweeps.length) more _ h
    fun _ h e _ => State.complete_step h e

/-- Once a signal is through, no worker waits in a park without a permit, however the
workers, the signals and other unparks interleave and also when the signal came before
a worker had started; every worker executes at most three more instructions, and one
that is not gone can execute its next one. -/
theorem shutdown_releases_every_worker (steps more : List (Step Worker)) (j : Nat)
    (hsignal : (run steps).signals j = some sweeps.length) (w : Worker) :
    let s := run (steps ++ more)
    (∀ next, (s.threads w).loc.instr = .park next → (s.threads w).permit = true) ∧
      State.moves Place.code sweeps w (run steps) more ≤ 3 ∧
      ((s.threads w).loc ≠ .gone → ∃ outcome, State.Moves Place.code w s (.own w outcome) = true) := by
  intro s
  have hcode := Place.code_disciplined
  refine ⟨fun next hpark => ?_, ?_, fun hloc => ?_⟩
  · exact (guarded_run (steps ++ more)).permit hcode (fun slot => by cases slot <;> decide)
      (complete_run hsignal more) hpark
  · have hrun : State.togo Place.code Place.notes
        (((run steps).run Place.code sweeps more).threads w).loc + State.moves Place.code sweeps w (run steps) more ≤
          State.togo Place.code Place.notes ((run steps).threads w).loc :=
      State.togo_run hcode (flag_of_signal hsignal) w more
    have hle := State.togo_le Place.code Place.notes ((run steps).threads w).loc
    have hrank : Place.notes.rank ((run steps).threads w).loc ≤ 2 := Place.rank_le _
    omega
  · exact State.exists_moves hcode s w fun hdone => hloc (Place.eq_gone_of_done hdone)

/-- The shutdown comes while a scan is going on that then fails: the loop parks without a
look at the flag, and finds its permit. -/
theorem failed_scan_is_released :
    let s := run ([.own .scan 0, .own .scan 0, .signal 0, .signal 0, .signal 0] ++ [.own .scan 1])
    (s.threads .scan).loc = .failedPark ∧ (s.threads .scan).permit = true :=
  ⟨rfl, (shutdown_releases_every_worker [.own .scan 0, .own .scan 0, .signal 0, .signal 0, .signal 0] [.own .scan 1] 0
    rfl .scan).1 .scanHead rfl⟩

end Worker

end RichPresence.Detect
