import RichPresence.Ipc.SocketClaim

namespace RichPresence.Ipc.Claim

open Lib

section Settled

variable {E : Type} {locate : String → E} {h h' : Host E} {id holder : Nat} {path : String}

/-- The transport serves at this path, and nobody else is going to remove what stands there. -/
structure Settled (locate : String → E) (h : Host E) (holder : Nat) (path : String) : Prop where
  serving : h.stages holder = .serving path
  entry : h.entries (locate path) = some (.socket holder)
  listening : h.listening holder = true
  alone : ∀ other ≠ holder, ∀ p, (h.stages other).cleans = some p → locate p ≠ locate path
  unspotted : locate path ∉ h.spotted

theorem Settled.of_enter {stage : Stage} (hs : Settled locate h holder path) (hid : id ≠ holder)
    (hentry : h'.entries (locate path) = h.entries (locate path))
    (hlistening : h'.listening holder = h.listening holder)
    (hstages : h'.stages = h.stages) (hspotted : h'.spotted = h.spotted)
    (hstage : ∀ p, stage.cleans = some p → locate p ≠ locate path) :
    Settled locate (h'.enter id stage) holder path where
  serving := by
    rw [Host.stages_enter_of_ne hid.symm, hstages]
    exact hs.serving
  entry := hentry.trans hs.entry
  listening := hlistening.trans hs.listening
  alone := by
    intro other hother p hp
    by_cases hself : other = id
    · subst hself
      rw [Host.stages_enter_self] at hp
      exact hstage p hp
    · rw [Host.stages_enter_of_ne hself, hstages] at hp
      exact hs.alone other hother p hp
  unspotted := by
    rw [Host.enter, hspotted]
    exact hs.unspotted

variable [DecidableEq E]

theorem Settled.relinks (hs : Settled locate h holder path) (hr : Relinks h h') :
    Settled locate h' holder path := by
  cases hr with
  | @spots e hlink =>
      refine ⟨hs.serving, hs.entry, hs.listening, hs.alone, ?_⟩
      rintro (_ | ⟨_, hmem⟩)
      · rw [hs.entry] at hlink
        cases hlink
      · exact hs.unspotted hmem
  | unlinks hspotted =>
      refine ⟨hs.serving, ?_, hs.listening, hs.alone, fun hmem => hs.unspotted (List.mem_of_mem_erase hmem)⟩
      rw [← hs.entry]
      exact Host.entries_place_of_ne fun hpath => hs.unspotted (hpath ▸ hspotted)
  | forgets =>
      exact ⟨hs.serving, hs.entry, hs.listening, hs.alone, fun hmem => hs.unspotted (List.mem_of_mem_erase hmem)⟩
  | links hfree =>
      refine ⟨hs.serving, ?_, hs.listening, hs.alone, hs.unspotted⟩
      rw [← hs.entry]
      refine Host.entries_place_of_ne fun hpath => ?_
      rw [← hpath, hs.entry] at hfree
      cases hfree

theorem Settled.moves (hs : Settled locate h holder path) (hm : Moves locate h id h')
    (hserving : h'.stages holder = .serving path) : Settled locate h' holder path := by
  by_cases hid : id = holder
  · -- of its own moves only those that end it are open to a serving transport
    subst hid
    cases hm with
    | passes hnot => exact absurd hs.serving (hnot path)
    | condemns hstage | opens hstage | cleans hstage | serves hstage => rw [hs.serving] at hstage; cases hstage
    | closes | drops | leaves => rw [Host.stages_enter_self] at hserving; cases hserving
  · have hlisten {on : Bool} : (h.listen id on).listening holder = h.listening holder :=
      Host.listening_listen_of_ne (Ne.symm hid)
    have hplace {p : String} {node : Option Node} (hp : locate p ≠ locate path) :
        (h.place (locate p) node).entries (locate path) = h.entries (locate path) :=
      Host.entries_place_of_ne hp.symm
    have hcleans {p : String} (hp : (h.stages id).cleans = some p) : locate p ≠ locate path :=
      hs.alone id hid p hp
    cases hm with
    | passes _ hnone => exact hs.of_enter hid rfl rfl rfl rfl (by simp [hnone])
    | condemns _ hdead =>
        refine hs.of_enter hid rfl rfl rfl rfl ?_
        rintro p ⟨rfl⟩ hp
        have hdeaf := hdead holder (by rw [hp, hs.entry])
        rw [hs.listening] at hdeaf
        cases hdeaf
    | cleans hstage =>
        exact hs.of_enter hid (hplace (hcleans (by rw [hstage]; rfl))) rfl rfl rfl
          (by simp [Stage.cleans, Stage.held])
    | @opens p _ hfree =>
        have hp : locate p ≠ locate path := by
          intro hp
          rw [hp, hs.entry] at hfree
          cases hfree
        refine hs.of_enter hid (hplace hp) rfl rfl rfl ?_
        rintro _ ⟨rfl⟩
        exact hp
    | serves hstage | closes hstage =>
        exact hs.of_enter hid rfl hlisten rfl rfl fun p h => hcleans (by rw [hstage]; exact h)
    | drops hheld =>
        exact hs.of_enter hid (hplace (hcleans (Stage.cleans_of_held hheld))) hlisten rfl rfl
          (by simp [Stage.cleans, Stage.held])
    | leaves => exact hs.of_enter hid rfl hlisten rfl rfl (by simp [Stage.cleans, Stage.held])

theorem turn_stages_of_ne {reply : Reply} (hne : holder ≠ id) :
    (h.turn locate id reply).stages holder = h.stages holder := by
  simp only [Host.turn, Host.bindAt]
  repeat' split
  all_goals first | rfl | exact Host.stages_enter_of_ne hne

theorem step_stages_of_ne {e : Event E} (hmover : e.mover ≠ some holder) :
    (h.step locate e).stages holder = h.stages holder := by
  have hne {id : Nat} (hid : some id ≠ some holder) : holder ≠ id := fun heq => hid (congrArg some heq.symm)
  cases e with
  | turn id reply => exact turn_stages_of_ne (hne hmover)
  | crash id => exact Host.stages_enter_of_ne (hne hmover)
  | bind id | close id | drop id =>
      simp only [Host.step, Host.close, Host.drop]
      repeat' split
      all_goals first | rfl | exact Host.stages_enter_of_ne (hne hmover)
  | spot | unlink | link =>
      simp only [Host.step, Host.spot, Host.unlink, Host.link]
      repeat' split
      all_goals rfl

theorem step_serving {e : Event E} (hserving : h.stages holder = .serving path)
    (hends : e.ends ≠ some holder) : (h.step locate e).stages holder = .serving path := by
  by_cases hmover : e.mover = some holder
  · cases e with
    | bind id | turn id =>
        obtain rfl := Option.some.inj hmover
        simp [Host.step, Host.turn, hserving]
    | close | drop | crash => exact absurd hmover hends
    | spot | unlink | link => cases hmover
  · rw [step_stages_of_ne hmover, hserving]

/-- A transport that serves at a path which nobody else is going to clean keeps it, however
many transports bind, fan out, crash, shut down and race with each other after that. -/
theorem settled_transport_keeps_its_path (locate : String → E) (W : Wire) (world : Nat → Moment) (ending : Ending)
    (h : Host E) (holder : Nat) (path : String) (events : List (Event E))
    (hsettled : Settled locate h holder path) (hgoes : ∀ e ∈ events, e.ends ≠ some holder)
    (hanswered : Along (Host.step locate) (answered locate W world ending · ·) h events) :
    Settled locate (h.run locate events) holder path := by
  refine Along.invariant (fun h => Settled locate h holder path) (fun h e hs hp => ?_) hsettled
    (hanswered.and (Along.of_forall hgoes))
  have hserving : (h.step locate e).stages holder = .serving path := step_serving hs.serving hp.2
  obtain heq | ⟨id, -, hm⟩ | ⟨-, hr⟩ := step_moves hp.1
  · rwa [heq]
  · exact hs.moves hm hserving
  · exact hs.relinks hr

theorem run_stages_of_ne {events : List (Event E)} {other : Nat} (hmover : ∀ e ∈ events, e.mover = some id)
    (hother : other ≠ id) : (h.run locate events).stages other = h.stages other := by
  have hown : Along (Host.step locate) (fun _ e => e.mover = some id) h events := Along.of_forall hmover
  refine hown.invariant (fun h' => h'.stages other = h.stages other) (fun h' e hs hp => ?_) rfl
  rw [step_stages_of_ne (by rw [hp]; exact fun h => hother (Option.some.inj h).symm), hs]

end Settled

section Progress

variable {E : Type} [DecidableEq E] (locate : String → E) {h : Host E} {id : Nat}

/-- The calls that a transport has to make before it serves or gives up. -/
def Stage.calls : Stage → Nat
  | .trying paths => 4 * paths.length + 1
  | .inUse _ rest => 4 * rest.length + 4
  | .stale _ rest => 4 * rest.length + 3
  | .cleaned _ rest => 4 * rest.length + 2
  | .opened _ => 1
  | _ => 0

def Stage.over : Stage → Bool
  | .serving _ | .closed _ | .ended => true
  | _ => false

def Event.isTurnOf (id : Nat) : Event E → Bool
  | .turn other _ => other = id
  | _ => false

theorem bindAt_calls {n : Nat} {ok : Bool} {path : String} {rest : List String} {inUse : Stage}
    (hrest : 4 * rest.length + 1 ≤ n) (hinUse : inUse.calls ≤ n) :
    ((h.bindAt locate id ok path rest inUse).stages id).calls ≤ n := by
  rw [Host.bindAt]
  split
  next => rwa [Host.stages_enter_self]
  next =>
      split
      next =>
          rw [Host.stages_enter_self]
          exact Nat.le_trans (Nat.le_add_left 1 _) hrest
      next => rwa [Host.stages_enter_self]

theorem turn_calls (reply : Reply) : ((h.turn locate id reply).stages id).calls ≤ (h.stages id).calls - 1 := by
  rw [Host.turn]
  cases hstage : h.stages id with
  | trying paths =>
      cases paths with
      | nil => simp [Stage.calls]
      | cons path rest => exact bindAt_calls _ (Nat.le_add_right _ 3) (Nat.le_refl _)
  | inUse path rest =>
      rw [Host.stages_enter_self]
      split <;> simp [Stage.calls]
  | cleaned path rest => exact bindAt_calls _ (Nat.le_refl _) (Nat.le_refl _)
  | stale | opened => simp [Stage.calls]
  | idle | serving | closed | ended => simp [hstage, Stage.calls]

theorem turn_begun {reply : Reply} (hbegun : h.stages id ≠ .idle) : (h.turn locate id reply).stages id ≠ .idle := by
  simp only [Host.turn, Host.bindAt]
  repeat' split
  all_goals first | exact hbegun | simp

theorem step_calls (hbegun : h.stages id ≠ .idle) (e : Event E) :
    (h.step locate e).stages id ≠ .idle ∧
      ((h.step locate e).stages id).calls ≤ (h.stages id).calls - if e.isTurnOf id then 1 else 0 := by
  by_cases hmover : e.mover = some id
  · cases e with
    | turn other reply =>
        obtain rfl := Option.some.inj hmover
        exact ⟨turn_begun locate hbegun, by simpa [Event.isTurnOf, Host.step] using turn_calls locate reply⟩
    | bind other | close other | drop other | crash other =>
        obtain rfl := Option.some.inj hmover
        simp only [Host.step, Host.close, Host.drop]
        repeat' split
        all_goals simp_all [Event.isTurnOf, Stage.calls]
    | spot | unlink | link => cases hmover
  · rw [step_stages_of_ne hmover]
    have hnot : e.isTurnOf id = false := by
      cases e with
      | turn other reply => exact decide_eq_false fun heq => hmover (congrArg some heq)
      | _ => rfl
    exact ⟨hbegun, by rw [hnot]; exact Nat.le_refl _⟩

theorem run_calls (hbegun : h.stages id ≠ .idle) (events : List (Event E)) :
    (h.run locate events).stages id ≠ .idle ∧
      ((h.run locate events).stages id).calls ≤ (h.stages id).calls - events.countP (Event.isTurnOf id) := by
  induction events generalizing h with
  | nil => exact ⟨hbegun, Nat.le_refl _⟩
  | cons e events ih =>
      obtain ⟨hnext, hcalls⟩ := step_calls locate hbegun e
      obtain ⟨hrun, hle⟩ := ih hnext
      refine ⟨hrun, Nat.le_trans hle ?_⟩
      rw [List.countP_cons, Nat.add_comm, ← Nat.sub_sub]
      exact Nat.sub_le_sub_right hcalls _

theorem length_candidatePaths (dirs : List String) : (candidatePaths dirs).length = 10 * max 1 dirs.length := by
  have hpaths (path : String → Nat → String) (bases : List String) :
      (bases.flatMap fun base => (List.range 10).map (path base)).length = 10 * bases.length := by
    simp [List.length_flatMap, Nat.mul_comm]
  cases dirs with
  | nil => rfl
  | cons dir dirs => exact (hpaths _ _).trans (by simp)

/-- Whatever the other transports do, a bind over some directories is over after ten paths
for each of them, with four calls a path and one more. -/
theorem every_bind_ends (locate : String → E) (h : Host E) (id : Nat) (dirs : List String)
    (hidle : h.stages id = .idle) (events : List (Event E))
    (hturns : 40 * max 1 dirs.length < events.countP (Event.isTurnOf id)) :
    (((h.step locate (.bind id dirs)).run locate events).stages id).over = true := by
  have hbind : (h.step locate (.bind id dirs)).stages id = .trying (candidatePaths dirs) := by
    simp [Host.step, hidle]
  obtain ⟨hbegun, hcalls⟩ := run_calls locate (by rw [hbind]; simp) events
  rw [hbind, Stage.calls, length_candidatePaths] at hcalls
  cases hstage : ((h.step locate (.bind id dirs)).run locate events).stages id with
  | serving | closed | ended => rfl
  | idle => exact absurd hstage hbegun
  | _ =>
      simp only [hstage, Stage.calls] at hcalls
      omega

end Progress

section Sample

def samePath (path : String) : String := path

def emptyDir : Host String := { entries := fun _ => none }

def firstPath : String := "/run/discord-ipc-0"

def arrival : List (Event String) := [.bind 0 ["/run"], .turn 0 {}, .turn 0 {}]

/-- A second transport meets the first one at its path and goes on to the next. -/
def newcomer : List (Event String) :=
  [.bind 1 ["/run"], .turn 1 {}, .turn 1 { probe := some (encode .pong probeText) }, .turn 1 {}, .turn 1 {}]

theorem arrival_settled : Settled samePath (emptyDir.run samePath arrival) 0 firstPath where
  serving := by decide +kernel
  entry := by decide +kernel
  listening := by decide +kernel
  alone := by
    intro other hother p hp
    rw [run_stages_of_ne (by decide) hother] at hp
    cases hp
  unspotted := by decide +kernel

theorem newcomer_leaves_the_path :
    Settled samePath ((emptyDir.run samePath arrival).run samePath newcomer) 0 firstPath ∧
      ((emptyDir.run samePath arrival).run samePath newcomer).stages 1 = .serving "/run/discord-ipc-1" :=
  ⟨settled_transport_keeps_its_path samePath sampleWire noon .eof _ 0 firstPath newcomer arrival_settled (by decide)
    (by decide +kernel), by decide +kernel⟩

theorem single_dir_bind_ends :
    (((emptyDir.step samePath (.bind 0 ["/run"])).run samePath (.replicate 41 (.turn 0 {}))).stages 0).over = true :=
  every_bind_ends samePath emptyDir 0 ["/run"] rfl (.replicate 41 (.turn 0 {})) (by decide)

end Sample

end RichPresence.Ipc.Claim
