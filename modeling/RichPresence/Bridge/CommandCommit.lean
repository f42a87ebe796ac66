import RichPresence.Bridge.CommandParts

namespace RichPresence

open Lib

def Contents.recorded (C : Codec) (env : Env) (cmd : ActivityCmd) (w : Contents) : Contents :=
  Function.update w .guard ((w .guard).map fun recent =>
    (recent.shouldDrop env.walk cmd.applicationId cmd.pid (fingerprint C env cmd) env.instant).2)

/-- A command that found its card changed or unchanged has ended. -/
def Contents.announced (C : Codec) (env : Env) (cmd : ActivityCmd) (changed : Bool) (w : Contents) : Contents :=
  if changed then
    match sdkCard C env cmd with
    | some payload =>
        Function.update w (.card (SocketId.ofPid cmd.pid)) (if payload.isClear then none else some payload)
    | none => w
  else w

theorem Contents.announced_of_ne {C : Codec} {env : Env} {cmd : ActivityCmd} {changed : Bool} {w : Contents}
    {i : Place} (h : i ≠ .card (SocketId.ofPid cmd.pid)) : Contents.announced C env cmd changed w i = w i := by
  rw [announced]
  split
  next =>
    cases sdkCard C env cmd with
    | some payload => exact Function.update_of_ne h _ _
    | none => rfl
  next => rfl

namespace Meeting

variable {M : Meeting} {W P : Set Place} {w : Contents} {C : Codec} {env : Env} {cmd : ActivityCmd}

theorem settles_guard (hguard : .guard ∈ W → .guard ∈ P) {answer : Shared → Bool} {d : Bool}
    (hd : ∀ s, M.Holds s → Agree P s.look w → answer s = d) :
    (M.layout W).Settles P (fun drop w' => drop = d ∧ w' = Contents.recorded C env cmd w)
      (Prog.locked fun s => (answer s, recorded C env cmd s)) w := by
  refine Layout.settles_locked fun s hs ha => ?_
  have hsets := sets_recorded C env cmd s
  refine ⟨keeps_write hguard (fun _ => trivial) (fun _ h => nomatch h) hs hsets, rfl,
    Contents.recorded C env cmd w, ?_, hd s hs ha, rfl⟩
  change Agree P (Shared.look _) _
  rw [hsets.look]
  intro i hi
  by_cases hg : i = .guard
  · subst hg
    rw [Contents.recorded, Function.update_self, Function.update_self, ← ha _ hi]
    rfl
  · rw [Contents.recorded, Function.update_of_ne hg, Function.update_of_ne hg]
    exact ha i hi

section Announce

variable (hinv : M.Invites env cmd)
  (hcard : .card (SocketId.ofPid cmd.pid) ∈ W → .card (SocketId.ofPid cmd.pid) ∈ P)

include hinv hcard

theorem settles_announcing (changed : Bool) :
    (M.layout W).Settles P (fun _ w' => w' = Contents.announced C env cmd changed w)
      (announcing C env cmd changed) w := by
  cases changed with
  | false => exact Layout.settles_pure rfl
  | true =>
      rw [announcing, Contents.announced, if_pos rfl, if_pos rfl]
      cases he : sdkCard C env cmd with
      | none => exact Layout.settles_pure rfl
      | some payload =>
          have hclear := (sdkCard_spec he).isClear
          cases hc : payload.isClear with
          | true =>
              simp only [hc, if_true]
              exact settles_uncard hcard hc
          | false =>
              have ha : cmd.activity.isSome := by
                rw [← Option.not_isNone, ← hclear, hc]
                rfl
              simp only [hc, Bool.false_eq_true, if_false]
              exact settles_card hcard hc (hinv.card ha)

theorem settles_ends {read changed : Bool} (hread : .card (SocketId.ofPid cmd.pid) ∈ P → read = changed) :
    (M.layout W).Settles P (fun _ w' => Agree P w' (Contents.announced C env cmd changed w))
      (announcing C env cmd read) w := by
  refine (settles_announcing hinv hcard read).imp fun _ w' hw i hi => ?_
  rw [hw]
  by_cases hm : i = .card (SocketId.ofPid cmd.pid)
  · rw [hread (hm ▸ hi)]
  · rw [Contents.announced_of_ne hm, Contents.announced_of_ne hm]

end Announce

theorem settles_changed (fp : Option Bytes) : (M.layout W).Settles P
    (fun changed w' => (.card (SocketId.ofPid cmd.pid) ∈ P →
      changed = differs ((w (.card (SocketId.ofPid cmd.pid))).map (·, 0)) fp) ∧ w' = w)
    (activityChanged (SocketId.ofPid cmd.pid) fp) w := by
  refine Layout.settles_reads fun s _ ha => ⟨fun hm => differs_congr ?_ fp, rfl⟩
  rw [← ha _ hm]
  change _ = Option.map _ (Option.map _ (Option.map _ _))
  simp only [Option.map_map]
  rfl

/-- What the slots of a scan show once they are given back. -/
def givenBack (C : Codec) (env : Env) (scans : Contents) : Contents
  | .shown app => (scans (.scan app)).map (·.pid)
  | .card k => (scans (.scan ⟨k.text⟩)).bind (genericPayload C env)
  | _ => none

def givenPlaces (C : Codec) (env : Env) (game : ScannedGame) : Set Place :=
  {i | i = .shown game.id ∨ i = .card (SocketId.ofApp game.id) ∧ (genericPayload C env game).isSome}

theorem resume_eq_patch {game : ScannedGame} {v : Contents} (h : v (.scan game.id) = some game) :
    Contents.resume C env game w = Contents.patch (givenBack C env v) (givenPlaces C env game) w := by
  have hshown : givenBack C env v (.shown game.id) = some game.pid := congrArg (Option.map ScannedGame.pid) h
  have hcard : givenBack C env v (.card (SocketId.ofApp game.id)) = genericPayload C env game :=
    congrArg (Option.bind · (genericPayload C env)) h
  rw [Contents.resume, ← hshown, Contents.update_eq_patch]
  cases hp : genericPayload C env game with
  | none =>
      ext i
      simp [givenPlaces, hp]
  | some payload =>
      simp only [← hcard.trans hp, Contents.update_eq_patch, Contents.patch_patch]
      congr 1
      ext i
      simp [givenPlaces, hp, or_comm]

/-- What a clear leaves behind when the slots are owned as in `o` at its release. -/
noncomputable def resumedView (C : Codec) (env : Env) (cmd : ActivityCmd) (start : Shared) (w : Contents)
    (o : Owners) : Contents :=
  Contents.patch (givenBack C env start.look)
    {i | ∃ game ∈ resumable env cmd start, o game.id = some cmd.pid ∧ i ∈ givenPlaces C env game} w

section Clear

variable (hinv : M.Invites env cmd)

include hinv

theorem settles_resumes (hg : isGenuineClear cmd = true) {l : List ScannedGame}
    (hl : ∀ game ∈ l, game ∈ resumable env cmd M.start ∧ slotPlaces game.id ⊆ P) :
    (M.layout W).Settles P (fun _ w' => w' = Contents.patch (givenBack C env M.start.look)
      {i | ∃ game ∈ l, i ∈ givenPlaces C env game} w) (forM l (resumeGeneric C env)) w := by
  refine (Layout.Settles.forM fun game hm w => ?_).imp fun _ w' hw => hw.trans (Contents.foldl_patch _ l)
  obtain ⟨hstart, hP⟩ := hl game hm
  obtain ⟨hslot, hfits⟩ := hinv.games hg game hstart
  refine (settles_resumeGeneric (fun _ => shown_mem hP) (fun _ => card_mem hP) hslot hfits).imp fun _ w' hw => ?_
  rw [hw]
  exact resume_eq_patch (scan_of_resumable hstart)

/-- A clear commits where it releases its slots: from there on it works on what
it gives back as well. -/
theorem commits_release (hg : isGenuineClear cmd = true) (hw : ∀ o, Agree (given env cmd M.start o) w M.start.look)
    {g : Unit → Prog Shared Unit} {final : Owners → Contents}
    (hrest : ∀ o, (M.layout W).Settles (P ∪ given env cmd M.start o)
      (fun _ w' => Agree (P ∪ given env cmd M.start o) w' (final o)) (g ()) (resumedView C env cmd M.start w o)) :
    (M.layout W).Commits P M.start.look (given env cmd M.start) (release cmd) final
      (resumeAfterClear C env (fixed C env cmd) >>= g) w := by
  rw [resumeAfterClear_eq _ _ _ hg]
  refine Layout.commits_locked (g := fun games => forM games (resumeGeneric C env) >>= g) fun s hs ha hstart => ?_
  change Agree (given env cmd M.start s.owners) s.look M.start.look at hstart
  refine ⟨⟨hs.released, fun i _ _ => congrFun look_released i⟩, owners_released, ?_⟩
  have hview : Agree (P ∪ given env cmd M.start s.owners) w (released env cmd s).look := by
    rw [look_released]
    rintro i (hi | hi)
    · exact (ha i hi).symm
    · exact (hw _ i hi).trans (hstart i hi).symm
  have hplaces : ∀ game ∈ resumable env cmd M.start, s.owners game.id = some cmd.pid →
      slotPlaces game.id ⊆ given env cmd M.start s.owners :=
    fun game hm ho i hi => ⟨hg, game, hm, ho, hi⟩
  have hback : ∀ game, game ∈ resumable env cmd s ↔
      game ∈ resumable env cmd M.start ∧ s.owners game.id = some cmd.pid := by
    refine fun game => ⟨hs.of_resumable hinv hg, fun ⟨hm, ho⟩ => resumable_of_owner hm ho ?_⟩
    exact (hstart _ (hplaces game hm ho (by simp [slotPlaces]))).trans (scan_of_resumable hm)
  have hl : ∀ game ∈ resumable env cmd s, game ∈ resumable env cmd M.start ∧
      slotPlaces game.id ⊆ P ∪ given env cmd M.start s.owners := by
    intro game hm
    obtain ⟨hm, ho⟩ := (hback game).mp hm
    exact ⟨hm, (hplaces game hm ho).trans Set.subset_union_right⟩
  refine ((settles_resumes hinv hg hl).congr (w := w) hview).bind fun _ w' hw' => ?_
  have hset : {i | ∃ game ∈ resumable env cmd s, i ∈ givenPlaces C env game} =
      {i | ∃ game ∈ resumable env cmd M.start, s.owners game.id = some cmd.pid ∧ i ∈ givenPlaces C env game} := by
    ext i
    simp only [hback, Set.mem_ofPred_eq, and_assoc]
  rw [hw', hset]
  exact hrest s.owners

end Clear

end Meeting

namespace Meeting

variable {M : Meeting} {W P : Set Place} {w : Contents} {C : Codec} {env : Env} {cmd : ActivityCmd}

/-- How a command moves the owners, and that what it leaves behind depends on
them only by what it gives back. -/
structure Effect (env : Env) (cmd : ActivityCmd) (start : Shared) (move : Owners → Owners)
    (final : Owners → Contents) : Prop where
  kind : move = id ∨ cmd.activity.isSome ∧ move = claim cmd ∨ isGenuineClear cmd = true ∧ move = release cmd
  clear : isGenuineClear cmd = true → move = release cmd
  final : ∀ o o', (isGenuineClear cmd = true → ∀ game ∈ resumable env cmd start,
    (o game.id = some cmd.pid ↔ o' game.id = some cmd.pid)) → final o = final o'

section Command

variable (hinv : M.Invites env cmd)
  (hcard : .card (SocketId.ofPid cmd.pid) ∈ W → .card (SocketId.ofPid cmd.pid) ∈ P)

include hinv hcard

omit hcard in
theorem commits_claim (hact : cmd.activity.isSome) {g : Unit → Prog Shared Unit} {v : Contents}
    (hg : (M.layout W).Settles P (fun _ w' => Agree P w' v) (g ()) w) {w₀ : Contents} :
    (M.layout W).Commits P w₀ (fun _ => ∅) (claim cmd) (fun _ => v)
      (noteSdkPublish env (fixed C env cmd) >>= g) w := by
  rw [noteSdkPublish_eq]
  split
  next =>
    refine Layout.commits_locked (f := fun s => ((), claimed env cmd s)) fun s hs ha _ => ?_
    simp only [Set.union_empty]
    refine ⟨⟨hs.claimed hinv hact, fun i _ _ => congrFun look_claimed i⟩, owners_claimed hs, hg.congr ?_⟩
    change Agree P w (Shared.look _)
    rw [look_claimed]
    exact ha.symm
  next hnone =>
    have hid : claim cmd = id := by
      funext o
      rw [RichPresence.claim]
      split
      next app ha => exact absurd ⟨hact, by rw [ha]; rfl⟩ hnone
      next => rfl
    rw [hid]
    exact hg.commits fun _ => rfl

theorem commits_publish (hact : cmd.activity.isSome) (hg : isGenuineClear cmd = false) :
    ∃ move final, Effect env cmd M.start move final ∧
      (M.layout W).Commits P M.start.look (given env cmd M.start) move final (proceeding C env cmd) w := by
  let changed := differs ((w (.card (SocketId.ofPid cmd.pid))).map (·, 0)) (fingerprint C env cmd)
  refine ⟨claim cmd, fun _ => Contents.announced C env cmd changed w,
    ⟨.inr (.inl ⟨hact, rfl⟩), by simp [hg], fun _ _ _ => rfl⟩,
    (settles_changed (fingerprint C env cmd)).commits_bind ?_⟩
  rintro read _ ⟨hread, rfl⟩
  rw [given_of_not_clear hg]
  refine commits_claim hinv hact ?_
  rw [resumeAfterClear, isGenuineClear_fixed, hg]
  exact settles_ends hinv hcard hread

theorem commits_clear (hact : cmd.activity = none)
    (hapart : ∀ o, .card (SocketId.ofPid cmd.pid) ∉ given env cmd M.start o)
    (hw : ∀ o, Agree (given env cmd M.start o) w M.start.look) :
    ∃ move final, Effect env cmd M.start move final ∧
      (M.layout W).Commits P M.start.look (given env cmd M.start) move final (proceeding C env cmd) w := by
  have hpure : noteSdkPublish env (fixed C env cmd) = pure () := by
    rw [noteSdkPublish_eq, hact]
    rfl
  let changed := differs ((w (.card (SocketId.ofPid cmd.pid))).map (·, 0)) (fingerprint C env cmd)
  cases hg : isGenuineClear cmd with
  | false =>
      refine ⟨id, fun _ => Contents.announced C env cmd changed w, ⟨.inl rfl, by simp [hg], fun _ _ _ => rfl⟩,
        (settles_changed (fingerprint C env cmd)).commits_bind ?_⟩
      rintro read _ ⟨hread, rfl⟩
      rw [hpure, resumeAfterClear, isGenuineClear_fixed, hg, given_of_not_clear hg]
      exact Layout.Settles.commits (settles_ends hinv hcard hread) fun _ => rfl
  | true =>
      refine ⟨release cmd, fun o => Contents.announced C env cmd changed (resumedView C env cmd M.start w o),
        ⟨.inr (.inr ⟨hg, rfl⟩), fun _ => rfl, fun o o' ho => ?_⟩,
        (settles_changed (fingerprint C env cmd)).commits_bind ?_⟩
      · have hset : {i | ∃ game ∈ resumable env cmd M.start, o game.id = some cmd.pid ∧ i ∈ givenPlaces C env game} =
            {i | ∃ game ∈ resumable env cmd M.start, o' game.id = some cmd.pid ∧ i ∈ givenPlaces C env game} := by
          ext i
          constructor
          · rintro ⟨game, hm, hown, hi⟩
            exact ⟨game, hm, (ho hg game hm).mp hown, hi⟩
          · rintro ⟨game, hm, hown, hi⟩
            exact ⟨game, hm, (ho hg game hm).mpr hown, hi⟩
        rw [resumedView, resumedView, hset]
      · rintro read _ ⟨hread, rfl⟩
        rw [hpure]
        refine commits_release hinv hg hw fun o => settles_ends hinv (fun h => .inl (hcard h)) fun hm => ?_
        exact hread (hm.resolve_right (hapart o))

theorem commits_command (hguard : .guard ∈ W → .guard ∈ P)
    (hapart : ∀ o, .card (SocketId.ofPid cmd.pid) ∉ given env cmd M.start o) (answer : Shared → Bool) {d : Bool}
    (hd : ∀ s, M.Holds s → Agree P s.look M.start.look → answer s = d) (hclear : cmd.activity = none → d = false) :
    ∃ move final, Effect env cmd M.start move final ∧
      (M.layout W).Commits P M.start.look (given env cmd M.start) move final (guarded C env cmd answer)
        M.start.look := by
  have hview : ∀ o, Agree (given env cmd M.start o) (Contents.recorded C env cmd M.start.look) M.start.look := by
    rintro o i ⟨_, game, _, _, hi⟩
    refine Function.update_of_ne ?_ _ _
    rintro rfl
    simp [slotPlaces] at hi
  have hbody : ∃ move final, Effect env cmd M.start move final ∧
      (M.layout W).Commits P M.start.look (given env cmd M.start) move final
        (if d then pure () else if cmd.args.isNone then pure () else proceeding C env cmd)
        (Contents.recorded C env cmd M.start.look) := by
    by_cases hstop : d = true ∨ cmd.args.isNone = true
    · have hg : isGenuineClear cmd = false := by
        rcases hstop with h | h
        · exact Bool.eq_false_iff.mpr fun hg => by simp [hclear (isGenuineClear_iff.mp hg).2] at h
        · rw [isGenuineClear, Option.isNone_iff_eq_none.mp h]
          rfl
      refine ⟨id, fun _ => Contents.recorded C env cmd M.start.look, ⟨.inl rfl, by simp [hg], fun _ _ _ => rfl⟩, ?_⟩
      have hpure : (if d then pure () else if cmd.args.isNone then pure () else proceeding C env cmd) =
          (pure () : Prog Shared Unit) := by
        rcases hstop with h | h
        · rw [if_pos h]
        · rw [if_pos h, ite_self]
      rw [hpure, given_of_not_clear hg]
      exact Layout.Settles.commits (Layout.settles_pure (.refl P _)) fun _ => rfl
    · rw [not_or] at hstop
      rw [if_neg hstop.1, if_neg hstop.2]
      cases hact : cmd.activity with
      | none => exact commits_clear hinv hcard hact hapart hview
      | some activity =>
          refine commits_publish hinv hcard (by simp [hact]) (Bool.eq_false_iff.mpr fun hg => ?_)
          simp [(isGenuineClear_iff.mp hg).2] at hact
  obtain ⟨move, final, heffect, hcommits⟩ := hbody
  refine ⟨move, final, heffect, (settles_guard hguard hd).commits_bind ?_⟩
  rintro _ _ ⟨rfl, rfl⟩
  exact hcommits

end Command

end Meeting

end RichPresence
