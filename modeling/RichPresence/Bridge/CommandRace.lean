import RichPresence.Bridge.Pairing

namespace RichPresence

open Lib

/-- Two states with the same tables, the stamps of the cards apart. -/
structure SameTables (s t : Shared) : Prop where
  cache : ∀ k, (s.cache.lookup k).map (·.1) = (t.cache.lookup k).map (·.1)
  liveIpc : ∀ app, s.handoff.liveIpc.lookup app = t.handoff.liveIpc.lookup app
  lastScans : ∀ app, s.handoff.lastScans.lookup app = t.handoff.lastScans.lookup app
  lastProcess : ∀ app, s.lastProcess.lookup app = t.lastProcess.lookup app

/-- However the sections of the two inputs are interleaved, the tables end as if
one input had been handled after the other. -/
def Serializable (C : Codec) (s : Shared) (e e' : Event) : Prop :=
  ∀ t, Prog.Weave (handle C e) (handle C e') s t →
    SameTables t (step C (step C s e) e') ∨ SameTables t (step C (step C s e') e)

namespace Meeting

variable {M : Meeting} {W P P' : Set Place} {C : Codec} {env env' : Env} {cmd cmd' : ActivityCmd} {s t u : Shared}

theorem tables_of_same (h : (M.layout W).Same t u) (hW : ∀ i, i ≠ .guard → i ∈ W ∨ t.look i = u.look i) :
    SameTables t u := by
  have hlook : ∀ i, i ≠ .guard → t.look i = u.look i := fun i hi => (hW i hi).elim (h.2 i) id
  exact ⟨fun k => hlook (.card k) (by simp), fun app => congrFun h.1 app, fun app => hlook (.scan app) (by simp),
    fun app => hlook (.shown app) (by simp)⟩

theorem tables_of_card {k : SocketId} (h : (M.layout {i | i ≠ .guard ∧ i ≠ .card k}).Same t u)
    (hk : t.lookAt (.card k) = u.lookAt (.card k)) : SameTables t u := by
  refine tables_of_same h fun i hi => ?_
  by_cases hik : i = .card k
  · exact .inr (hik ▸ hk)
  · exact .inl ⟨hi, hik⟩

section Placed

variable {Sdk : Nat → Prop} {Scan : AppId → Prop}
  (sep : ∀ p a, Sdk p → Scan a → SocketId.ofPid p ≠ SocketId.ofApp a) (hplaced : Placed Sdk Scan s)

include sep hplaced

theorem card_far {pid : Nat} (hpid : Sdk pid) (o : Owners) : .card (SocketId.ofPid pid) ∉ given env cmd s o := by
  rintro ⟨_, game, hm, _, hi⟩
  have happ : SocketId.ofPid pid = SocketId.ofApp game.id := by simpa [slotPlaces] using hi
  exact sep pid game.id hpid (hplaced.resumable hm) happ

omit sep hplaced in
theorem guard_far (o : Owners) : .guard ∉ given env cmd s o := by
  rintro ⟨_, game, _, _, hi⟩
  simp [slotPlaces] at hi

end Placed

section Commands

variable {Sdk : Nat → Prop} {Scan : AppId → Prop}
  (sep : ∀ p a, Sdk p → Scan a → SocketId.ofPid p ≠ SocketId.ofApp a) (hplaced : Placed Sdk Scan M.start)
  (hsdk : Sdk cmd.pid) (hsdk' : Sdk cmd'.pid) (hcross : ¬Crosses cmd cmd') (hcross' : ¬Crosses cmd' cmd)

include sep hplaced hsdk hsdk' hcross hcross'

theorem apart_commands (hP : P ⊆ {.card (SocketId.ofPid cmd.pid)}) (hP' : P' ⊆ {.card (SocketId.ofPid cmd'.pid)})
    (hPW : P ⊆ W) (hPW' : P' ⊆ W) (hd : Disjoint P P')
    (hW : ∀ i, i ≠ .guard → i ≠ .card (SocketId.ofPid cmd.pid) → i ≠ .card (SocketId.ofPid cmd'.pid) → i ∈ W)
    {move move' : Owners → Owners} {final final' : Owners → Contents} (h : Effect env cmd M.start move final)
    (h' : Effect env' cmd' M.start move' final') (o : Owners) :
    (M.layout W).Apart P P' (given env cmd M.start) (given env' cmd' M.start) move move' o := by
  have hwatched : ∀ env c, given env c M.start o ⊆ W := by
    intro env c i hi
    refine hW i ?_ ?_ ?_
    · rintro rfl
      exact guard_far o hi
    · rintro rfl
      exact card_far sep hplaced hsdk o hi
    · rintro rfl
      exact card_far sep hplaced hsdk' o hi
  have hfar : ∀ Q : Set Place, ∀ pid, Sdk pid → Q ⊆ {.card (SocketId.ofPid pid)} →
      Disjoint Q (given env cmd M.start o ∪ given env' cmd' M.start o) := by
    intro Q pid hpid hQ
    refine Set.disjoint_left.mpr fun i hi hg => ?_
    obtain rfl := hQ hi
    exact hg.elim (card_far sep hplaced hpid o) (card_far sep hplaced hpid o)
  exact {
    left := Set.union_subset hPW (hwatched env cmd)
    right := Set.union_subset hPW' (hwatched env' cmd')
    own := hd
    left_taken := hfar P _ hsdk hP
    right_taken := hfar P' _ hsdk' hP'
    left_less := given_less hcross' h'
    right_less := given_less hcross h
    left_first := given_first h
    right_first := (given_first h').symm }

variable (hs : M.Holds M.start) (hinv : M.Invites env cmd) (hinv' : M.Invites env' cmd')
  (hw : Prog.Weave (guarded C env cmd fun _ => false) (guarded C env' cmd' fun _ => false) M.start t)

include hs hinv hinv' hw

theorem race_of_pids (hpid : cmd.pid ≠ cmd'.pid) :
    SameTables t ((guarded C env' cmd' fun _ => false).exec ((guarded C env cmd fun _ => false).exec M.start)) ∨
      SameTables t ((guarded C env cmd fun _ => false).exec ((guarded C env' cmd' fun _ => false).exec M.start)) := by
  let W : Set Place := {.guard}ᶜ
  obtain ⟨move, final, h, hc⟩ := commits_command (W := W) (P := {.card (SocketId.ofPid cmd.pid)}) (C := C) hinv
    (fun _ => rfl) (fun hg => absurd rfl hg) (card_far sep hplaced hsdk) (fun _ => false)
    (fun _ _ _ => rfl) (fun _ => rfl)
  obtain ⟨move', final', h', hc'⟩ := commits_command (W := W) (P := {.card (SocketId.ofPid cmd'.pid)}) (C := C) hinv'
    (fun _ => rfl) (fun hg => absurd rfl hg) (card_far sep hplaced hsdk') (fun _ => false)
    (fun _ _ _ => rfl) (fun _ => rfl)
  have hd : Disjoint ({.card (SocketId.ofPid cmd.pid)} : Set Place) {.card (SocketId.ofPid cmd'.pid)} := by
    simpa using fun hk => hpid (SocketId.ofPid_injective hk)
  have hapart := apart_commands sep hplaced hsdk hsdk' hcross hcross' (W := W) (fun _ => id) (fun _ => id)
    (by simp [W]) (by simp [W]) hd (fun i hi _ _ => hi) h h' M.start.owners
  refine (hc.serializes hapart hc' (.refl _ _) (.refl _ _) hs hw).imp ?_ ?_ <;>
    exact fun h => tables_of_same h fun i hi => .inl hi

theorem race_of_pid (hC : C.Encodes) (hpid : cmd.pid = cmd'.pid) :
    SameTables t ((guarded C env' cmd' fun _ => false).exec ((guarded C env cmd fun _ => false).exec M.start)) ∨
      SameTables t ((guarded C env cmd fun _ => false).exec ((guarded C env' cmd' fun _ => false).exec M.start)) := by
  let W : Set Place := {i | i ≠ .guard ∧ i ≠ .card (SocketId.ofPid cmd.pid)}
  have hcard : .card (SocketId.ofPid cmd.pid) ∈ W → .card (SocketId.ofPid cmd.pid) ∈ (∅ : Set Place) :=
    fun h => absurd rfl h.2
  obtain ⟨move, final, h, hc⟩ := commits_command (W := W) (P := ∅) (C := C) hinv hcard (fun hg => absurd rfl hg.1)
    (card_far sep hplaced hsdk) (fun _ => false) (fun _ _ _ => rfl) (fun _ => rfl)
  obtain ⟨move', final', h', hc'⟩ := commits_command (W := W) (P := ∅) (C := C) hinv' (hpid ▸ hcard)
    (fun hg => absurd rfl hg.1) (card_far sep hplaced hsdk') (fun _ => false) (fun _ _ _ => rfl)
    (fun _ => rfl)
  have hapart := apart_commands sep hplaced hsdk hsdk' hcross hcross' (W := W) (Set.empty_subset _)
    (Set.empty_subset _) (Set.empty_subset _) (Set.empty_subset _) (Set.disjoint_empty _)
    (fun i hi hk _ => ⟨hi, hk⟩) h h' M.start.owners
  have hgames : ∀ env c, Sdk c.pid → isGenuineClear c = true → ∀ game ∈ resumable env c M.start,
      SocketId.ofApp game.id ≠ SocketId.ofPid c.pid :=
    fun env c hc _ game hm heq => sep _ _ hc (hplaced.resumable hm) heq.symm
  have htests := tests_guarded (C := C) hinv (hgames env cmd hsdk) false
  have htests' := tests_guarded (C := C) hinv' (hgames env' cmd' hsdk') false
  rw [← hpid] at htests'
  have hcell := htests.serializes hw htests' hs fun hx hx' => cardTests_agree hC hx hx'
  by_cases hboth : isGenuineClear cmd = true ∧ isGenuineClear cmd' = true
  · -- Both write nothing, so the card ends the same whatever the order of the releases.
    have htest : (fun x => !false && cardTest C env' cmd' x) = fun x => !false && cardTest C env cmd x := by
      funext x
      rw [cardTest_clear hC hboth.1, cardTest_clear hC hboth.2]
    rw [htest, cardPut_clear (isGenuineClear_iff.mp hboth.2).2] at htests'
    rw [cardPut_clear (isGenuineClear_iff.mp hboth.1).2] at htests
    obtain ⟨hi, hone⟩ := htests.exec hs
    obtain ⟨hi', hone'⟩ := htests'.exec hs
    have horder := ((htests'.exec hi).2.trans (by rw [hone, hone'])).trans (htests.exec hi').2.symm
    have hk := hcell.elim id fun h => h.trans horder.symm
    exact (hc.serializes hapart hc' (.refl _ _) (.refl _ _) hs hw).imp (tables_of_card · hk)
      (tables_of_card · (hk.trans horder))
  · have hpublish : isGenuineClear cmd = true → cmd'.activity.isSome := by
      intro hg
      by_contra hn
      refine hboth ⟨hg, isGenuineClear_iff.mpr ⟨hpid ▸ (isGenuineClear_iff.mp hg).1, by simpa using hn⟩⟩
    have hpublish' : isGenuineClear cmd' = true → cmd.activity.isSome := by
      intro hg
      by_contra hn
      refine hboth ⟨isGenuineClear_iff.mpr ⟨hpid ▸ (isGenuineClear_iff.mp hg).1, by simpa using hn⟩, hg⟩
    have howned : isGenuineClear cmd = true → ∀ game ∈ resumable env cmd M.start,
        (move' M.start.owners game.id = some cmd.pid ↔ M.start.owners game.id = some cmd.pid) :=
      fun hg game hm => owned_iff hpid.symm (hpublish hg) hcross' h' hg hm
    have howned' : isGenuineClear cmd' = true → ∀ game ∈ resumable env' cmd' M.start,
        (move M.start.owners game.id = some cmd'.pid ↔ M.start.owners game.id = some cmd'.pid) :=
      fun hg game hm => owned_iff hpid (hpublish' hg) hcross h hg hm
    have hconf := hc.confluent hapart hc' (.refl _ _) (.refl _ _) hs hw (moves_comm h h' hpid hcross hcross')
      (h.final _ _ howned) (h'.final _ _ howned') (given_congr howned) (given_congr howned')
    exact hcell.imp (tables_of_card hconf.1) (tables_of_card hconf.2)

end Commands

end Meeting

end RichPresence
