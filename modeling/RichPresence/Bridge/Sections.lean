import RichPresence.Bridge.Places

namespace RichPresence

open Lib

/-- A section that puts `v` at one place and touches no owner. -/
structure Sets (i : Place) (v : Option i.Value) (s s' : Shared) : Prop where
  look : s'.look = Function.update s.look i v
  owners : s'.owners = s.owners

def Contents.resume (C : Codec) (env : Env) (game : ScannedGame) (w : Contents) : Contents :=
  match genericPayload C env game with
  | some payload =>
      Function.update (Function.update w (.shown game.id) (some game.pid)) (.card (SocketId.ofApp game.id))
        (some payload)
  | none => Function.update w (.shown game.id) (some game.pid)

namespace Meeting

variable {M : Meeting} {W P : Set Place} {s s' : Shared} {w : Contents}

namespace Holds

variable (h : M.Holds s)

include h

theorem cards_fit {k : SocketId} (hk : k ∈ M.bounds.cards) (v : CachedActivity × UInt64) :
    Table.size (s.cache.insert k v) ≤ maxCachedActivities := by
  refine (Table.size_le_of_subset _ fun x hx => ?_).trans M.cards
  obtain ⟨y, hy⟩ := Table.mem_keys_iff_lookup.mp hx
  rw [Table.lookup_insert_eq] at hy
  split at hy
  next hxk => rwa [hxk]
  next => exact Fair.places h (.card x) (by simp [Shared.look, hy])

theorem slots_fit : Table.size s.lastProcess < maxHandoffEntries := by
  refine (Table.size_le_of_subset _ fun x hx => ?_).trans_lt M.slots
  obtain ⟨y, hy⟩ := Table.mem_keys_iff_lookup.mp hx
  exact Fair.places h (.shown x) (by simp [Shared.look, hy])

theorem scans_fit : Table.size s.handoff.lastScans < maxHandoffEntries := by
  refine (Table.size_le_of_subset _ fun x hx => ?_).trans_lt M.scans
  obtain ⟨y, hy⟩ := Table.mem_keys_iff_lookup.mp hx
  exact Fair.places h (.scan x) (by simp [Shared.look, hy])

theorem owners_fit : Table.size s.handoff.liveIpc < maxHandoffEntries := by
  refine (Table.size_le_of_subset _ fun x hx => ?_).trans_lt M.owners
  obtain ⟨y, hy⟩ := Table.mem_keys_iff_lookup.mp hx
  exact Fair.owners h x (by simp [Shared.owners, hy])

end Holds

section Write

variable {i : Place} {v : Option i.Value} (hi : i ∈ W → i ∈ P) (hv : v.isSome → M.bounds.Has i)
  (hscan : ∀ app, i = .scan app → v = none ∨ M.Unclaimed app)

include hv hscan

theorem Holds.write (hs : M.Holds s) (hw : Sets i v s s') : M.Holds s' := by
  rw [Holds, hw.look, hw.owners]
  exact Fair.update hs hv hscan

include hi

theorem keeps_write (hs : M.Holds s) (hw : Sets i v s s') : (M.layout W).Keeps P s s' where
  holds := hs.write hv hscan hw
  frame j hj hn := by
    change s'.look j = s.look j
    rw [hw.look, Function.update_of_ne]
    rintro rfl
    exact hn (hi hj)

theorem settles_write {f : Shared → Shared} (hf : ∀ s, M.Holds s → Agree P s.look w → Sets i v s (f s)) :
    (M.layout W).Settles P (fun _ w' => w' = Function.update w i v) (Prog.updates f) w := by
  intro s hs ha
  have hw := hf s hs ha
  refine ⟨keeps_write hi hv hscan hs hw, hw.owners, _, ?_, rfl⟩
  change Agree P (f s).look _
  rw [hw.look]
  exact ha.update i v

end Write

theorem Holds.wiped {Z : Set Place} (hs : M.Holds s) (hl : s'.look = Contents.patch .empty Z s.look)
    (ho : s'.owners = s.owners) : M.Holds s' := by
  rw [Holds, hl, ho]
  exact Fair.emptied hs Z

theorem settles_wipe {α : Type} {f : Shared → α × Shared} {Z : Set Place} {Q : α → Contents → Prop}
    (hZ : ∀ i ∈ Z, i ∈ W → i ∈ P) (hl : ∀ s, (f s).2.look = Contents.patch .empty Z s.look)
    (ho : ∀ s, (f s).2.owners = s.owners)
    (hq : ∀ s, M.Holds s → Agree P s.look w → Q (f s).1 (Contents.patch .empty Z w)) :
    (M.layout W).Settles P Q (Prog.locked f) w := by
  refine Layout.settles_locked fun s hs ha =>
    ⟨⟨hs.wiped (hl s) (ho s), fun i hi hn => ?_⟩, ho s, _, ?_, hq s hs ha⟩
  · change (f s).2.look i = s.look i
    rw [hl]
    exact Contents.patch_of_notMem fun hz => hn (hZ i hz hi)
  · change Agree P (f s).2.look _
    rw [hl]
    exact Contents.agree_patch ha Z

theorem settles_inert {f : Shared → Shared} (hl : ∀ s, (f s).look = s.look) (ho : ∀ s, (f s).owners = s.owners) :
    (M.layout W).Settles P (fun _ w' => w' = w) (Prog.updates f) w := by
  intro s hs ha
  refine ⟨⟨?_, fun i _ _ => ?_⟩, ho s, w, ?_, rfl⟩
  · change M.Fair (f s).look (f s).owners
    rw [hl, ho]
    exact hs
  · exact congrFun (hl s) i
  · change Agree P (f s).look w
    rw [hl]
    exact ha

theorem settles_same {f : Shared → Shared} (hf : ∀ s, M.Holds s → Agree P s.look w → f s = s) :
    (M.layout W).Settles P (fun _ w' => w' = w) (Prog.updates f) w := by
  intro s hs ha
  rw [hf s hs ha]
  exact ⟨.rfl hs, rfl, w, ha, rfl⟩

theorem settles_fanout (env : Env) (payload : CachedActivity) :
    (M.layout W).Settles P (fun _ w' => w' = w)
      (Prog.updates (Shared.sendToAll env payload) >>= fun _ => Prog.updates Shared.setDirty) w := by
  have hsend : (M.layout W).Settles P (fun _ w' => w' = w) (Prog.updates (Shared.sendToAll env payload)) w :=
    settles_inert (fun _ => rfl) fun _ => rfl
  refine hsend.bind fun _ w' hw => ?_
  rw [← hw]
  exact settles_inert (fun _ => rfl) fun _ => rfl

theorem Holds.sets_card (hs : M.Holds s) {payload : CachedActivity} {k : SocketId} (env : Env)
    (hc : payload.isClear = false) (hb : k ∈ M.bounds.cards) :
    Sets (.card k) (some payload) s (s.updateCache env payload k) := by
  exact ⟨s.look_updateCache_card env hc (hs.cards_fit hb _), Shared.owners_congr (by simp)⟩

theorem sets_uncard (s : Shared) {payload : CachedActivity} (k : SocketId) (env : Env)
    (hc : payload.isClear = true) : Sets (.card k) none s (s.updateCache env payload k) := by
  exact ⟨s.look_updateCache_clear env hc, Shared.owners_congr (by simp)⟩

section Broadcast

variable {env : Env} {payload : CachedActivity} {k : SocketId} (hk : .card k ∈ W → .card k ∈ P)

include hk

theorem settles_card (hc : payload.isClear = false) (hb : k ∈ M.bounds.cards) :
    (M.layout W).Settles P (fun _ w' => w' = Function.update w (.card k) (some payload))
      (broadcastActivity env payload k) w := by
  refine (settles_write hk (fun _ => hb) (fun _ h => nomatch h) fun s hs _ => hs.sets_card env hc hb).bind
    fun _ w' hw => ?_
  rw [← hw]
  exact settles_fanout env payload

theorem settles_uncard (hc : payload.isClear = true) :
    (M.layout W).Settles P (fun _ w' => w' = Function.update w (.card k) none)
      (broadcastActivity env payload k) w := by
  refine (settles_write hk (by simp) (fun _ h => nomatch h) fun s _ _ => sets_uncard s k env hc).bind
    fun _ w' hw => ?_
  rw [← hw]
  exact settles_fanout env payload

theorem settles_broadcastClear (C : Codec) (pid : Nat) :
    (M.layout W).Settles P (fun _ w' => w' = Contents.patch .empty {i | i = .card k ∧ (emptyCached C pid k).isSome} w)
      (broadcastClear C env pid k) w := by
  rw [broadcastClear]
  cases he : emptyCached C pid k with
  | some payload =>
      refine (settles_uncard hk (emptyCached_spec he).1).imp fun _ w' hw => ?_
      rw [hw]
      refine (Contents.update_eq_patch (T := .empty)).trans ?_
      congr 1
      ext i
      simp
  | none =>
      refine (settles_inert (f := Shared.countDropped) (fun _ => rfl) fun _ => rfl).imp
        fun _ w' hw => ?_
      rw [hw]
      simp [Contents.patch_empty]

end Broadcast

theorem settles_clears {α : Type} {env : Env} (C : Codec) (pid : α → Nat) (k : α → SocketId) {l : List α}
    (hk : ∀ x ∈ l, .card (k x) ∈ W → .card (k x) ∈ P) :
    (M.layout W).Settles P (fun _ w' =>
        w' = Contents.patch .empty {i | ∃ x ∈ l, i = .card (k x) ∧ (emptyCached C (pid x) (k x)).isSome} w)
      (forM l fun x => broadcastClear C env (pid x) (k x)) w := by
  refine (Layout.Settles.forM fun x hx w => settles_broadcastClear (hk x hx) C (pid x)).imp fun _ w' hw => ?_
  rw [hw, Contents.foldl_patch]
  rfl

theorem settles_resumeGeneric {C : Codec} {env : Env} {game : ScannedGame}
    (hs : .shown game.id ∈ W → .shown game.id ∈ P)
    (hk : .card (SocketId.ofApp game.id) ∈ W → .card (SocketId.ofApp game.id) ∈ P)
    (hslot : game.id ∈ M.bounds.slots) (hcard : SocketId.ofApp game.id ∈ M.bounds.cards) :
    (M.layout W).Settles P (fun _ w' => w' = Contents.resume C env game w) (resumeGeneric C env game) w := by
  have hsets : ∀ s, M.Holds s → Agree P s.look w → Sets (.shown game.id) (some game.pid) s
      { s with lastProcess := trackProcessPublication env game.id game.pid s.lastProcess } :=
    fun s hh _ => ⟨s.look_track env hh.slots_fit, rfl⟩
  refine (settles_write hs (fun _ => hslot) (fun _ h => nomatch h) hsets).bind fun _ w' hw => ?_
  rw [Contents.resume, ← hw]
  cases hp : genericPayload C env game with
  | some payload => exact settles_card hk (genericPayload_spec hp).1 hcard
  | none => exact settles_inert (fun _ => rfl) fun _ => rfl

end Meeting

end RichPresence
