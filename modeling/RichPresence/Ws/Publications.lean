import RichPresence.Ws.Tracking

namespace RichPresence.Ws

open Lib

variable {slot : ClientSlot} {event : ActivityCmd} {entry : PublishedSlot} {pid : Nat}

namespace ClientSlot

theorem forgetPublished_pids (pid : Nat) (slot : ClientSlot) :
    (slot.forgetPublished pid).pids = slot.pids.erase pid := by
  rw [forgetPublished, pids, pids]
  induction slot.published with
  | nil => rfl
  | cons known rest ih =>
      rw [List.eraseP_cons, List.map_cons, List.erase_cons]
      by_cases h : known.pid = pid <;> simp [h, ih]

theorem notePublished_cases (entry : PublishedSlot) (slot : ClientSlot) :
    (∃ old, slot.published.Perm (old :: (slot.forgetPublished entry.pid).published) ∧ old.pid = entry.pid ∧
        slot.notePublished entry = (.admitted (some old), (slot.forgetPublished entry.pid).push entry)) ∨
      (entry.pid ∉ slot.pids ∧ slot.published.length ≥ maxTrackedPids ∧
        slot.notePublished entry = (.refusedFull, slot)) ∨
      (entry.pid ∉ slot.pids ∧ slot.published.length < maxTrackedPids ∧
        slot.notePublished entry = (.admitted none, slot.push entry)) := by
  rw [notePublished]
  cases hf : slot.published.find? fun known => known.pid = entry.pid with
  | some old =>
      obtain ⟨hpid, before, after, heq, hbefore⟩ := List.find?_eq_some_iff_append.mp hf
      refine .inl ⟨old, ?_, of_decide_eq_true hpid, rfl⟩
      rw [forgetPublished, heq, List.eraseP_append_right _ (fun b hb => by simpa using hbefore b hb),
        List.eraseP_cons, hpid]
      exact List.perm_middle
  | none =>
      have hnot : entry.pid ∉ slot.pids := by
        intro hm
        obtain ⟨known, hk, heq⟩ := List.mem_map.mp hm
        exact List.find?_eq_none.mp hf known hk (by simpa using heq)
      by_cases hlen : slot.published.length ≥ maxTrackedPids
      · exact .inr (.inl ⟨hnot, hlen, by simp [hlen]⟩)
      · exact .inr (.inr ⟨hnot, by omega, by simp [hlen]⟩)

theorem push_forget (entry : PublishedSlot) (h : entry.pid ∉ slot.pids) :
    (slot.push entry).forgetPublished entry.pid = slot := by
  have hnone : ∀ known ∈ slot.published, ¬decide (known.pid = entry.pid) = true := by
    intro known hk heq
    exact h (List.mem_map.mpr ⟨known, hk, of_decide_eq_true heq⟩)
  rw [forgetPublished, push, List.eraseP_append_right _ hnone, List.eraseP_cons]
  simp

/-- A publish that is refused or shed leaves the records it found. -/
theorem tracked_undelivered (hd : slot.pids.Nodup) (h : event.activity.isNone = false) {accepts : Bool}
    (hoff : (slot.tracked event accepts).2 = false) :
    (slot.tracked event accepts).1.published.Perm slot.published := by
  rcases notePublished_cases (slot.record event) slot with
    ⟨old, hperm, hold, hn⟩ | ⟨-, -, hn⟩ | ⟨hnew, -, hn⟩
  · rw [tracked_admitted h hn] at hoff ⊢
    cases accepts with
    | true => cases hoff
    | false =>
        have hgone : event.pid ∉ (slot.forgetPublished event.pid).pids := by
          rw [forgetPublished_pids]
          exact hd.not_mem_erase
        have hback :
            ((slot.forgetPublished event.pid).push (slot.record event)).rollbackPublish event.pid (some old) =
              (slot.forgetPublished event.pid).push old := congrArg (push old) (push_forget (slot.record event) hgone)
        exact hback ▸ (List.perm_append_singleton ..).trans hperm.symm
  · rw [tracked_refused h hn]
  · rw [tracked_admitted h hn] at hoff ⊢
    cases accepts with
    | true => cases hoff
    | false => exact .of_eq (congrArg published (push_forget (slot.record event) hnew))

theorem tracked_shed (h : event.activity.isNone = false) : (slot.tracked event false).2 = false := by
  rcases notePublished_cases (slot.record event) slot with ⟨_, -, -, hn⟩ | ⟨-, -, hn⟩ | ⟨-, -, hn⟩
  · rw [tracked_admitted h hn, if_neg (by simp)]
  · rw [tracked_refused h hn]
  · rw [tracked_admitted h hn, if_neg (by simp)]

theorem pids_push (entry : PublishedSlot) (slot : ClientSlot) :
    (slot.push entry).pids = slot.pids ++ [entry.pid] := by
  rw [pids, push, List.map_append]
  rfl

theorem nodup_push (hd : slot.pids.Nodup) (h : entry.pid ∉ slot.pids) : (slot.push entry).pids.Nodup := by
  rw [pids_push, List.nodup_append]
  refine ⟨hd, List.nodup_singleton _, fun a ha b hb => ?_⟩
  rw [List.mem_singleton.mp hb]
  exact fun heq => h (heq ▸ ha)

theorem tracked_publish (hd : slot.pids.Nodup) (hlen : slot.published.length ≤ maxTrackedPids)
    (h : event.activity.isNone = false) (hon : (slot.tracked event true).2 = true) :
    (slot.tracked event true).1.pids.Nodup ∧ (slot.tracked event true).1.published.length ≤ maxTrackedPids ∧
      ∀ p, p ∈ (slot.tracked event true).1.pids ↔ p = event.pid ∨ p ∈ slot.pids := by
  rcases notePublished_cases (slot.record event) slot with
    ⟨old, hperm, hold, hn⟩ | ⟨-, -, hn⟩ | ⟨hnew, hroom, hn⟩
  · rw [tracked_admitted h hn, if_pos rfl]
    have hgone : event.pid ∉ (slot.forgetPublished event.pid).pids := by
      rw [forgetPublished_pids]
      exact hd.not_mem_erase
    have hrest : (slot.forgetPublished event.pid).pids.Nodup := by
      rw [forgetPublished_pids]
      exact hd.erase _
    refine ⟨nodup_push hrest hgone, ?_, fun p => ?_⟩
    · have hcount := hperm.length_eq
      rw [List.length_cons] at hcount
      rw [push, List.length_append, List.length_singleton]
      omega
    · rw [pids_push, forgetPublished_pids, List.mem_append, List.mem_singleton, hd.mem_erase_iff]
      by_cases hp : p = event.pid <;> simp [hp, record]
  · rw [tracked_refused h hn] at hon
    cases hon
  · rw [tracked_admitted h hn, if_pos rfl]
    refine ⟨nodup_push hd hnew, ?_, fun p => ?_⟩
    · rw [push, List.length_append, List.length_singleton]
      omega
    · rw [pids_push, List.mem_append, List.mem_singleton, or_comm]
      rfl

end ClientSlot

/-- What comes of a command that is offered to the sink. -/
inductive Fate
  | accepted
  | staged
  | shed
  deriving DecidableEq, Repr

/-- The answer the pump gets: a staged command counts as delivered. -/
def Fate.delivered : Fate → Bool
  | accepted | staged => true
  | shed => false

/-- A message with what the sink does with its command if it is offered one, or a
staged command that leaves the queue: flushed into the sink, or shed. -/
inductive Publishing
  | message (event : ActivityCmd) (fate : Fate)
  | settled (i : Nat) (accepted : Bool)

/-- One connection: its slot, its commands that are staged, and those whose fate is
decided, in the order in which the sink accepted or shed them. -/
structure Publications where
  slot : ClientSlot := {}
  staged : List ActivityCmd := []
  log : List (ActivityCmd × Bool) := []

namespace Publications

def step (s : Publications) : Publishing → Publications
  | .message event fate =>
      let (slot, delivered) := s.slot.tracked event fate.delivered
      if delivered && fate == .staged then { s with slot, staged := s.staged ++ [event] }
      else { s with slot, log := s.log ++ [(event, delivered)] }
  | .settled i accepted =>
      match s.staged[i]? with
      | some cmd => { s with staged := s.staged.eraseIdx i, log := s.log ++ [(cmd, accepted)] }
      | none => s

structure Complete (s : Publications) : Prop where
  distinct : s.slot.pids.Nodup
  bounded : s.slot.published.length ≤ maxTrackedPids
  shed : ∀ event : ActivityCmd, event.activity.isNone = false →
    (s.slot.tracked event false).1.published.Perm s.slot.published
  listed : ∀ pid ∈ heldBy s.log, pid ∈ s.slot.pids
  cleared : ∀ pid ∈ heldBy s.log, ∃ cmd ∈ s.slot.clears, cmd.pid = pid ∧ cmd.args.isSome ∧ cmd.activity = none

/-- A message without an activity that is not shed makes the list forget its pid. It
must be a clear (with arguments) that the sink has accepted, or its pid must not hold
a publish. A staged publish must find its pid still in the list when it is accepted. -/
def Kept (s : Publications) : Publishing → Prop
  | .message event fate =>
      event.activity = none → fate ≠ .shed → ¬(event.args.isSome = true ∧ fate = .accepted) →
        event.pid ∉ heldBy s.log
  | .settled i accepted =>
      ∀ cmd, s.staged[i]? = some cmd → cmd.activity.isSome = true → accepted = true → cmd.pid ∈ s.slot.pids

structure Listed (s : Publications) : Prop where
  distinct : s.slot.pids.Nodup
  bounded : s.slot.published.length ≤ maxTrackedPids
  listed : ∀ pid ∈ heldBy s.log, pid ∈ s.slot.pids

variable {s : Publications} {e : Publishing}

theorem Listed.complete (h : s.Listed) : s.Complete where
  distinct := h.distinct
  bounded := h.bounded
  shed _ hs := ClientSlot.tracked_undelivered h.distinct hs (ClientSlot.tracked_shed hs)
  listed := h.listed
  cleared pid hp := by
    obtain ⟨known, hk, rfl⟩ := List.mem_map.mp (h.listed pid hp)
    exact ⟨clearForSlot known, List.mem_map_of_mem hk, rfl, rfl, rfl⟩

theorem Complete.toListed (h : s.Complete) : s.Listed := ⟨h.distinct, h.bounded, h.listed⟩

/-- A message without an activity: only an accepted clear takes its pid from those that
hold a publish, and every one that is not shed takes it from the list. -/
theorem step_noActivity {event : ActivityCmd} (hnone : event.activity = none) {fate : Fate} (hf : fate ≠ .shed) :
    (s.step (.message event fate)).slot = s.slot.forgetPublished event.pid ∧
      heldBy (s.step (.message event fate)).log =
        if event.args.isSome = true ∧ fate = .accepted then (heldBy s.log).erase event.pid else heldBy s.log := by
  have hclear : event.activity.isNone = true := by simp [hnone]
  have htracked (accepts : Bool) := ClientSlot.tracked_clear hclear accepts s.slot
  cases fate with
  | shed => exact absurd rfl hf
  | staged => simp [step, htracked, Fate.delivered]
  | accepted =>
      cases hargs : event.args with
      | some args => simp [step, htracked, Fate.delivered, holdAfter_clear hnone (by simp [hargs])]
      | none => simp [step, htracked, Fate.delivered, holdAfter_noArgs hargs]

theorem Listed.noActivity_iff (h : s.Listed) {event : ActivityCmd} (hnone : event.activity = none) {fate : Fate}
    (hf : fate ≠ .shed) :
    (s.step (.message event fate)).Listed ↔
      (¬(event.args.isSome = true ∧ fate = .accepted) → event.pid ∉ heldBy s.log) := by
  obtain ⟨hslot, hheld⟩ := step_noActivity (s := s) hnone hf
  have hpids : (s.step (.message event fate)).slot.pids = s.slot.pids.erase event.pid := by
    rw [hslot, ClientSlot.forgetPublished_pids]
  constructor
  · intro hafter hstray hpid
    have hlisted := hafter.listed event.pid (by rwa [hheld, if_neg hstray])
    rw [hpids, h.distinct.mem_erase_iff] at hlisted
    exact hlisted.1 rfl
  · intro hkept
    refine ⟨hpids ▸ h.distinct.erase _, ?_, fun pid hp => ?_⟩
    · rw [hslot]
      exact Nat.le_trans List.length_eraseP_le h.bounded
    · rw [hpids, h.distinct.mem_erase_iff]
      rw [hheld] at hp
      split at hp
      next =>
        obtain ⟨hne, hp⟩ := Finset.mem_erase.mp hp
        exact ⟨hne, h.listed pid hp⟩
      next hstray =>
        refine ⟨?_, h.listed pid hp⟩
        rintro rfl
        exact hkept hstray hp

theorem Listed.unchanged (h : s.Listed) {slot : ClientSlot} (hp : slot.published.Perm s.slot.published)
    (event : ActivityCmd) {staged : List ActivityCmd} : Listed ⟨slot, staged, s.log ++ [(event, false)]⟩ where
  distinct := (hp.map _).nodup_iff.mpr h.distinct
  bounded := hp.length_eq ▸ h.bounded
  listed pid hh := by
    rw [heldBy_concat] at hh
    exact (hp.map _).mem_iff.mpr (h.listed pid hh)

theorem Listed.publish (h : s.Listed) {event : ActivityCmd} (hsome : event.activity.isNone = false) (fate : Fate) :
    (s.step (.message event fate)).Listed := by
  rw [step]
  cases hon : (s.slot.tracked event fate.delivered).2 with
  | false =>
      simp only [hon, Bool.false_and, Bool.false_eq_true, if_false]
      exact h.unchanged (ClientSlot.tracked_undelivered h.distinct hsome hon) event
  | true =>
      have haccepts : fate.delivered = true := by
        cases hf : fate.delivered with
        | true => rfl
        | false => rw [hf, ClientSlot.tracked_shed hsome] at hon; cases hon
      rw [haccepts] at hon ⊢
      obtain ⟨hd, hb, he⟩ := ClientSlot.tracked_publish h.distinct h.bounded hsome hon
      simp only [hon, Bool.true_and]
      split
      next => exact ⟨hd, hb, fun p hp => (he p).mpr (.inr (h.listed p hp))⟩
      next =>
        refine ⟨hd, hb, fun p hp => (he p).mpr ?_⟩
        rw [heldBy_concat, holdAfter_publish (by simpa using hsome), Finset.mem_insert] at hp
        exact hp.imp_right (h.listed p)

theorem Listed.settled_iff (h : s.Listed) (i : Nat) (accepted : Bool) :
    (s.step (.settled i accepted)).Listed ↔ s.Kept (.settled i accepted) := by
  rw [step, Kept]
  cases hi : s.staged[i]? with
  | none => simpa using h
  | some cmd =>
      simp only [Option.some.injEq, forall_eq']
      cases accepted with
      | false => exact iff_of_true (h.unchanged (.refl _) cmd) (by simp)
      | true =>
          constructor
          · intro hafter hsome _
            refine hafter.listed cmd.pid ?_
            rw [heldBy_concat, holdAfter_publish hsome]
            exact Finset.mem_insert_self _ _
          · intro hkept
            refine ⟨h.distinct, h.bounded, fun pid hp => ?_⟩
            rw [heldBy_concat, holdAfter] at hp
            split at hp
            next hsome =>
              rcases Finset.mem_insert.mp hp with rfl | hp
              · exact hkept hsome rfl
              · exact h.listed pid hp
            next =>
              split at hp
              next => exact h.listed pid (Finset.mem_of_mem_erase hp)
              next => exact h.listed pid hp

theorem Listed.step_iff (h : s.Listed) : (s.step e).Listed ↔ s.Kept e := by
  cases e with
  | settled i accepted => exact h.settled_iff i accepted
  | message event fate =>
      cases hact : event.activity with
      | some activity =>
          exact iff_of_true (h.publish (by simp [hact]) fate) fun hnone => by simp [hact] at hnone
      | none =>
          by_cases hf : fate = .shed
          · subst hf
            refine iff_of_true ?_ fun _ hf => absurd rfl hf
            have hclear : event.activity.isNone = true := by simp [hact]
            have htracked := ClientSlot.tracked_clear hclear false s.slot
            simpa [step, htracked, Fate.delivered] using h.unchanged (.refl _) event
          · rw [h.noActivity_iff hact hf]
            exact ⟨fun hk _ _ => hk, fun hk => hk hact hf⟩

theorem step_accepted (s : Publications) (event : ActivityCmd) :
    s.step (.message event .accepted) =
      { s with
        slot := (s.slot.tracked event true).1
        log := s.log ++ [(event, (s.slot.tracked event true).2)] } := by
  simp [step, Fate.delivered]

theorem Listed.held (h : s.Listed) (hheld : ∀ pid ∈ s.slot.pids, pid ∈ heldBy s.log) {event : ActivityCmd}
    (hargs : event.args.isSome = true) :
    ∀ pid ∈ (s.step (.message event .accepted)).slot.pids, pid ∈ heldBy (s.step (.message event .accepted)).log := by
  cases hact : event.activity with
  | none =>
      have hf : Fate.accepted ≠ .shed := by simp
      obtain ⟨hslot, hlog⟩ := step_noActivity (s := s) hact hf
      intro pid hp
      rw [hslot, ClientSlot.forgetPublished_pids, h.distinct.mem_erase_iff] at hp
      rw [hlog, if_pos ⟨hargs, rfl⟩, Finset.mem_erase]
      exact ⟨hp.1, hheld pid hp.2⟩
  | some activity =>
      have hsome : event.activity.isNone = false := by simp [hact]
      intro pid hp
      rw [step_accepted] at hp ⊢
      cases hon : (s.slot.tracked event true).2 with
      | false =>
          rw [heldBy_concat]
          exact hheld pid (((ClientSlot.tracked_undelivered h.distinct hsome hon).map _).mem_iff.mp hp)
      | true =>
          rw [heldBy_concat, holdAfter_publish (by simp [hact]), Finset.mem_insert]
          exact (((ClientSlot.tracked_publish h.distinct h.bounded hsome hon).2.2 pid).mp hp).imp_right (hheld pid)

def start (queryClientId : Option AppId) : Publications := { slot := { queryClientId } }

theorem start_listed (queryClientId : Option AppId) : (start queryClientId).Listed :=
  ⟨List.nodup_nil, Nat.zero_le _, fun _ => by simp [start, heldBy]⟩

theorem listed_of_along {queryClientId : Option AppId} {events : List Publishing}
    (h : Along step Kept (start queryClientId) events) : (events.foldl step (start queryClientId)).Listed :=
  h.invariant Listed (fun _ _ hs hk => hs.step_iff.mpr hk) (start_listed queryClientId)

/-- The run ends with a pid that holds a publish and that nothing would clear. -/
def Forgets (events : List Publishing) (pid : Nat) : Prop :=
  let s := events.foldl step (start none)
  pid ∈ heldBy s.log ∧ s.slot.clears = [] ∧ ¬s.Complete

end Publications

end RichPresence.Ws
