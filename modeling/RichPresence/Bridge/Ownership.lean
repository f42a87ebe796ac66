import RichPresence.Bridge.Published

namespace RichPresence

open Lib

def ClaimsSlot (app : AppId) (pid : Nat) (cmd : ActivityCmd) : Prop :=
  cmd.activity.isSome ∧ cmd.applicationId = some app ∧ cmd.pid = pid

def FreesSlot (app : AppId) (pid : Nat) (cmd : ActivityCmd) : Prop :=
  cmd.activity = none ∧ cmd.pid = pid ∧ Releases cmd app

instance (app : AppId) (pid : Nat) (cmd : ActivityCmd) : Decidable (ClaimsSlot app pid cmd) :=
  inferInstanceAs (Decidable (_ ∧ _ ∧ _))

instance (app : AppId) (pid : Nat) (cmd : ActivityCmd) : Decidable (FreesSlot app pid cmd) :=
  decidable_of_iff (cmd.activity.isNone ∧ cmd.pid = pid ∧ Releases cmd app) (by rw [Option.isNone_iff_eq_none]; rfl)

/-- The slot was published in some commands and not freed since. -/
def holds (app : AppId) (pid : Nat) (sent : List ActivityCmd) : Bool :=
  sent.foldl (fun held cmd => if ClaimsSlot app pid cmd then true else if FreesSlot app pid cmd then false else held)
    false

section Commands

variable {app : AppId} {pid : Nat} {sent rest : List ActivityCmd} {cmd : ActivityCmd}

@[simp] theorem holds_concat : holds app pid (sent ++ [cmd]) =
    if ClaimsSlot app pid cmd then true else if FreesSlot app pid cmd then false else holds app pid sent := by
  rw [holds, List.foldl_append]
  rfl

theorem not_claims_of_clear (h : cmd.activity = none) : ¬ClaimsSlot app pid cmd := by
  rintro ⟨ha, -⟩
  rw [h] at ha
  cases ha

theorem exists_claim (h : holds app pid sent = true) : ∃ cmd ∈ sent, ClaimsSlot app pid cmd := by
  induction sent using List.reverseRecOn with
  | nil => cases h
  | append_singleton sent cmd ih =>
      rw [holds_concat] at h
      split at h
      next hc => exact ⟨cmd, by simp, hc⟩
      next =>
          split at h
          next => cases h
          next =>
              obtain ⟨c, hm, hc⟩ := ih h
              exact ⟨c, List.mem_append_left _ hm, hc⟩

theorem holds_append_clears (hclear : ∀ cmd ∈ rest, cmd.activity = none)
    (h : holds app pid (sent ++ rest) = true) :
    holds app pid sent = true ∧ ∀ cmd ∈ rest, ¬FreesSlot app pid cmd := by
  induction rest using List.reverseRecOn with
  | nil => exact ⟨by rwa [List.append_nil] at h, fun _ hm => by cases hm⟩
  | append_singleton rest cmd ih =>
      rw [← List.append_assoc, holds_concat, if_neg (not_claims_of_clear (hclear cmd (by simp)))] at h
      split at h
      next => cases h
      next hfree =>
          obtain ⟨hheld, hrest⟩ := ih (fun c hc => hclear c (by simp [hc])) h
          refine ⟨hheld, fun c hc => ?_⟩
          rcases List.mem_append.mp hc with hc | hc
          · exact hrest c hc
          · rwa [List.mem_singleton.mp hc]

end Commands

def Event.Claims (app : AppId) (pid : Nat) (e : Event) : Prop :=
  ∃ cmd, e.input = .setActivity cmd ∧ ClaimsSlot app pid cmd

def Event.Frees (app : AppId) (pid : Nat) (e : Event) : Prop :=
  ∃ cmd, e.input = .setActivity cmd ∧ FreesSlot app pid cmd

variable {C : Codec} {env : Env} {s : Shared} {app : AppId} {owner : Nat}

theorem handleSetActivity_ownedBy {cmd : ActivityCmd} (howner : owner ≠ 0)
    (h : ((handleSetActivity C env cmd).exec s).handoff.liveIpc.lookup app = some owner) :
    ClaimsSlot app owner cmd ∨ (s.handoff.liveIpc.lookup app = some owner ∧ ¬FreesSlot app owner cmd) := by
  cases ha : cmd.activity with
  | some a =>
      have hsome : cmd.activity.isSome := by rw [ha]; rfl
      have hkept : ¬FreesSlot app owner cmd := fun hf => by cases ha.symm.trans hf.1
      cases hd : dropped C env cmd s with
      | true =>
          rw [handleSetActivity_dropped hd] at h
          exact .inr ⟨h, hkept⟩
      | false =>
          rw [handleSetActivity_publish hsome hd, announce_handoff] at h
          rcases claimed_owner h with ⟨happ, rfl⟩ | h
          · exact .inl ⟨hsome, happ, rfl⟩
          · exact .inr ⟨h, hkept⟩
  | none =>
      refine .inr ?_
      by_cases hargs : cmd.args = none
      · rw [handleSetActivity_noArgs hargs] at h
        refine ⟨h, fun hf => howner ?_⟩
        rw [← hf.2.1, ActivityCmd.pid, hargs]
        rfl
      · rw [handleSetActivity_clear ha (Option.isSome_iff_ne_none.mpr hargs), announce_handoff] at h
        cases hg : isGenuineClear cmd with
        | true =>
            rw [resumed_handoff hg] at h
            obtain ⟨ho, hnot⟩ := released_owner h
            exact ⟨ho, fun hf => hnot ⟨hf.2.2, hf.2.1.symm⟩⟩
        | false =>
            rw [resumeAfterClear_publish hg] at h
            refine ⟨h, fun hf => ?_⟩
            have hgenuine := isGenuineClear_iff.mpr ⟨hf.2.1 ▸ howner, ha⟩
            rw [hg] at hgenuine
            cases hgenuine

theorem step_ownedBy {e : Event} (howner : owner ≠ 0) (h : (step C s e).handoff.liveIpc.lookup app = some owner) :
    e.Claims app owner ∨ (s.handoff.liveIpc.lookup app = some owner ∧ ¬e.Frees app owner) := by
  obtain ⟨env, input⟩ := e
  cases input with
  | setActivity cmd =>
      rcases handleSetActivity_ownedBy howner h with hc | ⟨ho, hf⟩
      · exact .inl ⟨cmd, rfl, hc⟩
      · refine .inr ⟨ho, ?_⟩
        rintro ⟨c, hc, hfree⟩
        obtain rfl := Input.setActivity.inj hc
        exact hf hfree
  | proc input =>
      have howners : (step C s ⟨env, .proc input⟩).owners = s.owners := procPump_owners input
      have hsame : (step C s ⟨env, .proc input⟩).handoff.liveIpc.lookup app = s.handoff.liveIpc.lookup app :=
        congrFun howners app
      rw [hsame] at h
      refine .inr ⟨h, ?_⟩
      rintro ⟨c, hc, -⟩
      cases hc

/-- An input of the bridge, and whether it comes from the connection in question. -/
structure Sourced : Type 1 where
  own : Bool
  event : Event

def Sourced.command (f : Sourced) : Option ActivityCmd :=
  match f.own, f.event.input with
  | true, .setActivity cmd => some cmd
  | _, _ => none

def heard (es : List Sourced) : List ActivityCmd := es.filterMap Sourced.command

def bridged (C : Codec) (s : Shared) (es : List Sourced) : Shared := runFrom C s (es.map (·.event))

/-- The connection publishes the slot, and nobody else publishes for the application
afterwards. -/
def LastToClaim (app : AppId) (pid : Nat) (es : List Sourced) : Prop :=
  ∃ before f after, es = before ++ f :: after ∧ (∃ cmd ∈ f.command, ClaimsSlot app pid cmd) ∧
    ∀ g ∈ after, g.own = false → ∀ q, ¬g.event.Claims app q

/-- Whatever else the bridge handles meanwhile, no slot is left with the connection. -/
def OwnsNothing (C : Codec) (sent : List ActivityCmd) : Prop :=
  ∀ s es, heard es = sent → ∀ app pid, pid ≠ 0 → LastToClaim app pid es →
    (bridged C s es).handoff.liveIpc.lookup app ≠ some pid

theorem heard_concat (es : List Sourced) (f : Sourced) : heard (es ++ [f]) = heard es ++ f.command.toList := by
  rw [heard, List.filterMap_append]
  cases h : f.command <;> simp [heard, h]

theorem bridged_concat (s : Shared) (es : List Sourced) (f : Sourced) :
    bridged C s (es ++ [f]) = step C (bridged C s es) f.event := by
  simp [bridged, runFrom]

theorem command_eq_some {f : Sourced} {cmd : ActivityCmd} :
    f.command = some cmd ↔ f.own = true ∧ f.event.input = .setActivity cmd := by
  rw [Sourced.command]
  cases f.own <;> cases f.event.input <;> simp

theorem owned_of_lastToClaim {before after : List Sourced} {f : Sourced} (howner : owner ≠ 0)
    (hclaim : ∃ cmd ∈ f.command, ClaimsSlot app owner cmd)
    (hlast : ∀ g ∈ after, g.own = false → ∀ q, ¬g.event.Claims app q)
    (h : (bridged C s (before ++ f :: after)).handoff.liveIpc.lookup app = some owner) :
    holds app owner (heard (before ++ f :: after)) = true := by
  induction after using List.reverseRecOn with
  | nil =>
      obtain ⟨cmd, hcmd, hclaim⟩ := hclaim
      rw [heard_concat, Option.mem_def.mp hcmd, Option.toList_some, holds_concat, if_pos hclaim]
  | append_singleton after g ih =>
      rw [← List.cons_append, ← List.append_assoc] at h ⊢
      rw [bridged_concat] at h
      rw [heard_concat]
      have hbefore := ih fun g' hg' => hlast g' (by simp [hg'])
      rcases step_ownedBy howner h with hc | ⟨ho, hfree⟩
      · cases hown : g.own with
        | false => exact absurd hc (hlast g (by simp) hown owner)
        | true =>
            obtain ⟨cmd, hinput, hc⟩ := hc
            rw [command_eq_some.mpr ⟨hown, hinput⟩, Option.toList_some, holds_concat, if_pos hc]
      · cases hcmd : g.command with
        | none =>
            rw [Option.toList_none, List.append_nil]
            exact hbefore ho
        | some cmd =>
            have hkept : ¬FreesSlot app owner cmd := fun hf => hfree ⟨cmd, (command_eq_some.mp hcmd).2, hf⟩
            rw [Option.toList_some, holds_concat, if_neg hkept]
            split
            next => rfl
            next => exact hbefore ho

theorem ownsNothing_of_freed {sent : List ActivityCmd}
    (h : ∀ app pid, pid ≠ 0 → holds app pid sent = false) : OwnsNothing C sent := by
  rintro s es rfl app pid hpid ⟨before, f, after, rfl, hclaim, hlast⟩ howned
  have hheld := owned_of_lastToClaim hpid hclaim hlast howned
  rw [h app pid hpid] at hheld
  cases hheld

theorem OwnsNothing.alone {sent : List ActivityCmd} (h : OwnsNothing C sent) {cmd : ActivityCmd} (hm : cmd ∈ sent)
    {pid : Nat} (hclaim : ClaimsSlot app pid cmd) (hpid : pid ≠ 0) (s : Shared) (env : Env) :
    (runFrom C s (sent.map fun cmd => ⟨env, .setActivity cmd⟩)).handoff.liveIpc.lookup app ≠ some pid := by
  let own (cmd : ActivityCmd) : Sourced := ⟨true, ⟨env, .setActivity cmd⟩⟩
  have hheard : heard (sent.map own) = sent := by
    rw [heard, List.filterMap_map]
    exact List.filterMap_some
  obtain ⟨before, after, rfl⟩ := List.append_of_mem hm
  have hlast : LastToClaim app pid ((before ++ cmd :: after).map own) := by
    refine ⟨before.map own, own cmd, after.map own, by simp, ⟨cmd, rfl, hclaim⟩, fun g hg hown => ?_⟩
    obtain ⟨c, -, rfl⟩ := List.mem_map.mp hg
    cases hown
  have hfree := h s _ hheard app pid hpid hlast
  rw [bridged, List.map_map] at hfree
  exact hfree

end RichPresence
