import RichPresence.Telemetry.Gauge

namespace RichPresence.Telemetry

open Lib

namespace GaugeStep

variable {α : Type}

/-- If the step starts a call, it is a `send_checked` with the cap. -/
def Checked (cap : UInt64) : GaugeStep α → Prop
  | send _ => False
  | sendChecked _ other => other = cap
  | _ => True

end GaugeStep

namespace Gauge

variable {α : Type} {g : Gauge α} {cap : UInt64}

/-- A call that keeps to the cap: what it loaded is below it. -/
def Within (cap : UInt64) : Sending α → Prop
  | .adding _ => False
  | .loading _ other => other = cap
  | .swapping _ other depth => other = cap ∧ depth < cap
  | _ => True

theorem within_perform {call : Sending α} (spurious : Bool) (h : Within cap call) :
    Within cap (g.perform spurious call).1 := by
  cases call with
  | adding => exact h.elim
  | loading value other =>
      rw [perform]
      dsimp only
      split
      next => trivial
      next hroom => exact ⟨h, h ▸ UInt64.not_le.mp hroom⟩
  | swapping value other depth =>
      rw [perform]
      split
      next => trivial
      next => exact h.1
  | pushing value checked =>
      rw [perform]
      split <;> trivial
  | probing =>
      rw [perform]
      dsimp only
      split <;> trivial
  | rollingBack | shedding | returned => trivial

theorem forall_calls_step {P : Nat → Sending α → Prop} {e : GaugeStep α}
    (h : ∀ i call, g.calls[i]? = some call → P i call)
    (hperform : ∀ i call spurious, P i call → P i (g.perform spurious call).1)
    (hsend : ∀ value, e = .send value → P g.calls.length (.adding value))
    (hchecked : ∀ value cap, e = .sendChecked value cap → P g.calls.length (.loading value cap)) :
    ∀ i call, (g.step e).calls[i]? = some call → P i call := by
  have happend {new : Sending α} (hnew : P g.calls.length new) :
      ∀ i call, (g.calls ++ [new])[i]? = some call → P i call := by
    intro i call hcall
    rw [List.getElem?_append] at hcall
    split at hcall
    · exact h i call hcall
    · obtain ⟨hi, rfl⟩ := List.getElem?_eq_some_iff.mp hcall
      obtain rfl : i = g.calls.length := by
        rw [List.length_singleton] at hi
        omega
      rwa [List.getElem_singleton]
  cases e with
  | send value => exact happend (hsend value rfl)
  | sendChecked value cap => exact happend (hchecked value cap rfl)
  | advance i spurious =>
      rw [step]
      split
      next call hcall =>
        intro j c hc
        dsimp only at hc
        rw [List.getElem?_set] at hc
        split at hc
        next hij =>
          subst hij
          split at hc
          · exact Option.some.inj hc ▸ hperform i call spurious (h i call hcall)
          · cases hc
        next => exact h j c hc
      next => exact h
  | pop =>
      rw [step]
      split <;> exact h
  | release | clearLive | disconnect =>
      rw [step]
      split <;> exact h

structure Capped (cap : UInt64) (g : Gauge α) : Prop where
  depth : g.Exact
  total : g.total ≤ cap.toNat
  calls : ∀ (i : Nat) call, g.calls[i]? = some call → Within cap call

theorem Capped.step (g : Gauge α) (e : GaugeStep α) (h : g.Capped cap) (he : e.Checked cap) :
    (g.step e).Capped cap where
  depth := h.depth.step g e
  total := by
    have hcap := h.total
    cases balanced_step g e with
    | kept _ htotal => omega
    | lowered _ htotal => omega
    | raised hraises _ htotal =>
        cases e with
        | advance i spurious =>
            obtain ⟨value, hcall | ⟨other, hcall⟩⟩ := hraises
            · exact (h.calls i _ hcall).elim
            · -- the compare-exchange found a depth below the cap
              have hroom := UInt64.lt_iff_toNat_lt.mp (h.calls i _ hcall).2
              have hdepth := depth_eq_total h.depth (Nat.lt_of_le_of_lt hcap cap.toNat_lt)
              omega
        | send | sendChecked | pop | release | clearLive | disconnect => exact hraises.elim
  calls := by
    refine forall_calls_step h.calls (fun _ call spurious hcall => within_perform spurious hcall) ?_ ?_
    · rintro value rfl
      exact he
    · rintro value other rfl
      exact he

theorem capped_run {steps : List (GaugeStep α)} (h : ∀ e ∈ steps, e.Checked cap) : (run steps).Capped cap :=
  (Along.of_forall h).invariant (Capped cap) Capped.step ⟨rfl, Nat.zero_le _, nofun⟩

section Closed

/-- The drop of the receiver clears the flag before anything else, and no message is
lost before its end. -/
structure Ends (g : Gauge α) : Prop where
  flag : g.receiver = .dropping ∨ g.receiver = .gone → g.live = false
  lost : g.receiver ≠ .gone → g.lost = 0

theorem perform_ends (g : Gauge α) (spurious : Bool) (call : Sending α) :
    (g.perform spurious call).2.receiver = g.receiver ∧ (g.perform spurious call).2.live = g.live ∧
      (g.perform spurious call).2.lost = g.lost := by
  cases call with
  | swapping | pushing =>
      rw [perform]
      split <;> exact ⟨rfl, rfl, rfl⟩
  | adding | loading | rollingBack | probing | shedding | returned => exact ⟨rfl, rfl, rfl⟩

theorem Ends.of_alive {g' : Gauge α} (hreceiver : g'.receiver = .idle ∨ g'.receiver = .popped)
    (hlost : g'.lost = 0) : g'.Ends where
  flag hends := by
    rcases hreceiver with hr | hr <;> rw [hr] at hends <;> rcases hends with hends | hends <;> cases hends
  lost _ := hlost

theorem Ends.step (g : Gauge α) (e : GaugeStep α) (h : g.Ends) : (g.step e).Ends := by
  cases e with
  | send | sendChecked => exact ⟨h.flag, h.lost⟩
  | advance i spurious =>
      rw [Gauge.step]
      split
      next call _ =>
        obtain ⟨hreceiver, hlive, hlost⟩ := perform_ends g spurious call
        refine ⟨?_, ?_⟩
        · dsimp only
          rw [hreceiver, hlive]
          exact h.flag
        · dsimp only
          rw [hreceiver, hlost]
          exact h.lost
      next => exact h
  | pop =>
      rw [Gauge.step]
      split
      next hidle _ => exact .of_alive (.inr rfl) (h.lost (by rw [hidle]; decide))
      next => exact h
  | release =>
      rw [Gauge.step]
      split
      next hpopped => exact .of_alive (.inl rfl) (h.lost (by rw [hpopped]; decide))
      next => exact h
  | clearLive =>
      rw [Gauge.step]
      split
      next hidle => exact ⟨fun _ => rfl, fun _ => h.lost (by rw [hidle]; decide)⟩
      next => exact h
  | disconnect =>
      rw [Gauge.step]
      split
      next hdropping => exact ⟨fun _ => h.flag (.inl hdropping), fun hne => absurd rfl hne⟩
      next => exact h

theorem ends_run (steps : List (GaugeStep α)) : (run steps).Ends :=
  Along.invariant (P := fun _ _ => True) Ends (fun g e h _ => h.step g e) (.of_alive (.inl rfl) rfl)
    (Along.of_forall fun _ _ => trivial)

theorem gone_step {e : GaugeStep α} (h : g.receiver = .gone) :
    (g.step e).receiver = .gone ∧ (g.step e).live = g.live := by
  cases e with
  | send | sendChecked => exact ⟨h, rfl⟩
  | advance i spurious =>
      rw [step]
      split
      next call _ =>
        obtain ⟨hreceiver, hlive, _⟩ := perform_ends g spurious call
        exact ⟨hreceiver.trans h, hlive⟩
      next => exact ⟨h, rfl⟩
  | pop =>
      rw [step]
      split
      next hidle _ => cases h.symm.trans hidle
      next => exact ⟨h, rfl⟩
  | release | clearLive | disconnect =>
      rw [step, h]
      exact ⟨h, rfl⟩

def Doomed : Sending α → Prop
  | .shedding => False
  | .returned _ result => result = .closed
  | _ => True

theorem doomed_perform {call : Sending α} (spurious : Bool) (hgone : g.receiver = .gone) (hlive : g.live = false)
    (h : Doomed call) : Doomed (g.perform spurious call).1 := by
  cases call with
  | adding | rollingBack => trivial
  | loading =>
      rw [perform]
      dsimp only
      split <;> trivial
  | swapping =>
      rw [perform]
      split <;> trivial
  | pushing =>
      rw [perform, if_pos hgone]
      trivial
  | probing =>
      rw [perform, hlive]
      rfl
  | shedding => exact h.elim
  | returned => exact h

/-- The receiver is gone, and the calls from the given one on have come after it. -/
structure Closed (since : Nat) (g : Gauge α) : Prop where
  gone : g.receiver = .gone
  live : g.live = false
  calls : ∀ (i : Nat) call, g.calls[i]? = some call → since ≤ i → Doomed call

theorem Closed.step {since : Nat} (g : Gauge α) (e : GaugeStep α) (h : g.Closed since) :
    (g.step e).Closed since where
  gone := (gone_step h.gone).1
  live := (gone_step h.gone).2.trans h.live
  calls := forall_calls_step (P := fun i call => since ≤ i → Doomed call) h.calls
    (fun _ _ spurious hdoomed hi => doomed_perform spurious h.gone h.live (hdoomed hi)) (fun _ _ _ => trivial)
    (fun _ _ _ _ => trivial)

theorem closed_run {past rest : List (GaugeStep α)} (hgone : (run past).receiver = .gone) :
    (run (past ++ rest)).Closed (run past).calls.length := by
  rw [run_append]
  refine Along.invariant (P := fun _ _ => True) (Closed (run past).calls.length) (fun g e h _ => h.step g e)
    ⟨hgone, (ends_run past).flag (.inr hgone), fun i call hcall hi => ?_⟩ (Along.of_forall fun _ _ => trivial)
  have hlt := (List.getElem?_eq_some_iff.mp hcall).1
  exact absurd hlt (Nat.not_lt.mpr hi)

structure Alone (i : Nat) (g : Gauge α) (call : Sending α) : Prop where
  gone : g.receiver = .gone
  live : g.live = false
  call : g.calls[i]? = some call

theorem Alone.advance {i : Nat} {call : Sending α} (h : g.Alone i call) :
    (g.step (.advance i false)).Alone i (g.perform false call).1 ∧
      (g.step (.advance i false)).depth = (g.perform false call).2.depth := by
  have hi := (List.getElem?_eq_some_iff.mp h.call).1
  refine ⟨⟨(gone_step h.gone).1, (gone_step h.gone).2.trans h.live, ?_⟩, ?_⟩
  · rw [step, h.call]
    dsimp only
    rw [List.getElem?_set_self hi]
  · rw [step, h.call]

theorem Alone.pushing {i : Nat} {value : α} (h : g.Alone i (.pushing value true)) :
    ((g.step (.advance i false)).step (.advance i false)).Alone i (.returned true .closed) := by
  have h' := h.advance.1
  rw [perform, if_pos h.gone] at h'
  exact h'.advance.1

theorem Alone.loading {i : Nat} {value : α} {cap : UInt64} (h : g.Alone i (.loading value cap)) :
    ((List.replicate 4 (.advance i false)).foldl step g).Alone i (.returned true .closed) := by
  simp only [List.replicate, List.foldl_cons, List.foldl_nil]
  obtain ⟨h', hdepth⟩ := h.advance
  rw [perform] at h' hdepth
  dsimp only at h' hdepth
  split at h'
  next =>
    have hprobed := h'.advance.1
    rw [perform, h'.live] at hprobed
    exact hprobed.advance.1.advance.1
  next =>
    have hswapped := h'.advance.1
    rw [perform, if_pos ⟨hdepth, rfl⟩] at hswapped
    exact hswapped.pushing

end Closed

end Gauge

/-- Over every interleaving of any number of calls with the receiver: while it lives,
the depth is the backlog; it never goes below zero, and stays within a cap that every
sender checks; and a `send_checked` that starts after the receiver is gone reports
`closed` and nothing else. -/
theorem gauge_exact {α : Type} (steps : List (GaugeStep α)) :
    let g := Gauge.run steps
    (g.receiver ≠ .gone → g.backlog < 2 ^ 64 → g.depth.toNat = g.backlog) ∧
    (∀ e, g.Subtracts e → g.total < 2 ^ 64 → 0 < g.depth.toNat) ∧
    (∀ cap, (∀ e ∈ steps, e.Checked cap) → g.depth ≤ cap) ∧
    (∀ past rest, steps = past ++ rest → (Gauge.run past).receiver = .gone →
      ∀ i checked result, (Gauge.run past).calls.length ≤ i → g.calls[i]? = some (.returned checked result) →
        result = .closed) ∧
    ∀ i value cap, g.receiver = .gone → g.calls[i]? = some (.loading value cap) →
      (Gauge.run (steps ++ List.replicate 4 (.advance i false))).calls[i]? = some (.returned true .closed) := by
  intro g
  have hexact : g.Exact := Gauge.exact_run steps
  refine ⟨fun hlives hfits => ?_, fun e hsub hfits => ?_, fun cap hchecked => ?_, ?_, ?_⟩
  · have htotal : g.total = g.backlog := by
      rw [Gauge.total, (Gauge.ends_run steps).lost hlives]
      rfl
    rw [← htotal] at hfits ⊢
    exact Gauge.depth_eq_total hexact hfits
  · rw [Gauge.depth_eq_total hexact hfits]
    exact Gauge.total_pos_of_subtracts hsub
  · have hcapped := (Gauge.capped_run hchecked).total
    rw [UInt64.le_iff_toNat_le, Gauge.depth_eq_total hexact (Nat.lt_of_le_of_lt hcapped cap.toNat_lt)]
    exact hcapped
  · rintro past rest rfl hgone i checked result hi hcall
    exact (Gauge.closed_run hgone).calls i _ hcall hi
  · intro i value cap hgone hcall
    rw [Gauge.run_append]
    exact (Gauge.Alone.loading ⟨hgone, (Gauge.ends_run steps).flag (.inr hgone), hcall⟩).call

/-- Two senders with cap one, the second while the first has reserved and again
after the receiver is gone with a message still queued. -/
def racingSenders : List (GaugeStep Nat) :=
  [.sendChecked 1 1, .sendChecked 2 1, .advance 0 false, .advance 1 false, .advance 0 false, .advance 1 false,
    .advance 1 false, .advance 0 false, .advance 1 false, .advance 1 false, .clearLive, .disconnect]

theorem racingSenders_exact :
    (Gauge.run racingSenders).calls = [.returned true .sent, .returned true .shed] ∧
      (Gauge.run racingSenders).depth ≤ 1 ∧
      (Gauge.run (racingSenders ++ [.sendChecked 3 1] ++ List.replicate 4 (.advance 2 false))).calls[2]? =
        some (.returned true .closed) := by
  obtain ⟨_, _, hcap, _, _⟩ := gauge_exact racingSenders
  obtain ⟨_, _, _, _, hclosed⟩ := gauge_exact (racingSenders ++ [.sendChecked 3 1])
  refine ⟨by decide, hcap 1 ?_, hclosed 2 3 1 (by decide) (by decide)⟩
  simp only [racingSenders, List.forall_mem_cons, GaugeStep.Checked, true_and, List.not_mem_nil, false_imp_iff,
    implies_true]

end RichPresence.Telemetry
