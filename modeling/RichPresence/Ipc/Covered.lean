import Mathlib.Data.List.Induction
import RichPresence.Ipc.Frame

namespace RichPresence.Ipc

def ActsFor (pid : Nat) (cmd : ActivityCmd) : Prop :=
  cmd.cmd = "SET_ACTIVITY" ∧ cmd.args.isSome ∧ cmd.pid = pid

instance (pid : Nat) (cmd : ActivityCmd) : Decidable (ActsFor pid cmd) :=
  inferInstanceAs (Decidable (_ ∧ _ ∧ _))

def Publishes (pid : Nat) (cmd : ActivityCmd) : Prop := ActsFor pid cmd ∧ cmd.activity.isSome

instance (pid : Nat) (cmd : ActivityCmd) : Decidable (Publishes pid cmd) :=
  inferInstanceAs (Decidable (_ ∧ _))

/-- The commands hold a null activity for the pid behind the last activity for it. -/
def ClearedAfter (pid : Nat) (sent : List ActivityCmd) : Prop :=
  ∃ before clear rest, sent = before ++ clear :: rest ∧ ActsFor pid clear ∧ clear.activity = none ∧
    ∀ cmd ∈ rest, ¬ Publishes pid cmd

def AllCleared (sent : List ActivityCmd) : Prop :=
  ∀ pid, (∃ cmd ∈ sent, Publishes pid cmd) → ClearedAfter pid sent

/-- The activity a pid is left with behind some commands. -/
def shown (pid : Nat) (sent : List ActivityCmd) : Option Activity :=
  sent.foldl (fun a cmd => if ActsFor pid cmd then cmd.activity else a) none

section Commands

variable {pid : Nat} {sent : List ActivityCmd} {cmd : ActivityCmd}

@[simp] theorem shown_concat :
    shown pid (sent ++ [cmd]) = if ActsFor pid cmd then cmd.activity else shown pid sent := by
  simp [shown]

theorem shown_append_of_clear {rest : List ActivityCmd} (h : shown pid sent = none)
    (hr : ∀ cmd ∈ rest, ¬ Publishes pid cmd) : shown pid (sent ++ rest) = none := by
  induction rest using List.reverseRecOn with
  | nil => rwa [List.append_nil]
  | append_singleton rest cmd ih =>
      rw [← List.append_assoc, shown_concat]
      split
      next ha =>
          by_contra hs
          exact hr cmd (by simp) ⟨ha, Option.isSome_iff_ne_none.mpr hs⟩
      next => exact ih fun c hc => hr c (by simp [hc])

theorem shown_of_cleared (h : (∃ cmd ∈ sent, Publishes pid cmd) → ClearedAfter pid sent) :
    shown pid sent = none := by
  by_cases hp : ∃ cmd ∈ sent, Publishes pid cmd
  · obtain ⟨before, clear, rest, rfl, ha, hn, hr⟩ := h hp
    have hclear : shown pid (before ++ [clear]) = none := by rw [shown_concat, if_pos ha, hn]
    simpa using shown_append_of_clear hclear hr
  · have hnil : shown pid [] = none := rfl
    exact shown_append_of_clear hnil fun cmd hc hpub => hp ⟨cmd, hc, hpub⟩

theorem cleared_of_shown (h : shown pid sent = none) (hp : ∃ cmd ∈ sent, Publishes pid cmd) :
    ClearedAfter pid sent := by
  induction sent using List.reverseRecOn with
  | nil => simp at hp
  | append_singleton sent last ih =>
      rw [shown_concat] at h
      by_cases ha : ActsFor pid last
      · rw [if_pos ha] at h
        exact ⟨sent, last, [], rfl, ha, h, by simp⟩
      · rw [if_neg ha] at h
        have hearlier : ∃ cmd ∈ sent, Publishes pid cmd := by
          obtain ⟨cmd, hc, hcp⟩ := hp
          rcases List.mem_append.mp hc with hc | hc
          · exact ⟨cmd, hc, hcp⟩
          · rw [List.mem_singleton.mp hc] at hcp
            exact absurd hcp.1 ha
        obtain ⟨before, clear, rest, rfl, hca, hn, hr⟩ := ih h hearlier
        refine ⟨before, clear, rest ++ [last], by simp, hca, hn, ?_⟩
        intro cmd hc
        rcases List.mem_append.mp hc with hc | hc
        · exact hr cmd hc
        · rw [List.mem_singleton.mp hc]
          exact fun hpub => ha hpub.1

theorem allCleared_iff : AllCleared sent ↔ ∀ pid, shown pid sent = none :=
  ⟨fun h pid => shown_of_cleared (h pid), fun h pid => cleared_of_shown (h pid)⟩

end Commands

section History

variable {history : List Nat} {pid q : Nat}

theorem mem_admitPid (h : (admitPid history pid).1 = true) :
    q ∈ (admitPid history pid).2 ↔ q ∈ history ∨ q = pid := by
  by_cases hm : pid ∈ history
  · by_cases hq : q = pid
    · simp [admitPid, hm, hq]
    · simp [admitPid, hm, hq, List.mem_erase_of_ne hq]
  · by_cases hlen : history.length ≥ maxTrackedPids
    · simp [admitPid, hm, hlen] at h
    · simp [admitPid, hm, hlen]

theorem admitPid_refused (h : (admitPid history pid).1 = false) : (admitPid history pid).2 = history := by
  by_cases hm : pid ∈ history
  · simp [admitPid, hm] at h
  · by_cases hlen : history.length ≥ maxTrackedPids
    · simp [admitPid, hm, hlen]
    · simp [admitPid, hm, hlen] at h

theorem mem_trackPid (h : pid ∈ history) : q ∈ trackPid history pid ↔ q ∈ history := by
  have hknown : (admitPid history pid).1 = true := by rw [admitPid, if_pos h]
  have hmem := mem_admitPid (q := q) hknown
  rw [trackPid]
  split
  next history' he =>
      rw [he] at hmem
      rw [hmem, or_iff_left_of_imp fun hq => hq ▸ h]
  next he => simp [he] at hknown

theorem mem_tracked (h : (admitPid history pid).1 = true) :
    q ∈ trackPid (admitPid history pid).2 pid ↔ q ∈ history ∨ q = pid := by
  rw [mem_trackPid ((mem_admitPid h).mpr (.inr rfl)), mem_admitPid h]

theorem admitPid_full (h : (admitPid history pid).1 = false) : history ≠ [] := by
  rintro rfl
  simp [admitPid, maxTrackedPids] at h

end History

namespace Pump

variable {W : Wire} {s : Pump} {pid : Nat}

@[simp] theorem reply_sent (W : Wire) (s : Pump) (body : Value) : (s.reply W body).sent = s.sent := rfl

@[simp] theorem reply_ipc (W : Wire) (s : Pump) (body : Value) : (s.reply W body).ipc = s.ipc := rfl

@[simp] theorem sendClose_sent (W : Wire) (s : Pump) (code : Nat) (message : String) :
    (s.sendClose W code message).sent = s.sent := rfl

@[simp] theorem sendClose_ipc (W : Wire) (s : Pump) (code : Nat) (message : String) :
    (s.sendClose W code message).ipc = s.ipc := rfl

/-- Every pid left with an activity is in the history of the connection. -/
def Covered (s : Pump) : Prop := ∀ pid, (shown pid s.sent).isSome → pid ∈ s.ipc.publishedPids

theorem sendEmpty_shown (s : Pump) (p : Nat) :
    shown pid (s.sendEmpty p).sent = if p = pid then none else shown pid s.sent := by
  simp [sendEmpty, emit, ActsFor, ActivityCmd.pid, ActivityCmd.activity]

theorem sendEmpty_all_shown (s : Pump) (pids : List Nat) :
    shown pid (pids.foldl sendEmpty s).sent = if pid ∈ pids then none else shown pid s.sent := by
  induction pids generalizing s with
  | nil => simp
  | cons p pids ih =>
      rw [List.foldl_cons, ih, sendEmpty_shown]
      by_cases hm : pid ∈ pids
      · simp [hm]
      · simp [hm, eq_comm]

theorem Covered.clearAll (h : s.Covered) (currentPid : Nat) : shown pid (s.clearAll currentPid).sent = none := by
  have hsub : s.ipc.publishedPids ⊆ (clearPids s.ipc currentPid).1 := by
    rw [clearPids]
    split
    next => exact List.Subset.refl _
    next => exact List.subset_append_left _ _
  simp only [Pump.clearAll, sendEmpty_all_shown]
  by_cases hm : pid ∈ (clearPids s.ipc currentPid).1
  · rw [if_pos hm]
  · rw [if_neg hm]
    by_contra hs
    exact hm (hsub (h pid (Option.isSome_iff_ne_none.mpr hs)))

theorem Covered.onClose (h : s.Covered) : shown pid s.onClose.sent = none := by
  simp only [Pump.onClose, sendEmpty_all_shown]
  split
  next => rfl
  next hm =>
      simp only [emit, shown_concat]
      split
      next => rfl
      next ha =>
          by_contra hs
          refine hm (List.mem_filter.mpr ⟨h pid (Option.isSome_iff_ne_none.mpr hs), ?_⟩)
          refine decide_eq_true fun he => ha ?_
          simp [ActsFor, ActivityCmd.pid, he]

theorem Covered.congr {t : Pump} (h : s.Covered) (hs : t.sent = s.sent)
    (hp : t.ipc.publishedPids = s.ipc.publishedPids) : t.Covered := by
  intro pid hpid
  rw [hs] at hpid
  rw [hp]
  exact h pid hpid

theorem Covered.emit {t : Pump} {cmd : ActivityCmd} (h : s.Covered) (hs : t.sent = s.sent ++ [cmd])
    (hsub : s.ipc.publishedPids ⊆ t.ipc.publishedPids)
    (hcmd : cmd.cmd = "SET_ACTIVITY" → cmd.pid ∈ t.ipc.publishedPids) : t.Covered := by
  intro pid hpid
  rw [hs, shown_concat] at hpid
  split at hpid
  next ha => exact ha.2.2 ▸ hcmd ha.1
  next => exact hsub (h pid hpid)

def forwarded (now : Nat) (s : Pump) (cmd : ActivityCmd) : ActivityCmd :=
  (Commands.setActivityResponse ({ cmd with applicationId := some s.ipc.clientId }.fix now)).2

theorem forwarded_pid (now : Nat) (s : Pump) (cmd : ActivityCmd) : (s.forwarded now cmd).pid = cmd.pid := by
  rw [forwarded, Commands.setActivityResponse_pid, ActivityCmd.fix, ActivityCmd.mapActivity_pid]
  rfl

theorem handleSetActivity_malformed {now : Nat} {cmd : ActivityCmd} (h : cmd.args = none) :
    (s.handleSetActivity W now cmd).sent = s.sent ∧ (s.handleSetActivity W now cmd).ipc = s.ipc := by
  simp [handleSetActivity, h]

theorem handleSetActivity_admitted {now : Nat} {cmd : ActivityCmd} (h : cmd.args.isSome)
    (hknown : (admitPid s.ipc.publishedPids cmd.pid).1 = true) :
    (s.handleSetActivity W now cmd).sent = s.sent ++ [s.forwarded now cmd] ∧
      (s.handleSetActivity W now cmd).ipc =
        { s.ipc with
          pid := cmd.pid
          nonce := cmd.nonce
          publishedPids := trackPid (admitPid s.ipc.publishedPids cmd.pid).2 cmd.pid } := by
  obtain ⟨args, hargs⟩ := Option.isSome_iff_exists.mp h
  have hpid := ActivityCmd.pid_of_args hargs
  simp only [handleSetActivity, hargs, hpid, hknown, if_true, forwarded]
  cases (Commands.setActivityResponse _).1 <;> exact ⟨rfl, rfl⟩

theorem handleSetActivity_refused {now : Nat} {cmd : ActivityCmd} (h : cmd.args.isSome)
    (hknown : (admitPid s.ipc.publishedPids cmd.pid).1 = false) :
    (s.handleSetActivity W now cmd).sent = s.sent ∧
      (s.handleSetActivity W now cmd).ipc = { s.ipc with pid := cmd.pid, nonce := cmd.nonce } := by
  obtain ⟨args, hargs⟩ := Option.isSome_iff_exists.mp h
  have hpid := ActivityCmd.pid_of_args hargs
  simp only [handleSetActivity, hargs, hpid, hknown, admitPid_refused hknown, Bool.false_eq_true, if_false]
  cases (Commands.setActivityResponse _).1 <;> exact ⟨rfl, rfl⟩

theorem Covered.handleSetActivity (h : s.Covered) (now : Nat) (cmd : ActivityCmd) :
    (s.handleSetActivity W now cmd).Covered := by
  cases hargs : cmd.args.isSome with
  | false =>
      have hnone : cmd.args = none := by simpa using hargs
      obtain ⟨hsent, hipc⟩ := handleSetActivity_malformed hnone
      exact h.congr hsent (by rw [hipc])
  | true =>
      cases hknown : (admitPid s.ipc.publishedPids cmd.pid).1 with
      | false =>
          obtain ⟨hsent, hipc⟩ := handleSetActivity_refused hargs hknown
          exact h.congr hsent (by rw [hipc])
      | true =>
          obtain ⟨hsent, hipc⟩ := handleSetActivity_admitted hargs hknown
          refine h.emit hsent ?_ ?_ <;> rw [hipc]
          · intro q hq
            exact (mem_tracked hknown).mpr (.inl hq)
          · intro _
            exact (mem_tracked hknown).mpr (.inr (forwarded_pid now s cmd))

theorem onFrame_goes_on (moment : Moment) (s : Pump) (message : String) :
    (s.onFrame W moment message).2 = false := by
  rw [onFrame]
  split
  next => rfl
  next => split <;> [rfl; split <;> rfl]

theorem Covered.onFrame (h : s.Covered) (moment : Moment) (message : String) :
    (s.onFrame W moment message).1.Covered := by
  rw [Pump.onFrame]
  split
  next => exact h
  next =>
      split
      next => exact h.congr rfl rfl
      next cmd hcmd =>
          split
          next => exact h.congr rfl rfl
          next => exact h.congr rfl rfl
          next => exact h.handleSetActivity moment.now cmd
          next => exact h.congr rfl rfl
          next => exact h.congr rfl rfl
          next hc => exact h.emit rfl (List.Subset.refl _) (fun he => by simp [hc] at he)
          next hc => exact h.emit rfl (List.Subset.refl _) (fun he => by simp [hc] at he)
          next hc => exact h.emit rfl (List.Subset.refl _) (fun he => by simp [hc] at he)
          next hc => exact h.emit rfl (List.Subset.refl _) (fun he => by simp [hc] at he)
          next => exact h.congr rfl rfl

theorem onHandshake_spec (user : RpcUser) (s : Pump) (message : String) :
    (s.onHandshake W user message).1.sent = s.sent ∧
      (s.onHandshake W user message).1.ipc.publishedPids = s.ipc.publishedPids ∧
      ((s.onHandshake W user message).2 = true ↔
        ∃ data, W.handshake message = some data ∧ (data.v ≠ 1 ∨ data.clientId = "")) := by
  rw [onHandshake]
  split
  next hw => simp [hw]
  next data hw =>
      by_cases hv : data.v = 1
      · by_cases hc : data.clientId = "" <;> simp [hw, hv, hc]
      · simp [hw, hv]

end Pump

end RichPresence.Ipc
