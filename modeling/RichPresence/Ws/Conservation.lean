import Mathlib.Algebra.Order.Group.Multiset
import Mathlib.Tactic.Abel
import RichPresence.Ws.Order
import RichPresence.Ws.SinkOps

namespace RichPresence.Ws

open Lib

variable {cap : Option Nat}

namespace Sink

def staged (s : Sink) : Multiset ActivityCmd := s.pending.map fun entry => entry.payload.intoCmd

def entered (s s' : Sink) : Multiset ActivityCmd := (s'.channel.queue.drop s.channel.queue.length).map Issued.cmd

/-- A flush takes its first entry from the queue before it finds the channel closed,
and counts those that are still in the queue then. -/
def Overlooks (s : Sink) : Prop := s.closed = true ∧ s.pending.isEmpty = false

instance (s : Sink) : Decidable s.Overlooks := inferInstanceAs (Decidable (_ ∧ _))

/-- Of the commands a step was given and those staged before it, each has entered
the channel, is staged or was shed, and all but `missed` of the shed are counted. -/
def Balance (given accepted : Multiset ActivityCmd) (s s' : Sink) (missed : Nat) : Prop :=
  ∃ shed : Multiset ActivityCmd, given + s.staged = accepted + s'.staged + shed ∧
    s.dropped + shed.card = s'.dropped + missed

theorem Balance.refl (s : Sink) : Balance 0 0 s s 0 := ⟨0, by simp, rfl⟩

theorem Balance.trans {l₁ l₂ a₁ a₂ : Multiset ActivityCmd} {s₁ s₂ s₃ : Sink} {m₁ m₂ : Nat}
    (h₁ : Balance l₁ a₁ s₁ s₂ m₁) (h₂ : Balance l₂ a₂ s₂ s₃ m₂) :
    Balance (l₁ + l₂) (a₁ + a₂) s₁ s₃ (m₁ + m₂) := by
  obtain ⟨x₁, hp₁, hd₁⟩ := h₁
  obtain ⟨x₂, hp₂, hd₂⟩ := h₂
  refine ⟨x₁ + x₂, ?_, by rw [Multiset.card_add]; omega⟩
  calc l₁ + l₂ + s₁.staged = l₂ + (l₁ + s₁.staged) := by abel
    _ = l₂ + (a₁ + s₂.staged + x₁) := by rw [hp₁]
    _ = a₁ + (l₂ + s₂.staged) + x₁ := by abel
    _ = a₁ + (a₂ + s₃.staged + x₂) + x₁ := by rw [hp₂]
    _ = a₁ + a₂ + s₃.staged + (x₁ + x₂) := by abel

theorem tryEmit_outcome (cap : Option Nat) (cmd : Issued) (s : Sink) :
    (s.closed = false ∧ s.tryEmit cap cmd = (.sent, { s with channel := s.channel.push cmd })) ∨
      (s.closed = true ∧ s.tryEmit cap cmd = (.closed, s)) ∨
        (s.closed = false ∧ s.tryEmit cap cmd = (.full cmd, s)) := by
  rw [tryEmit]
  split
  next hroom => exact .inl ⟨hroom.1, rfl⟩
  next =>
      split
      next hc => exact .inr (.inl ⟨hc, rfl⟩)
      next hc => exact .inr (.inr ⟨by simpa using hc, rfl⟩)

theorem Balance.of_push {given : Multiset ActivityCmd} {s s' : Sink} {cmd : Issued}
    (hc : s'.channel = s.channel.push cmd) (hs : given + s.staged = {cmd.cmd} + s'.staged)
    (hd : s'.dropped = s.dropped) : Balance given (s.entered s') s s' 0 := by
  have he : s.entered s' = {cmd.cmd} := by simp [entered, hc, Channel.push]
  exact ⟨0, by rw [he, hs, add_zero], hd.symm⟩

theorem Balance.of_channel {given : Multiset ActivityCmd} {s s' : Sink} {missed : Nat} (shed : Multiset ActivityCmd)
    (hc : s'.channel = s.channel) (hs : given + s.staged = s'.staged + shed)
    (hd : s.dropped + shed.card = s'.dropped + missed) : Balance given (s.entered s') s s' missed := by
  have he : s.entered s' = 0 := by
    rw [entered, hc, List.drop_length]
    rfl
  exact ⟨shed, by rw [he, hs, zero_add], hd⟩

theorem emit_balance (s : Sink) (cmd : Issued) :
    Balance {cmd.cmd} (s.entered (s.emit cap cmd).2) s (s.emit cap cmd).2 0 := by
  rw [emit]
  rcases tryEmit_outcome cap cmd s with ⟨-, h⟩ | ⟨-, h⟩ | ⟨-, h⟩
  · rw [h]
    exact .of_push rfl rfl rfl
  · rw [h]
    exact .of_channel {cmd.cmd} rfl (add_comm ..) rfl
  · rw [h]
    exact .of_channel {cmd.cmd} rfl (add_comm ..) rfl

theorem tryEmit_balance (s : Sink) (cmd : Issued) :
    (s.tryEmit cap cmd).1 = .sent ∧
        Balance {cmd.cmd} (s.entered (s.tryEmit cap cmd).2) s (s.tryEmit cap cmd).2 0 ∨
      ((s.tryEmit cap cmd).1 = .closed ∨ (s.tryEmit cap cmd).1 = .full cmd) ∧
        Balance 0 (s.entered (s.tryEmit cap cmd).2) s (s.tryEmit cap cmd).2 0 := by
  rcases tryEmit_outcome cap cmd s with ⟨-, h⟩ | ⟨-, h⟩ | ⟨-, h⟩
  · rw [h]
    exact .inl ⟨rfl, .of_push rfl rfl rfl⟩
  · rw [h]
    exact .inr ⟨.inl rfl, .of_channel 0 rfl (add_comm ..) rfl⟩
  · rw [h]
    exact .inr ⟨.inr rfl, .of_channel 0 rfl (add_comm ..) rfl⟩

theorem stage_balance (s : Sink) (entry : PendingEntry) :
    Balance {entry.payload.intoCmd} (s.entered (s.stage entry)) s (s.stage entry) 0 := by
  rw [stage]
  split
  next hfull =>
      cases hp : s.pending with
      | nil => simp [hp, maxPendingCommands] at hfull
      | cons oldest rest =>
          refine .of_channel {oldest.payload.intoCmd} rfl ?_ rfl
          simp only [staged, hp, List.map_cons, List.drop_one, List.tail_cons, List.map_append, List.map_nil,
            ← Multiset.coe_add, ← Multiset.cons_coe, ← Multiset.singleton_add, Multiset.coe_nil, add_zero]
          abel
  next =>
      refine .of_channel 0 rfl ?_ rfl
      simp only [staged, List.map_append, List.map_cons, List.map_nil, ← Multiset.coe_add, Multiset.coe_singleton]
      abel

theorem flushOne_balance (s : Sink) :
    Balance 0 (s.entered (s.flushOne cap).2) s (s.flushOne cap).2 (if s.Overlooks then 1 else 0) := by
  rw [flushOne]
  split
  next hp =>
      rw [if_neg (by simp [Overlooks, hp])]
      exact .of_channel 0 rfl (add_comm ..) rfl
  next entry rest hp =>
      have hs : s.staged = {entry.payload.intoCmd} + { s with pending := rest }.staged := by
        rw [staged, hp]
        rfl
      have hover : s.Overlooks ↔ s.closed = true := by simp [Overlooks, hp]
      rcases tryEmit_outcome cap entry.issued { s with pending := rest } with ⟨hc, h⟩ | ⟨hc, h⟩ | ⟨hc, h⟩
      · rw [h, if_neg (by simpa [hover] using hc)]
        exact .of_push rfl (by rw [zero_add, hs]; rfl) rfl
      · rw [h, if_pos (hover.mpr hc)]
        refine .of_channel s.staged rfl (by simp [staged]) ?_
        simp [staged, hp]
        omega
      · rw [h, if_neg (by simpa [hover] using hc)]
        refine .of_channel 0 rfl ?_ rfl
        simp [staged, hp, PendingEntry.issued]

theorem expirePending_balance (s : Sink) (now : Nat) :
    Balance 0 (s.entered (s.expirePending now)) s (s.expirePending now) 0 := by
  have hsplit := List.filter_append_perm (fun entry : PendingEntry => decide (now < entry.deadline)) s.pending
  have hlen := hsplit.length_eq
  rw [List.length_append] at hlen
  refine .of_channel ((s.pending.filter fun entry => !decide (now < entry.deadline)).map
    fun entry => entry.payload.intoCmd : List ActivityCmd) rfl ?_ ?_
  · rw [zero_add, staged, staged, Multiset.coe_add, ← List.map_append, Multiset.coe_eq_coe]
    exact (hsplit.map _).symm
  · simp only [expirePending, Multiset.coe_card, List.length_map]
    omega

end Sink

def Call.isFlush : Call → Bool
  | .flush => true
  | _ => false

namespace Transport

@[simp] theorem modify_sink (id : ClientId) (f : ClientSlot → ClientSlot) (t : Transport) :
    (t.modify id f).sink = t.sink := by
  rw [modify]
  split <;> rfl

theorem act_possible (cap : Option Nat) (c : Call) (t : Transport) : c.Possible (t.act cap c).1 := by
  cases c with
  | tryEmit id cmd =>
      rcases t.sink.tryEmit_balance ⟨t.issued, id, cmd⟩ with ⟨h, -⟩ | ⟨h | h, -⟩
      · rw [act, h]
        trivial
      · rw [act, h]
        trivial
      · rw [act, h]
        exact rfl
  | _ => trivial

theorem act_balance (c : Call) (t : Transport) {given : List ActivityCmd} (h : c.Settles (t.act cap c).1 given) :
    Sink.Balance given (t.sink.entered (t.act cap c).2.sink) t.sink (t.act cap c).2.sink
      (if c.isFlush = true ∧ t.sink.Overlooks then 1 else 0) := by
  cases c with
  | lookup _ | register _ _ | remove _ | notePublished _ _ | forgetPublished _ _ | rollbackPublish _ _ _ | backlog =>
      obtain rfl : given = [] := h
      rw [if_neg (by simp [Call.isFlush])]
      exact .of_channel 0 (by simp [act]) (by simp [act]) (by simp [act])
  | flush =>
      obtain rfl : given = [] := h
      simp only [Call.isFlush, true_and]
      exact t.sink.flushOne_balance
  | emit id cmd =>
      obtain rfl : given = [cmd] := h
      exact t.sink.emit_balance ⟨t.issued, id, cmd⟩
  | tryEmit id cmd =>
      rw [if_neg (by simp [Call.isFlush])]
      rcases t.sink.tryEmit_balance ⟨t.issued, id, cmd⟩ with ⟨hr, hb⟩ | ⟨hr | hr, hb⟩
      · rw [act, hr] at h
        obtain rfl : given = [cmd] := h
        exact hb
      · rw [act, hr] at h
        obtain rfl : given = [] := h
        exact hb
      · rw [act, hr] at h
        obtain rfl : given = [] := h
        exact hb
  | countShed =>
      obtain ⟨cmd, rfl⟩ := List.length_eq_one_iff.mp h
      exact .of_channel {cmd} rfl (add_comm ..) rfl
  | stagePublish now id cmd =>
      obtain rfl : given = [cmd] := h
      exact t.sink.stage_balance ⟨.publish cmd, now + disconnectClearBudget, t.issued, id⟩
  | stageClear now id published =>
      obtain rfl : given = [clearForSlot published] := h
      exact t.sink.stage_balance ⟨.clear (.fromSlot published), now + disconnectClearBudget, t.issued, id⟩

theorem around_balance (e : Around) (t : Transport) :
    Sink.Balance 0 (t.sink.entered (t.around cap e).sink) t.sink (t.around cap e).sink
      (if e = .flush ∧ t.sink.Overlooks then 1 else 0) := by
  cases e with
  | receive =>
      have hentered : t.sink.entered (t.around cap .receive).sink = 0 := by
        rw [Sink.entered, around, Channel.recv]
        split
        next => rw [List.drop_length]; rfl
        next hq => simp [hq]
      exact ⟨0, by rw [hentered]; simp [around, Sink.staged], rfl⟩
  | close => exact ⟨0, by simp [around, Sink.entered, Sink.staged], rfl⟩
  | flush =>
      simp only [true_and]
      exact t.sink.flushOne_balance
  | expire now => exact t.sink.expirePending_balance now

end Transport

/-- Sink operations under way, with the retry tasks and the bridge around them. -/
abbrev Traffic := Task Call Call.Answer Transport

namespace Traffic

abbrev step (cap : Option Nat) : Traffic → Slice Around → Traffic :=
  Task.step (Transport.act cap) (Transport.around cap)

/-- The step is a turn of a flush, of the operations or of a retry task. -/
def Flushes (t : Traffic) : Slice Around → Bool
  | .own => t.script.next.any Call.isFlush
  | .other .flush => true
  | .other _ => false

/-- No turn of a flush finds the channel closed with something staged. -/
def Counted (t : Traffic) (e : Slice Around) : Prop := ¬(t.Flushes e = true ∧ t.state.sink.Overlooks)

instance (t : Traffic) (e : Slice Around) : Decidable (t.Counted e) := inferInstanceAs (Decidable (¬_))

def accepted (cap : Option Nat) : Traffic → List (Slice Around) → Multiset ActivityCmd
  | _, [] => 0
  | t, e :: es => t.state.sink.entered (step cap t e).state.sink + accepted cap (step cap t e) es

def overlooked (cap : Option Nat) : Traffic → List (Slice Around) → Nat
  | _, [] => 0
  | t, e :: es =>
      (if t.Flushes e = true ∧ t.state.sink.Overlooks then 1 else 0) + overlooked cap (step cap t e) es

theorem overlooked_eq_zero (t : Traffic) (es : List (Slice Around)) :
    overlooked cap t es = 0 ↔ Along (step cap) Counted t es := by
  induction es generalizing t with
  | nil => simp [overlooked, Along]
  | cons e es ih =>
      rw [overlooked, Along, Nat.add_eq_zero_iff, ih, Counted]
      simp

theorem step_balance (cap : Option Nat) (t : Traffic) {l : List ActivityCmd} (h : Hands t.script l)
    (e : Slice Around) :
    ∃ given rest, l = given ++ rest ∧ Hands (step cap t e).script rest ∧
      Sink.Balance given (t.state.sink.entered (step cap t e).state.sink) t.state.sink (step cap t e).state.sink
        (if t.Flushes e = true ∧ t.state.sink.Overlooks then 1 else 0) := by
  cases e with
  | other e =>
      refine ⟨[], l, rfl, h, ?_⟩
      have hflush : t.Flushes (.other e) = true ↔ e = .flush := by cases e <;> simp [Flushes]
      simp only [hflush]
      exact t.state.around_balance e
  | own =>
      cases hp : t.script with
      | done a =>
          refine ⟨[], l, rfl, ?_, ?_⟩
          · simpa [step, Task.step, hp] using h
          · rw [if_neg (by simp [Flushes, hp, Script.next])]
            simp only [step, Task.step, hp]
            exact .of_channel 0 rfl (add_comm ..) rfl
      | call c k =>
          rw [hp] at h
          obtain ⟨given, rest, hs, rfl, hk⟩ := h _ (Transport.act_possible cap c t.state)
          refine ⟨given, rest, rfl, ?_, ?_⟩
          · simpa [step, Task.step, hp] using hk
          · simpa [step, Task.step, hp, Flushes, Script.next] using t.state.act_balance c hs

theorem run_balance (cap : Option Nat) (t : Traffic) {l : List ActivityCmd} (h : Hands t.script l)
    (es : List (Slice Around)) :
    ∃ given rest, l = given ++ rest ∧ Hands (es.foldl (step cap) t).script rest ∧
      Sink.Balance given (accepted cap t es) t.state.sink (es.foldl (step cap) t).state.sink
        (overlooked cap t es) := by
  induction es generalizing t l with
  | nil => exact ⟨[], l, rfl, h, .refl _⟩
  | cons e es ih =>
      obtain ⟨given, rest, rfl, hrest, hb⟩ := step_balance cap t h e
      obtain ⟨given', rest', rfl, hrest', hb'⟩ := ih (step cap t e) hrest
      refine ⟨given ++ given', rest', by rw [List.append_assoc], hrest', ?_⟩
      rw [← Multiset.coe_add]
      exact hb.trans hb'

end Traffic

theorem Call.Settles.length_eq {c : Call} {r : c.Answer} {l l' : List ActivityCmd} (h : c.Settles r l)
    (h' : c.Settles r l') : l.length = l'.length := by
  cases c with
  | countShed => exact Eq.trans h (Eq.symm h')
  | tryEmit id cmd => cases r <;> exact congrArg List.length (Eq.trans h (Eq.symm h'))
  | _ => exact congrArg List.length (Eq.trans h (Eq.symm h'))

theorem Hands.length_eq {α : Type} {p : Pump α} {l l' : List ActivityCmd} (h : Hands p l) (h' : Hands p l') :
    l.length = l'.length := by
  induction p generalizing l l' with
  | done a => exact congrArg List.length (Eq.trans h (Eq.symm h'))
  | call c k ih =>
      have hr := Transport.act_possible none c {}
      obtain ⟨now, rest, hs, rfl, hk⟩ := h _ hr
      obtain ⟨now', rest', hs', rfl, hk'⟩ := h' _ hr
      rw [List.length_append, List.length_append, hs.length_eq hs', ih _ hk hk']

namespace Traffic

def start (ops : List SinkOp) : Traffic := ⟨forM ops SinkOp.script, {}⟩

def after (cap : Option Nat) (ops : List SinkOp) (es : List (Slice Around)) : Traffic :=
  (start ops).runs (Transport.act cap) (Transport.around cap) es

/-- Whenever the first operations are over, each command they handed to the sink was
accepted by the channel, is staged or is counted as dropped, exactly when no turn of
a flush has met a closed channel with something staged. -/
theorem commands_conserved_iff (cap : Option Nat) (first rest : List SinkOp) (es : List (Slice Around))
    (h : (after cap (first ++ rest) es).script = forM rest SinkOp.script) :
    (∃ shed : Multiset ActivityCmd, shed.card = (after cap (first ++ rest) es).state.sink.dropped ∧
      (first.flatMap SinkOp.handed : Multiset ActivityCmd) = accepted cap (start (first ++ rest)) es +
        (after cap (first ++ rest) es).state.sink.staged + shed) ↔
      Along (step cap) Counted (start (first ++ rest)) es := by
  obtain ⟨given, left, hsplit, hleft, shed, hshed, hdropped⟩ :=
    run_balance cap (start (first ++ rest)) (Hands.forM Hands.script (first ++ rest)) es
  have hlen := Hands.length_eq hleft (h ▸ Hands.forM Hands.script rest)
  rw [List.flatMap_append] at hsplit
  obtain ⟨rfl, -⟩ := List.append_inj' hsplit hlen.symm
  have hbalance : (first.flatMap SinkOp.handed : Multiset ActivityCmd) = accepted cap (start (first ++ rest)) es +
      (after cap (first ++ rest) es).state.sink.staged + shed := by
    calc (first.flatMap SinkOp.handed : Multiset ActivityCmd)
        = first.flatMap SinkOp.handed + (start (first ++ rest)).state.sink.staged := (add_zero _).symm
      _ = _ := hshed
  have hcount : shed.card = (after cap (first ++ rest) es).state.sink.dropped +
      overlooked cap (start (first ++ rest)) es := by
    calc shed.card = (start (first ++ rest)).state.sink.dropped + shed.card := (Nat.zero_add _).symm
      _ = _ := hdropped
  rw [← overlooked_eq_zero]
  constructor
  · rintro ⟨shed', hcard, heq⟩
    rw [hbalance, add_right_inj] at heq
    rw [heq] at hcount
    omega
  · intro hzero
    exact ⟨shed, by omega, hbalance⟩

def play (details : String) : ActivityCmd where
  cmd := "SET_ACTIVITY"
  args := some { pid := some 77, activity := some { details := some details } }

/-- A publish, one more for which the channel has no room, and a flush. -/
def crowded : List SinkOp :=
  [.emit 1 (play "Elysium"), .emitOrStagePublish 0 1 (play "Styx"), .flushPending]

/-- The bridge takes the first command before the flush. -/
def drained : List (Slice Around) := .replicate 3 .own ++ .other .receive :: .replicate 2 .own

theorem crowded_conserved :
    (after (some 1) crowded drained).script = .done () ∧
      ∃ shed : Multiset ActivityCmd, shed.card = (after (some 1) crowded drained).state.sink.dropped ∧
        (crowded.flatMap SinkOp.handed : Multiset ActivityCmd) = accepted (some 1) (start crowded) drained +
          (after (some 1) crowded drained).state.sink.staged + shed :=
  ⟨rfl, (commands_conserved_iff (some 1) crowded [] drained rfl).mpr (by decide +kernel)⟩

/-- The bridge goes away before the flush: the staged publish is gone and nothing
counts it. -/
theorem closed_flush_loses_command :
    let es : List (Slice Around) := .replicate 3 .own ++ .other .close :: .replicate 2 .own
    (after (some 1) crowded es).script = .done () ∧ (crowded.flatMap SinkOp.handed).length = 2 ∧
      (accepted (some 1) (start crowded) es).card = 1 ∧
      (after (some 1) crowded es).state.sink.staged.card = 0 ∧
      (after (some 1) crowded es).state.sink.dropped = 0 :=
  ⟨rfl, rfl, rfl, rfl, rfl⟩

end Traffic

end RichPresence.Ws
