import RichPresence.Ws.Transport

namespace RichPresence.Ws

open Lib

/-- Everything the bridge has taken, can take, or will be offered, in that order. -/
def Sink.line (s : Sink) : List Issued := s.channel.carried ++ s.pending.map PendingEntry.issued

/-- Commands for one pid stand in the order in which the pump handed them on. -/
structure Transport.Ordered (t : Transport) : Prop where
  sorted : t.sink.line.Pairwise fun i j => i.cmd.pid = j.cmd.pid → i.number < j.number
  numbered : ∀ i ∈ t.sink.line, i.number < t.issued

/-- A command that finds room in the channel does not pass a staged one of its pid. -/
def InTurn (cap : Option Nat) (t : Transport) : Call → Prop
  | .emit _ cmd => t.sink.HasRoom cap → ∀ entry ∈ t.sink.pending, entry.issued.cmd.pid ≠ cmd.pid
  | .tryEmit _ cmd => t.sink.HasRoom cap → ∀ entry ∈ t.sink.pending, entry.issued.cmd.pid ≠ cmd.pid
  | _ => True

instance (cap : Option Nat) (t : Transport) : (c : Call) → Decidable (InTurn cap t c)
  | .emit _ _ => inferInstanceAs (Decidable (_ → _))
  | .tryEmit _ _ => inferInstanceAs (Decidable (_ → _))
  | .lookup _ | .register _ _ | .remove _ | .notePublished _ _ | .forgetPublished _ _ | .rollbackPublish _ _ _
  | .backlog | .flush | .countShed | .stagePublish _ _ _ | .stageClear _ _ _ => inferInstanceAs (Decidable True)

namespace Sink

theorem tryEmit_cases (cap : Option Nat) (cmd : Issued) (s : Sink) :
    (s.HasRoom cap ∧ s.tryEmit cap cmd = (.sent, { s with channel := s.channel.push cmd })) ∨
      (¬s.HasRoom cap ∧ s.tryEmit cap cmd = (.closed, s)) ∨
        (¬s.HasRoom cap ∧ s.tryEmit cap cmd = (.full cmd, s)) := by
  rw [tryEmit]
  split
  next hroom => exact .inl ⟨hroom, rfl⟩
  next hroom =>
      split
      · exact .inr (.inl ⟨hroom, rfl⟩)
      · exact .inr (.inr ⟨hroom, rfl⟩)

theorem line_push (cmd : Issued) (s : Sink) :
    { s with channel := s.channel.push cmd }.line =
      s.channel.carried ++ cmd :: s.pending.map PendingEntry.issued := by
  rw [line, Channel.carried_push, List.append_assoc, List.singleton_append]

theorem flushOne_line (cap : Option Nat) (s : Sink) : (s.flushOne cap).2.line.Sublist s.line := by
  rw [flushOne]
  split
  next => exact .refl _
  next entry rest hp =>
      have hline : s.line = s.channel.carried ++ entry.issued :: rest.map PendingEntry.issued := by
        rw [line, hp, List.map_cons]
      rw [hline]
      rcases tryEmit_cases cap entry.issued { s with pending := rest } with ⟨-, h⟩ | ⟨-, h⟩ | ⟨-, h⟩
      · rw [h]
        exact (line_push entry.issued { s with pending := rest }) ▸ .refl _
      · rw [h]
        simp [line]
      · rw [h]
        simp [line, PendingEntry.issued]

theorem emit_line (cap : Option Nat) (cmd : Issued) (s : Sink) :
    (s.emit cap cmd).2.line = (s.tryEmit cap cmd).2.line := by
  rw [emit]
  split
  next h => rw [h]
  next h => rw [h]; rfl

theorem stage_line (entry : PendingEntry) (s : Sink) :
    ∃ rest, rest.Sublist s.line ∧ (s.stage entry).line = rest ++ [entry.issued] := by
  rw [stage]
  split
  next =>
      refine ⟨s.channel.carried ++ (s.pending.drop 1).map PendingEntry.issued, ?_, ?_⟩
      · exact List.Sublist.append_left ((List.drop_sublist 1 s.pending).map _) _
      · simp [line, countShed]
  next => exact ⟨s.line, .refl _, by simp [line]⟩

end Sink

namespace Transport.Ordered

variable {cap : Option Nat} {t u : Transport}

theorem of_sublist (h : t.Ordered) (hl : u.sink.line.Sublist t.sink.line) (hi : t.issued ≤ u.issued) : u.Ordered :=
  ⟨h.sorted.sublist hl, fun i hm => Nat.lt_of_lt_of_le (h.numbered i (hl.subset hm)) hi⟩

theorem modify (h : t.Ordered) (id : ClientId) (f : ClientSlot → ClientSlot) : (t.modify id f).Ordered := by
  rw [Transport.modify]
  split
  · exact ⟨h.sorted, h.numbered⟩
  · exact h

theorem insert (h : t.Ordered) {front back : List Issued} (hl : t.sink.line = front ++ back) {cmd : Issued}
    (hn : cmd.number = t.issued) (hpid : ∀ i ∈ back, i.cmd.pid ≠ cmd.cmd.pid)
    (hu : u.sink.line = front ++ cmd :: back) (hi : u.issued = t.issued + 1) : u.Ordered := by
  obtain ⟨hsorted, hnumbered⟩ := h
  rw [hl] at hsorted hnumbered
  obtain ⟨hfront, hback, hacross⟩ := List.pairwise_append.mp hsorted
  have hbelow : ∀ i ∈ front, i.number < cmd.number := by
    intro i hm
    rw [hn]
    exact hnumbered i (List.mem_append_left _ hm)
  constructor
  · rw [hu, List.pairwise_append, List.pairwise_cons]
    refine ⟨hfront, ⟨fun j hj he => absurd he.symm (hpid j hj), hback⟩, fun i hm j hj he => ?_⟩
    rcases List.mem_cons.mp hj with rfl | hj
    · exact hbelow i hm
    · exact hacross i hm j hj he
  · intro i hm
    rw [hu, List.mem_append, List.mem_cons] at hm
    rw [hi]
    rcases hm with hm | rfl | hm
    · exact Nat.lt_succ_of_lt (hnumbered i (List.mem_append_left _ hm))
    · exact hn ▸ Nat.lt_succ_self _
    · exact Nat.lt_succ_of_lt (hnumbered i (List.mem_append_right _ hm))

theorem emitted (h : t.Ordered) {cmd : Issued} (hn : cmd.number = t.issued)
    (hturn : t.sink.HasRoom cap → ∀ entry ∈ t.sink.pending, entry.issued.cmd.pid ≠ cmd.cmd.pid)
    (hu : u.sink.line = (t.sink.tryEmit cap cmd).2.line) (hi : u.issued = t.issued + 1) : u.Ordered := by
  rcases Sink.tryEmit_cases cap cmd t.sink with ⟨hroom, he⟩ | ⟨-, he⟩ | ⟨-, he⟩
  · rw [he, Sink.line_push] at hu
    refine h.insert rfl hn (fun i hm => ?_) hu hi
    obtain ⟨entry, hentry, rfl⟩ := List.mem_map.mp hm
    exact hturn hroom entry hentry
  · rw [he] at hu
    exact h.of_sublist (hu ▸ .refl _) (by omega)
  · rw [he] at hu
    exact h.of_sublist (hu ▸ .refl _) (by omega)

theorem staged (h : t.Ordered) {entry : PendingEntry} (hn : entry.number = t.issued)
    (hu : u.sink = t.sink.stage entry) (hi : u.issued = t.issued + 1) : u.Ordered := by
  obtain ⟨rest, hsub, hline⟩ := t.sink.stage_line entry
  have hrest : rest.Pairwise (fun i j => i.cmd.pid = j.cmd.pid → i.number < j.number) := h.sorted.sublist hsub
  rw [← hu] at hline
  constructor
  · rw [hline, List.pairwise_append]
    refine ⟨hrest, List.pairwise_singleton .., fun i hm j hj _ => ?_⟩
    rw [List.mem_singleton.mp hj]
    exact Nat.lt_of_lt_of_eq (h.numbered i (hsub.subset hm)) hn.symm
  · intro i hm
    rw [hline, List.mem_append, List.mem_singleton] at hm
    rw [hi]
    rcases hm with hm | rfl
    · exact Nat.lt_succ_of_lt (h.numbered i (hsub.subset hm))
    · exact hn ▸ Nat.lt_succ_self _

theorem act (h : t.Ordered) (c : Call) (hturn : InTurn cap t c) : (t.act cap c).2.Ordered := by
  cases c with
  | lookup id => exact h
  | register id slot => exact ⟨h.sorted, h.numbered⟩
  | remove id => exact ⟨h.sorted, h.numbered⟩
  | notePublished id entry => exact h.modify id _
  | forgetPublished id pid => exact h.modify id _
  | rollbackPublish id pid displaced => exact h.modify id _
  | backlog => exact h
  | flush => exact h.of_sublist (t.sink.flushOne_line cap) le_rfl
  | emit id cmd => exact @emitted cap t _ h ⟨t.issued, id, cmd⟩ rfl hturn (Sink.emit_line cap _ _) rfl
  | tryEmit id cmd => exact @emitted cap t _ h ⟨t.issued, id, cmd⟩ rfl hturn rfl rfl
  | countShed => exact ⟨h.sorted, h.numbered⟩
  | stagePublish now id cmd => exact h.staged rfl rfl rfl
  | stageClear now id published => exact h.staged rfl rfl rfl

theorem around (h : t.Ordered) (e : Around) : (t.around cap e).Ordered := by
  cases e with
  | receive => exact h.of_sublist (by simp [Transport.around, Sink.line]) le_rfl
  | close =>
      refine h.of_sublist ?_ le_rfl
      simp [Transport.around, Sink.line, Channel.carried]
  | flush => exact h.of_sublist (t.sink.flushOne_line cap) le_rfl
  | expire now =>
      exact h.of_sublist (List.Sublist.append_left (List.filter_sublist.map _) _) le_rfl

end Transport.Ordered

/-- The numbers of the commands for a pid that the bridge has received. -/
def Transport.received (pid : Nat) (t : Transport) : List Nat :=
  (t.sink.channel.taken.filter fun i => i.cmd.pid = pid).map Issued.number

theorem Transport.Ordered.received {t : Transport} (h : t.Ordered) (pid : Nat) :
    (t.received pid).Pairwise (· < ·) := by
  have htaken : t.sink.channel.taken.Sublist t.sink.line :=
    (List.sublist_append_left _ _).trans (List.sublist_append_left _ _)
  have hpid := (h.sorted.sublist htaken).filter fun i => i.cmd.pid = pid
  rw [Transport.received, List.pairwise_map]
  refine hpid.imp_of_mem fun hi hj hlt => hlt ?_
  rw [of_decide_eq_true (List.mem_filter.mp hi).2, of_decide_eq_true (List.mem_filter.mp hj).2]

abbrev begun (decode : String → Option ActivityCmd) (settings : Settings) (events : List PumpEvent) :
    Task Call Call.Answer Transport := ⟨pumpLoop decode settings events, {}⟩

/-- However the pump, the retry tasks and the bridge take turns, the bridge receives
the commands for a pid in the order the pump handed them on, if every command that
finds room finds no older one of its pid staged. -/
theorem commands_in_order (cap : Option Nat) (decode : String → Option ActivityCmd) (settings : Settings)
    (events : List PumpEvent) (slices : List (Slice Around))
    (h : Along (Task.step (Transport.act cap) (Transport.around cap)) (Task.Calls (InTurn cap))
      (begun decode settings events) slices) (pid : Nat) :
    (((begun decode settings events).runs (Transport.act cap) (Transport.around cap) slices).state.received
      pid).Pairwise (· < ·) :=
  (Task.invariant Transport.Ordered (fun _ c ht hc => ht.act c hc) (fun _ e ht => ht.around e)
    ⟨List.Pairwise.nil, fun _ hm => absurd hm (List.not_mem_nil)⟩ h).received pid

def everything : Settings := ⟨true, true⟩

def noon : Moment := ⟨0, 1763200000, true⟩

def gameClient : Upgrade := ⟨some "1", some "json", some ⟨"1145360"⟩, none⟩

def sampleDecode (text : String) : Option ActivityCmd :=
  if text = "play" then
    some { cmd := "SET_ACTIVITY", args := some { pid := some 77, activity := some { details := some "Elysium" } } }
  else none

/-- A client publishes and leaves, and the next one publishes for the same pid. -/
def changeover : List PumpEvent :=
  [.connect noon 1 gameClient, .message noon 1 (.text "play"), .disconnect noon 1, .connect noon 2 gameClient,
    .message noon 2 (.text "play")]

/-- The channel has one place, and the bridge takes its first command when the
second publish is staged behind the clear. -/
theorem commands_in_order_changeover :
    (((begun sampleDecode everything changeover).runs (Transport.act (some 1)) (Transport.around (some 1))
      (.replicate 18 .own ++ [.other .receive, .other .flush, .other .receive, .other .flush, .other .receive])
        ).state.received 77).Pairwise (· < ·) :=
  commands_in_order (some 1) sampleDecode everything changeover _ (by decide +kernel) 77

/-- The bridge takes its first command when the pump has found the clear still
staged: the second publish goes straight into the channel, and the clear of the
client before takes the new card away. -/
theorem publish_overtakes_staged_clear :
    ¬(((begun sampleDecode everything changeover).runs (Transport.act (some 1)) (Transport.around (some 1))
      (.replicate 16 .own ++ [.other .receive, .own, .other .receive, .other .flush, .other .receive])
        ).state.received 77).Pairwise (· < ·) := by
  decide +kernel

end RichPresence.Ws
