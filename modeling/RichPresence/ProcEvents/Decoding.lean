import RichPresence.ProcEvents.Messages

namespace RichPresence.ProcEvents

open Lib

section Datagram

/-- A netlink message: its type, the rest of its header (flags, sequence and port) and its body. -/
structure Message where
  type : Nat
  rest : Bytes
  body : Bytes
  type_lt : type < 2 ^ 16
  rest_length : rest.length = 10
  length_lt : sizeNlmsghdr + body.length < 2 ^ 32

namespace Message

variable (m : Message)

def len : Nat := sizeNlmsghdr + m.body.length

def bytes : Bytes := leBytes 4 m.len ++ (leBytes 2 m.type ++ (m.rest ++ m.body))

theorem length_bytes : m.bytes.length = m.len := by
  simp only [bytes, List.length_append, length_leBytes, m.rest_length, len, sizeNlmsghdr]
  omega

theorem leValue_len (post : Bytes) : leValue ((m.bytes ++ post).take 4) = m.len := by
  rw [bytes, List.append_assoc, List.take_left' (length_leBytes 4 m.len)]
  exact leValue_leBytes m.length_lt

theorem leValue_type (post : Bytes) : leValue (((m.bytes ++ post).drop 4).take 2) = m.type := by
  rw [bytes, List.append_assoc, List.drop_left' (length_leBytes 4 m.len), List.append_assoc,
    List.take_left' (length_leBytes 2 m.type)]
  exact leValue_leBytes m.type_lt

theorem take_body (post : Bytes) : ((m.bytes ++ post).drop sizeNlmsghdr).take (m.len - sizeNlmsghdr) = m.body := by
  have hheader : (leBytes 4 m.len ++ (leBytes 2 m.type ++ m.rest)).length = sizeNlmsghdr := by
    simp [length_leBytes, m.rest_length, sizeNlmsghdr]
  have hsplit : m.bytes ++ post = (leBytes 4 m.len ++ (leBytes 2 m.type ++ m.rest)) ++ (m.body ++ post) := by
    simp [bytes]
  rw [hsplit, List.drop_left' hheader, len, Nat.add_sub_cancel_left, List.take_left]

def observation : Option (UInt32 × UInt32 × Option ProcEvent) := ProcEvents.observation m.type m.body

def IsRefusal : Prop := ProcEvents.IsRefusal m.type m.body

end Message

/-- The messages stand in the buffer one after the other, each at the next multiple of four. -/
inductive LaidOut : List Message → Bytes → Prop
  | nil : LaidOut [] []
  | last (m : Message) {pad : Bytes} (hpad : pad.length < 4) : LaidOut [m] (m.bytes ++ pad)
  | cons (m : Message) {pad : Bytes} {next : Message} {ms : List Message} {buf : Bytes} (hpad : pad.length < 4)
      (haligned : (m.len + pad.length) % 4 = 0) (hrest : LaidOut (next :: ms) buf) :
      LaidOut (m :: next :: ms) (m.bytes ++ (pad ++ buf))

def Strided (ms : List Message) : Prop := ∀ m ∈ ms.dropLast, m.len % 4 = 0

instance (ms : List Message) : Decidable (Strided ms) :=
  inferInstanceAs (Decidable (∀ m ∈ ms.dropLast, m.len % 4 = 0))

variable {σ : Type} {visit : Visitor σ}

def Accepts (visit : Visitor σ) : Prop := ∀ state cpu seq event, (visit state cpu seq event).2 = true

def observe (visit : Visitor σ) (state : σ) (o : UInt32 × UInt32 × Option ProcEvent) : σ :=
  (visit state o.1 o.2.1 o.2.2).1

theorem answer_eq (haccept : Accepts visit) {m : Message} (hm : ¬ m.IsRefusal) (state : σ) :
    answer visit m.type m.body state = (m.observation.toList.foldl (observe visit) state, true) := by
  have hno : ¬ IsRefusal m.type m.body := hm
  rw [answer, Message.observation, decide_eq_false hno]
  cases observation m.type m.body with
  | none => rfl
  | some o => exact Prod.ext rfl (haccept state o.1 o.2.1 o.2.2)

theorem walkTurn_message (haccept : Accepts visit) {m : Message} (hm : ¬ m.IsRefusal) (pre post : Bytes) (state : σ) :
    walkTurn (pre ++ (m.bytes ++ post)) visit ⟨pre.length, state⟩ =
      if post.length = 0 then .inr (some (m.observation.toList.foldl (observe visit) state))
      else .inl ⟨pre.length + m.len, m.observation.toList.foldl (observe visit) state⟩ := by
  have hlen := m.length_bytes
  have hhdr : sizeNlmsghdr ≤ m.len := Nat.le_add_right _ _
  have htotal : (pre ++ (m.bytes ++ post)).length = pre.length + (m.len + post.length) := by
    rw [List.length_append, List.length_append, hlen]
  have hdrop (k : Nat) : (pre ++ (m.bytes ++ post)).drop (pre.length + k) = (m.bytes ++ post).drop k := by
    rw [← List.drop_drop, List.drop_left]
  rw [walkTurn_eq (by rw [htotal]; dsimp only; omega)]
  dsimp only
  rw [List.drop_left, m.leValue_len, if_neg (by rw [htotal]; omega), hdrop, hdrop, m.leValue_type, m.take_body,
    answer_eq haccept hm, htotal]
  simp only [Bool.true_eq_false, if_false]
  by_cases hpost : post.length = 0
  · rw [if_pos (by omega), if_pos hpost]
  · rw [if_neg (by omega), if_neg hpost]

theorem walkTurn_end {buf : Bytes} {w : Walk σ} (hin : w.offset ≤ buf.length)
    (hend : buf.length < w.offset + sizeNlmsghdr) : walkTurn buf visit w = .inr (some w.state) := by
  rw [walkTurn, if_neg (by omega), if_pos (by omega)]

theorem headers_end {buf : Bytes} {w : Walk σ} (hin : w.offset ≤ buf.length)
    (hend : buf.length < w.offset + sizeNlmsghdr) : headers buf visit w = [] := by
  rw [headers_last (walkTurn_end hin hend), if_neg (Nat.not_le.mpr hend)]

theorem walk_message_last (haccept : Accepts visit) {m : Message} (hm : ¬ m.IsRefusal) (pre : Bytes) {pad : Bytes}
    (hpad : pad.length < 4) (state : σ) :
    (walk (pre ++ (m.bytes ++ pad)) visit).run ⟨pre.length, state⟩ =
        some (m.observation.toList.foldl (observe visit) state) ∧
      headers (pre ++ (m.bytes ++ pad)) visit ⟨pre.length, state⟩ = [pre.length] := by
  have hsize : sizeNlmsghdr = 16 := rfl
  have hhdr : sizeNlmsghdr ≤ m.len := Nat.le_add_right _ _
  have htotal : (pre ++ (m.bytes ++ pad)).length = pre.length + (m.len + pad.length) := by
    rw [List.length_append, List.length_append, m.length_bytes]
  have hturn := walkTurn_message haccept hm pre pad state
  by_cases hnil : pad.length = 0
  · rw [if_pos hnil] at hturn
    refine ⟨run_walk_last hturn, ?_⟩
    rw [headers_last hturn, if_pos (by dsimp only; omega)]
  · rw [if_neg hnil] at hturn
    have hin : pre.length + m.len ≤ (pre ++ (m.bytes ++ pad)).length := by omega
    have hend : (pre ++ (m.bytes ++ pad)).length < pre.length + m.len + sizeNlmsghdr := by omega
    refine ⟨?_, ?_⟩
    · rw [run_walk_next hturn]
      exact run_walk_last (walkTurn_end hin hend)
    · rw [headers_next hturn, headers_end hin hend]

theorem LaidOut.length_le {m : Message} {ms : List Message} {buf : Bytes} (h : LaidOut (m :: ms) buf) :
    sizeNlmsghdr ≤ buf.length := by
  have hlen := m.length_bytes
  rw [Message.len] at hlen
  cases h with
  | last =>
      rw [List.length_append]
      omega
  | cons =>
      rw [List.length_append]
      omega

theorem walkTurn_message_next (haccept : Accepts visit) {m next : Message} (hm : ¬ m.IsRefusal) (pre pad : Bytes)
    {ms : List Message} {buf : Bytes} (hrest : LaidOut (next :: ms) buf) (state : σ) :
    walkTurn (pre ++ (m.bytes ++ (pad ++ buf))) visit ⟨pre.length, state⟩ =
      .inl ⟨pre.length + m.len, m.observation.toList.foldl (observe visit) state⟩ := by
  have hsize : sizeNlmsghdr = 16 := rfl
  have hbuf := hrest.length_le
  rw [walkTurn_message haccept hm, if_neg (by rw [List.length_append]; omega)]

section Walked

variable {ms : List Message} {buf : Bytes}

theorem Strided.tail {m next : Message} (h : Strided (m :: next :: ms)) : m.len % 4 = 0 ∧ Strided (next :: ms) := by
  rw [Strided, List.dropLast_cons_cons, List.forall_mem_cons] at h
  exact h

theorem padding_eq_nil {m : Message} {pad : Bytes} (hpad : pad.length < 4) (haligned : (m.len + pad.length) % 4 = 0)
    (hm : m.len % 4 = 0) : pad = [] := List.length_eq_zero_iff.mp (by omega)

theorem run_laidOut (haccept : Accepts visit) (h : LaidOut ms buf) (hno : ∀ m ∈ ms, ¬ m.IsRefusal)
    (hstrided : Strided ms) (pre : Bytes) (state : σ) :
    (walk (pre ++ buf) visit).run ⟨pre.length, state⟩ =
      some ((ms.filterMap Message.observation).foldl (observe visit) state) := by
  induction h generalizing pre state with
  | nil =>
      rw [List.append_nil]
      exact run_walk_last (walkTurn_end (Nat.le_refl _) (Nat.lt_add_of_pos_right (by decide)))
  | @last m pad hpad =>
      rw [(walk_message_last haccept (hno m (List.mem_singleton.mpr rfl)) pre hpad state).1]
      cases hobs : m.observation <;> simp [hobs]
  | @cons m pad next ms buf hpad haligned hrest ih =>
      obtain ⟨hm, htail⟩ := hstrided.tail
      obtain rfl := padding_eq_nil hpad haligned hm
      have hturn := walkTurn_message_next haccept (hno m (List.mem_cons_self ..)) pre [] hrest state
      have hnext := ih (fun m hm => hno m (List.mem_cons_of_mem _ hm)) htail (pre ++ m.bytes)
        (m.observation.toList.foldl (observe visit) state)
      rw [List.append_assoc, List.length_append, m.length_bytes] at hnext
      rw [run_walk_next hturn, List.nil_append, hnext]
      cases hobs : m.observation <;> simp [hobs]

end Walked

end Datagram

section Decoding

variable {σ ρ : Type} {visit : Visitor σ} {ms : List Message} {buf : Bytes}

theorem mem_headers {w : Walk σ} (hroom : w.offset + sizeNlmsghdr ≤ buf.length) : w.offset ∈ headers buf visit w := by
  cases hturn : walkTurn buf visit w with
  | inl t =>
      rw [headers_next hturn]
      exact List.mem_cons_self ..
  | inr r =>
      rw [headers_last hturn, if_pos hroom]
      exact List.mem_singleton.mpr rfl

theorem strided_iff_headers (haccept : Accepts visit) (h : LaidOut ms buf) (hno : ∀ m ∈ ms, ¬ m.IsRefusal)
    (pre : Bytes) (hpre : pre.length % 4 = 0) (state : σ) :
    Strided ms ↔ ∀ offset ∈ headers (pre ++ buf) visit ⟨pre.length, state⟩, offset % 4 = 0 := by
  induction h generalizing pre state with
  | nil =>
      rw [List.append_nil, headers_end (Nat.le_refl _) (Nat.lt_add_of_pos_right (by decide))]
      exact iff_of_true (List.forall_mem_nil _) (List.forall_mem_nil _)
  | @last m pad hpad =>
      rw [(walk_message_last haccept (hno m (List.mem_singleton.mpr rfl)) pre hpad state).2]
      exact iff_of_true (List.forall_mem_nil _) (List.forall_mem_singleton.mpr hpre)
  | @cons m pad next ms buf hpad haligned hrest ih =>
      have hlen := m.length_bytes
      have hbuf := hrest.length_le
      have hturn := walkTurn_message_next haccept (hno m (List.mem_cons_self ..)) pre pad hrest state
      have hgo (hm : m.len % 4 = 0) := ih (fun m hm => hno m (List.mem_cons_of_mem _ hm)) (pre ++ m.bytes)
        (by rw [List.length_append]; omega) (m.observation.toList.foldl (observe visit) state)
      rw [headers_next hturn, List.forall_mem_cons]
      constructor
      · intro hstrided
        obtain ⟨hm, htail⟩ := hstrided.tail
        obtain rfl := padding_eq_nil hpad haligned hm
        have hheaders := (hgo hm).mp htail
        rw [List.append_assoc, List.length_append, hlen] at hheaders
        exact ⟨hpre, hheaders⟩
      · rintro ⟨-, hheaders⟩
        have hm : m.len % 4 = 0 := by
          have hnext := hheaders (pre.length + m.len) (mem_headers (by simp only [List.length_append]; omega))
          omega
        obtain rfl := padding_eq_nil hpad haligned hm
        have htail := hgo hm
        rw [List.append_assoc, List.length_append, hlen] at htail
        rw [Strided, List.dropLast_cons_cons, List.forall_mem_cons]
        exact ⟨hm, htail.mpr hheaders⟩

/-- What the messages say of the sequence numbers, and the events they carry. -/
def notesOf (ms : List Message) : List (UInt32 × UInt32) :=
  (ms.filterMap Message.observation).map fun o => (o.1, o.2.1)

def eventsOf (ms : List Message) : List ProcEvent := (ms.filterMap Message.observation).filterMap fun o => o.2.2

theorem foldl_forward {emit : ρ → ProcEvent → ρ × Bool} (haccept : ∀ sink event, (emit sink event).2 = true)
    (seen : List (UInt32 × UInt32 × Option ProcEvent)) (f : Forward ρ) :
    seen.foldl (observe (forwardVisitor emit)) f =
      ⟨f.seqs.noteAll (seen.map fun o => (o.1, o.2.1)),
        (seen.filterMap fun o => o.2.2).foldl (fun sink event => (emit sink event).1) f.sink,
        f.forwarded + (seen.filterMap fun o => o.2.2).length⟩ := by
  induction seen generalizing f with
  | nil => rfl
  | cons o seen ih =>
      obtain ⟨cpu, seq, event⟩ := o
      rw [List.foldl_cons, ih]
      cases event with
      | none => rfl
      | some event =>
          have hstep : observe (forwardVisitor emit) f (cpu, seq, some event) =
              ⟨(f.seqs.note cpu seq).1, (emit f.sink event).1, f.forwarded + 1⟩ := by
            simp [observe, forwardVisitor, haccept]
          have hevents : (((cpu, seq, some event) :: seen).filterMap fun o => o.2.2) =
              event :: seen.filterMap fun o => o.2.2 := rfl
          rw [hstep, hevents, List.length_cons, ← Nat.add_assoc, Nat.add_right_comm]
          rfl

theorem accepts_forwardVisitor {emit : ρ → ProcEvent → ρ × Bool}
    (haccept : ∀ sink event, (emit sink event).2 = true) : Accepts (forwardVisitor emit) := by
  intro f cpu seq event
  cases event with
  | none => rfl
  | some event => simp [forwardVisitor, haccept]

theorem forwardProcEvents_eq {emit : ρ → ProcEvent → ρ × Bool} (haccept : ∀ sink event, (emit sink event).2 = true)
    (h : LaidOut ms buf) (hno : ∀ m ∈ ms, ¬ m.IsRefusal) (hstrided : Strided ms) (seqs : SeqTracker) (sink : ρ) :
    forwardProcEvents buf seqs emit sink =
      some ⟨seqs.noteAll (notesOf ms), (eventsOf ms).foldl (fun sink event => (emit sink event).1) sink,
        (eventsOf ms).length⟩ := by
  have hrun := run_laidOut (accepts_forwardVisitor haccept) h hno hstrided [] ⟨seqs, sink, 0⟩
  rw [List.nil_append, List.length_nil] at hrun
  rw [forwardProcEvents, walkProcMessages, hrun, foldl_forward haccept, Nat.zero_add]
  rfl

/-- Without padding between the messages of a datagram every event and every sequence number arrives,
and only then does the walk stay on the messages. On any bytes at all it ends without a panic and reads no
more headers than fit. -/
theorem datagram_decoded (ms : List Message) (buf : Bytes) :
    (LaidOut ms buf → (∀ m ∈ ms, ¬ m.IsRefusal) →
      (Strided ms → ∀ (ρ : Type) (emit : ρ → ProcEvent → ρ × Bool) (seqs : SeqTracker) (sink : ρ),
        (∀ sink event, (emit sink event).2 = true) →
          forwardProcEvents buf seqs emit sink =
            some ⟨seqs.noteAll (notesOf ms), (eventsOf ms).foldl (fun sink event => (emit sink event).1) sink,
              (eventsOf ms).length⟩) ∧
      ∀ (σ : Type) (visit : Visitor σ) (state : σ), Accepts visit →
        (Strided ms ↔ ∀ offset ∈ headers buf visit ⟨0, state⟩, offset % 4 = 0)) ∧
    ∀ (σ : Type) (visit : Visitor σ) (state : σ),
      (walkProcMessages buf visit state).isSome ∧
        (headers buf visit ⟨0, state⟩).length ≤ buf.length / sizeNlmsghdr := by
  refine ⟨fun h hno => ⟨fun hstrided ρ emit seqs sink haccept => ?_, fun σ visit state haccept => ?_⟩,
    fun σ visit state => ⟨walk_isSome buf visit state, ?_⟩⟩
  · exact forwardProcEvents_eq haccept h hno hstrided seqs sink
  · exact strided_iff_headers haccept h hno [] rfl state
  · have hcount := length_headers buf visit ⟨0, state⟩
    exact (Nat.le_div_iff_mul_le (by decide)).mpr hcount

/-- A data message with the fields of a process event in front. -/
def procMessage (seq cpu what pid : Nat) (tail : Bytes) (htail : tail.length < 100) : Message where
  type := 3
  rest := List.replicate 10 0
  body := leBytes 4 1 ++ leBytes 4 1 ++ leBytes 4 seq ++ leBytes 8 0 ++ leBytes 4 what ++ leBytes 4 cpu ++
    leBytes 8 0 ++ leBytes 4 pid ++ tail
  type_lt := by decide
  rest_length := rfl
  length_lt := by
    simp only [List.length_append, length_leBytes, sizeNlmsghdr]
    omega

def firstExec : Message := procMessage 10 0 2 111 [] (by decide)

/-- One byte more than the event needs, so that three bytes of padding follow it. -/
def oddExec : Message := procMessage 10 0 2 111 [0] (by decide)

def secondExec : Message := procMessage 20 1 2 222 [] (by decide)

def collect (sink : List ProcEvent) (event : ProcEvent) : List ProcEvent × Bool := (sink ++ [event], true)

theorem not_isRefusal {m : Message} (h : m.type ≠ nlmsgError) : ¬ m.IsRefusal := fun hm => h hm.1

theorem datagram_decoded_execs :
    forwardProcEvents (firstExec.bytes ++ ([] ++ (secondExec.bytes ++ []))) {} collect [] =
      some ⟨SeqTracker.noteAll {} [(0, 10), (1, 20)], [.exec 111, .exec 222], 2⟩ := by
  have hlay : LaidOut [firstExec, secondExec] (firstExec.bytes ++ ([] ++ (secondExec.bytes ++ []))) :=
    .cons firstExec (by decide) (by decide) (.last secondExec (by decide))
  have hno : ∀ m ∈ [firstExec, secondExec], ¬ m.IsRefusal :=
    List.forall_mem_cons.mpr ⟨not_isRefusal (by decide), List.forall_mem_singleton.mpr (not_isRefusal (by decide))⟩
  exact ((datagram_decoded _ _).1 hlay hno).1 (by decide) _ collect {} [] fun _ _ => rfl

def paddedExecs : Bytes := oddExec.bytes ++ ([0, 0, 0] ++ (secondExec.bytes ++ []))

/-- The length of the second message is read three bytes too early and is too large for the buffer. -/
theorem second_event_lost :
    LaidOut [oddExec, secondExec] paddedExecs ∧ (∀ m ∈ [oddExec, secondExec], ¬ m.IsRefusal) ∧
      eventsOf [oddExec, secondExec] = [.exec 111, .exec 222] ∧
      (forwardProcEvents paddedExecs {} collect []).map Forward.sink = some [.exec 111] := by
  have hno : ∀ m ∈ [oddExec, secondExec], ¬ m.IsRefusal :=
    List.forall_mem_cons.mpr ⟨not_isRefusal (by decide), List.forall_mem_singleton.mpr (not_isRefusal (by decide))⟩
  refine ⟨.cons oddExec (by decide) (by decide) (.last secondExec (by decide)), hno, by decide, ?_⟩
  have haccept : Accepts (forwardVisitor collect) := accepts_forwardVisitor fun _ _ => rfl
  have hlate : paddedExecs.length - oddExec.len < leValue ((paddedExecs.drop oddExec.len).take 4) := by decide
  have hturns (f : Forward (List ProcEvent)) :
      (walk paddedExecs (forwardVisitor collect)).run ⟨0, f⟩ =
        some (oddExec.observation.toList.foldl (observe (forwardVisitor collect)) f) := by
    have hfirst := walkTurn_message haccept (hno oddExec (List.mem_cons_self ..)) []
      ([0, 0, 0] ++ (secondExec.bytes ++ [])) f
    rw [if_neg (by decide), List.nil_append, List.length_nil, Nat.zero_add, ← paddedExecs] at hfirst
    rw [run_walk_next hfirst]
    refine run_walk_last ((walkTurn_eq ?_).trans (if_pos (.inr hlate)))
    exact (show oddExec.len + sizeNlmsghdr ≤ paddedExecs.length by decide)
  rw [forwardProcEvents, walkProcMessages, hturns]
  decide

end Decoding

end RichPresence.ProcEvents
