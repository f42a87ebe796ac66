import RichPresence.Ipc.Covered

namespace RichPresence.Ipc

def RefusesHandshake (W : Wire) (ending : Ending) (s : Head) : Prop :=
  ∃ message rest data, readPacket ending s.input = .packet .handshake message rest ∧
    W.handshake message = some data ∧ (data.v ≠ 1 ∨ data.clientId = "")

section Turns

variable {W : Wire} {world : Nat → Moment} {ending : Ending} {s t : Head} {out : Pump}

theorem covered_turn (h : s.pump.Covered) (ht : pumpTurn W world ending s = .inl t) : t.pump.Covered := by
  obtain ⟨type, message, rest, -, hd, -, -⟩ := pumpTurn_next ht
  have hpump : t.pump = (s.pump.dispatch W (world s.turn) message type).1 := by rw [hd]
  rw [hpump]
  cases type with
  | handshake =>
      obtain ⟨hsent, hpids, -⟩ := Pump.onHandshake_spec (W := W) (world s.turn).user s.pump message
      exact h.congr hsent hpids
  | frame => exact h.onFrame (world s.turn) message
  | close =>
      simp [Pump.dispatch] at hd
  | ping => exact h.congr rfl rfl
  | pong => exact h

theorem refused_turn (world : Nat → Moment) (h : RefusesHandshake W ending s) :
    ∃ out, pumpTurn W world ending s = .inr out ∧ out.sent = s.pump.sent := by
  obtain ⟨message, rest, data, hp, hw, hr⟩ := h
  obtain ⟨hsent, -, hstop⟩ := Pump.onHandshake_spec (W := W) (world s.turn).user s.pump message
  refine ⟨(s.pump.onHandshake W (world s.turn).user message).1, ?_, hsent⟩
  have hd : s.pump.dispatch W (world s.turn) message .handshake =
      ((s.pump.onHandshake W (world s.turn).user message).1, true) :=
    Prod.ext rfl (hstop.mpr ⟨data, hw, hr⟩)
  simp only [pumpTurn, hp, hd]

theorem last_turn (h : s.pump.Covered) (hr : ¬ RefusesHandshake W ending s)
    (ht : pumpTurn W world ending s = .inr out) (pid : Nat) : shown pid out.sent = none := by
  have hclose (code : Nat) (text : String) : (s.pump.sendClose W code text).Covered := h.congr rfl rfl
  simp only [pumpTurn] at ht
  split at ht
  next =>
      obtain rfl := Sum.inr.inj ht
      exact h.clearAll _
  next =>
      obtain rfl := Sum.inr.inj ht
      exact (hclose _ _).clearAll _
  next =>
      obtain rfl := Sum.inr.inj ht
      exact (hclose _ _).clearAll _
  next type message rest hp =>
      split at ht
      next pump hd =>
          obtain rfl := Sum.inr.inj ht
          cases type with
          | handshake =>
              obtain ⟨-, -, hstop⟩ := Pump.onHandshake_spec (W := W) (world s.turn).user s.pump message
              obtain ⟨data, hw, hrefused⟩ := hstop.mp (congrArg Prod.snd hd)
              exact absurd ⟨message, rest, data, hp, hw, hrefused⟩ hr
          | frame =>
              have hgo := s.pump.onFrame_goes_on (W := W) (world s.turn) message
              exact absurd ((congrArg Prod.snd hd).symm.trans hgo) (by simp)
          | close =>
              obtain rfl := (Prod.mk.inj hd).1
              exact h.onClose
          | ping => simp [Pump.dispatch] at hd
          | pong => simp [Pump.dispatch] at hd
      next => cases ht

end Turns

/-- A lost connection has cleared everything it published exactly when no
refused handshake found a pid that was left with an activity. -/
theorem connection_loss_clears (W : Wire) (world : Nat → Moment) (ending : Ending) (input : Bytes) :
    AllCleared (handleStream W world ending input).sent ↔
      ∀ s, (pumpLoop W world ending).Reaches { input } s → RefusesHandshake W ending s →
        ∀ pid, shown pid s.pump.sent = none := by
  have hcovered (s : Head) (hs : (pumpLoop W world ending).Reaches { input } s) : s.pump.Covered :=
    hs.invariant (fun s => s.pump.Covered) (fun _ _ h ht => covered_turn h ht) (by simp [Pump.Covered, shown])
  rw [allCleared_iff]
  constructor
  · intro hall s hs hrefuses pid
    obtain ⟨out, hb, hsent⟩ := refused_turn world hrefuses
    have hout : handleStream W world ending input = out := hs.run_eq.trans (Lib.Loop.run_last hb)
    rw [← hsent, ← hout]
    exact hall pid
  · intro hcond pid
    obtain ⟨hs, hb⟩ := (pumpLoop W world ending).ends { input }
    generalize (pumpLoop W world ending).last { input } = s at hs hb
    by_cases hrefuses : RefusesHandshake W ending s
    · obtain ⟨out, hb', hsent⟩ := refused_turn world hrefuses
      have hout : out = handleStream W world ending input := Sum.inr.inj (hb'.symm.trans hb)
      rw [← hout, hsent]
      exact hcond s hs hrefuses pid
    · exact last_turn (hcovered s hs) hrefuses hb pid

def greeting : String := "\x7b\"v\":1,\"client_id\":\"1145360\"\x7d"

def staleGreeting : String := "\x7b\"v\":2,\"client_id\":\"1145360\"\x7d"

def playing : String :=
  "\x7b\"cmd\":\"SET_ACTIVITY\",\"args\":\x7b\"pid\":77,\"activity\":\x7b\"details\":\"Elysium\"\x7d\x7d,\"nonce\":\"1\"\x7d"

def sampleWire : Wire where
  handshake message :=
    if message = greeting then some ⟨1, "1145360"⟩
    else if message = staleGreeting then some ⟨2, "1145360"⟩
    else none
  command message :=
    if message = playing then
      some { cmd := "SET_ACTIVITY"
             args := some { pid := some 77, activity := some { details := some "Elysium" } }
             nonce := .string "1" }
    else none
  text v := String.ofList (Serde.valueJson v)

def steadyWire : Wire :=
  { sampleWire with handshake := fun message => if message = greeting then some ⟨1, "1145360"⟩ else none }

theorem steadyWire_refuses_nothing {ending : Ending} {s : Head} : ¬RefusesHandshake steadyWire ending s := by
  rintro ⟨message, rest, data, -, hw, hr⟩
  have hdata : data = ⟨1, "1145360"⟩ := by
    simp only [steadyWire] at hw
    split at hw
    next => exact (Option.some.inj hw).symm
    next => cases hw
  subst hdata
  simp at hr

def noon : Nat → Moment := fun _ => ⟨1763200000, {}⟩

def played : Bytes := encode .handshake greeting ++ encode .frame playing

def oversized : Bytes := toLeBytes 1 ++ toLeBytes (2 ^ 21)

theorem connection_loss_clears_oversized :
    (∃ cmd ∈ (handleStream steadyWire noon .eof (played ++ oversized)).sent, Publishes 77 cmd) ∧
      ClearedAfter 77 (handleStream steadyWire noon .eof (played ++ oversized)).sent := by
  have hpub : ∃ cmd ∈ (handleStream steadyWire noon .eof (played ++ oversized)).sent, Publishes 77 cmd := by
    decide +kernel
  refine ⟨hpub, (connection_loss_clears steadyWire noon .eof (played ++ oversized)).mpr ?_ 77 hpub⟩
  exact fun _ _ hrefuses => absurd hrefuses steadyWire_refuses_nothing

/-- A second handshake with another version ends the pump with the card of pid 77 still shown. -/
theorem refused_handshake_leaves_card :
    ¬ AllCleared (handleStream sampleWire noon .eof (played ++ encode .handshake staleGreeting)).sent := by
  intro h
  have hnone := shown_of_cleared (h 77)
  have hsome : (shown 77 (handleStream sampleWire noon .eof
      (played ++ encode .handshake staleGreeting)).sent).isSome := by decide +kernel
  simp [hnone] at hsome

end RichPresence.Ipc
