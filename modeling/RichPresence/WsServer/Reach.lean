import Mathlib.Data.List.Induction
import RichPresence.WsServer.Server
import RichPresence.WsServer.Turns

namespace RichPresence.WsServer

open Lib

theorem Conn.Turn.id_eq {limits : Limits} {now : Nat} {cancelled : Bool} {c c' : Conn} {p p' : Port}
    (h : Turn limits now cancelled c p c' p') : c'.id = c.id := by
  cases h <;> rfl

/-- A function on a connection and the port that only ever takes a turn. -/
def Turns (limits : Limits) (f : Conn → Port → Conn × Port) : Prop :=
  ∀ c p, ∃ now cancelled, Conn.Turn limits now cancelled c p (f c p).1 (f c p).2

theorem turns_step (limits : Limits) (now : Nat) (cancelled : Bool) (e : ConnStep) :
    Turns limits (Conn.step limits now cancelled e) :=
  fun c p => ⟨now, cancelled, Conn.turn_step limits now cancelled c p e⟩

theorem turns_abort (limits : Limits) : Turns limits Conn.abort :=
  fun c p => ⟨0, false, Conn.turn_abort limits 0 false c p⟩

/-- What can happen to the connections of a server: one of them takes a turn, the hub
is read from or dropped, permits come and go, and a connection is added. -/
inductive PoolStep (limits : Limits) (P : Pool Conn Port) : Pool Conn Port → Prop
  | turn (f) (i : Nat) (hf : Turns limits f) : PoolStep limits P (P.advance f i)
  | receive : PoolStep limits P { P with shared := { P.shared with hub := P.shared.hub.receive } }
  | dropHub : PoolStep limits P { P with shared := { P.shared with hub := { P.shared.hub with gone := true } } }
  | permits (n : Nat) : PoolStep limits P { P with shared := { P.shared with permits := n } }
  | spawn (id : ClientId) (details) : PoolStep limits P (P.spawn { id := id, details := details })

def Reaches (limits : Limits) : Pool Conn Port → Pool Conn Port → Prop := Relation.ReflTransGen (PoolStep limits)

theorem Reaches.invariant {limits : Limits} {P Q : Pool Conn Port} (h : Reaches limits P Q)
    (I : Pool Conn Port → Prop) (hstep : ∀ P Q, I P → PoolStep limits P Q → I Q) (hP : I P) : I Q := by
  induction h with
  | refl => exact hP
  | tail _ hs ih => exact hstep _ _ ih hs

theorem Reaches.forall_conns {limits : Limits} {P Q : Pool Conn Port} (h : Reaches limits P Q) (K : Conn → Prop)
    (hnew : ∀ id details, K { id := id, details := details })
    (hturn : ∀ {now cancelled c p c' p'}, Conn.Turn limits now cancelled c p c' p' → K c → K c')
    (hP : ∀ c ∈ P.tasks, K c) : ∀ c ∈ Q.tasks, K c := by
  refine h.invariant (fun P => ∀ c ∈ P.tasks, K c) (fun P Q hK hstep => ?_) hP
  cases hstep with
  | turn f i hf =>
      refine Pool.forall_tasks_advance (fun c _ hc => ?_) hK
      obtain ⟨_, _, ht⟩ := hf c P.shared
      exact hturn ht hc
  | receive | dropHub | permits => exact hK
  | spawn id details =>
      intro c hc
      obtain hc | hc := List.mem_append.mp hc
      · exact hK c hc
      · rw [List.mem_singleton.mp hc]; exact hnew id details

/-- The connection that waits to be spawned has done nothing yet. -/
def Accepting.Fresh : Accepting → Prop
  | .spawning c => c = { id := c.id, details := c.details }
  | _ => True

def Accepting.ids : Accepting → List ClientId
  | .spawning c => [c.id]
  | _ => []

namespace Server

def ids (s : Server) : List ClientId := s.conns.tasks.map Conn.id ++ s.accepting.ids

variable {limits : Limits} {id : ClientId} {s : Server}

theorem map_id_advance {f : Conn → Port → Conn × Port} (hf : Turns limits f) (P : Pool Conn Port) (i : Nat) :
    (P.advance f i).tasks.map Conn.id = P.tasks.map Conn.id := by
  refine Pool.map_advance fun c p => ?_
  obtain ⟨_, _, h⟩ := hf c p
  exact h.id_eq

theorem abortAll_keeps (limits : Limits) (tasks : List TaskId) (s : Server) :
    Reaches limits s.conns (s.abortAll tasks).conns ∧
      (s.abortAll tasks).conns.tasks.map Conn.id = s.conns.tasks.map Conn.id ∧
        (s.abortAll tasks).accepting = s.accepting := by
  induction tasks generalizing s with
  | nil => exact ⟨.refl, rfl, rfl⟩
  | cons task tasks ih =>
      obtain ⟨hreach, hids, haccept⟩ := ih (s.abort task)
      cases task with
      | conn i =>
          exact ⟨.head (.turn _ i (turns_abort limits)) hreach,
            hids.trans (map_id_advance (turns_abort limits) s.conns i), haccept⟩
      | reject i => exact ⟨hreach, hids, haccept⟩

/-- What a step does to the connections and their ids, with the number of ids it
draws. -/
structure Effect (limits : Limits) (id : ClientId) (s s' : Server) (drawn : Nat) : Prop where
  reaches : Reaches limits s.conns s'.conns
  fresh : s'.accepting.Fresh
  ids : drawn = 0 ∧ s'.ids.Sublist s.ids ∨ drawn = 1 ∧ s'.ids = s.ids ++ [id]

theorem Effect.of_conns {s' : Server} (hfresh : s.accepting.Fresh) (hreach : Reaches limits s.conns s'.conns)
    (hids : s'.conns.tasks.map Conn.id = s.conns.tasks.map Conn.id) (haccept : s'.accepting = s.accepting) :
    Effect limits id s s' 0 where
  reaches := hreach
  fresh := haccept ▸ hfresh
  ids := by rw [Server.ids, Server.ids, hids, haccept]; exact .inl ⟨rfl, List.Sublist.refl _⟩

theorem Effect.of_accept {s' : Server} (hreach : Reaches limits s.conns s'.conns)
    (hids : s'.conns.tasks.map Conn.id = s.conns.tasks.map Conn.id)
    (hfresh : s'.accepting.Fresh) (hnone : s'.accepting.ids = []) : Effect limits id s s' 0 where
  reaches := hreach
  fresh := hfresh
  ids := by
    rw [Server.ids, Server.ids, hids, hnone, List.append_nil]
    exact .inl ⟨rfl, List.sublist_append_left _ _⟩

theorem Effect.ite {φ : Prop} [Decidable φ] {s₁ s₂ : Server} {drawn : Nat}
    (h₁ : φ → Effect limits id s s₁ drawn) (h₂ : ¬φ → Effect limits id s s₂ drawn) :
    Effect limits id s (if φ then s₁ else s₂) drawn := by
  split
  next h => exact h₁ h
  next h => exact h₂ h

theorem Effect.reindex {id' : ClientId} {s' : Server} {drawn : Nat} (h : Effect limits id s s' drawn)
    (hid : drawn = 1 → id = id') : Effect limits id' s s' drawn :=
  ⟨h.reaches, h.fresh, h.ids.imp_right fun ⟨hdrawn, heq⟩ => ⟨hdrawn, hid hdrawn ▸ heq⟩⟩

theorem effect_self (hfresh : s.accepting.Fresh) : Effect limits id s s 0 := .of_conns hfresh .refl rfl rfl

theorem effect_accept (peer : String) (hfresh : s.accepting.Fresh) :
    Effect limits id s (s.accept id peer) (Process.draws s (.accept peer)) := by
  rw [Process.draws, accept]
  by_cases hpoll : s.accepting = .polling
  · rw [if_pos hpoll]
    by_cases hstop : s.cancelled = true
    · rw [if_pos hstop, if_neg fun h => by simp [h.2.1] at hstop]
      exact .of_accept .refl rfl trivial rfl
    · rw [if_neg hstop]
      by_cases hpermits : s.conns.shared.permits = 0
      · have hadmits : ¬s.Admits := fun h => h.2.2 hpermits
        rw [if_neg hadmits, if_pos hpermits]
        split
        next => exact effect_self hfresh
        next => exact .of_accept .refl rfl trivial rfl
      · rw [if_neg hpermits, if_pos ⟨hpoll, by simpa using hstop, hpermits⟩]
        refine ⟨.single (.permits _), rfl, .inr ⟨rfl, ?_⟩⟩
        simp [ids, setPort, hpoll, Accepting.ids]
  · rw [if_neg hpoll, if_neg fun h => hpoll h.1]
    exact effect_self hfresh

theorem effect_spawn (hfresh : s.accepting.Fresh) : Effect limits id s s.spawn 0 := by
  rw [spawn]
  split
  next c haccept =>
      rw [haccept] at hfresh
      refine ⟨?_, trivial, .inl ⟨rfl, ?_⟩⟩
      · rw [show c = { id := c.id, details := c.details } from hfresh]
        exact .single (.spawn c.id c.details)
      · simp [ids, haccept, Accepting.ids, Pool.spawn]
  next => exact .of_accept .refl rfl trivial rfl
  next => exact effect_self hfresh

theorem effect_abortAccept (limits : Limits) (id : ClientId) (s : Server) : Effect limits id s s.abortAccept 0 := by
  rw [abortAccept]
  split
  next => exact .of_accept (.single (.permits _)) rfl trivial rfl
  next => exact .of_accept .refl rfl trivial rfl
  next => exact .of_accept .refl rfl trivial rfl

theorem effect_step (limits : Limits) (now : Nat) (id : ClientId) (e : ServerStep) (hfresh : s.accepting.Fresh) :
    Effect limits id s (s.step limits now id e) (Process.draws s e) := by
  have hself : Effect limits id s s 0 := effect_self hfresh
  cases e with
  | accept peer => exact effect_accept peer hfresh
  | acceptError error =>
      refine .ite (fun _ => .ite (fun _ => ?_) fun _ => .ite (fun _ => ?_) fun _ => hself) fun _ => hself
      · exact .of_accept .refl rfl trivial rfl
      · exact .of_accept .refl rfl trivial rfl
  | resume => exact .ite (fun _ => .of_accept .refl rfl trivial rfl) fun _ => hself
  | spawn => exact effect_spawn hfresh
  | stopAccepting => exact .ite (fun _ => .of_accept .refl rfl trivial rfl) fun _ => hself
  | conn i e =>
      exact .of_conns hfresh (.single (.turn _ i (turns_step limits now s.cancelled e)))
        (map_id_advance (turns_step limits now s.cancelled e) s.conns i) rfl
  | reject i e => exact .of_conns hfresh .refl rfl rfl
  | receive => exact .of_conns hfresh (.single .receive) rfl rfl
  | dropHub => exact .of_conns hfresh (.single .dropHub) rfl rfl
  | shutdown => exact .ite (fun _ => .of_conns hfresh .refl rfl rfl) fun _ => hself
  | takeTasks timedOut => exact .ite (fun _ => .of_conns hfresh .refl rfl rfl) fun _ => hself
  | finish timedOut =>
      rw [step, finish]
      split
      next owned _ =>
          refine .ite (fun _ => ?_) fun _ => hself
          obtain ⟨hreach, hids, haccept⟩ := abortAll_keeps limits owned s
          exact .of_conns hfresh hreach hids haccept
      next => exact hself
  | drop =>
      refine .ite (fun _ => ?_) fun _ => hself
      obtain ⟨hreach, hfresh', hids⟩ := effect_abortAccept limits id s
      exact ⟨hreach, hfresh', hids⟩
  | dropTasks =>
      refine .ite (fun _ => ?_) fun _ => hself
      obtain ⟨hreach, hids, haccept⟩ := abortAll_keeps limits s.joinSet s
      exact .of_conns hfresh hreach hids haccept

end Server

namespace Process

variable {limits : Nat → Limits} {p : Process}

/-- The connections of every server have come about by steps of its pool. -/
def Reached (limits : Nat → Limits) (p : Process) : Prop :=
  ∀ k, (p.servers k).accepting.Fresh ∧ Reaches (limits k) (Server.bind (limits k)).conns (p.servers k).conns

theorem reached_run (limits : Nat → Limits) (steps : List ProcessStep) : Reached limits (run limits steps) := by
  refine List.foldlRecOn (motive := Reached limits) steps (step limits) (fun k => ⟨trivial, .refl⟩)
    fun p h e _ k => ?_
  cases e with
  | elapse ms => exact h k
  | server j e =>
      by_cases hk : k = j
      · subst hk
        have heffect := Server.effect_step (limits k) p.clock (p.issued % 2 ^ 64) e (h k).1
        simp only [step, Function.update_self]
        exact ⟨heffect.fresh, (h k).2.trans heffect.reaches⟩
      · simp only [step, Function.update_of_ne hk]
        exact h k

/-- Every id belongs to one connection of one server. -/
structure Distinct (p : Process) : Prop where
  below : ∀ k, ∀ id ∈ (p.servers k).ids, id < p.issued
  nodup : ∀ k, (p.servers k).ids.Nodup
  apart : ∀ j k, j ≠ k → (p.servers j).ids.Disjoint (p.servers k).ids

theorem distinct_start (limits : Nat → Limits) : Distinct (start limits) where
  below k id h := by cases h
  nodup _ := List.nodup_nil
  apart j k _ := List.disjoint_nil_left _

theorem Distinct.server (h : Distinct p) {k : Nat} {s : Server} {drawn : Nat}
    (hs : Server.Effect (limits k) p.issued (p.servers k) s drawn) :
    Distinct { p with issued := p.issued + drawn, servers := Function.update p.servers k s } := by
  have hnew : p.issued ∉ (p.servers k).ids := fun hmem => Nat.lt_irrefl _ (h.below k _ hmem)
  have hids : ∀ id ∈ s.ids, id ∈ (p.servers k).ids ∨ drawn = 1 ∧ id = p.issued := by
    intro id hid
    obtain ⟨_, hsub⟩ | ⟨hdrawn, heq⟩ := hs.ids
    · exact .inl (hsub.subset hid)
    · rw [heq, List.mem_append, List.mem_singleton] at hid
      exact hid.imp_right fun hid => ⟨hdrawn, hid⟩
  have hapart : ∀ j, j ≠ k → s.ids.Disjoint (p.servers j).ids := by
    intro j hj id hid hid'
    obtain hid | ⟨_, rfl⟩ := hids id hid
    · exact h.apart j k hj hid' hid
    · exact Nat.lt_irrefl _ (h.below j _ hid')
  have hself : Function.update p.servers k s k = s := Function.update_self ..
  have hother : ∀ j, j ≠ k → Function.update p.servers k s j = p.servers j := fun j hj => Function.update_of_ne hj ..
  refine ⟨fun j id hid => ?_, fun j => ?_, fun i j hij => ?_⟩
  all_goals dsimp only at *
  · by_cases hj : j = k
    · rw [hj, hself] at hid
      obtain hid | ⟨rfl, rfl⟩ := hids id hid
      · exact Nat.lt_add_right drawn (h.below k id hid)
      · exact Nat.lt_succ_self _
    · rw [hother j hj] at hid
      exact Nat.lt_add_right drawn (h.below j id hid)
  · by_cases hj : j = k
    · rw [hj, hself]
      obtain ⟨_, hsub⟩ | ⟨_, heq⟩ := hs.ids
      · exact hsub.nodup (h.nodup k)
      · rw [heq, ← List.concat_eq_append]
        exact (h.nodup k).concat hnew
    · rw [hother j hj]; exact h.nodup j
  · by_cases hi : i = k
    · rw [hi, hself, hother j (hi ▸ hij.symm)]
      exact hapart j (hi ▸ hij.symm)
    · by_cases hj : j = k
      · rw [hj, hself, hother i hi]
        exact fun _ hid hid' => hapart i hi hid' hid
      · rw [hother i hi, hother j hj]; exact h.apart i j hij

theorem issued_le_step (p : Process) (e : ProcessStep) : p.issued ≤ (step limits p e).issued := by
  cases e with
  | elapse ms => exact Nat.le_refl _
  | server k e => exact Nat.le_add_right _ _

theorem Distinct.step (h : Distinct p) (hreached : Reached limits p) (e : ProcessStep)
    (hroom : (step limits p e).issued ≤ 2 ^ 64) : Distinct (step limits p e) := by
  cases e with
  | elapse ms => exact ⟨h.below, h.nodup, h.apart⟩
  | server k e =>
      refine h.server ((Server.effect_step (limits k) p.clock _ e (hreached k).1).reindex fun hdrawn => ?_)
      rw [Process.step, hdrawn] at hroom
      exact Nat.mod_eq_of_lt hroom

/-- As long as the counter has not wrapped, no two connections of the process have the
same id, whichever servers they belong to. -/
theorem distinct_run (limits : Nat → Limits) (steps : List ProcessStep) (hroom : (run limits steps).issued ≤ 2 ^ 64) :
    Distinct (run limits steps) := by
  induction steps using List.reverseRecOn with
  | nil => exact distinct_start limits
  | append_singleton steps e ih =>
      have hrun : run limits (steps ++ [e]) = step limits (run limits steps) e := List.foldl_concat ..
      rw [hrun] at hroom ⊢
      exact (ih (Nat.le_trans (issued_le_step _ e) hroom)).step (reached_run limits steps) e hroom

end Process

end RichPresence.WsServer
