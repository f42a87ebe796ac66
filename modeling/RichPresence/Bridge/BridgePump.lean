import RichPresence.Bridge.Frames

namespace RichPresence

open Lib

def replayOf (env : Env) (cache : ReplayCache) : List CachedActivity :=
  (env.walk.order cache.entries).map fun e => e.2.1

def queueFrame (env : Env) (id : ClientId) (sent : List Message) (frame : Message) : List Message :=
  if env.accepts id sent then sent ++ [frame] else sent

def queueReplay (env : Env) (id : ClientId) (protocol : BridgeProtocol) (ready : Message)
    (cached : List CachedActivity) : List Message :=
  (ready :: cached.map (encodeFor protocol)).foldl (queueFrame env id) []

def Shared.register (id : ClientId) (c : Consumer) (s : Shared) : Shared :=
  { s with consumers := s.consumers.insert id c }

/-- A consumer with an allowed origin connects. Its outbox is its own until it is
registered. -/
def onConnect (env : Env) (id : ClientId) (protocol : BridgeProtocol) (ready : Message) : Prog Shared Unit := do
  let cached ← Prog.reads fun s => replayOf env s.cache
  Prog.updates (Shared.register id ⟨protocol, queueReplay env id protocol ready cached⟩)

def refreshOnce (env : Env) : Prog Shared Unit := do
  if ← Prog.reads fun s => s.consumers.keys.isEmpty then
    Prog.updates Shared.setDirty
  else
    let payloads ← Prog.reads fun s => replayOf env s.cache
    if payloads.isEmpty then
      Prog.updates Shared.setDirty
    else
      forM payloads fun payload => Prog.updates (Shared.sendToAll env payload)
      Prog.updates Shared.setDirty

variable {A : Type} (read : Read A) (protocol : BridgeProtocol)

def Filed (cache : ReplayCache) : Prop :=
  ∀ k card, cache.lookup k = some card → card.1.isClear = false ∧ Names read protocol card.1 k

variable {read protocol} {env : Env} {cache : ReplayCache}

theorem displays_cards {l : List (Sigma fun _ : SocketId => CachedActivity × UInt64)} (hl : l.NodupKeys)
    (hcards : ∀ e ∈ l, e.2.1.isClear = false ∧ Names read protocol e.2.1 e.1) (view : View A) :
    (∀ e ∈ l, Displays read protocol ((l.map fun e => encodeFor protocol e.2.1).foldl (View.apply read) view)
      e.1 (some e.2.1)) ∧
    ∀ k, k ∉ l.keys → ∀ x, Displays read protocol
      ((l.map fun e => encodeFor protocol e.2.1).foldl (View.apply read) view) k x ↔
        Displays read protocol view k x := by
  induction l generalizing view with
  | nil => exact ⟨fun e he => (by cases he), fun k _ x => Iff.rfl⟩
  | cons card l ih =>
      obtain ⟨hfirst, hrest⟩ := List.nodupKeys_cons.mp hl
      obtain ⟨hc, hn⟩ := hcards card (by simp)
      obtain ⟨hin, hout⟩ := ih hrest (fun e he => hcards e (List.mem_cons_of_mem _ he))
        (View.apply read view (encodeFor protocol card.2.1))
      constructor
      · intro e he
        rcases List.mem_cons.mp he with rfl | he
        · rw [List.map_cons, List.foldl_cons, hout _ hfirst]
          have hown := displays_own view hn
          rwa [CachedActivity.outcome, hc, if_neg Bool.false_ne_true] at hown
        · exact hin e he
      · intro k hk x
        rw [List.keys_cons, List.mem_cons, not_or] at hk
        rw [List.map_cons, List.foldl_cons, hout k hk.2, displays_other hn hk.1]

theorem displays_replay (env : Env) (h : Filed read protocol cache) (view : View A) (k : SocketId) :
    match cache.lookup k with
    | some card => Displays read protocol
        (((replayOf env cache).map (encodeFor protocol)).foldl (View.apply read) view) k (some card.1)
    | none => ∀ x, Displays read protocol
        (((replayOf env cache).map (encodeFor protocol)).foldl (View.apply read) view) k x ↔
          Displays read protocol view k x := by
  have hperm := env.walk.perm cache.entries
  have hnodup : (env.walk.order cache.entries).NodupKeys := (List.perm_nodupKeys hperm).mpr cache.nodupKeys
  obtain ⟨hin, hout⟩ := displays_cards hnodup
    (fun e he => h e.1 e.2 (AList.mem_lookup_iff.mpr (env.walk.mem_order.mp he))) view
  rw [replayOf, List.map_map]
  cases hk : cache.lookup k with
  | some card => exact hin ⟨k, card⟩ (env.walk.mem_order.mpr (AList.mem_lookup_iff.mp hk))
  | none =>
      apply hout
      intro hmem
      obtain ⟨e, he, rfl⟩ := List.mem_map.mp hmem
      have hsome : cache.lookup e.1 = some e.2 := AList.mem_lookup_iff.mpr (env.walk.mem_order.mp he)
      rw [hk] at hsome
      cases hsome

theorem mirrors_replay (env : Env) (h : Filed read protocol cache) {view : View A}
    (hview : ∀ k, cache.lookup k = none → view k = none) :
    Mirrors read protocol (((replayOf env cache).map (encodeFor protocol)).foldl (View.apply read) view) cache := by
  intro k
  have hk := displays_replay env h view k
  cases hc : cache.lookup k with
  | some card =>
      rw [hc] at hk
      exact hk
  | none =>
      rw [hc] at hk
      exact (hk none).mpr (hview k hc)

section Accepting

variable {id : ClientId} (hacc : ∀ sent, env.accepts id sent = true)

include hacc

theorem queueReplay_accepted (ready : Message) (cached : List CachedActivity) :
    queueReplay env id protocol ready cached = ready :: cached.map (encodeFor protocol) := by
  have hall : ∀ (frames sent : List Message), frames.foldl (queueFrame env id) sent = sent ++ frames := by
    intro frames
    induction frames with
    | nil => simp
    | cons frame frames ih =>
        intro sent
        rw [List.foldl_cons, ih, queueFrame, if_pos (hacc sent), List.append_assoc, List.singleton_append]
  rw [queueReplay, hall, List.nil_append]

theorem sendToAll_accepted {s : Shared} {c : Consumer} (payload : CachedActivity)
    (hc : s.consumers.lookup id = some c) :
    (s.sendToAll env payload).consumers.lookup id =
      some { c with sent := c.sent ++ [encodeFor c.protocol payload] } := by
  rw [Shared.sendToAll, Table.lookup_filterMap, hc, Option.bind_some, Consumer.trySend, if_pos (hacc c.sent)]

theorem sends_accepted {s : Shared} {c : Consumer} (payloads : List CachedActivity)
    (hc : s.consumers.lookup id = some c) :
    ((forM payloads fun payload => Prog.updates (Shared.sendToAll env payload)).exec s).consumers.lookup id =
        some { c with sent := c.sent ++ payloads.map (encodeFor c.protocol) } ∧
      ((forM payloads fun payload => Prog.updates (Shared.sendToAll env payload)).exec s).cache = s.cache := by
  induction payloads generalizing s c with
  | nil => exact ⟨by simpa using hc, rfl⟩
  | cons payload payloads ih =>
      rw [List.forM_cons, Prog.exec_bind, Prog.exec_updates]
      obtain ⟨hconsumer, hcache⟩ := ih (sendToAll_accepted hacc payload hc)
      exact ⟨by simpa using hconsumer, hcache⟩

theorem refreshOnce_accepted {s : Shared} {c : Consumer} (hc : s.consumers.lookup id = some c) :
    ((refreshOnce env).exec s).consumers.lookup id =
        some { c with sent := c.sent ++ (replayOf env s.cache).map (encodeFor c.protocol) } ∧
      ((refreshOnce env).exec s).cache = s.cache := by
  have hkeys : s.consumers.keys.isEmpty = false := by
    have hmem : id ∈ s.consumers.keys := Table.mem_keys_iff_lookup.mpr ⟨c, hc⟩
    rw [List.isEmpty_eq_false_iff]
    exact List.ne_nil_of_mem hmem
  cases hp : (replayOf env s.cache).isEmpty with
  | true =>
      simp only [refreshOnce, Prog.exec_bind, Prog.run_reads, Prog.exec_reads, hkeys, Bool.false_eq_true, if_false,
        List.isEmpty_iff.mp hp]
      exact ⟨by simpa [Shared.setDirty] using hc, rfl⟩
  | false =>
      simp only [refreshOnce, Prog.exec_bind, Prog.run_reads, Prog.exec_reads, hkeys, hp, Bool.false_eq_true,
        if_false, Prog.exec_updates]
      exact sends_accepted hacc _ hc

end Accepting

end RichPresence
