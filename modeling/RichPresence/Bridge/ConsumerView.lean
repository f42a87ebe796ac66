import RichPresence.Bridge.Followed

namespace RichPresence

open Lib

variable {A : Type} {read : Read A} {id : ClientId} {protocol : BridgeProtocol} {C : Codec} {env : Env}
  {cmd : ActivityCmd} {s : Shared}

/-- A consumer that was there before the run and has not refused a frame shows
exactly what the cache holds, in every run whose inputs never overfill it. -/
theorem consumer_mirrors_cache (hread : Reads read C protocol) {consumers : Table ClientId Consumer}
    (hstart : ∀ c, consumers.lookup id = some c → c.protocol = protocol ∧ ∀ k, viewOf read c.sent k = none)
    {es pre : List Event} (hfit : Along (RichPresence.step C) (CardsFit C) { consumers := consumers } es)
    (hpre : pre <+: es) {c : Consumer}
    (hc : (runFrom C { consumers := consumers } pre).consumers.lookup id = some c) :
    Mirrors read protocol (viewOf read c.sent) (runFrom C { consumers := consumers } pre).cache := by
  have hend := (hfit.initial hpre).invariant (Followed read id protocol)
    (fun _ _ hs he => hs.step hread he) (Followed.start hstart)
  exact (hend c hc).2

variable (read id protocol) in
def ShownAt (k : SocketId) (a : Option A) (s : Shared) : Prop :=
  ∀ c, s.consumers.lookup id = some c → c.protocol = protocol ∧ viewOf read c.sent k = a

namespace ShownAt

variable {k : SocketId} {a : Option A}

theorem announce (hread : Reads read C protocol) (h : ShownAt read id protocol k a s) {changed : Bool}
    (hk : changed = true → k ≠ SocketId.ofPid cmd.pid) :
    ShownAt read id protocol k a (announce C env cmd s changed) := by
  cases changed with
  | false => exact h
  | true =>
      rw [RichPresence.announce, if_pos rfl]
      cases hp : sdkCard C env cmd with
      | none => exact h
      | some payload =>
          intro c' hl
          rw [broadcastActivity_consumers, Option.bind_eq_some_iff] at hl
          obtain ⟨c, hc, hsend⟩ := hl
          obtain ⟨rfl, hv⟩ := h c hc
          obtain ⟨x, _, hr⟩ := sdkCard_names hread hp
          rw [trySend_eq hsend, viewOf_concat, View.apply_names hr, Function.update_of_ne (hk rfl)]
          exact ⟨rfl, hv⟩

theorem publish (hread : Reads read C protocol) (h : ShownAt read id protocol k a s)
    (ha : cmd.activity.isSome) (hk : k ≠ SocketId.ofPid cmd.pid) :
    ShownAt read id protocol k a ((handleSetActivity C env cmd).exec s) := by
  cases hd : dropped C env cmd s with
  | true =>
      rw [handleSetActivity_dropped hd]
      exact h
  | false =>
      rw [handleSetActivity_publish ha hd]
      apply announce hread _ fun _ => hk
      intro c hc
      rw [claimed_consumers] at hc
      exact h c hc

end ShownAt

def watcher : Table ClientId Consumer := AList.singleton 0 ⟨.json, []⟩

def crowd (first n : Nat) : List Event :=
  (List.range' first n).map fun pid => .publish (.calm (fun _ => true) pid) ⟨"1145360"⟩ pid "In the House"

theorem crowd_append (first m n : Nat) : crowd first (m + n) = crowd first m ++ crowd (first + m) n := by
  rw [crowd, crowd, crowd, ← List.map_append, List.range'_append_1]

theorem crowd_shown (hread : Reads read C protocol) {a : Option A} {pid first : Nat} (hpid : pid < first) (n : Nat)
    (h : ShownAt read id protocol (SocketId.ofPid pid) a s) :
    ShownAt read id protocol (SocketId.ofPid pid) a (runFrom C s (crowd first n)) := by
  induction n generalizing first s with
  | zero => exact h
  | succ n ih =>
      apply ih (Nat.lt_succ_of_lt hpid)
      apply h.publish hread rfl
      intro he
      have hp : pid = first := SocketId.ofPid_injective he
      omega

def left : Event := .clear (.calm (fun _ => true) 60) none 1

theorem crowd_evicts :
    ((runFrom Serde.codec { consumers := watcher } (crowd 1 51)).cache.lookup (SocketId.ofPid 1)).isNone = true ∧
      (runFrom Serde.codec { consumers := watcher } (crowd 1 51)).handoff.lastScans.keys = [] ∧
      ((runFrom Serde.codec { consumers := watcher } (crowd 1 51)).consumers.lookup 0).isSome = true := by
  decide +kernel

theorem runFrom_append (C : Codec) (s : Shared) (es fs : List Event) :
    runFrom C s (es ++ fs) = runFrom C (runFrom C s es) fs := List.foldl_append

theorem runFrom_concat (C : Codec) (s : Shared) (es : List Event) (e : Event) :
    runFrom C s (es ++ [e]) = step C (runFrom C s es) e := runFrom_append C s es [e]

theorem watcher_followed (read : Read A) : Followed read 0 .json { consumers := watcher } := by
  apply Followed.start
  intro c hc
  obtain rfl : (⟨.json, []⟩ : Consumer) = c := Option.some.inj hc
  exact ⟨rfl, fun _ => rfl⟩

theorem Followed.shownAt (h : Followed read id protocol s) {c : Consumer} {k : SocketId}
    (hc : s.consumers.lookup id = some c) (hk : (s.cache.lookup k).isSome = true) :
    ∃ a, ShownAt read id protocol k (some a) s := by
  obtain ⟨card, hcard⟩ := Option.isSome_iff_exists.mp hk
  obtain ⟨hp, hm⟩ := h c hc
  have hmk := hm k
  rw [hcard] at hmk
  obtain ⟨a, _, ha⟩ := hmk
  refine ⟨a, fun c' hc' => ?_⟩
  obtain rfl : c = c' := Option.some.inj (hc.symm.trans hc')
  exact ⟨hp, ha⟩

theorem left_absent (hgone : s.cache.lookup (SocketId.ofPid 1) = none) (hscans : s.handoff.lastScans.keys = []) :
    (step Serde.codec s left).consumers = s.consumers ∧ (step Serde.codec s left).cache = s.cache := by
  have hnone : resumable left.env (.clear none 1) s = [] := by
    rw [resumable, List.filter_eq_nil_iff]
    intro game hm
    have hscan : game.id ∈ s.handoff.lastScans.keys :=
      Table.mem_keys_iff_lookup.mpr ⟨game, (mem_releaseSlots.mp hm).2.2⟩
    rw [hscans] at hscan
    cases hscan
  have hexec : step Serde.codec s left =
      released left.env (.clear none 1) (recorded Serde.codec left.env (.clear none 1) s) := by
    have hrec : resumable left.env (.clear none 1) (recorded Serde.codec left.env (.clear none 1) s) = [] := hnone
    have hchanged : differs (s.cache.lookup (SocketId.ofPid (ActivityCmd.clear none 1).pid)) none = false := by
      rw [show (ActivityCmd.clear none 1).pid = 1 from rfl, hgone]
      rfl
    refine (handleSetActivity_clear rfl rfl).trans ?_
    rw [hchanged, resumeAfterClear_genuine rfl, hrec]
    rfl
  rw [hexec]
  exact ⟨rfl, rfl⟩

theorem left_kept {a : List Char} (hgone : s.cache.lookup (SocketId.ofPid 1) = none)
    (hscans : s.handoff.lastScans.keys = []) (hreg : (s.consumers.lookup 0).isSome = true)
    (hshown : ShownAt Serde.readText 0 .json (SocketId.ofPid 1) (some a) s) :
    ∃ c, (step Serde.codec s left).consumers.lookup 0 = some c ∧
      ¬Mirrors Serde.readText .json (viewOf Serde.readText c.sent) (step Serde.codec s left).cache := by
  obtain ⟨hconsumers, hcache⟩ := left_absent hgone hscans
  obtain ⟨c, hc⟩ := Option.isSome_iff_exists.mp hreg
  rw [hconsumers, hcache]
  refine ⟨c, hc, fun hm => ?_⟩
  have hk : viewOf Serde.readText c.sent (SocketId.ofPid 1) = none := by
    have h := hm (SocketId.ofPid 1)
    rwa [hgone] at h
  rw [(hshown c hc).2] at hk
  cases hk

theorem first_shown : ∃ a, ShownAt Serde.readText 0 .json (SocketId.ofPid 1) (some a)
    (runFrom Serde.codec { consumers := watcher } (crowd 1 1)) := by
  have hstart := watcher_followed Serde.readText
  have hfit : Along (step Serde.codec) (CardsFit Serde.codec) { consumers := watcher } (crowd 1 1) := by
    decide +kernel
  have hend := hfit.invariant _ (fun _ _ hs he => hs.step Serde.codec_reads he) hstart
  have hreg : ((runFrom Serde.codec { consumers := watcher } (crowd 1 1)).consumers.lookup 0).isSome = true := by
    decide +kernel
  obtain ⟨c, hc⟩ := Option.isSome_iff_exists.mp hreg
  exact Followed.shownAt hend hc (by decide +kernel)

/-- The first client's card is pushed out of the cache when the 51st client
publishes; the clear it sends when it leaves is not passed on, and the consumer
keeps the card. -/
theorem evicted_card_stays :
    ∃ c, (runFrom Serde.codec { consumers := watcher } (crowd 1 51 ++ [left])).consumers.lookup 0 = some c ∧
      ¬Mirrors Serde.readText .json (viewOf Serde.readText c.sent)
        (runFrom Serde.codec { consumers := watcher } (crowd 1 51 ++ [left])).cache := by
  obtain ⟨hgone, hscans, hreg⟩ := crowd_evicts
  rw [Option.isNone_iff_eq_none] at hgone
  obtain ⟨a, hfirst⟩ := first_shown
  have hcrowd := crowd_shown Serde.codec_reads (Nat.lt_succ_self 1) 50 hfirst
  rw [← runFrom_append, ← crowd_append 1 1 50] at hcrowd
  rw [runFrom_concat]
  exact left_kept hgone hscans hreg hcrowd

def visit : List Event :=
  [.detected (.calm (fun _ => true) 0) hades,
    .publish (.calm (fun _ => true) 1) ⟨"1145360"⟩ 77 "In the House", .clear (.calm (fun _ => true) 2) none 77]

theorem consumer_mirrors_cache_visit :
    ∃ c, (runFrom Serde.codec { consumers := watcher } visit).consumers.lookup 0 = some c ∧
      Mirrors Serde.readText .json (viewOf Serde.readText c.sent)
        (runFrom Serde.codec { consumers := watcher } visit).cache := by
  have hreg : ((runFrom Serde.codec { consumers := watcher } visit).consumers.lookup 0).isSome = true := by
    decide +kernel
  have hfit : Along (step Serde.codec) (CardsFit Serde.codec) { consumers := watcher } visit := by decide +kernel
  obtain ⟨c, hc⟩ := Option.isSome_iff_exists.mp hreg
  exact ⟨c, hc, consumer_mirrors_cache Serde.codec_reads (watcher_followed Serde.readText) hfit
    (List.prefix_refl visit) hc⟩

end RichPresence
