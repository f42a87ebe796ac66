import Mathlib.Logic.Relation
import RichPresence.Ipc.SocketLinks
import RichPresence.Lib.Run

namespace RichPresence.Ipc

open Lib Relation

section Spec

variable {E : Type} [DecidableEq E] (locate : Entries E → OsPath → Option E)

/-- Nothing stands at the path, or a link that leads to the bound socket, or one to a name
of ours that does not exist. -/
def Free (bound : OsPath) (t : Entries E) (link : OsPath) : Prop :=
  entryAt locate t link = none ∨
    ∃ target, entryAt locate t link = some (.symlink target) ∧
      (resolve link target = bound ∨
        oursShaped target = true ∧ entryAt locate t (resolve link target) = none)

/-- A free entry is removed, or becomes a link to the bound socket. -/
inductive Touches (bound : OsPath) (t : Entries E) : Entries E → Prop
  | remove {link : OsPath} {e : E} (hat : locate t link = some e) (hfree : Free locate bound t link) :
      Touches bound t (Function.update t e none)
  | create {link : OsPath} {e : E} (hat : locate t link = some e) (hfree : Free locate bound t link) :
      Touches bound t (Function.update t e (some (.symlink bound)))

/-- The target of a link to a name of ours can be inspected when it exists. -/
def Inspects (bound fileName : OsPath) (t : Entries E) (turn : Turn) : Prop :=
  ∀ target, entryAt locate t (turn.dir.join fileName) = some (.symlink target) →
    resolve (turn.dir.join fileName) target ≠ bound → oursShaped target = true →
    entryAt locate t (resolve (turn.dir.join fileName) target) ≠ none → turn.targetMetadata = none

end Spec

section Frame

variable {E : Type} [DecidableEq E] {locate : Entries E → OsPath → Option E} {bound fileName : OsPath}
  {t : Entries E} {turn : Turn}

theorem symlink_touches (outcome : Outcome) (link : OsPath) :
    ReflTransGen (Touches locate bound) t (symlink locate outcome bound link t).2 := by
  rw [symlink.eq_def]
  split
  next => exact .refl
  next => exact .refl
  next e hat =>
      split
      next hnone =>
          refine .single (.create hat (.inl ?_))
          rw [entryAt, hat, Option.bind_some, hnone]
      next => exact .refl

theorem removeFile_touches (outcome : Outcome) {link : OsPath} (hfree : Free locate bound t link) :
    ReflTransGen (Touches locate bound) t (removeFile locate outcome link t).2 := by
  rw [removeFile.eq_def]
  split
  next => exact .refl
  next => exact .refl
  next e hat =>
      split
      next => exact .refl
      next => exact .refl
      next => exact .single (.remove hat hfree)

omit [DecidableEq E] in
theorem readLink_ok {outcome : Outcome} {path target : OsPath} (h : readLink locate outcome path t = .ok target) :
    entryAt locate t path = some (.symlink target) := by
  rw [readLink.eq_def] at h
  split at h
  next => cases h
  next heq =>
      obtain rfl := Except.ok.inj h
      exact heq
  next => cases h
  next => cases h

omit [DecidableEq E] in
theorem symlinkMetadata_error {outcome : Outcome} {path : OsPath} (h : entryAt locate t path ≠ none → outcome = none)
    (herr : (symlinkMetadata locate outcome path t matches .error _) = true) : entryAt locate t path = none := by
  by_contra hne
  obtain ⟨node, hnode⟩ := Option.ne_none_iff_exists'.mp hne
  rw [symlinkMetadata.eq_def, h hne, hnode] at herr
  cases herr

omit [DecidableEq E] in
theorem free_of_linkReclaimable (hinspects : Inspects locate bound fileName t turn)
    (h : linkReclaimable locate turn (turn.dir.join fileName) bound t = true) :
    Free locate bound t (turn.dir.join fileName) := by
  rw [linkReclaimable] at h
  split at h
  next => cases h
  next target hread =>
      have hentry := readLink_ok hread
      refine .inr ⟨target, hentry, ?_⟩
      by_cases hbound : resolve (turn.dir.join fileName) target = bound
      · exact .inl hbound
      · rw [if_neg hbound, Bool.and_eq_true] at h
        exact .inr ⟨h.1, symlinkMetadata_error (hinspects target hentry hbound h.1) h.2⟩

theorem fanoutTurn_touches (hinspects : Inspects locate bound fileName t turn) :
    ReflTransGen (Touches locate bound) t (fanoutTurn locate bound fileName t turn) := by
  rw [fanoutTurn]
  split
  next => exact .refl
  next =>
      split
      next => exact symlink_touches _ _
      next =>
          split
          next hfree =>
              have hremove := removeFile_touches turn.removeFile (free_of_linkReclaimable hinspects hfree)
              exact hremove.trans (symlink_touches _ _)
          next => exact .refl
      next => exact .refl

theorem removeTurn_touches (hinspects : Inspects locate bound fileName t turn) :
    ReflTransGen (Touches locate bound) t (removeTurn locate bound fileName t turn) := by
  rw [removeTurn]
  split
  next => exact .refl
  next =>
      split
      next hfree => exact removeFile_touches turn.removeFile (free_of_linkReclaimable hinspects hfree)
      next => exact .refl

/-- As long as the targets that exist can be inspected, the entries that the fan-out and
the clean-up change are free when they are changed. -/
theorem links_touch_free_entries (locate : Entries E → OsPath → Option E) (turns : List Turn)
    (bound fileName : OsPath) (t : Entries E) :
    (Along (fanoutTurn locate bound fileName) (Inspects locate bound fileName) t turns →
      ReflTransGen (Touches locate bound) t (fanoutSocketLink locate turns bound fileName t)) ∧
    ((∀ name, bound.fileName = some name →
        Along (removeTurn locate bound ⟨false, [.normal name]⟩)
          (Inspects locate bound ⟨false, [.normal name]⟩) t turns) →
      ReflTransGen (Touches locate bound) t (removeSocketLinks locate turns bound t)) := by
  refine ⟨fun h => ?_, fun h => ?_⟩
  · exact h.invariant (ReflTransGen (Touches locate bound) t)
      (fun t' turn hrun hinspects => hrun.trans (fanoutTurn_touches hinspects)) .refl
  · rw [removeSocketLinks]
    split
    next => exact .refl
    next name hname =>
        split
        next =>
            exact (h name hname).invariant (ReflTransGen (Touches locate bound) t)
              (fun t' turn hrun hinspects => hrun.trans (removeTurn_touches hinspects)) .refl
        next => exact .refl

end Frame

def ipcPath (dir : String) : OsPath := ⟨true, [.normal dir.toUTF8.toList, .normal "discord-ipc-0".toUTF8.toList]⟩

def ipcName : OsPath := ⟨false, [.normal "discord-ipc-0".toUTF8.toList]⟩

def tmpTurn (targetMetadata : Outcome) : Turn := { dir := ⟨true, [.normal "tmp".toUTF8.toList]⟩, targetMetadata }

/-- A socket of this process in `/run`, and a link in `/tmp` to where another one has or had its own. -/
def linked (other : Option Node) (path : OsPath) : Option Node :=
  if path = ipcPath "tmp" then some (.symlink (ipcPath "other"))
  else if path = ipcPath "run" then some .socket
  else if path = ipcPath "other" then other
  else none

theorem links_touch_free_entries_stale :
    ReflTransGen (Touches (fun _ path => some path) (ipcPath "run")) (linked none)
        (fanoutSocketLink (fun _ path => some path) [tmpTurn none] (ipcPath "run") ipcName (linked none)) ∧
      fanoutSocketLink (fun _ path => some path) [tmpTurn none] (ipcPath "run") ipcName (linked none)
        (ipcPath "tmp") = some (.symlink (ipcPath "run")) := by
  have hfanout := (links_touch_free_entries (fun _ path => some path) [tmpTurn none] (ipcPath "run") ipcName
    (linked none)).1
  exact ⟨hfanout ⟨fun _ _ _ _ _ => rfl, trivial⟩, by decide +kernel⟩

/-- A link to a socket of another process, which nobody may touch. -/
def LinkedLive (t : Entries OsPath) : Prop :=
  t (ipcPath "tmp") = some (.symlink (ipcPath "other")) ∧ t (ipcPath "other") = some .socket

theorem LinkedLive.kept {t t' : Entries OsPath} (h : LinkedLive t)
    (hstep : Touches (fun _ path => some path) (ipcPath "run") t t') : LinkedLive t' := by
  have hresolve : resolve (ipcPath "tmp") (ipcPath "other") = ipcPath "other" := rfl
  have hother : ipcPath "other" ≠ ipcPath "run" := by decide +kernel
  have hlink : ¬Free (fun _ path => some path) (ipcPath "run") t (ipcPath "tmp") := by
    rintro (hnone | ⟨target, hat, hto⟩)
    · exact absurd (h.1.symm.trans hnone) nofun
    · obtain rfl := Node.symlink.inj (Option.some.inj (h.1.symm.trans hat))
      rw [hresolve] at hto
      rcases hto with hbound | ⟨-, hgone⟩
      · exact hother hbound
      · exact absurd (h.2.symm.trans hgone) nofun
  have hsocket : ¬Free (fun _ path => some path) (ipcPath "run") t (ipcPath "other") := by
    rintro (hnone | ⟨target, hat, -⟩)
    · exact absurd (h.2.symm.trans hnone) nofun
    · exact absurd (h.2.symm.trans hat) nofun
  have hkept {e : OsPath} (v : Option Node) (hfree : Free (fun _ path => some path) (ipcPath "run") t e) :
      LinkedLive (Function.update t e v) := by
    refine ⟨?_, ?_⟩
    · have hne : ipcPath "tmp" ≠ e := fun heq => hlink (heq ▸ hfree)
      rw [Function.update_of_ne hne]
      exact h.1
    · have hne : ipcPath "other" ≠ e := fun heq => hsocket (heq ▸ hfree)
      rw [Function.update_of_ne hne]
      exact h.2
  cases hstep with
  | remove hat hfree => exact Option.some.inj hat ▸ hkept _ hfree
  | create hat hfree => exact Option.some.inj hat ▸ hkept _ hfree

/-- The link to a socket that this process may not inspect is taken for a stale one. -/
theorem denied_target_is_stolen :
    ¬ReflTransGen (Touches (fun _ path => some path) (ipcPath "run")) (linked (some .socket))
      (fanoutSocketLink (fun _ path => some path) [tmpTurn (some .permissionDenied)] (ipcPath "run") ipcName
        (linked (some .socket))) := by
  intro hrun
  have hlive : ∀ t, ReflTransGen (Touches (fun _ path => some path) (ipcPath "run")) (linked (some .socket)) t →
      LinkedLive t := by
    intro t hrun
    induction hrun with
    | refl => exact ⟨by decide +kernel, by decide +kernel⟩
    | tail _ hstep ih => exact ih.kept hstep
  have hstolen : fanoutSocketLink (fun _ path => some path) [tmpTurn (some .permissionDenied)] (ipcPath "run") ipcName
      (linked (some .socket)) (ipcPath "tmp") = some (.symlink (ipcPath "run")) := by decide +kernel
  have hsame := (hlive _ hrun).1.symm.trans hstolen
  exact absurd hsame (by decide +kernel)

end RichPresence.Ipc
