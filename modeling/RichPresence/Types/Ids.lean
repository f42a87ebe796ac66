import Mathlib.Algebra.Group.Int.Defs
import Mathlib.Algebra.Group.Nat.Defs
import Mathlib.Logic.Function.Basic

namespace RichPresence

structure AppId where
  text : String
  deriving DecidableEq, Repr

structure SocketId where
  text : String
  deriving DecidableEq, Repr

namespace SocketId

/-- A scanned game doubles as its own socket. -/
def ofApp (id : AppId) : SocketId := ⟨id.text⟩

/-- An SDK client is addressed by the decimal of its pid. -/
def ofPid (pid : Nat) : SocketId := ⟨Nat.repr pid⟩

theorem ofApp_injective : Function.Injective ofApp := by
  rintro ⟨a⟩ ⟨b⟩ h
  simpa [ofApp] using h

theorem ofPid_injective : Function.Injective ofPid := by
  intro p q h
  have hd : Nat.toDigits 10 p = Nat.toDigits 10 q := by
    have ht : Nat.repr p = Nat.repr q := congrArg SocketId.text h
    rw [← Nat.toList_repr, ← Nat.toList_repr, ht]
  rw [← Nat.ofDigitChars_ten_toDigits (n := p), hd, Nat.ofDigitChars_ten_toDigits]

end SocketId

/-- The standard library's `u64` reader: an optional plus sign, then at least
one decimal digit and nothing else, and a value that fits. -/
def parseU64 (text : String) : Option Nat :=
  let digits := match text.toList with
    | '+' :: rest => rest
    | cs => cs
  let value := Nat.ofDigitChars 10 digits 0
  if digits ≠ [] ∧ digits.all Char.isDigit ∧ value < 2 ^ 64 then some value else none

theorem parseU64_ofPid (pid : Nat) (h : pid < 2 ^ 64) : parseU64 (SocketId.ofPid pid).text = some pid := by
  have hl : (SocketId.ofPid pid).text.toList = Nat.toDigits 10 pid := Nat.toList_repr
  have hdigit (c : Char) (hc : c ∈ Nat.toDigits 10 pid) : c.isDigit :=
    Nat.isDigit_of_mem_toDigits (by decide) (by decide) hc
  have hplus : ∀ rest, Nat.toDigits 10 pid ≠ '+' :: rest := by
    intro rest he
    have hp := hdigit '+' (by simp [he])
    exact absurd hp (by decide)
  have hmatch : (match (SocketId.ofPid pid).text.toList with
      | '+' :: rest => rest
      | cs => cs) = Nat.toDigits 10 pid := by
    rw [hl]
    split
    next rest he => exact absurd he (hplus rest)
    next => rfl
  rw [parseU64, hmatch, Nat.ofDigitChars_ten_toDigits, if_pos]
  exact ⟨Nat.toDigits_ne_nil, List.all_eq_true.mpr hdigit, h⟩

end RichPresence
