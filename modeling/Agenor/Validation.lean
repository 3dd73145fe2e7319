import Mathlib.Data.List.Basic
import Agenor.Lib.Fallible

/-!
How a validation function can fail to return `true` (`consensus/validation.h`): the reject codes,
what `CValidationState` records, and the ways in which the call does not return at all.
-/

namespace Agenor

def REJECT_INVALID : ℕ := 0x10
def REJECT_NONSTANDARD : ℕ := 0x40

/-- The places that read a script or a vector at an offset without looking at its length. -/
inductive SliceSite
  /-- `TxOutToPublicCoin`, at `SCRIPT_OFFSET`. -/
  | scriptOffset
  /-- `IsRelevantAndUpdate`, at 6 in a mint output. -/
  | mintData
  /-- `IsRelevantAndUpdate`, at 44 in a spend input. -/
  | spendData
  /-- `ScriptSigToSerializedSpend`, at the offset that its second byte gives. -/
  | spendBody
  /-- `GetOutput`, one past the last output. -/
  | outputIndex
  /-- `DisconnectBlock`, the undo record of a transaction that has none. -/
  | undoIndex
  /-- `CreateNewBlock`, an orphan that was taken off the list. -/
  | orphan
  deriving DecidableEq, Repr

/-- Why a call did not return `true`. -/
inductive Fault
  /-- `state.DoS(...)` and `state.Invalid(...)`: the level, the reject code, the reason and
  whether the data may be corrupted. -/
  | dos (nDoS : ℕ) (chRejectCode : ℕ) (strRejectReason : String) (corruptionPossible : Bool)
  /-- A plain `return false`. -/
  | fail
  /-- `AbortNode(state, ...)`. -/
  | abortNode (strMessage : String)
  /-- An exception leaves the function. -/
  | throws (what : String)
  /-- An `assert` does not hold. -/
  | assertion
  /-- A container is read past its end. -/
  | outOfRange (site : SliceSite)
  deriving DecidableEq, Repr

namespace Fault

/-- The call came back with `false`: it neither threw nor ran into undefined behaviour. -/
def isReturn : Fault → Bool
  | dos .. | fail | abortNode _ => true
  | throws _ | assertion | outOfRange _ => false

/-- The caller of a failed check reports the failure once more with `state.DoS`: the level
adds up, the rest is replaced. What is not a `return false` is passed through. -/
def redos (level code : ℕ) (reason : String) : Fault → Fault
  | dos n _ _ _ => dos (n + level) code reason false
  | fail => dos level code reason false
  | f => f

/-- `state.CorruptionPossible()` after the failure. -/
def corruptionPossible : Fault → Bool
  | dos _ _ _ c => c
  | _ => false

end Fault

abbrev Check (α : Type) := Except Fault α

end Agenor
