/-
A file system whose output streams may fail.

Opening a file for output can fail with the disk as it was, and an
insertion can stop behind any number of characters. Which of the calls
of a program do so is given by their numbers (`DiskFaults`); everything
else is served as ever, so without faults it is the `FileSystem` itself
(`serveUnder_none`).
-/
import Creeper.Lib.FileSystem

namespace Creeper.Lib

/-- Which openings succeed, as far as the disk lets them, and how many
characters an insertion gets through, `none` standing for all. -/
structure DiskFaults where
  opens : Nat → Bool
  inserts : Nat → Option Nat

namespace DiskFaults

/-- Nothing fails. -/
def none : DiskFaults := ⟨fun _ => true, fun _ => .none⟩

/-- What the insertion of a text, as the `n`-th call, gets through. -/
def inserted (φ : DiskFaults) (n : Nat) (data : List Char) : List Char :=
  match φ.inserts n with
  | .none => data
  | some k => data.take k

end DiskFaults

/-- The `n`-th call served. -/
def FileSystem.serveUnder (fs : FileSystem) (φ : DiskFaults) (n : Nat) :
    Server DiskCall DiskCall.Reply Disk := fun c d =>
  match c with
  | .openTruncate path =>
      if φ.opens n then fs.serve (.openTruncate path) d else (d, false)
  | .write path data => fs.serve (.write path (φ.inserted n data)) d
  | c => fs.serve c d

/-- Without faults every call is served as ever. -/
theorem FileSystem.serveUnder_none (fs : FileSystem) :
    fs.serveUnder .none = fun _ => fs.serve := by
  funext n c d
  cases c <;> rfl

end Creeper.Lib
