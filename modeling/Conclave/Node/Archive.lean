import Conclave.Message.Basic

/-!
# Archives

The highest decision of each stream, as the aggregated commit of a quorum, kept so that a node can
resume after a restart. A disk may fail to read or to write at any moment; a failed operation
changes nothing.
-/

namespace Conclave

/-- Why the disk failed. -/
structure StorageError where
  reason : String
  deriving DecidableEq

/-- The text of an error. -/
def StorageError.message (e : StorageError) : String := s!"storage error: {e.reason}"

/-- The disk while an operation runs: how reads and writes end. -/
structure Disk where
  read : Except StorageError Unit
  write : Except StorageError Unit

/-- The disk that does not fail. -/
def Disk.reliable : Disk := ⟨.ok (), .ok ()⟩

/-- The highest decisions by stream, and how often one was stored. -/
structure Archive (S : Scheme) where
  decisions : List (ByteArray × SignedMessage S)
  saves : Nat

namespace Archive

variable {S : Scheme}

/-- Nothing is stored. -/
def empty : Archive S := ⟨[], 0⟩

/-- The decision stored for a stream. -/
def stored? (a : Archive S) (identifier : ByteArray) : Option (SignedMessage S) :=
  a.decisions.lookup identifier

/-- Reads the decision stored for a stream. -/
def load (a : Archive S) (disk : Disk) (identifier : ByteArray) :
    Except StorageError (Option (SignedMessage S)) :=
  disk.read.map fun _ => a.stored? identifier

/-- Stores a decision for a stream in place of an earlier one. -/
def put (a : Archive S) (identifier : ByteArray) (commit : SignedMessage S) : Archive S where
  decisions := (identifier, commit) :: a.decisions.filter fun entry => entry.1 ≠ identifier
  saves := a.saves + 1

end Archive
end Conclave
