import Conclave.Message.Basic

/-!
# Roots of messages

The Merkle root of a message covers every part of it, the justifications down to their signatures,
except that a value counts by its root. What is signed is that root bound to a domain.

* `SignedMessage.root` and `Message.root` are the roots;
* `Message.signingRoot` is what signatures are made over.
-/

namespace Conclave
namespace SignedMessage

variable {S : Scheme}

/-- The root of the list of signers. -/
def signersRoot (signers : List OperatorId) : Digest :=
  Merkle.listRoot S.hashPair (signers.map fun id => Digest.ofUInt64 id.word) Bounds.signers

/-- The root of the list of signatures. -/
def signaturesRoot (signatures : List S.Signature) : Digest :=
  Merkle.listRoot S.hashPair
    (signatures.map fun g => Merkle.bytesRoot S.hashPair (S.encodeSignature g) Bounds.signature)
    Bounds.signers

mutual

/-- The root of a signed message: of its message, its signers and its signatures. -/
def root : SignedMessage S → Digest
  | ⟨message, signers, signatures⟩ =>
    Merkle.containerRoot S.hashPair
      [messageRoot message, signersRoot (S := S) signers, signaturesRoot signatures]

/-- The root of a message: of its kind, height, round, stream, value root, prepared round, round
changes and prepares. A missing value root or prepared round counts as zero. -/
def messageRoot : Message S (SignedMessage S) → Digest
  | ⟨identifier, height, round, body⟩ =>
    let m : Message S (SignedMessage S) := ⟨identifier, height, round, body⟩
    let roots := justificationRoots body
    Merkle.containerRoot S.hashPair
      [Digest.ofUInt64 m.type.tag.toUInt64,
        Digest.ofUInt64 height.word,
        Digest.ofUInt64 round.word,
        Merkle.bytesRoot S.hashPair identifier Bounds.identifier,
        m.valueRoot?.getD Digest.zero,
        Digest.ofUInt64 (m.preparedRound?.elim 0 Round.word),
        Merkle.listRoot S.hashPair roots.1 Bounds.justifications,
        Merkle.listRoot S.hashPair roots.2 Bounds.justifications]

/-- The roots of the round changes and of the prepares that a body carries. -/
def justificationRoots : Body S (SignedMessage S) → List Digest × List Digest
  | .propose _ roundChanges prepares => (rootList roundChanges, rootList prepares)
  | .prepare _ => ([], [])
  | .commit _ => ([], [])
  | .roundChange _ prepares => ([], rootList prepares)

/-- The roots of a list of signed messages. -/
def rootList : List (SignedMessage S) → List Digest
  | [] => []
  | m :: ms => root m :: rootList ms

end

theorem rootList_eq (ms : List (SignedMessage S)) : rootList ms = ms.map root := by
  induction ms with
  | nil => rfl
  | cons m ms ih => simp [rootList, ih]

theorem justificationRoots_eq (m : Message S (SignedMessage S)) :
    justificationRoots m.body = (m.roundChanges.map root, m.prepares.map root) := by
  unfold Message.roundChanges Message.prepares
  cases m.body <;> simp [justificationRoots, rootList_eq]

end SignedMessage

namespace Message

variable {S : Scheme}

/-- The root of a message. -/
def root (m : Message S (SignedMessage S)) : Digest := SignedMessage.messageRoot m

/-- What is signed: the root of a message bound to a domain. -/
def signingRoot (m : Message S (SignedMessage S)) (domain : Domain) : Digest :=
  S.hashPair m.root domain.digest

end Message

namespace Signer

variable {S : Scheme}

/-- A message signed by one signer. -/
def signMessage (signer : Signer S) (domain : Domain) (m : Message S (SignedMessage S)) :
    SignedMessage S :=
  ⟨m, [signer.id], [S.sign signer.key (m.signingRoot domain)]⟩

end Signer
end Conclave
