import Conclave.Wire.Layout

/-!
# Encoding of signed messages

`encode` is the encoding of a signed message. It fails if a part of the message, at any depth, is
above its bound, or if there is not one signature for each signer.
-/

namespace Conclave
namespace Wire

variable {S : Scheme}

/-- The encoding of a list of signers. -/
def encodeSigners (signers : List OperatorId) : ByteArray :=
  concat (signers.map fun id => LittleEndian.ofUInt64 id.word)

mutual

/-- The encoding of a signed message. -/
def encode : SignedMessage S → Except Error ByteArray
  | ⟨message, signers, signatures⟩ => do
    checkBound .signers signers.length Bounds.signers
    if signers.length ≠ signatures.length then
      throw (.signerSignatureMismatch signers.length signatures.length)
    let items := signatures.map S.encodeSignature
    items.forM fun item => checkBound .signature item.size Bounds.signature
    let parts := [encodeSigners signers, joinList items, ← encodeMessage message]
    return offsets signedMessageHead parts ++ concat parts

/-- The encoding of a message. -/
def encodeMessage : Message S (SignedMessage S) → Except Error ByteArray
  | ⟨identifier, height, round, body⟩ => do
    let m : Message S (SignedMessage S) := ⟨identifier, height, round, body⟩
    checkBound .identifier identifier.size Bounds.identifier
    let value := m.value?.elim ByteArray.empty Value.data
    checkBound .value value.size Bounds.value
    let (roundChanges, prepares) ← encodeBody body
    let valueStart := messageHead + identifier.size
    let roundChangesStart := valueStart + value.size
    let preparesStart := roundChangesStart + roundChanges.size
    return concat
      [ByteArray.empty.push m.type.tag,
        LittleEndian.ofUInt64 height.word,
        LittleEndian.ofUInt64 round.word,
        offset messageHead,
        (m.valueRoot?.getD Digest.zero).toBytes,
        LittleEndian.ofUInt64 (m.preparedRound?.elim 0 Round.word),
        offset valueStart,
        offset roundChangesStart,
        offset preparesStart,
        identifier, value, roundChanges, prepares]

/-- The encodings of the round changes and of the prepares that a body carries. -/
def encodeBody : Body S (SignedMessage S) → Except Error (ByteArray × ByteArray)
  | .propose _ roundChanges prepares => do
    checkBound .justifications roundChanges.length Bounds.justifications
    let roundChanges ← encodeList roundChanges
    checkBound .justifications prepares.length Bounds.justifications
    let prepares ← encodeList prepares
    return (joinList roundChanges, joinList prepares)
  | .prepare _ => .ok (ByteArray.empty, ByteArray.empty)
  | .commit _ => .ok (ByteArray.empty, ByteArray.empty)
  | .roundChange _ prepares => do
    checkBound .justifications prepares.length Bounds.justifications
    let prepares ← encodeList prepares
    return (ByteArray.empty, joinList prepares)

/-- The encodings of the messages of a list. -/
def encodeList : List (SignedMessage S) → Except Error (List ByteArray)
  | [] => .ok []
  | m :: rest => do
    let item ← encode m
    return item :: (← encodeList rest)

end

end Wire
end Conclave
