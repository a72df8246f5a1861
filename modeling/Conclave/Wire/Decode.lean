import Conclave.Wire.Layout

/-!
# Decoding of signed messages

`decode` reads the encoding of a signed message. It accepts no other bytes: offsets leave no gap,
and a part that a kind of message does not have must be empty or zero.

A proposal is justified by round changes and prepares, a round change by prepares. The kind of a
justification is read before the rest of it, so that at most three messages are nested; the reader
is stated with the number of levels it may enter.
-/

namespace Conclave
namespace Wire

variable {S : Scheme}

/-- The kind with the given number. -/
def readType (tag : UInt8) : Except Error MessageType :=
  match MessageType.ofTag? tag with
  | some type => .ok type
  | none => .error (.unknownType tag)

/-- The kind of an encoded signed message, read through the offset of its message alone. -/
def peekType (b : ByteArray) : Except Error MessageType := do
  let start ← offsetAt b (2 * offsetSize)
  if h : start < b.size then readType b[start]
  else throw (.unexpectedEnd (start + 1) b.size)

/-- The signers of a message. -/
def decodeSigners (b : ByteArray) : Except Error (List OperatorId) := do
  if b.size % 8 ≠ 0 then
    throw (.invalidLength .signers b.size)
  checkBound .signers (b.size / 8) Bounds.signers
  (List.range (b.size / 8)).mapM fun i => OperatorId.mk <$> uint64At b (8 * i)

/-- A signature. -/
def decodeSignature (b : ByteArray) : Except Error S.Signature := do
  checkBound .signature b.size Bounds.signature
  match S.decodeSignature b with
  | .ok signature => return signature
  | .error reason => throw (.invalidSignature reason)

/-- Justifications of one kind in a message of kind `parent`, each read by `read`. -/
def decodeJustifications (read : ByteArray → Except Error (SignedMessage S)) (b : ByteArray)
    (type parent : MessageType) : Except Error (List (SignedMessage S)) := do
  let field : Field :=
    if type = .roundChange then .roundChangeJustification else .prepareJustification
  let items ← splitList b .justifications Bounds.justifications
  items.mapM fun item => do
    -- the kind is checked first, so that a wrong one is refused before its parts are read
    if (← peekType item) ≠ type then
      throw (.unexpectedField field parent)
    read item

/-- The value with the given bytes, which must have the given root. -/
def decodeValue (b : ByteArray) (root : Digest) : Except Error (Value S) :=
  let value := Value.ofBytes b
  if value.root = root then .ok value else .error .rootMismatch

/-- The body of a message of the given kind, from the parts that carry it. -/
def decodeBody (read : ByteArray → Except Error (SignedMessage S)) (type : MessageType)
    (root : Digest) (preparedRound : UInt64) (value roundChanges prepares : ByteArray) :
    Except Error (Body S (SignedMessage S)) := do
  match type with
  | .propose =>
    let roundChanges ← decodeJustifications read roundChanges .roundChange type
    let prepares ← decodeJustifications read prepares .prepare type
    if preparedRound ≠ 0 then
      throw (.unexpectedField .preparedRound type)
    return .propose (← decodeValue value root) roundChanges prepares
  | .roundChange =>
    if roundChanges.size ≠ 0 then
      throw (.unexpectedField .roundChangeJustification type)
    let prepares ← decodeJustifications read prepares .prepare type
    if preparedRound = 0 then
      if value.size ≠ 0 then
        throw (.unexpectedField .value type)
      if root ≠ Digest.zero then
        throw (.unexpectedField .root type)
      if prepares ≠ [] then
        throw (.unexpectedField .prepareJustification type)
      return .roundChange none prepares
    return .roundChange (some ⟨⟨preparedRound⟩, ← decodeValue value root⟩) prepares
  | _ =>
    if roundChanges.size ≠ 0 ∨ prepares.size ≠ 0 then
      throw (.unexpectedField .justification type)
    if preparedRound ≠ 0 then
      throw (.unexpectedField .preparedRound type)
    if value.size ≠ 0 then
      throw (.unexpectedField .value type)
    return if type = .prepare then .prepare root else .commit root

/-- A message whose justifications are read by `read`. -/
def decodeMessage (read : ByteArray → Except Error (SignedMessage S)) (b : ByteArray) :
    Except Error (Message S (SignedMessage S)) := do
  if b.size < messageHead then
    throw (.unexpectedEnd messageHead b.size)
  let type ← readType (← byteAt b 0)
  let height ← uint64At b 1
  let round ← uint64At b 9
  let identifierStart ← offsetAt b 17
  let root ← digestAt b 21
  let preparedRound ← uint64At b 53
  let valueStart ← offsetAt b 61
  let roundChangesStart ← offsetAt b 65
  let preparesStart ← offsetAt b 69
  match ← split b messageHead [identifierStart, valueStart, roundChangesStart, preparesStart] with
  | [identifier, value, roundChanges, prepares] =>
    checkBound .identifier identifier.size Bounds.identifier
    checkBound .value value.size Bounds.value
    let body ← decodeBody read type root preparedRound value roundChanges prepares
    return ⟨identifier, ⟨height⟩, ⟨round⟩, body⟩
  | _ => throw (.fault .outOfBounds)

/-- A signed message with at most the given number of levels. -/
def decodeLevels : Nat → ByteArray → Except Error (SignedMessage S)
  | 0, _ => .error (.fault .tooDeep)
  | levels + 1, b => do
    if b.size < signedMessageHead then
      throw (.unexpectedEnd signedMessageHead b.size)
    let starts ← (List.range 3).mapM fun i => offsetAt b (i * offsetSize)
    match ← split b signedMessageHead starts with
    | [signers, signatures, message] =>
      let signers ← decodeSigners signers
      let signatures ← splitList signatures .signatures Bounds.signers
      if signers.length ≠ signatures.length then
        throw (.signerSignatureMismatch signers.length signatures.length)
      let signatures ← signatures.mapM decodeSignature
      let message ← decodeMessage (decodeLevels levels) message
      return ⟨message, signers, signatures⟩
    | _ => throw (.fault .outOfBounds)

/-- The signed message with the given encoding. -/
def decode (b : ByteArray) : Except Error (SignedMessage S) := do
  checkBound .message b.size Bounds.encoding
  decodeLevels 3 b

end Wire
end Conclave
