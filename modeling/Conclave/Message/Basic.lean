import Conclave.Value

/-!
# Messages

A message belongs to one height of one stream and to a round. Its body is a proposal, a vote of one
of two kinds, or a request for a new round. A signed message carries the names of its signers and
one signature for each.

Proposals and round changes carry other signed messages, which justify them. So `SignedMessage` is
a recursive type; `Body` and `Message` are stated for justifications of any type `J`.

* `Message.value?`, `Message.valueRoot?`, `Message.preparedRound?`, `Message.roundChanges` and
  `Message.prepares` read a part that only some bodies have;
* equality of messages is decidable.
-/

namespace Conclave

/-- The kinds of messages. -/
inductive MessageType
  | propose
  | prepare
  | commit
  | roundChange
  deriving DecidableEq

namespace MessageType

/-- The number of a kind in an encoding. -/
def tag : MessageType → UInt8
  | .propose => 0
  | .prepare => 1
  | .commit => 2
  | .roundChange => 3

/-- The kind with the given number. -/
def ofTag? (tag : UInt8) : Option MessageType :=
  if tag = 0 then some .propose
  else if tag = 1 then some .prepare
  else if tag = 2 then some .commit
  else if tag = 3 then some .roundChange
  else none

/-- The text about a number that no kind has. -/
def unknownTagError (tag : UInt8) : String := s!"unknown message type: {tag.toNat}"

/-- The name of a kind. -/
def name : MessageType → String
  | .propose => "propose"
  | .prepare => "prepare"
  | .commit => "commit"
  | .roundChange => "round-change"

instance : ToString MessageType := ⟨name⟩

theorem ofTag?_tag (t : MessageType) : ofTag? t.tag = some t := by cases t <;> rfl

end MessageType

/-- A preparation: the round in which a member saw a quorum of prepares, and their value. -/
structure Prepared (S : Scheme) where
  round : Round
  value : Value S
  deriving DecidableEq

/-- The part of a message that depends on its kind. -/
inductive Body (S : Scheme) (J : Type)
  /-- The leader of a round proposes a value. Above the first round the proposal is justified by a
  quorum of round changes and, if one of them reports a preparation, by the prepares of the highest
  one. -/
  | propose (value : Value S) (roundChanges prepares : List J)
  /-- A vote for the value of the accepted proposal. -/
  | prepare (root : Digest)
  /-- A vote to decide on the prepared value. -/
  | commit (root : Digest)
  /-- A request to move to the message's round. It reports the last preparation of its sender, with
  the prepares that justify it. -/
  | roundChange (prepared : Option (Prepared S)) (prepares : List J)

/-- A message: the stream, the height and the round it belongs to, and its body. -/
structure Message (S : Scheme) (J : Type) where
  identifier : ByteArray
  height : Height
  round : Round
  body : Body S J

/-- A message with its signers and their signatures. A well-formed one has at least one signer, its
signers are in strictly ascending order, and there is one signature for each. -/
structure SignedMessage (S : Scheme) where
  message : Message S (SignedMessage S)
  signers : List OperatorId
  signatures : List S.Signature

namespace Message

variable {S : Scheme} {J : Type}

/-- The kind of a message. -/
def type (m : Message S J) : MessageType :=
  match m.body with
  | .propose .. => .propose
  | .prepare _ => .prepare
  | .commit _ => .commit
  | .roundChange .. => .roundChange

/-- The preparation that a round change reports. -/
def prepared? (m : Message S J) : Option (Prepared S) :=
  match m.body with
  | .roundChange prepared _ => prepared
  | _ => none

/-- The round of the preparation that a round change reports. -/
def preparedRound? (m : Message S J) : Option Round := m.prepared?.map Prepared.round

/-- The value that a message carries: the proposed or the prepared one. -/
def value? (m : Message S J) : Option (Value S) :=
  match m.body with
  | .propose value .. => some value
  | .roundChange prepared _ => prepared.map Prepared.value
  | _ => none

/-- The root of the value that a message is about. -/
def valueRoot? (m : Message S J) : Option Digest :=
  match m.body with
  | .propose value .. => some value.root
  | .prepare root => some root
  | .commit root => some root
  | .roundChange prepared _ => prepared.map fun p => p.value.root

/-- The round changes that justify a proposal. -/
def roundChanges (m : Message S J) : List J :=
  match m.body with
  | .propose _ roundChanges _ => roundChanges
  | _ => []

/-- The prepares that justify a proposal or a round change. -/
def prepares (m : Message S J) : List J :=
  match m.body with
  | .propose _ _ prepares => prepares
  | .roundChange _ prepares => prepares
  | _ => []

end Message

namespace SignedMessage

variable {S : Scheme}

/-- The stream of a message. -/
def identifier (m : SignedMessage S) : ByteArray := m.message.identifier

/-- The height of a message. -/
def height (m : SignedMessage S) : Height := m.message.height

/-- The round of a message. -/
def round (m : SignedMessage S) : Round := m.message.round

/-- The kind of a message. -/
def type (m : SignedMessage S) : MessageType := m.message.type

/-- The only signer of a message, if it has exactly one. -/
def signer? (m : SignedMessage S) : Option OperatorId :=
  match m.signers with
  | [id] => some id
  | _ => none

/-- The signers of a message with their signatures. -/
def pairs (m : SignedMessage S) : List (OperatorId × S.Signature) :=
  m.signers.zip m.signatures

/-! ### Equality -/

mutual

/-- Whether two signed messages are equal. -/
def same : SignedMessage S → SignedMessage S → Bool
  | ⟨m, ss, gs⟩, ⟨m', ss', gs'⟩ => sameMessage m m' && decide (ss = ss') && decide (gs = gs')

/-- Whether two messages are equal. -/
def sameMessage : Message S (SignedMessage S) → Message S (SignedMessage S) → Bool
  | ⟨i, h, r, b⟩, ⟨i', h', r', b'⟩ =>
    decide (h = h') && decide (r = r') && decide (i = i') && sameBody b b'

/-- Whether two bodies are equal. -/
def sameBody : Body S (SignedMessage S) → Body S (SignedMessage S) → Bool
  | .propose v rcs ps, .propose v' rcs' ps' =>
    decide (v = v') && sameList rcs rcs' && sameList ps ps'
  | .prepare r, .prepare r' => decide (r = r')
  | .commit r, .commit r' => decide (r = r')
  | .roundChange p ps, .roundChange p' ps' => decide (p = p') && sameList ps ps'
  | _, _ => false

/-- Whether two lists of signed messages are equal. -/
def sameList : List (SignedMessage S) → List (SignedMessage S) → Bool
  | [], [] => true
  | m :: ms, m' :: ms' => same m m' && sameList ms ms'
  | _, _ => false

end

mutual

theorem same_iff : ∀ a b : SignedMessage S, same a b = true ↔ a = b
  | ⟨m, ss, gs⟩, ⟨m', ss', gs'⟩ => by simp [same, sameMessage_iff m m', and_assoc]

theorem sameMessage_iff :
    ∀ a b : Message S (SignedMessage S), sameMessage a b = true ↔ a = b
  | ⟨i, h, r, b⟩, ⟨i', h', r', b'⟩ => by
    simp only [sameMessage, sameBody_iff b b', Bool.and_eq_true, decide_eq_true_eq,
      Message.mk.injEq]
    constructor
    · exact fun ⟨⟨⟨hh, hr⟩, hi⟩, hb⟩ => ⟨hi, hh, hr, hb⟩
    · exact fun ⟨hi, hh, hr, hb⟩ => ⟨⟨⟨hh, hr⟩, hi⟩, hb⟩

theorem sameBody_iff : ∀ a b : Body S (SignedMessage S), sameBody a b = true ↔ a = b
  | .propose _ rcs ps, .propose _ rcs' ps' => by
    simp [sameBody, sameList_iff rcs rcs', sameList_iff ps ps', and_assoc]
  | .prepare _, .prepare _ => by simp [sameBody]
  | .commit _, .commit _ => by simp [sameBody]
  | .roundChange _ ps, .roundChange _ ps' => by simp [sameBody, sameList_iff ps ps']
  | .propose .., .prepare _ => by simp [sameBody]
  | .propose .., .commit _ => by simp [sameBody]
  | .propose .., .roundChange .. => by simp [sameBody]
  | .prepare _, .propose .. => by simp [sameBody]
  | .prepare _, .commit _ => by simp [sameBody]
  | .prepare _, .roundChange .. => by simp [sameBody]
  | .commit _, .propose .. => by simp [sameBody]
  | .commit _, .prepare _ => by simp [sameBody]
  | .commit _, .roundChange .. => by simp [sameBody]
  | .roundChange .., .propose .. => by simp [sameBody]
  | .roundChange .., .prepare _ => by simp [sameBody]
  | .roundChange .., .commit _ => by simp [sameBody]

theorem sameList_iff : ∀ a b : List (SignedMessage S), sameList a b = true ↔ a = b
  | [], [] => by simp [sameList]
  | [], _ :: _ => by simp [sameList]
  | _ :: _, [] => by simp [sameList]
  | m :: ms, m' :: ms' => by simp [sameList, same_iff m m', sameList_iff ms ms']

end

instance : DecidableEq (SignedMessage S) := fun a b => decidable_of_iff _ (same_iff a b)

instance : DecidableEq (Message S (SignedMessage S)) := fun a b =>
  decidable_of_iff _ (sameMessage_iff a b)

end SignedMessage
end Conclave
