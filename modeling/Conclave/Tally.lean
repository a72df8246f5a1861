import Conclave.Message.Basic

/-!
# Tallies

The messages of one kind that an instance has received, in the order in which it received them, and
the questions asked of them by round:

* `add` stores a message, `addFirst` only if none of its signers has one in its round;
* `ofRound`, `aboveRound`, `maxRound?` select messages by round, in ascending order of the rounds;
* `uniqueSigners` finds messages of one round and value with pairwise different signers, as many
  signers as a greedy choice yields.
-/

namespace Conclave

/-- The messages received, the oldest first. -/
structure Tally (S : Scheme) where
  messages : List (SignedMessage S)

/-- Messages with pairwise different signers, and all their signers. -/
structure UniqueSigners (S : Scheme) where
  signers : List OperatorId
  messages : List (SignedMessage S)

namespace UniqueSigners

variable {S : Scheme}

/-- No message. -/
def empty : UniqueSigners S := ⟨[], []⟩

/-- The number of signers. -/
def size (u : UniqueSigners S) : Nat := u.signers.length

/-- The set with a message of other signers. A message that shares a signer with it is left out. -/
def extend (u : UniqueSigners S) (m : SignedMessage S) : UniqueSigners S :=
  if m.signers.any fun id => u.signers.contains id then u
  else ⟨u.signers ++ m.signers, u.messages ++ [m]⟩

/-- The larger of two sets, the first one if they are equally large. -/
def larger (u v : UniqueSigners S) : UniqueSigners S :=
  if u.size < v.size then v else u

/-- The largest set, the first one on ties, among those that begin with one of the messages and
take in each later message as soon as they can. -/
def best : List (SignedMessage S) → UniqueSigners S → UniqueSigners S
  | [], found => found
  | seed :: rest, found =>
    best rest (found.larger (rest.foldl extend ⟨seed.signers, [seed]⟩))

end UniqueSigners

namespace Tally

variable {S : Scheme}

/-- No message. -/
def empty : Tally S := ⟨[]⟩

/-- The tally with one more message. -/
def add (t : Tally S) (m : SignedMessage S) : Tally S := ⟨t.messages ++ [m]⟩

/-- The messages of a round, the oldest first. -/
def ofRound (t : Tally S) (round : Round) : List (SignedMessage S) :=
  t.messages.filter fun m => m.round = round

/-- Whether a signer of a message already has a message in its round. -/
def hasSignerOf (t : Tally S) (m : SignedMessage S) : Bool :=
  (t.ofRound m.round).any fun stored => stored.signers.any fun id => m.signers.contains id

/-- The tally with one more message, unless one of its signers already has a message in its
round. -/
def addFirst? (t : Tally S) (m : SignedMessage S) : Option (Tally S) :=
  if t.hasSignerOf m then none else some (t.add m)

/-- All messages in ascending order of their rounds, those of one round the oldest first. -/
def byRound (t : Tally S) : List (SignedMessage S) :=
  t.messages.mergeSort fun a b => decide (a.round ≤ b.round)

/-- The messages of all rounds above a round, in ascending order of their rounds. There are none
to ask for above the last round. -/
def aboveRound? (t : Tally S) (round : Round) : Except Fault (List (SignedMessage S)) := do
  let least ← round.next?
  return t.byRound.filter fun m => least ≤ m.round

/-- The number of messages of a round. -/
def count (t : Tally S) (round : Round) : Nat := (t.ofRound round).length

/-- The highest round of a message. -/
def maxRound? (t : Tally S) : Option Round := t.byRound.getLast?.map SignedMessage.round

/-- The messages of a round for a value, without those that name a signer twice. -/
def candidates (t : Tally S) (round : Round) (root : Digest) : List (SignedMessage S) :=
  (t.ofRound round).filter fun m => m.message.valueRoot? = some root ∧ m.signers.Nodup

/-- Messages of a round for a value with pairwise different signers, as many signers as the best
greedy choice yields. -/
def uniqueSigners (t : Tally S) (round : Round) (root : Digest) : UniqueSigners S :=
  UniqueSigners.best (t.candidates round root) UniqueSigners.empty

end Tally
end Conclave
