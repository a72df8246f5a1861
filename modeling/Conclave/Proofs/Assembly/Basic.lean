import Conclave.Proofs.Instance.Run
import Conclave.Proofs.Node.Certificate
import Mathlib.Logic.Function.Basic

/-!
# Assemblies

An assembly is a committee that decides at one height of one stream. Some of its members, as many as
it tolerates, may be faulty. Each of the others runs one instance from its creation; everything else
is up to an adversary: which messages and decisions arrive when and where, which timeouts fire,
which values are proposed, and what the faulty members sign.

The only thing the adversary cannot do is to forge a signature of an honest member. `Genuine` says
so of a message, with all the messages that it carries.

* `Assembly` and `Assembly.seat` are what is fixed;
* `World` is what the members have done, and `Reachable` are the worlds that can come about;
* `Certificate` says that a value is committed to: it was decided, or there is a commit message that
  a node takes for decided.
-/

namespace Conclave

variable {S : Scheme}

/-- A committee that decides at one height of one stream, and what its members go by. -/
structure Assembly (S : Scheme) where
  identifier : ByteArray
  height : Height
  committee : Committee S
  nonempty : 0 < committee.size
  /-- The members that need not follow the protocol. -/
  faulty : Finset OperatorId
  faulty_le : faulty.card ≤ committee.thresholds.faulty
  /-- The rules each member goes by. Only the domain of the signatures must be the same. -/
  context : OperatorId → Context S
  domain : Domain
  domain_eq : ∀ id, (context id).domain = domain
  key : OperatorId → S.PrivateKey
  cutoff : OperatorId → Round

/-- What each member has done. What is said of members that are faulty or no members means
nothing. -/
abbrev World (S : Scheme) := OperatorId → Instance.Trace S

namespace Assembly

variable (a : Assembly S)

/-- The place of a member in the stream. -/
def seat (id : OperatorId) : Seat S :=
  ⟨a.identifier, a.committee, a.context id, ⟨id, a.key id⟩, a.cutoff id⟩

/-- A member that follows the protocol. -/
def Honest (id : OperatorId) : Prop := a.committee.contains id = true ∧ id ∉ a.faulty

/-- A message and the messages it carries, those that these carry, and so on. -/
inductive Within : SignedMessage S → SignedMessage S → Prop
  | self (m : SignedMessage S) : Within m m
  | roundChange {x carried m : SignedMessage S} (h : Within x carried)
      (hmem : carried ∈ m.message.roundChanges) : Within x m
  | prepare {x carried m : SignedMessage S} (h : Within x carried)
      (hmem : carried ∈ m.message.prepares) : Within x m

/-- No signature of an honest member in a message is forged: wherever a signed message of this
height verifies, the honest members among its signers have signed exactly this before. -/
def Genuine (w : World S) (m : SignedMessage S) : Prop :=
  ∀ x, Within x m → x.height = a.height → x.verify a.committee a.domain = .ok () →
    ∀ id ∈ x.signers, a.Honest id → ∃ y ∈ (w id).sent, y.message = x.message

/-- What can happen to a member. Messages are genuine; a decision that it learns of is a commit
message that its node has validated. -/
def Admits (w : World S) (id : OperatorId) : Instance.Event S → Prop
  | .start _ => True
  | .receive m => a.Genuine w m
  | .timeout _ => True
  | .learn m => Node.messageKind a.committee m = .decided ∧
      Node.validateDecided (a.seat id) m = .ok () ∧ m.height = a.height ∧ a.Genuine w m

/-- The worlds that can come about. -/
inductive Reachable : World S → Prop
  | init : Reachable fun _ => .new a.height
  | act {w : World S} {id : OperatorId} (net : Network S) (e : Instance.Event S)
      (h : Reachable w) (hid : a.Honest id) (he : a.Admits w id e) :
      Reachable (Function.update w id ((w id).extend (a.seat id) net e))

/-- The value with some root is committed to. -/
inductive Certificate (w : World S) : Digest → Prop
  /-- An honest member has decided on it. -/
  | decision {id : OperatorId} {d : Decision S} (hid : a.Honest id) (hd : d ∈ (w id).decisions) :
      Certificate w d.value.root
  /-- The commit that came with a decision of an honest member is for it. -/
  | decisionCommit {id : OperatorId} {d : Decision S} {root : Digest} (hid : a.Honest id)
      (hd : d ∈ (w id).decisions) (hroot : d.commit.message.valueRoot? = some root) :
      Certificate w root
  /-- A commit message for it passes for decided at some member's node. -/
  | commit {id : OperatorId} {m : SignedMessage S} {root : Digest} (htype : m.type = .commit)
      (hheight : m.height = a.height) (hvalid : Node.validateDecided (a.seat id) m = .ok ())
      (hgenuine : a.Genuine w m) (hroot : m.message.valueRoot? = some root) : Certificate w root

variable {a}

theorem honest_iff {id : OperatorId} : a.Honest id ↔ id ∈ a.committee.names ∧ id ∉ a.faulty := by
  rw [Honest, Committee.mem_names]

/-- What a member of a reachable world has done is a run of its instance. -/
theorem Reachable.run {w : World S} (h : a.Reachable w) (id : OperatorId) :
    Instance.Run (a.seat id) a.height (w id) := by
  induction h with
  | init => exact .new
  | @act w actor net e _ _ _ ih =>
    by_cases heq : id = actor
    · subst heq
      rw [Function.update_self]
      exact ih.next net e
    · rw [Function.update_of_ne heq]
      exact ih

/-- The messages that a genuine message carries are genuine. -/
theorem Genuine.roundChange {w : World S} {m carried : SignedMessage S} (h : a.Genuine w m)
    (hmem : carried ∈ m.message.roundChanges) : a.Genuine w carried :=
  fun x hx => h x (.roundChange hx hmem)

theorem Genuine.prepare {w : World S} {m carried : SignedMessage S} (h : a.Genuine w m)
    (hmem : carried ∈ m.message.prepares) : a.Genuine w carried :=
  fun x hx => h x (.prepare hx hmem)

/-! ### Schedules

A schedule is a list of members and of what happens to them. If only messages arrive that carry no
others, whether it can come about can be computed.
-/

variable (a)

/-- A message that carries no others, and that its honest signers have signed. -/
def Signed (w : World S) (m : SignedMessage S) : Prop :=
  m.message.roundChanges = [] ∧ m.message.prepares = [] ∧
    ∀ id ∈ m.signers, id ∈ a.faulty ∨ ∃ y ∈ (w id).sent, y.message = m.message

instance (id : OperatorId) : Decidable (a.Honest id) := inferInstanceAs (Decidable (_ ∧ _))

instance (w : World S) (m : SignedMessage S) : Decidable (a.Signed w m) :=
  inferInstanceAs (Decidable (_ ∧ _ ∧ _))

/-- What may happen to a member, if only messages arrive that carry no others. -/
def Allows (w : World S) (id : OperatorId) : Instance.Event S → Prop
  | .start _ => True
  | .receive m => a.Signed w m
  | .timeout _ => True
  | .learn m => Node.messageKind a.committee m = .decided ∧
      Node.validateDecided (a.seat id) m = .ok () ∧ m.height = a.height ∧ a.Signed w m

instance (w : World S) (id : OperatorId) : (e : Instance.Event S) → Decidable (a.Allows w id e)
  | .start _ => .isTrue trivial
  | .receive m => inferInstanceAs (Decidable (a.Signed w m))
  | .timeout _ => .isTrue trivial
  | .learn _ => inferInstanceAs (Decidable (_ ∧ _ ∧ _ ∧ _))

/-- The world after a member has gone on, with a network that takes all it sends. -/
def next (w : World S) (id : OperatorId) (e : Instance.Event S) : World S :=
  Function.update w id ((w id).extend (a.seat id) (Network.reliable S) e)

/-- The world after a schedule. -/
def play (w : World S) : List (OperatorId × Instance.Event S) → World S
  | [] => w
  | (id, e) :: rest => play (a.next w id e) rest

/-- A schedule moves honest members only, and by what is allowed. -/
def Allowed (w : World S) : List (OperatorId × Instance.Event S) → Prop
  | [] => True
  | (id, e) :: rest => a.Honest id ∧ a.Allows w id e ∧ Allowed (a.next w id e) rest

instance decidableAllowed :
    (w : World S) → (schedule : List (OperatorId × Instance.Event S)) →
      Decidable (a.Allowed w schedule)
  | _, [] => .isTrue trivial
  | w, (id, e) :: rest =>
    have := decidableAllowed (a.next w id e) rest
    inferInstanceAs (Decidable (_ ∧ _ ∧ _))

variable {a}

/-- A message that carries no others is genuine if its honest signers have signed it. -/
theorem Signed.genuine {w : World S} {m : SignedMessage S} (h : a.Signed w m) : a.Genuine w m := by
  obtain ⟨hroundChanges, hprepares, hsigned⟩ := h
  intro x hx _ _ id hid hhonest
  cases hx with
  | self => exact (hsigned id hid).resolve_left hhonest.2
  | roundChange _ hmem =>
    rw [hroundChanges] at hmem
    cases hmem
  | prepare _ hmem =>
    rw [hprepares] at hmem
    cases hmem

theorem Allows.admits {w : World S} {id : OperatorId} {e : Instance.Event S}
    (h : a.Allows w id e) : a.Admits w id e := by
  cases e with
  | start value => trivial
  | receive m => exact Signed.genuine h
  | timeout round => trivial
  | learn m =>
    obtain ⟨hkind, hvalid, hheight, hsigned⟩ := h
    exact ⟨hkind, hvalid, hheight, hsigned.genuine⟩

/-- A schedule that is allowed leads to a world that can come about. -/
theorem reachable_play {w : World S} {schedule : List (OperatorId × Instance.Event S)}
    (hw : a.Reachable w) (h : a.Allowed w schedule) : a.Reachable (a.play w schedule) := by
  induction schedule generalizing w with
  | nil => exact hw
  | cons event rest ih =>
    obtain ⟨hhonest, hallows, hrest⟩ := h
    exact ih (hw.act _ _ hhonest hallows.admits) hrest

end Assembly
end Conclave
