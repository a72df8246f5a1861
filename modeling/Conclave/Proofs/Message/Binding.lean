import Conclave.Message.Root
import Conclave.Proofs.Merkle.Binding
import Conclave.Proofs.PlainScheme

/-!
# A signature binds the whole message

What is signed is a digest. It is a tree over everything that the message holds, down to the
signatures of the messages that it carries; parts that are missing count as zeros, and so do the
places behind the end of a list. The statements here say that nothing is lost by this.

* `Message.Digestible` are the messages that the digest is meant for: all lengths are 64-bit
  numbers, and no round change reports a preparation of round zero, which is the number of no round;
* `SignedMessage.rootPairs` and `Message.signingPairs` are the pairs that are hashed for a root;
* `signature_binds_message` is the main statement: messages with the same digest are equal, and so
  are their domains, if the hash function is injective on these pairs.
-/

namespace Conclave

variable {S : Scheme}

/-! ### Messages to be digested -/

/-- The lengths of what a message holds are 64-bit numbers, and so is the round of a preparation,
apart from zero. -/
structure Message.Measured {J : Type} (m : Message S J) : Prop where
  identifier_lt : m.identifier.size < 2 ^ 64
  value_lt : ∀ value, m.value? = some value → value.data.size < 2 ^ 64
  roundChanges_lt : m.roundChanges.length < 2 ^ 64
  prepares_lt : m.prepares.length < 2 ^ 64
  prepared_pos : ∀ r, m.preparedRound? = some r → r.word ≠ 0

/-- A signed message of which this is true at every depth, its lists of signers and signatures
included. -/
inductive SignedMessage.Digestible : SignedMessage S → Prop
  | intro {m : SignedMessage S} (measured : m.message.Measured)
      (signers_lt : m.signers.length < 2 ^ 64) (signatures_lt : m.signatures.length < 2 ^ 64)
      (signature_lt : ∀ g ∈ m.signatures, (S.encodeSignature g).size < 2 ^ 64)
      (roundChanges : ∀ x ∈ m.message.roundChanges, Digestible x)
      (prepares : ∀ x ∈ m.message.prepares, Digestible x) : Digestible m

/-- A message of which this is true at every depth. -/
structure Message.Digestible (m : Message S (SignedMessage S)) : Prop where
  measured : m.Measured
  roundChanges : ∀ x ∈ m.roundChanges, x.Digestible
  prepares : ∀ x ∈ m.prepares, x.Digestible

/-! ### Pairs that are hashed -/

/-- The pairs that are hashed for the root of a value. -/
def Value.rootPairs (value : Value S) : List (Digest × Digest) :=
  Merkle.bytesRootPairs S.hashPair value.data Bounds.value

namespace SignedMessage

/-- The roots of the fields of a message. -/
def fieldRoots (m : Message S (SignedMessage S)) : List Digest :=
  [Digest.ofUInt64 m.type.tag.toUInt64,
    Digest.ofUInt64 m.height.word,
    Digest.ofUInt64 m.round.word,
    Merkle.bytesRoot S.hashPair m.identifier Bounds.identifier,
    m.valueRoot?.getD Digest.zero,
    Digest.ofUInt64 (m.preparedRound?.elim 0 Round.word),
    Merkle.listRoot S.hashPair (m.roundChanges.map root) Bounds.justifications,
    Merkle.listRoot S.hashPair (m.prepares.map root) Bounds.justifications]

theorem messageRoot_eq (m : Message S (SignedMessage S)) :
    messageRoot m = Merkle.containerRoot S.hashPair (fieldRoots m) := by
  obtain ⟨identifier, height, round, body⟩ := m
  simp only [messageRoot, fieldRoots,
    justificationRoots_eq ⟨identifier, height, round, body⟩]

/-- The pairs that are hashed for the root of a list of signers. -/
def signersRootPairs (signers : List OperatorId) : List (Digest × Digest) :=
  Merkle.listRootPairs S.hashPair (signers.map fun id => Digest.ofUInt64 id.word) Bounds.signers

/-- The pairs that are hashed for the root of a list of signatures. -/
def signaturesRootPairs (signatures : List S.Signature) : List (Digest × Digest) :=
  (signatures.flatMap fun g =>
    Merkle.bytesRootPairs S.hashPair (S.encodeSignature g) Bounds.signature) ++
  Merkle.listRootPairs S.hashPair
    (signatures.map fun g => Merkle.bytesRoot S.hashPair (S.encodeSignature g) Bounds.signature)
    Bounds.signers

mutual

/-- The pairs that are hashed for the root of a signed message, and for the roots of the values in
it. -/
def rootPairs : SignedMessage S → List (Digest × Digest)
  | ⟨message, signers, signatures⟩ =>
    messageRootPairs message ++ signersRootPairs (S := S) signers ++
      signaturesRootPairs signatures ++
      Merkle.containerRootPairs S.hashPair
        [messageRoot message, signersRoot (S := S) signers, signaturesRoot signatures]

/-- The pairs that are hashed for the root of a message, and for the roots of the values in it. -/
def messageRootPairs : Message S (SignedMessage S) → List (Digest × Digest)
  | ⟨identifier, height, round, body⟩ =>
    let m : Message S (SignedMessage S) := ⟨identifier, height, round, body⟩
    Merkle.bytesRootPairs S.hashPair identifier Bounds.identifier ++ bodyRootPairs body ++
      Merkle.listRootPairs S.hashPair (m.roundChanges.map root) Bounds.justifications ++
      Merkle.listRootPairs S.hashPair (m.prepares.map root) Bounds.justifications ++
      Merkle.containerRootPairs S.hashPair (fieldRoots m)

/-- The pairs that are hashed for the roots of the value and of the messages that a body carries. -/
def bodyRootPairs : Body S (SignedMessage S) → List (Digest × Digest)
  | .propose value roundChanges prepares =>
    value.rootPairs ++ listRootPairs roundChanges ++ listRootPairs prepares
  | .prepare _ => []
  | .commit _ => []
  | .roundChange prepared prepares =>
    (prepared.elim [] fun p => p.value.rootPairs) ++ listRootPairs prepares

/-- The pairs that are hashed for the roots of a list of signed messages. -/
def listRootPairs : List (SignedMessage S) → List (Digest × Digest)
  | [] => []
  | m :: ms => rootPairs m ++ listRootPairs ms

end
end SignedMessage

/-- The pairs that are hashed for what is signed, and for the roots of the values in it. -/
def Message.signingPairs (m : Message S (SignedMessage S)) (domain : Domain) :
    List (Digest × Digest) :=
  (m.root, domain.digest) :: SignedMessage.messageRootPairs m

/-! ### Fields -/

theorem MessageType.tag_inj {t u : MessageType} (h : t.tag = u.tag) : t = u :=
  Option.some.inj (by rw [← ofTag?_tag t, h, ofTag?_tag])

/-- Lists are told apart item by item. -/
theorem eq_of_map_eq {α β : Type} {f : α → β} {xs ys : List α}
    (hf : ∀ x ∈ xs, ∀ y ∈ ys, f x = f y → x = y) (h : xs.map f = ys.map f) : xs = ys := by
  induction xs generalizing ys with
  | nil => exact (List.map_eq_nil_iff.1 h.symm).symm
  | cons x xs ih =>
    cases ys with
    | nil => cases h
    | cons y ys =>
      obtain ⟨hhead, htail⟩ := List.cons.inj h
      rw [hf x List.mem_cons_self y List.mem_cons_self hhead,
        ih (fun x hx y hy => hf x (List.mem_cons_of_mem _ hx) y (List.mem_cons_of_mem _ hy)) htail]

/-- A message is made of the parts that its root is computed of, if values are told apart by their
roots and zero is the round of no preparation. -/
theorem Message.eq_of_parts {J : Type} {m m' : Message S J}
    (hpos : ∀ r, m.preparedRound? = some r → r.word ≠ 0)
    (hpos' : ∀ r, m'.preparedRound? = some r → r.word ≠ 0)
    (hid : m.identifier = m'.identifier) (hheight : m.height.word = m'.height.word)
    (hround : m.round.word = m'.round.word) (htype : m.type = m'.type)
    (hvalueRoot : m.valueRoot?.getD Digest.zero = m'.valueRoot?.getD Digest.zero)
    (hprepared : m.preparedRound?.elim 0 Round.word = m'.preparedRound?.elim 0 Round.word)
    (hroundChanges : m.roundChanges = m'.roundChanges) (hprepares : m.prepares = m'.prepares)
    (hvalue : ∀ v, m.value? = some v → ∀ w, m'.value? = some w → v.root = w.root → v = w) :
    m = m' := by
  obtain ⟨identifier, ⟨height⟩, ⟨round⟩, body⟩ := m
  obtain ⟨identifier', ⟨height'⟩, ⟨round'⟩, body'⟩ := m'
  obtain rfl : identifier = identifier' := hid
  obtain rfl : height = height' := hheight
  obtain rfl : round = round' := hround
  cases body with
  | propose value roundChanges prepares =>
    cases body' with
    | propose value' roundChanges' prepares' =>
      obtain rfl : roundChanges = roundChanges' := hroundChanges
      obtain rfl : prepares = prepares' := hprepares
      obtain rfl : value = value' := hvalue _ rfl _ rfl hvalueRoot
      rfl
    | prepare _ | commit _ | roundChange _ _ => cases htype
  | prepare root =>
    cases body' with
    | prepare root' =>
      obtain rfl : root = root' := hvalueRoot
      rfl
    | propose _ _ _ | commit _ | roundChange _ _ => cases htype
  | commit root =>
    cases body' with
    | commit root' =>
      obtain rfl : root = root' := hvalueRoot
      rfl
    | propose _ _ _ | prepare _ | roundChange _ _ => cases htype
  | roundChange prepared prepares =>
    cases body' with
    | roundChange prepared' prepares' =>
      obtain rfl : prepares = prepares' := hprepares
      -- a preparation of round zero would look like none
      cases prepared with
      | none =>
        cases prepared' with
        | none => rfl
        | some p' => exact absurd hprepared.symm (hpos' _ rfl)
      | some p =>
        cases prepared' with
        | none => exact absurd hprepared (hpos _ rfl)
        | some p' =>
          obtain ⟨⟨r⟩, value⟩ := p
          obtain ⟨⟨r'⟩, value'⟩ := p'
          obtain rfl : r = r' := hprepared
          obtain rfl : value = value' := hvalue _ rfl _ rfl hvalueRoot
          rfl
    | propose _ _ _ | prepare _ | commit _ => cases htype

section Binding

variable {P : Set (Digest × Digest)} (hP : P.InjOn (Function.uncurry S.hashPair))

namespace SignedMessage

theorem mem_listRootPairs {ms : List (SignedMessage S)} {p : Digest × Digest} :
    p ∈ listRootPairs ms ↔ ∃ m ∈ ms, p ∈ rootPairs m := by
  induction ms with
  | nil => simp [listRootPairs]
  | cons m ms ih => simp [listRootPairs, ih]

/-- What the pairs for a message consist of. -/
theorem forall_mem_messageRootPairs {m : Message S (SignedMessage S)} :
    (∀ p ∈ messageRootPairs m, p ∈ P) ↔
      (∀ p ∈ Merkle.bytesRootPairs S.hashPair m.identifier Bounds.identifier, p ∈ P) ∧
      (∀ value, m.value? = some value → ∀ p ∈ value.rootPairs, p ∈ P) ∧
      (∀ x ∈ m.roundChanges, ∀ p ∈ rootPairs x, p ∈ P) ∧
      (∀ x ∈ m.prepares, ∀ p ∈ rootPairs x, p ∈ P) ∧
      (∀ p ∈ Merkle.listRootPairs S.hashPair (m.roundChanges.map root) Bounds.justifications,
        p ∈ P) ∧
      (∀ p ∈ Merkle.listRootPairs S.hashPair (m.prepares.map root) Bounds.justifications,
        p ∈ P) ∧
      ∀ p ∈ Merkle.containerRootPairs S.hashPair (fieldRoots m), p ∈ P := by
  have hbody : (∀ p ∈ bodyRootPairs m.body, p ∈ P) ↔
      (∀ value, m.value? = some value → ∀ p ∈ value.rootPairs, p ∈ P) ∧
        (∀ x ∈ m.roundChanges, ∀ p ∈ rootPairs x, p ∈ P) ∧
        ∀ x ∈ m.prepares, ∀ p ∈ rootPairs x, p ∈ P := by
    have hlist (ms : List (SignedMessage S)) : (∀ p ∈ listRootPairs ms, p ∈ P) ↔
        ∀ x ∈ ms, ∀ p ∈ rootPairs x, p ∈ P := by
      simp only [mem_listRootPairs]
      exact ⟨fun h x hx p hp => h p ⟨x, hx, hp⟩, fun h p ⟨x, hx, hp⟩ => h x hx p hp⟩
    unfold Message.value? Message.roundChanges Message.prepares
    cases m.body with
    | propose value roundChanges prepares =>
      simp only [bodyRootPairs, List.forall_mem_append, hlist, Option.some.injEq, forall_eq',
        and_assoc]
    | prepare root => simp [bodyRootPairs]
    | commit root => simp [bodyRootPairs]
    | roundChange prepared prepares =>
      cases prepared with
      | none => simp only [bodyRootPairs, List.forall_mem_append, hlist, Option.elim_none,
          Option.map_none, List.not_mem_nil, reduceCtorEq, false_implies, implies_true, true_and]
      | some p => simp only [bodyRootPairs, List.forall_mem_append, hlist, Option.elim_some,
          Option.map_some, Option.some.injEq, forall_eq', List.not_mem_nil, false_implies,
          implies_true, true_and]
  obtain ⟨identifier, height, round, body⟩ := m
  simp only [messageRootPairs, List.forall_mem_append, hbody, and_assoc]

include hP

/-- Values are told apart by their roots. -/
theorem value_inj {v w : Value S} (hv : v.data.size < 2 ^ 64) (hw : w.data.size < 2 ^ 64)
    (hpv : ∀ p ∈ v.rootPairs, p ∈ P) (hpw : ∀ p ∈ w.rootPairs, p ∈ P) (h : v.root = w.root) :
    v = w :=
  Value.ext (Merkle.bytesRoot_inj hP hv hw hpv hpw (by rw [← v.root_eq, ← w.root_eq, h]))

/-- Messages are told apart by their roots if what they carry is. -/
theorem messageRoot_inj {m m' : Message S (SignedMessage S)} (hm : m.Measured) (hm' : m'.Measured)
    (hroundChanges : ∀ x ∈ m.roundChanges, ∀ y ∈ m'.roundChanges, root x = root y → x = y)
    (hprepares : ∀ x ∈ m.prepares, ∀ y ∈ m'.prepares, root x = root y → x = y)
    (hp : ∀ p ∈ messageRootPairs m, p ∈ P) (hp' : ∀ p ∈ messageRootPairs m', p ∈ P)
    (h : messageRoot m = messageRoot m') : m = m' := by
  obtain ⟨hpid, hpvalue, -, -, hprcs, hpps, hpfields⟩ := forall_mem_messageRootPairs.1 hp
  obtain ⟨hpid', hpvalue', -, -, hprcs', hpps', hpfields'⟩ := forall_mem_messageRootPairs.1 hp'
  rw [messageRoot_eq, messageRoot_eq] at h
  have hfields := Merkle.containerRoot_inj hP hpfields hpfields' h rfl
  simp only [fieldRoots, List.cons.injEq, Digest.ofUInt64_inj, UInt8.toUInt64_inj, and_true]
    at hfields
  obtain ⟨htag, hheight, hround, hid, hvalueRoot, hprepared, hrcs, hps⟩ := hfields
  have htype : m.type = m'.type := MessageType.tag_inj htag
  have hid := Merkle.bytesRoot_inj hP hm.identifier_lt hm'.identifier_lt hpid hpid' hid
  have hrcs := eq_of_map_eq hroundChanges <| Merkle.listRoot_inj hP
    (by simpa using hm.roundChanges_lt) (by simpa using hm'.roundChanges_lt) hprcs hprcs' hrcs
  have hps := eq_of_map_eq hprepares <| Merkle.listRoot_inj hP
    (by simpa using hm.prepares_lt) (by simpa using hm'.prepares_lt) hpps hpps' hps
  exact Message.eq_of_parts hm.prepared_pos hm'.prepared_pos hid hheight hround htype hvalueRoot
    hprepared hrcs hps fun v hv w hw =>
      value_inj hP (hm.value_lt v hv) (hm'.value_lt w hw) (hpvalue v hv) (hpvalue' w hw)

/-- Signers are told apart by the root of their list. -/
theorem signersRoot_inj {ids ids' : List OperatorId} (hids : ids.length < 2 ^ 64)
    (hids' : ids'.length < 2 ^ 64) (hp : ∀ p ∈ signersRootPairs (S := S) ids, p ∈ P)
    (hp' : ∀ p ∈ signersRootPairs (S := S) ids', p ∈ P)
    (h : signersRoot (S := S) ids = signersRoot (S := S) ids') : ids = ids' := by
  refine eq_of_map_eq (fun ⟨id⟩ _ ⟨id'⟩ _ hid => ?_) <| Merkle.listRoot_inj hP
    (by simpa using hids) (by simpa using hids') hp hp' h
  obtain rfl : id = id' := Digest.ofUInt64_inj.1 hid
  rfl

/-- Signatures are told apart by the root of their list if they are by their bytes. -/
theorem signaturesRoot_inj (hencode : Function.Injective S.encodeSignature)
    {gs gs' : List S.Signature} (hgs : gs.length < 2 ^ 64) (hgs' : gs'.length < 2 ^ 64)
    (hsize : ∀ g ∈ gs, (S.encodeSignature g).size < 2 ^ 64)
    (hsize' : ∀ g ∈ gs', (S.encodeSignature g).size < 2 ^ 64)
    (hp : ∀ p ∈ signaturesRootPairs gs, p ∈ P) (hp' : ∀ p ∈ signaturesRootPairs gs', p ∈ P)
    (h : signaturesRoot gs = signaturesRoot gs') : gs = gs' := by
  simp only [signaturesRootPairs, List.forall_mem_append, List.forall_mem_flatMap] at hp hp'
  obtain ⟨hpg, hp⟩ := hp
  obtain ⟨hpg', hp'⟩ := hp'
  refine eq_of_map_eq (fun g hg g' hg' hroot => ?_) <| Merkle.listRoot_inj hP
    (by simpa using hgs) (by simpa using hgs') hp hp' h
  exact hencode <|
    Merkle.bytesRoot_inj hP (hsize g hg) (hsize' g' hg') (hpg g hg) (hpg' g' hg') hroot

/-- Signed messages are told apart by their roots. -/
theorem eq_of_root_eq (hencode : Function.Injective S.encodeSignature) {m m' : SignedMessage S}
    (hm : m.Digestible) (hm' : m'.Digestible) (hp : ∀ p ∈ rootPairs m, p ∈ P)
    (hp' : ∀ p ∈ rootPairs m', p ∈ P) (h : m.root = m'.root) : m = m' := by
  -- what is carried is told apart first, from the innermost messages on
  induction hm generalizing m' with
  | @intro m measured signers_lt signatures_lt signature_lt _ _ ihRoundChanges ihPrepares =>
    cases hm' with
    | intro measured' signers_lt' signatures_lt' signature_lt' roundChanges' prepares' =>
    obtain ⟨message, signers, signatures⟩ := m
    obtain ⟨message', signers', signatures'⟩ := m'
    simp only [rootPairs, List.forall_mem_append, and_assoc] at hp hp'
    obtain ⟨hpm, hps, hpg, hpfields⟩ := hp
    obtain ⟨hpm', hps', hpg', hpfields'⟩ := hp'
    unfold root at h
    have hfields := Merkle.containerRoot_inj hP hpfields hpfields' h rfl
    simp only [List.cons.injEq, and_true] at hfields
    obtain ⟨hmessage, hsigners, hsignatures⟩ := hfields
    obtain ⟨-, -, hrcs, hpps, -⟩ := forall_mem_messageRootPairs.1 hpm
    obtain ⟨-, -, hrcs', hpps', -⟩ := forall_mem_messageRootPairs.1 hpm'
    obtain rfl : message = message' := messageRoot_inj hP measured measured'
      (fun x hx y hy => ihRoundChanges x hx (roundChanges' y hy) (hrcs x hx) (hrcs' y hy))
      (fun x hx y hy => ihPrepares x hx (prepares' y hy) (hpps x hx) (hpps' y hy)) hpm hpm' hmessage
    obtain rfl : signers = signers' := signersRoot_inj hP signers_lt signers_lt' hps hps' hsigners
    obtain rfl : signatures = signatures' := signaturesRoot_inj hP hencode signatures_lt
      signatures_lt' signature_lt signature_lt' hpg hpg' hsignatures
    rfl

end SignedMessage

include hP in
/-- Messages and domains are told apart by what is signed. -/
theorem Message.eq_of_signingRoot_eq (hencode : Function.Injective S.encodeSignature)
    {m m' : Message S (SignedMessage S)} {d d' : Domain} (hm : m.Digestible) (hm' : m'.Digestible)
    (hp : ∀ p ∈ m.signingPairs d, p ∈ P) (hp' : ∀ p ∈ m'.signingPairs d', p ∈ P)
    (h : m.signingRoot d = m'.signingRoot d') : d = d' ∧ m = m' := by
  obtain ⟨hpd, hpm⟩ := List.forall_mem_cons.1 hp
  obtain ⟨hpd', hpm'⟩ := List.forall_mem_cons.1 hp'
  obtain ⟨hroot, hdomain⟩ := Prod.mk.inj (hP hpd hpd' h)
  obtain ⟨-, -, hrcs, hps, -⟩ := SignedMessage.forall_mem_messageRootPairs.1 hpm
  obtain ⟨-, -, hrcs', hps', -⟩ := SignedMessage.forall_mem_messageRootPairs.1 hpm'
  refine ⟨?_, SignedMessage.messageRoot_inj hP hm.measured hm'.measured (fun x hx y hy => ?_)
    (fun x hx y hy => ?_) hpm hpm' hroot⟩
  · obtain ⟨word⟩ := d
    obtain ⟨word'⟩ := d'
    obtain rfl : word = word' := UInt32.toUInt64_inj.1 (Digest.ofUInt64_inj.1 hdomain)
    rfl
  · exact SignedMessage.eq_of_root_eq hP hencode (hm.roundChanges x hx) (hm'.roundChanges y hy)
      (hrcs x hx) (hrcs' y hy)
  · exact SignedMessage.eq_of_root_eq hP hencode (hm.prepares x hx) (hm'.prepares y hy)
      (hps x hx) (hps' y hy)

end Binding

/-- A signature binds the whole message: two messages with the same signing root are equal, and so
are their domains, if the hash function is injective on the pairs that are hashed for both and the
bytes of signatures tell these apart. Two signed messages with the same root are equal, down to
their signers and signatures. -/
theorem signature_binds_message (hencode : Function.Injective S.encodeSignature) :
    (∀ (m m' : Message S (SignedMessage S)) (d d' : Domain), m.Digestible → m'.Digestible →
      {p | p ∈ m.signingPairs d ∨ p ∈ m'.signingPairs d'}.InjOn (Function.uncurry S.hashPair) →
      m.signingRoot d = m'.signingRoot d' → d = d' ∧ m = m') ∧
    ∀ m m' : SignedMessage S, m.Digestible → m'.Digestible →
      {p | p ∈ m.rootPairs ∨ p ∈ m'.rootPairs}.InjOn (Function.uncurry S.hashPair) →
      m.root = m'.root → m = m' :=
  ⟨fun _ _ _ _ hm hm' hP h =>
    Message.eq_of_signingRoot_eq hP hencode hm hm' (fun _ => .inl) (fun _ => .inr) h,
   fun _ _ hm hm' hP h =>
    SignedMessage.eq_of_root_eq hP hencode hm hm' (fun _ => .inl) (fun _ => .inr) h⟩

/-! ### A forged signature -/

/-- The plain scheme with a hash that is computed of all words of both digests. -/
def Scheme.stirred : Scheme :=
  { Scheme.plain with
    hashPair := fun l r =>
      let word (d : Digest) : UInt64 := d.word0 + 31 * (d.word1 + 31 * (d.word2 + 31 * d.word3))
      Digest.ofUInt64 (0x9e3779b97f4a7c15 * word l + 0xc2b2ae3d27d4eb4f * word r + 1) }

namespace Scheme.stirred

/-- The domain of all signatures. -/
def domain : Domain := ⟨0⟩

/-- What was prepared. -/
def value : Value stirred := .ofBytes ⟨#[7]⟩

/-- A prepare of member 1. -/
def prepare : SignedMessage stirred :=
  (⟨⟨1⟩, (1 : UInt64)⟩ : Signer stirred).signMessage domain
    ⟨⟨#[1]⟩, Height.first, Round.first, .prepare value.root⟩

/-- The prepare under another signature. -/
def forged : SignedMessage stirred := { prepare with signatures := [((1 : UInt64), Digest.zero)] }

/-- A request for the second round that carries a prepare. -/
def request (prepare : SignedMessage stirred) : Message stirred (SignedMessage stirred) :=
  ⟨⟨#[1]⟩, Height.first, ⟨2⟩, .roundChange (some ⟨Round.first, value⟩) [prepare]⟩

/-- The pairs that are hashed to sign both requests. -/
def pairs : List (Digest × Digest) :=
  (request prepare).signingPairs domain ++ (request forged).signingPairs domain

theorem encodeSignature_injective : Function.Injective stirred.encodeSignature := by
  intro (g : UInt64 × Digest) (g' : UInt64 × Digest) h
  have hg := plain.decodeSignature_encodeSignature g
  rw [show plain.encodeSignature g = plain.encodeSignature g' from h,
    plain.decodeSignature_encodeSignature g'] at hg
  exact (Except.ok.inj hg).symm

/-- The hash of a pair tells the pairs apart by its first word. -/
theorem injOn_pairs : {p | p ∈ pairs}.InjOn (Function.uncurry stirred.hashPair) := by
  have hwords : pairs.Pairwise fun p q =>
      (stirred.hashPair p.1 p.2).word0.toNat = (stirred.hashPair q.1 q.2).word0.toNat → p = q := by
    decide +kernel
  intro p hp q hq h
  have hback := hwords.imp fun hpq h => (hpq (Eq.symm h)).symm
  exact hwords.forall_of_forall_of_flip (fun _ _ _ => rfl) hback hp hq
    (congrArg (fun d : Digest => d.word0.toNat) h)

theorem prepare_digestible (g : stirred.Signature) :
    SignedMessage.Digestible { prepare with signatures := [g] } := by
  have hsize (g : stirred.Signature) : (stirred.encodeSignature g).size < 2 ^ 64 := by
    rw [show (stirred.encodeSignature g).size = 40 from plain.size_encodeSignature g]
    decide
  have hone : 1 < 2 ^ 64 := by decide
  have hzero : 0 < 2 ^ 64 := by decide
  exact .intro ⟨hone, nofun, hzero, hzero, nofun⟩ hone hone (fun g _ => hsize g) nofun nofun

theorem request_digestible {m : SignedMessage stirred} (hm : m.Digestible) :
    (request m).Digestible where
  measured := by
    have hone : 1 < 2 ^ 64 := by decide
    have hzero : 0 < 2 ^ 64 := by decide
    refine ⟨hone, ?_, hzero, hone, ?_⟩
    · rintro _ ⟨⟩
      exact hone
    · rintro _ ⟨⟩
      decide
  roundChanges := nofun
  prepares := List.forall_mem_singleton.2 hm

/-- The pairs for a prepare are among those for the request that carries it. -/
theorem mem_signingPairs_request {m : SignedMessage stirred} {p : Digest × Digest}
    (hp : p ∈ m.rootPairs) : p ∈ (request m).signingPairs domain := by
  obtain ⟨-, -, -, hprepares, -⟩ := (SignedMessage.forall_mem_messageRootPairs
    (P := {p | p ∈ SignedMessage.messageRootPairs (request m)})).1 fun _ hp => hp
  exact List.mem_cons_of_mem _ (hprepares m (List.mem_singleton_self m) p hp)

end Scheme.stirred

open Scheme.stirred in
/-- Another signature under a prepare changes what is signed for the request that carries it. -/
theorem forged_signature_changes_roots :
    (request prepare).signingRoot domain ≠ (request forged).signingRoot domain ∧
      prepare.root ≠ forged.root := by
  have hne : prepare ≠ forged := by
    rw [Ne, ← SignedMessage.same_iff]
    decide +kernel
  have hprepare : prepare.Digestible := prepare_digestible _
  have hforged : forged.Digestible := prepare_digestible _
  obtain ⟨hsigning, hroot⟩ := signature_binds_message encodeSignature_injective
  constructor
  · intro h
    have hP := injOn_pairs.mono fun p hp => List.mem_append.2 hp
    have hrequest :=
      (hsigning _ _ _ _ (request_digestible hprepare) (request_digestible hforged) hP h).2
    exact hne (List.cons.inj (congrArg Message.prepares hrequest)).1
  · intro h
    have hP : {p | p ∈ prepare.rootPairs ∨ p ∈ forged.rootPairs}.InjOn _ :=
      injOn_pairs.mono fun p hp =>
        List.mem_append.2 (hp.imp mem_signingPairs_request mem_signingPairs_request)
    exact hne (hroot _ _ hprepare hforged hP h)

end Conclave
