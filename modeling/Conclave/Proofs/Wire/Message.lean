import Conclave.Wire.Decode
import Conclave.Wire.Encode
import Conclave.Proofs.Wire.Layout

/-!
# The bytes of a message

Encoding and decoding go part by part. For each part there is one statement that says when it is
written and one that says when it is read, both in terms of the bytes:

* `encode_eq_ok_iff` and `decodeLevels_eq_ok_iff` are about a signed message,
* `encodeMessage_eq_ok_iff` and `decodeMessage_eq_ok_iff` about the message in it,
* `decodeSigners_eq_ok_iff` and `decodeJustifications_eq_ok_iff` about its lists.

Offsets have 32 bits, so the statements about reading are for less than `2 ^ 32` bytes.
-/

namespace Conclave
namespace Wire

variable {S : Scheme} {b : ByteArray}

theorem eq_tag_of_ofTag? {tag : UInt8} {type : MessageType}
    (h : MessageType.ofTag? tag = some type) : tag = type.tag := by
  unfold MessageType.ofTag? at h
  split_ifs at h <;> cases h <;> assumption

theorem readType_eq_ok_iff {tag : UInt8} {type : MessageType} :
    readType tag = .ok type ↔ tag = type.tag := by
  constructor
  · intro h
    unfold readType at h
    split at h
    · rename_i htype
      cases h
      exact eq_tag_of_ofTag? htype
    · cases h
  · rintro rfl
    rw [readType, MessageType.ofTag?_tag]

/-! ### The message -/

/-- The parts of an encoded message. -/
def messageParts (type : MessageType) (height round : UInt64) (root : Digest)
    (preparedRound : UInt64) (identifier value roundChanges prepares : ByteArray) :
    List ByteArray :=
  [ByteArray.empty.push type.tag,
    LittleEndian.ofUInt64 height,
    LittleEndian.ofUInt64 round,
    offset messageHead,
    root.toBytes,
    LittleEndian.ofUInt64 preparedRound,
    offset (messageHead + identifier.size),
    offset (messageHead + identifier.size + value.size),
    offset (messageHead + identifier.size + value.size + roundChanges.size),
    identifier, value, roundChanges, prepares]

section Parts

variable {type : MessageType} {height round : UInt64} {root : Digest} {preparedRound : UInt64}
  {identifier value roundChanges prepares : ByteArray}

theorem size_justifications_lt {n : ℕ} (hb : b.size < n)
    (h : b = concat (messageParts type height round root preparedRound identifier value roundChanges
      prepares)) : roundChanges.size < n ∧ prepares.size < n := by
  rw [h] at hb
  exact ⟨(size_le_concat (by simp [messageParts])).trans_lt hb,
    (size_le_concat (by simp [messageParts])).trans_lt hb⟩

/-- Where the parts of a message are. -/
theorem eq_messageParts_iff :
    b = concat (messageParts type height round root preparedRound identifier value roundChanges
        prepares) ↔
      byteAt b 0 = .ok type.tag ∧ uint64At b 1 = .ok height ∧ uint64At b 9 = .ok round ∧
        (21 ≤ b.size ∧ b.extract 17 21 = offset messageHead) ∧ digestAt b 21 = .ok root ∧
        uint64At b 53 = .ok preparedRound ∧
        (65 ≤ b.size ∧ b.extract 61 65 = offset (messageHead + identifier.size)) ∧
        (69 ≤ b.size ∧ b.extract 65 69 = offset (messageHead + identifier.size + value.size)) ∧
        (73 ≤ b.size ∧ b.extract 69 73 =
          offset (messageHead + identifier.size + value.size + roundChanges.size)) ∧
        Follows b messageHead [identifier, value, roundChanges, prepares] := by
  rw [byteAt_eq_ok_iff, uint64At_eq_ok_iff, uint64At_eq_ok_iff, digestAt_eq_ok_iff,
    uint64At_eq_ok_iff, ← follows_zero, messageParts, follows_cons, follows_cons, follows_cons,
    follows_cons, follows_cons, follows_cons, follows_cons, follows_cons, follows_cons]
  simp only [ByteArray.size_push, ByteArray.size_empty, LittleEndian.size_ofUInt64, size_offset,
    Digest.size_toBytes, messageHead, Nat.reduceAdd, and_assoc]

end Parts

/-- The message that is read from its parts. -/
theorem decodeMessage_eq_ok_iff {read : ByteArray → Except Error (SignedMessage S)}
    (hb : b.size < 2 ^ 32) {m : Message S (SignedMessage S)} :
    decodeMessage read b = .ok m ↔ ∃ type root preparedRound value roundChanges prepares,
      b = concat (messageParts type m.height.word m.round.word root preparedRound m.identifier
        value roundChanges prepares) ∧
      m.identifier.size ≤ Bounds.identifier ∧ value.size ≤ Bounds.value ∧
      decodeBody read type root preparedRound value roundChanges prepares = .ok m.body := by
  simp only [decodeMessage, throw_eq_error, error_bind, bind_eq_ok_iff, ite_error_eq_ok_iff,
    not_lt, readType_eq_ok_iff]
  constructor
  · rintro ⟨hhead, _, htype, type, rfl, height, hheight, round, hround, i, hi, root, hroot,
      preparedRound, hprepared, v, hv, r, hr, p, hp, parts, hsplit, h⟩
    obtain ⟨hpos, hfollows⟩ := (split_eq_ok_iff (List.cons_ne_nil _ _)).1 hsplit
    split at h
    · rename_i identifier value roundChanges prepares
      simp only [positions, List.cons.injEq, and_true] at hpos
      obtain ⟨rfl, rfl, rfl, rfl⟩ := hpos
      simp only [bind_eq_ok_iff, exists_unit_iff, checkBound_eq_ok_iff, pure_eq_ok,
        Except.ok.injEq] at h
      obtain ⟨hidentifier, hvalue, body, hbody, rfl⟩ := h
      refine ⟨type, root, preparedRound, value, roundChanges, prepares, ?_, hidentifier, hvalue,
        hbody⟩
      rw [offsetAt_eq_ok_iff] at hi hv hr hp
      exact eq_messageParts_iff.2 ⟨htype, hheight, hround, ⟨hi.1, hi.2.2⟩, hroot, hprepared,
        ⟨hv.1, hv.2.2⟩, ⟨hr.1, hr.2.2⟩, ⟨hp.1, hp.2.2⟩, hfollows⟩
    · cases h
  · rintro ⟨type, root, preparedRound, value, roundChanges, prepares, hparts, hidentifier, hvalue,
      hbody⟩
    obtain ⟨htype, hheight, hround, hi, hroot, hprepared, hv, hr, hp, hfollows⟩ :=
      eq_messageParts_iff.1 hparts
    -- an offset that is written with 32 bits is read back, since it lies within the bytes
    have hlt : ∀ n ∈ positions messageHead [m.identifier, value, roundChanges, prepares],
        n < 2 ^ 32 := fun n hn => (le_size_of_mem_positions hfollows hn).trans_lt hb
    simp only [positions, List.forall_mem_cons, List.not_mem_nil, false_imp_iff, implies_true,
      and_true] at hlt
    refine ⟨hp.1, _, htype, type, rfl, _, hheight, _, hround, _,
      offsetAt_eq_ok_iff.2 ⟨hi.1, hlt.1, hi.2⟩, root, hroot, preparedRound, hprepared, _,
      offsetAt_eq_ok_iff.2 ⟨hv.1, hlt.2.1, hv.2⟩, _, offsetAt_eq_ok_iff.2 ⟨hr.1, hlt.2.2.1, hr.2⟩,
      _, offsetAt_eq_ok_iff.2 ⟨hp.1, hlt.2.2.2, hp.2⟩, _,
      (split_eq_ok_iff (List.cons_ne_nil _ _)).2 ⟨rfl, hfollows⟩, ?_⟩
    simp only [bind_eq_ok_iff, exists_unit_iff, checkBound_eq_ok_iff, pure_eq_ok, Except.ok.injEq]
    exact ⟨hidentifier, hvalue, m.body, hbody, rfl⟩

/-- The bytes that are written for a message. -/
theorem encodeMessage_eq_ok_iff {m : Message S (SignedMessage S)} :
    encodeMessage m = .ok b ↔ ∃ roundChanges prepares,
      m.identifier.size ≤ Bounds.identifier ∧
      (m.value?.elim ByteArray.empty Value.data).size ≤ Bounds.value ∧
      encodeBody m.body = .ok (roundChanges, prepares) ∧
      b = concat (messageParts m.type m.height.word m.round.word (m.valueRoot?.getD Digest.zero)
        (m.preparedRound?.elim 0 Round.word) m.identifier
        (m.value?.elim ByteArray.empty Value.data) roundChanges prepares) := by
  obtain ⟨identifier, height, round, body⟩ := m
  simp only [encodeMessage, bind_eq_ok_iff, exists_unit_iff, checkBound_eq_ok_iff, pure_eq_ok,
    Except.ok.injEq, Prod.exists]
  constructor
  · rintro ⟨hidentifier, hvalue, roundChanges, prepares, hbody, rfl⟩
    exact ⟨roundChanges, prepares, hidentifier, hvalue, hbody, rfl⟩
  · rintro ⟨roundChanges, prepares, hidentifier, hvalue, hbody, rfl⟩
    exact ⟨hidentifier, hvalue, roundChanges, prepares, hbody, rfl⟩

/-! ### The signed message -/

theorem encodeSigners_eq (signers : List OperatorId) :
    encodeSigners signers =
      concat (signers.map fun id => LittleEndian.ofUInt64 id.word) := rfl

theorem size_word (id : OperatorId) : (LittleEndian.ofUInt64 id.word).size = 8 := rfl

theorem size_encodeSigners (signers : List OperatorId) :
    (encodeSigners signers).size = 8 * signers.length := by
  rw [encodeSigners_eq, size_concat_map size_word]

/-- Signers are read from their encoding and from nothing else. -/
theorem decodeSigners_eq_ok_iff {signers : List OperatorId} :
    decodeSigners b = .ok signers ↔
      signers.length ≤ Bounds.signers ∧ b = encodeSigners signers := by
  have hread : ∀ i (id : OperatorId), OperatorId.mk <$> uint64At b (8 * i) = .ok id ↔
      8 * i + 8 ≤ b.size ∧ True ∧
        b.extract (8 * i) (8 * i + 8) = LittleEndian.ofUInt64 id.word := by
    intro i id
    rw [map_eq_ok_iff]
    constructor
    · rintro ⟨w, hw, rfl⟩
      obtain ⟨hle, heq⟩ := uint64At_eq_ok_iff.1 hw
      exact ⟨hle, trivial, heq⟩
    · rintro ⟨hle, -, heq⟩
      exact ⟨id.word, uint64At_eq_ok_iff.2 ⟨hle, heq⟩, rfl⟩
  simp only [decodeSigners, throw_eq_error, error_bind, bind_eq_ok_iff, exists_unit_iff,
    ite_error_eq_ok_iff, checkBound_eq_ok_iff, Decidable.not_not,
    mapM_range_eq_ok_iff size_word hread, ← encodeSigners_eq]
  constructor
  · rintro ⟨hmod, hbound, hlen, -, -, heq⟩
    rw [Nat.mul_div_cancel' (Nat.dvd_of_mod_eq_zero hmod), ByteArray.extract_zero_size] at heq
    exact ⟨hlen ▸ hbound, heq⟩
  · rintro ⟨hbound, rfl⟩
    have hsize := size_encodeSigners signers
    have hcount : (encodeSigners signers).size / 8 = signers.length := by omega
    refine ⟨by omega, by omega, hcount.symm, fun _ _ => trivial, by omega, ?_⟩
    rw [hcount, ← hsize, ByteArray.extract_zero_size]

/-- The three parts of a signed message are laid out like a list. -/
theorem joinList_three (signers signatures message : ByteArray) :
    joinList [signers, signatures, message] =
      offsets signedMessageHead [signers, signatures, message] ++
        concat [signers, signatures, message] := rfl

/-- The bytes that are written for a signed message. -/
theorem encode_eq_ok_iff {m : SignedMessage S} :
    encode m = .ok b ↔ m.signers.length ≤ Bounds.signers ∧
      m.signers.length = m.signatures.length ∧
      (∀ g ∈ m.signatures, (S.encodeSignature g).size ≤ Bounds.signature) ∧
      ∃ message, encodeMessage m.message = .ok message ∧
        b = joinList [encodeSigners m.signers, joinList (m.signatures.map S.encodeSignature),
          message] := by
  obtain ⟨message, signers, signatures⟩ := m
  simp only [encode, throw_eq_error, error_bind, bind_eq_ok_iff, exists_unit_iff,
    ite_error_eq_ok_iff, checkBound_eq_ok_iff, forM_eq_ok_iff, List.forall_mem_map, pure_eq_ok,
    Except.ok.injEq, Decidable.not_not, joinList_three, eq_comm (a := b)]

/-- The signed message that is read from its three parts. -/
theorem decodeLevels_eq_ok_iff {levels : ℕ} (hb : b.size < 2 ^ 32) {m : SignedMessage S} :
    decodeLevels (levels + 1) b = .ok m ↔ ∃ signatures message,
      b = joinList [encodeSigners m.signers, joinList signatures, message] ∧
      m.signers.length ≤ Bounds.signers ∧ m.signers.length = signatures.length ∧
      signatures.mapM decodeSignature = .ok m.signatures ∧
      decodeMessage (decodeLevels levels) message = .ok m.message := by
  simp only [decodeLevels, throw_eq_error, error_bind, bind_eq_ok_iff, ite_error_eq_ok_iff, not_lt]
  constructor
  · rintro ⟨-, starts, hstarts, parts, hsplit, h⟩
    obtain ⟨-, hjoin⟩ := (exists_split_iff (by decide : 0 < 3) hb).1 ⟨starts, hstarts, hsplit⟩
    split at h
    · rename_i signersBytes signaturesBytes message
      simp only [bind_eq_ok_iff, ite_error_eq_ok_iff, Decidable.not_not, pure_eq_ok,
        Except.ok.injEq] at h
      obtain ⟨signers, hsigners, items, hitems, hlen, signatures, hsignatures, message', hmessage,
        rfl⟩ := h
      obtain ⟨hbound, rfl⟩ := decodeSigners_eq_ok_iff.1 hsigners
      have hsize : signaturesBytes.size < 2 ^ 32 := size_lt_of_eq_joinList hb hjoin (by simp)
      obtain ⟨-, rfl⟩ := (splitList_eq_ok_iff hsize).1 hitems
      exact ⟨items, message, hjoin, hbound, hlen, hsignatures, hmessage⟩
    · cases h
  · rintro ⟨items, message, hjoin, hbound, hlen, hsignatures, hmessage⟩
    obtain ⟨message', signers, signatures⟩ := m
    obtain ⟨starts, hstarts, hsplit⟩ :=
      (exists_split_iff (by decide : 0 < 3) hb).2 ⟨rfl, hjoin⟩
    have hsize : (joinList items).size < 2 ^ 32 := size_lt_of_eq_joinList hb hjoin (by simp)
    refine ⟨(eq_joinList_iff.1 hjoin).1.1, starts, hstarts, _, hsplit, ?_⟩
    simp only [bind_eq_ok_iff, ite_error_eq_ok_iff, Decidable.not_not, pure_eq_ok, Except.ok.injEq]
    exact ⟨signers, decodeSigners_eq_ok_iff.2 ⟨hbound, rfl⟩, items,
      (splitList_eq_ok_iff hsize).2 ⟨hlen ▸ hbound, rfl⟩, hlen, signatures, hsignatures,
      message', hmessage, rfl⟩

/-! ### Justifications -/

theorem encodeList_eq_ok_iff {ms : List (SignedMessage S)} {items : List ByteArray} :
    encodeList ms = .ok items ↔ List.Forall₂ (fun m item => encode m = .ok item) ms items := by
  induction ms generalizing items with
  | nil => rw [encodeList, Except.ok.injEq, List.forall₂_nil_left_iff, eq_comm]
  | cons m ms ih =>
    simp only [encodeList, bind_eq_ok_iff, ih, pure_eq_ok, Except.ok.injEq]
    constructor
    · rintro ⟨item, hitem, items, hitems, rfl⟩
      exact .cons hitem hitems
    · rintro (_ | ⟨hitem, hitems⟩)
      exact ⟨_, hitem, _, hitems, rfl⟩

/-- Justifications are read from a list of items, each of the right kind. -/
theorem decodeJustifications_eq_ok_iff {read : ByteArray → Except Error (SignedMessage S)}
    {type parent : MessageType} (hb : b.size < 2 ^ 32) {ms : List (SignedMessage S)} :
    decodeJustifications read b type parent = .ok ms ↔ ∃ items : List ByteArray,
      items.length ≤ Bounds.justifications ∧ b = joinList items ∧
      List.Forall₂ (fun item m => peekType item = .ok type ∧ read item = .ok m) items ms := by
  have hitem : ∀ item (m : SignedMessage S),
      (∃ t, peekType item = .ok t ∧ t = type ∧ read item = .ok m) ↔
        peekType item = .ok type ∧ read item = .ok m := by
    intro item m
    constructor
    · rintro ⟨_, hpeek, rfl, hread⟩
      exact ⟨hpeek, hread⟩
    · rintro ⟨hpeek, hread⟩
      exact ⟨type, hpeek, rfl, hread⟩
  simp only [decodeJustifications, throw_eq_error, error_bind, bind_eq_ok_iff,
    splitList_eq_ok_iff hb, mapM_eq_ok_iff, ite_error_eq_ok_iff, Decidable.not_not, hitem,
    and_assoc]

/-- The kind of an encoded message can be read without reading the message. -/
theorem peekType_of_encode (hb : b.size < 2 ^ 32) {m : SignedMessage S} (h : encode m = .ok b) :
    peekType b = .ok m.type := by
  obtain ⟨-, -, -, message, hmessage, hjoin⟩ := encode_eq_ok_iff.1 h
  obtain ⟨roundChanges, prepares, -, -, -, rfl⟩ := encodeMessage_eq_ok_iff.1 hmessage
  -- the third offset and the tag that it leads to
  generalize encodeSigners m.signers = s at hjoin
  generalize joinList (m.signatures.map S.encodeSignature) = g at hjoin
  have hparts : b = concat (offset 12 :: offset (12 + s.size) :: offset (12 + s.size + g.size) ::
      s :: g :: messageParts m.message.type m.message.height.word m.message.round.word
        (m.message.valueRoot?.getD Digest.zero) (m.message.preparedRound?.elim 0 Round.word)
        m.message.identifier (m.message.value?.elim ByteArray.empty Value.data) roundChanges
        prepares) := by
    rw [hjoin, joinList_three]
    simp only [offsets, signedMessageHead, concat_cons, concat_nil, ByteArray.append_empty,
      ByteArray.append_assoc]
  rw [← follows_zero, messageParts, follows_cons, follows_cons, follows_cons, follows_cons,
    follows_cons, follows_cons] at hparts
  simp only [size_offset, Nat.reduceAdd] at hparts
  obtain ⟨-, -, ⟨hle, hoffset⟩, -, -, ⟨htag, hbyte⟩, -⟩ := hparts
  have hstart : offsetAt b (2 * offsetSize) = .ok (12 + s.size + g.size) :=
    offsetAt_eq_ok_iff.2 ⟨hle, by omega, hoffset⟩
  have hread := byteAt_eq_ok_iff.2 ⟨htag, hbyte⟩
  unfold byteAt at hread
  split at hread
  · rename_i hlt
    rw [peekType, hstart, ok_bind, dif_pos hlt, readType_eq_ok_iff]
    exact Except.ok.inj hread
  · cases hread

end Wire
end Conclave
