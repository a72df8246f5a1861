import Conclave.Ed25519.Scheme
import Conclave.Proofs.PlainScheme
import Conclave.Proofs.Wire.RoundTrip
import Mathlib.Algebra.GroupWithZero.Nat
import Mathlib.Algebra.Order.BigOperators.Group.List

/-!
# The sizes of encodings

A message is encoded if its parts are within their bounds. Its encoding is read back if in addition
it is within the bound on whole encodings, which is asked of the reader only.

* `encodedSize` is the size of the encoding, computed from the message (`size_encode`);
* `Writable` are the messages that are encoded and have the shape of the wire; `WireSafe` are those
  that are read back from their encoding. A writable message is safe exactly if its size is within
  the bound (`Writable.wireSafe_iff`), which it always is unless it is a proposal
  (`Writable.wireSafe`);
* `WritableBody` says what a message may carry so that it is writable (`writable_iff`).
-/

namespace Conclave
namespace Wire

variable {S : Scheme}

/-! ### Schemes -/

/-- Signatures are read back from their bytes, which are the only ones for them and not too many. -/
structure SignatureCodec (S : Scheme) : Prop where
  decode_encode : ∀ g, S.decodeSignature (S.encodeSignature g) = .ok g
  encode_decode : ∀ b g, S.decodeSignature b = .ok g → S.encodeSignature g = b
  size_le : ∀ g, (S.encodeSignature g).size ≤ Bounds.signature

theorem signatureCodec_ed25519 : SignatureCodec ed25519 where
  decode_encode g := by
    change Ed25519.Signature.ofBytes g.bytes = .ok g
    rw [Ed25519.Signature.ofBytes, dif_pos g.size_eq]
  encode_decode b g h := by
    change Ed25519.Signature.ofBytes b = .ok g at h
    change g.bytes = b
    unfold Ed25519.Signature.ofBytes at h
    split at h
    · cases h
      rfl
    · cases h
  size_le g := g.size_eq.trans_le (by decide)

theorem signatureCodec_plain : SignatureCodec Scheme.plain where
  decode_encode := Scheme.plain.decodeSignature_encodeSignature
  encode_decode := Scheme.plain.encodeSignature_of_decodeSignature
  size_le g := (Scheme.plain.size_encodeSignature g).trans_le (by decide)

/-! ### Sizes -/

mutual

/-- The size of the encoding of a signed message. -/
def encodedSize : SignedMessage S → ℕ
  | ⟨message, signers, signatures⟩ =>
    signedMessageHead + 8 * signers.length +
      (signatures.map fun g => offsetSize + (S.encodeSignature g).size).sum + messageSize message

/-- The size of the encoding of a message. -/
def messageSize : Message S (SignedMessage S) → ℕ
  | ⟨identifier, _, _, body⟩ => messageHead + identifier.size + bodySize body

/-- The size of what a body carries. -/
def bodySize : Body S (SignedMessage S) → ℕ
  | .propose value roundChanges prepares =>
    value.data.size + listSize roundChanges + listSize prepares
  | .prepare _ => 0
  | .commit _ => 0
  | .roundChange prepared prepares =>
    (prepared.elim 0 fun p => p.value.data.size) + listSize prepares

/-- The size of a list of messages. -/
def listSize : List (SignedMessage S) → ℕ
  | [] => 0
  | m :: ms => offsetSize + encodedSize m + listSize ms

end

theorem size_concat (parts : List ByteArray) :
    (concat parts).size = (parts.map ByteArray.size).sum := by
  induction parts with
  | nil => rfl
  | cons p parts ih => rw [concat_cons, ByteArray.size_append, ih, List.map_cons, List.sum_cons]

theorem size_joinList (items : List ByteArray) :
    (joinList items).size = (items.map fun item => offsetSize + item.size).sum := by
  rw [joinList, ByteArray.size_append, size_offsets, size_concat]
  induction items with
  | nil => rfl
  | cons item items ih =>
    simp only [List.length_cons, List.map_cons, List.sum_cons, offsetSize] at ih ⊢
    omega

mutual

/-- The encoding has the size that is computed from the message. -/
theorem size_encode : ∀ (m : SignedMessage S) (b : ByteArray), encode m = .ok b →
    b.size = encodedSize m
  | ⟨message, signers, signatures⟩, b, h => by
    obtain ⟨-, -, -, bytes, hbytes, rfl⟩ := encode_eq_ok_iff.1 h
    have hsize := size_encodeMessage message bytes hbytes
    rw [size_joinList, encodedSize, ← hsize]
    simp only [List.map_cons, List.map_nil, List.sum_cons, List.sum_nil, size_encodeSigners,
      size_joinList, List.map_map, Function.comp_def, offsetSize, signedMessageHead]
    omega

theorem size_encodeMessage : ∀ (m : Message S (SignedMessage S)) (b : ByteArray),
    encodeMessage m = .ok b → b.size = messageSize m
  | ⟨identifier, height, round, body⟩, b, h => by
    obtain ⟨roundChanges, prepares, -, -, hbody, rfl⟩ := encodeMessage_eq_ok_iff.1 h
    have hsize := size_encodeBody body identifier height round roundChanges prepares hbody
    rw [messageSize, ← hsize, size_concat, messageParts]
    simp only [List.map_cons, List.map_nil, List.sum_cons, List.sum_nil, ByteArray.size_push,
      ByteArray.size_empty, LittleEndian.size_ofUInt64, size_offset, Digest.size_toBytes,
      messageHead]
    omega

theorem size_encodeBody : ∀ (body : Body S (SignedMessage S)) (identifier : ByteArray)
    (height : Height) (round : Round) (roundChanges prepares : ByteArray),
    encodeBody body = .ok (roundChanges, prepares) →
      ((Message.value? ⟨identifier, height, round, body⟩).elim ByteArray.empty Value.data).size +
        roundChanges.size + prepares.size = bodySize body
  | .propose value rcs ps, _, _, _, roundChanges, prepares, h => by
    simp only [encodeBody, bind_eq_ok_iff, exists_unit_iff, checkBound_eq_ok_iff, pure_eq_ok,
      Except.ok.injEq, Prod.mk.injEq] at h
    obtain ⟨-, rcItems, hrcs, -, psItems, hps, rfl, rfl⟩ := h
    rw [size_encodeList rcs rcItems hrcs, size_encodeList ps psItems hps]
    rfl
  | .prepare root, _, _, _, roundChanges, prepares, h => by
    cases h
    rfl
  | .commit root, _, _, _, roundChanges, prepares, h => by
    cases h
    rfl
  | .roundChange prepared ps, _, _, _, roundChanges, prepares, h => by
    simp only [encodeBody, bind_eq_ok_iff, exists_unit_iff, checkBound_eq_ok_iff, pure_eq_ok,
      Except.ok.injEq, Prod.mk.injEq] at h
    obtain ⟨-, psItems, hps, rfl, rfl⟩ := h
    rw [size_encodeList ps psItems hps]
    cases prepared <;> rfl

theorem size_encodeList : ∀ (ms : List (SignedMessage S)) (items : List ByteArray),
    encodeList ms = .ok items → (joinList items).size = listSize ms
  | [], items, h => by
    cases h
    rfl
  | m :: ms, items, h => by
    simp only [encodeList, bind_eq_ok_iff, pure_eq_ok, Except.ok.injEq] at h
    obtain ⟨item, hitem, rest, hrest, rfl⟩ := h
    have hhead := size_encode m item hitem
    have htail := size_encodeList ms rest hrest
    rw [size_joinList] at htail ⊢
    rw [List.map_cons, List.sum_cons, htail, hhead, listSize]

end

/-! ### What is written and read back -/

/-- A message that is read back from its encoding. -/
def WireSafe (m : SignedMessage S) : Prop := ∃ b, encode m = .ok b ∧ decode b = .ok m

/-- A message that is encoded, and that is read back from its encoding but for the size. -/
structure Writable (m : SignedMessage S) : Prop where
  encodes : ∃ b, encode m = .ok b
  shaped : Shaped m

theorem WireSafe.writable (hcodec : SignatureCodec S) {m : SignedMessage S} (h : WireSafe m) :
    Writable m := by
  obtain ⟨b, hencode, hdecode⟩ := h
  exact ⟨⟨b, hencode⟩, (encode_decode hcodec.encode_decode hdecode).2.2.1⟩

/-- A writable message is read back exactly if its encoding is within the bound. -/
theorem Writable.wireSafe_iff (hcodec : SignatureCodec S) {m : SignedMessage S}
    (h : Writable m) : WireSafe m ↔ encodedSize m ≤ Bounds.encoding := by
  obtain ⟨b, hencode⟩ := h.encodes
  have hsize := size_encode m b hencode
  constructor
  · rintro ⟨b', hencode', hdecode⟩
    obtain rfl := Except.ok.inj (hencode.symm.trans hencode')
    simp only [decode, bind_eq_ok_iff, exists_unit_iff, checkBound_eq_ok_iff] at hdecode
    exact hsize ▸ hdecode.1
  · intro hle
    exact ⟨b, hencode, decode_encode hcodec.decode_encode h.shaped hencode (hsize ▸ hle)⟩

theorem exists_encodeList_iff {ms : List (SignedMessage S)} :
    (∃ items, encodeList ms = .ok items) ↔ ∀ m ∈ ms, ∃ b, encode m = .ok b := by
  induction ms with
  | nil => exact iff_of_true ⟨[], rfl⟩ nofun
  | cons m ms ih =>
    simp only [encodeList, bind_eq_ok_iff, pure_eq_ok, Except.ok.injEq, List.forall_mem_cons, ← ih]
    constructor
    · rintro ⟨-, item, hitem, items, hitems, -⟩
      exact ⟨⟨item, hitem⟩, items, hitems⟩
    · rintro ⟨⟨item, hitem⟩, items, hitems⟩
      exact ⟨_, item, hitem, items, hitems, rfl⟩

/-- Justifications that can be written as those of one kind. -/
structure WritableList (type : MessageType) (ms : List (SignedMessage S)) : Prop where
  length_le : ms.length ≤ Bounds.justifications
  type_eq : ∀ x ∈ ms, x.type = type
  writable : ∀ x ∈ ms, Writable x

/-- What a writable message says and carries. -/
inductive WritableBody : Body S (SignedMessage S) → Prop
  | propose {value : Value S} {roundChanges prepares : List (SignedMessage S)}
      (hvalue : value.data.size ≤ Bounds.value)
      (hroundChanges : WritableList .roundChange roundChanges)
      (hprepares : WritableList .prepare prepares) :
      WritableBody (.propose value roundChanges prepares)
  | prepare (root : Digest) : WritableBody (.prepare root)
  | commit (root : Digest) : WritableBody (.commit root)
  /-- A round change without a preparation. -/
  | unprepared : WritableBody (.roundChange none [])
  /-- A round change with a preparation. -/
  | prepared {p : Prepared S} {prepares : List (SignedMessage S)}
      (hvalue : p.value.data.size ≤ Bounds.value) (hround : p.round.word ≠ 0)
      (hprepares : WritableList .prepare prepares) : WritableBody (.roundChange (some p) prepares)

theorem writableList_iff {type : MessageType} {ms : List (SignedMessage S)} :
    WritableList type ms ↔ (ms.length ≤ Bounds.justifications ∧
      ∃ items, encodeList ms = .ok items) ∧ (∀ x ∈ ms, x.type = type) ∧ ∀ x ∈ ms, Shaped x := by
  rw [exists_encodeList_iff]
  constructor
  · rintro ⟨hlen, htype, hms⟩
    exact ⟨⟨hlen, fun x hx => (hms x hx).encodes⟩, htype, fun x hx => (hms x hx).shaped⟩
  · rintro ⟨⟨hlen, hencode⟩, htype, hshaped⟩
    exact ⟨hlen, htype, fun x hx => ⟨hencode x hx, hshaped x hx⟩⟩

theorem writableList_nil {type : MessageType} : WritableList type ([] : List (SignedMessage S)) :=
  ⟨Nat.zero_le _, nofun, nofun⟩

/-- The body of a message is written, and has the shape of the wire. -/
theorem writableBody_iff {m : SignedMessage S} : WritableBody m.message.body ↔
    ((m.message.value?.elim ByteArray.empty Value.data).size ≤ Bounds.value ∧
      ∃ parts, encodeBody m.message.body = .ok parts) ∧ Shaped m := by
  obtain ⟨⟨identifier, height, round, body⟩, signers, signatures⟩ := m
  constructor
  · intro h
    cases h with
    | @propose value rcs ps hvalue hrcs hps =>
      obtain ⟨⟨hrcsLen, rcItems, hrcItems⟩, hrcsType, hrcsShaped⟩ := writableList_iff.1 hrcs
      obtain ⟨⟨hpsLen, psItems, hpsItems⟩, hpsType, hpsShaped⟩ := writableList_iff.1 hps
      refine ⟨⟨hvalue, (joinList rcItems, joinList psItems), ?_⟩, .intro (fun _ => rfl) hrcsType
        hrcsShaped (fun _ => .inl rfl) hpsType hpsShaped nofun⟩
      simp only [encodeBody, bind_eq_ok_iff, exists_unit_iff, checkBound_eq_ok_iff, pure_eq_ok]
      exact ⟨hrcsLen, rcItems, hrcItems, hpsLen, psItems, hpsItems, rfl⟩
    | prepare root =>
      exact ⟨⟨Nat.zero_le _, _, rfl⟩, .of_carries_nothing rfl rfl nofun⟩
    | commit root =>
      exact ⟨⟨Nat.zero_le _, _, rfl⟩, .of_carries_nothing rfl rfl nofun⟩
    | unprepared =>
      exact ⟨⟨Nat.zero_le _, _, rfl⟩, .of_carries_nothing rfl rfl nofun⟩
    | @prepared p ps hvalue hround hps =>
      obtain ⟨⟨hpsLen, psItems, hpsItems⟩, hpsType, hpsShaped⟩ := writableList_iff.1 hps
      refine ⟨⟨hvalue, (ByteArray.empty, joinList psItems), ?_⟩, .intro (fun hne => absurd rfl hne)
        nofun nofun (fun _ => .inr ⟨rfl, _, rfl⟩) hpsType hpsShaped ?_⟩
      · simp only [encodeBody, bind_eq_ok_iff, exists_unit_iff, checkBound_eq_ok_iff, pure_eq_ok]
        exact ⟨hpsLen, psItems, hpsItems, rfl⟩
      · rintro r hr
        obtain rfl := Option.some.inj hr
        exact hround
  · rintro ⟨⟨hvalue, parts, hbody⟩, hrcsPlace, hrcsType, hrcsShaped, hpsPlace, hpsType, hpsShaped,
      hpos⟩
    cases body with
    | propose value rcs ps =>
      simp only [encodeBody, bind_eq_ok_iff, exists_unit_iff, checkBound_eq_ok_iff, pure_eq_ok]
        at hbody
      obtain ⟨hrcsLen, rcItems, hrcItems, hpsLen, psItems, hpsItems, -⟩ := hbody
      exact .propose hvalue
        (writableList_iff.2 ⟨⟨hrcsLen, rcItems, hrcItems⟩, hrcsType, hrcsShaped⟩)
        (writableList_iff.2 ⟨⟨hpsLen, psItems, hpsItems⟩, hpsType, hpsShaped⟩)
    | prepare root => exact .prepare root
    | commit root => exact .commit root
    | roundChange prepared ps =>
      simp only [encodeBody, bind_eq_ok_iff, exists_unit_iff, checkBound_eq_ok_iff, pure_eq_ok]
        at hbody
      obtain ⟨hpsLen, psItems, hpsItems, -⟩ := hbody
      cases prepared with
      | none =>
        have hps : ps = [] := by
          by_contra hne
          rcases hpsPlace hne with htype | ⟨-, r, hr⟩
          · cases htype
          · cases hr
        exact hps ▸ .unprepared
      | some p =>
        exact .prepared hvalue (hpos p.round rfl)
          (writableList_iff.2 ⟨⟨hpsLen, psItems, hpsItems⟩, hpsType, hpsShaped⟩)

/-- A message is writable if it has as many signatures as signers, not too many, a name of a stream
within its bound, and a writable body. -/
theorem writable_iff (hcodec : SignatureCodec S) {m : SignedMessage S} :
    Writable m ↔ m.signers.length ≤ Bounds.signers ∧ m.signers.length = m.signatures.length ∧
      m.identifier.size ≤ Bounds.identifier ∧ WritableBody m.message.body := by
  constructor
  · rintro ⟨⟨b, hencode⟩, hshaped⟩
    obtain ⟨hsigners, hlen, -, bytes, hbytes, -⟩ := encode_eq_ok_iff.1 hencode
    obtain ⟨roundChanges, prepares, hid, hvalue, hbody, -⟩ := encodeMessage_eq_ok_iff.1 hbytes
    exact ⟨hsigners, hlen, hid, writableBody_iff.2 ⟨⟨hvalue, _, hbody⟩, hshaped⟩⟩
  · rintro ⟨hsigners, hlen, hid, hbody⟩
    obtain ⟨⟨hvalue, ⟨roundChanges, prepares⟩, hparts⟩, hshaped⟩ := writableBody_iff.1 hbody
    exact ⟨⟨_, encode_eq_ok_iff.2 ⟨hsigners, hlen, fun g _ => hcodec.size_le g, _,
      encodeMessage_eq_ok_iff.2 ⟨roundChanges, prepares, hid, hvalue, hparts, rfl⟩, rfl⟩⟩, hshaped⟩

/-! ### Bounds on sizes -/

/-- The most bytes that the encoding of a message takes besides what its body carries. -/
def frameSize : ℕ :=
  signedMessageHead + (8 + offsetSize + Bounds.signature) * Bounds.signers + messageHead +
    Bounds.identifier

theorem listSize_le {ms : List (SignedMessage S)} {n : ℕ} (h : ∀ m ∈ ms, encodedSize m ≤ n) :
    listSize ms ≤ (offsetSize + n) * ms.length := by
  induction ms with
  | nil => exact Nat.zero_le _
  | cons m ms ih =>
    obtain ⟨hm, hms⟩ := List.forall_mem_cons.1 h
    rw [listSize, List.length_cons, Nat.mul_succ, Nat.add_comm]
    exact Nat.add_le_add (ih hms) (Nat.add_le_add_left hm _)

namespace Writable

variable {m : SignedMessage S}

theorem encodedSize_le (h : Writable m) (hcodec : SignatureCodec S) :
    encodedSize m ≤ frameSize + bodySize m.message.body := by
  obtain ⟨hsigners, hlen, hid, -⟩ := (writable_iff hcodec).1 h
  obtain ⟨⟨identifier, height, round, body⟩, signers, signatures⟩ := m
  have hsum : (signatures.map fun g => offsetSize + (S.encodeSignature g).size).sum ≤
      signatures.length * (offsetSize + Bounds.signature) := by
    rw [← List.length_map (f := fun g => offsetSize + (S.encodeSignature g).size)]
    refine List.sum_le_card_nsmul _ _ fun n hn => ?_
    obtain ⟨g, -, rfl⟩ := List.mem_map.1 hn
    exact Nat.add_le_add_left (hcodec.size_le g) _
  simp only [encodedSize, messageSize, frameSize, signedMessageHead, messageHead, offsetSize,
    Bounds.signers, Bounds.signature, Bounds.identifier, SignedMessage.identifier] at *
  omega

/-- The value that a writable message carries is not too large. -/
theorem value_le (h : Writable m) (hcodec : SignatureCodec S) {value : Value S}
    (hvalue : m.message.value? = some value) : value.data.size ≤ Bounds.value := by
  obtain ⟨-, -, -, hbody⟩ := (writable_iff hcodec).1 h
  have hsize := (writableBody_iff.1 hbody).1.1
  rwa [hvalue] at hsize

theorem prepares (h : Writable m) (hcodec : SignatureCodec S) :
    WritableList .prepare m.message.prepares := by
  obtain ⟨-, -, -, hbody⟩ := (writable_iff hcodec).1 h
  unfold Message.prepares
  cases hbody' : m.message.body with
  | propose value roundChanges prepares =>
    rw [hbody'] at hbody
    cases hbody with
    | propose hvalue hroundChanges hprepares => exact hprepares
  | prepare root => exact writableList_nil
  | commit root => exact writableList_nil
  | roundChange prepared prepares =>
    rw [hbody'] at hbody
    cases hbody with
    | unprepared => exact writableList_nil
    | prepared hvalue hround hprepares => exact hprepares

/-- A prepare takes no more than its frame. -/
theorem encodedSize_le_of_prepare (h : Writable m) (hcodec : SignatureCodec S)
    (htype : m.type = .prepare) : encodedSize m ≤ frameSize := by
  have hsize := h.encodedSize_le hcodec
  obtain ⟨⟨identifier, height, round, body⟩, signers, signatures⟩ := m
  cases body with
  | prepare root => exact hsize
  | propose value roundChanges prepares => cases htype
  | commit root => cases htype
  | roundChange prepared prepares => cases htype

/-- The prepares that a message carries do not take much. -/
theorem listSize_prepares_le {ms : List (SignedMessage S)} (hcodec : SignatureCodec S)
    (h : WritableList .prepare ms) :
    listSize ms ≤ (offsetSize + frameSize) * Bounds.justifications :=
  (listSize_le fun x hx => (h.writable x hx).encodedSize_le_of_prepare hcodec
    (h.type_eq x hx)).trans (Nat.mul_le_mul_left _ h.length_le)

/-- A writable message is read back from its encoding, unless it is a proposal: nothing else carries
more than one value. -/
theorem wireSafe (h : Writable m) (hcodec : SignatureCodec S) (htype : m.type ≠ .propose) :
    WireSafe m := by
  rw [h.wireSafe_iff hcodec]
  have hsize := h.encodedSize_le hcodec
  obtain ⟨-, -, -, hbody⟩ := (writable_iff hcodec).1 h
  obtain ⟨⟨identifier, height, round, body⟩, signers, signatures⟩ := m
  have hbound : bodySize body ≤
      Bounds.value + (offsetSize + frameSize) * Bounds.justifications := by
    cases hbody with
    | propose hvalue hroundChanges hprepares => exact absurd rfl htype
    | prepare root => exact Nat.zero_le _
    | commit root => exact Nat.zero_le _
    | unprepared => exact Nat.zero_le _
    | prepared hvalue hround hprepares =>
      exact Nat.add_le_add hvalue (listSize_prepares_le hcodec hprepares)
  exact hsize.trans ((Nat.add_le_add_left hbound _).trans (by decide))

end Writable

end Wire
end Conclave
