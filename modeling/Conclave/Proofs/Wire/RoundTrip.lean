import Conclave.Proofs.PlainScheme
import Conclave.Proofs.Wire.Message
import Conclave.Proofs.Wire.Shape

/-!
# Encoding and decoding undo each other

A shaped message is decoded from its encoding, and bytes that are decoded to a message are its
encoding. So every message has one encoding at most, no bytes are the encoding of two messages, and
only shaped messages come from the wire.

Both proofs go by induction on the number of levels that the decoder may enter: what a message
carries takes one level less. Of the signature scheme it is asked that encoding and decoding a
signature undo each other in the same direction.
-/

namespace Conclave
namespace Wire

variable {S : Scheme} {b : ByteArray}

/-! ### Decoding an encoding -/

theorem decodeValue_of_value (value : Value S) : decodeValue value.data value.root = .ok value := by
  have hvalue : Value.ofBytes value.data = value := Value.ext rfl
  simp only [decodeValue, hvalue, if_true]

theorem mapM_decodeSignature {gs : List S.Signature}
    (hscheme : ∀ g, S.decodeSignature (S.encodeSignature g) = .ok g)
    (h : ∀ g ∈ gs, (S.encodeSignature g).size ≤ Bounds.signature) :
    (gs.map S.encodeSignature).mapM decodeSignature = .ok gs := by
  rw [mapM_eq_ok_iff]
  induction gs with
  | nil => exact .nil
  | cons g gs ih =>
    obtain ⟨hg, hgs⟩ := List.forall_mem_cons.1 h
    refine .cons ?_ (ih hgs)
    simp only [decodeSignature, bind_eq_ok_iff, exists_unit_iff, checkBound_eq_ok_iff, hscheme,
      pure_eq_ok, and_true]
    exact hg

/-- Justifications are decoded from their encodings, if `read` decodes each of them. -/
theorem decodeJustifications_of_encodeList {read : ByteArray → Except Error (SignedMessage S)}
    {type : MessageType} {ms : List (SignedMessage S)} {items : List ByteArray}
    (parent : MessageType)
    (hread : ∀ x ∈ ms, ∀ item, item.size < 2 ^ 32 → encode x = .ok item → read item = .ok x)
    (htype : ∀ x ∈ ms, x.type = type) (hlen : ms.length ≤ Bounds.justifications)
    (h : encodeList ms = .ok items) (hb : (joinList items).size < 2 ^ 32) :
    decodeJustifications read (joinList items) type parent = .ok ms := by
  have hitems := encodeList_eq_ok_iff.1 h
  refine (decodeJustifications_eq_ok_iff hb).2 ⟨items, hitems.length_eq ▸ hlen, rfl, ?_⟩
  -- induction on the pairs of a message and its encoding, which are small as part of the list
  have hsize : ∀ item ∈ items, item.size < 2 ^ 32 :=
    fun item hitem => (size_le_joinList hitem).trans_lt hb
  clear h hb hlen
  induction hitems with
  | nil => exact .nil
  | cons hitem _ ih =>
    obtain ⟨hsize, hsizes⟩ := List.forall_mem_cons.1 hsize
    obtain ⟨hx, hxs⟩ := List.forall_mem_cons.1 htype
    refine .cons ⟨?_, hread _ List.mem_cons_self _ hsize hitem⟩
      (ih (fun x hmem => hread x (List.mem_cons_of_mem _ hmem)) hxs hsizes)
    rw [peekType_of_encode hsize hitem, hx]

/-- The body of a shaped message is decoded from its parts. -/
theorem decodeBody_of_encodeBody {read : ByteArray → Except Error (SignedMessage S)}
    {m : SignedMessage S} (hm : Shaped m) {roundChanges prepares : ByteArray}
    (hread : ∀ x, x ∈ m.message.roundChanges ∨ x ∈ m.message.prepares → ∀ item : ByteArray,
      item.size < 2 ^ 32 → encode x = .ok item → read item = .ok x)
    (h : encodeBody m.message.body = .ok (roundChanges, prepares))
    (hroundChanges : roundChanges.size < 2 ^ 32) (hprepares : prepares.size < 2 ^ 32) :
    decodeBody read m.message.type (m.message.valueRoot?.getD Digest.zero)
      (m.message.preparedRound?.elim 0 Round.word)
      (m.message.value?.elim ByteArray.empty Value.data) roundChanges prepares =
        .ok m.message.body := by
  obtain ⟨⟨identifier, height, round, body⟩, signers, signatures⟩ := m
  obtain ⟨-, hroundChangesType, -, hplace, hpreparesType, -, hpos⟩ := hm
  cases body with
  | propose value rcs ps =>
    simp only [encodeBody, bind_eq_ok_iff, exists_unit_iff, checkBound_eq_ok_iff, pure_eq_ok,
      Except.ok.injEq, Prod.mk.injEq] at h
    obtain ⟨hrcs, rcItems, hrcItems, hps, psItems, hpsItems, rfl, rfl⟩ := h
    have hrcsRead : decodeJustifications read (joinList rcItems) .roundChange .propose = .ok rcs :=
      decodeJustifications_of_encodeList .propose (fun x hx => hread x (.inl hx))
        hroundChangesType hrcs hrcItems hroundChanges
    have hpsRead : decodeJustifications read (joinList psItems) .prepare .propose = .ok ps :=
      decodeJustifications_of_encodeList .propose (fun x hx => hread x (.inr hx))
        hpreparesType hps hpsItems hprepares
    change decodeBody read .propose value.root 0 value.data (joinList rcItems) (joinList psItems) =
      .ok (.propose value rcs ps)
    simp only [decodeBody, hrcsRead, hpsRead, decodeValue_of_value, ok_bind, ne_eq, not_true,
      if_false, pure_eq_ok]
  | prepare root =>
    obtain ⟨rfl, rfl⟩ := Prod.mk.inj (Except.ok.inj h)
    rfl
  | commit root =>
    obtain ⟨rfl, rfl⟩ := Prod.mk.inj (Except.ok.inj h)
    rfl
  | roundChange prepared ps =>
    simp only [encodeBody, bind_eq_ok_iff, exists_unit_iff, checkBound_eq_ok_iff, pure_eq_ok,
      Except.ok.injEq, Prod.mk.injEq] at h
    obtain ⟨hps, psItems, hpsItems, rfl, rfl⟩ := h
    have hpsRead : decodeJustifications read (joinList psItems) .prepare .roundChange = .ok ps :=
      decodeJustifications_of_encodeList .roundChange (fun x hx => hread x (.inr hx))
        hpreparesType hps hpsItems hprepares
    cases prepared with
    | none =>
      obtain rfl : ps = [] := by
        by_contra hne
        rcases hplace hne with htype | ⟨-, r, hr⟩
        · cases htype
        · cases hr
      change decodeBody read .roundChange Digest.zero 0 ByteArray.empty ByteArray.empty
        (joinList psItems) = .ok (.roundChange none [])
      simp only [decodeBody, hpsRead, ByteArray.size_empty, ok_bind, ne_eq, not_true, if_false,
        if_true, pure_eq_ok]
    | some p =>
      have hround : p.round.word ≠ 0 := hpos p.round rfl
      change decodeBody read .roundChange p.value.root p.round.word p.value.data ByteArray.empty
        (joinList psItems) = .ok (.roundChange (some p) ps)
      simp only [decodeBody, hpsRead, decodeValue_of_value, ByteArray.size_empty, ok_bind, ne_eq,
        not_true, if_false, if_neg hround, pure_eq_ok]

/-- A shaped message is decoded from its encoding, given as many levels as its kind takes. -/
theorem decodeLevels_encode (hscheme : ∀ g, S.decodeSignature (S.encodeSignature g) = .ok g)
    {n : ℕ} {m : SignedMessage S} (hm : Shaped m) (hn : levels m.type ≤ n)
    (hb : b.size < 2 ^ 32) (h : encode m = .ok b) : decodeLevels n b = .ok m := by
  induction n generalizing m b with
  | zero =>
    have := levels_pos m.type
    omega
  | succ n ih =>
    obtain ⟨hsigners, hlen, hbounds, message, hmessage, hjoin⟩ := encode_eq_ok_iff.1 h
    obtain ⟨roundChanges, prepares, hidentifier, hvalue, hbody, hparts⟩ :=
      encodeMessage_eq_ok_iff.1 hmessage
    have hmessageSize : message.size < 2 ^ 32 := size_lt_of_eq_joinList hb hjoin (by simp)
    obtain ⟨hroundChangesSize, hpreparesSize⟩ := size_justifications_lt hmessageSize hparts
    -- what the message carries takes a level less
    have hread : ∀ x, x ∈ m.message.roundChanges ∨ x ∈ m.message.prepares → ∀ item : ByteArray,
        item.size < 2 ^ 32 → encode x = .ok item → decodeLevels n item = .ok x := by
      intro x hx item hitem hencode
      obtain ⟨hshaped, hlt⟩ := hm.carried hx
      exact ih hshaped (by omega) hitem hencode
    exact (decodeLevels_eq_ok_iff hb).2 ⟨_, message, hjoin, hsigners, by simpa using hlen,
      mapM_decodeSignature hscheme hbounds, (decodeMessage_eq_ok_iff hmessageSize).2
        ⟨_, _, _, _, roundChanges, prepares, hparts, hidentifier, hvalue,
          decodeBody_of_encodeBody hm hread hbody hroundChangesSize hpreparesSize⟩⟩

/-- Decoding undoes encoding: a shaped message is decoded from its encoding, if this is within its
bound. -/
theorem decode_encode (hscheme : ∀ g, S.decodeSignature (S.encodeSignature g) = .ok g)
    {m : SignedMessage S} (hm : Shaped m) (h : encode m = .ok b) (hb : b.size ≤ Bounds.encoding) :
    decode b = .ok m := by
  have hsize : b.size < 2 ^ 32 := hb.trans_lt (by decide)
  simp only [decode, bind_eq_ok_iff, exists_unit_iff, checkBound_eq_ok_iff]
  exact ⟨hb, decodeLevels_encode hscheme hm (levels_le m.type) hsize h⟩

/-! ### A message of three levels -/

namespace Nested

open Scheme

/-- What is proposed. -/
def value : Value plain := .ofBytes ⟨#[7]⟩

/-- A prepare in the first round. -/
def prepare : SignedMessage plain :=
  plain.signed 1 ⟨#[1]⟩ Height.first Round.first (.prepare value.root)

/-- A round change that carries the prepare. -/
def roundChange : SignedMessage plain :=
  plain.signed 2 ⟨#[1]⟩ Height.first ⟨2⟩ (.roundChange (some ⟨Round.first, value⟩) [prepare])

/-- A proposal that carries the round change, and the prepare once more. -/
def proposal : SignedMessage plain :=
  plain.signed 2 ⟨#[1]⟩ Height.first ⟨2⟩ (.propose value [roundChange] [prepare])

theorem shaped_prepare : Shaped prepare := .of_carries_nothing rfl rfl nofun

theorem shaped_roundChange : Shaped roundChange := by
  refine .intro (fun h => absurd rfl h) nofun nofun (fun _ => .inr ⟨rfl, _, rfl⟩) ?_ ?_ ?_
  · exact fun x hx => List.mem_singleton.1 hx ▸ rfl
  · exact fun x hx => List.mem_singleton.1 hx ▸ shaped_prepare
  · rintro r hr
    obtain rfl := Option.some.inj hr
    decide

theorem shaped_proposal : Shaped proposal := by
  refine .intro (fun _ => rfl) ?_ ?_ (fun _ => .inl rfl) ?_ ?_ nofun
  · exact fun x hx => List.mem_singleton.1 hx ▸ rfl
  · exact fun x hx => List.mem_singleton.1 hx ▸ shaped_roundChange
  · exact fun x hx => List.mem_singleton.1 hx ▸ rfl
  · exact fun x hx => List.mem_singleton.1 hx ▸ shaped_prepare

theorem exists_encode_proposal : ∃ b, encode proposal = .ok b ∧ b.size ≤ Bounds.encoding := by
  have hsize : (encode proposal).toOption.any (fun b => b.size ≤ Bounds.encoding) = true := by
    decide +kernel
  cases h : encode proposal with
  | error e =>
    rw [h] at hsize
    cases hsize
  | ok b =>
    rw [h] at hsize
    exact ⟨b, rfl, of_decide_eq_true hsize⟩

end Nested

/-- The proposal of three levels is decoded from its encoding. -/
theorem decode_encode_nested :
    ∃ b, encode Nested.proposal = .ok b ∧ decode b = .ok Nested.proposal := by
  obtain ⟨b, hencode, hsize⟩ := Nested.exists_encode_proposal
  exact ⟨b, hencode, decode_encode Scheme.plain.decodeSignature_encodeSignature
    Nested.shaped_proposal hencode hsize⟩

/-! ### Encoding what was decoded -/

theorem decodeValue_eq_ok {root : Digest} {value : Value S} (h : decodeValue b root = .ok value) :
    value.data = b ∧ value.root = root := by
  simp only [decodeValue, ite_else_error_eq_ok_iff, Except.ok.injEq] at h
  obtain ⟨hroot, rfl⟩ := h
  exact ⟨rfl, hroot⟩

theorem map_encodeSignature {items : List ByteArray} {gs : List S.Signature}
    (hscheme : ∀ b g, S.decodeSignature b = .ok g → S.encodeSignature g = b)
    (h : items.mapM decodeSignature = .ok gs) :
    gs.map S.encodeSignature = items ∧
      ∀ g ∈ gs, (S.encodeSignature g).size ≤ Bounds.signature := by
  rw [mapM_eq_ok_iff] at h
  induction h with
  | nil => exact ⟨rfl, nofun⟩
  | @cons item g items gs hitem _ ih =>
    simp only [decodeSignature, bind_eq_ok_iff, exists_unit_iff, checkBound_eq_ok_iff] at hitem
    obtain ⟨hbound, hitem⟩ := hitem
    have hg : S.encodeSignature g = item := by
      split at hitem
      · rename_i hdecode
        cases hitem
        exact hscheme item _ hdecode
      · cases hitem
    obtain ⟨hmap, hbounds⟩ := ih
    exact ⟨by rw [List.map_cons, hg, hmap], List.forall_mem_cons.2 ⟨hg ▸ hbound, hbounds⟩⟩

/-- Decoded justifications are of the right kind, and are encoded as they were, if `read` undoes
encoding. -/
theorem encodeList_of_decodeJustifications {read : ByteArray → Except Error (SignedMessage S)}
    {type parent : MessageType} {ms : List (SignedMessage S)}
    (hread : ∀ item x, item.size < 2 ^ 32 → read item = .ok x → encode x = .ok item ∧ Shaped x)
    (hb : b.size < 2 ^ 32) (h : decodeJustifications read b type parent = .ok ms) :
    ms.length ≤ Bounds.justifications ∧
      (∃ items, encodeList ms = .ok items ∧ b = joinList items) ∧
      (∀ x ∈ ms, x.type = type) ∧ ∀ x ∈ ms, Shaped x := by
  obtain ⟨items, hlen, rfl, hitems⟩ := (decodeJustifications_eq_ok_iff hb).1 h
  have hsize : ∀ item ∈ items, item.size < 2 ^ 32 :=
    fun item hitem => (size_le_joinList hitem).trans_lt hb
  have hmembers : List.Forall₂ (fun m item => encode m = .ok item) ms items ∧
      (∀ x ∈ ms, x.type = type) ∧ ∀ x ∈ ms, Shaped x := by
    clear h hb hlen
    induction hitems with
    | nil => exact ⟨.nil, nofun, nofun⟩
    | @cons item x items xs hitem _ ih =>
      obtain ⟨hitemSize, hsizes⟩ := List.forall_mem_cons.1 hsize
      obtain ⟨hencode, hshaped⟩ := hread item x hitemSize hitem.2
      -- the kind that was read ahead is that of the message that is decoded
      have htype : x.type = type :=
        Except.ok.inj ((peekType_of_encode hitemSize hencode).symm.trans hitem.1)
      obtain ⟨hrest, htypes, hshapes⟩ := ih hsizes
      exact ⟨.cons hencode hrest, List.forall_mem_cons.2 ⟨htype, htypes⟩,
        List.forall_mem_cons.2 ⟨hshaped, hshapes⟩⟩
  exact ⟨hitems.length_eq ▸ hlen, ⟨items, encodeList_eq_ok_iff.2 hmembers.1, rfl⟩, hmembers.2⟩

/-- A decoded body tells the parts that it was decoded from, and its message is shaped. -/
theorem encodeBody_of_decodeBody {read : ByteArray → Except Error (SignedMessage S)}
    (hread : ∀ item x, item.size < 2 ^ 32 → read item = .ok x → encode x = .ok item ∧ Shaped x)
    {type : MessageType} {root : Digest} {preparedRound : UInt64}
    {value roundChanges prepares : ByteArray} (hroundChanges : roundChanges.size < 2 ^ 32)
    (hprepares : prepares.size < 2 ^ 32) {m : SignedMessage S}
    (h : decodeBody read type root preparedRound value roundChanges prepares =
      .ok m.message.body) :
    (type = m.message.type ∧ root = m.message.valueRoot?.getD Digest.zero ∧
      preparedRound = m.message.preparedRound?.elim 0 Round.word ∧
      value = m.message.value?.elim ByteArray.empty Value.data ∧
      encodeBody m.message.body = .ok (roundChanges, prepares)) ∧ Shaped m := by
  obtain ⟨⟨identifier, height, round, body⟩, signers, signatures⟩ := m
  cases type with
  | propose =>
    simp only [decodeBody, throw_eq_error, error_bind, bind_eq_ok_iff, ite_error_eq_ok_iff,
      pure_eq_ok, Except.ok.injEq, Decidable.not_not] at h
    obtain ⟨rcs, hrcs, ps, hps, rfl, v, hv, rfl⟩ := h
    obtain ⟨hrcsLen, ⟨rcItems, hrcItems, rfl⟩, hrcsType, hrcsShaped⟩ :=
      encodeList_of_decodeJustifications hread hroundChanges hrcs
    obtain ⟨hpsLen, ⟨psItems, hpsItems, rfl⟩, hpsType, hpsShaped⟩ :=
      encodeList_of_decodeJustifications hread hprepares hps
    obtain ⟨rfl, rfl⟩ := decodeValue_eq_ok hv
    refine ⟨⟨rfl, rfl, rfl, rfl, ?_⟩, .intro (fun _ => rfl) hrcsType hrcsShaped
      (fun _ => .inl rfl) hpsType hpsShaped nofun⟩
    simp only [encodeBody, bind_eq_ok_iff, exists_unit_iff, checkBound_eq_ok_iff, pure_eq_ok,
      Except.ok.injEq]
    exact ⟨hrcsLen, rcItems, hrcItems, hpsLen, psItems, hpsItems, rfl⟩
  | prepare =>
    simp only [decodeBody, throw_eq_error, error_bind, ite_error_eq_ok_iff, pure_eq_ok,
      Except.ok.injEq, Decidable.not_not, not_or, if_true] at h
    obtain ⟨⟨hrcs, hps⟩, rfl, hvalue, rfl⟩ := h
    obtain rfl := ByteArray.size_eq_zero_iff.1 hrcs
    obtain rfl := ByteArray.size_eq_zero_iff.1 hps
    obtain rfl := ByteArray.size_eq_zero_iff.1 hvalue
    exact ⟨⟨rfl, rfl, rfl, rfl, rfl⟩,
      .of_carries_nothing rfl rfl nofun⟩
  | commit =>
    simp only [decodeBody, throw_eq_error, error_bind, ite_error_eq_ok_iff, pure_eq_ok,
      Except.ok.injEq, Decidable.not_not, not_or, reduceCtorEq, if_false] at h
    obtain ⟨⟨hrcs, hps⟩, rfl, hvalue, rfl⟩ := h
    obtain rfl := ByteArray.size_eq_zero_iff.1 hrcs
    obtain rfl := ByteArray.size_eq_zero_iff.1 hps
    obtain rfl := ByteArray.size_eq_zero_iff.1 hvalue
    exact ⟨⟨rfl, rfl, rfl, rfl, rfl⟩,
      .of_carries_nothing rfl rfl nofun⟩
  | roundChange =>
    simp only [decodeBody, throw_eq_error, error_bind, bind_eq_ok_iff, ite_error_eq_ok_iff,
      Decidable.not_not] at h
    obtain ⟨hrcs, ps, hps, h⟩ := h
    obtain rfl := ByteArray.size_eq_zero_iff.1 hrcs
    obtain ⟨hpsLen, ⟨psItems, hpsItems, rfl⟩, hpsType, hpsShaped⟩ :=
      encodeList_of_decodeJustifications hread hprepares hps
    have hencode : ∀ prepared, encodeBody (.roundChange prepared ps) =
        .ok (ByteArray.empty, joinList psItems) := by
      intro prepared
      simp only [encodeBody, bind_eq_ok_iff, exists_unit_iff, checkBound_eq_ok_iff, pure_eq_ok,
        Except.ok.injEq]
      exact ⟨hpsLen, psItems, hpsItems, rfl⟩
    by_cases hzero : preparedRound = 0
    · simp only [if_pos hzero, ite_error_eq_ok_iff, Decidable.not_not, pure_eq_ok,
        Except.ok.injEq] at h
      obtain ⟨hvalue, rfl, rfl, rfl⟩ := h
      obtain rfl := ByteArray.size_eq_zero_iff.1 hvalue
      exact ⟨⟨rfl, rfl, hzero, rfl, hencode none⟩, .of_carries_nothing rfl rfl nofun⟩
    · simp only [if_neg hzero, bind_eq_ok_iff, pure_eq_ok, Except.ok.injEq] at h
      obtain ⟨v, hv, rfl⟩ := h
      obtain ⟨rfl, rfl⟩ := decodeValue_eq_ok hv
      refine ⟨⟨rfl, rfl, rfl, rfl, hencode _⟩, .intro (fun hne => absurd rfl hne) nofun nofun
        (fun _ => .inr ⟨rfl, _, rfl⟩) hpsType hpsShaped fun r hr => ?_⟩
      obtain rfl := Option.some.inj hr
      exact hzero

/-- What is decoded is encoded as it was, and shaped. -/
theorem encode_of_decodeLevels
    (hscheme : ∀ b g, S.decodeSignature b = .ok g → S.encodeSignature g = b) {n : ℕ}
    {m : SignedMessage S} (hb : b.size < 2 ^ 32) (h : decodeLevels n b = .ok m) :
    encode m = .ok b ∧ Shaped m := by
  induction n generalizing m b with
  | zero => cases h
  | succ n ih =>
    obtain ⟨items, message, hjoin, hsigners, hlen, hitems, hmessage⟩ :=
      (decodeLevels_eq_ok_iff hb).1 h
    have hmessageSize : message.size < 2 ^ 32 := size_lt_of_eq_joinList hb hjoin (by simp)
    obtain ⟨hmap, hbounds⟩ := map_encodeSignature hscheme hitems
    obtain ⟨type, root, preparedRound, value, roundChanges, prepares, hparts, hidentifier, hvalue,
      hbody⟩ := (decodeMessage_eq_ok_iff hmessageSize).1 hmessage
    obtain ⟨hroundChangesSize, hpreparesSize⟩ := size_justifications_lt hmessageSize hparts
    obtain ⟨⟨rfl, rfl, rfl, rfl, hencode⟩, hshaped⟩ :=
      encodeBody_of_decodeBody (fun item x hitem hx => ih hitem hx) hroundChangesSize
        hpreparesSize hbody
    refine ⟨encode_eq_ok_iff.2 ⟨hsigners, ?_, hbounds, message, ?_, ?_⟩, hshaped⟩
    · rw [hlen, ← hmap, List.length_map]
    · exact encodeMessage_eq_ok_iff.2 ⟨roundChanges, prepares, hidentifier, hvalue, hencode, hparts⟩
    · rw [hmap]
      exact hjoin

/-- The encoding is canonical: bytes that are decoded are the encoding of the message, no other
bytes are decoded to it, and it is shaped, with at most three levels. -/
theorem encode_decode (hscheme : ∀ b g, S.decodeSignature b = .ok g → S.encodeSignature g = b)
    {m : SignedMessage S} (h : decode b = .ok m) :
    encode m = .ok b ∧ (∀ b', decode b' = .ok m → b' = b) ∧ Shaped m ∧ depth m ≤ 3 := by
  have hdecode : ∀ {b : ByteArray}, decode b = .ok m → encode m = .ok b ∧ Shaped m := by
    intro b h
    simp only [decode, bind_eq_ok_iff, exists_unit_iff, checkBound_eq_ok_iff] at h
    exact encode_of_decodeLevels hscheme (h.1.trans_lt (by decide)) h.2
  obtain ⟨hencode, hshaped⟩ := hdecode h
  refine ⟨hencode, fun b' h' => ?_, hshaped, hshaped.depth_le_three⟩
  exact Except.ok.inj ((hdecode h').1.symm.trans hencode)

/-- The encoding of the proposal of three levels is the only one that is decoded to it. -/
theorem encode_decode_nested : ∃ b, decode b = .ok Nested.proposal ∧
    encode Nested.proposal = .ok b ∧ (∀ b', decode b' = .ok Nested.proposal → b' = b) ∧
      Shaped Nested.proposal ∧ depth Nested.proposal ≤ 3 := by
  obtain ⟨b, hencode, hsize⟩ := Nested.exists_encode_proposal
  have hlevels : decodeLevels 3 b = .ok Nested.proposal :=
    decodeLevels_encode Scheme.plain.decodeSignature_encodeSignature Nested.shaped_proposal le_rfl
      (hsize.trans_lt (by decide)) hencode
  have hdecode : decode b = .ok Nested.proposal := by
    simp only [decode, bind_eq_ok_iff, exists_unit_iff, checkBound_eq_ok_iff]
    exact ⟨hsize, hlevels⟩
  exact ⟨b, hdecode, encode_decode Scheme.plain.encodeSignature_of_decodeSignature hdecode⟩

end Wire
end Conclave
