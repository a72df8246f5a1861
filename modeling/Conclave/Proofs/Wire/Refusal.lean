import Conclave.Proofs.Wire.Message
import Conclave.Proofs.Wire.Shape

/-!
# Decoding ends

All lengths and offsets in an encoding are chosen by its sender, who may want to make the reader go
outside its bounds, or nest messages until it has no room left. Neither works.

* `Refusal` is an error that rejects the input, as opposed to a fault of the reader;
* `Fits` says that there are enough levels for an item, whose kind is known in advance;
* `decodeLevels_refuses`: such an item is decoded or refused;
* `decodeLevels_eq`: further levels would not be entered;
* `peekType_of_decodeLevels`: the kind that is known in advance is the one that is decoded;
* `decode_ends` is the result for all bytes.
-/

namespace Conclave
namespace Wire

variable {S : Scheme} {b : ByteArray} {i : ℕ}

/-- An error that rejects the input: nothing was read outside its bounds, and nothing nested deeper
than the reader goes. -/
def Refusal : Error → Prop
  | .fault _ => False
  | _ => True

/-! ### Fields and parts -/

theorem offsetAt_refuses : FailsOnly Refusal (offsetAt b i) := by
  unfold offsetAt
  split
  · exact .ok _
  · exact .error trivial

theorem byteAt_refuses (h : i < b.size) : FailsOnly Refusal (byteAt b i) := by
  rw [byteAt, dif_pos h]
  exact .ok _

theorem uint64At_refuses (h : i + 8 ≤ b.size) : FailsOnly Refusal (uint64At b i) := by
  rw [uint64At, if_pos h]
  exact .ok _

theorem digestAt_refuses (h : i + 32 ≤ b.size) : FailsOnly Refusal (digestAt b i) := by
  rw [digestAt, if_pos h]
  exact .ok _

theorem checkBound_refuses {field : Field} {length bound : ℕ} :
    FailsOnly Refusal (checkBound field length bound) :=
  .guard trivial fun _ => .ok ()

/-- Each part is within the bytes when it is cut off. -/
theorem splitFrom_refuses {least : ℕ} {starts : List ℕ} :
    FailsOnly Refusal (splitFrom b least starts) := by
  induction starts generalizing least with
  | nil => exact .ok []
  | cons start rest ih =>
    rw [splitFrom]
    simp only [throw_eq_error, error_bind]
    refine .guard trivial fun _ => .guard trivial fun hstop => ?_
    rw [not_or, not_lt, not_lt] at hstop
    rw [slice, if_pos hstop, ok_bind]
    exact ih.bind fun _ _ => .ok _

theorem split_refuses {head : ℕ} {starts : List ℕ} : FailsOnly Refusal (split b head starts) := by
  unfold split
  split
  · exact .ok []
  · exact .guard trivial fun _ => splitFrom_refuses

theorem readOffsets_refuses {n : ℕ} :
    FailsOnly Refusal ((List.range n).mapM fun i => offsetAt b (i * offsetSize)) :=
  .mapM fun _ _ => offsetAt_refuses

theorem splitList_refuses {field : Field} {bound : ℕ} :
    FailsOnly Refusal (splitList b field bound) := by
  unfold splitList
  simp only [throw_eq_error, error_bind]
  split
  · exact .ok []
  · refine offsetAt_refuses.bind fun first _ => .guard trivial fun _ => ?_
    exact checkBound_refuses.bind fun _ _ => readOffsets_refuses.bind fun _ _ => split_refuses

theorem readType_refuses {tag : UInt8} : FailsOnly Refusal (readType tag) := by
  unfold readType
  split
  · exact .ok _
  · exact .error trivial

theorem peekType_refuses : FailsOnly Refusal (peekType b) := by
  refine offsetAt_refuses.bind fun start _ => ?_
  split
  · exact readType_refuses
  · exact .error trivial

theorem decodeSigners_refuses : FailsOnly Refusal (decodeSigners b) := by
  unfold decodeSigners
  simp only [throw_eq_error, error_bind]
  refine .guard trivial fun hmod => checkBound_refuses.bind fun _ _ => .mapM fun i hi => ?_
  have hword : 8 * i + 8 ≤ b.size := by
    have := List.mem_range.1 hi
    omega
  rw [uint64At, if_pos hword]
  exact .ok _

theorem decodeSignature_refuses : FailsOnly Refusal (decodeSignature (S := S) b) := by
  refine checkBound_refuses.bind fun _ _ => ?_
  split
  · exact .ok _
  · exact .error trivial

theorem decodeValue_refuses {root : Digest} : FailsOnly Refusal (decodeValue (S := S) b root) := by
  unfold decodeValue
  dsimp only
  split
  · exact .ok _
  · exact .error trivial

/-! ### Messages -/

section Messages

variable {read : ByteArray → Except Error (SignedMessage S)} {type parent : MessageType}
  {root : Digest} {preparedRound : UInt64} {value roundChanges prepares : ByteArray}

/-- Justifications are refused if those of the right kind are. -/
theorem decodeJustifications_refuses
    (hread : ∀ item, peekType item = .ok type → FailsOnly Refusal (read item)) :
    FailsOnly Refusal (decodeJustifications read b type parent) := by
  refine splitList_refuses.bind fun items _ => .mapM fun item _ => ?_
  simp only [throw_eq_error]
  refine peekType_refuses.bind fun t ht => .guard trivial fun htype => ?_
  rw [Decidable.not_not] at htype
  exact hread item (htype ▸ ht)

theorem decodeBody_refuses
    (hread : ∀ t item, levels t < levels type → peekType item = .ok t →
      FailsOnly Refusal (read item)) :
    FailsOnly Refusal (decodeBody read type root preparedRound value roundChanges prepares) := by
  have hlist (b : ByteArray) (t : MessageType) (ht : levels t < levels type) :
      FailsOnly Refusal (decodeJustifications read b t type) :=
    decodeJustifications_refuses fun item => hread t item ht
  cases type with
  | propose =>
    simp only [decodeBody, throw_eq_error, error_bind]
    refine (hlist _ _ (by decide)).bind fun _ _ => (hlist _ _ (by decide)).bind fun _ _ => ?_
    exact .guard trivial fun _ => decodeValue_refuses.bind fun _ _ => .ok _
  | prepare =>
    simp only [decodeBody, throw_eq_error, error_bind]
    exact .guard trivial fun _ => .guard trivial fun _ => .guard trivial fun _ => .ok _
  | commit =>
    simp only [decodeBody, throw_eq_error, error_bind]
    exact .guard trivial fun _ => .guard trivial fun _ => .guard trivial fun _ => .ok _
  | roundChange =>
    simp only [decodeBody, throw_eq_error, error_bind]
    refine .guard trivial fun _ => (hlist _ _ (by decide)).bind fun _ _ => ?_
    split
    · exact .guard trivial fun _ => .guard trivial fun _ => .guard trivial fun _ => .ok _
    · exact decodeValue_refuses.bind fun _ _ => .ok _

/-- A container is cut into as many parts as it has offsets. -/
theorem length_of_split {head : ℕ} {starts : List ℕ} {parts : List ByteArray}
    (h : split b head starts = .ok parts) : parts.length = starts.length := by
  cases starts with
  | nil =>
    cases h
    rfl
  | cons start rest =>
    rw [((split_eq_ok_iff (List.cons_ne_nil _ _)).1 h).1, length_positions]

/-- The kind of a message, which is its first byte. -/
def headType (b : ByteArray) : Except Error MessageType := byteAt b 0 >>= readType

theorem decodeMessage_refuses
    (hread : ∀ type, headType b = .ok type → ∀ t item, levels t < levels type →
      peekType item = .ok t → FailsOnly Refusal (read item)) :
    FailsOnly Refusal (decodeMessage read b) := by
  unfold decodeMessage
  simp only [throw_eq_error, error_bind, messageHead]
  refine .guard trivial fun hsize => ?_
  refine (byteAt_refuses (by omega)).bind fun tag htag => readType_refuses.bind fun type htype => ?_
  have hhead : headType b = .ok type := by rw [headType, htag, ok_bind, htype]
  refine (uint64At_refuses (by omega)).bind fun _ _ => (uint64At_refuses (by omega)).bind fun _ _ =>
    offsetAt_refuses.bind fun _ _ => (digestAt_refuses (by omega)).bind fun _ _ =>
    (uint64At_refuses (by omega)).bind fun _ _ => offsetAt_refuses.bind fun _ _ =>
    offsetAt_refuses.bind fun _ _ => offsetAt_refuses.bind fun _ _ =>
    split_refuses.bind fun parts hsplit => ?_
  split
  · exact checkBound_refuses.bind fun _ _ => checkBound_refuses.bind fun _ _ =>
      (decodeBody_refuses (hread type hhead)).bind fun _ _ => .ok _
  · rename_i hfour
    have hlength := length_of_split hsplit
    obtain ⟨p, q, r, s, rfl⟩ := List.length_eq_four.1 hlength
    exact absurd rfl (hfour p q r s)

end Messages

/-! ### Levels -/

theorem peekType_eq {start : ℕ} {tag : UInt8} (hstart : offsetAt b (2 * offsetSize) = .ok start)
    (htag : byteAt b start = .ok tag) : peekType b = readType tag := by
  unfold byteAt at htag
  split at htag
  · rename_i hlt
    rw [peekType, hstart, ok_bind, dif_pos hlt, Except.ok.inj htag]
  · cases htag

/-- The kind that is peeked is the one of the last of the three parts. -/
theorem peekType_of_split {starts : List ℕ} {signers signatures message : ByteArray}
    {type : MessageType}
    (hstarts : (List.range 3).mapM (fun i => offsetAt b (i * offsetSize)) = .ok starts)
    (hsplit : split b signedMessageHead starts = .ok [signers, signatures, message])
    (htype : headType message = .ok type) : peekType b = .ok type := by
  have hne : starts ≠ [] := by
    rintro rfl
    cases hsplit
  obtain ⟨rfl, hfollows⟩ := (split_eq_ok_iff hne).1 hsplit
  obtain ⟨-, hfollows⟩ := follows_cons.1 hfollows
  obtain ⟨-, hfollows⟩ := follows_cons.1 hfollows
  obtain ⟨⟨hle, hmessage⟩, -⟩ := follows_cons.1 hfollows
  have hstart : offsetAt b (2 * offsetSize) =
      .ok (signedMessageHead + signers.size + signatures.size) := by
    have hreads := mapM_eq_ok_iff.1 hstarts
    simp only [List.range_succ, List.range_zero, List.nil_append, List.cons_append, positions,
      List.forall₂_cons] at hreads
    exact hreads.2.2.1
  obtain ⟨tag, htag, htype⟩ := bind_eq_ok_iff.1 htype
  obtain ⟨hpos, hbyte⟩ := byteAt_eq_ok_iff.1 htag
  -- the first byte of the message is the one that its offset leads to
  rw [peekType_eq hstart, htype]
  refine byteAt_eq_ok_iff.2 ⟨by omega, ?_⟩
  rw [← hbyte]
  conv_rhs => rw [← hmessage]
  rw [ByteArray.extract_extract]
  congr 1
  omega

/-- There are enough levels for the kind of an item, which is known before it is decoded. -/
structure Fits (n : ℕ) (b : ByteArray) : Prop where
  pos : 0 < n
  levels_le : ∀ type, peekType b = .ok type → levels type ≤ n

theorem fits_three : Fits 3 b := ⟨by decide, fun type _ => levels_le type⟩

/-- What a message carries takes fewer levels than the message. -/
theorem Fits.carried {n : ℕ} (h : Fits (n + 1) b) {type t : MessageType} {item : ByteArray}
    (htype : peekType b = .ok type) (hlt : levels t < levels type)
    (hitem : peekType item = .ok t) : Fits n item := by
  have hle := h.levels_le type htype
  refine ⟨(levels_pos t).trans_le (by omega), fun t' ht' => ?_⟩
  obtain rfl : t = t' := Except.ok.inj (hitem.symm.trans ht')
  omega

/-- An item is decoded or refused within the levels that its kind takes. -/
theorem decodeLevels_refuses {n : ℕ} (h : Fits n b) :
    FailsOnly Refusal (decodeLevels (S := S) n b) := by
  induction n generalizing b with
  | zero => cases h.pos
  | succ n ih =>
    rw [decodeLevels]
    simp only [throw_eq_error, error_bind]
    refine .guard trivial fun _ => readOffsets_refuses.bind fun starts hstarts =>
      split_refuses.bind fun parts hsplit => ?_
    split
    · refine decodeSigners_refuses.bind fun _ _ => splitList_refuses.bind fun _ _ =>
        .guard trivial fun _ => .bind (.mapM fun _ _ => decodeSignature_refuses) fun _ _ =>
        (decodeMessage_refuses fun type htype t item hlt ht => ?_).bind fun _ _ => .ok _
      exact ih (h.carried (peekType_of_split hstarts hsplit htype) hlt ht)
    · rename_i hthree
      have hlength := length_of_split hsplit
      rw [(readOffsets_eq_ok_iff.1 hstarts).1] at hlength
      obtain ⟨p, q, r, rfl⟩ := List.length_eq_three.1 hlength
      exact absurd rfl (hthree p q r)

/-! ### Further levels -/

section Congruence

variable {read read' : ByteArray → Except Error (SignedMessage S)} {type parent : MessageType}

/-- Only items of the right kind are read. -/
theorem decodeJustifications_congr (h : ∀ item, peekType item = .ok type → read item = read' item) :
    decodeJustifications read b type parent = decodeJustifications read' b type parent := by
  have hitem (item : ByteArray) (field : Field) :
      (peekType item >>= fun t =>
        if t ≠ type then .error (.unexpectedField field parent) else read item) =
      (peekType item >>= fun t =>
        if t ≠ type then .error (.unexpectedField field parent) else read' item) := by
    refine bind_congr_ok fun t ht => ite_congr rfl (fun _ => rfl) fun htype => ?_
    rw [Decidable.not_not] at htype
    exact h item (htype ▸ ht)
  simp only [decodeJustifications, throw_eq_error, error_bind, hitem]

theorem decodeBody_congr {root : Digest} {preparedRound : UInt64}
    {value roundChanges prepares : ByteArray}
    (h : ∀ t item, levels t < levels type → peekType item = .ok t → read item = read' item) :
    decodeBody read type root preparedRound value roundChanges prepares =
      decodeBody read' type root preparedRound value roundChanges prepares := by
  have hlist (b : ByteArray) (t : MessageType) (ht : levels t < levels type) :
      decodeJustifications read b t type = decodeJustifications read' b t type :=
    decodeJustifications_congr fun item => h t item ht
  cases type with
  | propose =>
    simp only [decodeBody, hlist _ .roundChange (by decide), hlist _ .prepare (by decide)]
  | prepare => rfl
  | commit => rfl
  | roundChange => simp only [decodeBody, hlist _ .prepare (by decide)]

theorem decodeMessage_congr
    (h : ∀ type, headType b = .ok type → ∀ t item, levels t < levels type →
      peekType item = .ok t → read item = read' item) :
    decodeMessage read b = decodeMessage read' b := by
  unfold decodeMessage
  simp only [throw_eq_error, error_bind]
  refine if_congr Iff.rfl rfl ?_
  refine bind_congr_ok fun tag htag => bind_congr_ok fun type htype => ?_
  have hhead : headType b = .ok type := by rw [headType, htag, ok_bind, htype]
  simp only [decodeBody_congr (h type hhead)]

end Congruence

/-- Levels beyond those that the kind of an item takes are not entered. -/
theorem decodeLevels_eq {n : ℕ} (h : Fits n b) (k : ℕ) :
    decodeLevels (S := S) (n + k) b = decodeLevels n b := by
  induction n generalizing b with
  | zero => cases h.pos
  | succ n ih =>
    rw [Nat.succ_add, decodeLevels, decodeLevels]
    simp only [throw_eq_error, error_bind]
    refine if_congr Iff.rfl rfl ?_
    refine bind_congr_ok fun starts hstarts => bind_congr_ok fun parts hsplit => ?_
    split
    · rename_i signers signatures message
      have hmessage : decodeMessage (S := S) (decodeLevels (n + k)) message =
          decodeMessage (decodeLevels n) message :=
        decodeMessage_congr fun type htype t item hlt ht =>
          ih (h.carried (peekType_of_split hstarts hsplit htype) hlt ht)
      simp only [hmessage]
    · rfl

/-! ### Kinds -/

section Kinds

variable {read : ByteArray → Except Error (SignedMessage S)}

/-- A decoded body is of the kind that it is decoded for. -/
theorem type_of_decodeBody {type : MessageType} {root : Digest} {preparedRound : UInt64}
    {value roundChanges prepares : ByteArray} {body : Body S (SignedMessage S)}
    (h : decodeBody read type root preparedRound value roundChanges prepares = .ok body)
    (identifier : ByteArray) (height : Height) (round : Round) :
    Message.type ⟨identifier, height, round, body⟩ = type := by
  cases type with
  | propose =>
    simp only [decodeBody, throw_eq_error, error_bind, bind_eq_ok_iff, ite_error_eq_ok_iff,
      pure_eq_ok, Except.ok.injEq] at h
    obtain ⟨-, -, -, -, -, -, -, rfl⟩ := h
    rfl
  | prepare =>
    simp only [decodeBody, throw_eq_error, error_bind, ite_error_eq_ok_iff, pure_eq_ok,
      Except.ok.injEq, if_true] at h
    obtain ⟨-, -, -, rfl⟩ := h
    rfl
  | commit =>
    simp only [decodeBody, throw_eq_error, error_bind, ite_error_eq_ok_iff, pure_eq_ok,
      Except.ok.injEq, reduceCtorEq, if_false] at h
    obtain ⟨-, -, -, rfl⟩ := h
    rfl
  | roundChange =>
    simp only [decodeBody, throw_eq_error, error_bind, bind_eq_ok_iff, ite_error_eq_ok_iff] at h
    obtain ⟨-, ps, -, h⟩ := h
    split at h
    · simp only [ite_error_eq_ok_iff, pure_eq_ok, Except.ok.injEq] at h
      obtain ⟨-, -, -, rfl⟩ := h
      rfl
    · simp only [bind_eq_ok_iff, pure_eq_ok, Except.ok.injEq] at h
      obtain ⟨-, -, rfl⟩ := h
      rfl

theorem headType_of_decodeMessage {m : Message S (SignedMessage S)}
    (h : decodeMessage read b = .ok m) : headType b = .ok m.type := by
  simp only [decodeMessage, throw_eq_error, error_bind, bind_eq_ok_iff, ite_error_eq_ok_iff] at h
  obtain ⟨-, tag, htag, type, htype, _, -, _, -, _, -, _, -, _, -, _, -, _, -, _, -, _, -, h⟩ := h
  have hhead : headType b = .ok type := by rw [headType, htag, ok_bind, htype]
  split at h
  · simp only [bind_eq_ok_iff, pure_eq_ok, Except.ok.injEq] at h
    obtain ⟨-, -, -, -, body, hbody, rfl⟩ := h
    rw [hhead, type_of_decodeBody hbody]
  · cases h

/-- The kind that is peeked is the kind of the message that is decoded. -/
theorem peekType_of_decodeLevels {n : ℕ} {m : SignedMessage S} (h : decodeLevels n b = .ok m) :
    peekType b = .ok m.type := by
  cases n with
  | zero => cases h
  | succ n =>
    simp only [decodeLevels, throw_eq_error, error_bind, bind_eq_ok_iff, ite_error_eq_ok_iff] at h
    obtain ⟨-, starts, hstarts, parts, hsplit, h⟩ := h
    split at h
    · simp only [bind_eq_ok_iff, ite_error_eq_ok_iff, pure_eq_ok, Except.ok.injEq] at h
      obtain ⟨-, -, -, -, -, -, -, message, hmessage, rfl⟩ := h
      exact peekType_of_split hstarts hsplit (headType_of_decodeMessage hmessage)
    · cases h

end Kinds

/-! ### All bytes -/

/-- Decoding any bytes ends with a message or a refusal, never with a fault. At most three messages
are nested: a reader that could go deeper would do the same. An item that is decoded is of the kind
that was peeked before. -/
theorem decode_ends (b : ByteArray) :
    ((∃ m : SignedMessage S, decode b = .ok m) ∨
      ∃ e, decode (S := S) b = .error e ∧ Refusal e) ∧
    (∀ k, decodeLevels (S := S) (3 + k) b = decodeLevels 3 b) ∧
    ∀ n item (m : SignedMessage S), decodeLevels n item = .ok m → peekType item = .ok m.type := by
  have hrefuses : FailsOnly Refusal (decode (S := S) b) :=
    checkBound_refuses.bind fun _ _ => decodeLevels_refuses fits_three
  refine ⟨?_, decodeLevels_eq fits_three, fun n item m => peekType_of_decodeLevels⟩
  cases hdecode : decode (S := S) b with
  | ok m => exact .inl ⟨m, rfl⟩
  | error e => exact .inr ⟨e, rfl, hrefuses e hdecode⟩

end Wire
end Conclave
