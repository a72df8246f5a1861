import Conclave.Proofs.Instance.Invariant
import Conclave.Proofs.Wire.Size

/-!
# What an instance sends

All that an instance keeps of the messages it receives can be written to the wire again, if it came
over the wire (`Stocked`), and so can what the instance makes of it: it copies the prepares and the
round changes of one round, of which there is at most one for each member. So an instance of a
committee that is not too large sends nothing that is not written.

Only the size of a proposal is not bounded by that: it carries a value of its own and one for each
of its round changes. `sent_wireSafe_iff` says that this is all that can go wrong, and
`proposal_too_long` that it does go wrong.
-/

namespace Conclave

variable {S : Scheme}

/-! ### Committees -/

/-- A verified message has no more signers than there are members. -/
theorem SignedMessage.length_signers_le_of_verify {committee : Committee S} {domain : Domain}
    {m : SignedMessage S} (h : m.verify committee domain = .ok ()) :
    m.signers.length ≤ committee.size := by
  rw [← committee.card_names, ← List.toFinset_card_of_nodup (nodup_of_verify h)]
  exact Finset.card_le_card fun id hid => mem_names_of_verify h (List.mem_toFinset.1 hid)

namespace Instance

open Wire

section Tallies

variable {seat : Seat S} {height : Height} {type : MessageType} {t : Tally S}

/-- There is at most one message of a round for each member. -/
theorem OnePerSigner.length_ofRound_le (h : OnePerSigner t) (hfiled : Filed seat height type t)
    (round : Round) : (t.ofRound round).length ≤ seat.committee.size := by
  have hlength : ((t.ofRound round).flatMap SignedMessage.signers).length =
      (t.ofRound round).length := by
    have hone : ∀ n ∈ (t.ofRound round).map fun m => m.signers.length, n = 1 := by
      intro n hn
      obtain ⟨m, hm, rfl⟩ := List.mem_map.1 hn
      obtain ⟨id, hid⟩ := h.single m (Tally.mem_ofRound.1 hm).1
      rw [hid, List.length_singleton]
    rw [List.length_flatMap, List.sum_eq_card_nsmul _ 1 hone]
    simp
  rw [← hlength, ← List.toFinset_card_of_nodup (h.nodup round), ← seat.committee.card_names]
  refine Finset.card_le_card fun id hid => ?_
  obtain ⟨m, hm, hid⟩ := List.mem_flatMap.1 (List.mem_toFinset.1 hid)
  exact SignedMessage.mem_names_of_verify (hfiled.of_round hm).2.verified hid

end Tallies

/-! ### Where things come from -/

/-- Where an instance has what it keeps after a move from. -/
structure Sources (s : Instance S) (e : Event S) (u : Instance S) : Prop where
  startValue : ∀ {value}, u.startValue = some value →
    s.startValue = some value ∨ e = .start value
  accepted : ∀ {m}, u.accepted = some m → s.accepted = some m ∨ e = .receive m
  prepared : ∀ {p}, u.prepared = some p → s.prepared = some p ∨
    ∃ proposal, s.accepted = some proposal ∧ proposal.message.value? = some p.value ∧
      p.round = proposal.round
  prepares : ∀ {m}, m ∈ u.prepares.messages → m ∈ s.prepares.messages ∨ e = .receive m
  roundChanges : ∀ {m}, m ∈ u.roundChanges.messages →
    m ∈ s.roundChanges.messages ∨ e = .receive m

section Moves

variable {seat : Seat S} {height : Height} {s u : Instance S} {e : Event S}
  {effects : List (Effect S)} {decision : Option (Decision S)}

theorem Move.sources (h : Move seat s e effects decision u) : Sources s e u := by
  have hadd : ∀ {t : Tally S} {m x : SignedMessage S}, x ∈ (t.add m).messages →
      x ∈ t.messages ∨ (.receive m : Event S) = .receive x := by
    intro t m x hx
    rw [Tally.messages_add, List.mem_append, List.mem_singleton] at hx
    exact hx.imp_right fun heq => congrArg Event.receive heq.symm
  -- nothing is accepted in a round that is entered
  have hnone : ∀ {m : SignedMessage S} {P : Prop}, none = some m → P :=
    fun h => absurd h.symm (Option.some_ne_none _)
  cases h with
  | start hnew => exact ⟨fun h => .inr (Option.some.inj h ▸ rfl), .inl, .inl, .inl, .inl⟩
  | lead hnew hround hleader =>
    exact ⟨fun h => .inr (Option.some.inj h ▸ rfl), .inl, .inl, .inl, .inl⟩
  | accept hreach htype hvalid hvalue =>
    exact ⟨.inl, fun h => .inr (Option.some.inj h ▸ rfl), .inl, .inl, .inl⟩
  | storePrepare hreach htype hvalid hnew => exact ⟨.inl, .inl, .inl, hadd, .inl⟩
  | prepare hreach htype hvalid hnew hvalue hfirst hquorum =>
    obtain ⟨proposal, haccepted, hround, -⟩ := validateVote_eq_ok_iff.1 hvalid
    rw [acceptedValue?, haccepted] at hvalue
    exact ⟨.inl, .inl, fun h => .inr ⟨proposal, haccepted, Option.some.inj h ▸ ⟨hvalue, hround⟩⟩,
      hadd, .inl⟩
  | storeCommit hreach htype hvalid hnew => exact ⟨.inl, .inl, .inl, .inl, .inl⟩
  | decide hreach htype hvalid hnew hopen hvalue hquorum hcommit =>
    exact ⟨.inl, .inl, .inl, .inl, .inl⟩
  | storeRoundChange hreach htype hvalid hnew => exact ⟨.inl, .inl, .inl, .inl, hadd⟩
  | propose htype hopen hround hfirst hleader hquorum hproposal =>
    unfold enter
    split
    · exact ⟨.inl, hnone, .inl, .inl, .inl⟩
    · exact ⟨.inl, .inl, .inl, .inl, .inl⟩
  | follow htype hopen habove hquorum hlowest hlt => exact ⟨.inl, hnone, .inl, .inl, .inl⟩
  | expire hrunning hopen hnext => exact ⟨.inl, hnone, .inl, .inl, .inl⟩
  | learn hopen hvalue hroot => exact ⟨.inl, .inl, .inl, .inl, .inl⟩

/-- What happens to an instance comes over the wire: messages have been read from it, and the value
to propose is not too large for it. -/
def OverWire : Event S → Prop
  | .start value => value.data.size ≤ Bounds.value
  | .receive m => WireSafe m
  | .learn m => WireSafe m
  | .timeout _ => True

/-- What an instance keeps can be written to the wire again. Its commits are those of members, until
it learns of a decision. -/
structure Stocked (seat : Seat S) (height : Height) (s : Instance S) : Prop where
  height_eq : s.height = height
  first_le : 1 ≤ s.round.toNat
  startValue : ∀ {value}, s.startValue = some value → value.data.size ≤ Bounds.value
  accepted : ∀ {m}, s.accepted = some m → Writable m ∧ m.round = s.round
  prepared : ∀ {p}, s.prepared = some p →
    p.value.data.size ≤ Bounds.value ∧ p.round.word ≠ 0
  prepares : Filed seat height .prepare s.prepares ∧ OnePerSigner s.prepares ∧
    ∀ m ∈ s.prepares.messages, Writable m
  roundChanges : Filed seat height .roundChange s.roundChanges ∧ OnePerSigner s.roundChanges ∧
    ∀ m ∈ s.roundChanges.messages, Writable m
  commits : s.decided = none → Filed seat height .commit s.commits

namespace Stocked

theorem new (seat : Seat S) (height : Height) : Stocked seat height (.new height) where
  height_eq := rfl
  first_le := le_rfl
  startValue := nofun
  accepted := nofun
  prepared := nofun
  prepares := ⟨filed_empty, onePerSigner_empty, nofun⟩
  roundChanges := ⟨filed_empty, onePerSigner_empty, nofun⟩
  commits _ := filed_empty

/-- Every move keeps it. -/
theorem move (hcodec : SignatureCodec S) (h : Stocked seat height s) (he : OverWire e)
    (hmove : Move seat s e effects decision u) : Stocked seat height u := by
  obtain ⟨-, hprepares, hcommits, hroundChanges⟩ := hmove.tallied
  rw [h.height_eq] at hprepares hcommits hroundChanges
  have hsources := hmove.sources
  have hreceived : ∀ {m}, e = .receive m → Writable m := by
    rintro m rfl
    exact WireSafe.writable hcodec he
  exact {
    height_eq := hmove.turn.1.trans h.height_eq
    first_le := h.first_le.trans hmove.turn.2.round_le
    startValue := fun hvalue => by
      rcases hsources.startValue hvalue with hold | rfl
      · exact h.startValue hold
      · exact he
    accepted := fun hm => by
      constructor
      · rcases hsources.accepted hm with hold | hnew
        · exact (h.accepted hold).1
        · exact hreceived hnew
      · rcases hmove.accepted hm with ⟨hold, hround⟩ | hnew
        · exact (h.accepted hold).2.trans hround.symm
        · exact hnew.round_eq
    prepared := fun hp => by
      rcases hsources.prepared hp with hold | ⟨proposal, haccepted, hvalue, hround⟩
      · exact h.prepared hold
      · obtain ⟨hwritable, hcurrent⟩ := h.accepted haccepted
        refine ⟨hwritable.value_le hcodec hvalue, fun hzero => ?_⟩
        have hfirst := h.first_le
        rw [← hcurrent, ← hround, Round.toNat, hzero] at hfirst
        exact absurd hfirst (by decide)
    prepares := ⟨h.prepares.1.stores hprepares, h.prepares.2.1.stores hprepares, fun m hm =>
      (hsources.prepares hm).elim (h.prepares.2.2 m) hreceived⟩
    roundChanges := ⟨h.roundChanges.1.stores hroundChanges, h.roundChanges.2.1.stores hroundChanges,
      fun m hm => (hsources.roundChanges hm).elim (h.roundChanges.2.2 m) hreceived⟩
    commits := fun hopen => by
      rcases hcommits with hstores | ⟨m, -, -, hdecided, -⟩
      · refine (h.commits ?_).stores hstores
        rcases hmove.decided with ⟨-, hsame⟩ | ⟨d, -, hnone, -⟩
        · rwa [← hsame]
        · exact hnone
      · rw [isDecided, hopen] at hdecided
        cases hdecided }

/-! ### What is sent -/

theorem writable_sign (hcodec : SignatureCodec S) (hid : seat.identifier.size ≤ Bounds.identifier)
    {round : Round} {body : Body S (SignedMessage S)} (hbody : WritableBody body) :
    Writable (sign seat s round body) :=
  (writable_iff hcodec).2 ⟨(by decide : 1 ≤ Bounds.signers), rfl, hid, hbody⟩

/-- What is copied of one round from a tally. -/
theorem writableList_of_sublist {type : MessageType} {t : Tally S} {round : Round}
    {ms : List (SignedMessage S)} (hcommittee : seat.committee.size ≤ Bounds.signers)
    (ht : Filed seat height type t ∧ OnePerSigner t ∧ ∀ m ∈ t.messages, Writable m)
    (hms : ms.Sublist (t.ofRound round)) : WritableList type ms where
  length_le := hms.length_le.trans ((ht.2.1.length_ofRound_le ht.1 round).trans hcommittee)
  type_eq _ hx := (ht.1.of_round (hms.subset hx)).2.type_eq
  writable x hx := ht.2.2 x (Tally.mem_ofRound.1 (hms.subset hx)).1

/-- The round change of this member. -/
theorem writable_roundChange (hcodec : SignatureCodec S)
    (hcommittee : seat.committee.size ≤ Bounds.signers)
    (hid : seat.identifier.size ≤ Bounds.identifier) (h : Stocked seat height s) (round : Round) :
    Writable (roundChange seat (s.moveTo round) round) := by
  refine writable_sign hcodec hid ?_
  rw [moveTo]
  dsimp only
  cases hp : s.prepared with
  | none => exact .unprepared
  | some p =>
    obtain ⟨hvalue, hround⟩ := h.prepared hp
    have hchosen := s.prepares.chosenFrom_uniqueSigners p.round p.value.root
    exact .prepared hvalue hround (writableList_of_sublist hcommittee h.prepares
      (hchosen.sublist.trans List.filter_sublist))

/-- What the leader of a round proposes to those who ask for the round. -/
theorem writableBody_propose (hcodec : SignatureCodec S)
    (hcommittee : seat.committee.size ≤ Bounds.signers) (h : Stocked seat height s) {round : Round}
    {value : Value S} {prepares : List (SignedMessage S)}
    (hproposal : proposalFor s (backing seat s round) = .ok (some (value, prepares))) :
    WritableBody (.propose value (backing seat s round) prepares) := by
  have hbacking : WritableList .roundChange (backing seat s round) :=
    writableList_of_sublist hcommittee h.roundChanges List.filter_sublist
  have hhighest := isHighestPrepared_highestPrepared? (backing seat s round)
  unfold proposalFor at hproposal
  split at hproposal
  · rename_i highest hfound
    rw [hfound] at hhighest
    have hwritable := hbacking.writable highest hhighest.1
    split at hproposal
    · rename_i carried hcarried
      simp only [Except.ok.injEq, Option.some.injEq, Prod.mk.injEq] at hproposal
      obtain ⟨rfl, rfl⟩ := hproposal
      exact .propose (hwritable.value_le hcodec hcarried) hbacking (hwritable.prepares hcodec)
    · cases hproposal
  · simp only [Except.ok.injEq, Option.map_eq_some_iff, Prod.mk.injEq] at hproposal
    obtain ⟨start, hstart, rfl, rfl⟩ := hproposal
    exact .propose (h.startValue hstart) hbacking writableList_nil

/-- All that an instance sends is written. -/
theorem sent (hcodec : SignatureCodec S) (hcommittee : seat.committee.size ≤ Bounds.signers)
    (hid : seat.identifier.size ≤ Bounds.identifier) (h : Stocked seat height s) (he : OverWire e)
    (hmove : Move seat s e effects decision u) : ∀ m ∈ sentBy effects, Writable m := by
  have hone : ∀ {m : SignedMessage S}, Writable m → sentBy effects = [m] →
      ∀ x ∈ sentBy effects, Writable x := by
    intro m hm heq x hx
    rw [heq, List.mem_singleton] at hx
    exact hx ▸ hm
  cases hmove with
  | start hnew => simp
  | lead hnew hround hleader =>
    refine hone (writable_sign hcodec hid ?_) (sentBy_timerCall_broadcast _ _ _)
    exact .propose he writableList_nil writableList_nil
  | accept hreach htype hvalid hvalue =>
    exact hone (writable_sign hcodec hid (.prepare _)) (sentBy_entryCalls_broadcast _ _ _ _)
  | storePrepare hreach htype hvalid hnew => nofun
  | prepare hreach htype hvalid hnew hvalue hfirst hquorum =>
    exact hone (writable_sign hcodec hid (.commit _)) rfl
  | storeCommit hreach htype hvalid hnew => nofun
  | decide hreach htype hvalid hnew hopen hvalue hquorum hcommit => nofun
  | storeRoundChange hreach htype hvalid hnew => nofun
  | propose htype hopen hround hfirst hleader hquorum hproposal =>
    refine hone (writable_sign hcodec hid ?_) (sentBy_entryCalls_broadcast _ _ _ _)
    exact writableBody_propose hcodec hcommittee h hproposal
  | follow htype hopen habove hquorum hlowest hlt =>
    exact hone (writable_roundChange hcodec hcommittee hid h _) (sentBy_timerCall_broadcast _ _ _)
  | expire hrunning hopen hnext =>
    exact hone (writable_roundChange hcodec hcommittee hid h _) (sentBy_timerCall_broadcast _ _ _)
  | learn hopen hvalue hroot => nofun

/-- A certificate of the stream is read back. -/
theorem wireSafe_of_certificate (hcodec : SignatureCodec S)
    (hcommittee : seat.committee.size ≤ Bounds.signers)
    (hid : seat.identifier.size ≤ Bounds.identifier) {commit : SignedMessage S}
    (h : Node.IsCertificate seat commit) : WireSafe commit := by
  obtain ⟨htype, hvalid⟩ := Node.isCertificate_iff.1 h
  obtain ⟨hidentifier, -, hverify⟩ := Node.validateDecided_eq_ok_iff.1 hvalid
  have hbody : WritableBody commit.message.body := by
    obtain ⟨⟨identifier, height, round, body⟩, signers, signatures⟩ := commit
    cases body with
    | commit root => exact .commit root
    | propose value roundChanges prepares => cases htype
    | prepare root => cases htype
    | roundChange prepared prepares => cases htype
  have hwritable : Writable commit := (writable_iff hcodec).2
    ⟨(SignedMessage.length_signers_le_of_verify hverify).trans hcommittee,
      (SignedMessage.verify_eq_ok_iff.1 hverify).2.1, hidentifier ▸ hid, hbody⟩
  refine hwritable.wireSafe hcodec ?_
  rw [htype]
  decide

/-- The commit of a decision is read back. -/
theorem decision_wireSafe (hcodec : SignatureCodec S)
    (hcommittee : seat.committee.size ≤ Bounds.signers)
    (hid : seat.identifier.size ≤ Bounds.identifier) (h : Stocked seat height s) (he : OverWire e)
    {d : Decision S} (hmove : Move seat s e effects (some d) u) : WireSafe d.commit := by
  cases hmove with
  | learn hopen hvalue hroot => exact he
  | decide hreach htype hvalid hnew hopen hvalue hquorum hcommit =>
    obtain ⟨-, -, -, -, -, hverify⟩ := validateVote_eq_ok_iff.1 hvalid
    have hmessage := hreach.isMessageOf htype hverify
    rw [h.height_eq] at hmessage
    have hfiled := (h.commits hopen).add hmessage
    exact wireSafe_of_certificate hcodec hcommittee hid
      (certificate_of_aggregate hfiled hquorum hcommit).1

end Stocked
end Moves

/-! ### Runs -/

/-- The traces of the runs of an instance that is in touch with others over the wire only. -/
inductive WireRun (seat : Seat S) (height : Height) : Trace S → Prop
  | new : WireRun seat height (.new height)
  | next {t : Trace S} (net : Network S) (e : Event S) (h : WireRun seat height t)
      (he : OverWire e) : WireRun seat height (t.extend seat net e)

section Runs

variable {seat : Seat S} {height : Height} {t : Trace S}

theorem WireRun.play (h : WireRun seat height t) {events : List (Event S)}
    (he : ∀ e ∈ events, OverWire e) : WireRun seat height (t.play seat events) :=
  Trace.play_induct h (fun _ e h he => h.next (Network.reliable S) e he) he

/-- Over any run in which all messages come over the wire, an instance sends what is encoded, and
that is read back exactly if it is no proposal or is within the bound on encodings. The commits of
decisions are read back always. -/
theorem sent_wireSafe_iff (hcodec : SignatureCodec S)
    (hcommittee : seat.committee.size ≤ Bounds.signers)
    (hid : seat.identifier.size ≤ Bounds.identifier) (h : WireRun seat height t) :
    (∀ m ∈ t.sent, (∃ b, encode m = .ok b) ∧
      (WireSafe m ↔ (m.type = .propose → encodedSize m ≤ Bounds.encoding))) ∧
    ∀ d ∈ t.decisions, WireSafe d.commit := by
  have hall : Stocked seat height t.state ∧ (∀ m ∈ t.sent, Writable m) ∧
      ∀ d ∈ t.decisions, WireSafe d.commit := by
    induction h with
    | new => exact ⟨.new seat height, nofun, nofun⟩
    | next net e _ he ih =>
      refine Trace.extend_induct (P := fun t => Stocked seat height t.state ∧
        (∀ m ∈ t.sent, Writable m) ∧ ∀ d ∈ t.decisions, WireSafe d.commit) ih ?_
      rintro t effects decision u ⟨ht, hsent, hdecisions⟩ hmove
      refine ⟨ht.move hcodec he hmove, fun m hm => ?_, fun d hd => ?_⟩
      · rcases List.mem_append.1 hm with hm | hm
        · exact hsent m hm
        · exact ht.sent hcodec hcommittee hid he hmove m hm
      · rcases List.mem_append.1 hd with hd | hd
        · exact hdecisions d hd
        · obtain rfl := Option.mem_toList.1 hd
          exact ht.decision_wireSafe hcodec hcommittee hid he hmove
  refine ⟨fun m hm => ?_, hall.2.2⟩
  have hwritable := hall.2.1 m hm
  refine ⟨hwritable.encodes, fun hsafe _ => (hwritable.wireSafe_iff hcodec).1 hsafe,
    fun hsize => ?_⟩
  by_cases htype : m.type = .propose
  · exact (hwritable.wireSafe_iff hcodec).2 (hsize htype)
  · exact hwritable.wireSafe hcodec htype

end Runs

/-! ### A leader that is asked to propose -/

namespace Asked

open Scheme

/-- The place of member 2. -/
def seat : Seat plain := { plain.seat with signer := ⟨⟨2⟩, (2 : UInt64)⟩ }

/-- The prepares of a quorum for a value in the first round. -/
def prepares (value : Value plain) : List (SignedMessage plain) :=
  [1, 2, 3].map fun id => plain.message id (.prepare value.root)

/-- The round change of a member for the second round, which reports the value as prepared. -/
def roundChange (value : Value plain) (id : UInt64) : SignedMessage plain :=
  plain.signed id plain.seat.identifier Height.first ⟨2⟩
    (.roundChange (some ⟨Round.first, value⟩) (prepares value))

/-- Member 2 gives up the first round, and two others ask for the second one, which it leads. -/
def opening (value : Value plain) : Trace plain :=
  (Trace.new Height.first).play seat
    [.timeout Round.first, .receive (roundChange value 1), .receive (roundChange value 3)]

/-- The last member of a quorum asks for it as well. -/
def trace (value : Value plain) : Trace plain :=
  (opening value).extend seat (Network.reliable plain) (.receive (roundChange value 4))

/-- The instance in the second round, when some members have asked for the round. -/
def waiting (value : Value plain) (ids : List UInt64) : Instance plain :=
  { Instance.new Height.first with round := ⟨2⟩, roundChanges := ⟨ids.map (roundChange value)⟩ }

/-- What it proposes. -/
def proposal (value : Value plain) : SignedMessage plain :=
  sign seat (waiting value []) ⟨2⟩
    (.propose value ([1, 3, 4].map (roundChange value)) (prepares value))

variable {value : Value plain} {id : UInt64} {ids : List UInt64}

theorem verify_signed (h : id ∈ [1, 2, 3, 4]) (identifier : ByteArray) (height : Height)
    (round : Round) (body : Body plain (SignedMessage plain)) :
    (plain.signed id identifier height round body).verify plain.committee plain.domain =
      .ok () := by
  have hget : plain.committee.get? ⟨id⟩ = some ⟨⟨id⟩, id⟩ := by
    simp only [List.mem_cons, List.not_mem_nil, or_false] at h
    rcases h with rfl | rfl | rfl | rfl <;> rfl
  exact SignedMessage.verify_signMessage hget (plain.verify_sign id) _ _

theorem isPrepareFor (h : id ∈ [1, 2, 3, 4]) : IsPrepareFor seat Height.first Round.first
    value.root (plain.message id (.prepare value.root)) where
  type := rfl
  single := ⟨_, rfl⟩
  verified := verify_signed h _ _ _ _
  height_eq := rfl
  round_eq := rfl
  root_eq := rfl

theorem isPrepareFor_prepares :
    (∀ m ∈ prepares value, IsPrepareFor seat Height.first Round.first value.root m) ∧
      ((prepares value).flatMap SignedMessage.signers).Nodup := by
  refine ⟨fun m hm => ?_, ?_⟩
  · obtain ⟨id, hid, rfl⟩ := List.mem_map.1 hm
    exact isPrepareFor (List.mem_append_left [4] hid)
  · change List.Nodup [(⟨1⟩ : OperatorId), ⟨2⟩, ⟨3⟩]
    decide

theorem isRoundChangeFor (h : id ∈ [1, 2, 3, 4]) :
    IsRoundChangeFor seat Height.first ⟨2⟩ (roundChange value id) where
  single := ⟨_, rfl⟩
  verified := verify_signed h _ _ _ _
  height_eq := rfl
  round_eq := rfl
  prepared := by
    rintro r hr
    obtain rfl := Option.some.inj hr
    exact ⟨(by decide : Round.first < ⟨2⟩), _, rfl, isPrepareFor_prepares⟩

theorem isJustified_roundChange {s : Instance plain} (hs : s.height = Height.first) :
    isJustified seat s (roundChange value id) = true := by
  have hprepares : validatePrepareJustification seat s (prepares value) Round.first value.root =
      .ok 3 := by
    rw [validatePrepareJustification_eq_ok_iff, hs]
    exact ⟨rfl, isPrepareFor_prepares⟩
  have hround : (roundChange value id).message.preparedRound? = some Round.first := rfl
  have hroot : (roundChange value id).message.valueRoot? = some value.root := rfl
  have hcarried : (roundChange value id).message.prepares = prepares value := rfl
  simp only [isJustified, hround, hroot, hcarried, hprepares]
  decide

theorem backing_waiting : backing seat (waiting value ids) ⟨2⟩ = ids.map (roundChange value) := by
  have hround : (waiting value ids).roundChanges.ofRound ⟨2⟩ = ids.map (roundChange value) := by
    refine List.filter_eq_self.2 fun m hm => ?_
    obtain ⟨id, -, rfl⟩ := List.mem_map.1 hm
    rfl
  rw [backing, hround]
  refine List.filter_eq_self.2 fun m hm => ?_
  obtain ⟨id, -, rfl⟩ := List.mem_map.1 hm
  exact isJustified_roundChange rfl

/-- Nobody asks for a round above the current one. -/
theorem skipAhead_waiting (net : Network plain) :
    skipAhead seat net (waiting value ids) = .done (waiting value ids) () := by
  have hnext : (waiting value ids).round.next? = .ok ⟨3⟩ := rfl
  refine skipAhead_eq_done hnext fun m hm => ?_
  obtain ⟨id, -, rfl⟩ := List.mem_map.1 hm
  exact le_rfl

theorem receive_waiting (net : Network plain) (h : id ∈ [1, 2, 3, 4]) (hnew : id ∉ ids) :
    step seat net (waiting value ids) (.receive (roundChange value id)) =
      undecided (both (proposeOnQuorum seat net (waiting value (ids ++ [id])) ⟨2⟩)
        (skipAhead seat net)) := by
  have hrunning : (waiting value ids).stopped seat = false := rfl
  have hbase : validateBase seat (waiting value ids) (roundChange value id) = .ok () :=
    validateBase_eq_ok_iff.2 ⟨rfl, rfl, le_rfl⟩
  have htype : (roundChange value id).type = .roundChange := rfl
  have hround : (roundChange value id).round = ⟨2⟩ := rfl
  have hvalid : validateRoundChange seat (waiting value ids) (roundChange value id) ⟨2⟩ = .ok () :=
    validateRoundChange_eq_ok_iff.2 (isRoundChangeFor h)
  have hadd : (waiting value ids).roundChanges.addFirst? (roundChange value id) =
      some ⟨(ids ++ [id]).map (roundChange value)⟩ := by
    have hfirst : (waiting value ids).roundChanges.hasSignerOf (roundChange value id) = false := by
      refine Tally.hasSignerOf_eq_false_iff.2 fun m hm _ signer hsigner hsame => ?_
      obtain ⟨other, hother, rfl⟩ := List.mem_map.1 hm
      have heq := (List.mem_singleton.1 hsigner).symm.trans (List.mem_singleton.1 hsame)
      exact hnew (OperatorId.mk.inj heq ▸ hother)
    rw [Tally.addFirst?, hfirst, List.map_append]
    rfl
  have hopen : ({ waiting value ids with roundChanges := ⟨(ids ++ [id]).map (roundChange value)⟩ } :
      Instance plain).isDecided = false := rfl
  simp only [step, receive, hrunning, hbase, htype, onRoundChange, hround, hvalid, hadd, hopen]
  rfl

theorem isLeader_waiting : isLeader seat (waiting value ids) ⟨2⟩ = .ok true := by
  have hturn : seat.context.proposer seat.committee Height.first ⟨2⟩ = .ok ⟨2⟩ := by decide +kernel
  have hheight : (waiting value ids).height = Height.first := rfl
  rw [isLeader, leader, hheight, hturn]
  rfl

/-- Member 2 proposes as soon as a quorum asks for the round. -/
theorem proposeOnQuorum_waiting (net : Network plain) :
    proposeOnQuorum seat net (waiting value ids) ⟨2⟩ =
      if ¬ seat.committee.thresholds.isQuorum (distinctSigners (ids.map (roundChange value))) then
        .done (waiting value ids) ()
      else
        match proposalFor (waiting value ids) (ids.map (roundChange value)) with
        | .error e => .refuse (waiting value ids) e
        | .ok none => .done (waiting value ids) ()
        | .ok (some (proposed, prepares)) =>
          send net { waiting value ids with proposedRound := some ⟨2⟩ }
            (sign seat (waiting value ids) ⟨2⟩
              (.propose proposed (ids.map (roundChange value)) prepares)) := by
  have hbacking : backing seat (waiting value ids) ⟨2⟩ = ids.map (roundChange value) :=
    backing_waiting
  have hsame : ¬ (waiting value ids).round < ⟨2⟩ := by
    change ¬ (⟨2⟩ : Round) < ⟨2⟩
    decide
  rw [backing] at hbacking
  rw [proposeOnQuorum, isLeader_waiting, hbacking, if_neg]
  · simp only [if_neg hsame]
    refine if_congr Iff.rfl rfl ?_
    cases proposalFor (waiting value ids) (ids.map (roundChange value)) with
    | error e => rfl
    | ok found => cases found <;> rfl
  · rintro (h | h)
    · exact absurd h (by decide : ¬ (⟨2⟩ : Round) < ⟨2⟩)
    · cases h

/-- Two members are no quorum. -/
theorem receive_few (net : Network plain) (h : id ∈ [1, 2, 3, 4]) (hnew : id ∉ ids)
    (hfew : seat.committee.thresholds.isQuorum
      (distinctSigners ((ids ++ [id]).map (roundChange value))) = false) :
    step seat net (waiting value ids) (.receive (roundChange value id)) =
      .done (waiting value (ids ++ [id])) none := by
  rw [receive_waiting net h hnew, proposeOnQuorum_waiting, hfew, if_pos (by decide), both]
  dsimp only [Step.done]
  rw [skipAhead_waiting]
  rfl

theorem state_opening : (opening value).state = waiting value [1, 3] := by
  have hexpire : (step seat (Network.reliable plain) (Instance.new Height.first)
      (.timeout Round.first)).state = waiting value [] := rfl
  have hfirst : step seat (Network.reliable plain) (waiting value [])
      (.receive (roundChange value 1)) = .done (waiting value [1]) none :=
    receive_few _ (by decide) (by decide) rfl
  have hsecond : step seat (Network.reliable plain) (waiting value [1])
      (.receive (roundChange value 3)) = .done (waiting value [1, 3]) none :=
    receive_few _ (by decide) (by decide) rfl
  simp only [opening, Trace.play, List.foldl_cons, List.foldl_nil, Trace.extend, Trace.state_after,
    Trace.new, hexpire, hfirst, hsecond, Step.done]

theorem proposal_mem_sent : proposal value ∈ (trace value).sent := by
  have hquorum : seat.committee.thresholds.isQuorum
      (distinctSigners ([1, 3, 4].map (roundChange value))) = true := rfl
  have hproposal : proposalFor (waiting value [1, 3, 4]) ([1, 3, 4].map (roundChange value)) =
      .ok (some (value, prepares value)) := rfl
  have hlast : Effect.broadcast (proposal value) ∈ (step seat (Network.reliable plain)
      (waiting value [1, 3]) (.receive (roundChange value 4))).effects := by
    rw [receive_waiting _ (by decide) (by decide), List.cons_append, List.singleton_append,
      proposeOnQuorum_waiting, hquorum, if_neg (by decide), hproposal]
    exact List.mem_cons_self
  refine Trace.mem_sent_extend ?_
  rw [state_opening]
  exact hlast

/-! #### Sizes -/

theorem encodedSize_signed (id : UInt64) (height : Height) (round : Round)
    (body : Body plain (SignedMessage plain)) :
    encodedSize (plain.signed id plain.seat.identifier height round body) =
      138 + bodySize body := by
  have hidentifier : plain.seat.identifier.size = 1 := rfl
  simp only [plain.signed, Signer.signMessage, encodedSize, messageSize, List.map_cons,
    List.map_nil, List.sum_cons, List.sum_nil, List.length_cons, List.length_nil, hidentifier,
    plain.size_encodeSignature, signedMessageHead, offsetSize, messageHead]
  omega

theorem listSize_prepares : listSize (prepares value) = 426 := by
  simp only [prepares, plain.message, List.map_cons, List.map_nil, listSize, encodedSize_signed,
    bodySize, offsetSize]

theorem encodedSize_roundChange : encodedSize (roundChange value id) = value.data.size + 564 := by
  rw [roundChange, encodedSize_signed, bodySize, listSize_prepares, Option.elim_some]
  dsimp only
  omega

/-- The proposal has the value four times. -/
theorem encodedSize_proposal : encodedSize (proposal value) = 4 * value.data.size + 2268 := by
  have hsigned : proposal value = plain.signed 2 plain.seat.identifier Height.first ⟨2⟩
    (.propose value ([1, 3, 4].map (roundChange value)) (prepares value)) := rfl
  simp only [hsigned, encodedSize_signed, bodySize, List.map_cons, List.map_nil, listSize,
    encodedSize_roundChange, listSize_prepares, offsetSize]
  omega

/-! #### Over the wire -/

theorem writable_signed (height : Height) (round : Round)
    {body : Body plain (SignedMessage plain)} (h : WritableBody body) :
    Writable (plain.signed id plain.seat.identifier height round body) :=
  (writable_iff signatureCodec_plain).2
    ⟨(by decide : 1 ≤ Bounds.signers), rfl, (by decide : 1 ≤ Bounds.identifier), h⟩

theorem writableList_map {type : MessageType} {ids : List UInt64}
    {f : UInt64 → SignedMessage plain} (hlen : ids.length ≤ Bounds.justifications)
    (htype : ∀ id, (f id).type = type) (hf : ∀ id, Writable (f id)) :
    WritableList type (ids.map f) where
  length_le := by rwa [List.length_map]
  type_eq := List.forall_mem_map.2 fun id _ => htype id
  writable := List.forall_mem_map.2 fun id _ => hf id

theorem writableList_prepares : WritableList .prepare (prepares value) :=
  writableList_map (by decide) (fun _ => rfl) fun _ => writable_signed _ _ (.prepare _)

theorem writable_roundChange (h : value.data.size ≤ Bounds.value) (id : UInt64) :
    Writable (roundChange value id) :=
  writable_signed _ _ (.prepared h (by decide : Round.first.word ≠ 0) writableList_prepares)

theorem writable_proposal (h : value.data.size ≤ Bounds.value) : Writable (proposal value) :=
  writable_signed _ _ (.propose h
    (writableList_map (by decide) (fun _ => rfl) (writable_roundChange h)) writableList_prepares)

theorem wireRun_trace (h : value.data.size ≤ Bounds.value) :
    WireRun seat Height.first (trace value) := by
  have hasked (id : UInt64) : OverWire (.receive (roundChange value id)) :=
    (writable_roundChange h id).wireSafe signatureCodec_plain nofun
  have hopening : WireRun seat Height.first (opening value) := WireRun.new.play <| by
    simp only [List.forall_mem_cons]
    exact ⟨trivial, hasked 1, hasked 3, List.forall_mem_nil _⟩
  exact hopening.next _ _ (hasked 4)

/-- A small value is no problem. -/
theorem proposal_wireSafe : SignatureCodec plain ∧ seat.committee.size ≤ Bounds.signers ∧
    seat.identifier.size ≤ Bounds.identifier ∧ WireRun seat Height.first (trace plain.value) ∧
    proposal plain.value ∈ (trace plain.value).sent ∧ WireSafe (proposal plain.value) := by
  have hsize : plain.value.data.size = 1 := rfl
  have hrun : WireRun seat Height.first (trace plain.value) :=
    wireRun_trace (by rw [hsize]; decide)
  refine ⟨signatureCodec_plain, by decide, by decide, hrun, proposal_mem_sent, ?_⟩
  refine ((sent_wireSafe_iff signatureCodec_plain (by decide) (by decide) hrun).1 _
    proposal_mem_sent).2.2 fun _ => ?_
  rw [encodedSize_proposal, hsize]
  decide

/-- The proposal is read back as long as there is room for the value four times. -/
theorem proposal_wireSafe_iff (h : value.data.size ≤ Bounds.value) :
    WireSafe (proposal value) ↔ 4 * value.data.size + 2268 ≤ Bounds.encoding := by
  rw [(writable_proposal h).wireSafe_iff signatureCodec_plain, encodedSize_proposal]

/-- A largest value. -/
def bulk : Value plain := .ofBytes ⟨.replicate Bounds.value 97⟩

/-- A quorum that has prepared a largest value makes the leader send what nobody can read. -/
theorem proposal_too_long : seat.committee.size ≤ Bounds.signers ∧
    seat.identifier.size ≤ Bounds.identifier ∧ WireRun seat Height.first (trace bulk) ∧
    proposal bulk ∈ (trace bulk).sent ∧ ¬ WireSafe (proposal bulk) ∧
    ∃ b, encode (proposal bulk) = .ok b ∧
      decode (S := plain) b = .error (.tooLong .message b.size Bounds.encoding) := by
  have hsize : bulk.data.size = Bounds.value := Array.size_replicate
  have hlong : Bounds.encoding < 4 * bulk.data.size + 2268 := by
    rw [hsize]
    decide
  obtain ⟨b, hb⟩ := (writable_proposal hsize.le).encodes
  refine ⟨by decide, by decide, wireRun_trace hsize.le, proposal_mem_sent,
    mt (proposal_wireSafe_iff hsize.le).1 hlong.not_ge, b, hb, ?_⟩
  rw [← encodedSize_proposal, ← size_encode _ b hb] at hlong
  rw [decode, checkBound, if_pos hlong]
  rfl

end Asked

end Instance
end Conclave
