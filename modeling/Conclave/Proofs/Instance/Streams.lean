import Conclave.Proofs.Instance.Move
import Conclave.Proofs.PlainScheme

/-!
# Streams and justifications

A message that passes validation belongs to the stream of the instance. The messages it carries to
justify it are verified and belong to the height of the instance, but of them the stream is not
asked: what members have signed for another stream, with the same committee, domain and height,
counts as well.

* `Passes` are the messages that an instance acts on;
* `counted` are the messages that count for a quorum or a preparation in a message;
* `Usable` says which messages of justifications an instance would count, wherever they are from;
* `exists_report` and `exists_proposal` are the messages in which they count.

`counted_of_any_stream` is what follows for every running instance: exactly the usable messages
count, and in any stream there are some on which a member can report a preparation, and the leader
of a later round propose.
-/

namespace Conclave
namespace Instance

variable {S : Scheme}

/-- A message that an instance acts on: it reaches the instance and passes the validation of its
kind. -/
inductive Passes (seat : Seat S) (s : Instance S) (m : SignedMessage S) : Prop
  | proposal (hreach : Reaches seat s m) (htype : m.type = .propose)
      (hvalid : validateProposal seat s m = .ok ())
  | vote (hreach : Reaches seat s m) (htype : m.type = .prepare ∨ m.type = .commit)
      (hvalid : validateVote seat s m = .ok ())
  | roundChange (hreach : Reaches seat s m) (htype : m.type = .roundChange)
      (hvalid : validateRoundChange seat s m m.round = .ok ())

/-- The messages that count in a message: in a proposal above the first round the round changes and,
if one of them reports a preparation, the prepares; in a round change that reports a preparation the
prepares. -/
def counted (m : SignedMessage S) : List (SignedMessage S) :=
  match m.type with
  | .propose =>
    if m.round = Round.first then []
    else m.message.roundChanges ++
      (if (highestPrepared? m.message.roundChanges).isSome then m.message.prepares else [])
  | .roundChange => if m.message.preparedRound?.isSome then m.message.prepares else []
  | _ => []

/-- What counts in a message is of one stream, and something counts. -/
structure CountsOnly (identifier : ByteArray) (m : SignedMessage S) : Prop where
  ne_nil : counted m ≠ []
  identifier_eq : ∀ x ∈ counted m, x.identifier = identifier

section Counted

variable {m : SignedMessage S} {identifier : ByteArray} {height : Height} {round : Round}

theorem counted_of_report {p : Prepared S} {prepares : List (SignedMessage S)}
    (h : m.message = ⟨identifier, height, round, .roundChange (some p) prepares⟩) :
    counted m = prepares := by
  simp [counted, SignedMessage.type, Message.type, Message.preparedRound?, Message.prepared?,
    Message.prepares, h]

theorem counted_of_proposal {value : Value S} {roundChanges prepares : List (SignedMessage S)}
    (h : m.message = ⟨identifier, height, round, .propose value roundChanges prepares⟩)
    (hround : round ≠ Round.first) :
    counted m =
      roundChanges ++ if (highestPrepared? roundChanges).isSome then prepares else [] := by
  simp [counted, SignedMessage.type, SignedMessage.round, Message.type, Message.roundChanges,
    Message.prepares, h, hround]

end Counted

variable {seat : Seat S} {net : Network S} {s : Instance S}

theorem Passes.reaches {m : SignedMessage S} : Passes seat s m → Reaches seat s m
  | .proposal hreach .. => hreach
  | .vote hreach .. => hreach
  | .roundChange hreach .. => hreach

/-- A message that is processed without an error passes validation. -/
theorem passes_of_receive {m : SignedMessage S} {d : Option (Decision S)}
    (h : (receive seat net s m).answer = .ok d) : Passes seat s m := by
  have hok : ∀ {o : Step S (Instance S) Error Unit}, (undecided o).answer = .ok d →
      o.answer = .ok () := by
    intro o ho
    cases hanswer : o.answer with
    | error e => simp [undecided, Step.mapAnswer, Except.map, hanswer] at ho
    | ok _ => rfl
  unfold receive at h
  split at h
  · cases h
  rename_i hrunning
  split at h
  · cases h
  rename_i hbase
  obtain ⟨hid, hheight, hround⟩ := validateBase_eq_ok_iff.1 hbase
  have hreach : Reaches seat s m := ⟨by simpa using hrunning, hid, hheight, hround⟩
  split at h
  · rename_i htype
    have h := hok h
    unfold onPropose at h
    split at h
    · cases h
    · exact .proposal hreach htype ‹_›
  · rename_i htype
    have h := hok h
    unfold onPrepare at h
    split at h
    · cases h
    · exact .vote hreach (.inl htype) ‹_›
  · rename_i htype
    unfold onCommit at h
    split at h
    · cases h
    · exact .vote hreach (.inr htype) ‹_›
  · rename_i htype
    have h := hok h
    unfold onRoundChange at h
    split at h
    · cases h
    · exact .roundChange hreach htype ‹_›

/-- A proposal that passes validation is accepted. -/
theorem accepted_of_passes {m : SignedMessage S} (h : Passes seat s m) (htype : m.type = .propose) :
    (receive seat (Network.reliable S) s m).answer = .ok none ∧
      (receive seat (Network.reliable S) s m).state.accepted = some m := by
  obtain ⟨hrunning, hid, hheight, hround⟩ := h.reaches
  have hvalid : validateProposal seat s m = .ok () := by
    cases h with
    | proposal hreach htype hvalid => exact hvalid
    | vote hreach hvote hvalid => simp [htype] at hvote
    | roundChange hreach hchange hvalid => simp [htype] at hchange
  obtain ⟨value, hvalue⟩ := Message.exists_value?_of_propose htype
  have hreceive : receive seat (Network.reliable S) s m =
      undecided (onPropose seat (Network.reliable S) s m) := by
    simp [receive, hrunning, validateBase_eq_ok_iff.2 ⟨hid, hheight, hround⟩, htype]
  rw [hreceive, onPropose, hvalid]
  dsimp only
  rw [hvalue]
  dsimp only
  split
  · exact ⟨rfl, rfl⟩
  · exact ⟨rfl, rfl⟩

/-- A message that an instance would count, from whatever stream it is: a prepare for a value in a
round below one that is not over, or one of the round changes that justify a proposal, in a round in
which a member may propose. -/
inductive Usable (seat : Seat S) (s : Instance S) (x : SignedMessage S) : Prop
  | prepare {round above : Round} {value : Value S}
      (hprepare : IsPrepareFor seat s.height round value.root x) (hlt : round < above)
      (hopen : s.round.toNat ≤ above.toNat)
  | roundChange {round : Round} {value : Value S} {roundChanges prepares : List (SignedMessage S)}
      {id : OperatorId} (hround : round ≠ Round.first)
      (hfresh : round = s.round ∧ s.accepted = none ∨ s.round.toNat < round.toNat)
      (hleader : leader seat s round = .ok id) (hmember : id ∈ seat.committee.names)
      (hvalue : seat.context.checkValue value = .ok ())
      (hjustified : ProposalJustified seat s.height round value roundChanges prepares)
      (hx : x ∈ roundChanges)

/-- What counts in a proposal that passes is usable. -/
theorem usable_of_proposal {m x : SignedMessage S} (hreach : Reaches seat s m)
    (htype : m.type = .propose) (hvalid : validateProposal seat s m = .ok ())
    (hx : x ∈ counted m) : Usable seat s x := by
  obtain ⟨⟨id, hsigner, hleader⟩, hverify, ⟨value, -, hjustification⟩, hfresh⟩ :=
    validateProposal_eq_ok_iff.1 hvalid
  obtain ⟨hvalue, hjustified⟩ := validateProposalJustification_eq_ok_iff.1 hjustification
  simp only [counted, htype] at hx
  split at hx
  · cases hx
  rename_i hround
  have hjustified := hjustified.resolve_left hround
  rcases List.mem_append.1 hx with hx | hx
  · have hmember : id ∈ seat.committee.names := by
      refine SignedMessage.mem_names_of_verify hverify ?_
      rw [hsigner]
      exact List.mem_singleton_self id
    exact .roundChange hround hfresh hleader hmember hvalue hjustified hx
  · split at hx
    · rename_i hsome
      obtain ⟨highest, hhighest⟩ := Option.isSome_iff_exists.1 hsome
      obtain ⟨r, hr, -, hprepares, -, -⟩ := hjustified.highest highest hhighest
      have hmem := isHighestPrepared_highestPrepared? m.message.roundChanges
      rw [hhighest] at hmem
      have hlt := ((hjustified.asked highest hmem.1).2.prepared r hr).1
      exact .prepare (hprepares x hx) hlt hreach.round_le
    · cases hx

/-- What counts in a round change that passes is usable. -/
theorem usable_of_roundChange {m x : SignedMessage S} (hreach : Reaches seat s m)
    (htype : m.type = .roundChange) (hvalid : validateRoundChange seat s m m.round = .ok ())
    (hx : x ∈ counted m) : Usable seat s x := by
  have hchange := validateRoundChange_eq_ok_iff.1 hvalid
  simp only [counted, htype] at hx
  split at hx
  · rename_i hsome
    obtain ⟨r, hr⟩ := Option.isSome_iff_exists.1 hsome
    obtain ⟨hlt, root, hroot, hprepares, -⟩ := hchange.prepared r hr
    obtain ⟨value, hvalue⟩ := Message.exists_value?_of_preparedRound? hr
    rw [Message.valueRoot?_eq_some hvalue, Option.some.injEq] at hroot
    subst hroot
    exact .prepare (hprepares x hx) hlt hreach.round_le
  · cases hx

section Keys

variable (hkeys : ∀ id member, seat.committee.get? id = some member →
  ∃ key, ∀ digest, S.verify member.publicKey digest (S.sign key digest) = true)

include hkeys

/-- Any body can be signed by any member, so that it verifies. -/
theorem exists_signed {id : OperatorId} (hid : id ∈ seat.committee.names)
    (m : Message S (SignedMessage S)) :
    ∃ x : SignedMessage S, x.message = m ∧ x.signers = [id] ∧
      x.verify seat.committee seat.context.domain = .ok () := by
  rw [Committee.mem_names, Committee.contains] at hid
  obtain ⟨member, hget⟩ := Option.isSome_iff_exists.1 hid
  obtain ⟨key, hkey⟩ := hkeys id member hget
  exact ⟨_, rfl, rfl, SignedMessage.verify_signMessage hget hkey seat.context.domain m⟩

/-- A member can report a preparation, which it shows by its own prepare, so that the report
passes. -/
theorem exists_report (hrunning : s.stopped seat = false) {round above : Round} {value : Value S}
    {x : SignedMessage S} (hprepare : IsPrepareFor seat s.height round value.root x)
    (hlt : round < above) (hopen : s.round.toNat ≤ above.toNat) :
    ∃ m : SignedMessage S,
      m.message = ⟨seat.identifier, s.height, above, .roundChange (some ⟨round, value⟩) [x]⟩ ∧
        m.signers = x.signers ∧ Passes seat s m := by
  obtain ⟨id, hid⟩ := hprepare.single
  have hmember : id ∈ seat.committee.names := by
    refine SignedMessage.mem_names_of_verify hprepare.verified ?_
    rw [hid]
    exact List.mem_singleton_self id
  obtain ⟨m, hm, hsigners, hverify⟩ := exists_signed hkeys hmember
    ⟨seat.identifier, s.height, above, .roundChange (some ⟨round, value⟩) [x]⟩
  have hround : m.round = above := by rw [SignedMessage.round, hm]
  have htype : m.type = .roundChange := by rw [SignedMessage.type, hm]; rfl
  have hheight : m.height = s.height := by rw [SignedMessage.height, hm]
  have hreported : m.message.preparedRound? = some round := by rw [hm]; rfl
  have hprepares : m.message.prepares = [x] := by rw [hm]; rfl
  refine ⟨m, hm, hsigners.trans hid.symm, .roundChange ⟨hrunning, ?_, hheight, ?_⟩ htype
    (validateRoundChange_eq_ok_iff.2 ⟨⟨id, hsigners⟩, hverify, hheight, rfl, ?_⟩)⟩
  · rw [SignedMessage.identifier, hm]
  · rwa [hround]
  · intro r hr
    obtain rfl : round = r := Option.some.inj (hreported.symm.trans hr)
    refine ⟨hround ▸ hlt, value.root, by rw [hm]; rfl, ?_, ?_⟩
    · rw [hprepares]
      exact fun p hp => List.mem_singleton.1 hp ▸ hprepare
    · rw [hprepares, List.flatMap_singleton, hid]
      exact List.nodup_singleton id

/-- The leader of a round can send any justified proposal for it, so that it passes. -/
theorem exists_proposal (hrunning : s.stopped seat = false) {round : Round} {value : Value S}
    {roundChanges prepares : List (SignedMessage S)} {id : OperatorId}
    (hfresh : round = s.round ∧ s.accepted = none ∨ s.round.toNat < round.toNat)
    (hleader : leader seat s round = .ok id) (hmember : id ∈ seat.committee.names)
    (hvalue : seat.context.checkValue value = .ok ())
    (hjustified : ProposalJustified seat s.height round value roundChanges prepares) :
    ∃ m : SignedMessage S,
      m.message = ⟨seat.identifier, s.height, round, .propose value roundChanges prepares⟩ ∧
        m.signers = [id] ∧ Passes seat s m := by
  obtain ⟨m, hm, hsigners, hverify⟩ := exists_signed hkeys hmember
    ⟨seat.identifier, s.height, round, .propose value roundChanges prepares⟩
  obtain rfl : m.round = round := by rw [SignedMessage.round, hm]
  have htype : m.type = .propose := by rw [SignedMessage.type, hm]; rfl
  refine ⟨m, hm, hsigners, .proposal ⟨hrunning, ?_, ?_, ?_⟩ htype
    (validateProposal_eq_ok_iff.2 ⟨⟨id, hsigners, hleader⟩, hverify, ⟨value, ?_, ?_⟩, hfresh⟩)⟩
  · rw [SignedMessage.identifier, hm]
  · rw [SignedMessage.height, hm]
  · rcases hfresh with ⟨heq, -⟩ | hlt
    · rw [heq]
    · exact hlt.le
  · rw [hm]
    rfl
  · rw [validateProposalJustification_eq_ok_iff, hm]
    exact ⟨hvalue, .inr hjustified⟩

/-- Exactly the usable messages count in a message that passes. None of the conditions is about the
stream of the message that counts. -/
theorem exists_counted_iff (hrunning : s.stopped seat = false) {x : SignedMessage S} :
    (∃ m, Passes seat s m ∧ x ∈ counted m) ↔ Usable seat s x := by
  constructor
  · rintro ⟨m, hpasses, hx⟩
    cases hpasses with
    | proposal hreach htype hvalid => exact usable_of_proposal hreach htype hvalid hx
    | vote hreach htype hvalid =>
      rcases htype with htype | htype
      · simp [counted, htype] at hx
      · simp [counted, htype] at hx
    | roundChange hreach htype hvalid => exact usable_of_roundChange hreach htype hvalid hx
  · intro h
    cases h with
    | prepare hprepare hlt hopen =>
      obtain ⟨m, hm, -, hpasses⟩ := exists_report hkeys hrunning hprepare hlt hopen
      refine ⟨m, hpasses, ?_⟩
      rw [counted_of_report hm]
      exact List.mem_singleton_self x
    | roundChange hround hfresh hleader hmember hvalue hjustified hx =>
      obtain ⟨m, hm, -, hpasses⟩ :=
        exists_proposal hkeys hrunning hfresh hleader hmember hvalue hjustified
      refine ⟨m, hpasses, ?_⟩
      rw [counted_of_proposal hm hround]
      exact List.mem_append_left _ hx

/-- A member can vote for any value in any stream. -/
theorem exists_prepare (identifier : ByteArray) (round : Round) (value : Value S)
    {id : OperatorId} (hid : id ∈ seat.committee.names) :
    ∃ x : SignedMessage S, IsPrepareFor seat s.height round value.root x ∧ x.signers = [id] ∧
      x.identifier = identifier := by
  obtain ⟨x, hx, hsigner, hverify⟩ := exists_signed hkeys hid
    ⟨identifier, s.height, round, .prepare value.root⟩
  refine ⟨x, ⟨?_, ⟨id, hsigner⟩, hverify, ?_, ?_, ?_⟩, hsigner, ?_⟩
  · rw [SignedMessage.type, hx]
    rfl
  · rw [SignedMessage.height, hx]
  · rw [SignedMessage.round, hx]
  · rw [hx]
    rfl
  · rw [SignedMessage.identifier, hx]

/-- Any members can ask for a round in any stream without reporting a preparation. -/
theorem exists_roundChanges (identifier : ByteArray) (round : Round) {ids : List OperatorId}
    (hids : ∀ id ∈ ids, id ∈ seat.committee.names) :
    ∃ roundChanges : List (SignedMessage S),
      roundChanges.flatMap SignedMessage.signers = ids ∧
        ∀ x ∈ roundChanges, x.type = .roundChange ∧ IsRoundChangeFor seat s.height round x ∧
          x.message.preparedRound? = none ∧ x.identifier = identifier := by
  induction ids with
  | nil => exact ⟨[], rfl, by simp⟩
  | cons id rest ih =>
    obtain ⟨hid, hrest⟩ := List.forall_mem_cons.1 hids
    obtain ⟨roundChanges, hsigners, hall⟩ := ih hrest
    obtain ⟨x, hx, hsigner, hverify⟩ := exists_signed hkeys hid
      ⟨identifier, s.height, round, .roundChange none []⟩
    have hreport : x.message.preparedRound? = none := by rw [hx]; rfl
    have hasked : IsRoundChangeFor seat s.height round x :=
      ⟨⟨id, hsigner⟩, hverify, by rw [SignedMessage.height, hx], by rw [SignedMessage.round, hx],
        fun r hr => absurd (hreport.symm.trans hr) (by simp)⟩
    refine ⟨x :: roundChanges, by rw [List.flatMap_cons, hsigner, hsigners, List.singleton_append],
      List.forall_mem_cons.2 ⟨⟨?_, hasked, hreport, ?_⟩, hall⟩⟩
    · rw [SignedMessage.type, hx]
      rfl
    · rw [SignedMessage.identifier, hx]

/-- Any value is justified in any round by round changes of any stream. -/
theorem exists_justified (identifier : ByteArray) (round : Round) (value : Value S) :
    ∃ roundChanges : List (SignedMessage S),
      ProposalJustified seat s.height round value roundChanges [] ∧
        highestPrepared? roundChanges = none ∧ ∀ x ∈ roundChanges, x.identifier = identifier := by
  have hmembers : ∀ id ∈ seat.committee.names.toList, id ∈ seat.committee.names :=
    fun _ => Finset.mem_toList.1
  obtain ⟨roundChanges, hsigners, hall⟩ :=
    exists_roundChanges (s := s) hkeys identifier round hmembers
  have hnone : highestPrepared? roundChanges = none := by
    have hhighest := isHighestPrepared_highestPrepared? roundChanges
    cases hfound : highestPrepared? roundChanges with
    | none => rfl
    | some m =>
      rw [hfound] at hhighest
      obtain ⟨hm, r, hr, -⟩ := hhighest
      exact absurd ((hall m hm).2.2.1.symm.trans hr) (by simp)
  refine ⟨roundChanges, ⟨fun m hm => ⟨(hall m hm).1, (hall m hm).2.1⟩, ?_, ?_⟩, hnone,
    fun x hx => (hall x hx).2.2.2⟩
  · -- all members together are a quorum
    have hquorum := seat.committee.quorum_add_faulty
    rw [hsigners, Finset.toList_toFinset, Committee.card_names]
    omega
  · rw [hnone]
    rintro m ⟨⟩

/-- A member can report a preparation on a prepare of any stream. -/
theorem exists_report_counting (hrunning : s.stopped seat = false) {id : OperatorId}
    (hid : id ∈ seat.committee.names) (identifier : ByteArray) :
    ∃ m, Passes seat s m ∧ m.type = .roundChange ∧ m.signers = [id] ∧ CountsOnly identifier m := by
  obtain ⟨x, hprepare, hsigner, hx⟩ := exists_prepare (s := s) hkeys identifier Round.first
    (.ofBytes ⟨#[]⟩) hid
  -- the prepare is of the first round, and the report is for a round that is not over
  obtain ⟨above, habove, hopen⟩ : ∃ above, Round.first < above ∧ s.round.toNat ≤ above.toNat := by
    by_cases hlater : Round.first < s.round
    · exact ⟨s.round, hlater, le_rfl⟩
    · rw [Round.lt_iff, not_lt] at hlater
      exact ⟨⟨2⟩, by decide, hlater.trans (by decide)⟩
  obtain ⟨m, hm, hsigners, hpasses⟩ := exists_report hkeys hrunning hprepare habove hopen
  have hcounted : counted m = [x] := counted_of_report hm
  refine ⟨m, hpasses, by rw [SignedMessage.type, hm]; rfl, hsigners.trans hsigner, ?_, ?_⟩
  · rw [hcounted]
    exact List.cons_ne_nil x []
  · rw [hcounted, List.forall_mem_singleton]
    exact hx

/-- The leader of a later round can propose any value on round changes of any stream. -/
theorem exists_proposal_counting (hrunning : s.stopped seat = false) {id : OperatorId}
    (hid : id ∈ seat.committee.names) (identifier : ByteArray) {round : Round} {value : Value S}
    (hround : round ≠ Round.first) (hlater : s.round < round)
    (hleader : leader seat s round = .ok id) (hvalue : seat.context.checkValue value = .ok ()) :
    ∃ m, Passes seat s m ∧ m.type = .propose ∧ m.signers = [id] ∧ m.round = round ∧
      m.message.value? = some value ∧ CountsOnly identifier m := by
  obtain ⟨roundChanges, hjustified, hnone, hall⟩ :=
    exists_justified (s := s) hkeys identifier round value
  obtain ⟨m, hm, hsigners, hpasses⟩ := exists_proposal hkeys hrunning
    (.inr (Round.lt_iff.1 hlater)) hleader hid hvalue hjustified
  have hcounted : counted m = roundChanges := by
    rw [counted_of_proposal hm hround, hnone]
    exact List.append_nil roundChanges
  refine ⟨m, hpasses, by rw [SignedMessage.type, hm]; rfl, hsigners,
    by rw [SignedMessage.round, hm], by rw [hm]; rfl, ?_, hcounted ▸ hall⟩
  rw [hcounted]
  rintro rfl
  have hquorum := hjustified.quorum
  rw [List.flatMap_nil, List.toFinset_nil, Finset.card_empty] at hquorum
  exact (Committee.quorum_pos (Committee.size_pos_of_mem_names hid)).not_ge hquorum

/-- Nothing that counts has to be of the stream of an instance. It acts on messages of its stream
only, and what counts in them is what is usable, from whatever stream. So any member can report to
it a preparation on a prepare of any stream, and when the leader of a later round proposes a value
on round changes of any stream, it accepts the proposal. -/
theorem counted_of_any_stream (hrunning : s.stopped seat = false) :
    (∀ net m d, (receive seat net s m).answer = .ok d →
      Passes seat s m ∧ m.identifier = seat.identifier) ∧
    (∀ x, (∃ m, Passes seat s m ∧ x ∈ counted m) ↔ Usable seat s x) ∧
    ∀ id ∈ seat.committee.names, ∀ identifier,
      (∃ m, Passes seat s m ∧ m.type = .roundChange ∧ m.signers = [id] ∧
        CountsOnly identifier m) ∧
      ∀ round value, round ≠ Round.first → s.round < round → leader seat s round = .ok id →
        seat.context.checkValue value = .ok () →
        ∃ m, Passes seat s m ∧ m.type = .propose ∧ m.signers = [id] ∧ m.round = round ∧
          m.message.value? = some value ∧ CountsOnly identifier m ∧
          (receive seat (Network.reliable S) s m).answer = .ok none ∧
          (receive seat (Network.reliable S) s m).state.accepted = some m := by
  refine ⟨fun net m d h => ?_, fun x => exists_counted_iff hkeys hrunning,
    fun id hid identifier => ⟨exists_report_counting hkeys hrunning hid identifier,
      fun round value hround hlater hleader hvalue => ?_⟩⟩
  · have hpasses := passes_of_receive h
    exact ⟨hpasses, hpasses.reaches.identifier_eq⟩
  · obtain ⟨m, hpasses, htype, hsigners, hm, hcarried, hcounts⟩ :=
      exists_proposal_counting hkeys hrunning hid identifier hround hlater hleader hvalue
    exact ⟨m, hpasses, htype, hsigners, hm, hcarried, hcounts, accepted_of_passes hpasses htype⟩

end Keys

/-! ### A replay -/

namespace Replay

open Scheme

/-- The place of member 1 in the stream with the name 1. -/
def place : Seat plain :=
  ⟨⟨#[1]⟩, plain.committee, .roundRobin plain.domain, ⟨⟨1⟩, (1 : UInt64)⟩, ⟨15⟩⟩

/-- What is proposed. -/
def value : Value plain := .ofBytes ⟨#[7]⟩

/-- The proposal of member 2 for the second round, on round changes that a quorum has signed for the
stream with the name 2. -/
def proposal : SignedMessage plain :=
  plain.signed 2 ⟨#[1]⟩ Height.first ⟨2⟩ <| .propose value
    ([1, 3, 4].map fun id => plain.signed id ⟨#[2]⟩ Height.first ⟨2⟩ (.roundChange none [])) []

end Replay

/-- At the place of member 1, member 2 can report a preparation of the stream with the name 2, and
propose on round changes of it. -/
theorem counted_of_other_stream : (⟨#[2]⟩ : ByteArray) ≠ Replay.place.identifier ∧
    (∃ m, Passes Replay.place (.new Height.first) m ∧ m.type = .roundChange ∧
      m.signers = [⟨2⟩] ∧ CountsOnly ⟨#[2]⟩ m) ∧
    ∃ m, Passes Replay.place (.new Height.first) m ∧ m.type = .propose ∧ m.signers = [⟨2⟩] ∧
      m.round = ⟨2⟩ ∧ m.message.value? = some Replay.value ∧ CountsOnly ⟨#[2]⟩ m ∧
      (receive Replay.place (Network.reliable _) (.new Height.first) m).answer = .ok none ∧
      (receive Replay.place (Network.reliable _) (.new Height.first) m).state.accepted =
        some m := by
  have hkeys : ∀ id member, Replay.place.committee.get? id = some member →
      ∃ key, ∀ digest, Scheme.plain.verify member.publicKey digest
        (Scheme.plain.sign key digest) = true :=
    fun _ member _ => ⟨member.publicKey, Scheme.plain.verify_sign member.publicKey⟩
  have hrunning : (Instance.new Height.first).stopped Replay.place = false := by decide
  obtain ⟨-, -, hany⟩ := counted_of_any_stream hkeys hrunning
  obtain ⟨hreport, hpropose⟩ := hany ⟨2⟩ (by decide) ⟨#[2]⟩
  exact ⟨by decide, hreport,
    hpropose ⟨2⟩ Replay.value (by decide) (by decide) (by decide) (by decide)⟩

/-- An instance accepts a proposal on round changes of another stream. -/
theorem receive_replayed_proposal :
    (receive Replay.place (Network.reliable _) (.new Height.first) Replay.proposal).answer =
        .ok none ∧
      Replay.proposal.type = .propose ∧ Round.first < Replay.proposal.round ∧
      Replay.proposal.message.roundChanges ≠ [] ∧
      ∀ x ∈ Replay.proposal.message.roundChanges, x ∈ counted Replay.proposal ∧
        x.identifier ≠ Replay.place.identifier := by
  decide +kernel

end Instance
end Conclave
