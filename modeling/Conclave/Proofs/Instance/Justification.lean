import Conclave.Proofs.Instance.Rejection

/-!
# Justification

What a member sends to justify a new round convinces every other member. A round change is put
together long after the prepares that it reports, from whatever the instance has stored since, and
a proposal is built on round changes that others have sent; the members that receive them check
both from the start.

* `Sends` lists what an instance sends, with what it knows when it does;
* `Collected` is what it has stored: the messages of a quorum, once seen, are found again;
* `Convincing` is a round change that is valid and justified for everyone
  (`roundChange_convincing`), `Presentable` a proposal that everyone accepts who still may
  (`proposal_accepted`).

A `Fellow` is any other member. It need not have received anything that the sender has.
-/

namespace Conclave
namespace Instance

variable {S : Scheme}

/-! ### Members -/

/-- The place of another member of the committee, under the same rules. -/
structure Fellow (seat peer : Seat S) : Prop where
  committee_eq : peer.committee = seat.committee
  context_eq : peer.context = seat.context

/-- The place of a member of the committee, whose signatures verify under its key. -/
def Enrolled (seat : Seat S) : Prop :=
  ∃ member, seat.committee.get? seat.signer.id = some member ∧
    ∀ digest, S.verify member.publicKey digest (S.sign seat.signer.key digest) = true

section Members

variable {seat peer : Seat S} {height : Height} {round : Round} {m : SignedMessage S}

theorem Enrolled.verify_sign (h : Enrolled seat) (s : Instance S) (round : Round)
    (body : Body S (SignedMessage S)) :
    (sign seat s round body).verify seat.committee seat.context.domain = .ok () := by
  obtain ⟨member, hget, hkey⟩ := h
  exact SignedMessage.verify_signMessage hget hkey _ _

namespace Fellow

variable (h : Fellow seat peer)
include h

theorem verify (hm : m.verify seat.committee seat.context.domain = .ok ()) :
    m.verify peer.committee peer.context.domain = .ok () := by
  rw [h.committee_eq, h.context_eq]
  exact hm

theorem isPrepareFor {root : Digest} (hm : IsPrepareFor seat height round root m) :
    IsPrepareFor peer height round root m :=
  { hm with verified := h.verify hm.verified }

theorem isRoundChangeFor (hm : IsRoundChangeFor seat height round m) :
    IsRoundChangeFor peer height round m where
  single := hm.single
  verified := h.verify hm.verified
  height_eq := hm.height_eq
  round_eq := hm.round_eq
  prepared r hr := by
    obtain ⟨hlt, root, hroot, hprepares, hnodup⟩ := hm.prepared r hr
    exact ⟨hlt, root, hroot, fun p hp => h.isPrepareFor (hprepares p hp), hnodup⟩

theorem proposalJustified {value : Value S} {roundChanges prepares : List (SignedMessage S)}
    (hjustified : ProposalJustified seat height round value roundChanges prepares) :
    ProposalJustified peer height round value roundChanges prepares where
  asked m hm := ⟨(hjustified.asked m hm).1, h.isRoundChangeFor (hjustified.asked m hm).2⟩
  quorum := h.committee_eq ▸ hjustified.quorum
  highest m hm := by
    obtain ⟨r, hr, hroot, hprepares, hnodup, hquorum⟩ := hjustified.highest m hm
    exact ⟨r, hr, hroot, fun p hp => h.isPrepareFor (hprepares p hp), hnodup,
      h.committee_eq ▸ hquorum⟩

end Fellow
end Members

/-! ### Quorums of prepares -/

/-- Prepares for the value with the given root, each by a member of its own, and as many as a quorum
has members. -/
structure IsQuorumFor (seat : Seat S) (height : Height) (round : Round) (root : Digest)
    (ms : List (SignedMessage S)) : Prop where
  prepares : ∀ m ∈ ms, IsPrepareFor seat height round root m
  nodup : (ms.flatMap SignedMessage.signers).Nodup
  members : (ms.flatMap SignedMessage.signers).toFinset ⊆ seat.committee.names
  quorum : seat.committee.quorum ≤ (ms.flatMap SignedMessage.signers).toFinset.card

section Quorums

variable {seat peer : Seat S} {height : Height} {round : Round} {root : Digest}
  {m : SignedMessage S} {ms : List (SignedMessage S)}

theorem length_flatMap_signers (h : ∀ m ∈ ms, ∃ id, m.signers = [id]) :
    (ms.flatMap SignedMessage.signers).length = ms.length := by
  induction ms with
  | nil => rfl
  | cons m rest ih =>
    obtain ⟨⟨id, hid⟩, hrest⟩ := List.forall_mem_cons.1 h
    rw [List.flatMap_cons, hid, List.singleton_append, List.length_cons, List.length_cons, ih hrest]

/-- Where each prepare has a member of its own, the members are as many as the prepares. -/
theorem isQuorumFor_iff : IsQuorumFor seat height round root ms ↔
    (∀ m ∈ ms, IsPrepareFor seat height round root m) ∧
      (ms.flatMap SignedMessage.signers).Nodup ∧ seat.committee.quorum ≤ ms.length := by
  have hcard (hall : ∀ m ∈ ms, IsPrepareFor seat height round root m)
      (hnodup : (ms.flatMap SignedMessage.signers).Nodup) :
      (ms.flatMap SignedMessage.signers).toFinset.card = ms.length := by
    rw [List.toFinset_card_of_nodup hnodup, length_flatMap_signers fun m hm => (hall m hm).single]
  constructor
  · rintro ⟨hall, hnodup, -, hquorum⟩
    exact ⟨hall, hnodup, hcard hall hnodup ▸ hquorum⟩
  · rintro ⟨hall, hnodup, hquorum⟩
    refine ⟨hall, hnodup, fun id hid => ?_, (hcard hall hnodup).symm ▸ hquorum⟩
    obtain ⟨m, hm, hid⟩ := List.mem_flatMap.1 (List.mem_toFinset.1 hid)
    exact SignedMessage.mem_names_of_verify (hall m hm).verified hid

theorem Fellow.isQuorumFor (h : Fellow seat peer) (hms : IsQuorumFor seat height round root ms) :
    IsQuorumFor peer height round root ms where
  prepares m hm := h.isPrepareFor (hms.prepares m hm)
  nodup := hms.nodup
  members := h.committee_eq ▸ hms.members
  quorum := h.committee_eq ▸ hms.quorum

/-- A proposal may be built on a round change if the preparation that it reports is by a quorum. -/
theorem isJustified_eq_true_iff {s : Instance S} : isJustified seat s m = true ↔
    ∀ r, m.message.preparedRound? = some r → ∃ root, m.message.valueRoot? = some root ∧
      IsQuorumFor seat s.height r root m.message.prepares := by
  unfold isJustified
  cases hr : m.message.preparedRound? with
  | none => simp
  | some r =>
    obtain ⟨root, hroot⟩ := exists_valueRoot?_of_preparedRound? hr
    simp only [hroot, Option.some.injEq, forall_eq', exists_eq_left', isQuorumFor_iff]
    have hiff {n : ℕ} : validatePrepareJustification seat s m.message.prepares r root = .ok n ↔ _ :=
      validatePrepareJustification_eq_ok_iff
    cases hvalid : validatePrepareJustification seat s m.message.prepares r root with
    | ok n =>
      obtain ⟨rfl, hall, hnodup⟩ := hiff.1 hvalid
      exact decide_eq_true_iff.trans ⟨fun hquorum => ⟨hall, hnodup, hquorum⟩, fun h => h.2.2⟩
    | error e =>
      refine iff_of_false nofun ?_
      rintro ⟨hall, hnodup, -⟩
      rw [hiff.2 ⟨rfl, hall, hnodup⟩] at hvalid
      cases hvalid

end Quorums

/-! ### What is sent -/

/-- What an instance sends, with what it knows when it does. It proposes on its start and to a
quorum that asks for a round, and it asks for a round when it enters it. -/
inductive Sends (seat : Seat S) (s : Instance S) : SignedMessage S → Prop
  | prepare {round : Round} {root : Digest} : Sends seat s (sign seat s round (.prepare root))
  | commit {round : Round} {root : Digest} : Sends seat s (sign seat s round (.commit root))
  | opening {value : Value S} (hnew : s.started = false) (hround : s.round = Round.first)
      (hleader : leader seat s s.round = .ok seat.signer.id) :
      Sends seat s (sign seat s s.round (.propose value [] []))
  | reply {round : Round} {value : Value S} {prepares : List (SignedMessage S)}
      (hround : s.round.toNat ≤ round.toNat) (hfirst : s.proposedRound ≠ some round)
      (hleader : leader seat s round = .ok seat.signer.id)
      (hquorum : seat.committee.quorum ≤ distinctSigners (backing seat s round))
      (hproposal : proposalFor s (backing seat s round) = .ok (some (value, prepares))) :
      Sends seat s (sign seat s round (.propose value (backing seat s round) prepares))
  | ask {round : Round} (hlt : s.round.toNat < round.toNat) :
      Sends seat s (roundChange seat (s.moveTo round) round)

theorem Move.sends {seat : Seat S} {s u : Instance S} {e : Event S} {effects : List (Effect S)}
    {decision : Option (Decision S)} (h : Move seat s e effects decision u) {m : SignedMessage S}
    (hm : m ∈ sentBy effects) : Sends seat s m := by
  cases h with
  | lead hnew hround hleader =>
    rw [sentBy_timerCall_broadcast, List.mem_singleton] at hm
    exact hm ▸ .opening hnew hround hleader
  | accept hreach htype hvalid hvalue =>
    rw [sentBy_entryCalls_broadcast, List.mem_singleton] at hm
    exact hm ▸ .prepare
  | prepare hreach htype hvalid hnew hvalue hfirst hquorum =>
    exact List.mem_singleton.1 hm ▸ .commit
  | propose htype hopen hround hfirst hleader hquorum hproposal =>
    rw [sentBy_entryCalls_broadcast, List.mem_singleton] at hm
    exact hm ▸ .reply hround hfirst hleader hquorum hproposal
  | follow htype hopen habove hquorum hlowest hlt =>
    rw [sentBy_timerCall_broadcast, List.mem_singleton] at hm
    exact hm ▸ .ask hlt
  | expire hrunning hopen hnext =>
    rw [sentBy_timerCall_broadcast, List.mem_singleton] at hm
    have := Round.next?_eq_ok hnext
    exact hm ▸ .ask (by omega)
  | start hnew => simp at hm
  | storePrepare hreach htype hvalid hnew => simp at hm
  | storeCommit hreach htype hvalid hnew => simp at hm
  | decide hreach htype hvalid hnew hopen hvalue hquorum hcommit => simp at hm
  | storeRoundChange hreach htype hvalid hnew => simp at hm
  | learn hopen hvalue hroot => simp at hm

/-! ### What is stored -/

/-- What an instance has stored, and what it has prepared on the strength of it. Nothing is said
about the decisions that it has learned. -/
structure Collected (seat : Seat S) (height : Height) (s : Instance S) : Prop where
  height_eq : s.height = height
  first_le : 1 ≤ s.round.toNat
  accepted : ∀ {m}, s.accepted = some m → m.round = s.round
  prepares : Filed seat height .prepare s.prepares ∧ OnePerSigner s.prepares
  commits : s.decided = none → OnePerSigner s.commits
  roundChanges : ∀ m ∈ s.roundChanges.messages,
    m.type = .roundChange ∧ IsRoundChangeFor seat height m.round m
  prepared : ∀ {p}, s.prepared = some p →
    p.round.toNat ≤ s.round.toNat ∧ PreparedBy seat s.prepares p

section Stored

variable {seat : Seat S} {height : Height} {s u : Instance S} {e : Event S}
  {effects : List (Effect S)} {decision : Option (Decision S)}

theorem collected_new (seat : Seat S) (height : Height) : Collected seat height (.new height) where
  height_eq := rfl
  first_le := le_rfl
  accepted := nofun
  prepares := ⟨filed_empty, onePerSigner_empty⟩
  commits _ := onePerSigner_empty
  roundChanges := nofun
  prepared := nofun

namespace Collected

theorem move (h : Collected seat height s) (hmove : Move seat s e effects decision u) :
    Collected seat height u := by
  have htallied := hmove.tallied
  have hprepares := htallied.prepares
  rw [h.height_eq] at hprepares
  have hfiled := h.prepares.1.stores hprepares
  have hone := h.prepares.2.stores hprepares
  refine ⟨hmove.turn.1.trans h.height_eq, h.first_le.trans hmove.turn.2.round_le, fun hm => ?_,
    ⟨hfiled, hone⟩, fun hopen => ?_, fun m hm => ?_, fun {p} hp => ?_⟩
  · rcases hmove.accepted hm with ⟨hold, hround⟩ | hnew
    · exact (h.accepted hold).trans hround.symm
    · exact hnew.round_eq
  · rcases hmove.decided with ⟨-, hsame⟩ | ⟨d, -, -, hdecides⟩
    · rcases htallied.commits with hstores | ⟨_, -, -, hdecided, -⟩
      · exact (h.commits (hsame ▸ hopen)).stores hstores
      · rw [isDecided, hopen] at hdecided
        cases hdecided
    · rw [hopen] at hdecides
      cases hdecides
  · rcases hmove.roundChanges with hsame | ⟨x, -, htype, hvalid, hadd⟩
    · exact h.roundChanges m (hsame ▸ hm)
    · rw [hadd, Tally.messages_add, List.mem_append, List.mem_singleton] at hm
      rcases hm with hm | rfl
      · exact h.roundChanges m hm
      · exact ⟨htype, h.height_eq ▸ hvalid⟩
  · rcases hmove.prepared with hsame | ⟨q, proposal, hq, haccepted, hround, hcurrent, hquorum⟩
    · obtain ⟨hle, hby⟩ := h.prepared (hsame ▸ hp)
      exact ⟨hle.trans hmove.turn.2.round_le, hby.mono hprepares.subset⟩
    · obtain rfl : p = q := Option.some.inj (hp.symm.trans hq)
      refine ⟨?_, preparedBy_of_uniqueSigners hfiled hone hquorum⟩
      rw [hround, h.accepted haccepted, hcurrent]

/-- The prepares that are found for what was prepared are by a quorum, however many others have been
stored since. -/
theorem isQuorumFor (h : Collected seat height s) {p : Prepared S} (hp : s.prepared = some p) :
    IsQuorumFor seat height p.round p.value.root
      (s.prepares.uniqueSigners p.round p.value.root).messages := by
  obtain ⟨-, ids, -, hquorum, hids⟩ := h.prepared hp
  have hchosen := s.prepares.chosenFrom_uniqueSigners p.round p.value.root
  have hvoters : ids ⊆ s.prepares.voters p.round p.value.root := by
    intro id hid
    obtain ⟨m, hm, hsigners, hroot⟩ := hids id hid
    obtain ⟨hm, hround⟩ := Tally.mem_ofRound.1 hm
    exact Tally.mem_voters.2 ⟨m, hm, hround, hroot, by simp [hsigners], by simp [hsigners]⟩
  have hprepares : ∀ m ∈ (s.prepares.uniqueSigners p.round p.value.root).messages,
      IsPrepareFor seat height p.round p.value.root m := by
    intro m hm
    obtain ⟨hm, hroot⟩ := Tally.mem_uniqueSigners hm
    obtain ⟨hround, hfiled⟩ := h.prepares.1.of_round hm
    exact ⟨hfiled.type_eq, h.prepares.2.single m (Tally.mem_ofRound.1 hm).1, hfiled.verified,
      hfiled.height_eq, hround, hroot⟩
  refine isQuorumFor_iff.2 ⟨hprepares, hchosen.signers_eq ▸ hchosen.nodup, ?_⟩
  calc
    seat.committee.quorum ≤ ids.card := hquorum
    _ ≤ (s.prepares.voters p.round p.value.root).card := Finset.card_le_card hvoters
    _ = (s.prepares.uniqueSigners p.round p.value.root).size :=
      (Tally.size_uniqueSigners (h.prepares.2.nodup p.round)).symm
    _ = (s.prepares.uniqueSigners p.round p.value.root).messages.length := by
      rw [UniqueSigners.size, hchosen.signers_eq]
      exact length_flatMap_signers fun m hm => (hprepares m hm).single

end Collected

theorem Run.collected {t : Trace S} (h : Run seat height t) : Collected seat height t.state :=
  Run.induct (P := fun t => Collected seat height t.state) (collected_new seat height)
    (fun _ _ _ _ _ ht hmove => ht.move hmove) h

/-- What holds of all that an instance sends at some moment holds of all that it has sent. -/
theorem Run.forall_sent {t : Trace S} {Q : SignedMessage S → Prop} (h : Run seat height t)
    (hsends : ∀ s, Collected seat height s → ∀ m, Sends seat s m → Q m) : ∀ m ∈ t.sent, Q m := by
  refine (Run.induct (P := fun t => Collected seat height t.state ∧ ∀ m ∈ t.sent, Q m)
    ⟨collected_new seat height, nofun⟩ ?_ h).2
  rintro t e effects decision u ⟨hcollected, hsent⟩ hmove
  refine ⟨hcollected.move hmove, fun m hm => ?_⟩
  rcases List.mem_append.1 hm with hm | hm
  · exact hsent m hm
  · exact hsends _ hcollected m (hmove.sends hm)

end Stored

/-! ### Round changes -/

/-- A round change that is valid, and whose preparation, if it reports one, is of a lower round and
by a quorum. -/
structure Convincing (seat : Seat S) (height : Height) (m : SignedMessage S) : Prop where
  valid : IsRoundChangeFor seat height m.round m
  prepared : ∀ p, m.message.prepared? = some p →
    p.round < m.round ∧ IsQuorumFor seat height p.round p.value.root m.message.prepares

/-- The round changes of an instance: those that it has sent, and the one that it would send on its
way into some higher round. -/
inductive AsksWith (seat : Seat S) (t : Trace S) : SignedMessage S → Prop
  | sent {m : SignedMessage S} (hm : m ∈ t.sent) (htype : m.type = .roundChange) : AsksWith seat t m
  | next {round : Round} (hlt : t.state.round.toNat < round.toNat) :
      AsksWith seat t (roundChange seat (t.state.moveTo round) round)

section RoundChanges

variable {seat peer : Seat S} {height : Height} {s u : Instance S} {t : Trace S}
  {m : SignedMessage S}

theorem Collected.convincing (h : Collected seat height s) (hseat : Enrolled seat) {round : Round}
    (hlt : s.round.toNat < round.toNat) :
    Convincing seat height (roundChange seat (s.moveTo round) round) := by
  have hprepared : ∀ p, s.prepared = some p → p.round < round ∧
      IsQuorumFor seat height p.round p.value.root
        (roundChange seat (s.moveTo round) round).message.prepares := by
    intro p hp
    have hcarried : (roundChange seat (s.moveTo round) round).message.prepares =
        (s.prepares.uniqueSigners p.round p.value.root).messages := by
      simp only [roundChange, moveTo, hp]
      rfl
    exact ⟨Round.lt_iff.2 ((h.prepared hp).1.trans_lt hlt), hcarried ▸ h.isQuorumFor hp⟩
  refine ⟨⟨⟨_, rfl⟩, hseat.verify_sign _ _ _, h.height_eq, rfl, fun r hr => ?_⟩, hprepared⟩
  obtain ⟨p, hp, rfl⟩ := Option.map_eq_some_iff.1 hr
  obtain ⟨hbelow, hquorum⟩ := hprepared p hp
  exact ⟨hbelow, p.value.root, Message.valueRoot?_of_prepared? hp, hquorum.prepares, hquorum.nodup⟩

theorem Run.convincing (h : Run seat height t) (hseat : Enrolled seat) (hm : AsksWith seat t m) :
    Convincing seat height m := by
  cases hm with
  | next hlt => exact h.collected.convincing hseat hlt
  | sent hm htype =>
    refine h.forall_sent (Q := fun m => m.type = .roundChange → Convincing seat height m)
      (fun s hs m hsends htype => ?_) m hm htype
    cases hsends with
    | ask hlt => exact hs.convincing hseat hlt
    | prepare => cases htype
    | commit => cases htype
    | opening hnew hround hleader => cases htype
    | reply hround hfirst hleader hquorum hproposal => cases htype

/-- A round change is valid for every other member, and a proposal may be built on it. The
preparation that it reports is of a lower round and by a quorum, whether or not other rounds have
passed and other prepares have been stored since. -/
theorem roundChange_convincing (h : Run seat height t) (hseat : Enrolled seat)
    (hm : AsksWith seat t m) (hpeer : Fellow seat peer) (hheight : u.height = height) :
    validateRoundChange peer u m m.round = .ok () ∧ isJustified peer u m = true ∧
      ∀ p, m.message.prepared? = some p →
        p.round < m.round ∧ IsQuorumFor seat height p.round p.value.root m.message.prepares := by
  obtain ⟨hvalid, hprepared⟩ := h.convincing hseat hm
  refine ⟨validateRoundChange_eq_ok_iff.2 (hheight ▸ hpeer.isRoundChangeFor hvalid), ?_, hprepared⟩
  refine isJustified_eq_true_iff.2 fun r hr => ?_
  obtain ⟨p, hp, rfl⟩ := Option.map_eq_some_iff.1 hr
  exact ⟨p.value.root, Message.valueRoot?_of_prepared? hp,
    hheight ▸ hpeer.isQuorumFor (hprepared p hp).2⟩

end RoundChanges

namespace Delayed

open Scheme

/-- A member prepares in the first round, stores one more prepare and waits for two rounds. -/
def trace : Trace plain := (Trace.new Height.first).play plain.seat <|
  .start plain.value :: plain.preparation.map .receive ++
    [.receive (plain.message 4 (.prepare plain.value.root)), .timeout Round.first, .timeout ⟨2⟩]

/-- The prepares that it has stored. -/
def prepares : List (SignedMessage plain) :=
  [1, 2, 3, 4].map fun id => plain.message id (.prepare plain.value.root)

/-- How it asks for the third round. -/
def roundChange : SignedMessage plain := plain.signed 1 plain.seat.identifier Height.first ⟨3⟩
  (.roundChange (some ⟨Round.first, plain.value⟩) prepares)

end Delayed

/-- A member that gives up the second round still shows the prepares of the first one, also the one
that came late. -/
theorem roundChange_of_delayed :
    Enrolled Scheme.plain.seat ∧ Run Scheme.plain.seat Height.first Delayed.trace ∧
      AsksWith Scheme.plain.seat Delayed.trace Delayed.roundChange ∧
      Fellow Scheme.plain.seat (Scheme.plain.place 3) ∧
      validateRoundChange (Scheme.plain.place 3) (.new Height.first) Delayed.roundChange ⟨3⟩ =
        .ok () ∧
      isJustified (Scheme.plain.place 3) (.new Height.first) Delayed.roundChange = true ∧
      IsQuorumFor Scheme.plain.seat Height.first Round.first Scheme.plain.value.root
        Delayed.prepares := by
  have hseat : Enrolled Scheme.plain.seat := ⟨⟨⟨1⟩, (1 : UInt64)⟩, rfl, Scheme.plain.verify_sign 1⟩
  have hrun : Run Scheme.plain.seat Height.first Delayed.trace := Run.new.play _
  have hasks : AsksWith Scheme.plain.seat Delayed.trace Delayed.roundChange :=
    .sent (by decide +kernel) rfl
  have hpeer : Fellow Scheme.plain.seat (Scheme.plain.place 3) := ⟨rfl, rfl⟩
  obtain ⟨hvalid, hjustified, hprepared⟩ :=
    roundChange_convincing (u := .new Height.first) hrun hseat hasks hpeer rfl
  exact ⟨hseat, hrun, hasks, hpeer, hvalid, hjustified, (hprepared _ rfl).2⟩

/-! ### Proposals -/

/-- A proposal of a member for a round that it leads. Above the first round it is justified. -/
structure Presentable (seat : Seat S) (height : Height) (m : SignedMessage S) : Prop
    extends IsMessageOf seat height .propose m where
  signers_eq : m.signers = [seat.signer.id]
  leader : seat.context.proposer seat.committee height m.round = .ok seat.signer.id
  justified : ∀ value, m.message.value? = some value → m.round = Round.first ∨
    ProposalJustified seat height m.round value m.message.roundChanges m.message.prepares

section Proposals

variable {seat peer : Seat S} {net : Network S} {height : Height} {s u : Instance S} {t : Trace S}
  {m : SignedMessage S} {value : Value S}

/-- What is proposed to a quorum is the value of its highest preparation, with the prepares that
came with it. -/
theorem proposalFor_eq_of_highestPrepared? {roundChanges prepares : List (SignedMessage S)}
    {highest : SignedMessage S} (h : proposalFor s roundChanges = .ok (some (value, prepares)))
    (hhighest : highestPrepared? roundChanges = some highest) :
    highest.message.value? = some value ∧ highest.message.prepares = prepares := by
  rw [proposalFor, hhighest] at h
  cases hvalue : highest.message.value? with
  | none =>
    simp only [hvalue] at h
    cases h
  | some found =>
    simp only [hvalue, Except.ok.injEq, Option.some.injEq, Prod.mk.injEq] at h
    exact ⟨congrArg some h.1, h.2⟩

theorem mem_backing {round : Round} : m ∈ backing seat s round ↔
    m ∈ s.roundChanges.messages ∧ m.round = round ∧ isJustified seat s m = true := by
  simp [backing, and_assoc]

/-- A reply to a quorum is justified, whatever mix of round changes it is built on. -/
theorem Collected.proposalJustified (h : Collected seat height s) {round : Round}
    {prepares : List (SignedMessage S)}
    (hquorum : seat.committee.quorum ≤ distinctSigners (backing seat s round))
    (hproposal : proposalFor s (backing seat s round) = .ok (some (value, prepares))) :
    ProposalJustified seat height round value (backing seat s round) prepares where
  asked m hm := by
    obtain ⟨hstored, rfl, -⟩ := mem_backing.1 hm
    exact h.roundChanges m hstored
  quorum := distinctSigners_eq_card _ ▸ hquorum
  highest m hm := by
    obtain ⟨hvalue, rfl⟩ := proposalFor_eq_of_highestPrepared? hproposal hm
    obtain ⟨r, hr⟩ := exists_preparedRound?_of_highestPrepared? hm
    have hmem : m ∈ backing seat s round := by
      have := isHighestPrepared_highestPrepared? (backing seat s round)
      rw [hm] at this
      exact this.1
    -- a round change with a preparation is only taken with the prepares of a quorum
    obtain ⟨root, hroot, hjustified⟩ := isJustified_eq_true_iff.1 (mem_backing.1 hmem).2.2 r hr
    obtain rfl : value.root = root :=
      Option.some.inj ((Message.valueRoot?_eq_some hvalue).symm.trans hroot)
    exact ⟨r, hr, hroot, isQuorumFor_iff.1 (h.height_eq ▸ hjustified)⟩

theorem Collected.presentable (h : Collected seat height s) (hseat : Enrolled seat)
    (hsends : Sends seat s m) (htype : m.type = .propose) : Presentable seat height m := by
  cases hsends with
  | opening hnew hround hleader =>
    refine ⟨⟨rfl, rfl, h.height_eq, hseat.verify_sign _ _ _⟩, rfl, ?_, fun _ _ => .inl hround⟩
    exact h.height_eq ▸ mapError_eq_ok_iff.1 hleader
  | reply hround hfirst hleader hquorum hproposal =>
    refine ⟨⟨rfl, rfl, h.height_eq, hseat.verify_sign _ _ _⟩, rfl, ?_, fun value' hvalue => ?_⟩
    · exact h.height_eq ▸ mapError_eq_ok_iff.1 hleader
    · obtain rfl := Option.some.inj hvalue
      exact .inr (h.proposalJustified hquorum hproposal)
  | prepare => cases htype
  | commit => cases htype
  | ask hlt => cases htype

theorem Run.presentable (h : Run seat height t) (hseat : Enrolled seat) (hm : m ∈ t.sent)
    (htype : m.type = .propose) : Presentable seat height m :=
  h.forall_sent (Q := fun m => m.type = .propose → Presentable seat height m)
    (fun _ hs _ hsends htype => hs.presentable hseat hsends htype) m hm htype

/-- An instance that receives a valid proposal accepts it, and votes to prepare its value. -/
theorem receive_of_validateProposal (hreach : Reaches seat s m) (htype : m.type = .propose)
    (hvalid : validateProposal seat s m = .ok ()) (hvalue : m.message.value? = some value) :
    receive seat net s m =
      ⟨{ s with
          round := m.round
          accepted := some m
          proposes := (s.proposes.addFirst? m).getD s.proposes },
        entryCalls seat s m.round ++ [.broadcast (sign seat s m.round (.prepare value.root))],
        ((net.broadcast (sign seat s m.round (.prepare value.root))).mapError .broadcast).map
          fun _ => none⟩ := by
  have hbase := validateBase_eq_ok_iff.2 ⟨hreach.identifier_eq, hreach.height_eq, hreach.round_le⟩
  simp only [receive, hreach.running, hbase, htype, onPropose, hvalid, hvalue]
  by_cases hlt : s.round < m.round
  · simp only [entryCalls, hlt, if_true]
    rfl
  · have hround : m.round = s.round := by
      have := hreach.round_le
      rw [Round.lt_iff] at hlt
      exact Round.toNat_inj.1 (by omega)
    rw [hround] at hlt
    simp only [entryCalls, hround, hlt, if_false]
    rfl

/-- Every proposal of a member, also one that it makes to a quorum that asks for a round, is
accepted by every other member that still may: its instance runs and has accepted none in the round,
which is not over. All that can go wrong is that its vote is not sent. -/
theorem proposal_accepted (net : Network S) (h : Run seat height t) (hseat : Enrolled seat)
    (hm : m ∈ t.sent) (htype : m.type = .propose) (hvalue : m.message.value? = some value)
    (hcheck : seat.context.checkValue value = .ok ()) (hpeer : Fellow seat peer)
    (hidentifier : peer.identifier = seat.identifier) (hheight : u.height = height)
    (hrunning : u.stopped peer = false)
    (hfresh : u.round.toNat < m.round.toNat ∨ u.round = m.round ∧ u.accepted = none) :
    (receive peer net u m).state.accepted = some m ∧
      (receive peer net u m).state.round = m.round ∧
      (receive peer net u m).effects =
        entryCalls peer u m.round ++ [.broadcast (sign peer u m.round (.prepare value.root))] ∧
      (receive peer net u m).answer =
        ((net.broadcast (sign peer u m.round (.prepare value.root))).mapError .broadcast).map
          fun _ => none := by
  obtain ⟨⟨-, hid, hmheight, hverify⟩, hsigners, hleader, hjustified⟩ :=
    h.presentable hseat hm htype
  have hreach : Reaches peer u m := by
    refine ⟨hrunning, hid.trans hidentifier.symm, hmheight.trans hheight.symm, ?_⟩
    rcases hfresh with hlt | ⟨heq, -⟩
    · exact hlt.le
    · rw [heq]
  have hvalid : validateProposal peer u m = .ok () := by
    refine validateProposal_eq_ok_iff.2 ⟨⟨_, hsigners, ?_⟩, hpeer.verify hverify,
      ⟨value, hvalue, ?_⟩, hfresh.symm.imp (fun hcurrent => ⟨hcurrent.1.symm, hcurrent.2⟩) id⟩
    · rw [leader, mapError_eq_ok_iff, hpeer.committee_eq, hpeer.context_eq, hheight]
      exact hleader
    · refine validateProposalJustification_eq_ok_iff.2 ⟨hpeer.context_eq ▸ hcheck, ?_⟩
      exact (hjustified value hvalue).imp_right fun hj => hheight ▸ hpeer.proposalJustified hj
  rw [receive_of_validateProposal hreach htype hvalid hvalue]
  exact ⟨rfl, rfl, rfl, rfl⟩

theorem proposeOnQuorum_eq_done_of_few {round : Round} {id : OperatorId}
    (hleader : leader seat s round = .ok id)
    (hfew : distinctSigners (backing seat s round) < seat.committee.quorum) :
    proposeOnQuorum seat net s round = .done s () := by
  have hleads : isLeader seat s round = .ok (id = seat.signer.id) := by simp [isLeader, hleader]
  have hquorum := mt Committee.isQuorum_iff.1 hfew.not_ge
  rw [backing] at hquorum
  unfold proposeOnQuorum
  rw [hleads]
  split
  · rfl
  split
  · rename_i h
    cases h
  · rfl
  · dsimp only
    rw [if_pos hquorum]

/-- A round change asks for the current round and is only stored: it is valid and the first one of
its signer, nobody has asked for a later round, and there is no quorum with it. The leader of the
round and the next round, which an instance looks up first, exist. -/
def OnlyStored (seat : Seat S) (s : Instance S) (m : SignedMessage S) : Prop :=
  (s.stopped seat = false ∧ validateBase seat s m = .ok ()) ∧
    (m.type = .roundChange ∧ m.round = s.round ∧
      validateRoundChange seat s m m.round = .ok ()) ∧
    s.roundChanges.hasSignerOf m = false ∧
    (∀ x ∈ s.roundChanges.messages, x.round.toNat ≤ s.round.toNat) ∧
    distinctSigners (backing seat { s with roundChanges := s.roundChanges.add m } m.round) <
      seat.committee.quorum ∧
    (leader seat s m.round).isOk ∧ s.round.next?.isOk

instance (seat : Seat S) (s : Instance S) (m : SignedMessage S) : Decidable (OnlyStored seat s m) :=
  inferInstanceAs (Decidable ((_ ∧ _) ∧ (_ ∧ _ ∧ _) ∧ _ ∧ _ ∧ _ ∧ _ ∧ _))

theorem OnlyStored.state_step (h : OnlyStored seat s m) :
    (step seat net s (.receive m)).state = { s with roundChanges := s.roundChanges.add m } := by
  obtain ⟨⟨hrunning, hbase⟩, ⟨htype, hround, hvalid⟩, hnew, hlow, hfew, hleader, hnext⟩ := h
  obtain ⟨id, hleader⟩ := isOk_iff.1 hleader
  obtain ⟨next, hnext⟩ := isOk_iff.1 hnext
  have hadd : s.roundChanges.addFirst? m = some (s.roundChanges.add m) := by
    rw [Tally.addFirst?, hnew, if_neg Bool.false_ne_true]
  have hpropose : proposeOnQuorum seat net { s with roundChanges := s.roundChanges.add m } m.round =
      .done _ () := proposeOnQuorum_eq_done_of_few hleader hfew
  have hskip : skipAhead seat net { s with roundChanges := s.roundChanges.add m } =
      .done { s with roundChanges := s.roundChanges.add m } () := by
    refine skipAhead_eq_done hnext fun x hx => ?_
    rw [Tally.messages_add, List.mem_append, List.mem_singleton] at hx
    rcases hx with hx | rfl
    · exact hlow x hx
    · rw [hround]
  rw [Step.done] at hpropose
  simp only [step, receive, hrunning, Bool.false_eq_true, if_false, hbase, htype, onRoundChange,
    hvalid, hadd, hpropose, both, hskip]
  split <;> rfl

end Proposals

namespace Mixed

open Scheme

/-- The round change of a member for the second round. -/
def roundChange (id : UInt64) (prepared : Option (Prepared plain))
    (prepares : List (SignedMessage plain)) : SignedMessage plain :=
  plain.signed id plain.seat.identifier Height.first ⟨2⟩ (.roundChange prepared prepares)

/-- The prepares of some members in the first round. -/
def prepares (ids : List UInt64) (value : Value plain) : List (SignedMessage plain) :=
  ids.map fun id => plain.message id (.prepare value.root)

/-- The round change that reports the preparation of the value by a quorum. -/
def prepared : SignedMessage plain :=
  roundChange 1 (some ⟨Round.first, plain.value⟩) (prepares [1, 2, 4] plain.value)

/-- A round change that reports the preparation of another value with the prepare of one member. -/
def pretended : SignedMessage plain :=
  roundChange 3 (some ⟨Round.first, .ofBytes ⟨#[8]⟩⟩) (prepares [3] (.ofBytes ⟨#[8]⟩))

/-- Member 2, which leads the second round, when it has stored some round changes for it. -/
def waiting (ms : List (SignedMessage plain)) : Instance plain :=
  { Instance.new Height.first with round := ⟨2⟩, roundChanges := ⟨ms⟩ }

/-- Member 2 gives up the first round, and three members ask for the second one. -/
def opening : Trace plain := (Trace.new Height.first).play (plain.place 2)
  [.timeout Round.first, .receive pretended, .receive prepared, .receive (roundChange 4 none [])]

/-- The last one that it needs asks for it as well. -/
def trace : Trace plain :=
  opening.extend (plain.place 2) (.reliable _) (.receive (roundChange 2 none []))

/-- What it proposes. -/
def proposal : SignedMessage plain := plain.signed 2 plain.seat.identifier Height.first ⟨2⟩
  (.propose plain.value [prepared, roundChange 4 none [], roundChange 2 none []]
    (prepares [1, 2, 4] plain.value))

theorem state_opening : opening.state = waiting [pretended, prepared, roundChange 4 none []] := by
  have hexpire : (step (plain.place 2) (.reliable _) (.new Height.first)
      (.timeout Round.first)).state = waiting [] := rfl
  have hfirst : (step (plain.place 2) (.reliable _) (waiting []) (.receive pretended)).state =
      waiting [pretended] := OnlyStored.state_step (by decide +kernel)
  have hsecond : (step (plain.place 2) (.reliable _) (waiting [pretended])
      (.receive prepared)).state = waiting [pretended, prepared] :=
    OnlyStored.state_step (by decide +kernel)
  have hthird : (step (plain.place 2) (.reliable _) (waiting [pretended, prepared])
      (.receive (roundChange 4 none []))).state =
        waiting [pretended, prepared, roundChange 4 none []] :=
    OnlyStored.state_step (by decide +kernel)
  rw [opening, Trace.play_cons, Trace.play_cons, Trace.play_cons, Trace.play_cons, Trace.play_nil,
    Trace.state_extend, Trace.state_extend, Trace.state_extend, Trace.state_extend, Trace.new,
    hexpire, hfirst, hsecond, hthird]

theorem proposal_mem_sent : proposal ∈ trace.sent := by
  refine Trace.mem_sent_extend ?_
  rw [state_opening]
  decide +kernel

end Mixed

/-- A leader that leaves a pretended preparation aside is followed by a member that is still in the
first round. -/
theorem proposal_of_mixed :
    Enrolled (Scheme.plain.place 2) ∧ Run (Scheme.plain.place 2) Height.first Mixed.trace ∧
      Mixed.proposal ∈ Mixed.trace.sent ∧ Fellow (Scheme.plain.place 2) (Scheme.plain.place 3) ∧
      (receive (Scheme.plain.place 3) (.reliable _) (.new Height.first)
        Mixed.proposal).state.accepted = some Mixed.proposal := by
  have hseat : Enrolled (Scheme.plain.place 2) :=
    ⟨⟨⟨2⟩, (2 : UInt64)⟩, rfl, Scheme.plain.verify_sign 2⟩
  have hrun : Run (Scheme.plain.place 2) Height.first Mixed.trace := (Run.new.play _).next _ _
  have hpeer : Fellow (Scheme.plain.place 2) (Scheme.plain.place 3) := ⟨rfl, rfl⟩
  have haccepted := proposal_accepted (.reliable _) (u := .new Height.first) hrun hseat
    Mixed.proposal_mem_sent rfl rfl (by decide) hpeer rfl rfl rfl (.inl (by decide))
  exact ⟨hseat, hrun, Mixed.proposal_mem_sent, hpeer, haccepted.1⟩

end Instance
end Conclave
