import Conclave.Proofs.Committee.Members
import Conclave.Proofs.Instance.Justification

/-!
# Which values may be proposed

A proposal for a round above the first comes with the messages that show why its value may be
proposed. `Proposable` says what they have to show, in terms of what they hold and who has signed
them, and nothing of the order in which it is checked:

* `SignedBy` is a message with the signature of one member, `Vouches` a prepare for a preparation,
  `Asks` a request for a round;
* `IsFirstHighest` is the preparation that has to be followed, of the highest round and the first
  one reported of those;
* `validateProposalJustification_eq_ok_iff_proposable` is the main statement: the check succeeds
  for these values, and for no others.
-/

namespace Conclave

variable {S : Scheme}

namespace Message

theorem preparedRound?_eq_some_iff {J : Type} {m : Message S J} {r : Round} :
    m.preparedRound? = some r ↔ ∃ p, m.prepared? = some p ∧ p.round = r :=
  Option.map_eq_some_iff

end Message

namespace Instance

section Proposable

variable (seat : Seat S) (height : Height) (round : Round)

/-- A message of a single signer, which is a member, with its signature. -/
def SignedBy (id : OperatorId) (m : SignedMessage S) : Prop :=
  ∃ member ∈ seat.committee.members, ∃ signature, member.id = id ∧ m.signers = [id] ∧
    m.signatures = [signature] ∧
    S.verify member.publicKey (m.message.signingRoot seat.context.domain) signature = true

/-- A prepare of a member for the value with the given root. -/
structure Vouches (root : Digest) (id : OperatorId) (m : SignedMessage S) : Prop where
  signed : SignedBy seat id m
  height_eq : m.height = height
  round_eq : m.round = round
  body_eq : m.message.body = .prepare root

/-- Prepares of some members, all different, for the value with the given root. -/
def AllVouch (root : Digest) (ids : List OperatorId) (ms : List (SignedMessage S)) : Prop :=
  ids.Nodup ∧ List.Forall₂ (Vouches seat height round root) ids ms

/-- A request of a member for a round. A preparation that it reports is of a lower round, and the
prepares that come with it are for that preparation. -/
structure Asks (id : OperatorId) (m : SignedMessage S) : Prop where
  signed : SignedBy seat id m
  height_eq : m.height = height
  round_eq : m.round = round
  body_eq : ∃ prepared prepares, m.message.body = .roundChange prepared prepares ∧
    ∀ p, prepared = some p → p.round < round ∧
      ∃ ids, AllVouch seat height p.round p.value.root ids prepares

/-- The first report of a preparation of the highest round. -/
def IsFirstHighest (ms : List (SignedMessage S)) (m : SignedMessage S) (p : Prepared S) : Prop :=
  ∃ before after, ms = before ++ m :: after ∧ m.message.prepared? = some p ∧
    (∀ x ∈ before, ∀ q, x.message.prepared? = some q → q.round < p.round) ∧
    ∀ x ∈ after, ∀ q, x.message.prepared? = some q → q.round ≤ p.round

/-- A value that may be proposed in a round above the first: members that make a quorum ask for the
round, and either none of them reports a preparation, or the value is the one of the first highest
preparation and as many members vouch for it. -/
structure Proposable (value : Value S) (roundChanges prepares : List (SignedMessage S)) : Prop where
  admissible : seat.context.checkValue value = .ok ()
  asked : ∀ m ∈ roundChanges, ∃ id, Asks seat height round id m
  quorum : seat.committee.quorum ≤ (roundChanges.flatMap SignedMessage.signers).toFinset.card
  highest : (∀ m ∈ roundChanges, m.message.prepared? = none) ∨
    ∃ m p, IsFirstHighest roundChanges m p ∧ value.root = p.value.root ∧
      ∃ ids, AllVouch seat height p.round p.value.root ids prepares ∧
        seat.committee.quorum ≤ ids.length

end Proposable

variable {seat : Seat S} {s : Instance S} {height : Height} {round : Round} {root : Digest}
  {id : OperatorId} {m : SignedMessage S} {ms : List (SignedMessage S)} {p : Prepared S}

/-! ### Signatures -/

theorem signedBy_iff : SignedBy seat id m ↔
    m.signers = [id] ∧ m.verify seat.committee seat.context.domain = .ok () := by
  rw [SignedMessage.verify_eq_ok_iff]
  constructor
  · rintro ⟨member, hmember, signature, hid, hsigners, hsignatures, hverify⟩
    refine ⟨hsigners, by simp [hsigners, checkSigners_eq_ok_iff],
      by rw [hsigners, hsignatures]; rfl, fun x hx => ?_⟩
    obtain rfl : x = (id, signature) := by
      simpa [SignedMessage.pairs, hsigners, hsignatures] using hx
    exact ⟨member, Committee.get?_eq_some_iff.2 ⟨hmember, hid⟩, hverify⟩
  · rintro ⟨hsigners, -, hlength, hpairs⟩
    rw [hsigners] at hlength
    obtain ⟨signature, hsignatures⟩ := List.length_eq_one_iff.1 hlength.symm
    obtain ⟨member, hget, hverify⟩ := hpairs (id, signature) (by
      simp [SignedMessage.pairs, hsigners, hsignatures])
    obtain ⟨hmember, hid⟩ := Committee.get?_eq_some_iff.1 hget
    exact ⟨member, hmember, signature, hid, hsigners, hsignatures, hverify⟩

/-! ### Prepares -/

theorem vouches_iff : Vouches seat height round root id m ↔
    IsPrepareFor seat height round root m ∧ m.signers = [id] := by
  constructor
  · rintro ⟨hsigned, hheight, hround, hbody⟩
    obtain ⟨hsigners, hverify⟩ := signedBy_iff.1 hsigned
    refine ⟨⟨?_, ⟨id, hsigners⟩, hverify, hheight, hround, ?_⟩, hsigners⟩
    · rw [SignedMessage.type, Message.type, hbody]
    · rw [Message.valueRoot?, hbody]
  · rintro ⟨⟨htype, -, hverify, hheight, hround, hroot⟩, hsigners⟩
    exact ⟨signedBy_iff.2 ⟨hsigners, hverify⟩, hheight, hround, Message.body_of_prepare htype hroot⟩

theorem forall₂_vouches_iff {ids : List OperatorId} :
    List.Forall₂ (Vouches seat height round root) ids ms ↔
      (∀ m ∈ ms, IsPrepareFor seat height round root m) ∧
        ms.flatMap SignedMessage.signers = ids := by
  induction ms generalizing ids with
  | nil => simp [eq_comm]
  | cons m rest ih =>
    simp only [List.forall₂_cons_right_iff, vouches_iff, ih, List.forall_mem_cons,
      List.flatMap_cons]
    constructor
    · rintro ⟨id, ids, ⟨hm, hid⟩, ⟨hrest, rfl⟩, rfl⟩
      exact ⟨⟨hm, hrest⟩, by rw [hid, List.singleton_append]⟩
    · rintro ⟨⟨hm, hrest⟩, rfl⟩
      obtain ⟨id, hid⟩ := hm.single
      exact ⟨id, _, ⟨hm, hid⟩, ⟨hrest, rfl⟩, by rw [hid, List.singleton_append]⟩

/-- Where all vouch, the members are as many as the prepares. -/
theorem exists_allVouch_iff {P : ℕ → Prop} :
    (∃ ids, AllVouch seat height round root ids ms ∧ P ids.length) ↔
      (∀ m ∈ ms, IsPrepareFor seat height round root m) ∧
        (ms.flatMap SignedMessage.signers).Nodup ∧ P ms.length := by
  simp only [AllVouch, forall₂_vouches_iff]
  constructor
  · rintro ⟨ids, ⟨hnodup, hall, rfl⟩, hlength⟩
    rw [length_flatMap_signers fun m hm => (hall m hm).single] at hlength
    exact ⟨hall, hnodup, hlength⟩
  · rintro ⟨hall, hnodup, hlength⟩
    rw [← length_flatMap_signers fun m hm => (hall m hm).single] at hlength
    exact ⟨_, ⟨hnodup, hall, rfl⟩, hlength⟩

/-! ### Round changes -/

theorem exists_asks_iff : (∃ id, Asks seat height round id m) ↔
    m.type = .roundChange ∧ IsRoundChangeFor seat height round m := by
  have hvouch (p : Prepared S) (prepares : List (SignedMessage S)) :
      (∃ ids, AllVouch seat height p.round p.value.root ids prepares) ↔
        (∀ x ∈ prepares, IsPrepareFor seat height p.round p.value.root x) ∧
          (prepares.flatMap SignedMessage.signers).Nodup := by
    simpa using exists_allVouch_iff (P := fun _ => True)
  constructor
  · rintro ⟨id, hsigned, hheight, hround, prepared, prepares, hbody, hprepared⟩
    obtain ⟨hsigners, hverify⟩ := signedBy_iff.1 hsigned
    refine ⟨by rw [SignedMessage.type, Message.type, hbody], ⟨id, hsigners⟩, hverify, hheight,
      hround, fun r hr => ?_⟩
    obtain ⟨p, hp, rfl⟩ := Message.preparedRound?_eq_some_iff.1 hr
    have hroot := Message.valueRoot?_of_prepared? hp
    rw [Message.prepared?, hbody] at hp
    obtain ⟨hlt, hprepares⟩ := hprepared p hp
    refine ⟨hlt, p.value.root, hroot, ?_⟩
    rw [Message.prepares, hbody]
    exact (hvouch p prepares).1 hprepares
  · rintro ⟨htype, ⟨id, hsigners⟩, hverify, hheight, hround, hprepared⟩
    obtain ⟨prepared, prepares, hbody⟩ := Message.body_of_roundChange htype
    refine ⟨id, signedBy_iff.2 ⟨hsigners, hverify⟩, hheight, hround, prepared, prepares, hbody,
      ?_⟩
    rintro p rfl
    have hp : m.message.prepared? = some p := by rw [Message.prepared?, hbody]
    obtain ⟨hlt, root, hroot, hprepares⟩ :=
      hprepared p.round (Message.preparedRound?_eq_some_iff.2 ⟨p, hp, rfl⟩)
    obtain rfl : p.value.root = root :=
      Option.some.inj ((Message.valueRoot?_of_prepared? hp).symm.trans hroot)
    rw [Message.prepares, hbody] at hprepares
    exact ⟨hlt, (hvouch p prepares).2 hprepares⟩

/-! ### The first highest preparation -/

theorem highestPreparedAbove_append (found : Option (Round × SignedMessage S))
    (ms ms' : List (SignedMessage S)) :
    highestPreparedAbove found (ms ++ ms') =
      highestPreparedAbove (highestPreparedAbove found ms) ms' := by
  induction ms generalizing found with
  | nil => rfl
  | cons m rest ih =>
    simp only [List.cons_append, highestPreparedAbove]
    split
    · exact ih found
    · split
      · exact ih _
      · exact ih found

/-- What is not above the preparation that was found is passed over. -/
theorem highestPreparedAbove_of_le {found : Round × SignedMessage S}
    (h : ∀ x ∈ ms, ∀ q, x.message.prepared? = some q → q.round ≤ found.1) :
    highestPreparedAbove (some found) ms = some found := by
  induction ms with
  | nil => rfl
  | cons m rest ih =>
    obtain ⟨hm, hrest⟩ := List.forall_mem_cons.1 h
    unfold highestPreparedAbove
    cases hr : m.message.preparedRound? with
    | none => exact ih hrest
    | some r =>
      obtain ⟨q, hq, rfl⟩ := Message.preparedRound?_eq_some_iff.1 hr
      have hle := hm q hq
      rw [Round.le_iff] at hle
      have hlow : ¬ found.1 < q.round := by
        rw [Round.lt_iff]
        omega
      simpa [hlow] using ih hrest

theorem IsFirstHighest.prepared?_eq (h : IsFirstHighest ms m p) : m.message.prepared? = some p := by
  obtain ⟨-, -, -, hp, -⟩ := h
  exact hp

theorem IsFirstHighest.highestPrepared?_eq (h : IsFirstHighest ms m p) :
    highestPrepared? ms = some m := by
  obtain ⟨before, after, rfl, hp, hbefore, hafter⟩ := h
  have hround : m.message.preparedRound? = some p.round :=
    Message.preparedRound?_eq_some_iff.2 ⟨p, hp, rfl⟩
  -- the preparation is above whatever was found before it
  have habove : (highestPreparedAbove none before).all (fun best => best.1 < p.round) = true := by
    rcases highestPreparedAbove_eq none before with ⟨heq, -⟩ | ⟨r, x, heq, hx, hr, -⟩
    · rw [heq]
      rfl
    · obtain ⟨q, hq, rfl⟩ := Message.preparedRound?_eq_some_iff.1 hr
      simpa [heq] using hbefore x hx q hq
  rw [highestPrepared?, highestPreparedAbove_append, highestPreparedAbove]
  simp only [hround, habove, if_true]
  rw [highestPreparedAbove_of_le hafter]
  rfl

/-- None is above the highest preparation. -/
theorem IsFirstHighest.round_le (h : IsFirstHighest ms m p) :
    ∀ x ∈ ms, ∀ q, x.message.prepared? = some q → q.round ≤ p.round := by
  obtain ⟨before, after, rfl, hp, hbefore, hafter⟩ := h
  rw [List.forall_mem_append, List.forall_mem_cons]
  refine ⟨fun x hx q hq => ?_, fun q hq => ?_, hafter⟩
  · exact UInt64.le_of_lt (hbefore x hx q hq)
  · rw [hp, Option.some.injEq] at hq
    exact hq ▸ UInt64.le_refl _

/-- A report that is not above the first highest one leaves it in its place. -/
theorem IsFirstHighest.concat (h : IsFirstHighest ms m p) {x : SignedMessage S}
    (hx : ∀ q, x.message.prepared? = some q → q.round ≤ p.round) :
    IsFirstHighest (ms ++ [x]) m p := by
  obtain ⟨before, after, rfl, hp, hbefore, hafter⟩ := h
  refine ⟨before, after ++ [x], by simp, hp, hbefore, ?_⟩
  rw [List.forall_mem_append, List.forall_mem_singleton]
  exact ⟨hafter, hx⟩

/-- If a preparation is reported, one of them is the first highest. -/
theorem exists_isFirstHighest (h : ∃ x ∈ ms, x.message.prepared? ≠ none) :
    ∃ m p, IsFirstHighest ms m p := by
  induction ms using List.reverseRecOn with
  | nil => simp at h
  | append_singleton ms x ih =>
    by_cases hms : ∃ y ∈ ms, y.message.prepared? ≠ none
    · obtain ⟨m, p, hp⟩ := ih hms
      by_cases hx : ∀ q, x.message.prepared? = some q → q.round ≤ p.round
      · exact ⟨m, p, hp.concat hx⟩
      · push Not at hx
        obtain ⟨q, hq, hlt⟩ := hx
        refine ⟨x, q, ms, [], rfl, hq, fun y hy p' hp' => ?_, nofun⟩
        have hle := hp.round_le y hy p' hp'
        rw [Round.le_iff] at hlt hle
        rw [Round.lt_iff]
        omega
    · push Not at hms
      obtain ⟨y, hy, hsome⟩ := h
      obtain rfl : y = x := by
        rcases List.mem_append.1 hy with hy | hy
        · exact absurd (hms y hy) hsome
        · exact List.mem_singleton.1 hy
      obtain ⟨q, hq⟩ := Option.ne_none_iff_exists'.1 hsome
      refine ⟨y, q, ms, [], rfl, hq, fun z hz p' hp' => ?_, nofun⟩
      rw [hms z hz] at hp'
      cases hp'

theorem highestPrepared?_eq_some_iff :
    highestPrepared? ms = some m ↔ ∃ p, IsFirstHighest ms m p := by
  refine ⟨fun h => ?_, fun ⟨p, hp⟩ => hp.highestPrepared?_eq⟩
  have hhighest := isHighestPrepared_highestPrepared? ms
  rw [h] at hhighest
  obtain ⟨hm, r, hr, -⟩ := hhighest
  obtain ⟨q, hq, -⟩ := Message.preparedRound?_eq_some_iff.1 hr
  obtain ⟨m', p, hp⟩ := exists_isFirstHighest ⟨m, hm, by simp [hq]⟩
  obtain rfl : m = m' := Option.some.inj (h.symm.trans hp.highestPrepared?_eq)
  exact ⟨p, hp⟩

theorem highestPrepared?_eq_none_iff :
    highestPrepared? ms = none ↔ ∀ x ∈ ms, x.message.prepared? = none := by
  constructor
  · intro h x hx
    have hnone := isHighestPrepared_highestPrepared? ms
    rw [h] at hnone
    exact Option.map_eq_none_iff.1 (hnone x hx)
  · intro h
    cases hm : highestPrepared? ms with
    | none => rfl
    | some m =>
      obtain ⟨p, before, after, rfl, hp, -⟩ := highestPrepared?_eq_some_iff.1 hm
      rw [h m (by simp)] at hp
      cases hp

/-! ### Proposals -/

/-- What the value and the prepares of a proposal have to be after a report of a preparation. -/
theorem follows_iff (hp : m.message.prepared? = some p) {value : Value S}
    {prepares : List (SignedMessage S)} :
    (∃ r, m.message.preparedRound? = some r ∧ m.message.valueRoot? = some value.root ∧
      (∀ x ∈ prepares, IsPrepareFor seat height r value.root x) ∧
      (prepares.flatMap SignedMessage.signers).Nodup ∧
      seat.committee.quorum ≤ prepares.length) ↔
    value.root = p.value.root ∧ ∃ ids, AllVouch seat height p.round p.value.root ids prepares ∧
      seat.committee.quorum ≤ ids.length := by
  have hround : m.message.preparedRound? = some p.round :=
    Message.preparedRound?_eq_some_iff.2 ⟨p, hp, rfl⟩
  rw [exists_allVouch_iff (P := fun n => seat.committee.quorum ≤ n)]
  simp only [hround, Message.valueRoot?_of_prepared? hp, Option.some.injEq, exists_eq_left']
  constructor
  · rintro ⟨hroot, hprepares⟩
    exact ⟨hroot.symm, hroot ▸ hprepares⟩
  · rintro ⟨hroot, hprepares⟩
    exact ⟨hroot.symm, hroot.symm ▸ hprepares⟩

/-- A proposal for a round above the first is justified exactly if its value may be proposed. -/
theorem validateProposalJustification_eq_ok_iff_proposable (hround : Round.first < round)
    {value : Value S} {roundChanges prepares : List (SignedMessage S)} :
    validateProposalJustification seat s round value roundChanges prepares = .ok () ↔
      Proposable seat s.height round value roundChanges prepares := by
  have hnotFirst : round ≠ Round.first := by
    rintro rfl
    exact UInt64.lt_irrefl _ hround
  rw [validateProposalJustification_eq_ok_iff, or_iff_right hnotFirst]
  constructor
  · rintro ⟨hvalue, hasked, hquorum, hhighest⟩
    refine ⟨hvalue, fun m hm => exists_asks_iff.2 (hasked m hm), hquorum, ?_⟩
    cases hm : highestPrepared? roundChanges with
    | none => exact .inl (highestPrepared?_eq_none_iff.1 hm)
    | some m =>
      obtain ⟨p, hfirst⟩ := highestPrepared?_eq_some_iff.1 hm
      exact .inr ⟨m, p, hfirst, (follows_iff hfirst.prepared?_eq).1 (hhighest m hm)⟩
  · rintro ⟨hvalue, hasked, hquorum, hnone | ⟨m, p, hfirst, hfollows⟩⟩
    · refine ⟨hvalue, fun m hm => exists_asks_iff.1 (hasked m hm), hquorum, fun m hm => ?_⟩
      rw [highestPrepared?_eq_none_iff.2 hnone] at hm
      cases hm
    · refine ⟨hvalue, fun m hm => exists_asks_iff.1 (hasked m hm), hquorum, fun m' hm' => ?_⟩
      obtain rfl : m = m' := Option.some.inj (hfirst.highestPrepared?_eq.symm.trans hm')
      exact (follows_iff hfirst.prepared?_eq).2 hfollows

namespace Tied

open Scheme

/-- Another value. -/
def other : Value plain := .ofBytes ⟨#[8]⟩

/-- The prepares of some members. -/
def votes (round : Round) (value : Value plain) (ids : List UInt64) :
    List (SignedMessage plain) :=
  ids.map fun id => plain.signed id plain.seat.identifier Height.first round (.prepare value.root)

/-- The request of a member for the third round. -/
def request (id : UInt64) (p : Prepared plain) (ms : List (SignedMessage plain)) :
    SignedMessage plain :=
  plain.signed id plain.seat.identifier Height.first ⟨3⟩ (.roundChange (some p) ms)

/-- A report of a preparation in the first round. -/
def low : SignedMessage plain :=
  request 1 ⟨Round.first, other⟩ (votes Round.first other [1])

/-- The report of the preparation of the value in the second round. -/
def followed : SignedMessage plain :=
  request 2 ⟨⟨2⟩, plain.value⟩ (votes ⟨2⟩ plain.value [1, 2, 4])

/-- The report of a preparation of the other value in the second round, without any prepare. -/
def passedOver : SignedMessage plain := request 4 ⟨⟨2⟩, other⟩ []

end Tied

open Tied in
/-- Of two reports of the highest round the first one is followed. -/
theorem proposable_of_tied :
    Round.first < ⟨3⟩ ∧
      Proposable Scheme.plain.seat Height.first ⟨3⟩ Scheme.plain.value [low, followed, passedOver]
        (votes ⟨2⟩ Scheme.plain.value [1, 2, 4]) ∧
      ¬ Proposable Scheme.plain.seat Height.first ⟨3⟩ Scheme.plain.value [low, passedOver, followed]
        (votes ⟨2⟩ Scheme.plain.value [1, 2, 4]) := by
  have hround : Round.first < ⟨3⟩ := by decide
  have hfollowed : validateProposalJustification Scheme.plain.seat (.new Height.first) ⟨3⟩
      Scheme.plain.value [low, followed, passedOver] (votes ⟨2⟩ Scheme.plain.value [1, 2, 4]) =
        .ok () := by
    decide +kernel
  have hpassed : validateProposalJustification Scheme.plain.seat (.new Height.first) ⟨3⟩
      Scheme.plain.value [low, passedOver, followed] (votes ⟨2⟩ Scheme.plain.value [1, 2, 4]) ≠
        .ok () := by
    decide +kernel
  exact ⟨hround, (validateProposalJustification_eq_ok_iff_proposable hround).1 hfollowed,
    fun h => hpassed ((validateProposalJustification_eq_ok_iff_proposable hround).2 h)⟩

end Instance
end Conclave
