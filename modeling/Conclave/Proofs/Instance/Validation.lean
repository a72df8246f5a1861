import Conclave.Instance.Validation
import Conclave.Proofs.Message.Verification
import Mathlib.Data.Finset.Dedup

/-!
# What validation establishes

Each check of a message is equivalent to a statement about the message:

* `IsPrepareFor` and `IsRoundChangeFor` say what a prepare and a round change that justify
  something are;
* `IsHighestPrepared` says which round change a new proposal has to follow;
* `ProposalJustified` says when a value may be proposed.

None of them mentions the state of an instance, except its height.
-/

namespace Conclave

namespace Message

variable {S : Scheme} {J : Type} {m : Message S J}

/-- The root that a message is about is the one of the value it carries. -/
theorem valueRoot?_eq_some {value : Value S}
    (h : m.value? = some value) : m.valueRoot? = some value.root := by
  cases hbody : m.body with
  | propose proposed roundChanges prepares =>
    simp only [value?, hbody, Option.some.injEq] at h
    simp only [valueRoot?, hbody, h]
  | prepare root => simp [value?, hbody] at h
  | commit root => simp [value?, hbody] at h
  | roundChange prepared prepares =>
    simp only [value?, hbody, Option.map_eq_some_iff] at h
    obtain ⟨p, rfl, rfl⟩ := h
    simp only [valueRoot?, hbody, Option.map_some]

/-- A message that reports a preparation carries its value. -/
theorem exists_value?_of_preparedRound? {round : Round} (h : m.preparedRound? = some round) :
    ∃ value, m.value? = some value := by
  unfold preparedRound? prepared? at h
  split at h
  · rename_i hbody
    obtain ⟨p, rfl, -⟩ := Option.map_eq_some_iff.1 h
    exact ⟨p.value, by simp only [value?, hbody, Option.map_some]⟩
  · cases h

/-- The root that a round change is about is the one of the value it reports. -/
theorem valueRoot?_of_prepared? {p : Prepared S} (h : m.prepared? = some p) :
    m.valueRoot? = some p.value.root := by
  unfold prepared? at h
  split at h
  · rename_i hbody
    simp only [valueRoot?, hbody, h, Option.map_some]
  · cases h

/-- A proposal has a value. -/
theorem exists_value?_of_propose (h : m.type = .propose) : ∃ value, m.value? = some value := by
  unfold type at h
  split at h
  · rename_i value roundChanges prepares hbody
    exact ⟨value, by rw [value?, hbody]⟩
  · cases h
  · cases h
  · cases h

/-- A prepare is nothing but a vote for a root. -/
theorem body_of_prepare {root : Digest} (h : m.type = .prepare)
    (hroot : m.valueRoot? = some root) : m.body = .prepare root := by
  unfold type at h
  split at h
  · cases h
  · rename_i root' hbody
    rw [valueRoot?, hbody] at hroot
    rw [hbody, Option.some.inj hroot]
  · cases h
  · cases h

/-- A commit is nothing but a vote for a root. -/
theorem body_of_commit {root : Digest} (h : m.type = .commit) (hroot : m.valueRoot? = some root) :
    m.body = .commit root := by
  unfold type at h
  split at h
  · cases h
  · cases h
  · rename_i root' hbody
    rw [valueRoot?, hbody] at hroot
    rw [hbody, Option.some.inj hroot]
  · cases h

/-- A round change reports a preparation or none, and carries prepares. -/
theorem body_of_roundChange (h : m.type = .roundChange) :
    ∃ prepared prepares, m.body = .roundChange prepared prepares := by
  unfold type at h
  split at h
  · cases h
  · cases h
  · cases h
  · rename_i prepared prepares hbody
    exact ⟨prepared, prepares, hbody⟩

end Message

namespace Instance

variable {S : Scheme} {seat : Seat S} {s : Instance S}

theorem checkSingleSigner_eq_ok_iff {m : SignedMessage S} {id : OperatorId} :
    checkSingleSigner m = .ok id ↔ m.signers = [id] := by
  have hone : checkSigners [id] = .ok () := checkSigners_eq_ok_iff.2 (by simp)
  simp only [checkSingleSigner, bind_eq_ok_iff, exists_unit_iff, mapError_eq_ok_iff]
  constructor
  · rintro ⟨-, h⟩
    unfold SignedMessage.signer? at h
    split at h
    · rename_i id' hid
      split at hid
      · rename_i id'' hsigners
        cases hid
        cases h
        exact hsigners
      · cases hid
    · cases h
  · intro h
    simp [SignedMessage.signer?, h, hone]

theorem verifySignature_eq_ok_iff {m : SignedMessage S} :
    verifySignature seat m = .ok () ↔ m.verify seat.committee seat.context.domain = .ok () :=
  mapError_eq_ok_iff

theorem checkType_eq_ok_iff {m : SignedMessage S} {type : MessageType} :
    checkType m type = .ok () ↔ m.type = type := by
  unfold checkType
  split <;> simp [*]

theorem validateBase_eq_ok_iff {m : SignedMessage S} :
    validateBase seat s m = .ok () ↔
      m.identifier = seat.identifier ∧ m.height = s.height ∧ s.round.toNat ≤ m.round.toNat := by
  simp only [validateBase, ite_error_eq_ok_iff, Decidable.not_not, and_true, Round.lt_iff, not_lt]

/-! ### Prepares -/

/-- A prepare of one member for the value with the given root, in a round of a height. -/
structure IsPrepareFor (seat : Seat S) (height : Height) (round : Round) (root : Digest)
    (m : SignedMessage S) : Prop where
  type : m.type = .prepare
  single : ∃ id, m.signers = [id]
  verified : m.verify seat.committee seat.context.domain = .ok ()
  height_eq : m.height = height
  round_eq : m.round = round
  root_eq : m.message.valueRoot? = some root

theorem validatePrepareFor_eq_ok_iff {m : SignedMessage S} {round : Round} {root : Digest}
    {id : OperatorId} :
    checkType m .prepare = .ok () ∧ validatePrepareFor seat s m round root = .ok id ↔
      IsPrepareFor seat s.height round root m ∧ m.signers = [id] := by
  simp only [validatePrepareFor, throw_eq_error, error_bind, bind_eq_ok_iff, exists_unit_iff,
    checkSingleSigner_eq_ok_iff, verifySignature_eq_ok_iff, checkType_eq_ok_iff,
    ite_error_eq_ok_iff, Decidable.not_not, pure_eq_ok, Except.ok.injEq]
  constructor
  · rintro ⟨ht, _, hid, hv, hh, hr, hroot, rfl⟩
    exact ⟨⟨ht, ⟨_, hid⟩, hv, hh, hr, hroot⟩, hid⟩
  · rintro ⟨⟨ht, -, hv, hh, hr, hroot⟩, hid⟩
    exact ⟨ht, id, hid, hv, hh, hr, hroot, rfl⟩

theorem countPrepares_eq_ok_iff {round : Round} {root : Digest} {ms : List (SignedMessage S)}
    {seen : List OperatorId} {n : ℕ} (hseen : seen.Nodup) :
    countPrepares seat s round root seen ms = .ok n ↔
      n = seen.length + ms.length ∧ (∀ m ∈ ms, IsPrepareFor seat s.height round root m) ∧
        (seen ++ ms.flatMap SignedMessage.signers).Nodup := by
  induction ms generalizing seen with
  | nil => simp [countPrepares, hseen, eq_comm]
  | cons m rest ih =>
    simp only [countPrepares, throw_eq_error, error_bind, bind_eq_ok_iff, exists_unit_iff,
      mapError_eq_ok_iff, validatePrepareFor_eq_ok_iff, ite_error_eq_ok_iff, List.forall_mem_cons,
      List.flatMap_cons, List.length_cons]
    -- the signer moves from the head of the list to those that are seen
    constructor
    · rintro ⟨id, ⟨hm, hid⟩, hnew, hrest⟩
      obtain ⟨rfl, hall, hnodup⟩ := (ih (List.nodup_cons.2 ⟨hnew, hseen⟩)).1 hrest
      refine ⟨by simp; omega, ⟨hm, hall⟩, ?_⟩
      rw [hid, List.singleton_append]
      exact (List.perm_middle.nodup_iff).2 hnodup
    · rintro ⟨rfl, ⟨hm, hall⟩, hnodup⟩
      obtain ⟨id, hid⟩ := hm.single
      rw [hid, List.singleton_append] at hnodup
      have hnodup' := (List.perm_middle.nodup_iff).1 hnodup
      have hnew : id ∉ seen := fun hmem =>
        (List.nodup_cons.1 hnodup').1 (List.mem_append_left _ hmem)
      refine ⟨id, ⟨hm, hid⟩, hnew, (ih (List.nodup_cons.2 ⟨hnew, hseen⟩)).2 ⟨?_, hall, hnodup'⟩⟩
      simp
      omega

theorem validatePrepareJustification_eq_ok_iff {round : Round} {root : Digest}
    {ms : List (SignedMessage S)} {n : ℕ} :
    validatePrepareJustification seat s ms round root = .ok n ↔
      n = ms.length ∧ (∀ m ∈ ms, IsPrepareFor seat s.height round root m) ∧
        (ms.flatMap SignedMessage.signers).Nodup := by
  rw [validatePrepareJustification, countPrepares_eq_ok_iff List.nodup_nil]
  simp

/-! ### Round changes -/

/-- A message of one member that asks for a round. If it reports a preparation, this is of a lower
round, and the prepares that come with it are for it and by different members. -/
structure IsRoundChangeFor (seat : Seat S) (height : Height) (round : Round)
    (m : SignedMessage S) : Prop where
  single : ∃ id, m.signers = [id]
  verified : m.verify seat.committee seat.context.domain = .ok ()
  height_eq : m.height = height
  round_eq : m.round = round
  prepared : ∀ r, m.message.preparedRound? = some r →
    r < round ∧ ∃ root, m.message.valueRoot? = some root ∧
      (∀ p ∈ m.message.prepares, IsPrepareFor seat height r root p) ∧
      (m.message.prepares.flatMap SignedMessage.signers).Nodup

theorem validateRoundChange_eq_ok_iff {m : SignedMessage S} {round : Round} :
    validateRoundChange seat s m round = .ok () ↔ IsRoundChangeFor seat s.height round m := by
  simp only [validateRoundChange, throw_eq_error, error_bind, bind_eq_ok_iff, exists_unit_iff,
    checkSingleSigner_eq_ok_iff, verifySignature_eq_ok_iff, ite_error_eq_ok_iff, Decidable.not_not]
  constructor
  · rintro ⟨id, hid, hv, hh, hr, hp⟩
    refine ⟨⟨id, hid⟩, hv, hh, hr, fun r hpr => ?_⟩
    rw [hpr] at hp
    obtain ⟨hlt, hp⟩ := ite_error_eq_ok_iff.1 hp
    cases hroot : m.message.valueRoot? with
    | none => simp [hroot] at hp
    | some root =>
      simp only [hroot, bind_eq_ok_iff, validatePrepareJustification_eq_ok_iff] at hp
      obtain ⟨n, ⟨-, hall, hnodup⟩, -⟩ := hp
      rw [Round.le_iff, not_le] at hlt
      exact ⟨Round.lt_iff.2 hlt, root, rfl, hall, hnodup⟩
  · rintro ⟨⟨id, hid⟩, hv, hh, hr, hp⟩
    refine ⟨id, hid, hv, hh, hr, ?_⟩
    cases hpr : m.message.preparedRound? with
    | none => rfl
    | some r =>
      obtain ⟨hlt, root, hroot, hall, hnodup⟩ := hp r hpr
      refine ite_error_eq_ok_iff.2 ⟨?_, ?_⟩
      · rw [Round.le_iff, not_le]
        exact Round.lt_iff.1 hlt
      · simp only [hroot, bind_eq_ok_iff, validatePrepareJustification_eq_ok_iff]
        exact ⟨_, ⟨rfl, hall, hnodup⟩, rfl⟩

/-! ### Highest preparation -/

/-- The round change of a list with the highest preparation, if any reports one. -/
def IsHighestPrepared (ms : List (SignedMessage S)) : Option (SignedMessage S) → Prop
  | none => ∀ m ∈ ms, m.message.preparedRound? = none
  | some highest => highest ∈ ms ∧ ∃ r, highest.message.preparedRound? = some r ∧
      ∀ m ∈ ms, ∀ r', m.message.preparedRound? = some r' → r'.toNat ≤ r.toNat

theorem highestPreparedAbove_eq (found : Option (Round × SignedMessage S))
    (ms : List (SignedMessage S)) :
    (highestPreparedAbove found ms = found ∧
        ∀ m ∈ ms, ∀ r', m.message.preparedRound? = some r' →
          ∃ best, found = some best ∧ r'.toNat ≤ best.1.toNat) ∨
      ∃ r highest, highestPreparedAbove found ms = some (r, highest) ∧ highest ∈ ms ∧
        highest.message.preparedRound? = some r ∧
        (∀ best, found = some best → best.1.toNat ≤ r.toNat) ∧
        ∀ m ∈ ms, ∀ r', m.message.preparedRound? = some r' → r'.toNat ≤ r.toNat := by
  induction ms generalizing found with
  | nil => exact .inl ⟨rfl, by simp⟩
  | cons m rest ih =>
    unfold highestPreparedAbove
    cases hm : m.message.preparedRound? with
    | none =>
      rcases ih found with ⟨heq, hall⟩ | ⟨r, highest, heq, hmem, hr, hbest, hall⟩
      · refine .inl ⟨heq, List.forall_mem_cons.2 ⟨fun r' h => ?_, hall⟩⟩
        rw [hm] at h
        cases h
      · refine .inr ⟨r, highest, heq, List.mem_cons_of_mem m hmem, hr, hbest,
          List.forall_mem_cons.2 ⟨fun r' h => ?_, hall⟩⟩
        rw [hm] at h
        cases h
    | some round =>
      have hfirst : ∀ {n : ℕ}, round.toNat ≤ n →
          ∀ r', m.message.preparedRound? = some r' → r'.toNat ≤ n := by
        intro n hn r' h
        rw [hm] at h
        cases h
        exact hn
      -- a preparation above the best one so far takes its place
      by_cases habove : (found.all fun best => Decidable.decide (best.1 < round)) = true
      · simp only [habove, if_true]
        have hle : ∀ best, found = some best → best.1.toNat ≤ round.toNat := by
          rintro best rfl
          simp only [Option.all_some, decide_eq_true_eq, Round.lt_iff] at habove
          omega
        rcases ih (some (round, m)) with
          ⟨heq, hall⟩ | ⟨r, highest, heq, hmem, hr, hbest, hall⟩
        · refine .inr ⟨round, m, heq, List.mem_cons_self, hm, hle,
            List.forall_mem_cons.2 ⟨hfirst le_rfl, fun x hx r' h => ?_⟩⟩
          obtain ⟨best, he, hb⟩ := hall x hx r' h
          cases he
          exact hb
        · have hround := hbest _ rfl
          refine .inr ⟨r, highest, heq, List.mem_cons_of_mem m hmem, hr, fun best he => ?_,
            List.forall_mem_cons.2 ⟨hfirst hround, hall⟩⟩
          exact (hle best he).trans hround
      · simp only [habove]
        obtain ⟨best, hfound, hlow⟩ : ∃ best, found = some best ∧ round.toNat ≤ best.1.toNat := by
          cases found with
          | none => simp at habove
          | some best =>
            refine ⟨best, rfl, ?_⟩
            simpa [Round.lt_iff] using habove
        rcases ih found with ⟨heq, hall⟩ | ⟨r, highest, heq, hmem, hr, hbest, hall⟩
        · refine .inl ⟨heq, List.forall_mem_cons.2 ⟨fun r' h => ?_, hall⟩⟩
          exact ⟨best, hfound, hfirst hlow r' h⟩
        · refine .inr ⟨r, highest, heq, List.mem_cons_of_mem m hmem, hr, hbest,
            List.forall_mem_cons.2 ⟨?_, hall⟩⟩
          exact hfirst (hlow.trans (hbest best hfound))

theorem isHighestPrepared_highestPrepared? (ms : List (SignedMessage S)) :
    IsHighestPrepared ms (highestPrepared? ms) := by
  unfold highestPrepared?
  rcases highestPreparedAbove_eq none ms with
    ⟨heq, hall⟩ | ⟨r, highest, heq, hmem, hr, -, hall⟩
  · rw [heq]
    intro m hm
    cases hr : m.message.preparedRound? with
    | none => rfl
    | some r =>
      obtain ⟨_, he, -⟩ := hall m hm r hr
      cases he
  · rw [heq]
    exact ⟨hmem, r, hr, hall⟩

/-! ### Proposals -/

theorem distinct_eq_dedup (ids : List OperatorId) : distinct ids = ids.dedup := by
  induction ids with
  | nil => rfl
  | cons id rest ih =>
    unfold distinct
    split
    · rw [List.dedup_cons_of_mem ‹_›, ih]
    · rw [List.dedup_cons_of_notMem ‹_›, ih]

theorem distinctSigners_eq_card (ms : List (SignedMessage S)) :
    distinctSigners ms = (ms.flatMap SignedMessage.signers).toFinset.card := by
  rw [distinctSigners, distinct_eq_dedup, List.card_toFinset]

/-- What justifies proposing a value in a round above the first: a quorum asks for the round, and
the value is the one with the highest preparation, which comes with the prepares of a quorum. -/
structure ProposalJustified (seat : Seat S) (height : Height) (round : Round) (value : Value S)
    (roundChanges prepares : List (SignedMessage S)) : Prop where
  asked : ∀ m ∈ roundChanges, m.type = .roundChange ∧ IsRoundChangeFor seat height round m
  quorum : seat.committee.quorum ≤ (roundChanges.flatMap SignedMessage.signers).toFinset.card
  highest : ∀ m, highestPrepared? roundChanges = some m →
    ∃ r, m.message.preparedRound? = some r ∧ m.message.valueRoot? = some value.root ∧
      (∀ p ∈ prepares, IsPrepareFor seat height r value.root p) ∧
      (prepares.flatMap SignedMessage.signers).Nodup ∧
      seat.committee.quorum ≤ prepares.length

theorem validateProposalJustification_eq_ok_iff {round : Round} {value : Value S}
    {roundChanges prepares : List (SignedMessage S)} :
    validateProposalJustification seat s round value roundChanges prepares = .ok () ↔
      seat.context.checkValue value = .ok () ∧
        (round = Round.first ∨
          ProposalJustified seat s.height round value roundChanges prepares) := by
  simp only [validateProposalJustification, throw_eq_error, error_bind, bind_eq_ok_iff,
    exists_unit_iff, mapError_eq_ok_iff]
  refine and_congr_right fun _ => ?_
  by_cases hround : round = Round.first
  · simp [hround]
  simp only [hround, if_false, false_or, forM_eq_ok_iff, bind_eq_ok_iff, exists_unit_iff,
    mapError_eq_ok_iff, checkType_eq_ok_iff, validateRoundChange_eq_ok_iff, ite_error_eq_ok_iff,
    not_lt, distinctSigners_eq_card]
  constructor
  · rintro ⟨hrcs, hq, hhigh⟩
    refine ⟨hrcs, hq, fun m hm => ?_⟩
    rw [hm] at hhigh
    cases hr : m.message.preparedRound? with
    | none => simp [hr] at hhigh
    | some r =>
      cases hroot : m.message.valueRoot? with
      | none => simp [hr, hroot] at hhigh
      | some root =>
        simp only [hr, hroot, ite_error_eq_ok_iff, bind_eq_ok_iff, Decidable.not_not, not_lt,
          validatePrepareJustification_eq_ok_iff] at hhigh
        obtain ⟨rfl, n, ⟨rfl, hall, hnodup⟩, hn, -⟩ := hhigh
        exact ⟨r, rfl, rfl, hall, hnodup, hn⟩
  · rintro ⟨hrcs, hq, hhigh⟩
    refine ⟨hrcs, hq, ?_⟩
    cases hm : highestPrepared? roundChanges with
    | none => rfl
    | some m =>
      obtain ⟨r, hr, hroot, hall, hnodup, hn⟩ := hhigh m hm
      simp only [hr, hroot, ite_error_eq_ok_iff, bind_eq_ok_iff, Decidable.not_not, not_lt,
        validatePrepareJustification_eq_ok_iff]
      exact ⟨trivial, _, ⟨rfl, hall, hnodup⟩, hn, rfl⟩

theorem validateProposal_eq_ok_iff {m : SignedMessage S} :
    validateProposal seat s m = .ok () ↔
      (∃ id, m.signers = [id] ∧ leader seat s m.round = .ok id) ∧
        m.verify seat.committee seat.context.domain = .ok () ∧
        (∃ value, m.message.value? = some value ∧
          validateProposalJustification seat s m.round value m.message.roundChanges
            m.message.prepares = .ok ()) ∧
        (m.round = s.round ∧ s.accepted = none ∨ s.round.toNat < m.round.toNat) := by
  simp only [validateProposal, throw_eq_error, error_bind, bind_eq_ok_iff, exists_unit_iff,
    checkSingleSigner_eq_ok_iff, verifySignature_eq_ok_iff, ite_error_eq_ok_iff, Decidable.not_not]
  have hfresh : ¬ (¬ (m.round = s.round ∧ s.accepted.isNone = true) ∧ m.round ≤ s.round) ↔
      (m.round = s.round ∧ s.accepted = none ∨ s.round.toNat < m.round.toNat) := by
    rw [Round.le_iff, Option.isNone_iff_eq_none, not_and_or, Decidable.not_not, not_le]
  constructor
  · rintro ⟨id, hid, hv, l, hl, rfl, hvalue⟩
    cases hval : m.message.value? with
    | none => simp [hval] at hvalue
    | some value =>
      simp only [hval, bind_eq_ok_iff, exists_unit_iff, ite_error_eq_ok_iff, hfresh] at hvalue
      exact ⟨⟨id, hid, hl⟩, hv, ⟨value, rfl, hvalue.1⟩, hvalue.2.1⟩
  · rintro ⟨⟨id, hid, hl⟩, hv, ⟨value, hval, hj⟩, hfr⟩
    refine ⟨id, hid, hv, id, hl, rfl, ?_⟩
    simp only [hval, bind_eq_ok_iff, exists_unit_iff, ite_error_eq_ok_iff, hfresh]
    exact ⟨hj, hfr, rfl⟩

/-! ### Votes -/

theorem validateVote_eq_ok_iff {m : SignedMessage S} :
    validateVote seat s m = .ok () ↔
      ∃ proposal, s.accepted = some proposal ∧ m.round = proposal.round ∧
        m.message.valueRoot? = proposal.message.valueRoot? ∧ (∃ id, m.signers = [id]) ∧
        m.verify seat.committee seat.context.domain = .ok () := by
  simp only [validateVote, throw_eq_error, error_bind, bind_eq_ok_iff, exists_unit_iff,
    mapError_eq_ok_iff]
  cases hacc : s.accepted with
  | none => simp
  | some proposal =>
    simp only [ite_error_eq_ok_iff, bind_eq_ok_iff, checkSingleSigner_eq_ok_iff,
      verifySignature_eq_ok_iff, Decidable.not_not, Option.some.injEq, exists_eq_left']
    constructor
    · rintro ⟨-, hr, hroot, id, hid, hv⟩
      exact ⟨hr, hroot, ⟨id, hid⟩, hv⟩
    · rintro ⟨hr, hroot, ⟨id, hid⟩, hv⟩
      exact ⟨(SignedMessage.verify_eq_ok_iff.1 hv).1, hr, hroot, id, hid, hv⟩

end Instance
end Conclave
