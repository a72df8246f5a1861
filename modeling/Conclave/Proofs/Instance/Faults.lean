import Conclave.Proofs.Faults
import Conclave.Proofs.Instance.Rejection

/-!
# Faults of an instance

An instance goes down when a sum of heights and rounds leaves the 64-bit numbers. There are two such
sums: the position of the proposer of a round, and the round after the current one.

* `Faults` says that an operation went down;
* the checks of messages do not, except that a proposal asks for the proposer of its round
  (`faults_validateProposal_iff`);
* `Fatal` lists the messages that take an instance down when members propose in turn, and
  `faults_receive_iff` says that there are no others;
* timeouts never do (`not_faults_timeout`), since an instance that runs is below its cutoff.
-/

namespace Conclave
namespace Instance

variable {S : Scheme}

@[simp] theorem Error.fault?_eq_some_iff {e : Error} {f : Fault} :
    e.fault? = some f ↔ e = .fault f := by
  cases e <;> simp [fault?]

/-! ### Checks -/

section Checks

variable {seat : Seat S} {s : Instance S} {m : SignedMessage S}

/-- A check that turns messages away does nothing worse. -/
theorem Rejects.not_faults {α : Type} {x : Except Error α} (h : Rejects x) :
    ¬ Faults Error.fault? x :=
  Faults.not_of_failsOnly h fun e he => by
    cases e <;> first | rfl | cases he

/-- Only the proposer of its round is computed for a proposal, and only once its signature is
checked. -/
theorem faults_validateProposal_iff : Faults Error.fault? (validateProposal seat s m) ↔
    (∃ id, m.signers = [id]) ∧ m.verify seat.committee seat.context.domain = .ok () ∧
      Faults Error.fault? (leader seat s m.round) := by
  have hsigner := (rejects_checkSingleSigner m).not_faults
  have hsignature := (rejects_verifySignature seat m).not_faults
  cases hvalue : m.message.value? with
  | none =>
    simp [validateProposal, hvalue, hsigner, hsignature, checkSingleSigner_eq_ok_iff,
      verifySignature_eq_ok_iff, exists_unit_iff]
  | some value =>
    simp [validateProposal, hvalue, hsigner, hsignature, checkSingleSigner_eq_ok_iff,
      verifySignature_eq_ok_iff, exists_unit_iff,
      (rejects_validateProposalJustification _ _ _ _).not_faults]

end Checks

/-! ### Transitions -/

section Transitions

variable {seat : Seat S} {net : Network S} {s : Instance S} {m : SignedMessage S} {round : Round}

theorem faults_undecided_iff {o : Step S (Instance S) Error Unit} :
    Faults Error.fault? (undecided o).answer ↔ Faults Error.fault? o.answer := by
  cases hanswer : o.answer with
  | error e => simp [undecided, Step.mapAnswer, Except.map, hanswer]
  | ok a => simp [undecided, Step.mapAnswer, Except.map, hanswer]

theorem faults_onPropose_iff :
    Faults Error.fault? (onPropose seat net s m).answer ↔
      Faults Error.fault? (validateProposal seat s m) := by
  unfold onPropose
  split
  · rename_i e hvalid
    rw [hvalid]
    exact Faults.refuse_iff
  · rename_i hvalid
    rw [hvalid]
    refine iff_of_false ?_ (Faults.not_ok ())
    split
    · simp [Step.refuse]
    dsimp only
    split
    · exact Faults.not_mapError fun _ => rfl
    · exact Faults.not_mapError fun _ => rfl

theorem not_faults_onPrepare : ¬ Faults Error.fault? (onPrepare seat net s m).answer := by
  unfold onPrepare
  have hvote : ¬ Faults Error.fault? (validateVote seat s m) := (rejects_validateVote m).not_faults
  split
  · rename_i e hvalid
    rw [hvalid] at hvote
    rwa [Faults.refuse_iff]
  split
  · exact Faults.not_ok ()
  dsimp only
  split
  · simp [Step.refuse]
  split
  · exact Faults.not_ok ()
  split
  · exact Faults.not_mapError fun _ => rfl
  · exact Faults.not_ok ()

theorem not_faults_onCommit : ¬ Faults Error.fault? (onCommit seat s m).answer := by
  unfold onCommit
  have hvote : ¬ Faults Error.fault? (validateVote seat s m) := (rejects_validateVote m).not_faults
  split
  · rename_i e hvalid
    rw [hvalid] at hvote
    rwa [Faults.refuse_iff]
  split
  · exact Faults.not_ok none
  dsimp only
  split
  · exact Faults.not_ok none
  split
  · simp [Step.refuse]
  split
  · split
    · simp [Step.refuse]
    · exact Faults.not_ok _
  · exact Faults.not_ok none

/-- This member proposes in a round, since it leads it and a quorum asks for it. -/
structure Proposes (seat : Seat S) (s : Instance S) (round : Round) : Prop where
  round_le : s.round.toNat ≤ round.toNat
  first : s.proposedRound ≠ some round
  leader : leader seat s round = .ok seat.signer.id
  quorum : seat.committee.quorum ≤ distinctSigners (backing seat s round)
  proposal : ∃ value prepares, proposalFor s (backing seat s round) = .ok (some (value, prepares))

theorem faults_isLeader_iff :
    Faults Error.fault? (isLeader seat s round) ↔ Faults Error.fault? (leader seat s round) := by
  simp [isLeader]

theorem isLeader_eq_ok_true_iff :
    isLeader seat s round = .ok true ↔ leader seat s round = .ok seat.signer.id := by
  refine ⟨isLeader_eq_ok_true, fun h => ?_⟩
  simp [isLeader, h]

/-- It enters the round exactly if it proposes in it. -/
theorem proposeOnQuorum_round (seat : Seat S) (net : Network S) (s : Instance S) (round : Round) :
    (proposeOnQuorum seat net s round).state.round = s.round ∨
      Proposes seat s round ∧ (proposeOnQuorum seat net s round).state.round = round := by
  unfold proposeOnQuorum
  split
  · exact .inl rfl
  rename_i hfirst
  rw [not_or, Round.lt_iff, not_lt] at hfirst
  split
  · exact .inl rfl
  · exact .inl rfl
  rename_i hleader
  dsimp only
  split
  · exact .inl rfl
  rename_i hquorum
  split
  · exact .inl rfl
  · exact .inl rfl
  rename_i value prepares hproposal
  have hproposes : Proposes seat s round := ⟨hfirst.1, hfirst.2, isLeader_eq_ok_true hleader,
    Committee.isQuorum_iff.1 (Decidable.not_not.1 hquorum), value, prepares, hproposal⟩
  split
  · exact .inr ⟨hproposes, rfl⟩
  · exact .inl rfl

theorem round_of_proposes (h : Proposes seat s round) :
    (proposeOnQuorum seat net s round).state.round = round := by
  obtain ⟨hround, hfirst, hleader, hquorum, value, prepares, hproposal⟩ := h
  have hguard : ¬ (round < s.round ∨ s.proposedRound = some round) := by
    rw [not_or, Round.lt_iff, not_lt]
    exact ⟨hround, hfirst⟩
  have hquorum := Committee.isQuorum_iff.2 hquorum
  unfold backing at hquorum hproposal
  unfold proposeOnQuorum
  rw [if_neg hguard, isLeader_eq_ok_true_iff.2 hleader]
  dsimp only
  rw [if_neg (not_not.2 hquorum), hproposal]
  dsimp only
  split
  · rfl
  · rename_i hlt
    rw [Round.lt_iff] at hlt
    exact Round.toNat_inj.1 (by change s.round.toNat = _; omega)

theorem faults_proposeOnQuorum_iff : Faults Error.fault? (proposeOnQuorum seat net s round).answer ↔
    s.round.toNat ≤ round.toNat ∧ s.proposedRound ≠ some round ∧
      Faults Error.fault? (leader seat s round) := by
  unfold proposeOnQuorum
  split
  · rename_i hguard
    refine iff_of_false (Faults.not_ok ()) ?_
    rw [Round.lt_iff] at hguard
    rintro ⟨hround, hfirst, -⟩
    rcases hguard with hlt | hproposed
    · omega
    · exact hfirst hproposed
  rename_i hguard
  rw [not_or, Round.lt_iff, not_lt] at hguard
  have hleads : ∀ b, isLeader seat s round = .ok b → ¬ (s.round.toNat ≤ round.toNat ∧
      s.proposedRound ≠ some round ∧ Faults Error.fault? (leader seat s round)) := by
    rintro b hb ⟨-, -, hfaults⟩
    rw [← faults_isLeader_iff, hb] at hfaults
    exact Faults.not_ok b hfaults
  split
  · rename_i e he
    rw [← faults_isLeader_iff, he]
    exact ⟨fun h => ⟨hguard.1, hguard.2, Faults.refuse_iff.1 h⟩, fun h => Faults.refuse_iff.2 h.2.2⟩
  · rename_i hleader
    exact iff_of_false (Faults.not_ok ()) (hleads _ hleader)
  · rename_i hleader
    refine iff_of_false ?_ (hleads _ hleader)
    dsimp only
    split
    · exact Faults.not_ok ()
    split
    · rename_i e he
      obtain ⟨proposal, hproposal⟩ := exists_proposalFor (s := s) _
      rw [hproposal] at he
      cases he
    · exact Faults.not_ok ()
    · split
      · exact Faults.not_mapError fun _ => rfl
      · exact Faults.not_mapError fun _ => rfl

/-- There is no round to follow to from the last one, and asking for it is a fault. -/
theorem faults_skipAhead_iff :
    Faults Error.fault? (skipAhead seat net s).answer ↔ s.round.toNat + 1 = UInt64.size := by
  rw [← Round.next?_eq_error_iff]
  unfold skipAhead
  split
  · rename_i e he
    refine iff_of_true ⟨_, e, rfl, rfl⟩ ?_
    cases hnext : s.round.next? with
    | error f => exact ⟨f, rfl⟩
    | ok next => simp [Tally.aboveRound?, hnext] at he
  · rename_i above habove
    obtain ⟨next, hnext, -⟩ := bind_eq_ok_iff.1 habove
    rw [hnext]
    refine iff_of_false ?_ (by simp)
    split
    · exact Faults.not_ok ()
    split
    · exact Faults.not_ok ()
    · exact Faults.not_mapError fun _ => rfl

theorem faults_both_iff {first : Step S (Instance S) Error Unit}
    {second : Instance S → Step S (Instance S) Error Unit} :
    Faults Error.fault? (both first second).answer ↔
      Faults Error.fault? first.answer ∨ Faults Error.fault? (second first.state).answer := by
  unfold both
  split
  · rename_i f hfirst
    exact iff_of_true ⟨_, f, hfirst, rfl⟩ (.inl ⟨_, f, hfirst, rfl⟩)
  · rename_i hfirst
    have hnot : ¬ Faults Error.fault? first.answer := by
      rintro ⟨e, f, he, hf⟩
      rw [Error.fault?_eq_some_iff.1 hf] at he
      exact hfirst f he
    rw [or_iff_right hnot]
    dsimp only
    -- an error of the first transition is reported in place of one of the second, faults apart
    split
    · rename_i f hsecond
      rw [hsecond]
    · rename_i hanswer hsecond
      refine iff_of_false (hanswer ▸ hnot) ?_
      rintro ⟨e, f, he, hf⟩
      rw [Error.fault?_eq_some_iff.1 hf] at he
      exact hsecond f he
    · rfl

/-- Answering a quorum and following a partial one go down if the proposer of the round cannot be
computed, or if this member proposes in the last round. -/
theorem faults_answer_iff (hround : s.round.toNat ≤ round.toNat)
    (hlast : s.round.toNat + 1 ≠ UInt64.size) :
    Faults Error.fault? (both (proposeOnQuorum seat net s round) (skipAhead seat net)).answer ↔
      s.proposedRound ≠ some round ∧ Faults Error.fault? (leader seat s round) ∨
        round.toNat + 1 = UInt64.size ∧ Proposes seat s round := by
  rw [faults_both_iff, faults_proposeOnQuorum_iff, faults_skipAhead_iff]
  refine or_congr ⟨fun h => h.2, fun h => ⟨hround, h⟩⟩ ⟨fun h => ?_, fun ⟨hend, hproposes⟩ => ?_⟩
  · rcases proposeOnQuorum_round seat net s round with hstay | ⟨hproposes, henter⟩
    · rw [hstay] at h
      exact absurd h hlast
    · rw [henter] at h
      exact ⟨h, hproposes⟩
  · rw [round_of_proposes hproposes]
    exact hend

theorem faults_onRoundChange_iff (hround : s.round.toNat ≤ m.round.toNat)
    (hlast : s.round.toNat + 1 ≠ UInt64.size) :
    Faults Error.fault? (onRoundChange seat net s m).answer ↔
      validateRoundChange seat s m m.round = .ok () ∧ s.roundChanges.hasSignerOf m = false ∧
        s.decided = none ∧
        (s.proposedRound ≠ some m.round ∧ Faults Error.fault? (leader seat s m.round) ∨
          m.round.toNat + 1 = UInt64.size ∧
            Proposes seat { s with roundChanges := s.roundChanges.add m } m.round) := by
  unfold onRoundChange
  split
  · rename_i e hvalid
    have hnot : ¬ Faults Error.fault? (validateRoundChange seat s m m.round) :=
      (rejects_validateRoundChange m m.round).not_faults
    rw [hvalid] at hnot ⊢
    refine iff_of_false ?_ nofun
    rwa [Faults.refuse_iff]
  rename_i hvalid
  split
  · rename_i hadd
    refine iff_of_false (Faults.not_ok ()) ?_
    rintro ⟨-, hnew, -⟩
    simp [Tally.addFirst?, hnew] at hadd
  rename_i roundChanges hadd
  obtain ⟨hnew, rfl⟩ := Tally.addFirst?_eq_some hadd
  dsimp only
  split
  · rename_i hdecided
    refine iff_of_false (Faults.not_ok ()) ?_
    rintro ⟨-, -, hopen, -⟩
    simp [isDecided, hopen] at hdecided
  rename_i hopen
  have hopen : s.decided = none := by simpa [isDecided] using hopen
  have hanswer := @faults_answer_iff S seat net { s with roundChanges := s.roundChanges.add m }
    m.round hround hlast
  exact hanswer.trans ⟨fun h => ⟨hvalid, hnew, hopen, h⟩, fun h => h.2.2.2⟩

/-- An instance that runs is below its cutoff, so that there is a next round. -/
theorem not_faults_timeout : ¬ Faults Error.fault? (timeout seat net s round).answer := by
  unfold timeout
  split
  · simp [Step.refuse]
  rename_i hrunning
  split
  · exact Faults.not_ok ()
  rename_i hcurrent
  obtain rfl := Decidable.not_not.1 (not_or.1 hcurrent).2
  split
  · rename_i f hnext
    have hend := Round.next?_eq_error_iff.1 ⟨f, hnext⟩
    have hcutoff : seat.cutoff.toNat < UInt64.size := seat.cutoff.word.toNat_lt
    rw [stopped, decide_eq_true_eq, Round.le_iff] at hrunning
    omega
  · exact Faults.not_mapError fun _ => rfl

end Transitions

/-! ### Members that propose in turn -/

section RoundRobin

variable {seat : Seat S} {net : Network S} {s : Instance S} {m : SignedMessage S} {round : Round}
  {height : Height} {domain : Domain}

theorem faults_leader_iff (hcontext : seat.context = .roundRobin domain)
    (hsize : 0 < seat.committee.size) (hround : 1 ≤ round.toNat) :
    Faults Error.fault? (leader seat s round) ↔ UInt64.size ≤ s.height.toNat + round.toNat := by
  have hproposer : seat.context.proposer = Context.proposerInTurn := by rw [hcontext]; rfl
  rw [← not_lt, ← Context.proposerInTurn_eq_ok_iff hsize hround, leader, hproposer]
  cases Context.proposerInTurn seat.committee s.height round with
  | error f =>
    refine iff_of_true ⟨_, f, rfl, rfl⟩ ?_
    rintro ⟨id, hid⟩
    cases hid
  | ok id => exact iff_of_false (Faults.not_ok id) (not_not.2 ⟨id, rfl⟩)

/-- This member proposes to a quorum in a round that it leads. -/
theorem Move.proposedRound {u : Instance S} {e : Event S} {effects : List (Effect S)}
    {decision : Option (Decision S)} (h : Move seat s e effects decision u) :
    u.proposedRound = s.proposedRound ∨
      ∃ round, u.proposedRound = some round ∧ leader seat s round = .ok seat.signer.id := by
  cases h with
  | propose htype hopen hround hfirst hleader hquorum hproposal => exact .inr ⟨_, rfl, hleader⟩
  | start hnew => exact .inl rfl
  | lead hnew hround hleader => exact .inl rfl
  | accept hreach htype hvalid hvalue => exact .inl rfl
  | storePrepare hreach htype hvalid hnew => exact .inl rfl
  | prepare hreach htype hvalid hnew hvalue hfirst hquorum => exact .inl rfl
  | storeCommit hreach htype hvalid hnew => exact .inl rfl
  | decide hreach htype hvalid hnew hopen hvalue hquorum hcommit => exact .inl rfl
  | storeRoundChange hreach htype hvalid hnew => exact .inl rfl
  | follow htype hopen habove hquorum hlowest hlt => exact .inl rfl
  | expire hrunning hopen hnext => exact .inl rfl
  | learn hopen hvalue hroot => exact .inl rfl

/-- The proposer has been computed for the round in which this member has proposed last. -/
theorem Reachable.leader_proposedRound (h : Reachable seat height s)
    (hproposed : s.proposedRound = some round) : leader seat s round = .ok seat.signer.id := by
  induction h generalizing round with
  | new => cases hproposed
  | @next s net e _ _ ih =>
    revert round
    refine Trace.extend_induct (t := ⟨s, [], []⟩) (P := fun t => ∀ {round},
      t.state.proposedRound = some round → leader seat t.state round = .ok seat.signer.id) ih ?_
    intro t effects decision u ht hmove round hproposed
    rw [Trace.state_after] at hproposed ⊢
    rw [leader_congr hmove.turn.1]
    rcases hmove.proposedRound with hsame | ⟨round', hnew, hleader⟩
    · exact ht (hsame ▸ hproposed)
    · obtain rfl := Option.some.inj (hnew.symm.trans hproposed)
      exact hleader

/-- The messages that take an instance down: those that reach it and whose height and round have no
sum, if they are valid proposals as far as their signature goes, or round changes that are stored
before a decision; and the round change that makes this member propose in the last round. -/
inductive Fatal (seat : Seat S) (s : Instance S) (m : SignedMessage S) : Prop
  | proposal (hreach : Reaches seat s m) (htype : m.type = .propose)
      (hsingle : ∃ id, m.signers = [id])
      (hverify : m.verify seat.committee seat.context.domain = .ok ())
      (hsum : UInt64.size ≤ m.height.toNat + m.round.toNat) : Fatal seat s m
  | roundChange (hreach : Reaches seat s m) (htype : m.type = .roundChange)
      (hvalid : validateRoundChange seat s m m.round = .ok ())
      (hnew : s.roundChanges.hasSignerOf m = false) (hopen : s.decided = none)
      (hsum : UInt64.size ≤ m.height.toNat + m.round.toNat) : Fatal seat s m
  | lastRound (hreach : Reaches seat s m) (htype : m.type = .roundChange)
      (hvalid : validateRoundChange seat s m m.round = .ok ())
      (hnew : s.roundChanges.hasSignerOf m = false) (hopen : s.decided = none)
      (hlast : m.round.toNat + 1 = UInt64.size)
      (hproposes : Proposes seat { s with roundChanges := s.roundChanges.add m } m.round) :
      Fatal seat s m

theorem Fatal.reaches (h : Fatal seat s m) : Reaches seat s m := by
  cases h with
  | proposal hreach => exact hreach
  | roundChange hreach => exact hreach
  | lastRound hreach => exact hreach

/-- Only proposals and round changes are fatal. -/
theorem Fatal.type (h : Fatal seat s m) : m.type = .propose ∨ m.type = .roundChange := by
  cases h with
  | proposal _ htype => exact .inl htype
  | roundChange _ htype => exact .inr htype
  | lastRound _ htype => exact .inr htype

/-- A message that does not reach an instance is refused. -/
theorem reaches_of_faults_receive (h : Faults Error.fault? (receive seat net s m).answer) :
    Reaches seat s m := by
  unfold receive at h
  split at h
  · simp [Step.refuse] at h
  rename_i hrunning
  split at h
  · rename_i e hbase
    have hnot : ¬ Faults Error.fault? (validateBase seat s m) := by simp [validateBase]
    rw [hbase] at hnot
    exact absurd (Faults.refuse_iff.1 h) hnot
  · rename_i hbase
    obtain ⟨hid, hheight, hround⟩ := validateBase_eq_ok_iff.1 hbase
    exact ⟨by simpa using hrunning, hid, hheight, hround⟩

/-- A message that reaches an instance is handled by its kind. -/
theorem faults_receive_of_reaches (h : Reaches seat s m) :
    Faults Error.fault? (receive seat net s m).answer ↔
      m.type = .propose ∧ Faults Error.fault? (validateProposal seat s m) ∨
        m.type = .roundChange ∧ Faults Error.fault? (onRoundChange seat net s m).answer := by
  have hrunning : ¬ s.stopped seat = true := by simp [h.running]
  have hbase : validateBase seat s m = .ok () :=
    validateBase_eq_ok_iff.2 ⟨h.identifier_eq, h.height_eq, h.round_le⟩
  unfold receive
  rw [if_neg hrunning, hbase]
  dsimp only
  split
  · rename_i htype
    rw [faults_undecided_iff, faults_onPropose_iff]
    simp [htype]
  · rename_i htype
    rw [faults_undecided_iff]
    simp [htype, not_faults_onPrepare]
  · rename_i htype
    simp [htype, not_faults_onCommit]
  · rename_i htype
    rw [faults_undecided_iff]
    simp [htype]

/-- No other message takes an instance down. -/
theorem faults_receive_iff (hcontext : seat.context = .roundRobin domain)
    (hsize : 0 < seat.committee.size) (h : Reachable seat height s) :
    Faults Error.fault? (receive seat net s m).answer ↔ Fatal seat s m := by
  by_cases hreach : Reaches seat s m
  swap
  · exact iff_of_false (fun hfaults => hreach (reaches_of_faults_receive hfaults))
      fun hfatal => hreach hfatal.reaches
  have hpos : 1 ≤ m.round.toNat := h.sound.first_le.trans hreach.round_le
  have hleader : Faults Error.fault? (leader seat s m.round) ↔
      UInt64.size ≤ m.height.toNat + m.round.toNat := by
    rw [faults_leader_iff hcontext hsize hpos, hreach.height_eq]
  have hlast : s.round.toNat + 1 ≠ UInt64.size := by
    have hrunning := hreach.running
    have hcutoff : seat.cutoff.toNat < UInt64.size := seat.cutoff.word.toNat_lt
    rw [stopped, decide_eq_false_iff_not, Round.le_iff] at hrunning
    omega
  rw [faults_receive_of_reaches hreach, faults_validateProposal_iff,
    faults_onRoundChange_iff hreach.round_le hlast, hleader]
  constructor
  · rintro (⟨htype, hsingle, hverify, hsum⟩ |
      ⟨htype, hvalid, hnew, hopen, ⟨-, hsum⟩ | ⟨hend, hproposes⟩⟩)
    · exact .proposal hreach htype hsingle hverify hsum
    · exact .roundChange hreach htype hvalid hnew hopen hsum
    · exact .lastRound hreach htype hvalid hnew hopen hend hproposes
  · rintro (⟨-, htype, hsingle, hverify, hsum⟩ | ⟨-, htype, hvalid, hnew, hopen, hsum⟩ |
      ⟨-, htype, hvalid, hnew, hopen, hend, hproposes⟩)
    · exact .inl ⟨htype, hsingle, hverify, hsum⟩
    · refine .inr ⟨htype, hvalid, hnew, hopen, .inl ⟨fun hproposed => ?_, hsum⟩⟩
      -- this member cannot have proposed in a round whose proposer cannot be computed
      have hok := h.leader_proposedRound hproposed
      rw [← hleader, hok] at hsum
      exact Faults.not_ok _ hsum
    · exact .inr ⟨htype, hvalid, hnew, hopen, .inr ⟨hend, hproposes⟩⟩

end RoundRobin
end Instance
end Conclave
