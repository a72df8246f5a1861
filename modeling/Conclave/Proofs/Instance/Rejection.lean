import Conclave.Proofs.Instance.Invariant

/-!
# Rejection

A message that is turned away leaves no trace. An instance checks a message before it acts on it,
and once it has stored one, only the network can fail: the value that is looked up is there, because
what is accepted are proposals, and the commits that are combined go together, because they are by
different signers over the same content.

* `Error.isRejection` tells the errors that turn a message away; `Rejects` says that a check has no
  others, which holds of all of them, apart from the proposer of a proposal's round;
* `Completes` says that an operation fails at most to send;
* `Coherent` is what the late lookups rely on, and `Run.coherent` says that it always holds;
* `receive_atomic` puts these together: an instance turns a message away and does nothing, or it
  completes.

Nothing is assumed about the decisions that an instance learns, since it looks up nothing once it
has decided.
-/

namespace Conclave
namespace Instance

variable {S : Scheme}

/-- Whether an error turns a message away. The others are for what is missing or does not fit after
the state has changed, for what is not sent, and for an instance that goes down. -/
def Error.isRejection : Error → Bool
  | .missingProposal | .aggregation _ | .broadcast _ | .fault _ => false
  | _ => true

/-- A check fails only with errors that turn a message away. -/
def Rejects {α : Type} (x : Except Error α) : Prop :=
  FailsOnly (fun e => e.isRejection = true) x

/-! ### Checks -/

section Checks

variable {seat : Seat S} {s : Instance S} {m : SignedMessage S}

theorem rejects_validateBase : Rejects (validateBase seat s m) :=
  .guard rfl fun _ => .guard rfl fun _ => .guard rfl fun _ => .ok ()

theorem rejects_checkSingleSigner (m : SignedMessage S) : Rejects (checkSingleSigner m) := by
  refine .bind (.mapError fun _ => rfl) fun _ _ => ?_
  split
  · exact .ok _
  · exact .error rfl

theorem rejects_verifySignature (seat : Seat S) (m : SignedMessage S) :
    Rejects (verifySignature seat m) :=
  .mapError fun _ => rfl

theorem rejects_countPrepares (round : Round) (root : Digest) (seen : List OperatorId)
    (ms : List (SignedMessage S)) : Rejects (countPrepares seat s round root seen ms) := by
  induction ms generalizing seen with
  | nil => exact .ok _
  | cons m rest ih =>
    exact .bind (.mapError fun _ => rfl) fun signer _ => .guard rfl fun _ => ih _

theorem rejects_validatePrepareJustification (prepares : List (SignedMessage S)) (round : Round)
    (root : Digest) : Rejects (validatePrepareJustification seat s prepares round root) :=
  rejects_countPrepares round root [] prepares

/-- A message that reports a preparation names the root of its value. -/
theorem exists_valueRoot?_of_preparedRound? {round : Round}
    (h : m.message.preparedRound? = some round) : ∃ root, m.message.valueRoot? = some root := by
  obtain ⟨value, hvalue⟩ := Message.exists_value?_of_preparedRound? h
  exact ⟨value.root, Message.valueRoot?_eq_some hvalue⟩

theorem rejects_validateRoundChange (m : SignedMessage S) (round : Round) :
    Rejects (validateRoundChange seat s m round) := by
  refine .bind (rejects_checkSingleSigner m) fun _ _ => ?_
  refine .bind (rejects_verifySignature seat m) fun _ _ => ?_
  refine .guard rfl fun _ => .guard rfl fun _ => ?_
  split
  · exact .ok ()
  · rename_i preparedRound hround
    obtain ⟨root, hroot⟩ := exists_valueRoot?_of_preparedRound? hround
    refine .guard rfl fun _ => ?_
    rw [hroot]
    exact .bind (rejects_validatePrepareJustification _ _ _) fun _ _ => .ok ()

/-- The round change that a proposal has to follow reports a preparation. -/
theorem exists_preparedRound?_of_highestPrepared? {ms : List (SignedMessage S)}
    (h : highestPrepared? ms = some m) : ∃ round, m.message.preparedRound? = some round := by
  have hhighest := isHighestPrepared_highestPrepared? ms
  rw [h] at hhighest
  obtain ⟨-, round, hround, -⟩ := hhighest
  exact ⟨round, hround⟩

theorem rejects_validateProposalJustification (round : Round) (value : Value S)
    (roundChanges prepares : List (SignedMessage S)) :
    Rejects (validateProposalJustification seat s round value roundChanges prepares) := by
  refine .bind (.mapError fun _ => rfl) fun _ _ => ?_
  split
  · exact .ok ()
  refine .bind (.forM fun m _ => .mapError fun _ => rfl) fun _ _ => .guard rfl fun _ => ?_
  split
  · exact .ok ()
  · rename_i highest hhighest
    obtain ⟨preparedRound, hround⟩ := exists_preparedRound?_of_highestPrepared? hhighest
    obtain ⟨root, hroot⟩ := exists_valueRoot?_of_preparedRound? hround
    rw [hround, hroot]
    refine .guard rfl fun _ => ?_
    exact .bind (rejects_validatePrepareJustification _ _ _) fun _ _ => .guard rfl fun _ => .ok ()

theorem rejects_validateVote (m : SignedMessage S) : Rejects (validateVote seat s m) := by
  refine .bind (.mapError fun _ => rfl) fun _ _ => ?_
  split
  · exact .error rfl
  · refine .guard rfl fun _ => .guard rfl fun _ => ?_
    exact .bind (rejects_checkSingleSigner m) fun _ _ => rejects_verifySignature seat m

theorem leader_congr {u : Instance S} (hheight : u.height = s.height) (round : Round) :
    leader seat u round = leader seat s round := by
  rw [leader, leader, hheight]

theorem leader_failsOnly (round : Round) :
    FailsOnly (fun e => ∃ f, e = Error.fault f) (leader seat s round) :=
  .mapError fun f => ⟨f, rfl⟩

/-- A proposal is turned away, unless the proposer of its round cannot be computed. -/
theorem validateProposal_failsOnly (htype : m.type = .propose) :
    FailsOnly (fun e => e.isRejection = true ∨ ∃ f, e = .fault f) (validateProposal seat s m) := by
  obtain ⟨value, hvalue⟩ := Message.exists_value?_of_propose htype
  refine .bind ((rejects_checkSingleSigner m).mono fun _ => .inl) fun signer _ => ?_
  refine .bind ((rejects_verifySignature seat m).mono fun _ => .inl) fun _ _ => ?_
  refine .bind ((leader_failsOnly m.round).mono fun _ => .inr) fun id _ => .guard (.inl rfl) ?_
  intro _
  rw [hvalue]
  refine .bind ((rejects_validateProposalJustification _ _ _ _).mono fun _ => .inl) fun _ _ => ?_
  exact .guard (.inl rfl) fun _ => .ok ()

end Checks

/-! ### What follows the checks -/

/-- An operation fails at most to send, unless the instance goes down. -/
def Completes {α : Type} (o : Step S (Instance S) Error α) : Prop :=
  FailsOnly (fun e => e.isSideEffect = true ∨ ∃ f, e = .fault f) o.answer

/-- An operation turns its message away and does nothing, or it completes. -/
def Atomic {α : Type} (s : Instance S) (o : Step S (Instance S) Error α) : Prop :=
  (∃ e, e.isRejection = true ∧ o = .refuse s e) ∨ Completes o

section Completion

variable {seat : Seat S} {net : Network S} {s : Instance S} {m : SignedMessage S}

theorem completes_done {α : Type} (a : α) :
    Completes (.done s a : Step S (Instance S) Error α) := .ok a

theorem completes_send : Completes (send net s m) := .mapError fun _ => .inl rfl

theorem completes_enterAndSend : Completes (enterAndSend seat net s m) :=
  .mapError fun _ => .inl rfl

/-- A leader that proposes what was prepared last finds its value. -/
theorem exists_proposalFor (ms : List (SignedMessage S)) :
    ∃ proposal, proposalFor s ms = .ok proposal := by
  unfold proposalFor
  split
  · rename_i highest hhighest
    obtain ⟨round, hround⟩ := exists_preparedRound?_of_highestPrepared? hhighest
    obtain ⟨value, hvalue⟩ := Message.exists_value?_of_preparedRound? hround
    exact ⟨some (value, highest.message.prepares), by rw [hvalue]⟩
  · exact ⟨_, rfl⟩

theorem completes_proposeOnQuorum (round : Round) :
    Completes (proposeOnQuorum seat net s round) := by
  unfold proposeOnQuorum
  split
  · exact completes_done ()
  have hleader : FailsOnly (fun e => ∃ f, e = Error.fault f) (isLeader seat s round) :=
    .bind (leader_failsOnly round) fun _ _ => .ok _
  split
  · rename_i e he
    exact .error (.inr (hleader e he))
  · exact completes_done ()
  dsimp only
  split
  · exact completes_done ()
  obtain ⟨proposal, hproposal⟩ :=
    exists_proposalFor (s := s) ((s.roundChanges.ofRound round).filter (isJustified seat s))
  rw [hproposal]
  split
  · cases ‹Except.ok proposal = .error _›
  · exact completes_done ()
  split
  · exact completes_enterAndSend
  · exact completes_send

theorem completes_skipAhead : Completes (skipAhead seat net s) := by
  unfold skipAhead
  split
  · rename_i f _
    exact .error (.inr ⟨f, rfl⟩)
  split
  · exact completes_done ()
  split
  · exact completes_done ()
  · exact completes_enterAndSend

theorem completes_both {first : Step S (Instance S) Error Unit}
    {second : Instance S → Step S (Instance S) Error Unit} (hfirst : Completes first)
    (hsecond : ∀ u, Completes (second u)) : Completes (both first second) := by
  unfold both
  split
  · exact hfirst
  dsimp only
  split
  · rename_i f _
    exact .error (.inr ⟨f, rfl⟩)
  · rename_i e hanswer _
    exact .error (hfirst e hanswer)
  · exact hsecond first.state

theorem atomic_undecided {o : Step S (Instance S) Error Unit} (h : Atomic s o) :
    Atomic s (undecided o) := by
  rcases h with ⟨e, he, rfl⟩ | h
  · exact .inl ⟨e, he, rfl⟩
  · exact .inr (h.map _)

end Completion

/-! ### Late lookups -/

/-- What an instance relies on once it has stored a message: what it has accepted is a proposal, and
the commits that it may combine are of one height and stream. -/
structure Coherent (seat : Seat S) (height : Height) (s : Instance S) : Prop where
  height_eq : s.height = height
  accepted : ∀ {m}, s.accepted = some m → IsProposalFor seat height s.round m
  commits : s.decided = none → Filed seat height .commit s.commits

section Lookups

variable {seat : Seat S} {height : Height} {s u : Instance S} {m : SignedMessage S}

theorem coherent_new (seat : Seat S) (height : Height) : Coherent seat height (.new height) where
  height_eq := rfl
  accepted := nofun
  commits _ := filed_empty

theorem Coherent.move {e : Event S} {effects : List (Effect S)} {decision : Option (Decision S)}
    (h : Coherent seat height s) (hmove : Move seat s e effects decision u) :
    Coherent seat height u where
  height_eq := hmove.turn.1.trans h.height_eq
  accepted hm := by
    rcases hmove.accepted hm with ⟨hold, hround⟩ | hnew
    · rw [hround]
      exact h.accepted hold
    · rw [← h.height_eq]
      exact hnew
  commits hopen := by
    have hbefore : s.decided = none := by
      rcases hmove.decided with ⟨-, hsame⟩ | ⟨d, -, -, hdecides⟩
      · exact hsame.symm.trans hopen
      · rw [hopen] at hdecides
        cases hdecides
    -- a commit that is learned decides, so that it is not among those of an open instance
    rcases hmove.tallied.commits with hstores | ⟨_, -, -, hdecided, -⟩
    · exact (h.commits hbefore).stores (h.height_eq ▸ hstores)
    · rw [isDecided, hopen] at hdecided
      cases hdecided

theorem Run.coherent {t : Trace S} (h : Run seat height t) : Coherent seat height t.state :=
  Run.induct (P := fun t => Coherent seat height t.state) (coherent_new seat height)
    (fun _ _ _ _ _ ht hmove => ht.move hmove) h

/-- An accepted proposal carries a value. -/
theorem Coherent.exists_value_of_accepted (h : Coherent seat height s)
    (haccepted : s.accepted ≠ none) : ∃ value, s.acceptedValue? = some value := by
  obtain ⟨proposal, hproposal⟩ := Option.ne_none_iff_exists'.1 haccepted
  obtain ⟨value, hvalue, -⟩ := (h.accepted hproposal).value
  exact ⟨value, by rw [acceptedValue?, hproposal, Option.bind_some, hvalue]⟩

/-- A message that passes the checks of a vote finds the accepted value. -/
theorem Coherent.exists_acceptedValue? (h : Coherent seat height s)
    (hvalid : validateVote seat s m = .ok ()) : ∃ value, s.acceptedValue? = some value := by
  obtain ⟨proposal, haccepted, -⟩ := validateVote_eq_ok_iff.1 hvalid
  exact h.exists_value_of_accepted (by simp [haccepted])

/-- Commits of one height and round for one value are over the same content. -/
theorem message_eq_of_commit {m' : SignedMessage S} {root : Digest}
    (h : IsMessageOf seat height .commit m) (h' : IsMessageOf seat height .commit m')
    (hround : m.round = m'.round) (hroot : m.message.valueRoot? = some root)
    (hroot' : m'.message.valueRoot? = some root) : m.message = m'.message := by
  have hidentifier : m.identifier = m'.identifier := h.identifier_eq.trans h'.identifier_eq.symm
  have hheight : m.height = m'.height := h.height_eq.trans h'.height_eq.symm
  have hbody : m.message.body = m'.message.body :=
    (Message.body_of_commit h.type_eq hroot).trans (Message.body_of_commit h'.type_eq hroot').symm
  cases hm : m.message
  cases hm' : m'.message
  rw [SignedMessage.identifier, SignedMessage.identifier, hm, hm'] at hidentifier
  rw [SignedMessage.height, SignedMessage.height, hm, hm'] at hheight
  rw [SignedMessage.round, SignedMessage.round, hm, hm'] at hround
  rw [hm, hm'] at hbody
  exact (Message.mk.injEq ..).mpr ⟨hidentifier, hheight, hround, hbody⟩

/-- The commits that are counted for a quorum can be combined. -/
theorem exists_aggregate_of_quorum {t : Tally S} {round : Round} {root : Digest}
    (hfiled : Filed seat height .commit t) (hsize : 0 < seat.committee.size)
    (hquorum : seat.committee.quorum ≤ (t.uniqueSigners round root).size) :
    ∃ commit, SignedMessage.aggregate (t.uniqueSigners round root).messages = .ok commit := by
  have hchosen := t.chosenFrom_uniqueSigners round root
  have hcounted : ∀ m ∈ (t.uniqueSigners round root).messages, m.round = round ∧
      IsMessageOf seat height .commit m ∧ m.message.valueRoot? = some root := by
    intro m hm
    obtain ⟨hm, hroot⟩ := Tally.mem_uniqueSigners hm
    obtain ⟨hround, hmessage⟩ := hfiled.of_round hm
    exact ⟨hround, hmessage, hroot⟩
  refine SignedMessage.exists_aggregate ?_ (fun m hm m' hm' => ?_) (fun m hm => ?_)
    (hchosen.signers_eq ▸ hchosen.nodup)
  · intro hempty
    have hpos := Committee.quorum_pos hsize
    rw [UniqueSigners.size, hchosen.signers_eq, hempty, List.flatMap_nil,
      List.length_nil] at hquorum
    omega
  · obtain ⟨hround, hmessage, hroot⟩ := hcounted m hm
    obtain ⟨hround', hmessage', hroot'⟩ := hcounted m' hm'
    exact message_eq_of_commit hmessage hmessage' (hround.trans hround'.symm) hroot hroot'
  · exact (SignedMessage.verify_eq_ok_iff.1 (hcounted m hm).2.1.verified).2.1

/-- A committee whose member has signed a message is not empty. -/
theorem size_pos_of_verify (hsingle : ∃ id, m.signers = [id])
    (hverify : m.verify seat.committee seat.context.domain = .ok ()) : 0 < seat.committee.size := by
  obtain ⟨id, hsigners⟩ := hsingle
  have hid : id ∈ m.signers := hsigners ▸ List.mem_singleton_self id
  exact Committee.size_pos_of_mem_names (SignedMessage.mem_names_of_verify hverify hid)

end Lookups

/-! ### Messages -/

section Messages

variable {seat : Seat S} {net : Network S} {height : Height} {s : Instance S} {m : SignedMessage S}

theorem onPropose_atomic (htype : m.type = .propose) : Atomic s (onPropose seat net s m) := by
  unfold onPropose
  split
  · rename_i e he
    rcases validateProposal_failsOnly htype e he with hrejection | hfault
    · exact .inl ⟨e, hrejection, rfl⟩
    · exact .inr (.error (.inr hfault))
  obtain ⟨value, hvalue⟩ := Message.exists_value?_of_propose htype
  rw [hvalue]
  dsimp only
  split
  · exact .inr completes_enterAndSend
  · exact .inr completes_send

theorem onPrepare_atomic (h : Coherent seat height s) : Atomic s (onPrepare seat net s m) := by
  unfold onPrepare
  split
  · rename_i e he
    exact .inl ⟨e, rejects_validateVote m e he, rfl⟩
  rename_i hvalid
  refine .inr ?_
  split
  · exact completes_done ()
  obtain ⟨value, hvalue⟩ := h.exists_acceptedValue? hvalid
  dsimp only
  rw [acceptedValue?] at hvalue
  rw [acceptedValue?, hvalue]
  dsimp only
  split
  · exact completes_done ()
  split
  · exact completes_send
  · exact completes_done ()

theorem onCommit_atomic (h : Coherent seat height s) (hreach : Reaches seat s m)
    (htype : m.type = .commit) : Atomic s (onCommit seat s m) := by
  unfold onCommit
  split
  · rename_i e he
    exact .inl ⟨e, rejects_validateVote m e he, rfl⟩
  rename_i hvalid
  refine .inr ?_
  split
  · exact completes_done none
  rename_i commits hadd
  obtain ⟨-, rfl⟩ := Tally.addFirst?_eq_some hadd
  dsimp only
  split
  · exact completes_done none
  rename_i hopen
  obtain ⟨value, hvalue⟩ := h.exists_acceptedValue? hvalid
  rw [acceptedValue?] at hvalue
  rw [acceptedValue?, hvalue]
  dsimp only
  split
  · rename_i hquorum
    obtain ⟨-, -, -, -, hsingle, hverify⟩ := validateVote_eq_ok_iff.1 hvalid
    have hopen : s.decided = none := by simpa [isDecided] using hopen
    have hfiled : Filed seat height .commit (s.commits.add m) :=
      (h.commits hopen).add (h.height_eq ▸ hreach.isMessageOf htype hverify)
    obtain ⟨commit, hcommit⟩ := exists_aggregate_of_quorum hfiled
      (size_pos_of_verify hsingle hverify) (Committee.isQuorum_iff.1 hquorum)
    rw [hcommit]
    exact .ok _
  · exact completes_done none

theorem onRoundChange_atomic : Atomic s (onRoundChange seat net s m) := by
  unfold onRoundChange
  split
  · rename_i e he
    exact .inl ⟨e, rejects_validateRoundChange m m.round e he, rfl⟩
  refine .inr ?_
  split
  · exact completes_done ()
  dsimp only
  split
  · exact completes_done ()
  · exact completes_both (completes_proposeOnQuorum m.round) fun _ => completes_skipAhead

theorem receive_atomic (h : Coherent seat height s) : Atomic s (receive seat net s m) := by
  unfold receive
  by_cases hrunning : s.stopped seat = true
  · rw [if_pos hrunning]
    exact .inl ⟨_, rfl, rfl⟩
  rw [if_neg hrunning]
  split
  · rename_i e he
    exact .inl ⟨e, rejects_validateBase e he, rfl⟩
  rename_i hbase
  obtain ⟨hid, hheight, hround⟩ := validateBase_eq_ok_iff.1 hbase
  have hreach : Reaches seat s m := ⟨by simpa using hrunning, hid, hheight, hround⟩
  split
  · rename_i htype
    exact atomic_undecided (onPropose_atomic htype)
  · exact atomic_undecided (onPrepare_atomic h)
  · rename_i htype
    exact onCommit_atomic h hreach htype
  · exact atomic_undecided onRoundChange_atomic

/-- An instance that answers a message with an error, other than for a message that is not sent, is
as before and asks for nothing. The values and the commits that it looks up after a change are
always there. An instance that goes down has no answer, so that faults are left out. -/
theorem unchanged_of_error {t : Trace S} (h : Run seat height t) {e : Error}
    (he : (receive seat net t.state m).answer = .error e) :
    e ≠ .missingProposal ∧ (∀ cause, e ≠ .aggregation cause) ∧
      (e.isSideEffect = false → e.fault? = none →
        receive seat net t.state m = .refuse t.state e) := by
  have hatomic : Atomic t.state (receive seat net t.state m) := receive_atomic h.coherent
  rcases hatomic with ⟨error, hrejection, hrefuse⟩ | hcompletes
  · rw [hrefuse] at he
    obtain rfl := Except.error.inj he
    refine ⟨?_, fun cause => ?_, fun _ _ => hrefuse⟩
    · rintro rfl
      cases hrejection
    · rintro rfl
      cases hrejection
  · rcases hcompletes e he with hsend | ⟨f, rfl⟩
    · refine ⟨?_, fun cause => ?_, fun hnot => ?_⟩
      · rintro rfl
        cases hsend
      · rintro rfl
        cases hsend
      · rw [hsend] at hnot
        cases hnot
    · exact ⟨nofun, nofun, nofun⟩

end Messages

/-- A commit for another value than the accepted one reaches an instance that has learned a
decision: it is turned away, and the instance is as before. -/
theorem unchanged_of_mismatch :
    (receive Scheme.plain.seat (.reliable _) Learning.trace.state
      (Scheme.plain.message 4 (.commit ⟨0, 0, 0, 0⟩))).answer = .error .dataMismatch ∧
    receive Scheme.plain.seat (.reliable _) Learning.trace.state
        (Scheme.plain.message 4 (.commit ⟨0, 0, 0, 0⟩)) =
      .refuse Learning.trace.state .dataMismatch := by
  have hrun : Run Scheme.plain.seat Height.first Learning.trace := Run.new.play Learning.schedule
  have hanswer : (receive Scheme.plain.seat (.reliable _) Learning.trace.state
      (Scheme.plain.message 4 (.commit ⟨0, 0, 0, 0⟩))).answer = .error .dataMismatch := by
    decide +kernel
  exact ⟨hanswer, (unchanged_of_error hrun hanswer).2.2 rfl rfl⟩

end Instance
end Conclave
