import Conclave.Proofs.Instance.Faults
import Conclave.Proofs.Instance.Network

/-!
# Redelivery

A network may deliver a message any number of times and at any time. An instance that has taken a
message once has no use for it any more, however long the second delivery takes and whatever happens
in between: it does nothing, and answers that there is nothing new or that the message is no longer
wanted.

What shows that a message was taken depends on its kind, and `Seen` says it for each: the round of a
proposal is over, or something is accepted in it; of a vote or a round change the tally has one by
the same signer in the same round.

* `seen_of_taken`: a message that is taken is seen;
* `Seen.move` and `Seen.play`: it stays so;
* `receive_of_seen`: a message that is seen has no effect (`Idle`).
-/

namespace Conclave

namespace Instance

variable {S : Scheme} {seat : Seat S} {net : Network S} {s u : Instance S} {m : SignedMessage S}

/-- A message is taken if there is no error, or none but that something was not sent. -/
def Taken {α : Type} (answer : Except Error α) : Prop :=
  FailsOnly (fun e => e.isSideEffect = true) answer

/-- What shows that a message was taken. -/
inductive Seen (seat : Seat S) (s : Instance S) (m : SignedMessage S) : Prop
  /-- The round of a proposal is over. -/
  | past (htype : m.type = .propose) (hlt : m.round.toNat < s.round.toNat)
  /-- A proposal is accepted in the round of this one, whose proposer is known. -/
  | accepted {id : OperatorId} (htype : m.type = .propose) (hround : m.round = s.round)
      (haccepted : s.accepted ≠ none) (hleader : leader seat s m.round = .ok id)
  | prepare (htype : m.type = .prepare) (hstored : s.prepares.hasSignerOf m = true)
  | commit (htype : m.type = .commit) (hstored : s.commits.hasSignerOf m = true)
  | roundChange (htype : m.type = .roundChange) (hstored : s.roundChanges.hasSignerOf m = true)

/-! ### What is seen stays seen -/

/-- In a round that is not left, what is accepted is not given up. -/
theorem Turn.accepted_ne_none {sent : List (SignedMessage S)} (h : Turn s sent u)
    (haccepted : s.accepted ≠ none) (hround : u.round = s.round) : u.accepted ≠ none := by
  cases h with
  | rest _ _ hsame _ => rwa [hsame]
  | accept _ _ _ _ _ hnew _ =>
    rw [hnew]
    exact Option.some_ne_none _
  | commit _ _ _ _ _ _ hsame _ => rwa [hsame]
  | advance hlt _ _ _ =>
    rw [hround] at hlt
    exact absurd hlt (lt_irrefl _)

theorem Seen.move {e : Event S} {effects : List (Effect S)} {decision : Option (Decision S)}
    (h : Seen seat s m) (hmove : Move seat s e effects decision u) : Seen seat u m := by
  obtain ⟨hheight, hturn⟩ := hmove.turn
  have htallied := hmove.tallied
  have hle := hturn.round_le
  cases h with
  | past htype hlt => exact .past htype (hlt.trans_le hle)
  | accepted htype hround haccepted hleader =>
    by_cases hsame : u.round = s.round
    · exact .accepted htype (hround.trans hsame.symm) (hturn.accepted_ne_none haccepted hsame)
        ((leader_congr hheight m.round).trans hleader)
    · refine .past htype ?_
      rw [hround]
      exact lt_of_le_of_ne hle fun heq => hsame (Round.toNat_inj.1 heq.symm)
  | prepare htype hstored =>
    exact .prepare htype (Tally.hasSignerOf_mono htallied.prepares.subset hstored)
  | commit htype hstored =>
    refine .commit htype (Tally.hasSignerOf_mono ?_ hstored)
    rcases htallied.commits with hstores | ⟨commit, -, -, -, hcommits⟩
    · exact hstores.subset
    · rw [hcommits]
      exact List.subset_append_left _ _
  | roundChange htype hstored =>
    exact .roundChange htype (Tally.hasSignerOf_mono htallied.roundChanges.subset hstored)

theorem Seen.path {e : Event S} {effects : List (Effect S)} {decisions : List (Decision S)}
    (h : Seen seat s m) (hpath : Path seat e s effects decisions u) : Seen seat u m := by
  induction hpath with
  | stay => exact h
  | move _ hmove ih => exact ih.move hmove

theorem Seen.play (h : Seen seat s m) (events : List (Network S × Event S)) :
    Seen seat (play seat s events) m := by
  induction events generalizing s with
  | nil => exact h
  | cons x events ih => exact ih (h.path (step_path seat x.1 s x.2))

/-! ### What is taken is seen -/

/-- An operation that is refused for a check, or because the instance goes down, takes nothing. -/
theorem not_taken_refuse {α : Type} {e : Error} (he : e.isSideEffect = false) :
    ¬ Taken (.refuse s e : Step S (Instance S) Error α).answer := by
  intro h
  rw [FailsOnly.error_iff.1 h] at he
  cases he

theorem Error.isSideEffect_of_isRejection {e : Error} (h : e.isRejection = true) :
    e.isSideEffect = false := by
  cases e <;> first | rfl | cases h

theorem taken_undecided {o : Step S (Instance S) Error Unit} (h : Taken (undecided o).answer) :
    Taken o.answer := by
  intro e he
  refine h e ?_
  rw [undecided, Step.mapAnswer, he]
  rfl

theorem signers_ne_nil_of_single (h : ∃ id, m.signers = [id]) : m.signers ≠ [] := by
  obtain ⟨id, hid⟩ := h
  rw [hid]
  exact List.cons_ne_nil _ _

/-- A check that lets a taken message pass. -/
theorem not_taken_of_rejects {α : Type} {x : Except Error Unit} {e : Error} (hx : Rejects x)
    (he : x = .error e) : ¬ Taken (.refuse s e : Step S (Instance S) Error α).answer :=
  not_taken_refuse (Error.isSideEffect_of_isRejection (hx e he))

theorem seen_onPropose (htype : m.type = .propose) (hle : s.round.toNat ≤ m.round.toNat)
    (h : Taken (onPropose seat net s m).answer) : Seen seat (onPropose seat net s m).state m := by
  unfold onPropose at h ⊢
  split at h
  · rename_i e he
    refine absurd h (not_taken_refuse ?_)
    rcases validateProposal_failsOnly htype e he with hrejection | ⟨f, rfl⟩
    · exact Error.isSideEffect_of_isRejection hrejection
    · rfl
  rename_i hvalid
  obtain ⟨⟨id, -, hleader⟩, -⟩ := validateProposal_eq_ok_iff.1 hvalid
  split at h
  · exact absurd h (not_taken_refuse rfl)
  dsimp only
  split
  · exact .accepted htype rfl (Option.some_ne_none m) hleader
  -- a proposal that is not for a higher round is for the current one
  · rename_i hlt
    rw [Round.lt_iff, not_lt] at hlt
    exact .accepted htype (Round.toNat_inj.1 (hlt.antisymm hle)) (Option.some_ne_none m) hleader

theorem seen_onPrepare (htype : m.type = .prepare) (h : Taken (onPrepare seat net s m).answer) :
    Seen seat (onPrepare seat net s m).state m := by
  unfold onPrepare at h ⊢
  split at h
  · exact absurd h (not_taken_of_rejects (rejects_validateVote m) ‹_›)
  rename_i hvalid
  obtain ⟨-, -, -, -, hsingle, -⟩ := validateVote_eq_ok_iff.1 hvalid
  split
  · exact .prepare htype (Tally.addFirst?_eq_none_iff.1 ‹_›)
  rename_i prepares hadd
  obtain ⟨-, rfl⟩ := Tally.addFirst?_eq_some hadd
  have hstored := s.prepares.hasSignerOf_add_self (signers_ne_nil_of_single hsingle)
  dsimp only
  split
  · exact .prepare htype hstored
  split
  · exact .prepare htype hstored
  split
  · exact .prepare htype hstored
  · exact .prepare htype hstored

theorem seen_onCommit (htype : m.type = .commit) (h : Taken (onCommit seat s m).answer) :
    Seen seat (onCommit seat s m).state m := by
  unfold onCommit at h ⊢
  split at h
  · exact absurd h (not_taken_of_rejects (rejects_validateVote m) ‹_›)
  rename_i hvalid
  obtain ⟨-, -, -, -, hsingle, -⟩ := validateVote_eq_ok_iff.1 hvalid
  split
  · exact .commit htype (Tally.addFirst?_eq_none_iff.1 ‹_›)
  rename_i commits hadd
  obtain ⟨-, rfl⟩ := Tally.addFirst?_eq_some hadd
  have hstored := s.commits.hasSignerOf_add_self (signers_ne_nil_of_single hsingle)
  dsimp only
  split
  · exact .commit htype hstored
  split
  · exact .commit htype hstored
  split
  · split
    · exact .commit htype hstored
    · exact .commit htype hstored
  · exact .commit htype hstored

theorem seen_onRoundChange (htype : m.type = .roundChange)
    (h : Taken (onRoundChange seat net s m).answer) :
    Seen seat (onRoundChange seat net s m).state m := by
  unfold onRoundChange at h ⊢
  split at h
  · exact absurd h (not_taken_of_rejects (rejects_validateRoundChange m m.round) ‹_›)
  rename_i hvalid
  have hsingle := (validateRoundChange_eq_ok_iff.1 hvalid).single
  split
  · exact .roundChange htype (Tally.addFirst?_eq_none_iff.1 ‹_›)
  rename_i roundChanges hadd
  obtain ⟨-, rfl⟩ := Tally.addFirst?_eq_some hadd
  have hstored := s.roundChanges.hasSignerOf_add_self (signers_ne_nil_of_single hsingle)
  dsimp only
  split
  · exact .roundChange htype hstored
  -- what follows are moves, which keep what is seen
  rename_i hopen
  have hopen : s.decided = none := by simpa [isDecided] using hopen
  have hseen : Seen seat { s with roundChanges := s.roundChanges.add m } m :=
    .roundChange htype hstored
  refine hseen.path (both_isPath (proposeOnQuorum_isPath htype hopen) ?_)
  exact skipAhead_isPath htype ((proposeOnQuorum_decided m.round).trans hopen)

theorem seen_of_taken (h : Taken (receive seat net s m).answer) :
    Seen seat (receive seat net s m).state m := by
  unfold receive at h ⊢
  by_cases hrunning : s.stopped seat = true
  · rw [if_pos hrunning] at h
    exact absurd h (not_taken_refuse rfl)
  rw [if_neg hrunning] at h ⊢
  split at h
  · exact absurd h (not_taken_of_rejects rejects_validateBase ‹_›)
  rename_i hbase
  obtain ⟨-, -, hround⟩ := validateBase_eq_ok_iff.1 hbase
  split
  · rename_i htype
    rw [htype] at h
    exact seen_onPropose htype hround (taken_undecided h)
  · rename_i htype
    rw [htype] at h
    exact seen_onPrepare htype (taken_undecided h)
  · rename_i htype
    rw [htype] at h
    exact seen_onCommit htype h
  · rename_i htype
    rw [htype] at h
    exact seen_onRoundChange htype (taken_undecided h)

/-! ### What is seen has no effect -/

/-- An operation does nothing: there is nothing new, or its message is turned away. -/
def Idle {α : Type} (s : Instance S) (a : α) (o : Step S (Instance S) Error α) : Prop :=
  o = .done s a ∨ ∃ e, e.isRejection = true ∧ o = .refuse s e

theorem idle_undecided {o : Step S (Instance S) Error Unit} (h : Idle s () o) :
    Idle s none (undecided o) := by
  rcases h with rfl | ⟨e, he, rfl⟩
  · exact .inl rfl
  · exact .inr ⟨e, he, rfl⟩

theorem idle_onPropose (htype : m.type = .propose) (hround : m.round = s.round)
    (haccepted : s.accepted ≠ none) {id : OperatorId} (hleader : leader seat s m.round = .ok id) :
    Idle s () (onPropose seat net s m) := by
  unfold onPropose
  split
  · rename_i e he
    refine .inr ⟨e, (validateProposal_failsOnly htype e he).resolve_right ?_, rfl⟩
    rintro ⟨f, rfl⟩
    -- the proposer of the round is known, so that the check does not go down
    obtain ⟨-, -, hfaults⟩ := faults_validateProposal_iff.1 ⟨_, f, he, rfl⟩
    rw [hleader] at hfaults
    exact Faults.not_ok id hfaults
  · rename_i hvalid
    obtain ⟨-, -, -, ⟨-, hnone⟩ | hlt⟩ := validateProposal_eq_ok_iff.1 hvalid
    · exact absurd hnone haccepted
    · rw [hround] at hlt
      exact absurd hlt (lt_irrefl _)

theorem idle_onPrepare (hstored : s.prepares.hasSignerOf m = true) :
    Idle s () (onPrepare seat net s m) := by
  unfold onPrepare
  split
  · exact .inr ⟨_, rejects_validateVote m _ ‹_›, rfl⟩
  · rw [Tally.addFirst?_eq_none_iff.2 hstored]
    exact .inl rfl

theorem idle_onCommit (hstored : s.commits.hasSignerOf m = true) :
    Idle s none (onCommit seat s m) := by
  unfold onCommit
  split
  · exact .inr ⟨_, rejects_validateVote m _ ‹_›, rfl⟩
  · rw [Tally.addFirst?_eq_none_iff.2 hstored]
    exact .inl rfl

theorem idle_onRoundChange (hstored : s.roundChanges.hasSignerOf m = true) :
    Idle s () (onRoundChange seat net s m) := by
  unfold onRoundChange
  split
  · exact .inr ⟨_, rejects_validateRoundChange m m.round _ ‹_›, rfl⟩
  · rw [Tally.addFirst?_eq_none_iff.2 hstored]
    exact .inl rfl

theorem receive_of_seen (h : Seen seat s m) : Idle s none (receive seat net s m) := by
  unfold receive
  split
  · exact .inr ⟨_, rfl, rfl⟩
  split
  · exact .inr ⟨_, rejects_validateBase _ ‹_›, rfl⟩
  rename_i hbase
  cases h with
  | past htype hlt =>
    obtain ⟨-, -, hround⟩ := validateBase_eq_ok_iff.1 hbase
    omega
  | accepted htype hround haccepted hleader =>
    rw [htype]
    exact idle_undecided (idle_onPropose htype hround haccepted hleader)
  | prepare htype hstored =>
    rw [htype]
    exact idle_undecided (idle_onPrepare hstored)
  | commit htype hstored =>
    rw [htype]
    exact idle_onCommit hstored
  | roundChange htype hstored =>
    rw [htype]
    exact idle_undecided (idle_onRoundChange hstored)

/-- A message that was taken once has no effect when it is delivered again, whatever happens in
between: the state is the same, nothing is asked for and nothing is decided. -/
theorem idle_of_taken {net' : Network S} (h : Taken (receive seat net s m).answer)
    (later : List (Network S × Event S)) :
    Idle (play seat (receive seat net s m).state later) none
      (receive seat net' (play seat (receive seat net s m).state later) m) :=
  receive_of_seen ((seen_of_taken h).play later)

namespace Redelivery

open Scheme

/-- Member 1 has started and has received the proposal of the first round and two prepares. -/
def before : Instance plain :=
  ((Trace.new Height.first).play plain.seat
    (.start plain.value :: (plain.preparation.take 3).map .receive)).state

/-- The prepare that completes the quorum. -/
def prepare : SignedMessage plain := plain.message 3 (.prepare plain.value.root)

/-- The network that takes no message. -/
def silent : Network plain := ⟨fun _ => .error ⟨"down"⟩, fun _ => .error ⟨"down"⟩⟩

/-- After the quorum the member asks for the next round and receives the prepare of member 4. -/
def later : List (Network plain × Event plain) :=
  [(.reliable plain, .receive (plain.message 4 (.prepare plain.value.root))),
    (silent, .timeout Round.first)]

end Redelivery

/-- A prepare completes a quorum, though the commit is not sent. When it is delivered again, the
member has gone on to the next round. -/
theorem idle_of_late_prepare :
    (receive Scheme.plain.seat Redelivery.silent Redelivery.before Redelivery.prepare).answer =
      .error (.broadcast ⟨"down"⟩) ∧
    Idle (play Scheme.plain.seat
        (receive Scheme.plain.seat Redelivery.silent Redelivery.before Redelivery.prepare).state
        Redelivery.later) none
      (receive Scheme.plain.seat (.reliable _) (play Scheme.plain.seat
        (receive Scheme.plain.seat Redelivery.silent Redelivery.before Redelivery.prepare).state
        Redelivery.later) Redelivery.prepare) := by
  have hanswer : (receive Scheme.plain.seat Redelivery.silent Redelivery.before
      Redelivery.prepare).answer = .error (.broadcast ⟨"down"⟩) := by
    decide +kernel
  have htaken : Taken (receive Scheme.plain.seat Redelivery.silent Redelivery.before
      Redelivery.prepare).answer := by
    rw [hanswer]
    exact .error rfl
  exact ⟨hanswer, idle_of_taken htaken Redelivery.later⟩

end Instance
end Conclave
