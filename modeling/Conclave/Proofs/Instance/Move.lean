import Conclave.Instance.Transition
import Conclave.Proofs.Instance.Validation
import Conclave.Proofs.Tally

/-!
# Moves of an instance

Everything an instance ever does is a sequence of moves. A `Move` is one of the changes that an
event may bring about, with what the instance has checked before, what it asks of its surroundings
and whether it decides. Most events bring about one move or none; a round change may bring about
three: it is stored, it completes a quorum that this member proposes to, and it completes a partial
quorum that this member follows.

* `Move` lists the moves;
* `Path` is a sequence of moves of one event;
* `step_path`: what an instance does on an event is a path;
* `step_decided`: an answer holds a decision exactly if the instance decides, which it does once.

A property of instances that each move keeps is kept by every event, whether or not the network
takes what is sent.
-/

namespace Conclave
namespace Instance

variable {S : Scheme}

/-- A message reaches an instance that still runs: it is of its stream and height, and its round is
not over. -/
structure Reaches (seat : Seat S) (s : Instance S) (m : SignedMessage S) : Prop where
  running : s.stopped seat = false
  identifier_eq : m.identifier = seat.identifier
  height_eq : m.height = s.height
  round_le : s.round.toNat ≤ m.round.toNat

/-- What is asked for on the way into a round: its timeout, unless it is the current round. -/
def entryCalls (seat : Seat S) (s : Instance S) (round : Round) : List (Effect S) :=
  if s.round < round then [timerCall seat (s.moveTo round)] else []

/-- The instance in a round, which may be the current one. -/
def enter (s : Instance S) (round : Round) : Instance S :=
  if s.round < round then s.moveTo round else s

@[simp] theorem enter_height (s : Instance S) (round : Round) :
    (s.enter round).height = s.height := by
  unfold enter
  split <;> rfl

@[simp] theorem enter_started (s : Instance S) (round : Round) :
    (s.enter round).started = s.started := by
  unfold enter
  split <;> rfl

@[simp] theorem enter_prepared (s : Instance S) (round : Round) :
    (s.enter round).prepared = s.prepared := by
  unfold enter
  split <;> rfl

@[simp] theorem enter_decided (s : Instance S) (round : Round) :
    (s.enter round).decided = s.decided := by
  unfold enter
  split <;> rfl

@[simp] theorem enter_proposes (s : Instance S) (round : Round) :
    (s.enter round).proposes = s.proposes := by
  unfold enter
  split <;> rfl

@[simp] theorem enter_prepares (s : Instance S) (round : Round) :
    (s.enter round).prepares = s.prepares := by
  unfold enter
  split <;> rfl

@[simp] theorem enter_commits (s : Instance S) (round : Round) :
    (s.enter round).commits = s.commits := by
  unfold enter
  split <;> rfl

@[simp] theorem enter_roundChanges (s : Instance S) (round : Round) :
    (s.enter round).roundChanges = s.roundChanges := by
  unfold enter
  split <;> rfl

/-- The round changes for a round that a proposal may be built on. -/
def backing (seat : Seat S) (s : Instance S) (round : Round) : List (SignedMessage S) :=
  (s.roundChanges.ofRound round).filter (isJustified seat s)

/-- One change of an instance, with the effects it asks for and the decision it yields. -/
inductive Move (seat : Seat S) (s : Instance S) :
    Event S → List (Effect S) → Option (Decision S) → Instance S → Prop
  /-- The instance starts. -/
  | start {value : Value S} (hnew : s.started = false) :
      Move seat s (.start value) [timerCall seat s] none { s with startValue := some value }
  /-- The instance starts, and this member proposes in the first round. -/
  | lead {value : Value S} (hnew : s.started = false) (hround : s.round = Round.first)
      (hleader : leader seat s s.round = .ok seat.signer.id) :
      Move seat s (.start value)
        [timerCall seat s, .broadcast (sign seat s s.round (.propose value [] []))] none
        { s with startValue := some value }
  /-- A proposal is accepted, and its value prepared. -/
  | accept {m : SignedMessage S} {value : Value S} (hreach : Reaches seat s m)
      (htype : m.type = .propose) (hvalid : validateProposal seat s m = .ok ())
      (hvalue : m.message.value? = some value) :
      Move seat s (.receive m)
        (entryCalls seat s m.round ++ [.broadcast (sign seat s m.round (.prepare value.root))]) none
        { s with
          round := m.round
          accepted := some m
          proposes := (s.proposes.addFirst? m).getD s.proposes }
  /-- A prepare is stored. -/
  | storePrepare {m : SignedMessage S} (hreach : Reaches seat s m) (htype : m.type = .prepare)
      (hvalid : validateVote seat s m = .ok ()) (hnew : s.prepares.hasSignerOf m = false) :
      Move seat s (.receive m) [] none { s with prepares := s.prepares.add m }
  /-- A prepare completes a quorum: this member prepares the value and votes to decide on it. -/
  | prepare {m : SignedMessage S} {value : Value S} (hreach : Reaches seat s m)
      (htype : m.type = .prepare) (hvalid : validateVote seat s m = .ok ())
      (hnew : s.prepares.hasSignerOf m = false) (hvalue : s.acceptedValue? = some value)
      (hfirst : s.prepared ≠ some ⟨m.round, value⟩)
      (hquorum : seat.committee.quorum ≤
        ((s.prepares.add m).uniqueSigners m.round value.root).size) :
      Move seat s (.receive m) [.broadcast (sign seat s m.round (.commit value.root))] none
        { s with prepares := s.prepares.add m, prepared := some ⟨m.round, value⟩ }
  /-- A commit is stored. -/
  | storeCommit {m : SignedMessage S} (hreach : Reaches seat s m) (htype : m.type = .commit)
      (hvalid : validateVote seat s m = .ok ()) (hnew : s.commits.hasSignerOf m = false) :
      Move seat s (.receive m) [] none { s with commits := s.commits.add m }
  /-- A commit completes a quorum: the instance decides. -/
  | decide {m commit : SignedMessage S} {value : Value S} (hreach : Reaches seat s m)
      (htype : m.type = .commit) (hvalid : validateVote seat s m = .ok ())
      (hnew : s.commits.hasSignerOf m = false) (hopen : s.decided = none)
      (hvalue : s.acceptedValue? = some value)
      (hquorum : seat.committee.quorum ≤ ((s.commits.add m).uniqueSigners m.round value.root).size)
      (hcommit : SignedMessage.aggregate
        ((s.commits.add m).uniqueSigners m.round value.root).messages = .ok commit) :
      Move seat s (.receive m) [.cancel s.height] (some ⟨value, commit⟩)
        { s with commits := s.commits.add m, decided := some value }
  /-- A round change is stored. -/
  | storeRoundChange {m : SignedMessage S} (hreach : Reaches seat s m)
      (htype : m.type = .roundChange) (hvalid : validateRoundChange seat s m m.round = .ok ())
      (hnew : s.roundChanges.hasSignerOf m = false) :
      Move seat s (.receive m) [] none { s with roundChanges := s.roundChanges.add m }
  /-- A quorum asks for a round that this member leads: it proposes. -/
  | propose {m : SignedMessage S} {value : Value S} {prepares : List (SignedMessage S)}
      (htype : m.type = .roundChange) (hopen : s.decided = none)
      (hround : s.round.toNat ≤ m.round.toNat)
      (hfirst : s.proposedRound ≠ some m.round)
      (hleader : leader seat s m.round = .ok seat.signer.id)
      (hquorum : seat.committee.quorum ≤ distinctSigners (backing seat s m.round))
      (hproposal : proposalFor s (backing seat s m.round) = .ok (some (value, prepares))) :
      Move seat s (.receive m)
        (entryCalls seat s m.round ++
          [.broadcast (sign seat s m.round (.propose value (backing seat s m.round) prepares))])
        none { s.enter m.round with proposedRound := some m.round }
  /-- A partial quorum asks for higher rounds: the instance follows to the lowest of them. -/
  | follow {m : SignedMessage S} {above : List (SignedMessage S)} {round : Round}
      (htype : m.type = .roundChange) (hopen : s.decided = none)
      (habove : s.roundChanges.aboveRound? s.round = .ok above)
      (hquorum : seat.committee.partialQuorum ≤ distinctSigners above)
      (hlowest : lowestRound? above = some round) (hlt : s.round.toNat < round.toNat) :
      Move seat s (.receive m)
        [timerCall seat (s.moveTo round),
          .broadcast (roundChange seat (s.moveTo round) round)] none (s.moveTo round)
  /-- The current round times out: the instance moves on to the next one. -/
  | expire {round : Round} (hrunning : s.stopped seat = false) (hopen : s.decided = none)
      (hnext : s.round.next? = .ok round) :
      Move seat s (.timeout s.round)
        [timerCall seat (s.moveTo round),
          .broadcast (roundChange seat (s.moveTo round) round)] none (s.moveTo round)
  /-- The instance learns that a quorum has committed the value it accepted: it decides. -/
  | learn {commit : SignedMessage S} {value : Value S} (hopen : s.decided = none)
      (hvalue : s.acceptedValue? = some value)
      (hroot : commit.message.valueRoot? = some value.root) :
      Move seat s (.learn commit) [.cancel s.height] (some ⟨value, commit⟩)
        { s with commits := s.commits.add commit, decided := some value }

/-- A sequence of moves of one event. -/
inductive Path (seat : Seat S) (e : Event S) (s : Instance S) :
    List (Effect S) → List (Decision S) → Instance S → Prop
  | stay : Path seat e s [] [] s
  | move {effects effects' : List (Effect S)} {decisions : List (Decision S)}
      {decision : Option (Decision S)} {t u : Instance S}
      (hpath : Path seat e s effects decisions t) (hmove : Move seat t e effects' decision u) :
      Path seat e s (effects ++ effects') (decisions ++ decision.toList) u

/-- The decision that an answer holds. -/
def decisionOf : Except Error (Option (Decision S)) → List (Decision S)
  | .ok (some decision) => [decision]
  | _ => []

variable {seat : Seat S} {net : Network S} {s : Instance S}

namespace Path

theorem of_move {e : Event S} {effects : List (Effect S)} {decision : Option (Decision S)}
    {t : Instance S} (h : Move seat s e effects decision t) :
    Path seat e s effects decision.toList t := by
  simpa using Path.stay.move h

theorem trans {e : Event S} {effects effects' : List (Effect S)}
    {decisions decisions' : List (Decision S)} {t u : Instance S}
    (h : Path seat e s effects decisions t) (h' : Path seat e t effects' decisions' u) :
    Path seat e s (effects ++ effects') (decisions ++ decisions') u := by
  induction h' with
  | stay => simpa using h
  | move _ hmove ih =>
    rw [← List.append_assoc, ← List.append_assoc]
    exact ih.move hmove

end Path

/-- What an operation that answers no decision does on an event is a path. -/
def IsPath (seat : Seat S) (e : Event S) (s : Instance S)
    (o : Step S (Instance S) Error Unit) : Prop :=
  Path seat e s o.effects [] o.state

theorem isPath_done {e : Event S} : IsPath seat e s (.done s ()) := .stay

theorem isPath_refuse {e : Event S} {error : Error} : IsPath seat e s (.refuse s error) := .stay

theorem isPath_of_move {e : Event S} {effects : List (Effect S)} {t : Instance S}
    {answer : Except Error Unit} (h : Move seat s e effects none t) :
    IsPath seat e s ⟨t, effects, answer⟩ := .of_move h

@[simp] theorem decisionOf_undecided (o : Step S (Instance S) Error Unit) :
    decisionOf (Instance.undecided o).answer = [] := by
  cases hanswer : o.answer with
  | error e => simp [Instance.undecided, Step.mapAnswer, Except.map, decisionOf, hanswer]
  | ok _ => simp [Instance.undecided, Step.mapAnswer, Except.map, decisionOf, hanswer]

/-- An operation that answers no decision is one that decides nothing. -/
theorem IsPath.undecided {e : Event S} {o : Step S (Instance S) Error Unit}
    (h : IsPath seat e s o) : Path seat e s (undecided o).effects
      (decisionOf (undecided o).answer) (undecided o).state := by
  rw [decisionOf_undecided]
  exact h

theorem isLeader_eq_ok_true {round : Round} (h : isLeader seat s round = .ok true) :
    leader seat s round = .ok seat.signer.id := by
  simp only [isLeader, bind_eq_ok_iff, pure_eq_ok, Except.ok.injEq, decide_eq_true_eq] at h
  obtain ⟨id, hid, rfl⟩ := h
  exact hid

theorem start_isPath (value : Value S) : IsPath seat (.start value) s (start seat net s value) := by
  unfold Instance.start
  by_cases hnew : s.started = true
  · rw [if_pos hnew]
    exact isPath_done
  rw [if_neg hnew]
  have hnew : s.started = false := by simpa using hnew
  have hstart : Move seat s (.start value) [timerCall seat s] none
      { s with startValue := some value } := .start hnew
  dsimp only
  by_cases hround : s.round = Round.first
  · rw [if_pos hround]
    split
    · exact isPath_of_move hstart
    · rename_i hleader
      exact isPath_of_move (.lead hnew hround (isLeader_eq_ok_true hleader))
    · exact isPath_of_move hstart
  · rw [if_neg hround]
    exact isPath_of_move hstart

theorem onPropose_isPath {m : SignedMessage S} (hreach : Reaches seat s m)
    (htype : m.type = .propose) : IsPath seat (.receive m) s (onPropose seat net s m) := by
  unfold onPropose
  split
  · exact isPath_refuse
  rename_i hvalid
  split
  · exact isPath_refuse
  rename_i value hvalue
  have hmove := Move.accept hreach htype hvalid hvalue
  by_cases hlt : s.round < m.round
  · rw [if_pos hlt]
    rw [entryCalls, if_pos hlt] at hmove
    exact isPath_of_move hmove
  -- a message that reaches the instance is not of a lower round, so this is the current one
  · rw [if_neg hlt]
    rw [entryCalls, if_neg hlt] at hmove
    have hround : m.round = s.round := by
      have := hreach.round_le
      rw [Round.lt_iff] at hlt
      exact Round.toNat_inj.1 (by omega)
    rw [hround] at hmove ⊢
    exact isPath_of_move hmove

theorem onPrepare_isPath {m : SignedMessage S} (hreach : Reaches seat s m)
    (htype : m.type = .prepare) : IsPath seat (.receive m) s (onPrepare seat net s m) := by
  unfold onPrepare
  split
  · exact isPath_refuse
  rename_i hvalid
  split
  · exact isPath_done
  rename_i prepares hadd
  obtain ⟨hnew, rfl⟩ := Tally.addFirst?_eq_some hadd
  have hstore := Move.storePrepare hreach htype hvalid hnew
  dsimp only
  split
  · exact isPath_of_move hstore
  rename_i value hvalue
  split
  · exact isPath_of_move hstore
  rename_i hfirst
  split
  · rename_i hquorum
    exact isPath_of_move
      (.prepare hreach htype hvalid hnew hvalue hfirst (Committee.isQuorum_iff.1 hquorum))
  · exact isPath_of_move hstore

theorem onCommit_path {m : SignedMessage S} (hreach : Reaches seat s m) (htype : m.type = .commit) :
    Path seat (.receive m) s (onCommit seat s m).effects (decisionOf (onCommit seat s m).answer)
      (onCommit seat s m).state := by
  unfold onCommit
  split
  · exact .stay
  rename_i hvalid
  split
  · exact .stay
  rename_i commits hadd
  obtain ⟨hnew, rfl⟩ := Tally.addFirst?_eq_some hadd
  have hstore := Path.of_move (Move.storeCommit hreach htype hvalid hnew)
  dsimp only
  split
  · exact hstore
  rename_i hopen
  split
  · exact hstore
  rename_i value hvalue
  split
  · rename_i hquorum
    split
    · exact hstore
    · rename_i commit hcommit
      have hopen : s.decided = none := by simpa [isDecided] using hopen
      exact Path.of_move
        (.decide hreach htype hvalid hnew hopen hvalue (Committee.isQuorum_iff.1 hquorum) hcommit)
  · exact hstore

/-! ### Round changes -/

theorem round_lt_of_aboveRound? {t : Tally S} {round : Round} {above : List (SignedMessage S)}
    (h : t.aboveRound? round = .ok above) {m : SignedMessage S} (hm : m ∈ above) :
    round.toNat < m.round.toNat := by
  simp only [Tally.aboveRound?, bind_eq_ok_iff, pure_eq_ok, Except.ok.injEq] at h
  obtain ⟨next, hnext, rfl⟩ := h
  have hle := of_decide_eq_true (List.mem_filter.1 hm).2
  have := Round.next?_eq_ok hnext
  rw [Round.le_iff] at hle
  omega

theorem lowestRound?_eq_some {ms : List (SignedMessage S)} {round : Round}
    (h : lowestRound? ms = some round) : ∃ m ∈ ms, m.round = round := by
  induction ms generalizing round with
  | nil => cases h
  | cons m rest ih =>
    unfold lowestRound? at h
    split at h
    · exact ⟨m, List.mem_cons_self, Option.some.inj h⟩
    · rename_i lowest hlowest
      split at h
      · exact ⟨m, List.mem_cons_self, Option.some.inj h⟩
      · obtain ⟨x, hx, hround⟩ := ih hlowest
        exact ⟨x, List.mem_cons_of_mem m hx, hround.trans (Option.some.inj h)⟩

theorem proposeOnQuorum_isPath {m : SignedMessage S} (htype : m.type = .roundChange)
    (hopen : s.decided = none) :
    IsPath seat (.receive m) s (proposeOnQuorum seat net s m.round) := by
  unfold proposeOnQuorum
  split
  · exact isPath_done
  rename_i hround
  rw [not_or, Round.lt_iff, not_lt] at hround
  split
  · exact isPath_refuse
  · exact isPath_done
  rename_i hleader
  dsimp only
  split
  · exact isPath_done
  rename_i hquorum
  have hquorum := Committee.isQuorum_iff.1 (Decidable.not_not.1 hquorum)
  split
  · exact isPath_refuse
  · exact isPath_done
  rename_i value prepares hproposal
  have hmove := Move.propose htype hopen hround.1 hround.2 (isLeader_eq_ok_true hleader) hquorum
    hproposal
  by_cases hlt : s.round < m.round
  · rw [if_pos hlt]
    rw [entryCalls, enter, if_pos hlt, if_pos hlt] at hmove
    exact isPath_of_move hmove
  · rw [if_neg hlt]
    rw [entryCalls, enter, if_neg hlt, if_neg hlt] at hmove
    exact isPath_of_move hmove

theorem skipAhead_isPath {m : SignedMessage S} (htype : m.type = .roundChange)
    (hopen : s.decided = none) : IsPath seat (.receive m) s (skipAhead seat net s) := by
  unfold skipAhead
  split
  · exact isPath_refuse
  rename_i above habove
  split
  · exact isPath_done
  rename_i hquorum
  split
  · exact isPath_done
  rename_i round hlowest
  have hlt : s.round.toNat < round.toNat := by
    obtain ⟨x, hx, rfl⟩ := lowestRound?_eq_some hlowest
    exact round_lt_of_aboveRound? habove hx
  refine isPath_of_move (.follow htype hopen habove ?_ hlowest hlt)
  exact Committee.isPartialQuorum_iff.1 (Decidable.not_not.1 hquorum)

/-- There is nobody to follow where nobody asks for a round above the current one. -/
theorem skipAhead_eq_done {next : Round} (hnext : s.round.next? = .ok next)
    (hlow : ∀ m ∈ s.roundChanges.messages, m.round.toNat ≤ s.round.toNat) :
    skipAhead seat net s = .done s () := by
  have habove : s.roundChanges.aboveRound? s.round = .ok [] := by
    simp only [Tally.aboveRound?, hnext, ok_bind, pure_eq_ok, Except.ok.injEq,
      List.filter_eq_nil_iff, Tally.byRound, List.mem_mergeSort, decide_eq_true_eq, Round.le_iff]
    intro m hm
    have := hlow m hm
    have := Round.next?_eq_ok hnext
    omega
  rw [skipAhead, habove]
  dsimp only
  split <;> rfl

theorem proposeOnQuorum_decided (round : Round) :
    (proposeOnQuorum seat net s round).state.decided = s.decided := by
  unfold proposeOnQuorum
  split
  · rfl
  split
  · rfl
  · rfl
  dsimp only
  split
  · rfl
  split
  · rfl
  · rfl
  split <;> rfl

theorem both_isPath {e : Event S} {first : Step S (Instance S) Error Unit}
    {second : Instance S → Step S (Instance S) Error Unit} (hfirst : IsPath seat e s first)
    (hsecond : IsPath seat e first.state (second first.state)) :
    IsPath seat e s (both first second) := by
  unfold both
  split
  · exact hfirst
  · exact hfirst.trans hsecond

theorem onRoundChange_isPath {m : SignedMessage S} (hreach : Reaches seat s m)
    (htype : m.type = .roundChange) : IsPath seat (.receive m) s (onRoundChange seat net s m) := by
  unfold onRoundChange
  split
  · exact isPath_refuse
  rename_i hvalid
  split
  · exact isPath_done
  rename_i roundChanges hadd
  obtain ⟨hnew, rfl⟩ := Tally.addFirst?_eq_some hadd
  have hstore := Path.of_move (Move.storeRoundChange hreach htype hvalid hnew)
  dsimp only
  split
  · exact hstore
  -- up to three moves: the round change is stored, answered with a proposal, and followed
  rename_i hopen
  have hopen : s.decided = none := by simpa [isDecided] using hopen
  refine hstore.trans (both_isPath (proposeOnQuorum_isPath htype hopen) ?_)
  exact skipAhead_isPath htype ((proposeOnQuorum_decided m.round).trans hopen)

/-! ### Events -/

theorem receive_path (m : SignedMessage S) :
    Path seat (.receive m) s (receive seat net s m).effects
      (decisionOf (receive seat net s m).answer) (receive seat net s m).state := by
  unfold receive
  by_cases hrunning : s.stopped seat = true
  · rw [if_pos hrunning]
    exact .stay
  rw [if_neg hrunning]
  split
  · exact .stay
  rename_i hbase
  obtain ⟨hid, hheight, hround⟩ := validateBase_eq_ok_iff.1 hbase
  have hreach : Reaches seat s m := ⟨by simpa using hrunning, hid, hheight, hround⟩
  split
  · rename_i htype
    exact (onPropose_isPath hreach htype).undecided
  · rename_i htype
    exact (onPrepare_isPath hreach htype).undecided
  · rename_i htype
    exact onCommit_path hreach htype
  · rename_i htype
    exact (onRoundChange_isPath hreach htype).undecided

theorem timeout_isPath (round : Round) :
    IsPath seat (.timeout round) s (timeout seat net s round) := by
  unfold timeout
  by_cases hrunning : s.stopped seat = true
  · rw [if_pos hrunning]
    exact isPath_refuse
  rw [if_neg hrunning]
  split
  · exact isPath_done
  rename_i hcurrent
  rw [not_or, Decidable.not_not] at hcurrent
  obtain ⟨hopen, rfl⟩ := hcurrent
  split
  · exact isPath_refuse
  · rename_i next hnext
    refine isPath_of_move (.expire (by simpa using hrunning) ?_ hnext)
    simpa [isDecided] using hopen

theorem learn_path (commit : SignedMessage S) :
    Path seat (.learn commit) s (learn s commit).effects (decisionOf (learn s commit).answer)
      (learn s commit).state := by
  unfold learn
  split
  · exact .stay
  rename_i hopen
  split
  · exact .stay
  rename_i value hvalue
  split
  · exact .stay
  rename_i hroot
  refine Path.of_move (.learn ?_ hvalue (Decidable.not_not.1 hroot))
  simpa [isDecided] using hopen

/-- What an instance does on an event is a sequence of moves. -/
theorem step_path (seat : Seat S) (net : Network S) (s : Instance S) (e : Event S) :
    Path seat e s (step seat net s e).effects (decisionOf (step seat net s e).answer)
      (step seat net s e).state := by
  cases e with
  | start value => exact (start_isPath value).undecided
  | receive m => exact receive_path m
  | timeout round => exact (timeout_isPath round).undecided
  | learn commit => exact learn_path commit

/-- The round changes that an instance has stored change by the one that arrives, which is valid. -/
theorem Move.roundChanges {e : Event S} {effects : List (Effect S)}
    {decision : Option (Decision S)} {u : Instance S} (h : Move seat s e effects decision u) :
    u.roundChanges = s.roundChanges ∨ ∃ m, e = .receive m ∧ m.type = .roundChange ∧
      IsRoundChangeFor seat s.height m.round m ∧ u.roundChanges = s.roundChanges.add m := by
  cases h with
  | storeRoundChange hreach htype hvalid hnew =>
    exact .inr ⟨_, rfl, htype, validateRoundChange_eq_ok_iff.1 hvalid, rfl⟩
  | propose htype hopen hround hfirst hleader hquorum hproposal =>
    exact .inl (enter_roundChanges _ _)
  | _ => exact .inl rfl

/-! ### Decisions -/

/-- A move that decides is the first one to do so, and no other one touches the decided value. -/
theorem Move.decided {e : Event S} {effects : List (Effect S)} {decision : Option (Decision S)}
    {u : Instance S} (h : Move seat s e effects decision u) :
    decision = none ∧ u.decided = s.decided ∨
      ∃ d, decision = some d ∧ s.decided = none ∧ u.decided = some d.value := by
  cases h with
  | start hnew => exact .inl ⟨rfl, rfl⟩
  | lead hnew hround hleader => exact .inl ⟨rfl, rfl⟩
  | accept hreach htype hvalid hvalue => exact .inl ⟨rfl, rfl⟩
  | storePrepare hreach htype hvalid hnew => exact .inl ⟨rfl, rfl⟩
  | prepare hreach htype hvalid hnew hvalue hfirst hquorum => exact .inl ⟨rfl, rfl⟩
  | storeCommit hreach htype hvalid hnew => exact .inl ⟨rfl, rfl⟩
  | decide hreach htype hvalid hnew hopen hvalue hquorum hcommit =>
    exact .inr ⟨_, rfl, hopen, rfl⟩
  | storeRoundChange hreach htype hvalid hnew => exact .inl ⟨rfl, rfl⟩
  | propose htype hopen hround hfirst hleader hquorum hproposal =>
    exact .inl ⟨rfl, enter_decided _ _⟩
  | follow htype hopen habove hquorum hlowest hlt => exact .inl ⟨rfl, rfl⟩
  | expire hrunning hopen hnext => exact .inl ⟨rfl, rfl⟩
  | learn hopen hvalue hroot => exact .inr ⟨_, rfl, hopen, rfl⟩

/-- A sequence of moves decides at most once, and not after a decision. -/
theorem Path.decided {e : Event S} {effects : List (Effect S)} {decisions : List (Decision S)}
    {u : Instance S} (h : Path seat e s effects decisions u) :
    decisions = [] ∧ u.decided = s.decided ∨
      ∃ d, decisions = [d] ∧ s.decided = none ∧ u.decided = some d.value := by
  induction h with
  | stay => exact .inl ⟨rfl, rfl⟩
  | move _ hmove ih =>
    rcases hmove.decided with ⟨rfl, hsame⟩ | ⟨d, rfl, hopen, hvalue⟩
    · rw [Option.toList_none, List.append_nil, hsame]
      exact ih
    · rcases ih with ⟨rfl, hsame⟩ | ⟨d', -, -, hvalue'⟩
      · exact .inr ⟨d, rfl, hsame ▸ hopen, hvalue⟩
      · rw [hopen] at hvalue'
        cases hvalue'

/-- An answer holds a decision exactly if the instance decides. -/
theorem step_decided (seat : Seat S) (net : Network S) (s : Instance S) (e : Event S) :
    decisionOf (step seat net s e).answer = [] ∧ (step seat net s e).state.decided = s.decided ∨
      ∃ d, decisionOf (step seat net s e).answer = [d] ∧ s.decided = none ∧
        (step seat net s e).state.decided = some d.value :=
  (step_path seat net s e).decided

theorem decided_of_no_decision {e : Event S} (h : decisionOf (step seat net s e).answer = []) :
    (step seat net s e).state.decided = s.decided := by
  rcases step_decided seat net s e with ⟨-, hsame⟩ | ⟨d, hd, -⟩
  · exact hsame
  · rw [h] at hd
    cases hd

theorem decided_of_decision {e : Event S} {d : Decision S}
    (h : decisionOf (step seat net s e).answer = [d]) :
    s.decided = none ∧ (step seat net s e).state.decided = some d.value := by
  rcases step_decided seat net s e with ⟨hnone, -⟩ | ⟨d, hd, hdecides⟩
  · rw [h] at hnone
    cases hnone
  · rw [h] at hd
    obtain rfl := List.singleton_inj.1 hd
    exact hdecides

end Instance
end Conclave
