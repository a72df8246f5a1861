import Conclave.Proofs.Assembly.Agreement
import Mathlib

/-!
# Rounds

Faulty members cannot push the rounds. An honest member enters a round above the first in one of
three ways: its own timeout of the round before is delivered, it accepts a proposal that a quorum of
round changes justifies, or it has stored the round changes of a quorum or of a partial quorum for
this round or higher ones. In the last two ways some honest member has asked for this round or a
higher one before (`Called`), and had to be in the round it asked for.

So the rounds of all honest members are bounded by those that timeouts have reached, one after the
other (`rounds_by_timeouts`), by induction on what has happened.

* `Course` is a world with the events that led to it;
* `Enters` lists the ways into a round, `Move.enters` says that there are no others;
* `Heard` is the evidence for the round changes that a member has stored.
-/

namespace Conclave

namespace Instance

variable {S : Scheme} {seat : Seat S} {s u : Instance S} {e : Event S} {effects : List (Effect S)}
  {decision : Option (Decision S)}

theorem lowestRound?_le {ms : List (SignedMessage S)} {round : Round}
    (h : lowestRound? ms = some round) {m : SignedMessage S} (hm : m ∈ ms) :
    round.toNat ≤ m.round.toNat := by
  induction ms generalizing round with
  | nil => cases hm
  | cons x rest ih =>
    unfold lowestRound? at h
    split at h
    · rename_i hnone
      obtain rfl := Option.some.inj h
      rcases List.mem_cons.1 hm with rfl | hm
      · exact le_rfl
      -- a list with a lowest round that is missing is empty
      · cases rest with
        | nil => cases hm
        | cons y rest =>
          unfold lowestRound? at hnone
          split at hnone <;> cases hnone
    · rename_i lowest hlowest
      obtain rfl := Option.some.inj h
      rcases List.mem_cons.1 hm with rfl | hm
      · split
        · exact le_rfl
        · rename_i hlt
          rw [Round.le_iff] at hlt
          omega
      · have hle := ih hlowest hm
        split
        · rename_i hx
          exact (Round.le_iff.1 hx).trans hle
        · exact hle

theorem mem_of_aboveRound? {t : Tally S} {round : Round} {above : List (SignedMessage S)}
    (h : t.aboveRound? round = .ok above) {m : SignedMessage S} (hm : m ∈ above) :
    m ∈ t.messages := by
  simp only [Tally.aboveRound?, bind_eq_ok_iff, pure_eq_ok, Except.ok.injEq] at h
  obtain ⟨next, -, rfl⟩ := h
  exact List.mem_mergeSort.1 (List.mem_filter.1 hm).1

/-- The ways into a round. -/
inductive Enters (seat : Seat S) (s : Instance S) : Event S → Round → Prop
  /-- A proposal that may be accepted. -/
  | proposal {m : SignedMessage S} {value : Value S} (hround : s.round.toNat ≤ m.round.toNat)
      (hjustified : m.round = Round.first ∨ ProposalJustified seat s.height m.round value
        m.message.roundChanges m.message.prepares) :
      Enters seat s (.receive m) m.round
  /-- Stored round changes of a quorum or of a partial quorum for this round or higher ones. -/
  | roundChanges {e : Event S} {ms : List (SignedMessage S)} {round : Round}
      (hms : ∀ x ∈ ms, x ∈ s.roundChanges.messages ∧ round.toNat ≤ x.round.toNat)
      (hmany : min seat.committee.quorum seat.committee.partialQuorum ≤
        (ms.flatMap SignedMessage.signers).toFinset.card) :
      Enters seat s e round
  /-- The timeout of the round before. -/
  | timeout {round : Round} (hnext : s.round.next? = .ok round) :
      Enters seat s (.timeout s.round) round

/-- A move stays in its round, or enters a round in one of these ways. -/
theorem Move.enters (h : Move seat s e effects decision u) :
    u.round = s.round ∨ Enters seat s e u.round := by
  cases h with
  | start hnew => exact .inl rfl
  | lead hnew hround hleader => exact .inl rfl
  | accept hreach htype hvalid hvalue =>
    obtain ⟨-, -, ⟨value, -, hjustified⟩, -⟩ := validateProposal_eq_ok_iff.1 hvalid
    exact .inr (.proposal hreach.round_le
      (validateProposalJustification_eq_ok_iff.1 hjustified).2)
  | storePrepare hreach htype hvalid hnew => exact .inl rfl
  | prepare hreach htype hvalid hnew hvalue hfirst hquorum => exact .inl rfl
  | storeCommit hreach htype hvalid hnew => exact .inl rfl
  | decide hreach htype hvalid hnew hopen hvalue hquorum hcommit => exact .inl rfl
  | storeRoundChange hreach htype hvalid hnew => exact .inl rfl
  | @propose m value prepares htype hopen hround hfirst hleader hquorum hproposal =>
    unfold enter
    split
    · rw [distinctSigners_eq_card] at hquorum
      refine .inr (.roundChanges (fun x hx => ?_) ((Nat.min_le_left _ _).trans hquorum))
      obtain ⟨hx, hround⟩ := Tally.mem_ofRound.1 (List.mem_filter.1 hx).1
      exact ⟨hx, hround ▸ le_rfl⟩
    · exact .inl rfl
  | @follow m above round htype hopen habove hquorum hlowest hlt =>
    rw [distinctSigners_eq_card] at hquorum
    refine .inr (.roundChanges (fun x hx => ?_) ((Nat.min_le_right _ _).trans hquorum))
    exact ⟨mem_of_aboveRound? habove hx, lowestRound?_le hlowest hx⟩
  | expire hrunning hopen hnext => exact .inr (.timeout hnext)
  | learn hopen hvalue hroot => exact .inl rfl

end Instance

namespace Assembly

open Instance

variable {S : Scheme} (a : Assembly S)

/-! ### Courses -/

/-- Something that has happened to a member: the event, and its instance before and after it. -/
structure Act (S : Scheme) where
  id : OperatorId
  event : Event S
  before : Instance S
  after : Instance S

/-- What happens to a member when an event reaches it. -/
def act (w : World S) (id : OperatorId) (net : Network S) (e : Event S) : Act S :=
  ⟨id, e, (w id).state, (step (a.seat id) net (w id).state e).state⟩

/-- The worlds that can come about, with what has happened on the way, the latest last. -/
inductive Course : List (Act S) → World S → Prop
  | init : Course [] fun _ => .new a.height
  | next {past : List (Act S)} {w : World S} {id : OperatorId} (net : Network S) (e : Event S)
      (h : Course past w) (hid : a.Honest id) (he : a.Admits w id e) :
      Course (past ++ [a.act w id net e])
        (Function.update w id ((w id).extend (a.seat id) net e))

/-- An honest member has moved to a round because its timeout of the round before was delivered. -/
def TimedOut (past : List (Act S)) (round : Round) : Prop :=
  ∃ x ∈ past, a.Honest x.id ∧ x.event = .timeout x.before.round ∧
    x.before.round.toNat + 1 = round.toNat ∧ x.after.round = round

variable {a} {w : World S} {past : List (Act S)}

theorem Course.reachable (h : a.Course past w) : a.Reachable w := by
  induction h with
  | init => exact .init
  | next net e _ hid he ih => exact ih.act net e hid he

/-- Every world that can come about has a course. -/
theorem Reachable.exists_course (h : a.Reachable w) : ∃ past, a.Course past w := by
  induction h with
  | init => exact ⟨_, .init⟩
  | act net e _ hid he ih =>
    obtain ⟨past, hpast⟩ := ih
    exact ⟨_, hpast.next net e hid he⟩

theorem TimedOut.append {round : Round} (h : a.TimedOut past round) (x : Act S) :
    a.TimedOut (past ++ [x]) round := by
  obtain ⟨y, hy, htimeout⟩ := h
  exact ⟨y, List.mem_append_left _ hy, htimeout⟩

/-! ### Who has asked for a round -/

variable (a)

/-- The signers of a round change are members, and the honest ones among them have asked for its
round. -/
structure Asks (w : World S) (m : SignedMessage S) : Prop where
  members : ∀ id ∈ m.signers, id ∈ a.committee.names
  asked : ∀ id ∈ m.signers, id ∉ a.faulty → ∃ last, (w id).Asked m.round last

/-- There is evidence for the round changes that an instance has stored. -/
structure Heard (w : World S) (s : Instance S) : Prop where
  height_eq : s.height = a.height
  roundChanges : ∀ m ∈ s.roundChanges.messages, a.Asks w m

/-- An honest member has asked for a round or a higher one. -/
def Called (w : World S) (round : Round) : Prop :=
  ∃ id, a.Honest id ∧ ∃ round' last, (w id).Asked round' last ∧ round.toNat ≤ round'.toNat

variable {a}

theorem Asks.mono {w' : World S} (hw : ∀ id, (w id).sent ⊆ (w' id).sent) {m : SignedMessage S}
    (h : a.Asks w m) : a.Asks w' m where
  members := h.members
  asked id hid hhonest := by
    obtain ⟨last, x, hx, hask⟩ := h.asked id hid hhonest
    exact ⟨last, x, hw id hx, hask⟩

theorem Heard.mono {w' : World S} (hw : ∀ id, (w id).sent ⊆ (w' id).sent) {s : Instance S}
    (h : a.Heard w s) : a.Heard w' s :=
  ⟨h.height_eq, fun m hm => (h.roundChanges m hm).mono hw⟩

/-- The honest signers of a round change that verifies have asked for its round. -/
theorem Genuine.asks {m : SignedMessage S} (h : a.Genuine w m) (hheight : m.height = a.height)
    (htype : m.type = .roundChange) (hverify : m.verify a.committee a.domain = .ok ()) :
    a.Asks w m where
  members _ hid := SignedMessage.mem_names_of_verify hverify hid
  asked id hid hhonest := by
    obtain ⟨y, hy, heq⟩ := h.signed hheight hverify hid hhonest
    refine ⟨_, y, hy, ?_, ?_, rfl⟩
    · rw [SignedMessage.type, heq, ← SignedMessage.type, htype]
    · rw [SignedMessage.round, heq, ← SignedMessage.round]

theorem Heard.move {id : OperatorId} {s u : Instance S} {e : Event S} {effects : List (Effect S)}
    {decision : Option (Decision S)} (h : a.Heard w s) (he : a.Admits w id e)
    (hmove : Move (a.seat id) s e effects decision u) : a.Heard w u := by
  have hheight := hmove.turn.1
  rcases hmove.roundChanges with hsame | ⟨m, rfl, htype, hvalid, hadd⟩
  · refine ⟨hheight.trans h.height_eq, fun x hx => h.roundChanges x ?_⟩
    rwa [hsame] at hx
  · refine ⟨hheight.trans h.height_eq, fun x hx => ?_⟩
    rw [hadd, Tally.messages_add, List.mem_append, List.mem_singleton] at hx
    rcases hx with hx | rfl
    · exact h.roundChanges x hx
    · exact Genuine.asks he (hvalid.height_eq.trans h.height_eq) htype
        (verify_seat.1 hvalid.verified)

/-- In a reachable world there is evidence for all round changes that an honest member has
stored. -/
theorem Reachable.heard (h : a.Reachable w) (id : OperatorId) : a.Heard w (w id).state := by
  induction h generalizing id with
  | init => exact ⟨rfl, nofun⟩
  | @act w actor net e _ hid he ih =>
    by_cases heq : id = actor
    · subst heq
      rw [Function.update_self]
      refine Heard.mono (sent_subset_act w id net e) ?_
      exact Trace.extend_induct (P := fun t => a.Heard w t.state) (ih id)
        fun t effects decision u ht hmove => ht.move he hmove
    · rw [Function.update_of_ne heq]
      exact (ih id).mono (sent_subset_act w actor net e)

/-- More members than may be faulty have an honest one among them. -/
theorem called_of_signers {ms : List (SignedMessage S)} {round : Round}
    (hms : ∀ m ∈ ms, a.Asks w m ∧ round.toNat ≤ m.round.toNat)
    (hmany : min a.committee.quorum a.committee.partialQuorum ≤
      (ms.flatMap SignedMessage.signers).toFinset.card) : a.Called w round := by
  rw [min_eq_right (Committee.partialQuorum_le_quorum a.nonempty)] at hmany
  obtain ⟨id, hid, hhonest⟩ := Committee.exists_mem_notMem hmany a.faulty_le
  obtain ⟨m, hm, hid⟩ := List.mem_flatMap.1 (List.mem_toFinset.1 hid)
  obtain ⟨hasks, hround⟩ := hms m hm
  obtain ⟨last, hasked⟩ := hasks.asked id hid hhonest
  exact ⟨id, honest_iff.2 ⟨hasks.members id hid, hhonest⟩, m.round, last, hasked, hround⟩

/-- A round above the first that is entered without a timeout is one that an honest member has
called for. -/
theorem called_of_enters {id : OperatorId} {s : Instance S} {e : Event S} {round : Round}
    (h : a.Heard w s) (he : a.Admits w id e) (henters : Enters (a.seat id) s e round)
    (htimeout : ∀ r, e ≠ .timeout r) : round = Round.first ∨ a.Called w round := by
  cases henters with
  | @proposal m value hround hjustified =>
    refine hjustified.imp (fun h => h) fun hjustified => ?_
    refine called_of_signers (fun x hx => ?_) ((Nat.min_le_left _ _).trans hjustified.quorum)
    obtain ⟨htype, hchange⟩ := hjustified.asked x hx
    have hgenuine : a.Genuine w x := Genuine.roundChange (m := m) he hx
    exact ⟨hgenuine.asks (hchange.height_eq.trans h.height_eq) htype
      (verify_seat.1 hchange.verified), hchange.round_eq ▸ le_rfl⟩
  | roundChanges hms hmany =>
    exact .inr (called_of_signers (fun x hx => ⟨h.roundChanges x (hms x hx).1, (hms x hx).2⟩) hmany)
  | timeout hnext => exact absurd rfl (htimeout _)

/-! ### Rounds that timeouts have reached -/

/-- Only the timeout of the current round has an effect. -/
theorem timeout_round (seat : Seat S) (net : Network S) (s : Instance S) (round : Round) :
    (step seat net s (.timeout round)).state.round = s.round ∨
      round = s.round ∧ s.round.next? = .ok (step seat net s (.timeout round)).state.round := by
  change (timeout seat net s round).state.round = _ ∨
    _ ∧ _ = Except.ok (timeout seat net s round).state.round
  unfold timeout
  split
  · exact .inl rfl
  split
  · exact .inl rfl
  rename_i hcurrent
  obtain ⟨-, rfl⟩ := not_or.1 hcurrent |>.imp_right Decidable.not_not.1
  split
  · exact .inl rfl
  · rename_i next hnext
    exact .inr ⟨rfl, hnext⟩

/-- Other events take a member no further than a round that an honest member has called for. -/
theorem Reachable.called_of_act (hw : a.Reachable w) {id : OperatorId} (net : Network S)
    {e : Event S} (he : a.Admits w id e) (htimeout : ∀ r, e ≠ .timeout r) :
    ((w id).extend (a.seat id) net e).state.round.toNat ≤ (w id).state.round.toNat ∨
      a.Called w ((w id).extend (a.seat id) net e).state.round := by
  have hfirst := (hw.run id).disciplined.first_le
  refine (Trace.extend_induct (P := fun t => a.Heard w t.state ∧
    (t.state.round.toNat ≤ (w id).state.round.toNat ∨ a.Called w t.state.round))
    ⟨hw.heard id, .inl le_rfl⟩ fun t effects decision u ht hmove => ⟨ht.1.move he hmove, ?_⟩).2
  rcases hmove.enters with hround | henters
  · rw [Trace.state_after, hround]
    exact ht.2
  · rw [Trace.state_after]
    refine (called_of_enters ht.1 he henters htimeout).imp_left fun hround => ?_
    rwa [hround, Round.toNat_first]

/-- An honest member is in a round at least as high as one that was called for. -/
theorem Called.exists_round_le (hw : a.Reachable w) {round : Round} (h : a.Called w round) :
    ∃ id, a.Honest id ∧ round.toNat ≤ (w id).state.round.toNat := by
  obtain ⟨id, hid, round', last, hasked, hle⟩ := h
  exact ⟨id, hid, hle.trans ((hw.run id).disciplined.asked_le hasked)⟩

/-- Every round above the first, up to that of an honest member, was reached by a timeout. -/
theorem Course.timedOut (h : a.Course past w) {id : OperatorId} (hid : a.Honest id) {round : Round}
    (hfirst : 1 < round.toNat) (hround : round.toNat ≤ (w id).state.round.toNat) :
    a.TimedOut past round := by
  induction h generalizing id with
  | init => exact absurd hround (not_le.2 hfirst)
  | @next past w actor net e hpast hactor he ih =>
    have hold : ∀ {j}, a.Honest j → round.toNat ≤ (w j).state.round.toNat →
        a.TimedOut (past ++ [a.act w actor net e]) round :=
      fun hj hle => (ih hj hle).append _
    by_cases heq : id = actor
    swap
    · rw [Function.update_of_ne heq] at hround
      exact hold hid hround
    subst heq
    rw [Function.update_self] at hround
    by_cases htimeout : ∃ r, e = .timeout r
    · obtain ⟨r, rfl⟩ := htimeout
      rcases timeout_round (a.seat id) net (w id).state r with hsame | ⟨rfl, hnext⟩
      · exact hold hid (hround.trans_eq (congrArg Round.toNat hsame))
      · have hone := Round.next?_eq_ok hnext
        rcases hround.lt_or_eq with hlt | hlast
        · refine hold hid (Nat.lt_succ_iff.1 (hlt.trans_eq hone))
        -- the round that this very timeout has led to
        · refine ⟨_, List.mem_append_right _ (List.mem_singleton_self _), hid, rfl, ?_, ?_⟩
          · exact hone.symm.trans hlast.symm
          · exact Round.toNat_inj.1 hlast.symm
    · rw [not_exists] at htimeout
      rcases hpast.reachable.called_of_act net he htimeout with hle | hcalled
      · exact hold hid (hround.trans hle)
      · obtain ⟨j, hj, hle⟩ := hcalled.exists_round_le hpast.reachable
        exact hold hj (hround.trans hle)

/-- In every world that can come about, each round above the first that an honest member is in, or
has left behind, was reached by an honest member whose timeout of the round before was delivered.
So without such timeouts all honest members stay in the first round, and no one is brought to its
cutoff by faulty members alone. -/
theorem rounds_by_timeouts (h : a.Course past w) :
    (∀ id round, a.Honest id → Round.first < round → round ≤ (w id).state.round →
      a.TimedOut past round) ∧
    ((∀ x ∈ past, a.Honest x.id → ∀ round, x.event ≠ .timeout round) →
      ∀ id, a.Honest id → (w id).state.round = Round.first) ∧
    (∀ id, a.Honest id → Round.first < a.cutoff id → (w id).state.stopped (a.seat id) = true →
      a.TimedOut past (a.cutoff id)) := by
  refine ⟨fun id round hid hfirst hround => ?_, fun hnone id hid => ?_,
    fun id hid hfirst hstopped => ?_⟩
  · exact h.timedOut hid (Round.lt_iff.1 hfirst) (Round.le_iff.1 hround)
  · by_contra hne
    have hfirst := (h.reachable.run id).disciplined.first_le
    have hlt : 1 < (w id).state.round.toNat :=
      lt_of_le_of_ne hfirst fun heq => hne (Round.toNat_inj.1 heq.symm)
    obtain ⟨x, hx, hhonest, htimeout, -⟩ := h.timedOut hid hlt le_rfl
    exact hnone x hx hhonest _ htimeout
  · exact h.timedOut hid (Round.lt_iff.1 hfirst) (Round.le_iff.1 (of_decide_eq_true hstopped))

/-! ### A faulty member that asks for rounds -/

namespace Four

open Scheme

/-- The round change of a member that has prepared nothing. -/
def roundChange (id : UInt64) (round : Round) : SignedMessage plain :=
  plain.signed id ByteArray.empty Height.first round (.roundChange none [])

/-- The rounds of member 1 time out twice. Its second round change reaches member 2 together with
those of the faulty member, for rounds 2 and 9. -/
def timeouts : List (OperatorId × Event plain) :=
  [(⟨1⟩, .timeout ⟨1⟩),
    (⟨1⟩, .timeout ⟨2⟩),
    (⟨2⟩, .receive (roundChange 4 ⟨9⟩)),
    (⟨2⟩, .receive (roundChange 1 ⟨3⟩)),
    (⟨2⟩, .receive (roundChange 4 ⟨2⟩))]

/-- The world after the timeouts. -/
def late : World plain := assembly.play (fun _ => .new assembly.height) timeouts

theorem reachable_late : assembly.Reachable late := reachable_play .init (by decide +kernel)

end Four

/-- Member 2 of the four has followed to round 3, which member 1 had reached by its timeout. -/
theorem rounds_of_four : (Four.late ⟨2⟩).state.round = ⟨3⟩ ∧
    ∃ past, Four.assembly.Course past Four.late ∧ Four.assembly.TimedOut past ⟨3⟩ := by
  have hround : (Four.late ⟨2⟩).state.round = ⟨3⟩ := by cbv
  obtain ⟨past, hpast⟩ := Four.reachable_late.exists_course
  refine ⟨hround, past, hpast, (rounds_by_timeouts hpast).1 ⟨2⟩ ⟨3⟩ (by decide +kernel) ?_ ?_⟩
  · decide +kernel
  · rw [hround]
    exact Round.le_iff.2 le_rfl

end Assembly
end Conclave
