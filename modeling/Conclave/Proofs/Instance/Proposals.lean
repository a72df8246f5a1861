import Conclave.Proofs.Instance.Justification

/-!
# The proposals of one member

A member proposes on two occasions: it starts as the leader of the first round, or a quorum asks for
a round that it leads. It takes each of them once in a round. But nothing keeps it from taking both
in the first round, since a start does not count as a reply to a quorum, and round changes for the
first round are as valid as any.

* `Trace.openings` and `Trace.replies` count the proposals of either kind in a round;
* `Bid` says what a move means for them, `Sparing` what all runs keep;
* `proposes_twice_iff`: a member proposes twice in a round exactly if it does both there.

No member asks for the first round of its own accord (`first_lt_of_asked`), so that it takes a
quorum of others to make a leader propose twice.
-/

namespace Conclave
namespace Instance

variable {S : Scheme}

namespace Trace

/-- The number of proposals in a round. -/
def proposals (t : Trace S) (round : Round) : Nat :=
  t.sent.countP fun m => m.type = .propose ∧ m.round = round

/-- The number of proposals in a round that no quorum has asked for. -/
def openings (t : Trace S) (round : Round) : Nat :=
  t.sent.countP fun m => m.type = .propose ∧ m.round = round ∧ m.message.roundChanges = []

/-- The number of proposals in a round that reply to a quorum. -/
def replies (t : Trace S) (round : Round) : Nat :=
  t.sent.countP fun m => m.type = .propose ∧ m.round = round ∧ m.message.roundChanges ≠ []

variable {t : Trace S} {round : Round} {effects : List (Effect S)} {decisions : List (Decision S)}
  {s : Instance S}

theorem proposals_eq (t : Trace S) (round : Round) :
    t.proposals round = t.openings round + t.replies round := by
  unfold proposals openings replies
  induction t.sent with
  | nil => rfl
  | cons m rest ih =>
    simp only [List.countP_cons, ih]
    by_cases hpropose : m.type = .propose ∧ m.round = round
    · by_cases hopening : m.message.roundChanges = []
      · simp [hpropose, hopening]
        omega
      · simp [hpropose, hopening]
        omega
    · simp [← and_assoc, hpropose]

theorem openings_pos : 0 < t.openings round ↔
    ∃ m ∈ t.sent, m.type = .propose ∧ m.round = round ∧ m.message.roundChanges = [] := by
  simp [openings, List.countP_pos_iff]

theorem replies_pos : 0 < t.replies round ↔
    ∃ m ∈ t.sent, m.type = .propose ∧ m.round = round ∧ m.message.roundChanges ≠ [] := by
  simp [replies, List.countP_pos_iff]

/-- Sending anything else is no proposal. -/
theorem counts_after_of_ne (hsent : ∀ m ∈ sentBy effects, m.type ≠ .propose) :
    (t.after effects decisions s).openings round = t.openings round ∧
      (t.after effects decisions s).replies round = t.replies round := by
  unfold openings replies after
  rw [List.countP_append, List.countP_append]
  constructor
  · refine Nat.add_eq_left.2 (List.countP_eq_zero.2 fun m hm => ?_)
    simp [hsent m hm]
  · refine Nat.add_eq_left.2 (List.countP_eq_zero.2 fun m hm => ?_)
    simp [hsent m hm]

theorem counts_after_opening {m : SignedMessage S} (hsent : sentBy effects = [m])
    (htype : m.type = .propose) (hopening : m.message.roundChanges = []) :
    (t.after effects decisions s).openings round =
        t.openings round + (if m.round = round then 1 else 0) ∧
      (t.after effects decisions s).replies round = t.replies round := by
  simp [openings, replies, sent_after_singleton hsent, htype, hopening]

theorem counts_after_reply {m : SignedMessage S} (hsent : sentBy effects = [m])
    (htype : m.type = .propose) (hreply : m.message.roundChanges ≠ []) :
    (t.after effects decisions s).openings round = t.openings round ∧
      (t.after effects decisions s).replies round =
        t.replies round + (if m.round = round then 1 else 0) := by
  simp [openings, replies, sent_after_singleton hsent, htype, hreply]

end Trace

/-! ### Moves -/

/-- What a move means for the proposals: what is sent, and what becomes of the state that proposals
depend on. -/
inductive Bid (s : Instance S) : List (SignedMessage S) → Instance S → Prop
  /-- Nothing is proposed. -/
  | pass {sent : List (SignedMessage S)} {u : Instance S}
      (hsent : ∀ m ∈ sent, m.type ≠ .propose) (hround : s.round.toNat ≤ u.round.toNat)
      (hstarted : s.started = true → u.started = true)
      (hproposed : u.proposedRound = s.proposedRound) : Bid s sent u
  /-- The instance starts, and proposes in the first round. -/
  | opening {m : SignedMessage S} {u : Instance S} (htype : m.type = .propose)
      (hopening : m.message.roundChanges = []) (hfirst : m.round = Round.first)
      (hnew : s.started = false) (hstarted : u.started = true) (hround : u.round = s.round)
      (hproposed : u.proposedRound = s.proposedRound) : Bid s [m] u
  /-- The instance proposes in a round that a quorum asks for. -/
  | reply {m : SignedMessage S} {u : Instance S} (htype : m.type = .propose)
      (hreply : m.message.roundChanges ≠ []) (hle : s.round.toNat ≤ m.round.toNat)
      (hfirst : s.proposedRound ≠ some m.round) (hstarted : u.started = s.started)
      (hround : u.round = m.round) (hproposed : u.proposedRound = some m.round) : Bid s [m] u

section Moves

variable {seat : Seat S} {net : Network S} {height : Height} {s u : Instance S} {e : Event S}
  {effects : List (Effect S)} {decision : Option (Decision S)}

/-- A quorum of a committee that has members is not empty. -/
theorem backing_ne_nil {round : Round} (hsize : 0 < seat.committee.size)
    (hquorum : seat.committee.quorum ≤ distinctSigners (backing seat s round)) :
    backing seat s round ≠ [] := by
  intro hnone
  have := Committee.quorum_pos hsize
  rw [hnone] at hquorum
  exact absurd hquorum (by simpa [distinctSigners, distinct] using this.ne')

theorem Move.bid (h : Move seat s e effects decision u)
    (hsize : ∀ m, e = .receive m → 0 < seat.committee.size) : Bid s (sentBy effects) u := by
  have hround := h.turn.2.round_le
  cases h with
  | start hnew => exact .pass (by simp) hround (fun _ => rfl) rfl
  | lead hnew hfirst hleader =>
    rw [sentBy_timerCall_broadcast]
    exact .opening rfl rfl hfirst hnew rfl rfl rfl
  | @propose m value prepares htype hopen hle hfirst hleader hquorum hproposal =>
    rw [sentBy_entryCalls_broadcast]
    refine .reply rfl (backing_ne_nil (hsize m rfl) hquorum) hle hfirst (enter_started s m.round) ?_
      rfl
    -- the round is entered, unless it is the current one
    change (s.enter m.round).round = m.round
    unfold enter
    split
    · rfl
    · rename_i hlt
      rw [Round.lt_iff] at hlt
      exact Round.toNat_inj.1 (by omega)
  | accept hreach htype hvalid hvalue =>
    rw [sentBy_entryCalls_broadcast]
    exact .pass (List.forall_mem_singleton.2 nofun) hround id rfl
  | prepare hreach htype hvalid hnew hvalue hfirst hquorum =>
    exact .pass (List.forall_mem_singleton.2 nofun) hround id rfl
  | follow htype hopen habove hquorum hlowest hlt =>
    rw [sentBy_timerCall_broadcast]
    exact .pass (List.forall_mem_singleton.2 nofun) hround id rfl
  | expire hrunning hopen hnext =>
    rw [sentBy_timerCall_broadcast]
    exact .pass (List.forall_mem_singleton.2 nofun) hround id rfl
  | storePrepare hreach htype hvalid hnew => exact .pass (by simp) hround id rfl
  | storeCommit hreach htype hvalid hnew => exact .pass (by simp) hround id rfl
  | decide hreach htype hvalid hnew hopen hvalue hquorum hcommit =>
    exact .pass (by simp) hround id rfl
  | storeRoundChange hreach htype hvalid hnew => exact .pass (by simp) hround id rfl
  | learn hopen hvalue hroot => exact .pass (by simp) hround id rfl

/-- In an empty committee every message is turned away. -/
theorem receive_refused_of_empty (net : Network S) (s : Instance S) (m : SignedMessage S)
    (hsize : ¬ 0 < seat.committee.size) : ∃ e, receive seat net s m = .refuse s e := by
  unfold receive
  split
  · exact ⟨_, rfl⟩
  split
  · exact ⟨_, rfl⟩
  split
  · unfold onPropose
    cases hvalid : validateProposal seat s m with
    | error e => exact ⟨e, rfl⟩
    | ok =>
      obtain ⟨⟨id, hid, -⟩, hverify, -⟩ := validateProposal_eq_ok_iff.1 hvalid
      exact absurd (size_pos_of_verify ⟨id, hid⟩ hverify) hsize
  · unfold onPrepare
    cases hvalid : validateVote seat s m with
    | error e => exact ⟨e, rfl⟩
    | ok =>
      obtain ⟨-, -, -, -, hsingle, hverify⟩ := validateVote_eq_ok_iff.1 hvalid
      exact absurd (size_pos_of_verify hsingle hverify) hsize
  · unfold onCommit
    cases hvalid : validateVote seat s m with
    | error e => exact ⟨e, rfl⟩
    | ok =>
      obtain ⟨-, -, -, -, hsingle, hverify⟩ := validateVote_eq_ok_iff.1 hvalid
      exact absurd (size_pos_of_verify hsingle hverify) hsize
  · unfold onRoundChange
    cases hvalid : validateRoundChange seat s m m.round with
    | error e => exact ⟨e, rfl⟩
    | ok =>
      have hchange := validateRoundChange_eq_ok_iff.1 hvalid
      exact absurd (size_pos_of_verify hchange.single hchange.verified) hsize

/-- What holds at the creation and is kept by every move holds of every run, where messages only
count if there is a member that may have sent them. -/
theorem Run.induct_of_size {P : Trace S → Prop} (hnew : P (.new height))
    (hmove : ∀ t e effects decision u, P t → (∀ m, e = .receive m → 0 < seat.committee.size) →
      Move seat t.state e effects decision u → P (t.after effects decision.toList u))
    {t : Trace S} (h : Run seat height t) : P t := by
  induction h with
  | new => exact hnew
  | @next t net e _ ih =>
    by_cases hsize : ∀ m, e = .receive m → 0 < seat.committee.size
    · exact Trace.extend_induct ih fun t effects decision u ht =>
        hmove t e effects decision u ht hsize
    · obtain ⟨m, hm⟩ := not_forall.1 hsize
      obtain ⟨rfl, hempty⟩ := Classical.not_imp.1 hm
      obtain ⟨error, hrefused⟩ := receive_refused_of_empty net t.state m hempty
      have hsame : t.extend seat net (.receive m) = t := by
        rw [Trace.extend, step, hrefused]
        exact Trace.after_nil
      rwa [hsame]

end Moves

/-! ### Runs -/

/-- A member takes each occasion to propose once in a round: only the first start opens the first
round, and the last round that it has replied in is remembered. -/
structure Sparing (t : Trace S) : Prop where
  openings_le : ∀ round, t.openings round ≤ 1
  opened : ∀ round, 0 < t.openings round → round = Round.first ∧ t.state.started = true
  replies_le : ∀ round, t.replies round ≤ 1
  replied : ∀ round, 0 < t.replies round → round.toNat ≤ t.state.round.toNat ∧
    (round = t.state.round → t.state.proposedRound = some round)

namespace Sparing

variable {t : Trace S} {u : Instance S} {effects : List (Effect S)}
  {decisions : List (Decision S)}

theorem new (height : Height) : Sparing (.new height : Trace S) where
  openings_le _ := Nat.zero_le 1
  opened _ h := absurd h (Nat.lt_irrefl 0)
  replies_le _ := Nat.zero_le 1
  replied _ h := absurd h (Nat.lt_irrefl 0)

theorem pass (h : Sparing t) (hsent : ∀ m ∈ sentBy effects, m.type ≠ .propose)
    (hround : t.state.round.toNat ≤ u.round.toNat)
    (hstarted : t.state.started = true → u.started = true)
    (hproposed : u.proposedRound = t.state.proposedRound) :
    Sparing (t.after effects decisions u) where
  openings_le round := by
    rw [(Trace.counts_after_of_ne hsent).1]
    exact h.openings_le round
  opened round hpos := by
    rw [(Trace.counts_after_of_ne hsent).1] at hpos
    exact ⟨(h.opened round hpos).1, hstarted (h.opened round hpos).2⟩
  replies_le round := by
    rw [(Trace.counts_after_of_ne hsent).2]
    exact h.replies_le round
  replied round hpos := by
    rw [(Trace.counts_after_of_ne hsent).2] at hpos
    obtain ⟨hle, hlast⟩ := h.replied round hpos
    refine ⟨hle.trans hround, fun hcurrent => ?_⟩
    -- a round that was replied in can only be current if it was before
    rw [Trace.state_after] at hcurrent ⊢
    rw [hproposed]
    refine hlast (Round.toNat_inj.1 ?_)
    rw [hcurrent] at hle ⊢
    omega

theorem opening (h : Sparing t) {m : SignedMessage S} (hsent : sentBy effects = [m])
    (htype : m.type = .propose) (hopening : m.message.roundChanges = [])
    (hfirst : m.round = Round.first) (hnew : t.state.started = false) (hstarted : u.started = true)
    (hround : u.round = t.state.round) (hproposed : u.proposedRound = t.state.proposedRound) :
    Sparing (t.after effects decisions u) := by
  have hnone : ∀ round, t.openings round = 0 := by
    intro round
    refine Nat.eq_zero_of_not_pos fun hpos => ?_
    rw [(h.opened round hpos).2] at hnew
    cases hnew
  refine ⟨fun round => ?_, fun round hpos => ⟨?_, hstarted⟩, fun round => ?_, fun round hpos => ?_⟩
  · rw [(Trace.counts_after_opening hsent htype hopening).1, hnone]
    split <;> omega
  · rw [(Trace.counts_after_opening hsent htype hopening).1, hnone, hfirst] at hpos
    split at hpos
    · exact ‹Round.first = round›.symm
    · omega
  · rw [(Trace.counts_after_opening hsent htype hopening).2]
    exact h.replies_le round
  · rw [(Trace.counts_after_opening hsent htype hopening).2] at hpos
    rw [Trace.state_after, hround, hproposed]
    exact h.replied round hpos

theorem reply (h : Sparing t) {m : SignedMessage S} (hsent : sentBy effects = [m])
    (htype : m.type = .propose) (hreply : m.message.roundChanges ≠ [])
    (hle : t.state.round.toNat ≤ m.round.toNat) (hfirst : t.state.proposedRound ≠ some m.round)
    (hstarted : u.started = t.state.started) (hround : u.round = m.round)
    (hproposed : u.proposedRound = some m.round) : Sparing (t.after effects decisions u) := by
  -- no round above the current one has been replied in, and not the current one if it is this one
  have hnone : t.replies m.round = 0 := by
    refine Nat.eq_zero_of_not_pos fun hpos => ?_
    obtain ⟨hbelow, hlast⟩ := h.replied m.round hpos
    exact hfirst (hlast (Round.toNat_inj.1 (by omega)))
  refine ⟨fun round => ?_, fun round hpos => ?_, fun round => ?_, fun round hpos => ?_⟩
  · rw [(Trace.counts_after_reply hsent htype hreply).1]
    exact h.openings_le round
  · rw [(Trace.counts_after_reply hsent htype hreply).1] at hpos
    rw [Trace.state_after, hstarted]
    exact h.opened round hpos
  · rw [(Trace.counts_after_reply hsent htype hreply).2]
    split
    · rename_i heq
      rw [← heq, hnone]
    · exact h.replies_le round
  · rw [(Trace.counts_after_reply hsent htype hreply).2] at hpos
    rw [Trace.state_after, hround, hproposed]
    split at hpos
    · rename_i heq
      exact ⟨heq ▸ le_rfl, fun _ => congrArg some heq⟩
    · rename_i hne
      exact ⟨(h.replied round hpos).1.trans hle, fun heq => absurd heq.symm hne⟩

/-- Every move is sparing. -/
theorem bid (h : Sparing t) (hbid : Bid t.state (sentBy effects) u) :
    Sparing (t.after effects decisions u) := by
  generalize hsent : sentBy effects = sent at hbid
  cases hbid with
  | pass hall hround hstarted hproposed => exact h.pass (hsent ▸ hall) hround hstarted hproposed
  | opening htype hopening hfirst hnew hstarted hround hproposed =>
    exact h.opening hsent htype hopening hfirst hnew hstarted hround hproposed
  | reply htype hreply hle hfirst hstarted hround hproposed =>
    exact h.reply hsent htype hreply hle hfirst hstarted hround hproposed

end Sparing

section Runs

variable {seat : Seat S} {height : Height} {t : Trace S} {m : SignedMessage S}

theorem Run.sparing (h : Run seat height t) : Sparing t :=
  Run.induct_of_size (Sparing.new height)
    (fun _ _ _ _ _ ht hsize hmove => ht.bid (hmove.bid hsize)) h

/-- A reply carries the round changes of a quorum for its round. -/
theorem Run.replies_asked (h : Run seat height t) : ∀ m ∈ t.sent, m.type = .propose →
    m.message.roundChanges ≠ [] →
      (∀ x ∈ m.message.roundChanges,
        x.type = .roundChange ∧ IsRoundChangeFor seat height m.round x) ∧
      seat.committee.quorum ≤
        (m.message.roundChanges.flatMap SignedMessage.signers).toFinset.card := by
  refine h.forall_sent fun s hs m hsends htype hreply => ?_
  cases hsends with
  | reply hround hfirst hleader hquorum hproposal =>
    have hjustified := hs.proposalJustified hquorum hproposal
    exact ⟨hjustified.asked, hjustified.quorum⟩
  | opening hnew hround hleader => exact absurd rfl hreply
  | prepare => cases htype
  | commit => cases htype
  | ask hlt => cases htype

/-- No member asks for the first round. -/
theorem first_lt_of_asked (h : Run seat height t) : ∀ m ∈ t.sent, m.type = .roundChange →
    Round.first < m.round := by
  refine h.forall_sent fun s hs m hsends htype => ?_
  cases hsends with
  | ask hlt => exact Round.lt_iff.2 (hs.first_le.trans_lt hlt)
  | prepare => cases htype
  | commit => cases htype
  | opening hnew hround hleader => cases htype
  | reply hround hfirst hleader hquorum hproposal => cases htype

/-- A member proposes at most twice in a round, and at most once in each round but the first. It
proposes twice in a round exactly if this is the first one, in which it both opens the round and
replies to a quorum; a reply carries the valid round changes of a quorum for its round. -/
theorem proposes_twice_iff (h : Run seat height t) (round : Round) :
    t.proposals round ≤ 2 ∧
      (t.proposals round = 2 ↔ round = Round.first ∧
        (∃ m ∈ t.sent, m.type = .propose ∧ m.round = round ∧ m.message.roundChanges = []) ∧
        ∃ m ∈ t.sent, m.type = .propose ∧ m.round = round ∧ m.message.roundChanges ≠ []) ∧
      ∀ m ∈ t.sent, m.type = .propose → m.message.roundChanges ≠ [] →
        (∀ x ∈ m.message.roundChanges,
          x.type = .roundChange ∧ IsRoundChangeFor seat height m.round x) ∧
        seat.committee.quorum ≤
          (m.message.roundChanges.flatMap SignedMessage.signers).toFinset.card := by
  have hsparing := h.sparing
  have hopenings := hsparing.openings_le round
  have hreplies := hsparing.replies_le round
  rw [Trace.proposals_eq, ← Trace.openings_pos, ← Trace.replies_pos]
  refine ⟨by omega, ⟨fun htwice => ?_, ?_⟩, h.replies_asked⟩
  · exact ⟨(hsparing.opened round (by omega)).1, by omega, by omega⟩
  · rintro ⟨-, hopened, hreplied⟩
    omega

end Runs

/-! ### A leader that proposes twice -/

namespace Twice

open Scheme

/-- The round change of a member for the first round. -/
def roundChange (id : UInt64) : SignedMessage plain := plain.message id (.roundChange none [])

/-- Member 1, which leads the first round, when it has started and stored some round changes. -/
def waiting (ms : List (SignedMessage plain)) : Instance plain :=
  { Instance.new Height.first with startValue := some plain.value, roundChanges := ⟨ms⟩ }

/-- Member 1 starts, and two members ask for the first round. -/
def opening : Trace plain := (Trace.new Height.first).play plain.seat
  [.start plain.value, .receive (roundChange 2), .receive (roundChange 3)]

/-- The last member of a quorum asks for it as well. -/
def trace : Trace plain := opening.extend plain.seat (.reliable _) (.receive (roundChange 4))

/-- What is proposed on the start. -/
def first : SignedMessage plain := plain.message 1 (.propose plain.value [] [])

/-- What is proposed to the quorum. -/
def second : SignedMessage plain :=
  plain.message 1 (.propose plain.value ([2, 3, 4].map roundChange) [])

theorem state_opening : opening.state = waiting [roundChange 2, roundChange 3] := by
  have hstart : (step plain.seat (.reliable _) (.new Height.first) (.start plain.value)).state =
      waiting [] := rfl
  have hfirst : (step plain.seat (.reliable _) (waiting []) (.receive (roundChange 2))).state =
      waiting [roundChange 2] := OnlyStored.state_step (by decide +kernel)
  have hsecond : (step plain.seat (.reliable _) (waiting [roundChange 2])
      (.receive (roundChange 3))).state = waiting [roundChange 2, roundChange 3] :=
    OnlyStored.state_step (by decide +kernel)
  rw [opening, Trace.play_cons, Trace.play_cons, Trace.play_cons, Trace.play_nil,
    Trace.state_extend, Trace.state_extend, Trace.state_extend, Trace.new, hstart, hfirst, hsecond]

theorem second_mem_sent : second ∈ trace.sent := by
  refine Trace.mem_sent_extend ?_
  rw [state_opening]
  decide +kernel

theorem first_mem_sent : first ∈ trace.sent := by
  have hstart : first ∈ ((Trace.new Height.first).extend plain.seat (.reliable _)
      (.start plain.value)).sent := Trace.mem_sent_extend (by decide +kernel)
  rw [trace, opening, Trace.play_cons, Trace.play_cons, Trace.play_cons, Trace.play_nil]
  exact Trace.sent_subset_extend _ (Trace.sent_subset_extend _ (Trace.sent_subset_extend _ hstart))

end Twice

/-- A leader that has opened the first round proposes in it again when a quorum asks for it. -/
theorem proposes_again : ∃ t, Run Scheme.plain.seat Height.first t ∧
    Twice.first ∈ t.sent ∧ Twice.second ∈ t.sent ∧ ¬ ∀ round, t.proposals round ≤ 1 := by
  refine ⟨Twice.trace, (Run.new.play _).next _ _, Twice.first_mem_sent, Twice.second_mem_sent,
    fun honce => ?_⟩
  have hopening : 0 < Twice.trace.openings Round.first :=
    Trace.openings_pos.2 ⟨_, Twice.first_mem_sent, rfl, rfl, rfl⟩
  have hreply : 0 < Twice.trace.replies Round.first :=
    Trace.replies_pos.2 ⟨_, Twice.second_mem_sent, rfl, rfl, nofun⟩
  have hone := honce Round.first
  rw [Trace.proposals_eq] at hone
  omega

/-- It proposes twice in the first round, and not twice in the second one. -/
theorem proposals_of_twice :
    Run Scheme.plain.seat Height.first Twice.trace ∧ Twice.trace.proposals Round.first = 2 ∧
      Twice.trace.proposals ⟨2⟩ ≠ 2 := by
  have hrun : Run Scheme.plain.seat Height.first Twice.trace := (Run.new.play _).next _ _
  refine ⟨hrun, (proposes_twice_iff hrun Round.first).2.1.2 ⟨rfl, ?_, ?_⟩, fun htwice => ?_⟩
  · exact ⟨_, Twice.first_mem_sent, rfl, rfl, rfl⟩
  · exact ⟨_, Twice.second_mem_sent, rfl, rfl, nofun⟩
  · exact absurd ((proposes_twice_iff hrun ⟨2⟩).2.1.1 htwice).1 (by decide)

end Instance
end Conclave
