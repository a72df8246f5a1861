import Conclave.Proofs.Instance.Run

/-!
# The votes of one member

What a member that runs one instance may have signed, whatever happens to it. The moves of an
instance are of four kinds as far as votes are concerned, which `Turn` lists:

* most leave the votes and what they depend on alone;
* a proposal is accepted, with a vote to prepare its value;
* a quorum of prepares is seen, with a vote to commit to the value;
* a higher round is entered, perhaps with a round change that reports the last preparation.

`Disciplined` is what all runs keep (`Run.disciplined`): there is one vote to prepare in a round,
and a round change for a higher round than a vote to commit reports a preparation at least as high
as that vote.
-/

namespace Conclave
namespace Instance

variable {S : Scheme}

namespace Trace

/-- The member has signed a vote of some kind, in a round, for a value with some root. -/
def Voted (t : Trace S) (type : MessageType) (round : Round) (root : Digest) : Prop :=
  ∃ m ∈ t.sent, m.type = type ∧ m.round = round ∧ m.message.valueRoot? = some root

/-- The member has asked for a round, and has reported its last preparation. -/
def Asked (t : Trace S) (round : Round) (last : Option Round) : Prop :=
  ∃ m ∈ t.sent, m.type = .roundChange ∧ m.round = round ∧ m.message.preparedRound? = last

variable {t : Trace S} {effects : List (Effect S)} {decisions : List (Decision S)} {s : Instance S}

theorem voted_after {type : MessageType} {round : Round} {root : Digest}
    (h : (t.after effects decisions s).Voted type round root) :
    t.Voted type round root ∨
      ∃ m ∈ sentBy effects, m.type = type ∧ m.round = round ∧ m.message.valueRoot? = some root := by
  obtain ⟨m, hm, hvote⟩ := h
  rcases List.mem_append.1 hm with hm | hm
  · exact .inl ⟨m, hm, hvote⟩
  · exact .inr ⟨m, hm, hvote⟩

theorem asked_after {round : Round} {last : Option Round}
    (h : (t.after effects decisions s).Asked round last) :
    t.Asked round last ∨ ∃ m ∈ sentBy effects, m.type = .roundChange ∧ m.round = round ∧
      m.message.preparedRound? = last := by
  obtain ⟨m, hm, hask⟩ := h
  rcases List.mem_append.1 hm with hm | hm
  · exact .inl ⟨m, hm, hask⟩
  · exact .inr ⟨m, hm, hask⟩

/-- Sending nothing of a kind is no vote of that kind. -/
theorem voted_after_of_ne {type : MessageType} {round : Round} {root : Digest}
    (hsent : ∀ m ∈ sentBy effects, m.type ≠ type)
    (h : (t.after effects decisions s).Voted type round root) : t.Voted type round root := by
  rcases voted_after h with h | ⟨m, hm, htype, -⟩
  · exact h
  · exact absurd htype (hsent m hm)

theorem asked_after_of_ne {round : Round} {last : Option Round}
    (hsent : ∀ m ∈ sentBy effects, m.type ≠ .roundChange)
    (h : (t.after effects decisions s).Asked round last) : t.Asked round last := by
  rcases asked_after h with h | ⟨m, hm, htype, -⟩
  · exact h
  · exact absurd htype (hsent m hm)

theorem voted_after_singleton {vote : SignedMessage S} {type : MessageType} {round : Round}
    {root : Digest} (hsent : sentBy effects = [vote]) (hne : vote.type ≠ type)
    (h : (t.after effects decisions s).Voted type round root) : t.Voted type round root := by
  refine voted_after_of_ne (fun m hm => ?_) h
  rw [hsent, List.mem_singleton] at hm
  rwa [hm]

theorem asked_after_singleton {vote : SignedMessage S} {round : Round} {last : Option Round}
    (hsent : sentBy effects = [vote]) (hne : vote.type ≠ .roundChange)
    (h : (t.after effects decisions s).Asked round last) : t.Asked round last := by
  refine asked_after_of_ne (fun m hm => ?_) h
  rw [hsent, List.mem_singleton] at hm
  rwa [hm]

end Trace

/-! ### Turns -/

/-- What a move means for the votes: what is sent, and what becomes of the state that votes depend
on. -/
inductive Turn (s : Instance S) : List (SignedMessage S) → Instance S → Prop
  /-- Nothing but a proposal is sent, and the round is the same. -/
  | rest {sent : List (SignedMessage S)} {u : Instance S} (hsent : ∀ m ∈ sent, m.type = .propose)
      (hround : u.round = s.round) (haccepted : u.accepted = s.accepted)
      (hprepared : u.prepared = s.prepared) : Turn s sent u
  /-- A proposal is accepted, the first one of its round. -/
  | accept {vote proposal : SignedMessage S} {value : Value S} {u : Instance S}
      (hfresh : proposal.round = s.round ∧ s.accepted = none ∨
        s.round.toNat < proposal.round.toNat)
      (hvalue : proposal.message.value? = some value)
      (hbody : vote.message.body = .prepare value.root) (hvote : vote.round = proposal.round)
      (hround : u.round = proposal.round) (haccepted : u.accepted = some proposal)
      (hprepared : u.prepared = s.prepared) : Turn s [vote] u
  /-- The accepted value is prepared, for the first time in its round. -/
  | commit {vote proposal : SignedMessage S} {value : Value S} {u : Instance S}
      (hproposal : s.accepted = some proposal) (hvalue : proposal.message.value? = some value)
      (hbody : vote.message.body = .commit value.root) (hvote : vote.round = proposal.round)
      (hfirst : s.prepared ≠ some ⟨vote.round, value⟩) (hround : u.round = s.round)
      (haccepted : u.accepted = s.accepted) (hprepared : u.prepared = some ⟨vote.round, value⟩) :
      Turn s [vote] u
  /-- A higher round is entered. -/
  | advance {m : SignedMessage S} {u : Instance S} (hround : s.round.toNat < u.round.toNat)
      (haccepted : u.accepted = none) (hprepared : u.prepared = s.prepared)
      (hsent : m.type = .propose ∨ m.type = .roundChange ∧ m.round = u.round ∧
        m.message.prepared? = s.prepared) : Turn s [m] u

theorem roundChange_turn (seat : Seat S) {s : Instance S} {round : Round}
    (hlt : s.round.toNat < round.toNat) :
    Turn s [roundChange seat (s.moveTo round) round] (s.moveTo round) :=
  .advance hlt rfl rfl (.inr ⟨rfl, rfl, rfl⟩)

/-- Rounds do not fall. -/
theorem Turn.round_le {s u : Instance S} {sent : List (SignedMessage S)} (h : Turn s sent u) :
    s.round.toNat ≤ u.round.toNat := by
  cases h with
  | rest hsent hround haccepted hprepared => rw [hround]
  | accept hfresh hvalue hbody hvote hround haccepted hprepared =>
    rw [hround]
    rcases hfresh with ⟨heq, -⟩ | hlt
    · rw [heq]
    · exact hlt.le
  | commit hproposal hvalue hbody hvote hfirst hround haccepted hprepared => rw [hround]
  | advance hround haccepted hprepared hsent => exact hround.le

theorem Move.turn {seat : Seat S} {s u : Instance S} {e : Event S} {effects : List (Effect S)}
    {decision : Option (Decision S)} (h : Move seat s e effects decision u) :
    u.height = s.height ∧ Turn s (sentBy effects) u := by
  cases h with
  | start hnew => exact ⟨rfl, .rest (by simp) rfl rfl rfl⟩
  | lead hnew hround hleader =>
    refine ⟨rfl, .rest (fun m hm => ?_) rfl rfl rfl⟩
    rw [sentBy_timerCall_broadcast, List.mem_singleton] at hm
    rw [hm]
    rfl
  | accept hreach htype hvalid hvalue =>
    refine ⟨rfl, ?_⟩
    rw [sentBy_entryCalls_broadcast]
    exact .accept (validateProposal_eq_ok_iff.1 hvalid).2.2.2 hvalue rfl rfl rfl rfl rfl
  | storePrepare hreach htype hvalid hnew => exact ⟨rfl, .rest (by simp) rfl rfl rfl⟩
  | prepare hreach htype hvalid hnew hvalue hfirst hquorum =>
    obtain ⟨proposal, haccepted, hround, -⟩ := validateVote_eq_ok_iff.1 hvalid
    rw [acceptedValue?, haccepted] at hvalue
    exact ⟨rfl, .commit haccepted hvalue rfl hround hfirst rfl rfl rfl⟩
  | storeCommit hreach htype hvalid hnew => exact ⟨rfl, .rest (by simp) rfl rfl rfl⟩
  | decide hreach htype hvalid hnew hopen hvalue hquorum hcommit =>
    exact ⟨rfl, .rest (by simp) rfl rfl rfl⟩
  | storeRoundChange hreach htype hvalid hnew => exact ⟨rfl, .rest (by simp) rfl rfl rfl⟩
  | propose htype hopen hround hfirst hleader hquorum hproposal =>
    rw [sentBy_entryCalls_broadcast]
    -- the round is entered, unless it is the current one
    unfold enter
    split
    · rename_i hlt
      exact ⟨rfl, .advance (Round.lt_iff.1 hlt) rfl rfl (.inl rfl)⟩
    · refine ⟨rfl, .rest (fun m hm => ?_) rfl rfl rfl⟩
      rw [List.mem_singleton.1 hm]
      rfl
  | follow htype hopen habove hquorum hlowest hlt =>
    rw [sentBy_timerCall_broadcast]
    exact ⟨rfl, roundChange_turn seat hlt⟩
  | expire hrunning hopen hnext =>
    rw [sentBy_timerCall_broadcast]
    have hlt := Round.next?_eq_ok hnext
    exact ⟨rfl, roundChange_turn seat (by omega)⟩
  | learn hopen hvalue hroot => exact ⟨rfl, .rest (by simp) rfl rfl rfl⟩

/-! ### Discipline -/

/-- What a member keeps to in all it signs for a height. -/
structure Disciplined (height : Height) (t : Trace S) : Prop where
  height_eq : t.state.height = height
  first_le : 1 ≤ t.state.round.toNat
  accepted_round : ∀ {m}, t.state.accepted = some m → m.round = t.state.round
  prepared_le : ∀ {p}, t.state.prepared = some p → p.round.toNat ≤ t.state.round.toNat
  prepare_le : ∀ {round root}, t.Voted .prepare round root → round.toNat ≤ t.state.round.toNat
  /-- A vote to prepare in the current round is for the accepted value. -/
  prepare_current : ∀ {root}, t.Voted .prepare t.state.round root →
    ∃ m, t.state.accepted = some m ∧ m.message.valueRoot? = some root
  /-- There is one vote to prepare in a round. -/
  prepare_unique : ∀ {round root root'}, t.Voted .prepare round root →
    t.Voted .prepare round root' → root = root'
  commit_pos : ∀ {round root}, t.Voted .commit round root → 1 ≤ round.toNat
  commit_le : ∀ {round root}, t.Voted .commit round root →
    ∃ p, t.state.prepared = some p ∧ round.toNat ≤ p.round.toNat
  asked_le : ∀ {round last}, t.Asked round last → round.toNat ≤ t.state.round.toNat
  /-- A round change reports a preparation as high as the votes to commit below it. -/
  reported : ∀ {round root round' last}, t.Voted .commit round root → t.Asked round' last →
    round.toNat < round'.toNat → ∃ r, last = some r ∧ round.toNat ≤ r.toNat

namespace Disciplined

variable {height : Height} {t : Trace S} {effects : List (Effect S)}
  {decisions : List (Decision S)} {u : Instance S}

theorem new (height : Height) : Disciplined height (.new height : Trace S) where
  height_eq := rfl
  first_le := Nat.le_refl 1
  accepted_round := nofun
  prepared_le := nofun
  prepare_le := by rintro _ _ ⟨m, hm, -⟩; cases hm
  prepare_current := by rintro _ ⟨m, hm, -⟩; cases hm
  prepare_unique := by rintro _ _ _ ⟨m, hm, -⟩; cases hm
  commit_pos := by rintro _ _ ⟨m, hm, -⟩; cases hm
  commit_le := by rintro _ _ ⟨m, hm, -⟩; cases hm
  asked_le := by rintro _ _ ⟨m, hm, -⟩; cases hm
  reported := by rintro _ _ _ _ ⟨m, hm, -⟩; cases hm

theorem commit_le_round (h : Disciplined height t) {round : Round} {root : Digest}
    (hvote : t.Voted .commit round root) : round.toNat ≤ t.state.round.toNat := by
  obtain ⟨p, hp, hle⟩ := h.commit_le hvote
  exact hle.trans (h.prepared_le hp)

/-- Moves that send no vote and stay in the round keep the discipline. -/
theorem rest (h : Disciplined height t) (hsent : ∀ m ∈ sentBy effects, m.type = .propose)
    (hheight : u.height = t.state.height) (hround : u.round = t.state.round)
    (haccepted : u.accepted = t.state.accepted) (hprepared : u.prepared = t.state.prepared) :
    Disciplined height (t.after effects decisions u) := by
  have hvoted : ∀ {type round root}, type ≠ .propose →
      (t.after effects decisions u).Voted type round root → t.Voted type round root := by
    intro type round root hne hvote
    refine Trace.voted_after_of_ne (fun m hm htype => hne ?_) hvote
    rw [← htype, hsent m hm]
  have hasked : ∀ {round last}, (t.after effects decisions u).Asked round last →
      t.Asked round last := by
    refine fun hask => Trace.asked_after_of_ne (fun m hm => ?_) hask
    rw [hsent m hm]
    decide
  constructor
  · exact hheight.trans h.height_eq
  · rw [Trace.state_after, hround]
    exact h.first_le
  · intro m hm
    rw [Trace.state_after, hround]
    exact h.accepted_round (haccepted ▸ hm)
  · intro p hp
    rw [Trace.state_after, hround]
    exact h.prepared_le (hprepared ▸ hp)
  · intro round root hvote
    rw [Trace.state_after, hround]
    exact h.prepare_le (hvoted (by decide) hvote)
  · intro root hvote
    rw [Trace.state_after, hround] at hvote
    rw [Trace.state_after, haccepted]
    exact h.prepare_current (hvoted (by decide) hvote)
  · intro round root root' hvote hvote'
    exact h.prepare_unique (hvoted (by decide) hvote) (hvoted (by decide) hvote')
  · intro round root hvote
    exact h.commit_pos (hvoted (by decide) hvote)
  · intro round root hvote
    rw [Trace.state_after, hprepared]
    exact h.commit_le (hvoted (by decide) hvote)
  · intro round last hask
    rw [Trace.state_after, hround]
    exact h.asked_le (hasked hask)
  · intro round root round' last hvote hask hlt
    exact h.reported (hvoted (by decide) hvote) (hasked hask) hlt

/-- Accepting the first proposal of a round, with a vote to prepare its value. -/
theorem accept (h : Disciplined height t) {vote proposal : SignedMessage S} {value : Value S}
    (hsent : sentBy effects = [vote])
    (hfresh : proposal.round = t.state.round ∧ t.state.accepted = none ∨
      t.state.round.toNat < proposal.round.toNat)
    (hvalue : proposal.message.value? = some value)
    (hbody : vote.message.body = .prepare value.root) (hvote : vote.round = proposal.round)
    (hheight : u.height = t.state.height) (hround : u.round = proposal.round)
    (haccepted : u.accepted = some proposal) (hprepared : u.prepared = t.state.prepared) :
    Disciplined height (t.after effects decisions u) := by
  have htype : vote.type = .prepare := by
    simp only [SignedMessage.type, Message.type, hbody]
  have hvoteRoot : vote.message.valueRoot? = some value.root := by
    simp only [Message.valueRoot?, hbody]
  have hle : t.state.round.toNat ≤ u.round.toNat := by
    rw [hround]
    rcases hfresh with ⟨heq, -⟩ | hlt
    · rw [heq]
    · exact hlt.le
  have hcommitted : ∀ {round root}, (t.after effects decisions u).Voted .commit round root →
      t.Voted .commit round root := by
    refine Trace.voted_after_singleton hsent ?_
    rw [htype]
    decide
  have hasked : ∀ {round last}, (t.after effects decisions u).Asked round last →
      t.Asked round last := by
    refine Trace.asked_after_singleton hsent ?_
    rw [htype]
    decide
  -- the vote is the first one of its round
  have hnone : ∀ {root}, ¬ t.Voted .prepare u.round root := by
    intro root hold
    rcases hfresh with ⟨heq, hopen⟩ | hlt
    · rw [hround, heq] at hold
      obtain ⟨m, hm, -⟩ := h.prepare_current hold
      rw [hopen] at hm
      cases hm
    · have := h.prepare_le hold
      rw [hround] at this
      omega
  have hprepares : ∀ {round root}, (t.after effects decisions u).Voted .prepare round root →
      t.Voted .prepare round root ∨ round = u.round ∧ root = value.root := by
    intro round root hnew
    rcases Trace.voted_after hnew with hold | ⟨m, hm, -, hr, hroot⟩
    · exact .inl hold
    · rw [hsent, List.mem_singleton] at hm
      subst hm
      rw [hvoteRoot, Option.some.injEq] at hroot
      exact .inr ⟨by rw [← hr, hvote, hround], hroot.symm⟩
  constructor
  · exact hheight.trans h.height_eq
  · exact h.first_le.trans hle
  · intro m hm
    rw [Trace.state_after, haccepted, Option.some.injEq] at hm
    rw [← hm, Trace.state_after, hround]
  · intro p hp
    exact (h.prepared_le (hprepared ▸ hp)).trans hle
  · intro round root hnew
    rcases hprepares hnew with hold | ⟨rfl, -⟩
    · exact (h.prepare_le hold).trans hle
    · exact le_rfl
  · intro root hnew
    rcases hprepares hnew with hold | ⟨-, rfl⟩
    · exact absurd hold hnone
    · exact ⟨proposal, haccepted, Message.valueRoot?_eq_some hvalue⟩
  · intro round root root' hnew hnew'
    -- two new votes are the same; an old one cannot be in the round of a new one
    rcases hprepares hnew with hold | ⟨rfl, rfl⟩ <;> rcases hprepares hnew' with hold' | ⟨hr, rfl⟩
    · exact h.prepare_unique hold hold'
    · exact absurd (hr ▸ hold) hnone
    · exact absurd hold' hnone
    · rfl
  · intro round root hnew
    exact h.commit_pos (hcommitted hnew)
  · intro round root hnew
    rw [Trace.state_after, hprepared]
    exact h.commit_le (hcommitted hnew)
  · intro round last hask
    exact (h.asked_le (hasked hask)).trans hle
  · intro round root round' last hnew hask hlt
    exact h.reported (hcommitted hnew) (hasked hask) hlt

/-- Preparing the accepted value, with a vote to commit to it. -/
theorem commit (h : Disciplined height t) {vote proposal : SignedMessage S} {value : Value S}
    (hsent : sentBy effects = [vote]) (hproposal : t.state.accepted = some proposal)
    (hbody : vote.message.body = .commit value.root) (hvote : vote.round = proposal.round)
    (hheight : u.height = t.state.height) (hround : u.round = t.state.round)
    (haccepted : u.accepted = t.state.accepted)
    (hprepared : u.prepared = some ⟨vote.round, value⟩) :
    Disciplined height (t.after effects decisions u) := by
  have htype : vote.type = .commit := by
    simp only [SignedMessage.type, Message.type, hbody]
  have hcurrent : vote.round = t.state.round := hvote.trans (h.accepted_round hproposal)
  have hprepares : ∀ {round root}, (t.after effects decisions u).Voted .prepare round root →
      t.Voted .prepare round root := by
    refine Trace.voted_after_singleton hsent ?_
    rw [htype]
    decide
  have hasked : ∀ {round last}, (t.after effects decisions u).Asked round last →
      t.Asked round last := by
    refine Trace.asked_after_singleton hsent ?_
    rw [htype]
    decide
  have hcommits : ∀ {round root}, (t.after effects decisions u).Voted .commit round root →
      t.Voted .commit round root ∨ round = t.state.round := by
    intro round root hnew
    rcases Trace.voted_after hnew with hold | ⟨m, hm, -, hr, -⟩
    · exact .inl hold
    · rw [hsent, List.mem_singleton] at hm
      subst hm
      exact .inr (hr.symm.trans hcurrent)
  constructor
  · exact hheight.trans h.height_eq
  · rw [Trace.state_after, hround]
    exact h.first_le
  · intro m hm
    rw [Trace.state_after, hround]
    exact h.accepted_round (haccepted ▸ hm)
  · intro p hp
    rw [Trace.state_after, hprepared, Option.some.injEq] at hp
    rw [← hp, Trace.state_after, hround, hcurrent]
  · intro round root hnew
    rw [Trace.state_after, hround]
    exact h.prepare_le (hprepares hnew)
  · intro root hnew
    rw [Trace.state_after, hround] at hnew
    rw [Trace.state_after, haccepted]
    exact h.prepare_current (hprepares hnew)
  · intro round root root' hnew hnew'
    exact h.prepare_unique (hprepares hnew) (hprepares hnew')
  · intro round root hnew
    rcases hcommits hnew with hold | rfl
    · exact h.commit_pos hold
    · exact h.first_le
  · intro round root hnew
    refine ⟨_, hprepared, ?_⟩
    rcases hcommits hnew with hold | rfl
    · rw [hcurrent]
      exact h.commit_le_round hold
    · rw [hcurrent]
  · intro round last hask
    rw [Trace.state_after, hround]
    exact h.asked_le (hasked hask)
  · intro round root round' last hnew hask hlt
    rcases hcommits hnew with hold | rfl
    · exact h.reported hold (hasked hask) hlt
    -- no round above the current one has been asked for
    · have := h.asked_le (hasked hask)
      omega

/-- Entering a higher round, perhaps with a round change. -/
theorem advance (h : Disciplined height t) {m : SignedMessage S} (hsent : sentBy effects = [m])
    (hm : m.type = .propose ∨ m.type = .roundChange ∧ m.round = u.round ∧
      m.message.prepared? = t.state.prepared)
    (hheight : u.height = t.state.height) (hround : t.state.round.toNat < u.round.toNat)
    (haccepted : u.accepted = none) (hprepared : u.prepared = t.state.prepared) :
    Disciplined height (t.after effects decisions u) := by
  have hvoted : ∀ {type round root}, type ≠ .propose → type ≠ .roundChange →
      (t.after effects decisions u).Voted type round root → t.Voted type round root := by
    intro type round root hpropose hchange hvote
    refine Trace.voted_after_of_ne (fun m' hm' htype => ?_) hvote
    rw [hsent, List.mem_singleton] at hm'
    subst hm'
    rcases hm with heq | ⟨heq, -⟩
    · exact hpropose (htype ▸ heq)
    · exact hchange (htype ▸ heq)
  have hasked : ∀ {round last}, (t.after effects decisions u).Asked round last →
      t.Asked round last ∨ round = u.round ∧ last = t.state.prepared.map Prepared.round := by
    intro round last hask
    rcases Trace.asked_after hask with hold | ⟨m', hm', htype, hr, hlast⟩
    · exact .inl hold
    · rw [hsent, List.mem_singleton] at hm'
      subst hm'
      rcases hm with heq | ⟨-, heq, hreport⟩
      · rw [heq] at htype
        cases htype
      · rw [Message.preparedRound?, hreport] at hlast
        exact .inr ⟨hr.symm.trans heq, hlast.symm⟩
  constructor
  · exact hheight.trans h.height_eq
  · exact h.first_le.trans hround.le
  · intro m hm
    rw [Trace.state_after, haccepted] at hm
    cases hm
  · intro p hp
    exact (h.prepared_le (hprepared ▸ hp)).trans hround.le
  · intro round root hvote
    exact (h.prepare_le (hvoted (by decide) (by decide) hvote)).trans hround.le
  · intro root hvote
    have := h.prepare_le (hvoted (by decide) (by decide) hvote)
    rw [Trace.state_after] at this
    omega
  · intro round root root' hvote hvote'
    exact h.prepare_unique (hvoted (by decide) (by decide) hvote)
      (hvoted (by decide) (by decide) hvote')
  · intro round root hvote
    exact h.commit_pos (hvoted (by decide) (by decide) hvote)
  · intro round root hvote
    rw [Trace.state_after, hprepared]
    exact h.commit_le (hvoted (by decide) (by decide) hvote)
  · intro round last hask
    rcases hasked hask with hold | ⟨rfl, -⟩
    · exact (h.asked_le hold).trans hround.le
    · exact le_rfl
  · intro round root round' last hvote hask hlt
    have hvote : t.Voted .commit round root := hvoted (by decide) (by decide) hvote
    rcases hasked hask with hold | ⟨-, rfl⟩
    · exact h.reported hvote hold hlt
    -- the new round change reports the last preparation, which no vote to commit is above
    · obtain ⟨p, hp, hle⟩ := h.commit_le hvote
      exact ⟨p.round, by rw [hp, Option.map_some], hle⟩

/-- Every turn keeps the discipline. -/
theorem turn (h : Disciplined height t) (hheight : u.height = t.state.height)
    (hturn : Turn t.state (sentBy effects) u) :
    Disciplined height (t.after effects decisions u) := by
  generalize hsent : sentBy effects = sent at hturn
  cases hturn with
  | rest hall hround haccepted hprepared =>
    exact h.rest (hsent ▸ hall) hheight hround haccepted hprepared
  | accept hfresh hvalue hbody hvote hround haccepted hprepared =>
    exact h.accept hsent hfresh hvalue hbody hvote hheight hround haccepted hprepared
  | commit hproposal hvalue hbody hvote hfirst hround haccepted hprepared =>
    exact h.commit hsent hproposal hbody hvote hheight hround haccepted hprepared
  | advance hround haccepted hprepared hm =>
    exact h.advance hsent hm hheight hround haccepted hprepared

end Disciplined

/-- Every run is disciplined. -/
theorem Run.disciplined {seat : Seat S} {height : Height} {t : Trace S} (h : Run seat height t) :
    Disciplined height t := by
  refine Run.induct (Disciplined.new height) (fun t e effects decision u ht hmove => ?_) h
  exact ht.turn hmove.turn.1 hmove.turn.2

end Instance
end Conclave
