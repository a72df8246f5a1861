import Conclave.Proofs.Instance.Polling
import Conclave.Proofs.Instance.Redelivery

/-!
# Quorums

An instance does not count members. It looks for messages with different signers among the votes
that it has stored, and which it has stored depends on what came first. Still it finds a quorum
exactly when as many members have had a vote for the accepted proposal taken, in any order and among
any other messages.

* `backers` are these members, by the messages that were taken and nothing else;
* `Kept` says that a tally stands for the votes that were taken, `InTime` that nothing in it can be
  mistaken for a vote of the current round, `Settled` that the accepted value is prepared exactly if
  a quorum has voted for it; `Counted` puts them together, and every event keeps it
  (`Counted.step`);
* `quorums_exact`: the vote that makes a quorum is the one on which the instance acts.
-/

namespace Conclave
namespace Instance

variable {S : Scheme}

/-! ### What is taken -/

instance {α : Type} : (answer : Except Error α) → Decidable (Taken answer)
  | .ok a => .isTrue (.ok a)
  | .error _ => decidable_of_iff _ FailsOnly.error_iff.symm

/-- The message that is taken on an event, if any. -/
def takenOn (seat : Seat S) (s : Instance S) (x : Network S × Event S) : List (SignedMessage S) :=
  match x.2 with
  | .receive m => if Taken (receive seat x.1 s m).answer then [m] else []
  | _ => []

/-- The members with a verified vote of some kind among messages, in a round and for the value with
some root. -/
def votersAmong (seat : Seat S) (type : MessageType) (round : Round) (root : Digest)
    (ms : List (SignedMessage S)) : Finset OperatorId :=
  seat.committee.names.filter fun id => ∃ m ∈ ms, m.type = type ∧
    m.verify seat.committee seat.context.domain = .ok () ∧ m.round = round ∧
    m.message.valueRoot? = some root ∧ id ∈ m.signers

/-- The members whose votes an instance has taken on some events. -/
def backers (seat : Seat S) (height : Height) (events : List (Network S × Event S))
    (type : MessageType) (round : Round) (root : Digest) : Finset OperatorId :=
  votersAmong seat type round root (along (takenOn seat) seat (.new height) events)

/-- With new members, some members become a quorum. -/
def MakesQuorum (seat : Seat S) (before after : Finset OperatorId) : Prop :=
  before.card < seat.committee.quorum ∧ seat.committee.quorum ≤ after.card

instance (seat : Seat S) (before after : Finset OperatorId) :
    Decidable (MakesQuorum seat before after) :=
  inferInstanceAs (Decidable (_ ∧ _))

/-- A tally stands for the votes of a kind that were taken: it holds some of them, and of each the
signers, the round and the value. -/
structure Kept (type : MessageType) (ms : List (SignedMessage S)) (t : Tally S) : Prop where
  mem : ∀ x ∈ t.messages, x ∈ ms
  found : ∀ m ∈ ms, m.type = type → ∃ x ∈ t.messages, x.signers = m.signers ∧
    x.round = m.round ∧ x.message.valueRoot? = m.message.valueRoot?

section Kept

variable {seat : Seat S} {height : Height} {type : MessageType} {ms more : List (SignedMessage S)}
  {t : Tally S} {m : SignedMessage S}

/-- Who has voted may be read off the tally. -/
theorem Kept.votersAmong_eq (h : Kept type ms t) (hfiled : Filed seat height type t)
    (hone : OnePerSigner t) (round : Round) (root : Digest) :
    votersAmong seat type round root ms = t.voters round root := by
  ext id
  rw [votersAmong, Finset.mem_filter, Tally.mem_voters]
  constructor
  · rintro ⟨-, m, hm, htype, -, rfl, hroot, hid⟩
    obtain ⟨x, hx, hsigners, hround, hsame⟩ := h.found m hm htype
    obtain ⟨single, hsingle⟩ := hone.single x hx
    refine ⟨x, hx, hround, hsame.trans hroot, ?_, hsigners ▸ hid⟩
    rw [hsingle]
    exact List.nodup_singleton single
  · rintro ⟨x, hx, hround, hroot, -, hid⟩
    have hmessage := hfiled.of_mem hx
    exact ⟨SignedMessage.mem_names_of_verify hmessage.verified hid, x, h.mem x hx,
      hmessage.type_eq, hmessage.verified, hround, hroot, hid⟩

/-- Messages of other kinds make no difference. -/
theorem Kept.append (h : Kept type ms t) (hmore : ∀ m ∈ more, m.type ≠ type) :
    Kept type (ms ++ more) t where
  mem x hx := List.mem_append_left _ (h.mem x hx)
  found m hm htype := by
    rcases List.mem_append.1 hm with hm | hm
    · exact h.found m hm htype
    · exact absurd htype (hmore m hm)

/-- A vote that is taken is stored, or is like one that is stored already. -/
theorem Kept.vote (h : Kept type ms t) {t' : Tally S} (ht' : t' = t ∨ t' = t.add m)
    (hlike : ∃ x ∈ t'.messages, x.signers = m.signers ∧ x.round = m.round ∧
      x.message.valueRoot? = m.message.valueRoot?) : Kept type (ms ++ [m]) t' where
  mem x hx := by
    rcases ht' with rfl | rfl
    · exact List.mem_append_left _ (h.mem x hx)
    · rw [Tally.messages_add, List.mem_append] at hx
      exact List.mem_append.2 (hx.imp_left (h.mem x))
  found x hx htype := by
    rcases List.mem_append.1 hx with hx | hx
    · obtain ⟨y, hy, hsame⟩ := h.found x hx htype
      refine ⟨y, ?_, hsame⟩
      rcases ht' with rfl | rfl
      · exact hy
      · exact List.mem_append_left _ hy
    · rw [List.mem_singleton.1 hx]
      exact hlike

end Kept

/-! ### Votes of the current round -/

/-- A message of an earlier round, or one of the current round for the accepted proposal. -/
def InTime (s : Instance S) (m : SignedMessage S) : Prop :=
  m.round.toNat < s.round.toNat ∨ m.round = s.round ∧
    ∃ proposal, s.accepted = some proposal ∧
      m.message.valueRoot? = proposal.message.valueRoot?

/-- The votes that are stored are in time. Nothing is said about commits after a decision. -/
structure Timely (s : Instance S) : Prop where
  prepares : ∀ m ∈ s.prepares.messages, InTime s m
  commits : s.decided = none → ∀ m ∈ s.commits.messages, InTime s m

section Timely

variable {seat : Seat S} {height : Height} {s u : Instance S} {m : SignedMessage S} {e : Event S}
  {effects : List (Effect S)} {decision : Option (Decision S)}

/-- The first proposal of a round finds no vote there. -/
theorem InTime.round_ne (h : InTime s m) {round : Round}
    (hfresh : round = s.round ∧ s.accepted = none ∨ s.round.toNat < round.toNat) :
    m.round.toNat < round.toNat := by
  rcases hfresh with ⟨rfl, hnone⟩ | hlt
  · rcases h with hlt | ⟨-, proposal, haccepted, -⟩
    · exact hlt
    · rw [hnone] at haccepted
      cases haccepted
  · rcases h with hlt' | ⟨hround, -⟩
    · exact hlt'.trans hlt
    · rwa [hround]

theorem InTime.turn (h : InTime s m) {sent : List (SignedMessage S)} (hturn : Turn s sent u) :
    InTime u m := by
  cases hturn with
  | rest hsent hround haccepted hprepared =>
    rwa [InTime, hround, haccepted]
  | accept hfresh hvalue hbody hvote hround haccepted hprepared =>
    refine .inl ?_
    rw [hround]
    exact h.round_ne hfresh
  | commit hproposal hvalue hbody hvote hfirst hround haccepted hprepared =>
    rwa [InTime, hround, haccepted]
  | advance hround haccepted hprepared hsent => exact .inl (h.round_ne (.inr hround))

theorem inTime_of_validateVote (h : Collected seat height s)
    (hvalid : validateVote seat s m = .ok ()) : InTime s m := by
  obtain ⟨proposal, haccepted, hround, hroot, -⟩ := validateVote_eq_ok_iff.1 hvalid
  exact .inr ⟨hround.trans (h.accepted haccepted), proposal, haccepted, hroot⟩

/-- A prepare that is stored was stored before, or has just been checked. -/
theorem Move.mem_prepares (h : Move seat s e effects decision u) (hm : m ∈ u.prepares.messages) :
    m ∈ s.prepares.messages ∨ validateVote seat s m = .ok () := by
  cases h with
  | storePrepare hreach htype hvalid hnew =>
    refine (List.mem_append.1 hm).imp_right fun hm => ?_
    rwa [List.mem_singleton.1 hm]
  | prepare hreach htype hvalid hnew hvalue hfirst hquorum =>
    refine (List.mem_append.1 hm).imp_right fun hm => ?_
    rwa [List.mem_singleton.1 hm]
  | propose => exact .inl (by simpa using hm)
  | _ => exact .inl hm

/-- The same holds of a commit, as long as nothing is decided. -/
theorem Move.mem_commits (h : Move seat s e effects decision u) (hopen : u.decided = none)
    (hm : m ∈ u.commits.messages) :
    m ∈ s.commits.messages ∨ validateVote seat s m = .ok () := by
  cases h with
  | storeCommit hreach htype hvalid hnew =>
    refine (List.mem_append.1 hm).imp_right fun hm => ?_
    rwa [List.mem_singleton.1 hm]
  | decide => cases hopen
  | learn => cases hopen
  | propose => exact .inl (by simpa using hm)
  | _ => exact .inl hm

theorem Timely.move (h : Timely s) (hcollected : Collected seat height s)
    (hmove : Move seat s e effects decision u) : Timely u := by
  have hturn := hmove.turn.2
  constructor
  · intro m hm
    rcases hmove.mem_prepares hm with hold | hvalid
    · exact (h.prepares m hold).turn hturn
    · exact (inTime_of_validateVote hcollected hvalid).turn hturn
  · intro hopen m hm
    have hbefore : s.decided = none := by
      rcases hmove.decided with ⟨-, hsame⟩ | ⟨d, -, hopen', -⟩
      · exact hsame.symm.trans hopen
      · exact hopen'
    rcases hmove.mem_commits hopen hm with hold | hvalid
    · exact (h.commits hbefore m hold).turn hturn
    · exact (inTime_of_validateVote hcollected hvalid).turn hturn

theorem Run.timely {t : Trace S} (h : Run seat height t) : Timely t.state :=
  (Run.induct (P := fun t => Collected seat height t.state ∧ Timely t.state)
    ⟨collected_new seat height, nofun, nofun⟩
    (fun _ _ _ _ _ ht hmove => ⟨ht.1.move hmove, ht.2.move ht.1 hmove⟩) h).2

end Timely

/-! ### What a quorum of prepares has done -/

/-- The accepted value is prepared in its round exactly if a quorum has voted for it. -/
def Settled (seat : Seat S) (s : Instance S) : Prop :=
  ∀ value, s.acceptedValue? = some value → (s.prepared = some ⟨s.round, value⟩ ↔
    seat.committee.quorum ≤ (s.prepares.voters s.round value.root).card)

section Settled

variable {seat : Seat S} {height : Height} {s u : Instance S} {m : SignedMessage S} {e : Event S}
  {effects : List (Effect S)} {decision : Option (Decision S)}

/-- Where nothing is accepted, there is nothing to prepare. -/
theorem settled_of_accepted_eq_none (h : s.accepted = none) : Settled seat s := by
  intro value hvalue
  rw [acceptedValue?, h] at hvalue
  cases hvalue

/-- In the round of a new proposal there is no vote, and nothing is prepared. -/
theorem settled_accept (hcollected : Collected seat height s) (htimely : Timely s)
    (hvalid : validateProposal seat s m = .ok ()) {t : Tally S} :
    Settled seat { s with round := m.round, accepted := some m, proposes := t } := by
  obtain ⟨⟨id, hid, -⟩, hverify, -, hfresh⟩ := validateProposal_eq_ok_iff.1 hvalid
  have hpos : 0 < seat.committee.quorum :=
    Committee.quorum_pos (size_pos_of_verify ⟨id, hid⟩ hverify)
  have hnone : ∀ x ∈ s.prepares.messages, x.round ≠ m.round := by
    intro x hx hround
    have hlt := (htimely.prepares x hx).round_ne hfresh
    rw [hround] at hlt
    exact lt_irrefl _ hlt
  intro value _
  refine iff_of_false (fun hprepared => ?_) fun hquorum => ?_
  · obtain ⟨-, ids, -, hquorum, hids⟩ := hcollected.prepared hprepared
    obtain ⟨id, hid⟩ := Finset.card_pos.1 (hpos.trans_le hquorum)
    obtain ⟨x, hx, -⟩ := hids id hid
    obtain ⟨hx, hround⟩ := Tally.mem_ofRound.1 hx
    exact hnone x hx hround
  · obtain ⟨id, hid⟩ := Finset.card_pos.1 (hpos.trans_le hquorum)
    obtain ⟨x, hx, hround, -⟩ := Tally.mem_voters.1 hid
    exact hnone x hx hround

/-- A new vote is enough for a quorum or was not needed. -/
theorem Settled.prepare (h : Settled seat s) (hround : m.round = s.round) {id : OperatorId}
    (hsigners : m.signers = [id]) {value : Value S} (hvalue : s.acceptedValue? = some value)
    (hroot : m.message.valueRoot? = some value.root) {p : Option (Prepared S)}
    (hp : p = some ⟨m.round, value⟩ ↔ s.prepared = some ⟨m.round, value⟩ ∨
      seat.committee.quorum ≤ ((s.prepares.add m).voters m.round value.root).card) :
    Settled seat { s with prepares := s.prepares.add m, prepared := p } := by
  intro value' hvalue'
  obtain rfl : value = value' := Option.some.inj (hvalue.symm.trans hvalue')
  have hold := h value hvalue
  dsimp only
  rw [← hround] at hold ⊢
  rw [hp]
  refine ⟨fun hor => ?_, .inr⟩
  rcases hor with hprepared | hquorum
  · rw [Tally.voters_add hsigners hroot]
    exact (hold.1 hprepared).trans (Finset.card_le_card (Finset.subset_insert _ _))
  · exact hquorum

/-- Only a prepare changes who has voted in a round. -/
theorem Settled.move (h : Settled seat s) (hcollected : Collected seat height s)
    (htimely : Timely s) (hmove : Move seat s e effects decision u)
    (hother : ∀ m, e = .receive m → m.type ≠ .prepare) : Settled seat u := by
  cases hmove with
  | accept hreach htype hvalid hvalue => exact settled_accept hcollected htimely hvalid
  | storePrepare hreach htype hvalid hnew => exact absurd htype (hother _ rfl)
  | prepare hreach htype hvalid hnew hvalue hfirst hquorum => exact absurd htype (hother _ rfl)
  | propose htype hopen hround hfirst hleader hquorum hproposal =>
    unfold enter
    split
    · exact settled_of_accepted_eq_none rfl
    · exact h
  | follow htype hopen habove hquorum hlowest hlt => exact settled_of_accepted_eq_none rfl
  | expire hrunning hopen hnext => exact settled_of_accepted_eq_none rfl
  | start hnew => exact h
  | lead hnew hround hleader => exact h
  | storeCommit hreach htype hvalid hnew => exact h
  | decide hreach htype hvalid hnew hopen hvalue hquorum hcommit => exact h
  | storeRoundChange hreach htype hvalid hnew => exact h
  | learn hopen hvalue hroot => exact h

end Settled

/-! ### What is counted -/

/-- The votes that are stored stand for those that were taken, and have had their effect. -/
structure Counted (seat : Seat S) (ms : List (SignedMessage S)) (s : Instance S) : Prop where
  prepares : Kept .prepare ms s.prepares
  commits : s.decided = none → Kept .commit ms s.commits
  settled : Settled seat s

section Counted

variable {seat : Seat S} {net : Network S} {height : Height} {round : Round} {value : Value S}
  {s u : Instance S} {t : Trace S} {m : SignedMessage S} {id : OperatorId} {e : Event S}
  {ms : List (SignedMessage S)}

theorem mem_takenOn {x : Network S × Event S} :
    m ∈ takenOn seat s x ↔ x.2 = .receive m ∧ Taken (receive seat x.1 s m).answer := by
  obtain ⟨net, e⟩ := x
  cases e with
  | receive m' =>
    simp only [takenOn, Event.receive.injEq]
    split
    · rename_i htaken
      rw [List.mem_singleton]
      constructor
      · rintro rfl
        exact ⟨rfl, htaken⟩
      · rintro ⟨rfl, -⟩
        rfl
    · rename_i htaken
      refine iff_of_false (List.not_mem_nil) ?_
      rintro ⟨rfl, h⟩
      exact htaken h
  | start value => simp [takenOn]
  | timeout round => simp [takenOn]
  | learn commit => simp [takenOn]

theorem takenOn_of_taken (h : Taken (receive seat net s m).answer) :
    takenOn seat s (net, .receive m) = [m] := if_pos h

/-- Of a vote of the current round whose signer has been heard there, the like is stored. -/
theorem exists_like_of_heard {tally : Tally S} (hone : OnePerSigner tally)
    (htimely : ∀ x ∈ tally.messages, InTime s x) (hm : InTime s m) (hround : m.round = s.round)
    (hsigners : m.signers = [id]) (hheard : id ∈ tally.heard m.round) :
    ∃ x ∈ tally.messages, x.signers = m.signers ∧ x.round = m.round ∧
      x.message.valueRoot? = m.message.valueRoot? := by
  have hcurrent : ∀ {x : SignedMessage S}, InTime s x → x.round = s.round →
      ∃ proposal, s.accepted = some proposal ∧
        x.message.valueRoot? = proposal.message.valueRoot? := by
    rintro x (hlt | ⟨-, hproposal⟩) hx
    · rw [hx] at hlt
      exact absurd hlt (lt_irrefl _)
    · exact hproposal
  obtain ⟨x, hx, hsame, hid⟩ := Tally.mem_heard.1 hheard
  obtain ⟨single, hsingle⟩ := hone.single x hx
  obtain rfl : id = single := by simpa [hsingle] using hid
  obtain ⟨proposal, haccepted, hroot⟩ := hcurrent hm hround
  obtain ⟨proposal', haccepted', hroot'⟩ := hcurrent (htimely x hx) (hsame.trans hround)
  obtain rfl : proposal = proposal' := Option.some.inj (haccepted.symm.trans haccepted')
  exact ⟨x, hx, hsingle.trans hsigners.symm, hsame, hroot'.trans hroot.symm⟩

/-- A message is taken even if the vote that it calls for is not sent. -/
theorem taken_send : Taken (undecided (send net s m)).answer := by
  have hsend : FailsOnly (fun e => e.isSideEffect = true) (send net s m).answer :=
    .mapError fun _ => rfl
  exact hsend.map _

/-- A prepare that counts is taken, whether or not it is stored. -/
theorem Counted.prepare (net : Network S) (h : Counted seat ms t.state)
    (hvoting : Voting seat height round value t) (hcounts : Counts seat t.state .prepare m) :
    Taken (receive seat net t.state m).answer ∧
      Counted seat (ms ++ [m]) (receive seat net t.state m).state := by
  obtain ⟨-, ⟨id, hsigners⟩, hround, hroot⟩ := hvoting.of_counts hcounts
  have hreceive := hvoting.receive_prepare net hcounts hsigners
  obtain ⟨htype, -, hvalid⟩ := hcounts
  have hcollected := hvoting.run.collected
  have hcurrent : m.round = t.state.round := hround.trans hvoting.round_eq.symm
  have hcommits : t.state.decided = none → Kept .commit (ms ++ [m]) t.state.commits := by
    refine fun hopen => (h.commits hopen).append (List.forall_mem_singleton.2 ?_)
    rw [htype]
    decide
  have hstored : Kept .prepare (ms ++ [m]) (t.state.prepares.add m) :=
    h.prepares.vote (.inr rfl) ⟨m, List.mem_append_right _ List.mem_cons_self, rfl, rfl, rfl⟩
  by_cases hheard : id ∈ t.state.prepares.heard m.round
  · rw [hreceive, if_pos hheard]
    refine ⟨.ok none, ⟨h.prepares.vote (.inl rfl) ?_, hcommits, h.settled⟩⟩
    exact exists_like_of_heard hcollected.prepares.2 hvoting.run.timely.prepares
      (inTime_of_validateVote hcollected hvalid) hcurrent hsigners hheard
  rw [hreceive, if_neg hheard]
  split
  · rename_i hpass
    refine ⟨taken_send, ⟨hstored, hcommits, ?_⟩⟩
    exact h.settled.prepare hcurrent hsigners hvoting.accepted hroot
      (iff_of_true rfl (.inr hpass.2))
  · rename_i hpass
    refine ⟨.ok none, ⟨hstored, hcommits, ?_⟩⟩
    refine h.settled.prepare hcurrent hsigners hvoting.accepted hroot ⟨.inl, fun hor => ?_⟩
    refine hor.elim (fun hold => hold) fun hquorum => ?_
    exact not_not.1 fun hfirst => hpass ⟨hfirst, hquorum⟩

/-- A commit that counts is taken as well. -/
theorem Counted.commit (net : Network S) (h : Counted seat ms t.state)
    (hvoting : Voting seat height round value t) (hcounts : Counts seat t.state .commit m) :
    Taken (receive seat net t.state m).answer ∧
      Counted seat (ms ++ [m]) (receive seat net t.state m).state := by
  obtain ⟨-, ⟨id, hsigners⟩, hround, -⟩ := hvoting.of_counts hcounts
  obtain ⟨commit, -, hreceive⟩ := hvoting.receive_commit net hcounts hsigners
  obtain ⟨htype, -, hvalid⟩ := hcounts
  have hcollected := hvoting.run.collected
  have hprepares : Kept .prepare (ms ++ [m]) t.state.prepares := by
    refine h.prepares.append (List.forall_mem_singleton.2 ?_)
    rw [htype]
    decide
  have hstored (hopen : t.state.decided = none) :
      Kept .commit (ms ++ [m]) (t.state.commits.add m) :=
    (h.commits hopen).vote (.inr rfl)
      ⟨m, List.mem_append_right _ List.mem_cons_self, rfl, rfl, rfl⟩
  by_cases hheard : id ∈ t.state.commits.heard m.round
  · rw [hreceive, if_pos hheard]
    refine ⟨.ok none, ⟨hprepares, fun hopen => (h.commits hopen).vote (.inl rfl) ?_, h.settled⟩⟩
    exact exists_like_of_heard (hcollected.commits hopen) (hvoting.run.timely.commits hopen)
      (inTime_of_validateVote hcollected hvalid) (hround.trans hvoting.round_eq.symm) hsigners
      hheard
  rw [hreceive, if_neg hheard]
  split
  · exact ⟨.ok _, ⟨hprepares, nofun, h.settled⟩⟩
  · exact ⟨.ok none, ⟨hprepares, hstored, h.settled⟩⟩

/-- An instance that runs and can check a vote has accepted a value. -/
theorem exists_voting (h : Run seat height t) (hrunning : t.state.stopped seat = false)
    (hcounts : Counts seat t.state m.type m) :
    ∃ value, Voting seat height t.state.round value t := by
  obtain ⟨value, hvalue⟩ := h.coherent.exists_acceptedValue? hcounts.2.2
  exact ⟨value, h, hrunning, rfl, hvalue⟩

/-- A prepare or a commit is turned away, or it counts. -/
theorem receive_vote_cases (net : Network S) (h : Run seat height t)
    (htype : m.type = .prepare ∨ m.type = .commit) :
    (∃ e, e.isRejection = true ∧ receive seat net t.state m = .refuse t.state e) ∨
      (∃ value, Voting seat height t.state.round value t) ∧ Counts seat t.state m.type m := by
  by_cases hcounts : Counts seat t.state m.type m
  · cases hrunning : t.state.stopped seat with
    | true =>
      refine .inl ⟨.stopped, rfl, ?_⟩
      rw [receive, if_pos hrunning]
    | false => exact .inr ⟨exists_voting h hrunning hcounts, hcounts⟩
  · exact .inl (receive_of_not_counts net htype hcounts)

theorem Counted.vote (h : Counted seat ms t.state) (hrun : Run seat height t)
    (htype : m.type = .prepare ∨ m.type = .commit) :
    Counted seat (ms ++ takenOn seat t.state (net, .receive m))
      (receive seat net t.state m).state := by
  rcases receive_vote_cases net hrun htype with ⟨e, he, hrefused⟩ | ⟨⟨value, hvoting⟩, hcounts⟩
  · have hnot : takenOn seat t.state (net, .receive m) = [] := by
      refine if_neg ?_
      rw [hrefused]
      exact not_taken_refuse (Error.isSideEffect_of_isRejection he)
    rw [hnot, List.append_nil, hrefused]
    exact h
  · have hcounted : Taken (receive seat net t.state m).answer ∧
        Counted seat (ms ++ [m]) (receive seat net t.state m).state := by
      rcases htype with htype | htype
      · exact h.prepare net hvoting (htype ▸ hcounts)
      · exact h.commit net hvoting (htype ▸ hcounts)
    rw [takenOn_of_taken hcounted.1]
    exact hcounted.2

/-- What is not a vote leaves the votes alone, unless it brings the decision. -/
theorem Move.no_vote {effects : List (Effect S)} {decision : Option (Decision S)}
    (h : Move seat s e effects decision u)
    (hother : ∀ m, e = .receive m → m.type ≠ .prepare ∧ m.type ≠ .commit) :
    u.prepares = s.prepares ∧ (u.decided = none → s.decided = none ∧ u.commits = s.commits) := by
  cases h with
  | storePrepare hreach htype hvalid hnew => exact absurd htype (hother _ rfl).1
  | prepare hreach htype hvalid hnew hvalue hfirst hquorum => exact absurd htype (hother _ rfl).1
  | storeCommit hreach htype hvalid hnew => exact absurd htype (hother _ rfl).2
  | decide hreach htype hvalid hnew hopen hvalue hquorum hcommit =>
    exact absurd htype (hother _ rfl).2
  | learn hopen hvalue hroot => exact ⟨rfl, nofun⟩
  | propose htype hopen hround hfirst hleader hquorum hproposal =>
    exact ⟨enter_prepares _ _, fun _ => ⟨hopen, enter_commits _ _⟩⟩
  | _ => exact ⟨rfl, fun hopen => ⟨hopen, rfl⟩⟩

/-- A state with the votes of an earlier one, as long as it is undecided. -/
structure SameVotes (seat : Seat S) (height : Height) (s u : Instance S) : Prop where
  collected : Collected seat height u
  timely : Timely u
  settled : Settled seat u
  prepares : u.prepares = s.prepares
  commits : u.decided = none → s.decided = none ∧ u.commits = s.commits

theorem SameVotes.move {d : Instance S} {effects : List (Effect S)}
    {decision : Option (Decision S)} (h : SameVotes seat height d s)
    (hmove : Move seat s e effects decision u)
    (hother : ∀ m, e = .receive m → m.type ≠ .prepare ∧ m.type ≠ .commit) :
    SameVotes seat height d u := by
  obtain ⟨hprepares, hcommits⟩ := hmove.no_vote hother
  refine ⟨h.collected.move hmove, h.timely.move h.collected hmove,
    h.settled.move h.collected h.timely hmove fun m hm => (hother m hm).1,
    hprepares.trans h.prepares, fun hopen => ?_⟩
  obtain ⟨hbefore, hsame⟩ := hcommits hopen
  exact ⟨(h.commits hbefore).1, hsame.trans (h.commits hbefore).2⟩

/-- An event may bring about several moves. If it is no vote, none of them stores one. -/
theorem Counted.other (h : Counted seat ms t.state) (hrun : Run seat height t)
    (hother : ∀ m, e = .receive m → m.type ≠ .prepare ∧ m.type ≠ .commit) :
    Counted seat (ms ++ takenOn seat t.state (net, e)) (step seat net t.state e).state := by
  have hsame : SameVotes seat height t.state (t.extend seat net e).state :=
    Trace.extend_induct (P := fun u => SameVotes seat height t.state u.state)
      ⟨hrun.collected, hrun.timely, h.settled, rfl, fun hopen => ⟨hopen, rfl⟩⟩
      fun _ _ _ _ hbefore hmove => hbefore.move hmove hother
  rw [Trace.state_extend] at hsame
  have htypes : ∀ m ∈ takenOn seat t.state (net, e), m.type ≠ .prepare ∧ m.type ≠ .commit :=
    fun m hm => hother m (mem_takenOn.1 hm).1
  refine ⟨?_, fun hopen => ?_, hsame.settled⟩
  · rw [hsame.prepares]
    exact h.prepares.append fun m hm => (htypes m hm).1
  · obtain ⟨hbefore, hcommits⟩ := hsame.commits hopen
    rw [hcommits]
    exact (h.commits hbefore).append fun m hm => (htypes m hm).2

/-- Whatever happens, the votes that are stored stand for those that were taken. -/
theorem Counted.step (h : Counted seat ms t.state) (hrun : Run seat height t)
    (x : Network S × Event S) :
    Counted seat (ms ++ takenOn seat t.state x) (Instance.step seat x.1 t.state x.2).state := by
  obtain ⟨net, e⟩ := x
  by_cases hvote : ∃ m, e = .receive m ∧ (m.type = .prepare ∨ m.type = .commit)
  · obtain ⟨m, rfl, htype⟩ := hvote
    exact h.vote hrun htype
  · refine h.other hrun fun m hm => ?_
    rw [← not_or]
    exact fun htype => hvote ⟨m, hm, htype⟩

theorem counted_new (seat : Seat S) (height : Height) : Counted seat [] (.new height) where
  prepares := ⟨nofun, nofun⟩
  commits _ := ⟨nofun, nofun⟩
  settled := settled_of_accepted_eq_none rfl

/-- So it is along every run. -/
theorem counted_along (seat : Seat S) (height : Height) (events : List (Network S × Event S)) :
    Counted seat (along (takenOn seat) seat (.new height) events)
      (play seat (.new height) events) := by
  induction events using List.reverseRecOn with
  | nil => exact counted_new seat height
  | append_singleton past x ih =>
    obtain ⟨t, ht, hstate⟩ := exists_run seat height past
    rw [along_concat, play_concat]
    rw [← hstate] at ih ⊢
    exact ih.step ht x

end Counted

/-! ### What a vote leads to -/

section Votes

variable {seat : Seat S} {net : Network S} {height : Height} {round : Round} {root : Digest}
  {t : Trace S} {m : SignedMessage S} {ms : List (SignedMessage S)}

/-- A vote that is stored counts, and its signer has not been heard in the round. -/
theorem counts_of_stored {tally : Instance S → Tally S} (h : Run seat height t)
    (htype : m.type = .prepare ∨ m.type = .commit)
    (hstored : tally (receive seat net t.state m).state = (tally t.state).add m) :
    (∃ value, Voting seat height t.state.round value t) ∧ Counts seat t.state m.type m := by
  rcases receive_vote_cases net h htype with ⟨e, -, hrefused⟩ | hcounts
  · rw [hrefused] at hstored
    exact absurd hstored.symm (Tally.add_ne _ m)
  · exact hcounts

/-- The commits of a quorum, combined, are signed by all who have committed. -/
theorem signers_of_quorum {t : Tally S} (hfiled : Filed seat height .commit t)
    (hone : OnePerSigner t) {commit : SignedMessage S}
    (h : SignedMessage.aggregate (t.uniqueSigners round root).messages = .ok commit) :
    commit.signers.Nodup ∧ commit.signers.toFinset = t.voters round root := by
  have hlength : ∀ m ∈ (t.uniqueSigners round root).messages,
      m.signers.length = m.signatures.length := by
    intro m hm
    have hm := (Tally.mem_ofRound.1 (Tally.mem_uniqueSigners hm).1).1
    exact (SignedMessage.verify_eq_ok_iff.1 (hfiled.of_mem hm).verified).2.1
  have hperm := SignedMessage.signers_perm_of_aggregate h hlength
  rw [← (t.chosenFrom_uniqueSigners round root).signers_eq] at hperm
  refine ⟨(SignedMessage.aggregate_eq_ok h).2.2.2.2, ?_⟩
  rw [List.toFinset_eq_of_perm _ _ hperm, Tally.toFinset_uniqueSigners (hone.nodup round)]

/-- The vote that makes a quorum of prepares prepares the accepted value, and no other one does. -/
theorem prepare_exact (h : Counted seat ms t.state) (hrun : Run seat height t)
    (htype : m.type = .prepare)
    (hstored : (receive seat net t.state m).state.prepares = t.state.prepares.add m) :
    ∃ value, t.state.acceptedValue? = some value ∧
      let before := votersAmong seat .prepare t.state.round value.root ms
      let after := votersAmong seat .prepare t.state.round value.root
        (ms ++ takenOn seat t.state (net, .receive m))
      (MakesQuorum seat before after →
        (receive seat net t.state m).effects =
            [.broadcast (sign seat t.state t.state.round (.commit value.root))] ∧
          (receive seat net t.state m).state.prepared = some ⟨t.state.round, value⟩) ∧
      (¬ MakesQuorum seat before after → (receive seat net t.state m).effects = [] ∧
        (receive seat net t.state m).state.prepared = t.state.prepared) := by
  obtain ⟨⟨value, hvoting⟩, hcounts⟩ := counts_of_stored hrun (.inl htype) hstored
  rw [htype] at hcounts
  obtain ⟨-, ⟨id, hsigners⟩, hround, -⟩ := hvoting.of_counts hcounts
  obtain ⟨htaken, hafter, -, -⟩ := h.prepare net hvoting hcounts
  have hcollected := (hrun.next net (.receive m)).collected.prepares
  rw [Trace.state_extend, step] at hcollected
  rw [hstored] at hafter hcollected
  have hreceive := hvoting.receive_prepare net hcounts hsigners
  have hnew : id ∉ t.state.prepares.heard m.round := by
    intro hheard
    rw [hreceive, if_pos hheard] at hstored
    exact Tally.add_ne _ m hstored.symm
  refine ⟨value, hvoting.accepted, ?_⟩
  dsimp only
  rw [takenOn_of_taken htaken, hafter.votersAmong_eq hcollected.1 hcollected.2,
    h.prepares.votersAmong_eq hrun.collected.prepares.1 hrun.collected.prepares.2, hreceive,
    if_neg hnew, hround]
  -- a quorum before the vote is one that was acted on
  have hfirst := not_congr (h.settled value hvoting.accepted)
  rw [not_le] at hfirst
  refine ⟨fun hmakes => ?_, fun hnot => ?_⟩
  · rw [if_pos ⟨hfirst.2 hmakes.1, hmakes.2⟩]
    exact ⟨rfl, rfl⟩
  · rw [if_neg fun h => hnot ⟨hfirst.1 h.1, h.2⟩]
    exact ⟨rfl, rfl⟩

/-- The vote that makes a quorum of commits decides, with the signatures of all of them. -/
theorem commit_exact (h : Counted seat ms t.state) (hrun : Run seat height t)
    (htype : m.type = .commit) (hopen : t.state.decided = none)
    (hstored : (receive seat net t.state m).state.commits = t.state.commits.add m) :
    ∃ value, t.state.acceptedValue? = some value ∧
      let after := votersAmong seat .commit t.state.round value.root
        (ms ++ takenOn seat t.state (net, .receive m))
      (seat.committee.quorum ≤ after.card →
        ∃ commit, (receive seat net t.state m).answer = .ok (some ⟨value, commit⟩) ∧
          (receive seat net t.state m).state.decided = some value ∧ commit.signers.Nodup ∧
          commit.signers.toFinset = after) ∧
      (¬ seat.committee.quorum ≤ after.card → (receive seat net t.state m).answer = .ok none ∧
        (receive seat net t.state m).state.decided = none) := by
  obtain ⟨⟨value, hvoting⟩, hcounts⟩ := counts_of_stored hrun (.inr htype) hstored
  rw [htype] at hcounts
  obtain ⟨hreach, ⟨id, hsigners⟩, hround, -⟩ := hvoting.of_counts hcounts
  obtain ⟨commit, hcombined, hreceive⟩ := hvoting.receive_commit net hcounts hsigners
  have htaken := (h.commit net hvoting hcounts).1
  obtain ⟨-, -, hvalid⟩ := hcounts
  obtain ⟨-, -, -, -, hsingle, hverify⟩ := validateVote_eq_ok_iff.1 hvalid
  have hnew : id ∉ t.state.commits.heard m.round := by
    intro hheard
    rw [hreceive, if_pos hheard] at hstored
    exact Tally.add_ne _ m hstored.symm
  have hfiled : Filed seat height .commit (t.state.commits.add m) :=
    (hrun.coherent.commits hopen).add
      (hrun.coherent.height_eq ▸ hreach.isMessageOf htype hverify)
  have hone : OnePerSigner (t.state.commits.add m) := by
    refine (hrun.collected.commits hopen).add hsingle ?_
    rwa [← Bool.not_eq_true, Tally.hasSignerOf_iff_mem_heard hsigners]
  have hkept : Kept .commit (ms ++ [m]) (t.state.commits.add m) :=
    (h.commits hopen).vote (.inr rfl)
      ⟨m, List.mem_append_right _ List.mem_cons_self, rfl, rfl, rfl⟩
  refine ⟨value, hvoting.accepted, ?_⟩
  dsimp only
  rw [takenOn_of_taken htaken, hkept.votersAmong_eq hfiled hone, hreceive, if_neg hnew, ← hround]
  refine ⟨fun hquorum => ?_, fun hnot => ?_⟩
  · rw [if_pos ⟨hopen, hquorum⟩]
    obtain ⟨hnodup, hall⟩ := signers_of_quorum hfiled hone (hcombined hnew hopen hquorum)
    exact ⟨commit, rfl, rfl, hnodup, hall⟩
  · rw [if_neg fun h => hnot h.2]
    exact ⟨rfl, hopen⟩

end Votes

/-- After any events, an instance detects quorums exactly. On a prepare that it stores it prepares
the accepted value and commits to it if with this vote, for the first time in the round, as many
members as a quorum have had a verified prepare for the value taken, and only then. On a commit that
it stores while it is undecided it decides if as many have had a commit taken, and only then; the
signers of the decision are these members. -/
theorem quorums_exact (seat : Seat S) (height : Height) (past : List (Network S × Event S))
    (net : Network S) (m : SignedMessage S) {s : Instance S}
    {o : Step S (Instance S) Error (Option (Decision S))} (hs : play seat (.new height) past = s)
    (ho : receive seat net s m = o) :
    (m.type = .prepare → o.state.prepares = s.prepares.add m →
      ∃ value, s.acceptedValue? = some value ∧
        let before := backers seat height past .prepare s.round value.root
        let after := backers seat height (past ++ [(net, .receive m)]) .prepare s.round value.root
        (MakesQuorum seat before after →
          o.effects = [.broadcast (sign seat s s.round (.commit value.root))] ∧
            o.state.prepared = some ⟨s.round, value⟩) ∧
        (¬ MakesQuorum seat before after → o.effects = [] ∧ o.state.prepared = s.prepared)) ∧
    (m.type = .commit → s.decided = none → o.state.commits = s.commits.add m →
      ∃ value, s.acceptedValue? = some value ∧
        let after := backers seat height (past ++ [(net, .receive m)]) .commit s.round value.root
        (seat.committee.quorum ≤ after.card →
          ∃ commit, o.answer = .ok (some ⟨value, commit⟩) ∧ o.state.decided = some value ∧
            commit.signers.Nodup ∧ commit.signers.toFinset = after) ∧
        (¬ seat.committee.quorum ≤ after.card →
          o.answer = .ok none ∧ o.state.decided = none)) := by
  subst ho
  have hcounted := counted_along seat height past
  obtain ⟨t, ht, hstate⟩ := exists_run seat height past
  simp only [backers, along_concat, hs]
  rw [hs] at hcounted hstate
  subst hstate
  exact ⟨prepare_exact hcounted ht, commit_exact hcounted ht⟩

namespace Counting

open Scheme

/-- Member 1 has started and accepted its proposal; members 1 and 2 have prepared the value. -/
def preparing : List (Network plain × Event plain) :=
  (.start plain.value :: (plain.preparation.take 3).map .receive).map fun e => (.reliable _, e)

/-- The prepare of member 3, which makes the quorum. -/
def prepare : SignedMessage plain := plain.message 3 (.prepare plain.value.root)

/-- Afterwards members 3 and 1 have committed. -/
def committing : List (Network plain × Event plain) :=
  preparing ++ (prepare :: [3, 1].map fun id => plain.message id (.commit plain.value.root)).map
    fun m => (.reliable _, .receive m)

/-- The commit of member 2, which makes the quorum. -/
def commit : SignedMessage plain := plain.message 2 (.commit plain.value.root)

/-- What a member that has counted these votes does with the last commit. -/
theorem last_commit {o : Step plain (Instance plain) Error (Option (Decision plain))}
    (ho : receive plain.seat (.reliable _) (play plain.seat (.new Height.first) committing) commit =
      o) :
    o.state.commits = (play plain.seat (.new Height.first) committing).commits.add commit ∧
      backers plain.seat Height.first (committing ++ [(.reliable _, .receive commit)]) .commit
        Round.first plain.value.root = {⟨1⟩, ⟨2⟩, ⟨3⟩} := by
  have hcounted := counted_along plain.seat Height.first committing
  obtain ⟨t, ht, hstate⟩ := exists_run plain.seat Height.first committing
  have hvoting : Voting plain.seat Height.first Round.first plain.value t := by
    refine ⟨ht, ?_, ?_, ?_⟩ <;> rw [hstate] <;> decide +kernel
  have hcounts : Counts plain.seat t.state .commit commit := by
    rw [hstate]
    decide +kernel
  have hnew : (⟨2⟩ : OperatorId) ∉ t.state.commits.heard commit.round := by
    rw [hstate]
    decide +kernel
  rw [← hstate] at hcounted ho ⊢
  subst ho
  obtain ⟨combined, -, hreceive⟩ := hvoting.receive_commit (.reliable _) hcounts rfl
  have htaken := (hcounted.commit (.reliable _) hvoting hcounts).1
  refine ⟨?_, ?_⟩
  · rw [hreceive, if_neg hnew]
    split
    · rfl
    · rfl
  · rw [backers, along_concat, ← hstate, takenOn_of_taken htaken]
    decide +kernel

end Counting

/-- Of four members the third one makes the quorum, in both kinds of votes. -/
theorem quorums_of_three :
    (receive Scheme.plain.seat (.reliable _)
        (play Scheme.plain.seat (.new Height.first) Counting.preparing) Counting.prepare).effects =
      [.broadcast (Scheme.plain.message 1 (.commit Scheme.plain.value.root))] ∧
    ∃ commit, (receive Scheme.plain.seat (.reliable _)
        (play Scheme.plain.seat (.new Height.first) Counting.committing) Counting.commit).answer =
      .ok (some ⟨Scheme.plain.value, commit⟩) ∧ commit.signers.toFinset = {⟨1⟩, ⟨2⟩, ⟨3⟩} := by
  constructor
  · obtain ⟨value, hvalue, hprepares, -⟩ := (quorums_exact Scheme.plain.seat Height.first
      Counting.preparing (.reliable _) Counting.prepare rfl rfl).1 rfl
      (Tally.eq_of_messages_eq (by decide +kernel))
    have haccepted : (play Scheme.plain.seat (.new Height.first)
        Counting.preparing).acceptedValue? = some Scheme.plain.value := by decide +kernel
    obtain rfl : Scheme.plain.value = value := Option.some.inj (haccepted.symm.trans hvalue)
    exact (hprepares (by decide +kernel)).1.trans (by decide +kernel)
  · obtain ⟨hstored, hbackers⟩ := Counting.last_commit rfl
    obtain ⟨value, hvalue, hdecides, -⟩ := (quorums_exact Scheme.plain.seat Height.first
      Counting.committing (.reliable _) Counting.commit rfl rfl).2 rfl (by decide +kernel) hstored
    have haccepted : (play Scheme.plain.seat (.new Height.first)
        Counting.committing).acceptedValue? = some Scheme.plain.value := by decide +kernel
    have hround : (play Scheme.plain.seat (.new Height.first) Counting.committing).round =
        Round.first := by decide +kernel
    obtain rfl : Scheme.plain.value = value := Option.some.inj (haccepted.symm.trans hvalue)
    rw [hround, hbackers] at hdecides
    obtain ⟨commit, hanswer, -, -, hsigners⟩ := hdecides (by decide +kernel)
    exact ⟨commit, hanswer, hsigners⟩

end Instance
end Conclave
