import Conclave.Proofs.Instance.Votes
import Conclave.Proofs.Message.Aggregate
import Conclave.Proofs.Node.Certificate
import Conclave.Proofs.PlainScheme

/-!
# The invariant of an instance

What holds of an instance at every moment, whatever messages and timeouts reach it. Of what others
have decided it learns from certificates of its height, as its node makes sure.

* `Reachable` are the states that an instance gets into;
* `Filed` and `OnePerSigner` say what a tally holds, `IsProposalFor` what is accepted, `PreparedBy`
  what is behind a preparation; `Sound` puts them together;
* `Advances` says in which direction rounds, preparations and decisions go.

A move stores at most one message in each tally (`Move.tallied`), accepts at most one proposal
(`Move.accepted`) and prepares only what a quorum has prepared (`Move.prepared`). What this leaves
alone is known from its turn; so every move keeps the invariant (`Sound.move`).
-/

namespace Conclave
namespace Instance

variable {S : Scheme}

/-! ### Reachable instances -/

/-- What happens to an instance of a height: of the decisions of others it learns from commits of
the height that a node accepts as decided. -/
def Admitted (seat : Seat S) (height : Height) : Event S → Prop
  | .learn m => m.type = .commit ∧ m.height = height ∧ Node.validateDecided seat m = .ok ()
  | _ => True

instance (seat : Seat S) (height : Height) : ∀ e, Decidable (Admitted seat height e)
  | .learn m => inferInstanceAs <| Decidable <|
      m.type = .commit ∧ m.height = height ∧ Node.validateDecided seat m = .ok ()
  | .start _ | .receive _ | .timeout _ => .isTrue trivial

/-- The states that an instance of a height gets into. -/
inductive Reachable (seat : Seat S) (height : Height) : Instance S → Prop
  | new : Reachable seat height (.new height)
  | next {s : Instance S} (net : Network S) (e : Event S) (h : Reachable seat height s)
      (he : Admitted seat height e) : Reachable seat height (step seat net s e).state

theorem Reachable.play {seat : Seat S} {height : Height} {t : Trace S} {events : List (Event S)}
    (h : Reachable seat height t.state) (he : ∀ e ∈ events, Admitted seat height e) :
    Reachable seat height (t.play seat events).state :=
  Trace.play_induct (P := fun t => Reachable seat height t.state) h
    (fun _ e h he => h.next (Network.reliable S) e he) he

/-! ### What is stored -/

/-- A message of some kind that belongs to the stream and the height, and that verifies. -/
structure IsMessageOf (seat : Seat S) (height : Height) (type : MessageType)
    (m : SignedMessage S) : Prop where
  type_eq : m.type = type
  identifier_eq : m.identifier = seat.identifier
  height_eq : m.height = height
  verified : m.verify seat.committee seat.context.domain = .ok ()

/-- A tally keeps messages of one kind, each of them in its round. The types carry the round: a
tally is one list, and its messages of a round are the entries with that round. -/
structure Filed (seat : Seat S) (height : Height) (type : MessageType) (t : Tally S) : Prop where
  of_round : ∀ {round m}, m ∈ t.ofRound round → m.round = round ∧ IsMessageOf seat height type m

/-- The messages of a tally have one signer each, and no one has two in a round. -/
structure OnePerSigner (t : Tally S) : Prop where
  single : ∀ m ∈ t.messages, ∃ id, m.signers = [id]
  nodup : ∀ round, ((t.ofRound round).flatMap SignedMessage.signers).Nodup

/-- The same, apart from at most one message that stands among the others. -/
def OnePerSignerBut (t : Tally S) (other : Option (SignedMessage S)) : Prop :=
  ∃ before after, t.messages = before ++ other.toList ++ after ∧ OnePerSigner ⟨before ++ after⟩

/-- A tally after a move, which stores a message of a signer that has none in its round, or none. -/
inductive Stores (seat : Seat S) (height : Height) (type : MessageType) (t : Tally S) :
    Tally S → Prop
  | same : Stores seat height type t t
  | add {m : SignedMessage S} (hm : IsMessageOf seat height type m)
      (hsingle : ∃ id, m.signers = [id]) (hnew : t.hasSignerOf m = false) :
      Stores seat height type t (t.add m)

section Tallies

variable {seat : Seat S} {height : Height} {type : MessageType} {t t' : Tally S}

theorem filed_empty : Filed seat height type (Tally.empty : Tally S) where
  of_round h := by simp [Tally.empty] at h

theorem Filed.of_mem (h : Filed seat height type t) {m : SignedMessage S} (hm : m ∈ t.messages) :
    IsMessageOf seat height type m :=
  (h.of_round (Tally.mem_ofRound.2 ⟨hm, rfl⟩)).2

theorem Filed.add (h : Filed seat height type t) {m : SignedMessage S}
    (hm : IsMessageOf seat height type m) : Filed seat height type (t.add m) where
  of_round hx := by
    obtain ⟨hx, hround⟩ := Tally.mem_ofRound.1 hx
    rw [Tally.messages_add, List.mem_append, List.mem_singleton] at hx
    rcases hx with hx | rfl
    · exact ⟨hround, h.of_mem hx⟩
    · exact ⟨hround, hm⟩

theorem Filed.stores (h : Filed seat height type t) (hstores : Stores seat height type t t') :
    Filed seat height type t' := by
  cases hstores with
  | same => exact h
  | add hm _ _ => exact h.add hm

theorem onePerSigner_empty : OnePerSigner (Tally.empty : Tally S) where
  single m hm := by simp [Tally.empty] at hm
  nodup round := by simp [Tally.empty, Tally.ofRound]

theorem OnePerSigner.add (h : OnePerSigner t) {m : SignedMessage S}
    (hsingle : ∃ id, m.signers = [id]) (hnew : t.hasSignerOf m = false) :
    OnePerSigner (t.add m) where
  single x hx := by
    rw [Tally.messages_add, List.mem_append, List.mem_singleton] at hx
    rcases hx with hx | rfl
    · exact h.single x hx
    · exact hsingle
  nodup round := by
    rw [Tally.ofRound_add, List.flatMap_append]
    by_cases hround : m.round = round
    · obtain ⟨id, hid⟩ := hsingle
      rw [if_pos hround, List.flatMap_singleton, hid]
      refine List.nodup_append.2 ⟨h.nodup round, List.nodup_singleton id, fun a ha b hb he => ?_⟩
      obtain ⟨x, hx, hax⟩ := List.mem_flatMap.1 ha
      obtain ⟨hx, hxround⟩ := Tally.mem_ofRound.1 hx
      refine Tally.hasSignerOf_eq_false_iff.1 hnew x hx (hxround.trans hround.symm) a hax ?_
      rw [hid, he]
      exact hb
    · rw [if_neg hround, List.flatMap_nil, List.append_nil]
      exact h.nodup round

theorem OnePerSigner.stores (h : OnePerSigner t) (hstores : Stores seat height type t t') :
    OnePerSigner t' := by
  cases hstores with
  | same => exact h
  | add _ hsingle hnew => exact h.add hsingle hnew

theorem OnePerSignerBut.stores {other : Option (SignedMessage S)} (h : OnePerSignerBut t other)
    (hstores : Stores seat height type t t') : OnePerSignerBut t' other := by
  cases hstores with
  | same => exact h
  | @add m hm hsingle hnew =>
    obtain ⟨before, after, heq, hone⟩ := h
    refine ⟨before, after ++ [m], ?_, ?_⟩
    · rw [Tally.messages_add, heq, List.append_assoc _ after]
    · have hnew' : (⟨before ++ after⟩ : Tally S).hasSignerOf m = false := by
        rw [Tally.hasSignerOf_eq_false_iff] at hnew ⊢
        refine fun x hx => hnew x ?_
        rw [heq]
        rcases List.mem_append.1 hx with hx | hx
        · exact List.mem_append_left _ (List.mem_append_left _ hx)
        · exact List.mem_append_right _ hx
      rw [← List.append_assoc]
      exact hone.add hsingle hnew'

/-- One message may be stored without regard to what is there already. -/
theorem OnePerSignerBut.add (h : OnePerSignerBut t none) (m : SignedMessage S) :
    OnePerSignerBut (t.add m) (some m) := by
  obtain ⟨before, after, heq, hone⟩ := h
  rw [Option.toList_none, List.append_nil] at heq
  refine ⟨before ++ after, [], ?_, ?_⟩
  · rw [Tally.messages_add, heq, Option.toList_some, List.append_nil]
  · rwa [List.append_nil]

theorem Stores.subset (h : Stores seat height type t t') : t.messages ⊆ t'.messages := by
  cases h with
  | same => exact List.Subset.refl _
  | add hm hsingle hnew => exact List.subset_append_left _ _

end Tallies

/-! ### The invariant -/

/-- A proposal for a round: it is made by the proposer of the round alone, and its value may be
decided on. -/
structure IsProposalFor (seat : Seat S) (height : Height) (round : Round) (m : SignedMessage S) :
    Prop extends IsMessageOf seat height .propose m where
  round_eq : m.round = round
  leader : ∃ id, seat.context.proposer seat.committee height round = .ok id ∧ m.signers = [id]
  value : ∃ value, m.message.value? = some value ∧ seat.context.checkValue value = .ok ()

/-- A tally holds the prepares of a quorum for what was prepared. -/
def PreparedBy (seat : Seat S) (t : Tally S) (p : Prepared S) : Prop :=
  ∃ ids ⊆ seat.committee.names, seat.committee.quorum ≤ ids.card ∧
    ∀ id ∈ ids, ∃ m ∈ t.ofRound p.round,
      m.signers = [id] ∧ m.message.valueRoot? = some p.value.root

/-- The commits are one per signer in a round, apart from at most one certificate, from which the
instance has learned the decision. -/
def CommitsApart (seat : Seat S) (s : Instance S) : Prop :=
  ∃ learned, OnePerSignerBut s.commits learned ∧
    ∀ m ∈ learned, s.isDecided = true ∧ Node.IsCertificate seat m

/-- What holds of an instance of a height at every moment. The types carry some of it: a preparation
has a round and a value, and `decided_iff` is true of every instance, since one with a decided value
is what counts as decided. -/
structure Sound (seat : Seat S) (height : Height) (s : Instance S) : Prop where
  height_eq : s.height = height
  first_le : 1 ≤ s.round.toNat
  accepted : ∀ {m}, s.accepted = some m → IsProposalFor seat height s.round m
  prepared : ∀ {p}, s.prepared = some p →
    p.round.toNat ≤ s.round.toNat ∧ PreparedBy seat s.prepares p
  decided_iff : s.isDecided = true ↔ ∃ value, s.decided = some value
  proposes : Filed seat height .propose s.proposes ∧ OnePerSigner s.proposes
  prepares : Filed seat height .prepare s.prepares ∧ OnePerSigner s.prepares
  commits : Filed seat height .commit s.commits ∧ CommitsApart seat s
  roundChanges : Filed seat height .roundChange s.roundChanges ∧ OnePerSigner s.roundChanges

/-- The directions in which an instance goes: rounds and preparations do not fall, and a decision is
final. -/
structure Advances (s u : Instance S) : Prop where
  round_le : s.round.toNat ≤ u.round.toNat
  prepared_le : ∀ {p}, s.prepared = some p →
    ∃ q, u.prepared = some q ∧ p.round.toNat ≤ q.round.toNat
  decided_eq : ∀ {value}, s.decided = some value → u.decided = some value

theorem Advances.refl (s : Instance S) : Advances s s :=
  ⟨le_rfl, fun h => ⟨_, h, le_rfl⟩, fun h => h⟩

theorem Advances.trans {s t u : Instance S} (h : Advances s t) (h' : Advances t u) :
    Advances s u where
  round_le := h.round_le.trans h'.round_le
  prepared_le hp := by
    obtain ⟨q, hq, hle⟩ := h.prepared_le hp
    obtain ⟨r, hr, hle'⟩ := h'.prepared_le hq
    exact ⟨r, hr, hle.trans hle'⟩
  decided_eq hvalue := h'.decided_eq (h.decided_eq hvalue)

/-! ### Moves -/

section Moves

variable {seat : Seat S} {height : Height} {s u : Instance S} {e : Event S}
  {effects : List (Effect S)} {decision : Option (Decision S)}

theorem Reaches.isMessageOf {m : SignedMessage S} {type : MessageType} (h : Reaches seat s m)
    (htype : m.type = type) (hverify : m.verify seat.committee seat.context.domain = .ok ()) :
    IsMessageOf seat s.height type m :=
  ⟨htype, h.identifier_eq, h.height_eq, hverify⟩

/-- What a move does to the tallies. Only a certificate is stored without regard to what is there
already. -/
structure Tallied (seat : Seat S) (s : Instance S) (e : Event S) (u : Instance S) : Prop where
  proposes : Stores seat s.height .propose s.proposes u.proposes
  prepares : Stores seat s.height .prepare s.prepares u.prepares
  commits : Stores seat s.height .commit s.commits u.commits ∨ ∃ m, e = .learn m ∧
    s.decided = none ∧ u.isDecided = true ∧ u.commits = s.commits.add m
  roundChanges : Stores seat s.height .roundChange s.roundChanges u.roundChanges

theorem Move.tallied (h : Move seat s e effects decision u) : Tallied seat s e u := by
  cases h with
  | start hnew => exact ⟨.same, .same, .inl .same, .same⟩
  | lead hnew hround hleader => exact ⟨.same, .same, .inl .same, .same⟩
  | @accept m value hreach htype hvalid hvalue =>
    refine ⟨?_, .same, .inl .same, .same⟩
    obtain ⟨⟨id, hid, -⟩, hverify, -⟩ := validateProposal_eq_ok_iff.1 hvalid
    cases hadd : s.proposes.addFirst? m with
    | none => simpa [hadd] using Stores.same
    | some proposes =>
      obtain ⟨hnew, rfl⟩ := Tally.addFirst?_eq_some hadd
      simpa [hadd] using Stores.add (hreach.isMessageOf htype hverify) ⟨id, hid⟩ hnew
  | storePrepare hreach htype hvalid hnew =>
    obtain ⟨-, -, -, -, hsingle, hverify⟩ := validateVote_eq_ok_iff.1 hvalid
    exact ⟨.same, .add (hreach.isMessageOf htype hverify) hsingle hnew, .inl .same, .same⟩
  | prepare hreach htype hvalid hnew hvalue hfirst hquorum =>
    obtain ⟨-, -, -, -, hsingle, hverify⟩ := validateVote_eq_ok_iff.1 hvalid
    exact ⟨.same, .add (hreach.isMessageOf htype hverify) hsingle hnew, .inl .same, .same⟩
  | storeCommit hreach htype hvalid hnew =>
    obtain ⟨-, -, -, -, hsingle, hverify⟩ := validateVote_eq_ok_iff.1 hvalid
    exact ⟨.same, .same, .inl (.add (hreach.isMessageOf htype hverify) hsingle hnew), .same⟩
  | decide hreach htype hvalid hnew hopen hvalue hquorum hcommit =>
    obtain ⟨-, -, -, -, hsingle, hverify⟩ := validateVote_eq_ok_iff.1 hvalid
    exact ⟨.same, .same, .inl (.add (hreach.isMessageOf htype hverify) hsingle hnew), .same⟩
  | storeRoundChange hreach htype hvalid hnew =>
    have hchange := validateRoundChange_eq_ok_iff.1 hvalid
    exact ⟨.same, .same, .inl .same,
      .add (hreach.isMessageOf htype hchange.verified) hchange.single hnew⟩
  | propose htype hopen hround hfirst hleader hquorum hproposal =>
    refine ⟨?_, ?_, .inl ?_, ?_⟩
    · simpa using Stores.same
    · simpa using Stores.same
    · simpa using Stores.same
    · simpa using Stores.same
  | follow htype hopen habove hquorum hlowest hlt => exact ⟨.same, .same, .inl .same, .same⟩
  | expire hrunning hopen hnext => exact ⟨.same, .same, .inl .same, .same⟩
  | @learn commit value hopen hvalue hroot =>
    exact ⟨.same, .same, .inr ⟨commit, rfl, hopen, rfl, rfl⟩, .same⟩

/-- What is accepted was accepted before, in the same round, or is a proposal for the new round. -/
theorem Move.accepted (h : Move seat s e effects decision u) {m : SignedMessage S}
    (hm : u.accepted = some m) :
    s.accepted = some m ∧ u.round = s.round ∨ IsProposalFor seat s.height u.round m := by
  cases h with
  | accept hreach htype hvalid hvalue =>
    obtain rfl := Option.some.inj hm
    obtain ⟨⟨id, hid, hleader⟩, hverify, ⟨value, hvalue, hjustified⟩, -⟩ :=
      validateProposal_eq_ok_iff.1 hvalid
    refine .inr ⟨hreach.isMessageOf htype hverify, rfl, ⟨id, ?_, hid⟩, value, hvalue, ?_⟩
    · exact mapError_eq_ok_iff.1 hleader
    · exact (validateProposalJustification_eq_ok_iff.1 hjustified).1
  | propose htype hopen hround hfirst hleader hquorum hproposal =>
    -- nothing is accepted in a round that is entered
    simp only [enter] at hm ⊢
    split at hm
    · cases hm
    · rename_i hlt
      rw [if_neg hlt]
      exact .inl ⟨hm, rfl⟩
  | follow htype hopen habove hquorum hlowest hlt => cases hm
  | expire hrunning hopen hnext => cases hm
  | start hnew => exact .inl ⟨hm, rfl⟩
  | lead hnew hround hleader => exact .inl ⟨hm, rfl⟩
  | storePrepare hreach htype hvalid hnew => exact .inl ⟨hm, rfl⟩
  | prepare hreach htype hvalid hnew hvalue hfirst hquorum => exact .inl ⟨hm, rfl⟩
  | storeCommit hreach htype hvalid hnew => exact .inl ⟨hm, rfl⟩
  | decide hreach htype hvalid hnew hopen hvalue hquorum hcommit => exact .inl ⟨hm, rfl⟩
  | storeRoundChange hreach htype hvalid hnew => exact .inl ⟨hm, rfl⟩
  | learn hopen hvalue hroot => exact .inl ⟨hm, rfl⟩

/-- What is prepared was prepared before, or there is a quorum of prepares for it in the round of
the accepted proposal. -/
theorem Move.prepared (h : Move seat s e effects decision u) :
    u.prepared = s.prepared ∨ ∃ p proposal, u.prepared = some p ∧ s.accepted = some proposal ∧
      p.round = proposal.round ∧ u.round = s.round ∧
      seat.committee.quorum ≤ (u.prepares.uniqueSigners p.round p.value.root).size := by
  cases h with
  | prepare hreach htype hvalid hnew hvalue hfirst hquorum =>
    obtain ⟨proposal, haccepted, hround, -⟩ := validateVote_eq_ok_iff.1 hvalid
    exact .inr ⟨_, proposal, rfl, haccepted, hround, rfl, hquorum⟩
  | propose htype hopen hround hfirst hleader hquorum hproposal => exact .inl (enter_prepared _ _)
  | start hnew => exact .inl rfl
  | lead hnew hround hleader => exact .inl rfl
  | accept hreach htype hvalid hvalue => exact .inl rfl
  | storePrepare hreach htype hvalid hnew => exact .inl rfl
  | storeCommit hreach htype hvalid hnew => exact .inl rfl
  | decide hreach htype hvalid hnew hopen hvalue hquorum hcommit => exact .inl rfl
  | storeRoundChange hreach htype hvalid hnew => exact .inl rfl
  | follow htype hopen habove hquorum hlowest hlt => exact .inl rfl
  | expire hrunning hopen hnext => exact .inl rfl
  | learn hopen hvalue hroot => exact .inl rfl

end Moves

/-! ### The invariant is kept -/

section Sound

variable {seat : Seat S} {height : Height} {s u : Instance S} {e : Event S}
  {effects : List (Effect S)} {decision : Option (Decision S)}

/-- The signers that are counted for a quorum of prepares are members that have prepared. -/
theorem preparedBy_of_uniqueSigners {t : Tally S} {p : Prepared S}
    (hfiled : Filed seat height .prepare t) (hone : OnePerSigner t)
    (hquorum : seat.committee.quorum ≤ (t.uniqueSigners p.round p.value.root).size) :
    PreparedBy seat t p := by
  have hchosen := t.chosenFrom_uniqueSigners p.round p.value.root
  have hsigner : ∀ id ∈ (t.uniqueSigners p.round p.value.root).signers.toFinset,
      ∃ m ∈ t.ofRound p.round, id ∈ m.signers ∧ m.message.valueRoot? = some p.value.root := by
    intro id hid
    rw [List.mem_toFinset, hchosen.signers_eq] at hid
    obtain ⟨m, hm, hid⟩ := List.mem_flatMap.1 hid
    obtain ⟨hm, hroot⟩ := Tally.mem_uniqueSigners hm
    exact ⟨m, hm, hid, hroot⟩
  refine ⟨(t.uniqueSigners p.round p.value.root).signers.toFinset, fun id hid => ?_, ?_,
    fun id hid => ?_⟩
  · obtain ⟨m, hm, hid, -⟩ := hsigner id hid
    exact SignedMessage.mem_names_of_verify (hfiled.of_round hm).2.verified hid
  · rw [List.toFinset_card_of_nodup hchosen.nodup]
    exact hquorum
  · obtain ⟨m, hm, hid, hroot⟩ := hsigner id hid
    obtain ⟨only, honly⟩ := hone.single m (Tally.mem_ofRound.1 hm).1
    rw [honly, List.mem_singleton] at hid
    subst hid
    exact ⟨m, hm, honly, hroot⟩

theorem PreparedBy.mono {t t' : Tally S} {p : Prepared S} (h : PreparedBy seat t p)
    (hsub : t.messages ⊆ t'.messages) : PreparedBy seat t' p := by
  obtain ⟨ids, hmembers, hquorum, hids⟩ := h
  refine ⟨ids, hmembers, hquorum, fun id hid => ?_⟩
  obtain ⟨m, hm, hsigned⟩ := hids id hid
  obtain ⟨hm, hround⟩ := Tally.mem_ofRound.1 hm
  exact ⟨m, Tally.mem_ofRound.2 ⟨hsub hm, hround⟩, hsigned⟩

theorem sound_new (seat : Seat S) (height : Height) : Sound seat height (.new height) where
  height_eq := rfl
  first_le := le_rfl
  accepted := nofun
  prepared := nofun
  decided_iff := Option.isSome_iff_exists
  proposes := ⟨filed_empty, onePerSigner_empty⟩
  prepares := ⟨filed_empty, onePerSigner_empty⟩
  commits := ⟨filed_empty, none, ⟨[], [], rfl, onePerSigner_empty⟩, nofun⟩
  roundChanges := ⟨filed_empty, onePerSigner_empty⟩

namespace Sound

/-- A sound instance only advances. -/
theorem advances (h : Sound seat height s) (hmove : Move seat s e effects decision u) :
    Advances s u where
  round_le := hmove.turn.2.round_le
  prepared_le {p} hp := by
    rcases hmove.prepared with hsame | ⟨q, proposal, hq, haccepted, hround, -, -⟩
    · exact ⟨p, hsame.trans hp, le_rfl⟩
    · refine ⟨q, hq, ?_⟩
      rw [hround, (h.accepted haccepted).round_eq]
      exact (h.prepared hp).1
  decided_eq {value} hvalue := by
    rcases hmove.decided with ⟨-, hsame⟩ | ⟨d, -, hopen, -⟩
    · exact hsame.trans hvalue
    · rw [hopen] at hvalue
      cases hvalue

/-- A preparation of a move rests on prepares that are stored. -/
theorem prepared_move (h : Sound seat height s) (hmove : Move seat s e effects decision u)
    (hfiled : Filed seat height .prepare u.prepares) (hone : OnePerSigner u.prepares)
    {p : Prepared S} (hp : u.prepared = some p) :
    p.round.toNat ≤ u.round.toNat ∧ PreparedBy seat u.prepares p := by
  rcases hmove.prepared with hsame | ⟨q, proposal, hq, haccepted, hround, hcurrent, hquorum⟩
  · obtain ⟨hle, hprepares⟩ := h.prepared (hsame.symm.trans hp)
    exact ⟨hle.trans hmove.turn.2.round_le, hprepares.mono hmove.tallied.prepares.subset⟩
  · obtain rfl : p = q := Option.some.inj (hp.symm.trans hq)
    refine ⟨?_, preparedBy_of_uniqueSigners hfiled hone hquorum⟩
    rw [hround, (h.accepted haccepted).round_eq, hcurrent]

/-- A certificate that is admitted is a message of the height. -/
theorem isMessageOf_of_admitted {m : SignedMessage S} (he : Admitted seat height (.learn m)) :
    IsMessageOf seat height .commit m := by
  obtain ⟨htype, hheight, hvalid⟩ := he
  obtain ⟨hid, -, hverify⟩ := Node.validateDecided_eq_ok_iff.1 hvalid
  exact ⟨htype, hid, hheight, hverify⟩

theorem filed_commits_move (h : Sound seat height s) (he : Admitted seat height e)
    (hmove : Move seat s e effects decision u) : Filed seat height .commit u.commits := by
  rcases hmove.tallied.commits with hstores | ⟨m, rfl, -, -, hcommits⟩
  · exact h.commits.1.stores (h.height_eq ▸ hstores)
  · rw [hcommits]
    exact h.commits.1.add (isMessageOf_of_admitted he)

theorem commitsApart_move (h : Sound seat height s) (he : Admitted seat height e)
    (hmove : Move seat s e effects decision u) : CommitsApart seat u := by
  obtain ⟨learned, hone, hlearned⟩ := h.commits.2
  rcases hmove.tallied.commits with hstores | ⟨m, rfl, hopen, hdecided, hcommits⟩
  · refine ⟨learned, hone.stores hstores, fun m hm => ?_⟩
    obtain ⟨hdecided, hcertificate⟩ := hlearned m hm
    obtain ⟨value, hvalue⟩ := h.decided_iff.1 hdecided
    exact ⟨Option.isSome_iff_exists.2 ⟨value, (h.advances hmove).decided_eq hvalue⟩, hcertificate⟩
  -- the first certificate decides, so there is none yet
  · have hnone : learned = none := by
      refine Option.eq_none_iff_forall_not_mem.2 fun x hx => ?_
      have hdecided := (hlearned x hx).1
      rw [isDecided, hopen] at hdecided
      cases hdecided
    subst hnone
    refine ⟨some m, hcommits ▸ hone.add m, fun x hx => ?_⟩
    obtain rfl := Option.mem_some.1 hx
    exact ⟨hdecided, Node.isCertificate_iff.2 ⟨he.1, he.2.2⟩⟩

/-- Every move keeps the invariant. -/
theorem move (h : Sound seat height s) (he : Admitted seat height e)
    (hmove : Move seat s e effects decision u) : Sound seat height u := by
  obtain ⟨hproposes, hprepares, -, hroundChanges⟩ := hmove.tallied
  rw [h.height_eq] at hproposes hprepares hroundChanges
  have hfiled := h.prepares.1.stores hprepares
  have hone := h.prepares.2.stores hprepares
  exact {
    height_eq := hmove.turn.1.trans h.height_eq
    first_le := h.first_le.trans hmove.turn.2.round_le
    accepted := fun hm => by
      rcases hmove.accepted hm with ⟨hold, hround⟩ | hnew
      · rw [hround]
        exact h.accepted hold
      · rw [← h.height_eq]
        exact hnew
    prepared := h.prepared_move hmove hfiled hone
    decided_iff := Option.isSome_iff_exists
    proposes := ⟨h.proposes.1.stores hproposes, h.proposes.2.stores hproposes⟩
    prepares := ⟨hfiled, hone⟩
    commits := ⟨h.filed_commits_move he hmove, h.commitsApart_move he hmove⟩
    roundChanges := ⟨h.roundChanges.1.stores hroundChanges, h.roundChanges.2.stores hroundChanges⟩ }

/-- Every event keeps the invariant, and the instance advances. -/
theorem step (h : Sound seat height s) (net : Network S) (he : Admitted seat height e) :
    Sound seat height (Instance.step seat net s e).state ∧
      Advances s (Instance.step seat net s e).state := by
  refine Trace.extend_induct (t := ⟨s, [], []⟩)
    (P := fun t => Sound seat height t.state ∧ Advances s t.state) ⟨h, .refl s⟩ ?_
  rintro t effects decision u ⟨ht, hadvances⟩ hmove
  exact ⟨ht.move he hmove, hadvances.trans (ht.advances hmove)⟩

end Sound

theorem Reachable.sound (h : Reachable seat height s) : Sound seat height s := by
  induction h with
  | new => exact sound_new seat height
  | next net e _ he ih => exact (ih.step net he).1

/-- An instance is sound at every moment, and it only advances. -/
theorem invariant_of_reachable (h : Reachable seat height s) :
    Sound seat height s ∧ ∀ net e, Admitted seat height e →
      Advances s (Instance.step seat net s e).state :=
  ⟨h.sound, fun net _ he => (h.sound.step net he).2⟩

end Sound

/-! ### Certificates -/

/-- What is combined of the commits for a value with different signers is a certificate for it. -/
theorem certificate_of_aggregate {seat : Seat S} {height : Height} {t : Tally S} {round : Round}
    {root : Digest} {commit : SignedMessage S} (hfiled : Filed seat height .commit t)
    (hquorum : seat.committee.quorum ≤ (t.uniqueSigners round root).size)
    (hcommit : SignedMessage.aggregate (t.uniqueSigners round root).messages = .ok commit) :
    Node.IsCertificate seat commit ∧ commit.height = height ∧
      commit.message.valueRoot? = some root := by
  have hchosen := t.chosenFrom_uniqueSigners round root
  have hcounted : ∀ m ∈ (t.uniqueSigners round root).messages,
      IsMessageOf seat height .commit m ∧ m.message.valueRoot? = some root := by
    intro m hm
    obtain ⟨hm, hroot⟩ := Tally.mem_uniqueSigners hm
    exact ⟨(hfiled.of_round hm).2, hroot⟩
  have hverify : commit.verify seat.committee seat.context.domain = .ok () :=
    SignedMessage.verify_of_aggregate hcommit fun m hm => (hcounted m hm).1.verified
  have hsigners : commit.signers.length = (t.uniqueSigners round root).size := by
    rw [UniqueSigners.size, hchosen.signers_eq]
    refine (SignedMessage.signers_perm_of_aggregate hcommit fun m hm => ?_).length_eq
    exact (SignedMessage.verify_eq_ok_iff.1 (hcounted m hm).1.verified).2.1
  -- the message of the certificate is that of any of the commits
  obtain ⟨m, hm⟩ := SignedMessage.exists_mem_of_aggregate hcommit
  have hmessage := SignedMessage.message_eq_of_aggregate hcommit hm
  obtain ⟨⟨htype, hidentifier, hheight, -⟩, hroot⟩ := hcounted m hm
  rw [SignedMessage.type, hmessage] at htype
  rw [SignedMessage.identifier, hmessage] at hidentifier
  rw [SignedMessage.height, hmessage] at hheight
  rw [hmessage] at hroot
  refine ⟨Node.isCertificate_iff.2 ⟨htype, ?_⟩, hheight, hroot⟩
  exact Node.validateDecided_eq_ok_iff.2 ⟨hidentifier, hsigners ▸ hquorum, hverify⟩

/-! ### An instance that learns a decision -/

namespace Learning

open Scheme

/-- Member 1 proposes, prepares with a quorum, and learns that others have decided. -/
def schedule : List (Event plain) :=
  .start plain.value :: plain.preparation.map .receive ++
    [.receive (plain.message 2 (.commit plain.value.root)), .learn plain.certificate]

/-- What becomes of it. -/
def trace : Trace plain := (Trace.new Height.first).play plain.seat schedule

end Learning

/-- The instance that has learned a decision is sound, with a proposal, a preparation and two
commits that share a signer, and it goes on from there. -/
theorem invariant_of_learning :
    (∃ m, Learning.trace.state.accepted = some m) ∧
      Learning.trace.state.prepared = some ⟨Round.first, Scheme.plain.value⟩ ∧
      Learning.trace.state.decided = some Scheme.plain.value ∧
      Learning.trace.state.commits.messages.map SignedMessage.signers =
        [[⟨2⟩], [⟨1⟩, ⟨2⟩, ⟨3⟩]] ∧
      Sound Scheme.plain.seat Height.first Learning.trace.state ∧
      Advances Learning.trace.state (Instance.step Scheme.plain.seat (Network.reliable _)
        Learning.trace.state (.timeout Round.first)).state := by
  have hreach : Reachable Scheme.plain.seat Height.first Learning.trace.state :=
    Reachable.play .new (by decide +kernel)
  obtain ⟨hsound, hadvances⟩ := invariant_of_reachable hreach
  exact ⟨Option.isSome_iff_exists.1 (by decide +kernel), by decide +kernel, by decide +kernel,
    by decide +kernel, hsound, hadvances _ _ trivial⟩

end Instance
end Conclave
