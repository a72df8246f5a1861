import Conclave.Proofs.Assembly.Basic
import Conclave.Proofs.Instance.Votes
import Conclave.Proofs.Message.Aggregate

/-!
# Evidence

What an honest member has seen is evidence of what honest members have signed, since no signature of
theirs is forged. A quorum of votes that it has counted is a `Quorum` of votes that were cast; a
proposal that it has accepted above the first round is `Justified` by a quorum that asked for the
round.

`Backed` collects the evidence for all that a member stores, votes for and decides. Every move keeps
it (`Backed.move`), and it is not lost when others go on (`Backed.mono`), so it holds of all honest
members of a reachable world (`Reachable.backed`).
-/

namespace Conclave
namespace Assembly

open Instance

variable {S : Scheme} (a : Assembly S)

/-- A quorum has cast the same vote, as far as its members are honest. -/
def Quorum (w : World S) (type : MessageType) (round : Round) (root : Digest) : Prop :=
  ∃ ids ⊆ a.committee.names, a.committee.quorum ≤ ids.card ∧
    ∀ id ∈ ids, id ∉ a.faulty → (w id).Voted type round root

/-- A quorum has asked for a round, as far as its members are honest, and none of them has reported
a preparation above the given one. -/
def AskedBelow (w : World S) (round : Round) (highest : Option Round) : Prop :=
  ∃ ids ⊆ a.committee.names, a.committee.quorum ≤ ids.card ∧
    ∀ id ∈ ids, id ∉ a.faulty → ∃ last, (w id).Asked round last ∧
      ∀ r, last = some r → ∃ h, highest = some h ∧ r.toNat ≤ h.toNat

/-- A value may be accepted in a round above the first: a quorum has asked for the round, and if a
preparation was reported, a quorum has prepared the value in the highest round reported. -/
def Justified (w : World S) (round : Round) (root : Digest) : Prop :=
  ∃ highest, a.AskedBelow w round highest ∧
    ∀ h, highest = some h → h.toNat < round.toNat ∧ a.Quorum w .prepare h root

/-- The signers of a message are members, and the honest ones among them have cast its vote. -/
structure Supported (w : World S) (type : MessageType) (m : SignedMessage S) : Prop where
  members : ∀ id ∈ m.signers, id ∈ a.committee.names
  voted : ∀ id ∈ m.signers, id ∉ a.faulty → ∀ root, m.message.valueRoot? = some root →
    (w id).Voted type m.round root

/-- There is evidence for all that a member stores, votes for and decides. -/
structure Backed (w : World S) (t : Trace S) : Prop where
  height_eq : t.state.height = a.height
  prepares : ∀ m ∈ t.state.prepares.messages, a.Supported w .prepare m
  commits : ∀ m ∈ t.state.commits.messages, a.Supported w .commit m
  prepare : ∀ {round root}, t.Voted .prepare round root →
    round = Round.first ∨ a.Justified w round root
  commit : ∀ {round root}, t.Voted .commit round root → a.Quorum w .prepare round root
  decision : ∀ d ∈ t.decisions, d.commit.message.valueRoot? = some d.value.root ∧
    ∃ round, a.Quorum w .commit round d.value.root

variable {a} {w : World S}

/-! ### Evidence lasts -/

section Mono

variable {w' : World S} (hw : ∀ id, (w id).sent ⊆ (w' id).sent)

include hw

theorem voted_mono {id : OperatorId} {type : MessageType} {round : Round} {root : Digest}
    (h : (w id).Voted type round root) : (w' id).Voted type round root := by
  obtain ⟨m, hm, hvote⟩ := h
  exact ⟨m, hw id hm, hvote⟩

theorem Quorum.mono {type : MessageType} {round : Round} {root : Digest}
    (h : a.Quorum w type round root) : a.Quorum w' type round root := by
  obtain ⟨ids, hsub, hcard, hvoted⟩ := h
  exact ⟨ids, hsub, hcard, fun id hid hhonest => voted_mono hw (hvoted id hid hhonest)⟩

theorem AskedBelow.mono {round : Round} {highest : Option Round}
    (h : a.AskedBelow w round highest) : a.AskedBelow w' round highest := by
  obtain ⟨ids, hsub, hcard, hasked⟩ := h
  refine ⟨ids, hsub, hcard, fun id hid hhonest => ?_⟩
  obtain ⟨last, ⟨m, hm, hask⟩, hle⟩ := hasked id hid hhonest
  exact ⟨last, ⟨m, hw id hm, hask⟩, hle⟩

theorem Justified.mono {round : Round} {root : Digest} (h : a.Justified w round root) :
    a.Justified w' round root := by
  obtain ⟨highest, hasked, hprepared⟩ := h
  refine ⟨highest, hasked.mono hw, fun r hr => ?_⟩
  exact ⟨(hprepared r hr).1, (hprepared r hr).2.mono hw⟩

theorem Supported.mono {type : MessageType} {m : SignedMessage S} (h : a.Supported w type m) :
    a.Supported w' type m :=
  ⟨h.members, fun id hid hhonest root hroot => voted_mono hw (h.voted id hid hhonest root hroot)⟩

theorem Backed.mono {t : Trace S} (h : a.Backed w t) : a.Backed w' t where
  height_eq := h.height_eq
  prepares m hm := (h.prepares m hm).mono hw
  commits m hm := (h.commits m hm).mono hw
  prepare hvote := (h.prepare hvote).imp id (Justified.mono hw)
  commit hvote := (h.commit hvote).mono hw
  decision d hd := by
    obtain ⟨hroot, round, hquorum⟩ := h.decision d hd
    exact ⟨hroot, round, hquorum.mono hw⟩

end Mono

/-! ### Evidence from messages -/

/-- All members verify signatures in the same way. -/
theorem verify_seat {id : OperatorId} {m : SignedMessage S} :
    m.verify (a.seat id).committee (a.seat id).context.domain = .ok () ↔
      m.verify a.committee a.domain = .ok () := by
  rw [seat, a.domain_eq]

/-- The honest signers of a message that verifies have signed it. -/
theorem Genuine.signed {m : SignedMessage S} (h : a.Genuine w m) (hheight : m.height = a.height)
    (hverify : m.verify a.committee a.domain = .ok ()) {id : OperatorId} (hid : id ∈ m.signers)
    (hhonest : id ∉ a.faulty) : ∃ y ∈ (w id).sent, y.message = m.message := by
  have hmember := SignedMessage.mem_names_of_verify hverify hid
  exact h m (.self m) hheight hverify id hid (honest_iff.2 ⟨hmember, hhonest⟩)

/-- A message that verifies has the support of its signers. -/
theorem Genuine.supported {m : SignedMessage S} (h : a.Genuine w m) (hheight : m.height = a.height)
    (hverify : m.verify a.committee a.domain = .ok ()) : a.Supported w m.type m := by
  refine ⟨fun id hid => SignedMessage.mem_names_of_verify hverify hid, ?_⟩
  intro id hid hhonest root hroot
  obtain ⟨y, hy, heq⟩ := h.signed hheight hverify hid hhonest
  refine ⟨y, hy, ?_, ?_, ?_⟩
  · rw [SignedMessage.type, heq, SignedMessage.type]
  · rw [SignedMessage.round, heq, SignedMessage.round]
  · rw [heq, hroot]

/-- Messages for one vote whose signers make a quorum. -/
theorem quorum_of_supported {type : MessageType} {round : Round} {root : Digest}
    (ms : List (SignedMessage S)) (hms : ∀ m ∈ ms, a.Supported w type m ∧ m.round = round ∧
      m.message.valueRoot? = some root)
    (hcard : a.committee.quorum ≤ (ms.flatMap SignedMessage.signers).toFinset.card) :
    a.Quorum w type round root := by
  refine ⟨_, fun id hid => ?_, hcard, fun id hid hhonest => ?_⟩
  · obtain ⟨m, hm, hid⟩ := List.mem_flatMap.1 (List.mem_toFinset.1 hid)
    exact (hms m hm).1.members id hid
  · obtain ⟨m, hm, hid⟩ := List.mem_flatMap.1 (List.mem_toFinset.1 hid)
    obtain ⟨hsupported, rfl, hroot⟩ := hms m hm
    exact hsupported.voted id hid hhonest root hroot

/-- A quorum that is found in a tally. -/
theorem quorum_of_uniqueSigners {t : Tally S} {type : MessageType} {round : Round} {root : Digest}
    (ht : ∀ m ∈ t.messages, a.Supported w type m)
    (hcard : a.committee.quorum ≤ (t.uniqueSigners round root).size) :
    a.Quorum w type round root := by
  have hchosen := t.chosenFrom_uniqueSigners round root
  refine quorum_of_supported (t.uniqueSigners round root).messages (fun m hm => ?_) ?_
  · obtain ⟨hm, hroot⟩ := Tally.mem_uniqueSigners hm
    obtain ⟨hm, hround⟩ := Tally.mem_ofRound.1 hm
    exact ⟨ht m hm, hround, hroot⟩
  · rw [← hchosen.signers_eq, List.toFinset_card_of_nodup hchosen.nodup]
    exact hcard

/-- The prepares of a justification that make a quorum. -/
theorem quorum_of_prepares {id : OperatorId} {round : Round} {root : Digest}
    {prepares : List (SignedMessage S)} (hgenuine : ∀ p ∈ prepares, a.Genuine w p)
    (hprepares : ∀ p ∈ prepares, IsPrepareFor (a.seat id) a.height round root p)
    (hnodup : (prepares.flatMap SignedMessage.signers).Nodup)
    (hcard : a.committee.quorum ≤ prepares.length) : a.Quorum w .prepare round root := by
  refine quorum_of_supported prepares (fun p hp => ?_) ?_
  · have hfor := hprepares p hp
    have hsupported := (hgenuine p hp).supported hfor.height_eq (verify_seat.1 hfor.verified)
    rw [hfor.type] at hsupported
    exact ⟨hsupported, hfor.round_eq, hfor.root_eq⟩
  · have hlen : (prepares.flatMap SignedMessage.signers).length = prepares.length := by
      clear hgenuine hnodup hcard
      induction prepares with
      | nil => rfl
      | cons p rest ih =>
        obtain ⟨hp, hrest⟩ := List.forall_mem_cons.1 hprepares
        obtain ⟨signer, hsigner⟩ := hp.single
        rw [List.flatMap_cons, List.length_append, hsigner, ih hrest, List.length_singleton,
          List.length_cons, Nat.add_comm]
    rw [List.toFinset_card_of_nodup hnodup, hlen]
    exact hcard

/-- A genuine proposal that passes validation above the first round is justified. -/
theorem justified_of_proposal {id : OperatorId} {m : SignedMessage S} {value : Value S}
    (hgenuine : a.Genuine w m)
    (h : ProposalJustified (a.seat id) a.height m.round value m.message.roundChanges
      m.message.prepares) : a.Justified w m.round value.root := by
  have hhighest := isHighestPrepared_highestPrepared? m.message.roundChanges
  -- those who ask are the signers of the round changes, which are genuine as part of the proposal
  refine ⟨(highestPrepared? m.message.roundChanges).bind fun x => x.message.preparedRound?,
    ⟨(m.message.roundChanges.flatMap SignedMessage.signers).toFinset, fun i hi => ?_, h.quorum,
      fun i hi hhonest => ?_⟩, fun r hr => ?_⟩
  · obtain ⟨x, hx, hi⟩ := List.mem_flatMap.1 (List.mem_toFinset.1 hi)
    exact SignedMessage.mem_names_of_verify (h.asked x hx).2.verified hi
  · obtain ⟨x, hx, hi⟩ := List.mem_flatMap.1 (List.mem_toFinset.1 hi)
    obtain ⟨htype, hchange⟩ := h.asked x hx
    obtain ⟨y, hy, heq⟩ := (hgenuine.roundChange hx).signed hchange.height_eq
      (verify_seat.1 hchange.verified) hi hhonest
    refine ⟨x.message.preparedRound?, ⟨y, hy, ?_, ?_, ?_⟩, fun r hr => ?_⟩
    · rw [SignedMessage.type, heq, ← SignedMessage.type, htype]
    · rw [SignedMessage.round, heq, ← SignedMessage.round, hchange.round_eq]
    · rw [heq]
    -- what it reports is not above the highest preparation that was found
    · cases hfound : highestPrepared? m.message.roundChanges with
      | none =>
        rw [hfound] at hhighest
        rw [hhighest x hx] at hr
        cases hr
      | some highest =>
        rw [hfound] at hhighest
        obtain ⟨-, top, htop, hall⟩ := hhighest
        exact ⟨top, htop, hall x hx r hr⟩
  · obtain ⟨highest, hfound, hr⟩ := Option.bind_eq_some_iff.1 hr
    rw [hfound] at hhighest
    obtain ⟨r', hr', -, hprepares, hnodup, hcard⟩ := h.highest highest hfound
    obtain rfl : r' = r := Option.some.inj (hr'.symm.trans hr)
    have hlt := ((h.asked highest hhighest.1).2.prepared r' hr).1
    exact ⟨Round.lt_iff.1 hlt,
      quorum_of_prepares (fun p hp => hgenuine.prepare hp) hprepares hnodup hcard⟩

theorem verify_of_validateDecided {id : OperatorId} {m : SignedMessage S}
    (h : Node.validateDecided (a.seat id) m = .ok ()) :
    m.verify a.committee a.domain = .ok () := by
  obtain ⟨-, -, hverify⟩ := Node.validateDecided_eq_ok_iff.1 h
  exact verify_seat.1 hverify

/-- A commit message that passes for decided comes from a quorum of votes to commit. -/
theorem quorum_of_decided {id : OperatorId} {m : SignedMessage S} {root : Digest}
    (htype : m.type = .commit) (hheight : m.height = a.height)
    (hvalid : Node.validateDecided (a.seat id) m = .ok ()) (hgenuine : a.Genuine w m)
    (hroot : m.message.valueRoot? = some root) : a.Quorum w .commit m.round root := by
  have hverify := verify_of_validateDecided hvalid
  have hsupported := hgenuine.supported hheight hverify
  rw [htype] at hsupported
  refine quorum_of_supported [m] (fun x hx => ?_) ?_
  · rw [List.mem_singleton.1 hx]
    exact ⟨hsupported, rfl, hroot⟩
  · rw [List.flatMap_singleton, List.toFinset_card_of_nodup (SignedMessage.nodup_of_verify hverify)]
    exact (Node.validateDecided_eq_ok_iff.1 hvalid).2.1

/-! ### Evidence in a run -/

namespace Backed

variable {t : Trace S} {u : Instance S} {effects : List (Effect S)} {decisions : List (Decision S)}

theorem new (w : World S) : a.Backed w (.new a.height) where
  height_eq := rfl
  prepares := nofun
  commits := nofun
  prepare := by rintro _ _ ⟨m, hm, -⟩; cases hm
  commit := by rintro _ _ ⟨m, hm, -⟩; cases hm
  decision := nofun

/-- What has to be shown of a move: there is evidence for what it adds. -/
theorem after (h : a.Backed w t) (hheight : u.height = t.state.height)
    (hprepares : ∀ m ∈ u.prepares.messages,
      m ∈ t.state.prepares.messages ∨ a.Supported w .prepare m)
    (hcommits : ∀ m ∈ u.commits.messages,
      m ∈ t.state.commits.messages ∨ a.Supported w .commit m)
    (hprepare : ∀ m ∈ sentBy effects, m.type = .prepare → ∀ root,
      m.message.valueRoot? = some root → m.round = Round.first ∨ a.Justified w m.round root)
    (hcommit : ∀ m ∈ sentBy effects, m.type = .commit → ∀ root,
      m.message.valueRoot? = some root → a.Quorum w .prepare m.round root)
    (hdecision : ∀ d ∈ decisions, d.commit.message.valueRoot? = some d.value.root ∧
      ∃ round, a.Quorum w .commit round d.value.root) :
    a.Backed w (t.after effects decisions u) where
  height_eq := hheight.trans h.height_eq
  prepares m hm := (hprepares m hm).elim (h.prepares m) id
  commits m hm := (hcommits m hm).elim (h.commits m) id
  prepare hvote := by
    rcases Trace.voted_after hvote with hold | ⟨m, hm, htype, rfl, hroot⟩
    · exact h.prepare hold
    · exact hprepare m hm htype _ hroot
  commit hvote := by
    rcases Trace.voted_after hvote with hold | ⟨m, hm, htype, rfl, hroot⟩
    · exact h.commit hold
    · exact hcommit m hm htype _ hroot
  decision d hd := (List.mem_append.1 hd).elim (h.decision d) (hdecision d)

/-- Moves that add no vote, no prepare or commit and no decision. -/
theorem idle (h : a.Backed w t) (hheight : u.height = t.state.height)
    (hprepares : u.prepares = t.state.prepares) (hcommits : u.commits = t.state.commits)
    (hsent : ∀ m ∈ sentBy effects, m.type = .propose ∨ m.type = .roundChange) :
    a.Backed w (t.after effects [] u) := by
  refine h.after hheight (fun m hm => .inl (hprepares ▸ hm)) (fun m hm => .inl (hcommits ▸ hm))
    (fun m hm htype => ?_) (fun m hm htype => ?_) nofun
  · have := hsent m hm
    rw [htype] at this
    exact absurd this (by decide)
  · have := hsent m hm
    rw [htype] at this
    exact absurd this (by decide)

variable {id : OperatorId}

/-- A vote that a member stores has the support of its signers. -/
theorem supported_of_validateVote (h : a.Backed w t) {m : SignedMessage S}
    (hreach : Reaches (a.seat id) t.state m) (hgenuine : a.Genuine w m)
    (hvalid : validateVote (a.seat id) t.state m = .ok ()) : a.Supported w m.type m := by
  obtain ⟨-, -, -, -, -, hverify⟩ := validateVote_eq_ok_iff.1 hvalid
  exact hgenuine.supported (hreach.height_eq.trans h.height_eq) (verify_seat.1 hverify)

/-- A tally with one more message that is supported. -/
theorem supported_add {tally : Tally S} {type : MessageType} {m : SignedMessage S}
    (ht : ∀ x ∈ tally.messages, a.Supported w type x) (hm : a.Supported w type m) :
    ∀ x ∈ (tally.add m).messages, a.Supported w type x := by
  intro x hx
  rw [Tally.messages_add, List.mem_append, List.mem_singleton] at hx
  rcases hx with hx | rfl
  · exact ht x hx
  · exact hm

/-- The combined commit is for the value that the commits of the quorum are for. -/
theorem root_of_aggregate {tally : Tally S} {round : Round} {root : Digest}
    {commit : SignedMessage S}
    (h : SignedMessage.aggregate (tally.uniqueSigners round root).messages = .ok commit) :
    commit.message.valueRoot? = some root := by
  obtain ⟨m, hm⟩ := SignedMessage.exists_mem_of_aggregate h
  rw [← SignedMessage.message_eq_of_aggregate h hm]
  exact (Tally.mem_uniqueSigners hm).2

/-- There is evidence for what a move adds, provided that what arrives is genuine. -/
theorem move {e : Event S} {decision : Option (Decision S)} (h : a.Backed w t)
    (he : a.Admits w id e) (hmove : Move (a.seat id) t.state e effects decision u) :
    a.Backed w (t.after effects decision.toList u) := by
  cases hmove with
  | start hnew => exact h.idle rfl rfl rfl (by simp)
  | lead hnew hround hleader =>
    refine h.idle rfl rfl rfl (fun m hm => .inl ?_)
    rw [sentBy_timerCall_broadcast, List.mem_singleton] at hm
    rw [hm]
    rfl
  | @accept m value hreach htype hvalid hvalue =>
    refine h.after rfl (fun m hm => .inl hm) (fun m hm => .inl hm) ?_ ?_ nofun
    · intro vote hvote _ root hroot
      rw [sentBy_entryCalls_broadcast, List.mem_singleton] at hvote
      subst hvote
      obtain ⟨-, -, ⟨value', hvalue', hjustified⟩, -⟩ := validateProposal_eq_ok_iff.1 hvalid
      obtain rfl : value' = value := Option.some.inj (hvalue'.symm.trans hvalue)
      obtain rfl : value'.root = root := Option.some.inj hroot
      rw [validateProposalJustification_eq_ok_iff, h.height_eq] at hjustified
      exact hjustified.2.imp (fun h => h) (justified_of_proposal (m := m) he)
    · intro vote hvote htype
      rw [sentBy_entryCalls_broadcast, List.mem_singleton] at hvote
      subst hvote
      cases htype
  | storePrepare hreach htype hvalid hnew =>
    have hsupported := htype ▸ h.supported_of_validateVote hreach he hvalid
    exact h.after rfl (fun m hm => .inr (supported_add h.prepares hsupported m hm))
      (fun m hm => .inl hm) nofun nofun nofun
  | @prepare m value hreach htype hvalid hnew hvalue hfirst hquorum =>
    have hsupported := htype ▸ h.supported_of_validateVote hreach he hvalid
    have hall := supported_add h.prepares hsupported
    refine h.after rfl (fun m hm => .inr (hall m hm)) (fun m hm => .inl hm) ?_ ?_ nofun
    · intro vote hvote htype
      rw [sentBy_broadcast, sentBy_nil, List.mem_singleton] at hvote
      subst hvote
      cases htype
    · intro vote hvote _ root hroot
      rw [sentBy_broadcast, sentBy_nil, List.mem_singleton] at hvote
      subst hvote
      obtain rfl : value.root = root := Option.some.inj hroot
      exact quorum_of_uniqueSigners hall hquorum
  | storeCommit hreach htype hvalid hnew =>
    have hsupported := htype ▸ h.supported_of_validateVote hreach he hvalid
    exact h.after rfl (fun m hm => .inl hm)
      (fun m hm => .inr (supported_add h.commits hsupported m hm)) nofun nofun nofun
  | @decide m commit value hreach htype hvalid hnew hopen hvalue hquorum hcommit =>
    have hsupported := htype ▸ h.supported_of_validateVote hreach he hvalid
    have hall := supported_add h.commits hsupported
    refine h.after rfl (fun m hm => .inl hm) (fun m hm => .inr (hall m hm)) nofun nofun ?_
    intro d hd
    rw [Option.toList_some, List.mem_singleton] at hd
    subst hd
    exact ⟨root_of_aggregate hcommit, _, quorum_of_uniqueSigners hall hquorum⟩
  | storeRoundChange hreach htype hvalid hnew => exact h.idle rfl rfl rfl (by simp)
  | propose htype hopen hround hfirst hleader hquorum hproposal =>
    refine h.idle (enter_height _ _) (enter_prepares _ _) (enter_commits _ _) (fun m hm => .inl ?_)
    rw [sentBy_entryCalls_broadcast, List.mem_singleton] at hm
    rw [hm]
    rfl
  | follow htype hopen habove hquorum hlowest hlt =>
    refine h.idle rfl rfl rfl (fun m hm => .inr ?_)
    rw [sentBy_timerCall_broadcast, List.mem_singleton] at hm
    rw [hm]
    rfl
  | expire hrunning hopen hnext =>
    refine h.idle rfl rfl rfl (fun m hm => .inr ?_)
    rw [sentBy_timerCall_broadcast, List.mem_singleton] at hm
    rw [hm]
    rfl
  | @learn commit value hopen hvalue hroot =>
    obtain ⟨hkind, hdecided, hheight, hgenuine⟩ := he
    have htype := (Node.messageKind_eq_decided_iff.1 hkind).1
    have hquorum := quorum_of_decided htype hheight hdecided hgenuine hroot
    have hsupported := hgenuine.supported hheight (verify_of_validateDecided hdecided)
    refine h.after rfl (fun m hm => .inl hm)
      (fun m hm => .inr (supported_add h.commits (htype ▸ hsupported) m hm)) nofun nofun ?_
    intro d hd
    rw [Option.toList_some, List.mem_singleton] at hd
    subst hd
    exact ⟨hroot, _, hquorum⟩

end Backed

/-- Nothing that was sent is lost when a member goes on. -/
theorem sent_subset_act (w : World S) (id : OperatorId) (net : Network S) (e : Event S)
    (j : OperatorId) :
    (w j).sent ⊆ (Function.update w id ((w id).extend (a.seat id) net e) j).sent := by
  by_cases heq : j = id
  · subst heq
    rw [Function.update_self]
    exact Trace.sent_subset_extend e
  · rw [Function.update_of_ne heq]
    exact List.Subset.refl _

/-- In a reachable world there is evidence for all that an honest member has done. -/
theorem Reachable.backed {w : World S} (h : a.Reachable w) (id : OperatorId) :
    a.Backed w (w id) := by
  induction h generalizing id with
  | init => exact Backed.new _
  | @act w actor net e _ hid he ih =>
    by_cases heq : id = actor
    · subst heq
      rw [Function.update_self]
      -- the evidence was in the world before the event, of which the moves are a part
      refine Backed.mono (sent_subset_act w id net e) ?_
      exact Trace.extend_induct (ih id) fun t effects decision u ht hmove => ht.move he hmove
    · rw [Function.update_of_ne heq]
      exact (ih id).mono (sent_subset_act w actor net e)

end Assembly
end Conclave
