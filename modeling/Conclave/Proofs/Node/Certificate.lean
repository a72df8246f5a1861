import Conclave.Node.Basic
import Conclave.Proofs.Message.Verification

/-!
# Certificates

A certificate of a stream is a commit with the signatures of a quorum. It convinces every node of
the stream, wherever it comes from: a node takes it for a decided message and accepts it, whatever
its own state is. `isCertificate_iff` says that it is enough that one node does.
-/

namespace Conclave
namespace Node

variable {S : Scheme} {seat : Seat S} {m : SignedMessage S}

theorem validateDecided_eq_ok_iff :
    validateDecided seat m = .ok () ↔ m.identifier = seat.identifier ∧
      seat.committee.quorum ≤ m.signers.length ∧
      m.verify seat.committee seat.context.domain = .ok () := by
  simp only [validateDecided, throw_eq_error, error_bind, bind_eq_ok_iff, exists_unit_iff,
    ite_error_eq_ok_iff, mapError_eq_ok_iff, Decidable.not_not, not_lt]
  constructor
  · rintro ⟨hid, -, hlen, hverify⟩
    exact ⟨hid, hlen, hverify⟩
  · rintro ⟨hid, hlen, hverify⟩
    exact ⟨hid, (SignedMessage.verify_eq_ok_iff.1 hverify).1, hlen, hverify⟩

/-- A node takes for decided the commits that have as many signers as a quorum. -/
theorem messageKind_eq_decided_iff {committee : Committee S} :
    messageKind committee m = .decided ↔
      m.type = .commit ∧ committee.quorum ≤ m.signers.length := by
  unfold messageKind
  cases m.type with
  | commit => simp
  | propose => simp
  | prepare => simp
  | roundChange => simp

/-- A commit of the stream with the signatures of a quorum. -/
structure IsCertificate (seat : Seat S) (m : SignedMessage S) : Prop where
  type_eq : m.type = .commit
  identifier_eq : m.identifier = seat.identifier
  /-- Every node of the stream with this committee and domain accepts it. -/
  accepted : ∀ peer : Seat S, peer.identifier = seat.identifier →
    peer.committee = seat.committee → peer.context.domain = seat.context.domain →
    validateDecided peer m = .ok ()
  ascending : m.signers.Pairwise fun a b => a < b
  quorum_le : seat.committee.quorum ≤ m.signers.length
  length_eq : m.signers.length = m.signatures.length
  /-- Each signer is a member, and its signature is over this very message. -/
  signed : ∀ p ∈ m.pairs, ∃ member, seat.committee.get? p.1 = some member ∧
    S.verify member.publicKey (m.message.signingRoot seat.context.domain) p.2 = true
  /-- Every node takes it for a decided message. -/
  kind_eq : messageKind seat.committee m = .decided

/-- A commit that one node of the stream accepts as decided is a certificate. -/
theorem isCertificate_iff :
    IsCertificate seat m ↔ m.type = .commit ∧ validateDecided seat m = .ok () := by
  constructor
  · exact fun h => ⟨h.type_eq, h.accepted seat rfl rfl rfl⟩
  · rintro ⟨htype, hvalid⟩
    obtain ⟨hid, hquorum, hverify⟩ := validateDecided_eq_ok_iff.1 hvalid
    obtain ⟨hsigners, hlength, hpairs⟩ := SignedMessage.verify_eq_ok_iff.1 hverify
    refine ⟨htype, hid, fun peer hpid hcommittee hdomain => ?_,
      (checkSigners_eq_ok_iff.1 hsigners).2, hquorum, hlength, hpairs,
      messageKind_eq_decided_iff.2 ⟨htype, hquorum⟩⟩
    refine validateDecided_eq_ok_iff.2 ⟨hid.trans hpid.symm, ?_, ?_⟩
    · rwa [hcommittee]
    · rwa [hcommittee, hdomain]

end Node
end Conclave
