import Conclave.Message.Verification
import Conclave.Proofs.Checked
import Conclave.Proofs.Committee.Quorum

/-!
# What a verified message is

`SignedMessage.verify` accepts exactly the messages whose signers are in strictly ascending order,
are all members, and have each a signature of their own that verifies.
-/

namespace Conclave

theorem checkSigners_eq_ok_iff {signers : List OperatorId} :
    checkSigners signers = .ok () ↔ signers ≠ [] ∧ signers.Pairwise (fun a b => a < b) := by
  simp only [checkSigners, ite_error_eq_ok_iff, Decidable.not_not, and_true]
  constructor
  · rintro ⟨hne, -, hlt⟩
    exact ⟨hne, hlt⟩
  · rintro ⟨hne, hlt⟩
    refine ⟨hne, hlt.imp fun {a b} h he => ?_, hlt⟩
    rw [he] at h
    exact UInt64.lt_irrefl _ h

theorem nodup_of_checkSigners {signers : List OperatorId} (h : checkSigners signers = .ok ()) :
    signers.Nodup := by
  refine (checkSigners_eq_ok_iff.1 h).2.imp fun {a b} hlt he => ?_
  rw [he] at hlt
  exact UInt64.lt_irrefl _ hlt

namespace SignedMessage

variable {S : Scheme} {committee : Committee S}

theorem verifyPairs_eq_ok_iff {signed : Digest} {ps : List (OperatorId × S.Signature)} :
    verifyPairs committee signed ps = .ok () ↔
      ∀ p ∈ ps, ∃ member, committee.get? p.1 = some member ∧
        S.verify member.publicKey signed p.2 = true := by
  induction ps with
  | nil => simp [verifyPairs]
  | cons p rest ih =>
    obtain ⟨id, signature⟩ := p
    unfold verifyPairs
    cases hget : committee.get? id with
    | none => simp [hget]
    | some member =>
      simp only [ite_else_error_eq_ok_iff, ih, List.mem_cons, forall_eq_or_imp, hget,
        Option.some.injEq, exists_eq_left']

theorem verify_eq_ok_iff {domain : Domain} {m : SignedMessage S} :
    m.verify committee domain = .ok () ↔
      checkSigners m.signers = .ok () ∧ m.signers.length = m.signatures.length ∧
        ∀ p ∈ m.pairs, ∃ member, committee.get? p.1 = some member ∧
          S.verify member.publicKey (m.message.signingRoot domain) p.2 = true := by
  simp only [verify, throw_eq_error, error_bind, bind_eq_ok_iff, exists_unit_iff,
    ite_error_eq_ok_iff, verifyPairs_eq_ok_iff, Decidable.not_not]

/-- The signers of a verified message are members. -/
theorem mem_names_of_verify {domain : Domain} {m : SignedMessage S}
    (h : m.verify committee domain = .ok ()) {id : OperatorId} (hid : id ∈ m.signers) :
    id ∈ committee.names := by
  obtain ⟨-, hlen, hpairs⟩ := verify_eq_ok_iff.1 h
  -- the signer at a position has its signature at the same one
  obtain ⟨i, hi, rfl⟩ := List.mem_iff_getElem.1 hid
  have hmem : (m.signers[i], m.signatures.get ⟨i, hlen ▸ hi⟩) ∈ m.pairs := by
    rw [pairs, List.mem_iff_getElem]
    exact ⟨i, by simpa [← hlen] using hi, by simp⟩
  obtain ⟨member, hget, -⟩ := hpairs _ hmem
  rw [Committee.mem_names, Committee.contains, hget]
  rfl

theorem nodup_of_verify {domain : Domain} {m : SignedMessage S}
    (h : m.verify committee domain = .ok ()) : m.signers.Nodup :=
  nodup_of_checkSigners (verify_eq_ok_iff.1 h).1

/-- What a member signs under its key verifies. -/
theorem verify_signMessage {id : OperatorId} {key : S.PrivateKey} {member : Member S}
    (hget : committee.get? id = some member)
    (hkey : ∀ digest, S.verify member.publicKey digest (S.sign key digest) = true)
    (domain : Domain) (m : Message S (SignedMessage S)) :
    (Signer.signMessage ⟨id, key⟩ domain m).verify committee domain = .ok () := by
  refine verify_eq_ok_iff.2 ⟨checkSigners_eq_ok_iff.2 ?_, rfl, ?_⟩
  · simp [Signer.signMessage]
  · intro p hp
    obtain rfl : p = (id, S.sign key (m.signingRoot domain)) := List.mem_singleton.1 hp
    exact ⟨member, hget, hkey _⟩

end SignedMessage
end Conclave
