import Conclave.Proofs.Assembly.Evidence
import Conclave.Proofs.PlainScheme

/-!
# Agreement

No two values are committed to at one height, whatever the adversary does.

The argument goes by induction on rounds. If a quorum has voted to commit to a value in a round,
then a quorum has prepared that value in it, and no other value can be prepared by a quorum in this
round, since two quorums share an honest member and it prepares once. In a later round a value is
accepted only if a quorum has asked for the round; some honest member of it has voted to commit, and
so reports a preparation at least as high. Hence the value has been prepared by a quorum in a round
in between, and by induction it is the same.

* `Quorum.prepare_eq` is the induction;
* `agreement` is the result.
-/

namespace Conclave
namespace Assembly

open Instance

variable {S : Scheme} {a : Assembly S} {w : World S}

/-- Two quorums share an honest member. -/
theorem exists_honest_inter {A B : Finset OperatorId} (hA : A ⊆ a.committee.names)
    (hB : B ⊆ a.committee.names) (hqA : a.committee.quorum ≤ A.card)
    (hqB : a.committee.quorum ≤ B.card) : ∃ id, id ∈ A ∧ id ∈ B ∧ id ∉ a.faulty :=
  Committee.exists_mem_inter a.nonempty hA hB hqA hqB a.faulty_le

/-- A quorum has an honest member, which has cast its vote. -/
theorem Quorum.exists_voted {type : MessageType} {round : Round} {root : Digest}
    (h : a.Quorum w type round root) : ∃ id, (w id).Voted type round root := by
  obtain ⟨ids, hsub, hcard, hvoted⟩ := h
  obtain ⟨id, hid, -, hhonest⟩ := exists_honest_inter hsub hsub hcard hcard
  exact ⟨id, hvoted id hid hhonest⟩

section Reachable

variable (hw : a.Reachable w)

include hw

/-- A quorum prepares one value in a round. -/
theorem Quorum.prepare_unique {round : Round} {root root' : Digest}
    (h : a.Quorum w .prepare round root) (h' : a.Quorum w .prepare round root') :
    root = root' := by
  obtain ⟨ids, hsub, hcard, hvoted⟩ := h
  obtain ⟨ids', hsub', hcard', hvoted'⟩ := h'
  obtain ⟨id, hid, hid', hhonest⟩ := exists_honest_inter hsub hsub' hcard hcard'
  exact (hw.run id).disciplined.prepare_unique (hvoted id hid hhonest) (hvoted' id hid' hhonest)

/-- What a quorum votes to commit to, a quorum has prepared in the same round. -/
theorem Quorum.prepare_of_commit {round : Round} {root : Digest}
    (h : a.Quorum w .commit round root) : a.Quorum w .prepare round root := by
  obtain ⟨id, hvoted⟩ := h.exists_voted
  exact (hw.backed id).commit hvoted

/-- After a quorum has voted to commit, every quorum that asks for a higher round reports a
preparation at least as high as the vote. -/
theorem AskedBelow.exists_highest {round round' : Round} {root : Digest} {highest : Option Round}
    (hcommit : a.Quorum w .commit round root) (hlt : round.toNat < round'.toNat)
    (h : a.AskedBelow w round' highest) : ∃ r, highest = some r ∧ round.toNat ≤ r.toNat := by
  obtain ⟨ids, hsub, hcard, hvoted⟩ := hcommit
  obtain ⟨ids', hsub', hcard', hasked⟩ := h
  obtain ⟨id, hid, hid', hhonest⟩ := exists_honest_inter hsub hsub' hcard hcard'
  obtain ⟨last, hask, hle⟩ := hasked id hid' hhonest
  obtain ⟨r, hlast, hr⟩ := (hw.run id).disciplined.reported (hvoted id hid hhonest) hask hlt
  obtain ⟨top, htop, hrtop⟩ := hle r hlast
  exact ⟨top, htop, hr.trans hrtop⟩

/-- Once a quorum has voted to commit to a value, no quorum prepares another one in this or a later
round. -/
theorem Quorum.prepare_eq {round round' : Round} {root root' : Digest}
    (hcommit : a.Quorum w .commit round root) (hle : round.toNat ≤ round'.toNat)
    (hprepare : a.Quorum w .prepare round' root') : root' = root := by
  -- strong induction on the later round: a preparation in it rests on one below it
  induction hn : round'.toNat using Nat.strong_induction_on generalizing round' root' with
  | _ n ih =>
    subst hn
    rcases hle.eq_or_lt with heq | hlt
    · obtain rfl := Round.toNat_inj.1 heq
      exact Quorum.prepare_unique hw hprepare (Quorum.prepare_of_commit hw hcommit)
    obtain ⟨id, hvoted⟩ := hprepare.exists_voted
    rcases (hw.backed id).prepare hvoted with rfl | ⟨highest, hasked, hprepared⟩
    · obtain ⟨j, hj⟩ := hcommit.exists_voted
      have hpos := (hw.run j).disciplined.commit_pos hj
      rw [Round.toNat_first] at hlt
      omega
    · obtain ⟨r, hr, hge⟩ := AskedBelow.exists_highest hw hcommit hlt hasked
      obtain ⟨hbelow, hquorum⟩ := hprepared r hr
      exact ih r.toNat hbelow hge hquorum rfl

/-- Behind a certificate there is a quorum that has voted to commit. -/
theorem Certificate.exists_quorum {root : Digest} (h : a.Certificate w root) :
    ∃ round, a.Quorum w .commit round root := by
  cases h with
  | decision hid hd => exact ((hw.backed _).decision _ hd).2
  | decisionCommit hid hd hroot =>
    obtain ⟨hvalue, hquorum⟩ := (hw.backed _).decision _ hd
    rw [hroot, Option.some.injEq] at hvalue
    rwa [hvalue]
  | commit htype hheight hvalid hgenuine hroot =>
    exact ⟨_, quorum_of_decided htype hheight hvalid hgenuine hroot⟩

end Reachable

/-- In every world that can come about, all certificates are for the same value. -/
theorem agreement (hw : a.Reachable w) {root root' : Digest} (h : a.Certificate w root)
    (h' : a.Certificate w root') : root = root' := by
  obtain ⟨round, hquorum⟩ := h.exists_quorum hw
  obtain ⟨round', hquorum'⟩ := h'.exists_quorum hw
  rcases le_total round.toNat round'.toNat with hle | hle
  · exact (Quorum.prepare_eq hw hquorum hle (Quorum.prepare_of_commit hw hquorum')).symm
  · exact Quorum.prepare_eq hw hquorum' hle (Quorum.prepare_of_commit hw hquorum)

/-! ### A run with a faulty member -/

namespace Four

open Scheme

/-- Four members, the last one of them faulty. -/
def assembly : Assembly plain where
  identifier := ByteArray.empty
  height := Height.first
  committee := plain.committee
  nonempty := by decide
  faulty := {⟨4⟩}
  faulty_le := by decide
  context _ := Context.roundRobin plain.domain
  domain := plain.domain
  domain_eq _ := rfl
  key id := id.word
  cutoff _ := ⟨100⟩

/-- What is proposed. -/
def value : Value plain := .ofBytes ⟨#[7]⟩

/-- A message of a member in the first round. -/
def message (id : UInt64) (body : Body plain (SignedMessage plain)) : SignedMessage plain :=
  plain.signed id ByteArray.empty Height.first Round.first body

/-- The commit of three members, one of them faulty. -/
def commit : SignedMessage plain where
  message := (message 1 (.commit value.root)).message
  signers := [⟨1⟩, ⟨2⟩, ⟨4⟩]
  signatures := [1, 2, 4].flatMap fun id => (message id (.commit value.root)).signatures

/-- Members 1 and 2 prepare the value of member 1 with the help of the faulty one; then the commit
that the three could have signed reaches member 1. -/
def schedule : List (OperatorId × Event plain) :=
  [(⟨1⟩, .start value),
    (⟨1⟩, .receive (message 1 (.propose value [] []))),
    (⟨2⟩, .receive (message 1 (.propose value [] []))),
    (⟨1⟩, .receive (message 1 (.prepare value.root))),
    (⟨1⟩, .receive (message 2 (.prepare value.root))),
    (⟨1⟩, .receive (message 4 (.prepare value.root))),
    (⟨2⟩, .receive (message 4 (.prepare value.root))),
    (⟨2⟩, .receive (message 2 (.prepare value.root))),
    (⟨2⟩, .receive (message 1 (.prepare value.root))),
    (⟨1⟩, .learn commit)]

/-- The world after the schedule. -/
def world : World plain := assembly.play (fun _ => .new assembly.height) schedule

theorem reachable_world : assembly.Reachable world :=
  reachable_play .init (by decide +kernel)

theorem decided_world : ∃ d ∈ (world ⟨1⟩).decisions, d.value = value := by decide +kernel

end Four

/-- What member 1 of the four has decided is what the commit of the three is for. -/
theorem agreement_of_four : ∃ d ∈ (Four.world ⟨1⟩).decisions,
    Four.commit.message.valueRoot? = some d.value.root := by
  obtain ⟨d, hd, hvalue⟩ := Four.decided_world
  refine ⟨d, hd, congrArg some ?_⟩
  have hdecision : Four.assembly.Certificate Four.world d.value.root :=
    .decision (by decide +kernel : Four.assembly.Honest ⟨1⟩) hd
  have hcommit : Four.assembly.Certificate Four.world Four.value.root :=
    @Certificate.commit _ _ _ ⟨1⟩ Four.commit _ rfl rfl (by decide +kernel)
      (Signed.genuine (by decide +kernel)) rfl
  exact agreement Four.reachable_world hcommit hdecision

end Assembly
end Conclave
