import Conclave.Proofs.Instance.Faults
import Conclave.Proofs.Node.Decisions

/-!
# Faults of a node

A node goes down with the instance that it passes a message or a timeout to, and for no other reason
while it takes messages and timeouts. When members propose in turn, timeouts never take it down, and
a message does exactly if it is fatal to the instance of its height (`faults_iff_fatal`).

Rounds come from the network as any 64-bit number, and no bound is put on them before the proposer
is computed: above the first height, one member can take nodes down with a message for the last
round (`receive_last_round`).
-/

namespace Conclave
namespace Node

variable {S : Scheme} {seat : Seat S} {env : Surroundings S} {n : Node S} {m : SignedMessage S}

theorem faults_rejected_iff {α β : Type} {e : Instance.Error} :
    Faults Error.fault? (.error (.rejected e) : Except Error α) ↔
      Faults Instance.Error.fault? (.error e : Except Instance.Error β) := by
  rw [Faults.error_iff, Faults.error_iff, Error.fault?]

theorem not_faults_validateDecided : ¬ Faults Error.fault? (validateDecided seat m) := by
  have hsigners : ¬ Faults Error.fault? ((checkSigners m.signers).mapError
      (Error.invalidDecided ∘ DecidedError.signature)) := Faults.not_mapError fun _ => rfl
  have hverify : ¬ Faults Error.fault? ((m.verify seat.committee seat.context.domain).mapError
      (Error.invalidDecided ∘ DecidedError.signature)) := Faults.not_mapError fun _ => rfl
  simp [validateDecided, hsigners, hverify, Error.fault?]

/-- A decided message takes no node down. -/
theorem not_faults_receiveDecided :
    ¬ Faults Error.fault? (n.receiveDecided seat env m).answer := by
  have hlearn : ∀ s : Instance S, ¬ Faults Instance.Error.fault? (s.learn m).answer := by
    intro s
    unfold Instance.learn
    split
    · exact Faults.not_ok none
    split
    · exact Faults.not_ok none
    split
    · exact Faults.not_ok none
    · exact Faults.not_ok _
  unfold receiveDecided
  split
  · rename_i e hvalid
    have hnot : ¬ Faults Error.fault? (validateDecided seat m) := not_faults_validateDecided
    rw [hvalid] at hnot
    rwa [Faults.refuse_iff]
  split
  · simp [Step.refuse, Error.fault?]
  dsimp only
  split
  · exact Faults.not_ok none
  rename_i s hs
  split
  · rename_i e hanswer
    rw [faults_rejected_iff, ← hanswer]
    exact hlearn s
  · exact Faults.not_ok none
  · exact Faults.not_ok _

/-- Other messages take a node down with the instance of their height. -/
theorem faults_receivePlain_iff : Faults Error.fault? (n.receivePlain seat env m).answer ↔
    m.identifier = seat.identifier ∧ ∃ s, n.instanceAt? m.height = some s ∧
      Faults Instance.Error.fault? (s.receive seat env.network m).answer := by
  unfold receivePlain
  split
  · rename_i hid
    exact iff_of_false (by simp [Step.refuse, Error.fault?]) fun h => hid h.1
  rename_i hid
  split
  · rename_i hnone
    rw [hnone]
    exact iff_of_false (by simp [Step.refuse, Error.fault?]) (by simp)
  rename_i s hs
  simp only [hs, Decidable.not_not.1 hid, Option.some.injEq, exists_eq_left', true_and]
  split
  · rename_i e hanswer
    rw [hanswer]
    exact faults_rejected_iff
  · rename_i hanswer
    rw [hanswer]
    exact iff_of_false (Faults.not_ok none) (Faults.not_ok none)
  · rename_i decision hanswer
    rw [hanswer]
    exact iff_of_false (Faults.not_ok _) (Faults.not_ok _)

theorem not_faults_timeout {height : Height} {round : Round} :
    ¬ Faults Error.fault? (n.timeout seat env height round).answer := by
  unfold timeout
  split
  · simp [Step.refuse, Error.fault?]
  rename_i s hs
  dsimp only
  cases hanswer : (s.timeout seat env.network round).answer with
  | error e =>
    have hnot : ¬ Faults Instance.Error.fault? (s.timeout seat env.network round).answer :=
      Instance.not_faults_timeout
    rw [hanswer] at hnot
    exact fun h => hnot (faults_rejected_iff.1 h)
  | ok a => exact Faults.not_ok a

variable {capacity : ℕ} {archive : Archive S} {t : Trace S} {domain : Domain}

/-- Over any run of a node whose members propose in turn, no timeout takes it down, and exactly
those messages do that are fatal to the instance of their height. -/
theorem faults_iff_fatal (h : Run seat capacity archive t)
    (hcontext : seat.context = .roundRobin domain) (hsize : 0 < seat.committee.size) :
    (∀ env height round, ¬ Faults Error.fault? (t.state.timeout seat env height round).answer) ∧
      ∀ env m, Faults Error.fault? (t.state.receive seat env m).answer ↔
        ∃ s, t.state.instanceAt? m.height = some s ∧ Instance.Fatal seat s m := by
  refine ⟨fun env height round => not_faults_timeout, fun env m => ?_⟩
  have hanswer : (t.state.receive seat env m).answer =
      (if messageKind seat.committee m = .decided then t.state.receiveDecided seat env m
        else t.state.receivePlain seat env m).answer := rfl
  have hfatal : ∀ s, t.state.instanceAt? m.height = some s →
      (Faults Instance.Error.fault? (s.receive seat env.network m).answer ↔
        Instance.Fatal seat s m) := fun s hs =>
    Instance.faults_receive_iff hcontext hsize (h.consistent.reachable hs)
  rw [hanswer]
  split
  · rename_i hkind
    refine iff_of_false not_faults_receiveDecided ?_
    -- a decided message is a commit, and no commit is fatal
    rintro ⟨s, -, hs⟩
    have htype := (messageKind_eq_decided_iff.1 hkind).1
    rcases hs.type with hs | hs
    · rw [hs] at htype
      cases htype
    · rw [hs] at htype
      cases htype
  · rw [faults_receivePlain_iff]
    constructor
    · rintro ⟨-, s, hs, hfaults⟩
      exact ⟨s, hs, (hfatal s hs).1 hfaults⟩
    · rintro ⟨s, hs, hm⟩
      exact ⟨hm.reaches.identifier_eq, s, hs, (hfatal s hs).2 hm⟩

/-! ### Messages for the last round -/

namespace LastRound

open Scheme

/-- Member 1 learns of the decision at height 0 and begins height 1. -/
def trace : Trace plain :=
  (Trace.new 5 Archive.empty).play plain.seat [.receive plain.certificate, .start plain.value]

theorem run_trace : Run plain.seat 5 Archive.empty trace := Run.new.play _

/-- A message of member 2 at height 1 for the last round. -/
def message (body : Body plain (SignedMessage plain)) : SignedMessage plain :=
  plain.signed 2 plain.seat.identifier ⟨1⟩ ⟨18446744073709551615⟩ body

end LastRound

/-- The round change of one member for the last round is fatal to the instance of height 1, and
takes the node down; no timeout does. -/
theorem faults_of_last_round :
    Faults Error.fault? (LastRound.trace.state.receive Scheme.plain.seat (.reliable _)
      (LastRound.message (.roundChange none []))).answer ∧
    ¬ Faults Error.fault? (LastRound.trace.state.timeout Scheme.plain.seat (.reliable _)
      ⟨1⟩ Round.first).answer := by
  obtain ⟨htimeout, hreceive⟩ := faults_iff_fatal LastRound.run_trace rfl (by decide)
  obtain ⟨s, hs⟩ := Option.isSome_iff_exists.1
    (by decide +kernel : (LastRound.trace.state.instanceAt? ⟨1⟩).isSome = true)
  have hstate : ∀ s ∈ LastRound.trace.state.instanceAt? ⟨1⟩,
      s.stopped Scheme.plain.seat = false ∧ s.height = ⟨1⟩ ∧ s.round = Round.first ∧
        s.decided = none ∧
        Instance.validateRoundChange Scheme.plain.seat s (LastRound.message (.roundChange none []))
          ⟨18446744073709551615⟩ = .ok () ∧
        s.roundChanges.hasSignerOf (LastRound.message (.roundChange none [])) = false := by
    decide +kernel
  obtain ⟨hrunning, hheight, hround, hopen, hvalid, hnew⟩ := hstate s hs
  refine ⟨(hreceive _ _).2 ⟨s, hs, .roundChange ⟨hrunning, rfl, hheight.symm, ?_⟩ rfl hvalid hnew
    hopen ?_⟩, htimeout _ _ _⟩
  · rw [hround]
    decide
  · decide

/-- At height 1 a proposal of one member for the last round takes the node down, while the sum of
height and round is computed. -/
theorem receive_last_round :
    Run Scheme.plain.seat 5 Archive.empty LastRound.trace ∧
      0 < Scheme.plain.seat.committee.size ∧ 2 ≤ Scheme.plain.seat.cutoff.toNat ∧
      LastRound.trace.state.height = some ⟨1⟩ ∧
      (LastRound.trace.state.receive Scheme.plain.seat (.reliable _)
        (LastRound.message (.propose Scheme.plain.value [] []))).answer =
          .error (.rejected (.fault .additionOverflow)) := by
  refine ⟨LastRound.run_trace, by decide, by decide, ?_, ?_⟩
  · decide +kernel
  · decide +kernel

end Node
end Conclave
