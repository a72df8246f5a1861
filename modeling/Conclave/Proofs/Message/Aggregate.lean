import Conclave.Message.Aggregate
import Conclave.Proofs.Committee.Members
import Conclave.Proofs.Message.Verification
import Conclave.Proofs.PlainScheme
import Mathlib.Data.List.Sort

/-!
# What a combined message is

`SignedMessage.aggregate` combines messages that several members have signed on their own. It
succeeds on messages over the same content by different signers (`exists_aggregate`). If it does,
all of them are over the message of the result (`message_eq_of_aggregate`), their signers are the
signers of the result (`signers_perm_of_aggregate`), and the result verifies if each of them does
(`verify_of_aggregate`). A signer that occurs twice is found by comparing neighbours, because the
signers are sorted (`hasEqualNeighbours_sortedPairs`).

Nothing depends on the order of the messages (`aggregate_perm`): different signers have one
ascending order only (`sortedPairs_congr`), in which each keeps its signature. All of this together
is `aggregate_exact`.
-/

namespace Conclave

namespace SignedMessage

variable {S : Scheme} {ms : List (SignedMessage S)} {combined : SignedMessage S}

/-- Where there is a signature for each signer, the pairs name the signers. -/
theorem map_fst_pairs {m : SignedMessage S} (h : m.signers.length = m.signatures.length) :
    m.pairs.map Prod.fst = m.signers := by
  rw [pairs, List.map_fst_zip h.le]

theorem sorted_sortedPairs (ms : List (SignedMessage S)) :
    ((sortedPairs ms).map Prod.fst).Pairwise fun a b => a ≤ b :=
  List.pairwise_map.2 (OperatorId.pairwise_mergeSort Prod.fst _)

/-- Different signers are in strictly ascending order. -/
theorem lt_sortedPairs (hnodup : ((sortedPairs ms).map Prod.fst).Nodup) :
    ((sortedPairs ms).map Prod.fst).Pairwise fun a b => a < b :=
  ((sorted_sortedPairs ms).and hnodup).imp fun hab => OperatorId.lt_of_le_of_ne hab.1 hab.2

/-- A list has no equal neighbours exactly if along it each entry differs from the next one. -/
theorem hasEqualNeighbours_eq_false_iff {ids : List OperatorId} :
    hasEqualNeighbours ids = false ↔ ids.IsChain (· ≠ ·) := by
  unfold hasEqualNeighbours
  induction ids with
  | nil => simp
  | cons a rest ih =>
    cases rest with
    | nil => simp
    | cons b rest =>
      rw [List.tail_cons, List.zip_cons_cons, List.any_cons, Bool.or_eq_false_iff,
        decide_eq_false_iff_not, List.isChain_cons_cons]
      exact and_congr_right fun _ => ih

/-- A signer that occurs twice is its own neighbour, once the signers are in order. -/
theorem isChain_sortedPairs_iff :
    ((sortedPairs ms).map Prod.fst).IsChain (· ≠ ·) ↔ ((sortedPairs ms).map Prod.fst).Nodup :=
  ⟨OperatorId.nodup_of_isChain (sorted_sortedPairs ms), fun hnodup => hnodup.isChain⟩

/-- So to look at neighbours finds out whether all signers are different. -/
theorem hasEqualNeighbours_sortedPairs (ms : List (SignedMessage S)) :
    hasEqualNeighbours ((sortedPairs ms).map Prod.fst) = true ↔
      ¬ ((sortedPairs ms).map Prod.fst).Nodup := by
  rw [← isChain_sortedPairs_iff, ← hasEqualNeighbours_eq_false_iff, Bool.not_eq_false]

/-- The pairs of messages name the signers of the messages. -/
theorem names_sortedPairs (hlength : ∀ m ∈ ms, m.signers.length = m.signatures.length) :
    ((sortedPairs ms).map Prod.fst).Perm (ms.flatMap signers) := by
  have hnames : (ms.flatMap pairs).map Prod.fst = ms.flatMap signers := by
    rw [List.map_flatMap]
    exact List.flatMap_congr fun m hm => map_fst_pairs (hlength m hm)
  rw [← hnames]
  exact (List.mergeSort_perm _ _).map Prod.fst

/-- The result from the point of view of any of the messages. -/
theorem aggregate_eq_of_mem {m : SignedMessage S} (hm : m ∈ ms) :
    aggregate ms =
      if ∀ m' ∈ ms, m'.message = m.message then
        if ((sortedPairs ms).map Prod.fst).Nodup then
          .ok ⟨m.message, (sortedPairs ms).map Prod.fst, (sortedPairs ms).map Prod.snd⟩
        else .error .overlappingSigners
      else .error .differentMessages := by
  cases ms with
  | nil => cases hm
  | cons first rest =>
    unfold aggregate
    dsimp only
    by_cases hsame : ∀ m' ∈ first :: rest, m'.message = m.message
    · have hfirst : first.message = m.message := hsame first List.mem_cons_self
      have hrest : ¬ (rest.any fun m' => decide (m'.message ≠ first.message)) = true := by
        rw [List.any_eq_true]
        rintro ⟨m', hm', hdiffers⟩
        apply of_decide_eq_true hdiffers
        rw [hfirst]
        exact hsame m' (List.mem_cons_of_mem first hm')
      simp only [hasEqualNeighbours_sortedPairs]
      rw [if_neg hrest, if_pos hsame, ite_not, hfirst]
    · have hrest : (rest.any fun m' => decide (m'.message ≠ first.message)) = true := by
        by_contra hnone
        have hall : ∀ m' ∈ first :: rest, m'.message = first.message := by
          refine List.forall_mem_cons.2 ⟨rfl, fun m' hm' => ?_⟩
          by_contra hdiffers
          exact hnone (List.any_eq_true.2 ⟨m', hm', decide_eq_true hdiffers⟩)
        exact hsame fun m' hm' => (hall m' hm').trans (hall m hm).symm
      rw [if_pos hrest, if_neg hsame]

/-- Messages over the same content by different signers can be combined. -/
theorem exists_aggregate (hne : ms ≠ []) (hsame : ∀ m ∈ ms, ∀ m' ∈ ms, m.message = m'.message)
    (hlength : ∀ m ∈ ms, m.signers.length = m.signatures.length)
    (hnodup : (ms.flatMap signers).Nodup) : ∃ combined, aggregate ms = .ok combined := by
  have hnames := (names_sortedPairs hlength).nodup_iff.2 hnodup
  obtain ⟨m, hm⟩ := List.exists_mem_of_ne_nil ms hne
  rw [aggregate_eq_of_mem hm, if_pos fun m' hm' => hsame m' hm' m hm, if_pos hnames]
  exact ⟨_, rfl⟩

/-- What a successful combination is made of. -/
theorem aggregate_eq_ok (h : aggregate ms = .ok combined) :
    ms ≠ [] ∧ (∀ m ∈ ms, m.message = combined.message) ∧
      combined.signers = (sortedPairs ms).map Prod.fst ∧
      combined.signatures = (sortedPairs ms).map Prod.snd ∧ combined.signers.Nodup := by
  by_cases hempty : ms = []
  · subst hempty
    cases h
  obtain ⟨m, hm⟩ := List.exists_mem_of_ne_nil ms hempty
  rw [aggregate_eq_of_mem hm, ite_else_error_eq_ok_iff, ite_else_error_eq_ok_iff] at h
  obtain ⟨hsame, hnodup, h⟩ := h
  cases h
  exact ⟨hempty, hsame, rfl, rfl, hnodup⟩

theorem message_eq_of_aggregate (h : aggregate ms = .ok combined) {m : SignedMessage S}
    (hm : m ∈ ms) : m.message = combined.message :=
  (aggregate_eq_ok h).2.1 m hm

theorem exists_mem_of_aggregate (h : aggregate ms = .ok combined) : ∃ m, m ∈ ms :=
  List.exists_mem_of_ne_nil ms (aggregate_eq_ok h).1

theorem pairs_of_aggregate (h : aggregate ms = .ok combined) :
    combined.pairs = sortedPairs ms := by
  obtain ⟨-, -, hsigners, hsignatures, -⟩ := aggregate_eq_ok h
  rw [pairs, hsigners, hsignatures, ← List.unzip_fst, ← List.unzip_snd, List.zip_unzip]

/-- The signers of the result are those of the combined messages. -/
theorem signers_perm_of_aggregate (h : aggregate ms = .ok combined)
    (hlength : ∀ m ∈ ms, m.signers.length = m.signatures.length) :
    combined.signers.Perm (ms.flatMap signers) := by
  obtain ⟨-, -, hsigners, -, -⟩ := aggregate_eq_ok h
  rw [hsigners]
  exact names_sortedPairs hlength

/-- The signers of the result are in strictly ascending order. -/
theorem pairwise_signers_of_aggregate (h : aggregate ms = .ok combined) :
    combined.signers.Pairwise fun a b => a < b := by
  obtain ⟨-, -, hsigners, -, hnodup⟩ := aggregate_eq_ok h
  rw [hsigners] at hnodup ⊢
  exact lt_sortedPairs hnodup

/-- Messages that verify are combined into one that does. -/
theorem verify_of_aggregate {committee : Committee S} {domain : Domain}
    (h : aggregate ms = .ok combined) (hms : ∀ m ∈ ms, m.verify committee domain = .ok ()) :
    combined.verify committee domain = .ok () := by
  obtain ⟨-, hmessage, hsigners, hsignatures, -⟩ := aggregate_eq_ok h
  have hlength : ∀ m ∈ ms, m.signers.length = m.signatures.length :=
    fun m hm => (verify_eq_ok_iff.1 (hms m hm)).2.1
  refine verify_eq_ok_iff.2 ⟨checkSigners_eq_ok_iff.2 ⟨?_, ?_⟩, ?_, fun p hp => ?_⟩
  -- the first of the messages has a signer, which is one of the result
  · obtain ⟨m, hm⟩ := exists_mem_of_aggregate h
    have hsome := (checkSigners_eq_ok_iff.1 (verify_eq_ok_iff.1 (hms m hm)).1).1
    obtain ⟨id, hid⟩ := List.exists_mem_of_ne_nil _ hsome
    exact List.ne_nil_of_mem
      ((signers_perm_of_aggregate h hlength).mem_iff.2 (List.mem_flatMap.2 ⟨m, hm, hid⟩))
  · exact pairwise_signers_of_aggregate h
  · rw [hsigners, hsignatures, List.length_map, List.length_map]
  -- a pair of the result is one of a message that verifies, over the same message
  · rw [pairs_of_aggregate h, sortedPairs, List.mem_mergeSort, List.mem_flatMap] at hp
    obtain ⟨m, hm, hp⟩ := hp
    rw [← hmessage m hm]
    exact (verify_eq_ok_iff.1 (hms m hm)).2.2 p hp

/-! ### The order of the messages -/

section Order

variable {ms' : List (SignedMessage S)}

theorem sortedPairs_perm (ms : List (SignedMessage S)) :
    (sortedPairs ms).Perm (ms.flatMap pairs) := List.mergeSort_perm _ _

/-- Messages in another order are by the same signers. -/
theorem nodup_sortedPairs_iff :
    ((sortedPairs ms).map Prod.fst).Nodup ↔ ((ms.flatMap pairs).map Prod.fst).Nodup :=
  ((sortedPairs_perm ms).map Prod.fst).nodup_iff

/-- Signatures by different signers have one ascending order only. -/
theorem sortedPairs_eq {ps : List (OperatorId × S.Signature)} (hperm : ps.Perm (ms.flatMap pairs))
    (hlt : ps.Pairwise fun p q => p.1 < q.1) : sortedPairs ms = ps := by
  have hpairs : (sortedPairs ms).Perm ps := (sortedPairs_perm ms).trans hperm.symm
  have hnodup : (ps.map Prod.fst).Nodup :=
    List.pairwise_map.2 (hlt.imp OperatorId.ne_of_lt)
  refine hpairs.eq_of_pairwise (fun p q hp hq hpq hqp => ?_)
    (List.pairwise_map.1 (sorted_sortedPairs ms)) (hlt.imp UInt64.le_of_lt)
  have hsigner : p.1 = q.1 := OperatorId.le_antisymm hpq hqp
  exact List.inj_on_of_nodup_map hnodup (hpairs.mem_iff.1 hp) hq hsigner

theorem sortedPairs_congr (hperm : ms'.Perm ms) (hnodup : ((sortedPairs ms).map Prod.fst).Nodup) :
    sortedPairs ms' = sortedPairs ms := by
  refine sortedPairs_eq ((sortedPairs_perm ms).trans (hperm.flatMap_right pairs).symm) ?_
  exact List.pairwise_map.1 (lt_sortedPairs hnodup)

/-- The order of the messages makes no difference, also to what is wrong with them. -/
theorem aggregate_perm (hperm : ms'.Perm ms) : aggregate ms' = aggregate ms := by
  by_cases hempty : ms = []
  · subst hempty
    rw [hperm.eq_nil]
  obtain ⟨m, hm⟩ := List.exists_mem_of_ne_nil ms hempty
  have hsame : (∀ x ∈ ms', x.message = m.message) ↔ ∀ x ∈ ms, x.message = m.message :=
    forall_congr' fun x => imp_congr_left hperm.mem_iff
  have hnodup : ((sortedPairs ms').map Prod.fst).Nodup ↔ ((sortedPairs ms).map Prod.fst).Nodup := by
    rw [nodup_sortedPairs_iff, nodup_sortedPairs_iff]
    exact ((hperm.flatMap_right pairs).map Prod.fst).nodup_iff
  rw [aggregate_eq_of_mem hm, aggregate_eq_of_mem (hperm.mem_iff.2 hm)]
  simp only [hsame, hnodup]
  by_cases hdistinct : ((sortedPairs ms).map Prod.fst).Nodup
  · rw [sortedPairs_congr hperm hdistinct]
  · rw [if_neg hdistinct, if_neg hdistinct]

end Order

/-- Messages are combined exactly if there are some, all over the same content, and no signer occurs
twice, which shows between neighbours once the signers are sorted. The result is then over this
content, has exactly the signatures that were given, each with its signer and in strictly ascending
order of these, and verifies if all that was combined does. The order of the messages makes no
difference to what comes out. -/
theorem aggregate_exact (ms : List (SignedMessage S)) :
    ((∃ combined, aggregate ms = .ok combined) ↔
      ms ≠ [] ∧ (∀ m ∈ ms, ∀ m' ∈ ms, m.message = m'.message) ∧
        ((ms.flatMap pairs).map Prod.fst).Nodup) ∧
    (((sortedPairs ms).map Prod.fst).IsChain (· ≠ ·) ↔
      ((ms.flatMap pairs).map Prod.fst).Nodup) ∧
    (∀ ms', ms'.Perm ms → aggregate ms' = aggregate ms) ∧
    ∀ combined, aggregate ms = .ok combined →
      (∀ m ∈ ms, combined.message = m.message) ∧
      combined.signers.Pairwise (fun a b => a < b) ∧
      combined.signers.length = combined.signatures.length ∧
      combined.pairs.Perm (ms.flatMap pairs) ∧
      ∀ committee domain, (∀ m ∈ ms, m.verify committee domain = .ok ()) →
        combined.verify committee domain = .ok () := by
  refine ⟨⟨?_, ?_⟩, isChain_sortedPairs_iff.trans nodup_sortedPairs_iff,
    fun ms' => aggregate_perm, fun combined h => ?_⟩
  · rintro ⟨combined, h⟩
    obtain ⟨hne, hmessage, hsigners, -, hnodup⟩ := aggregate_eq_ok h
    rw [hsigners, nodup_sortedPairs_iff] at hnodup
    exact ⟨hne, fun m hm m' hm' => (hmessage m hm).trans (hmessage m' hm').symm, hnodup⟩
  · rintro ⟨hne, hsame, hnodup⟩
    obtain ⟨m, hm⟩ := List.exists_mem_of_ne_nil ms hne
    rw [aggregate_eq_of_mem hm, if_pos fun m' hm' => hsame m' hm' m hm,
      if_pos (nodup_sortedPairs_iff.2 hnodup)]
    exact ⟨_, rfl⟩
  · obtain ⟨-, hmessage, hsigners, hsignatures, -⟩ := aggregate_eq_ok h
    refine ⟨fun m hm => (hmessage m hm).symm, pairwise_signers_of_aggregate h, ?_, ?_,
      fun committee domain => verify_of_aggregate h⟩
    · rw [hsigners, hsignatures, List.length_map, List.length_map]
    · rw [pairs_of_aggregate h]
      exact sortedPairs_perm ms

/-! ### A commit of one member and a commit of two -/

namespace Parted

open Scheme

/-- A commit to the value by some members, with a signature of each. -/
def commit (ids : List UInt64) : SignedMessage plain where
  message := plain.certificate.message
  signers := ids.map OperatorId.mk
  signatures := ids.flatMap fun id => (plain.message id (.commit plain.value.root)).signatures

/-- The commit of member 2 comes before the one of members 1 and 3. -/
def commits : List (SignedMessage plain) := [commit [2], commit [1, 3]]

end Parted

/-- The two commits are combined into the certificate of all three members, in either order, and the
certificate verifies. -/
theorem aggregate_of_parted :
    aggregate Parted.commits = .ok Scheme.plain.certificate ∧
      aggregate Parted.commits.reverse = .ok Scheme.plain.certificate ∧
      Scheme.plain.certificate.pairs.Perm (Parted.commits.flatMap pairs) ∧
      Scheme.plain.certificate.verify Scheme.plain.committee Scheme.plain.domain = .ok () := by
  have hsorted : sortedPairs Parted.commits = Scheme.plain.certificate.pairs :=
    sortedPairs_eq (by decide +kernel) (by decide +kernel)
  have hcombined : aggregate Parted.commits = .ok Scheme.plain.certificate := by
    have hmem : Parted.commit [2] ∈ Parted.commits := List.mem_cons_self
    rw [aggregate_eq_of_mem hmem, hsorted]
    decide +kernel
  have hverify : ∀ m ∈ Parted.commits,
      m.verify Scheme.plain.committee Scheme.plain.domain = .ok () := by decide +kernel
  obtain ⟨-, -, hperm, hexact⟩ := aggregate_exact Parted.commits
  obtain ⟨-, -, -, hpairs, hverified⟩ := hexact _ hcombined
  refine ⟨hcombined, ?_, hpairs, hverified _ _ hverify⟩
  rw [hperm _ (List.reverse_perm _), hcombined]

end SignedMessage
end Conclave
