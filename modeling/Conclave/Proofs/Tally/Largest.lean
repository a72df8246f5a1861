import Conclave.Proofs.PlainScheme
import Conclave.Proofs.Tally

/-!
# How large the choice is

Messages of one round and value, no two of which share a signer, are a packing.
`Tally.uniqueSigners` looks for one with many signers: it begins with each message in turn and
gathers every later one that still fits.

* `Tally.Packing` is a packing of the messages of a round for a value, `Tally.Largest` one that has
  as many signers as any;
* `Gathers` says what is taken from messages by taking all that fit, `Gathered` that this is done
  from some message on;
* `uniqueSigners_largest_iff`: the choice is a packing, and it is a largest one exactly if some
  largest packing is gathered. So it is wherever any two messages have the same signers or none in
  common, as messages of one signer do.

A largest packing may leave out a message that would fit, to take two later ones that share signers
with it. Then the choice may be smaller (`larger_packing_missed`).
-/

namespace Conclave

variable {S : Scheme}

/-- The number of signers of messages, each message counted for itself. -/
def countSigners (ms : List (SignedMessage S)) : ℕ := (ms.flatMap SignedMessage.signers).length

/-! ### Gathering -/

/-- What is taken from messages next to some that are taken already: every message that shares no
signer with one that is taken before it, and no other. -/
inductive Gathers : List (SignedMessage S) → List (SignedMessage S) → List (SignedMessage S) → Prop
  | nil {taken : List (SignedMessage S)} : Gathers taken [] []
  | take {taken rest ms : List (SignedMessage S)} {m : SignedMessage S}
      (hfits : ∀ x ∈ taken, x.signers.Disjoint m.signers) (h : Gathers (taken ++ [m]) rest ms) :
      Gathers taken (m :: rest) (m :: ms)
  | leave {taken rest ms : List (SignedMessage S)} {m x : SignedMessage S} (hx : x ∈ taken)
      (hshared : ¬ x.signers.Disjoint m.signers) (h : Gathers taken rest ms) :
      Gathers taken (m :: rest) ms

/-- What is taken from messages if one begins at some place among them. -/
def Gathered (candidates ms : List (SignedMessage S)) : Prop :=
  ∃ later, later <:+ candidates ∧ Gathers [] later ms

/-- Any two messages have the same signers, or none in common. -/
def SameOrApart (ms : List (SignedMessage S)) : Prop :=
  ∀ a ∈ ms, ∀ b ∈ ms, ¬ a.signers.Disjoint b.signers → b.signers ⊆ a.signers

section Gathering

variable {taken rest candidates ms : List (SignedMessage S)} {m : SignedMessage S}

/-- Something is taken, whatever the messages are. -/
theorem exists_gathers (taken rest : List (SignedMessage S)) : ∃ ms, Gathers taken rest ms := by
  induction rest generalizing taken with
  | nil => exact ⟨[], .nil⟩
  | cons m rest ih =>
    by_cases hfits : ∀ x ∈ taken, x.signers.Disjoint m.signers
    · obtain ⟨ms, hms⟩ := ih (taken ++ [m])
      exact ⟨m :: ms, .take hfits hms⟩
    · obtain ⟨x, hx, hshared⟩ := by simpa using hfits
      obtain ⟨ms, hms⟩ := ih taken
      exact ⟨ms, .leave hx hshared hms⟩

/-- The first message is taken if nothing is taken yet. -/
theorem gathers_cons_iff :
    Gathers [] (m :: rest) ms ↔ ∃ ms', ms = m :: ms' ∧ Gathers [m] rest ms' := by
  constructor
  · intro h
    cases h with
    | take _ h => exact ⟨_, rfl, h⟩
    | leave hx _ _ => cases hx
  · rintro ⟨ms', rfl, h⟩
    exact .take nofun h

/-- Where two messages have the same signers or none in common, all signers have a message among
those that are taken. -/
theorem Gathers.signers_subset (h : Gathers taken rest ms) (hsub : taken ++ rest ⊆ candidates)
    (hapart : SameOrApart candidates) :
    rest.flatMap SignedMessage.signers ⊆ (taken ++ ms).flatMap SignedMessage.signers := by
  induction h with
  | nil => exact List.nil_subset _
  | @take taken rest ms m _ _ ih =>
    rw [List.append_assoc, List.singleton_append] at ih
    rw [List.flatMap_cons]
    refine List.append_subset.2 ⟨?_, ?_⟩
    · rw [List.flatMap_append, List.flatMap_cons]
      exact List.subset_append_of_subset_right _ (List.subset_append_left _ _)
    · simpa using ih hsub
  | @leave taken rest ms m x hx hshared _ ih =>
    have hrest : taken ++ rest ⊆ candidates := fun y hy => hsub (by
      rcases List.mem_append.1 hy with hy | hy
      · exact List.mem_append_left _ hy
      · exact List.mem_append_right _ (List.mem_cons_of_mem m hy))
    refine List.append_subset.2 ⟨fun id hid => ?_, ih hrest⟩
    -- a message that is left out has the signers of one that is taken
    have hsame : m.signers ⊆ x.signers := hapart x (hsub (List.mem_append_left _ hx)) m
      (hsub (List.mem_append_right _ List.mem_cons_self)) hshared
    rw [List.flatMap_append]
    exact List.mem_append_left _ (List.mem_flatMap.2 ⟨x, hx, hsame hid⟩)

end Gathering

namespace UniqueSigners

variable {u : UniqueSigners S} {taken rest candidates ms : List (SignedMessage S)}
  {m : SignedMessage S}

/-- A message is taken if it shares no signer with those that are. -/
theorem extend_eq_of_fits (hsigners : u.signers = taken.flatMap SignedMessage.signers)
    (hfits : ∀ x ∈ taken, x.signers.Disjoint m.signers) :
    u.extend m = ⟨u.signers ++ m.signers, u.messages ++ [m]⟩ := by
  refine if_neg fun hshared => ?_
  obtain ⟨id, hid, hmem⟩ := by simpa using hshared
  rw [hsigners] at hmem
  obtain ⟨x, hx, hidx⟩ := List.mem_flatMap.1 hmem
  exact hfits x hx hidx hid

theorem extend_eq_of_shared {x : SignedMessage S}
    (hsigners : u.signers = taken.flatMap SignedMessage.signers) (hx : x ∈ taken)
    (hshared : ¬ x.signers.Disjoint m.signers) : u.extend m = u := by
  simp only [List.Disjoint, not_forall, not_false_eq_true] at hshared
  obtain ⟨id, hidx, hid, -⟩ := hshared
  refine if_pos ?_
  simpa using ⟨id, hid, hsigners ▸ List.mem_flatMap.2 ⟨x, hx, hidx⟩⟩

/-- A set that is extended by messages gathers from them. -/
theorem foldl_extend_eq (h : Gathers taken rest ms)
    (hsigners : u.signers = taken.flatMap SignedMessage.signers) :
    rest.foldl extend u =
      ⟨u.signers ++ ms.flatMap SignedMessage.signers, u.messages ++ ms⟩ := by
  induction h generalizing u with
  | nil => simp
  | @take taken rest ms m hfits _ ih =>
    rw [List.foldl_cons, extend_eq_of_fits hsigners hfits, ih (by simp [hsigners])]
    simp
  | leave hx hshared _ ih =>
    rw [List.foldl_cons, extend_eq_of_shared hsigners hx hshared, ih hsigners]

/-- A set that begins with a message is what is gathered from it on. -/
theorem foldl_extend_singleton (h : Gathers [m] rest ms) :
    rest.foldl extend ⟨m.signers, [m]⟩ =
      ⟨(m :: ms).flatMap SignedMessage.signers, m :: ms⟩ :=
  foldl_extend_eq h (by simp)

/-- The best choice is at least as large as whatever is gathered. -/
theorem countSigners_le_best {later : List (SignedMessage S)} (found : UniqueSigners S)
    (hlater : later <:+ candidates) (h : Gathers [] later ms) :
    countSigners ms ≤ (best candidates found).size := by
  induction candidates generalizing found with
  | nil =>
    obtain rfl := List.suffix_nil.1 hlater
    cases h
    exact Nat.zero_le _
  | cons seed rest ih =>
    rcases List.suffix_cons_iff.1 hlater with rfl | hlater
    · obtain ⟨ms, rfl, hgathers⟩ := gathers_cons_iff.1 h
      calc
        countSigners (seed :: ms)
          = (rest.foldl extend ⟨seed.signers, [seed]⟩).size := by
            rw [foldl_extend_singleton hgathers]
            rfl
        _ ≤ (found.larger (rest.foldl extend ⟨seed.signers, [seed]⟩)).size :=
          (size_le_larger _ _).2
        _ ≤ (best (seed :: rest) found).size := size_le_best rest _
    · exact ih _ hlater

/-- The best choice is gathered from one of the messages on. -/
theorem gathered_best {all : List (SignedMessage S)} (hall : candidates <:+ all)
    {found : UniqueSigners S} (hfound : Gathered all found.messages) :
    Gathered all (best candidates found).messages := by
  induction candidates generalizing found with
  | nil => exact hfound
  | cons seed rest ih =>
    refine ih ((List.suffix_cons seed rest).trans hall) ?_
    unfold larger
    split
    · obtain ⟨ms, hgathers⟩ := exists_gathers [seed] rest
      rw [foldl_extend_singleton hgathers]
      exact ⟨seed :: rest, hall, gathers_cons_iff.2 ⟨ms, rfl, hgathers⟩⟩
    · exact hfound

end UniqueSigners

/-! ### Packings -/

namespace Tally

variable {t : Tally S} {round : Round} {root : Digest} {ms : List (SignedMessage S)}

/-- Messages of a round for a value, in the order in which they came, none of which names a signer
twice and no two of which share one. -/
structure Packing (t : Tally S) (round : Round) (root : Digest) (ms : List (SignedMessage S)) :
    Prop where
  sublist : ms.Sublist (t.ofRound round)
  value : ∀ m ∈ ms, m.message.valueRoot? = some root
  distinct : ∀ m ∈ ms, m.signers.Nodup
  disjoint : ms.Pairwise fun a b => a.signers.Disjoint b.signers

/-- A packing with as many signers as any. -/
def Largest (t : Tally S) (round : Round) (root : Digest) (ms : List (SignedMessage S)) : Prop :=
  t.Packing round root ms ∧ ∀ ms', t.Packing round root ms' → countSigners ms' ≤ countSigners ms

/-- A packing is made of messages that may be counted, whose signers are all different. -/
theorem packing_iff : t.Packing round root ms ↔
    ms.Sublist (t.candidates round root) ∧ (ms.flatMap SignedMessage.signers).Nodup := by
  rw [List.nodup_flatMap]
  constructor
  · rintro ⟨hsublist, hvalue, hdistinct, hdisjoint⟩
    refine ⟨?_, hdistinct, hdisjoint⟩
    have hall : ms.filter (fun m => m.message.valueRoot? = some root ∧ m.signers.Nodup) = ms :=
      List.filter_eq_self.2 fun m hm => decide_eq_true ⟨hvalue m hm, hdistinct m hm⟩
    rw [candidates, ← hall]
    exact hsublist.filter _
  · rintro ⟨hsublist, hdistinct, hdisjoint⟩
    refine ⟨hsublist.trans List.filter_sublist, fun m hm => ?_, hdistinct, hdisjoint⟩
    exact (of_decide_eq_true (List.mem_filter.1 (hsublist.subset hm)).2).1

theorem packing_uniqueSigners (t : Tally S) (round : Round) (root : Digest) :
    t.Packing round root (t.uniqueSigners round root).messages := by
  have hchosen := t.chosenFrom_uniqueSigners round root
  exact packing_iff.2 ⟨hchosen.sublist, hchosen.signers_eq ▸ hchosen.nodup⟩

theorem size_uniqueSigners_eq (t : Tally S) (round : Round) (root : Digest) :
    (t.uniqueSigners round root).size = countSigners (t.uniqueSigners round root).messages :=
  congrArg List.length (t.chosenFrom_uniqueSigners round root).signers_eq

theorem countSigners_le_uniqueSigners (h : Gathered (t.candidates round root) ms) :
    countSigners ms ≤ countSigners (t.uniqueSigners round root).messages := by
  obtain ⟨later, hlater, hgathers⟩ := h
  rw [← size_uniqueSigners_eq]
  exact UniqueSigners.countSigners_le_best _ hlater hgathers

/-- Where two messages have the same signers or none in common, what is gathered from the first one
on has all signers. -/
theorem largest_of_sameOrApart (hapart : SameOrApart (t.candidates round root)) :
    t.Largest round root (t.uniqueSigners round root).messages := by
  refine ⟨t.packing_uniqueSigners round root, fun ms hms => ?_⟩
  obtain ⟨hsublist, hnodup⟩ := packing_iff.1 hms
  obtain ⟨gathered, hgathers⟩ := exists_gathers [] (t.candidates round root)
  have hall : (t.candidates round root).flatMap SignedMessage.signers ⊆
      gathered.flatMap SignedMessage.signers :=
    hgathers.signers_subset (List.Subset.refl _) hapart
  calc
    countSigners ms ≤ countSigners gathered :=
      (List.subperm_of_subset hnodup
        (List.Subset.trans (hsublist.flatMap _).subset hall)).length_le
    _ ≤ countSigners (t.uniqueSigners round root).messages :=
      countSigners_le_uniqueSigners ⟨_, List.suffix_refl _, hgathers⟩

/-- The choice is a packing, with its signers one after the other. It is a largest one exactly if
some largest packing is gathered from its first message on, which is so wherever any two messages
have the same signers or none in common. -/
theorem uniqueSigners_largest_iff (t : Tally S) (round : Round) (root : Digest) :
    (t.Packing round root (t.uniqueSigners round root).messages ∧
      (t.uniqueSigners round root).signers =
        (t.uniqueSigners round root).messages.flatMap SignedMessage.signers) ∧
    (t.Largest round root (t.uniqueSigners round root).messages ↔
      ∃ ms, t.Largest round root ms ∧ Gathered (t.candidates round root) ms) ∧
    (SameOrApart (t.candidates round root) →
      t.Largest round root (t.uniqueSigners round root).messages) := by
  have hpacking := t.packing_uniqueSigners round root
  have hsigners := (t.chosenFrom_uniqueSigners round root).signers_eq
  refine ⟨⟨hpacking, hsigners⟩, ⟨fun h => ⟨_, h, ?_⟩, ?_⟩, largest_of_sameOrApart⟩
  · exact UniqueSigners.gathered_best (List.suffix_refl _) ⟨[], List.nil_suffix, .nil⟩
  · rintro ⟨ms, ⟨-, hlargest⟩, hgathered⟩
    refine ⟨hpacking, fun ms' hms' => (hlargest ms' hms').trans ?_⟩
    exact countSigners_le_uniqueSigners hgathered

namespace Overlapping

open Scheme

/-- The commit of some members to the value. -/
def commit (ids : List UInt64) : SignedMessage plain where
  message := (plain.message 1 (.commit plain.value.root)).message
  signers := ids.map fun id => ⟨id⟩
  signatures := ids.flatMap fun id => (plain.message id (.commit plain.value.root)).signatures

/-- The commits of some groups of members, one stored after the other. -/
def tally (groups : List (List UInt64)) : Tally plain :=
  groups.foldl (fun t ids => t.add (commit ids)) Tally.empty

end Overlapping

/-- Of the commits of members 1 and 2, of 2 and 3, and of 1 and 4, the last two are a largest
packing, which is gathered from the second one on. It is chosen. -/
theorem largest_of_overlapping :
    ((Overlapping.tally [[1, 2], [2, 3], [1, 4]]).uniqueSigners Round.first
      Scheme.plain.value.root).signers = [⟨2⟩, ⟨3⟩, ⟨1⟩, ⟨4⟩] ∧
    (Overlapping.tally [[1, 2], [2, 3], [1, 4]]).Largest Round.first Scheme.plain.value.root
      ((Overlapping.tally [[1, 2], [2, 3], [1, 4]]).uniqueSigners Round.first
        Scheme.plain.value.root).messages := by
  have hpacking : (Overlapping.tally [[1, 2], [2, 3], [1, 4]]).Packing Round.first
      Scheme.plain.value.root [Overlapping.commit [2, 3], Overlapping.commit [1, 4]] :=
    packing_iff.2 ⟨by decide +kernel, by decide +kernel⟩
  have hlargest : (Overlapping.tally [[1, 2], [2, 3], [1, 4]]).Largest Round.first
      Scheme.plain.value.root [Overlapping.commit [2, 3], Overlapping.commit [1, 4]] := by
    refine ⟨hpacking, fun ms hms => ?_⟩
    -- there are no more than four signers
    obtain ⟨hsublist, hnodup⟩ := packing_iff.1 hms
    have hmembers : ms.flatMap SignedMessage.signers ⊆ [⟨1⟩, ⟨2⟩, ⟨3⟩, ⟨4⟩] :=
      List.Subset.trans (hsublist.flatMap _).subset (by decide +kernel)
    exact (List.subperm_of_subset hnodup hmembers).length_le
  have hapart : (Overlapping.commit [2, 3]).signers.Disjoint
      (Overlapping.commit [1, 4]).signers := by
    rw [List.disjoint_left]
    decide +kernel
  have hgathered : Gathered ((Overlapping.tally [[1, 2], [2, 3], [1, 4]]).candidates Round.first
      Scheme.plain.value.root) [Overlapping.commit [2, 3], Overlapping.commit [1, 4]] :=
    ⟨[Overlapping.commit [2, 3], Overlapping.commit [1, 4]], by decide +kernel,
      .take nofun (.take (List.forall_mem_singleton.2 hapart) .nil)⟩
  obtain ⟨-, hiff, -⟩ := uniqueSigners_largest_iff (Overlapping.tally [[1, 2], [2, 3], [1, 4]])
    Round.first Scheme.plain.value.root
  exact ⟨by decide +kernel, hiff.2 ⟨_, hlargest, hgathered⟩⟩

/-- Of the commits of member 1, of member 2, and of members 2 and 3, the first and the last are a
packing of three signers. The choice takes the second one next to the first, and has two. -/
theorem larger_packing_missed :
    (Overlapping.tally [[1], [2], [2, 3]]).Packing Round.first Scheme.plain.value.root
      [Overlapping.commit [1], Overlapping.commit [2, 3]] ∧
    ((Overlapping.tally [[1], [2], [2, 3]]).uniqueSigners Round.first
      Scheme.plain.value.root).signers = [⟨1⟩, ⟨2⟩] ∧
    ¬ (Overlapping.tally [[1], [2], [2, 3]]).Largest Round.first Scheme.plain.value.root
      ((Overlapping.tally [[1], [2], [2, 3]]).uniqueSigners Round.first
        Scheme.plain.value.root).messages := by
  have hpacking : (Overlapping.tally [[1], [2], [2, 3]]).Packing Round.first
      Scheme.plain.value.root [Overlapping.commit [1], Overlapping.commit [2, 3]] :=
    packing_iff.2 ⟨by decide +kernel, by decide +kernel⟩
  refine ⟨hpacking, by decide +kernel, fun h => ?_⟩
  exact absurd (h.2 _ hpacking) (by decide +kernel)

end Tally
end Conclave
