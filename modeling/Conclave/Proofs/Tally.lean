import Conclave.Tally
import Mathlib.Data.Finset.Card
import Mathlib.Data.List.Flatten

/-!
# What a tally yields

`Tally.uniqueSigners` makes a choice among the messages of one round and value. Whatever it chooses,
the messages are some of these in the order in which they came, and the signers are theirs, no one
of them twice.

Where no signer has two messages in a round, there is nothing to choose: all messages are taken, and
the choice is as large as `Tally.voters`, the set of the signers for the value.
-/

namespace Conclave

variable {S : Scheme}

namespace UniqueSigners

/-- A choice among candidates: some of them, in order, and their signers, no one twice. -/
structure ChosenFrom (candidates : List (SignedMessage S)) (u : UniqueSigners S) : Prop where
  sublist : u.messages.Sublist candidates
  signers_eq : u.signers = u.messages.flatMap SignedMessage.signers
  nodup : u.signers.Nodup

theorem chosenFrom_empty (candidates : List (SignedMessage S)) :
    ChosenFrom candidates (empty : UniqueSigners S) :=
  ⟨List.nil_sublist _, rfl, List.nodup_nil⟩

theorem ChosenFrom.mono {candidates more : List (SignedMessage S)} {u : UniqueSigners S}
    (h : ChosenFrom candidates u) (hsub : candidates.Sublist more) : ChosenFrom more u :=
  ⟨h.sublist.trans hsub, h.signers_eq, h.nodup⟩

theorem ChosenFrom.extend {candidates : List (SignedMessage S)} {u : UniqueSigners S}
    (h : ChosenFrom candidates u) {m : SignedMessage S} (hm : m.signers.Nodup) :
    ChosenFrom (candidates ++ [m]) (u.extend m) := by
  unfold UniqueSigners.extend
  split
  · exact h.mono (List.sublist_append_left _ _)
  · rename_i hnew
    refine ⟨h.sublist.append (List.Sublist.refl _), ?_, ?_⟩
    · simp [h.signers_eq]
    · refine List.nodup_append.2 ⟨h.nodup, hm, fun a ha b hb he => hnew ?_⟩
      subst he
      simpa using ⟨a, hb, ha⟩

theorem ChosenFrom.foldl {candidates : List (SignedMessage S)} {u : UniqueSigners S}
    (h : ChosenFrom candidates u) {rest : List (SignedMessage S)}
    (hrest : ∀ m ∈ rest, m.signers.Nodup) :
    ChosenFrom (candidates ++ rest) (rest.foldl UniqueSigners.extend u) := by
  induction rest generalizing candidates u with
  | nil => simpa using h
  | cons m rest ih =>
    have hm := h.extend (hrest m List.mem_cons_self)
    simpa using ih hm fun x hx => hrest x (List.mem_cons_of_mem m hx)

theorem chosenFrom_best {candidates : List (SignedMessage S)} (seen : List (SignedMessage S))
    (hc : ∀ m ∈ candidates, m.signers.Nodup) {found : UniqueSigners S}
    (hf : ChosenFrom (seen ++ candidates) found) :
    ChosenFrom (seen ++ candidates) (best candidates found) := by
  induction candidates generalizing found seen with
  | nil => exact hf
  | cons seed rest ih =>
    obtain ⟨hseed, hrest⟩ := List.forall_mem_cons.1 hc
    have hgrown : ChosenFrom (seen ++ seed :: rest)
        (rest.foldl UniqueSigners.extend ⟨seed.signers, [seed]⟩) := by
      have hstart : ChosenFrom [seed] ⟨seed.signers, [seed]⟩ :=
        ⟨List.Sublist.refl _, by simp, hseed⟩
      exact (hstart.foldl hrest).mono (List.sublist_append_right _ _)
    have hnext : ChosenFrom ((seen ++ [seed]) ++ rest)
        (found.larger (rest.foldl UniqueSigners.extend ⟨seed.signers, [seed]⟩)) := by
      rw [List.append_assoc, List.singleton_append]
      unfold larger
      split <;> assumption
    have := ih (seen ++ [seed]) hrest hnext
    rwa [List.append_assoc, List.singleton_append] at this

theorem size_le_larger (u v : UniqueSigners S) : u.size ≤ (u.larger v).size ∧
    v.size ≤ (u.larger v).size := by
  unfold larger
  split <;> omega

theorem size_le_best (candidates : List (SignedMessage S)) (found : UniqueSigners S) :
    found.size ≤ (best candidates found).size := by
  induction candidates generalizing found with
  | nil => exact le_rfl
  | cons seed rest ih => exact (size_le_larger _ _).1.trans (ih _)

/-- Messages that share no signer are all taken. -/
theorem signers_foldl_extend {rest : List (SignedMessage S)} {u : UniqueSigners S}
    (h : (u.signers ++ rest.flatMap SignedMessage.signers).Nodup) :
    (rest.foldl extend u).signers = u.signers ++ rest.flatMap SignedMessage.signers := by
  induction rest generalizing u with
  | nil => simp
  | cons m rest ih =>
    rw [List.flatMap_cons, ← List.append_assoc] at h ⊢
    have htake : u.extend m = ⟨u.signers ++ m.signers, u.messages ++ [m]⟩ := by
      have hdisjoint := List.disjoint_of_nodup_append h.of_append_left
      refine if_neg fun hshared => ?_
      obtain ⟨id, hid, hmem⟩ := by simpa using hshared
      exact hdisjoint hmem hid
    rw [List.foldl_cons, htake]
    exact ih h

/-- Among messages that share no signer, the best choice has the signers of all. -/
theorem size_best_of_nodup {candidates : List (SignedMessage S)}
    (h : (candidates.flatMap SignedMessage.signers).Nodup) :
    (best candidates empty).size = (candidates.flatMap SignedMessage.signers).length := by
  refine Nat.le_antisymm ?_ ?_
  · have hchosen : (best candidates empty).ChosenFrom candidates :=
      chosenFrom_best [] (List.nodup_flatMap.1 h).1 (chosenFrom_empty _)
    rw [size, hchosen.signers_eq]
    exact (hchosen.sublist.flatMap _).length_le
  · cases candidates with
    | nil => exact Nat.zero_le _
    | cons seed rest =>
      have hgrown := signers_foldl_extend (u := ⟨seed.signers, [seed]⟩) h
      rw [List.flatMap_cons, ← hgrown]
      exact (size_le_larger _ _).2.trans (size_le_best rest _)

end UniqueSigners

namespace Tally

variable {t : Tally S} {round : Round} {root : Digest}

@[simp] theorem messages_add (t : Tally S) (m : SignedMessage S) :
    (t.add m).messages = t.messages ++ [m] := rfl

theorem eq_of_messages_eq {t t' : Tally S} (h : t.messages = t'.messages) : t = t' := by
  cases t
  exact congrArg mk h

theorem add_ne (t : Tally S) (m : SignedMessage S) : t.add m ≠ t := by
  intro h
  have hlength := congrArg (fun t => t.messages.length) h
  simp at hlength

@[simp] theorem mem_ofRound {m : SignedMessage S} :
    m ∈ t.ofRound round ↔ m ∈ t.messages ∧ m.round = round := by
  simp [ofRound]

theorem ofRound_add (t : Tally S) (m : SignedMessage S) (round : Round) :
    (t.add m).ofRound round = t.ofRound round ++ if m.round = round then [m] else [] := by
  by_cases h : m.round = round <;> simp [ofRound, h]

/-- No signer of a message has one in its round. -/
theorem hasSignerOf_eq_false_iff {m : SignedMessage S} :
    t.hasSignerOf m = false ↔
      ∀ x ∈ t.messages, x.round = m.round → ∀ id ∈ x.signers, id ∉ m.signers := by
  simp [hasSignerOf]

theorem hasSignerOf_eq_true_iff {m : SignedMessage S} : t.hasSignerOf m = true ↔
    ∃ x ∈ t.messages, x.round = m.round ∧ ∃ id ∈ x.signers, id ∈ m.signers := by
  simp [hasSignerOf, and_assoc]

theorem hasSignerOf_mono {t' : Tally S} {m : SignedMessage S} (hsub : t.messages ⊆ t'.messages)
    (h : t.hasSignerOf m = true) : t'.hasSignerOf m = true := by
  obtain ⟨x, hx, hshared⟩ := hasSignerOf_eq_true_iff.1 h
  exact hasSignerOf_eq_true_iff.2 ⟨x, hsub hx, hshared⟩

theorem hasSignerOf_add_self (t : Tally S) {m : SignedMessage S} (h : m.signers ≠ []) :
    (t.add m).hasSignerOf m = true := by
  obtain ⟨id, hid⟩ := List.exists_mem_of_ne_nil _ h
  exact hasSignerOf_eq_true_iff.2 ⟨m, List.mem_append_right _ List.mem_cons_self, rfl, id, hid, hid⟩

theorem addFirst?_eq_none_iff {m : SignedMessage S} :
    t.addFirst? m = none ↔ t.hasSignerOf m = true := by
  unfold addFirst?
  split <;> simp [*]

theorem addFirst?_eq_some {m : SignedMessage S} {t' : Tally S} (h : t.addFirst? m = some t') :
    t.hasSignerOf m = false ∧ t' = t.add m := by
  unfold addFirst? at h
  split at h
  · cases h
  · rename_i hnew
    exact ⟨by simpa using hnew, (Option.some.inj h).symm⟩

theorem chosenFrom_uniqueSigners (t : Tally S) (round : Round) (root : Digest) :
    (t.uniqueSigners round root).ChosenFrom (t.candidates round root) := by
  refine UniqueSigners.chosenFrom_best [] (fun m hm => ?_)
    (UniqueSigners.chosenFrom_empty _)
  exact (of_decide_eq_true (List.mem_filter.1 hm).2).2

/-- What is counted are messages of the round for the value. -/
theorem mem_uniqueSigners {m : SignedMessage S} (hm : m ∈ (t.uniqueSigners round root).messages) :
    m ∈ t.ofRound round ∧ m.message.valueRoot? = some root := by
  obtain ⟨hm, hroot⟩ :=
    List.mem_filter.1 ((t.chosenFrom_uniqueSigners round root).sublist.subset hm)
  exact ⟨hm, (of_decide_eq_true hroot).1⟩

/-- The signers that have a message in a round. -/
def heard (t : Tally S) (round : Round) : Finset OperatorId :=
  ((t.ofRound round).flatMap SignedMessage.signers).toFinset

/-- The signers that have a message in a round for a value. -/
def voters (t : Tally S) (round : Round) (root : Digest) : Finset OperatorId :=
  ((t.candidates round root).flatMap SignedMessage.signers).toFinset

theorem mem_heard {id : OperatorId} :
    id ∈ t.heard round ↔ ∃ m ∈ t.messages, m.round = round ∧ id ∈ m.signers := by
  simp [heard, and_assoc]

theorem mem_voters {id : OperatorId} : id ∈ t.voters round root ↔ ∃ m ∈ t.messages,
    m.round = round ∧ m.message.valueRoot? = some root ∧ m.signers.Nodup ∧ id ∈ m.signers := by
  simp [voters, candidates, and_assoc]

section Add

variable {m : SignedMessage S} {id : OperatorId}

/-- A message of one signer is refused if the signer has one in its round. -/
theorem hasSignerOf_iff_mem_heard (hsigners : m.signers = [id]) :
    t.hasSignerOf m = true ↔ id ∈ t.heard m.round := by
  simp [hasSignerOf_eq_true_iff, mem_heard, hsigners]

theorem heard_add (hsigners : m.signers = [id]) :
    (t.add m).heard m.round = insert id (t.heard m.round) := by
  rw [heard, ofRound_add, if_pos rfl, List.flatMap_append, List.flatMap_singleton, hsigners]
  ext x
  simp [heard]

theorem heard_add_of_ne (hround : m.round ≠ round) : (t.add m).heard round = t.heard round := by
  rw [heard, ofRound_add, if_neg hround, List.append_nil, heard]

theorem voters_add (hsigners : m.signers = [id]) (hroot : m.message.valueRoot? = some root) :
    (t.add m).voters m.round root = insert id (t.voters m.round root) := by
  rw [voters, candidates, ofRound_add, if_pos rfl, List.filter_append, List.flatMap_append]
  ext x
  simp [voters, candidates, hroot, hsigners]

end Add

/-- As long as no signer has two messages in a round, everyone who has one for the value counts. -/
theorem size_uniqueSigners (h : ((t.ofRound round).flatMap SignedMessage.signers).Nodup) :
    (t.uniqueSigners round root).size = (t.voters round root).card := by
  have hnodup : ((t.candidates round root).flatMap SignedMessage.signers).Nodup :=
    h.sublist (List.filter_sublist.flatMap _)
  rw [voters, List.toFinset_card_of_nodup hnodup]
  exact UniqueSigners.size_best_of_nodup hnodup

/-- Then everyone who has one for the value is found. -/
theorem toFinset_uniqueSigners (h : ((t.ofRound round).flatMap SignedMessage.signers).Nodup) :
    (t.uniqueSigners round root).signers.toFinset = t.voters round root := by
  have hchosen := t.chosenFrom_uniqueSigners round root
  refine Finset.eq_of_subset_of_card_le (fun id hid => ?_) ?_
  · rw [List.mem_toFinset, hchosen.signers_eq] at hid
    exact List.mem_toFinset.2 ((hchosen.sublist.flatMap _).subset hid)
  · rw [List.toFinset_card_of_nodup hchosen.nodup, ← size_uniqueSigners h]
    rfl

end Tally

end Conclave
