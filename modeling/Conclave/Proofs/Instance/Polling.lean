import Conclave.Proofs.Instance.Justification

/-!
# The order of votes

Votes may arrive in any order. Once an instance has accepted a proposal, prepares and commits only
count towards two ballots, one for each kind: a ballot knows who has been heard in the round, who
has voted for the value, and whether a quorum has been seen. Which vote completes a quorum, and with
which signatures a decision is combined, depends on the order; that a quorum is seen does not.

* `Ballot.cast` counts a vote, and votes are counted in any order (`Ballot.foldl_cast_perm`);
* `onPrepare_eq` and `onCommit_eq` say what an instance does with a vote that it counts;
* `Polled` says what becomes of an instance when the votes of some signers are counted, one vote
  (`polled_receive`) or a list (`polled_play`);
* `votes_commute`: two orders of one list have the `SameOutcome`.
-/

namespace Conclave
namespace Instance

variable {S : Scheme}

/-! ### Ballots -/

/-- The votes of one kind in a round: who has one, who has one for the value, and whether those were
a quorum at some time. -/
structure Ballot where
  heard : Finset OperatorId
  voters : Finset OperatorId
  passed : Bool

namespace Ballot

variable {quorum : Nat} {b : Ballot} {id : OperatorId}

/-- The ballot with the vote of a signer. Its first vote in the round counts. -/
def cast (quorum : Nat) (b : Ballot) (id : OperatorId) : Ballot :=
  if id ∈ b.heard then b
  else
    ⟨insert id b.heard, insert id b.voters, b.passed || quorum ≤ (insert id b.voters).card⟩

/-- Whether a ballot passes on the way to a later one. -/
def passes (b later : Ballot) : Bool := !b.passed && later.passed

theorem cast_of_mem (h : id ∈ b.heard) : b.cast quorum id = b := if_pos h

theorem cast_of_notMem (h : id ∉ b.heard) : b.cast quorum id =
    ⟨insert id b.heard, insert id b.voters, b.passed || quorum ≤ (insert id b.voters).card⟩ :=
  if_neg h

theorem heard_subset_cast : b.heard ⊆ (b.cast quorum id).heard := by
  unfold cast
  split
  · exact Finset.Subset.refl _
  · exact Finset.subset_insert _ _

theorem passed_cast (h : b.passed = true) : (b.cast quorum id).passed = true := by
  unfold cast
  split
  · exact h
  · simp [h]

theorem passed_foldl_cast {ids : List OperatorId} (h : b.passed = true) :
    (ids.foldl (cast quorum) b).passed = true := by
  induction ids generalizing b with
  | nil => exact h
  | cons id ids ih => exact ih (passed_cast h)

theorem foldl_cast_of_heard {ids : List OperatorId} (h : ∀ id ∈ ids, id ∈ b.heard) :
    ids.foldl (cast quorum) b = b := by
  induction ids with
  | nil => rfl
  | cons id ids ih =>
    obtain ⟨hid, hids⟩ := List.forall_mem_cons.1 h
    rw [List.foldl_cons, cast_of_mem hid]
    exact ih hids

/-- Two votes may be counted in either order. -/
theorem cast_comm (quorum : Nat) (b : Ballot) (x y : OperatorId) :
    (b.cast quorum x).cast quorum y = (b.cast quorum y).cast quorum x := by
  by_cases hx : x ∈ b.heard
  · rw [cast_of_mem hx, cast_of_mem (heard_subset_cast hx)]
  by_cases hy : y ∈ b.heard
  · rw [cast_of_mem hy, cast_of_mem (heard_subset_cast hy)]
  rcases eq_or_ne x y with rfl | hne
  · rfl
  have hy' : y ∉ insert x b.heard := by simp [hy, hne.symm]
  have hx' : x ∉ insert y b.heard := by simp [hx, hne]
  rw [cast_of_notMem hx, cast_of_notMem hy, cast_of_notMem hy', cast_of_notMem hx',
    Finset.insert_comm y x b.heard, Finset.insert_comm y x b.voters]
  -- a quorum after the first vote is one after both
  have hgrow (z : OperatorId) (ids : Finset OperatorId) : ids.card ≤ (insert z ids).card :=
    Finset.card_le_card (Finset.subset_insert z ids)
  have hfirst := hgrow y (insert x b.voters)
  have hsecond := hgrow x (insert y b.voters)
  rw [Finset.insert_comm y x b.voters] at hfirst
  congr 1
  rw [Bool.eq_iff_iff]
  simp only [Bool.or_eq_true, decide_eq_true_eq]
  constructor
  · rintro ((hpassed | hquorum) | hquorum)
    · exact .inl (.inl hpassed)
    · exact .inr (hquorum.trans hfirst)
    · exact .inr hquorum
  · rintro ((hpassed | hquorum) | hquorum)
    · exact .inl (.inl hpassed)
    · exact .inr (hquorum.trans hsecond)
    · exact .inr hquorum

theorem foldl_cast_perm {ids ids' : List OperatorId} (h : ids.Perm ids') :
    ids.foldl (cast quorum) b = ids'.foldl (cast quorum) b :=
  h.foldl_eq' (fun x _ y _ b => cast_comm quorum b x y) b

theorem passes_self : b.passes b = false := by
  unfold passes
  cases b.passed <;> rfl

/-- A ballot that passes on the way over another one passes before or after it. -/
theorem passes_cases {later latest : Ballot} (h : b.passed = true → later.passed = true)
    (h' : later.passed = true → latest.passed = true) :
    b.passes later = false ∧ later.passes latest = b.passes latest ∨
      later.passes latest = false ∧ b.passes later = b.passes latest := by
  unfold passes
  cases hlater : later.passed with
  | true => exact .inr ⟨rfl, by rw [h' hlater]⟩
  | false =>
    have hb : b.passed = false := by
      rw [← Bool.not_eq_true] at hlater ⊢
      exact mt h hlater
    rw [hb]
    exact .inl ⟨rfl, rfl⟩

end Ballot

/-- The prepares of an instance in a round, for a value. They have passed if the value is prepared
there. -/
def prepareBallot (s : Instance S) (round : Round) (value : Value S) : Ballot :=
  ⟨s.prepares.heard round, s.prepares.voters round value.root, s.prepared = some ⟨round, value⟩⟩

/-- The commits of an instance in a round, for a value. They have passed if it has decided. -/
def commitBallot (s : Instance S) (round : Round) (value : Value S) : Ballot :=
  ⟨s.commits.heard round, s.commits.voters round value.root, s.isDecided⟩

theorem passed_commitBallot {s : Instance S} {round : Round} {value : Value S} :
    (s.commitBallot round value).passed = s.isDecided := rfl

/-! ### Counting a vote -/

section Counting

variable {seat : Seat S} {net : Network S} {height : Height} {s : Instance S}
  {m : SignedMessage S} {id : OperatorId} {value : Value S}

theorem addFirst?_eq_of_heard {t : Tally S} (hsigners : m.signers = [id]) : t.addFirst? m =
    if id ∈ t.heard m.round then none else some (t.add m) := by
  unfold Tally.addFirst?
  exact if_congr (Tally.hasSignerOf_iff_mem_heard hsigners) rfl rfl

/-- The signers that are counted in a tally with a new vote are those who have voted. -/
theorem isQuorum_add_iff {t : Tally S} (h : OnePerSigner t) (hsigners : m.signers = [id])
    (hnew : id ∉ t.heard m.round) (root : Digest) :
    seat.committee.thresholds.isQuorum ((t.add m).uniqueSigners m.round root).size = true ↔
      seat.committee.quorum ≤ ((t.add m).voters m.round root).card := by
  have hfirst : t.hasSignerOf m = false := by
    rw [← Bool.not_eq_true, Tally.hasSignerOf_iff_mem_heard hsigners]
    exact hnew
  rw [Committee.isQuorum_iff, Tally.size_uniqueSigners ((h.add ⟨id, hsigners⟩ hfirst).nodup m.round)]

/-- What an instance does with a prepare that is valid. -/
theorem onPrepare_eq (hvalid : validateVote seat s m = .ok ()) (hsigners : m.signers = [id])
    (hvalue : s.acceptedValue? = some value) (hone : OnePerSigner s.prepares) :
    onPrepare seat net s m =
      if id ∈ s.prepares.heard m.round then .done s ()
      else if s.prepared ≠ some ⟨m.round, value⟩ ∧ seat.committee.quorum ≤
          ((s.prepares.add m).voters m.round value.root).card then
        send net { s with prepares := s.prepares.add m, prepared := some ⟨m.round, value⟩ }
          (sign seat s m.round (.commit value.root))
      else .done { s with prepares := s.prepares.add m } () := by
  unfold onPrepare
  rw [hvalid, addFirst?_eq_of_heard hsigners]
  dsimp only
  by_cases hheard : id ∈ s.prepares.heard m.round
  · rw [if_pos hheard, if_pos hheard]
  rw [if_neg hheard, if_neg hheard]
  dsimp only [acceptedValue?] at hvalue ⊢
  rw [hvalue]
  dsimp only
  by_cases hprepared : s.prepared = some ⟨m.round, value⟩
  · rw [if_pos hprepared, if_neg fun h => h.1 hprepared]
  rw [if_neg hprepared]
  refine if_congr ?_ rfl rfl
  rw [isQuorum_add_iff hone hsigners hheard]
  exact ⟨fun h => ⟨hprepared, h⟩, fun h => h.2⟩

/-- What an instance does with a commit that is valid. A decision comes with the commits of the
quorum, combined into one. -/
theorem onCommit_eq (h : Coherent seat height s) (hreach : Reaches seat s m)
    (htype : m.type = .commit) (hvalid : validateVote seat s m = .ok ())
    (hsigners : m.signers = [id]) (hvalue : s.acceptedValue? = some value)
    (hone : s.decided = none → OnePerSigner s.commits) :
    ∃ commit, (id ∉ s.commits.heard m.round → s.decided = none → seat.committee.quorum ≤
        ((s.commits.add m).voters m.round value.root).card → SignedMessage.aggregate
          ((s.commits.add m).uniqueSigners m.round value.root).messages = .ok commit) ∧
      onCommit seat s m =
        if id ∈ s.commits.heard m.round then .done s none
        else if s.decided = none ∧ seat.committee.quorum ≤
            ((s.commits.add m).voters m.round value.root).card then
          decide { s with commits := s.commits.add m } value commit
        else .done { s with commits := s.commits.add m } none := by
  unfold onCommit
  rw [hvalid, addFirst?_eq_of_heard hsigners]
  dsimp only
  by_cases hheard : id ∈ s.commits.heard m.round
  · exact ⟨m, fun hnew => absurd hheard hnew, by rw [if_pos hheard, if_pos hheard]⟩
  rw [if_neg hheard]
  simp only [if_neg hheard]
  cases hdecided : s.decided with
  | some decided =>
    refine ⟨m, nofun, ?_⟩
    rw [if_pos (by simp [isDecided]), if_neg (by simp)]
  | none =>
    rw [if_neg (by simp [isDecided])]
    dsimp only [acceptedValue?] at hvalue ⊢
    rw [hvalue]
    dsimp only
    have hiff : seat.committee.thresholds.isQuorum _ = true ↔ _ :=
      isQuorum_add_iff (hone hdecided) hsigners hheard value.root
    by_cases hquorum : seat.committee.quorum ≤ ((s.commits.add m).voters m.round value.root).card
    · obtain ⟨-, -, -, -, hsingle, hverify⟩ := validateVote_eq_ok_iff.1 hvalid
      have hfiled : Filed seat height .commit (s.commits.add m) :=
        (h.commits hdecided).add (h.height_eq ▸ hreach.isMessageOf htype hverify)
      obtain ⟨commit, hcommit⟩ := exists_aggregate_of_quorum hfiled
        (size_pos_of_verify hsingle hverify) (Committee.isQuorum_iff.1 (hiff.2 hquorum))
      refine ⟨commit, fun _ _ _ => hcommit, ?_⟩
      rw [if_pos (hiff.2 hquorum), if_pos ⟨rfl, hquorum⟩, hcommit]
    · refine ⟨m, fun _ _ h => absurd h hquorum, ?_⟩
      rw [if_neg (mt hiff.1 hquorum), if_neg fun h => hquorum h.2]

end Counting

/-! ### What becomes of an instance -/

/-- What becomes of an instance in a round when the votes of some signers for a value are counted,
those to prepare and those to commit. -/
structure Polled (seat : Seat S) (round : Round) (value : Value S) (t : Trace S)
    (prepares commits : List OperatorId) (u : Trace S) : Prop where
  height_eq : u.state.height = t.state.height
  round_eq : u.state.round = t.state.round
  accepted_eq : u.state.accepted = t.state.accepted
  prepares_eq : u.state.prepareBallot round value =
    prepares.foldl (Ballot.cast seat.committee.quorum) (t.state.prepareBallot round value)
  commits_eq : u.state.commitBallot round value =
    commits.foldl (Ballot.cast seat.committee.quorum) (t.state.commitBallot round value)
  elsewhere : ∀ r, round ≠ r → u.state.prepares.heard r = t.state.prepares.heard r ∧
    u.state.commits.heard r = t.state.commits.heard r
  prepared_eq : u.state.prepared =
    if (u.state.prepareBallot round value).passed then some ⟨round, value⟩ else t.state.prepared
  decided_eq : u.state.decided = if t.state.isDecided then t.state.decided
    else if u.state.isDecided then some value else none
  sent_eq : u.sent = t.sent ++
    if (t.state.prepareBallot round value).passes (u.state.prepareBallot round value) then
      [sign seat t.state round (.commit value.root)] else []
  decisions_eq : u.decisions.length = t.decisions.length +
    if (t.state.commitBallot round value).passes (u.state.commitBallot round value) then 1 else 0

namespace Polled

variable {seat : Seat S} {round : Round} {value : Value S} {t u w : Trace S}
  {prepares commits prepares' commits' : List OperatorId}

theorem passed_prepares (h : Polled seat round value t prepares commits u)
    (hpassed : (t.state.prepareBallot round value).passed = true) :
    (u.state.prepareBallot round value).passed = true := by
  rw [h.prepares_eq]
  exact Ballot.passed_foldl_cast hpassed

theorem passed_commits (h : Polled seat round value t prepares commits u)
    (hpassed : (t.state.commitBallot round value).passed = true) :
    (u.state.commitBallot round value).passed = true := by
  rw [h.commits_eq]
  exact Ballot.passed_foldl_cast hpassed

/-- Votes of signers that have been heard change nothing. -/
theorem of_heard (hprepares : ∀ id ∈ prepares, id ∈ t.state.prepares.heard round)
    (hcommits : ∀ id ∈ commits, id ∈ t.state.commits.heard round) :
    Polled seat round value t prepares commits t where
  height_eq := rfl
  round_eq := rfl
  accepted_eq := rfl
  prepares_eq := (Ballot.foldl_cast_of_heard hprepares).symm
  commits_eq := (Ballot.foldl_cast_of_heard hcommits).symm
  elsewhere _ _ := ⟨rfl, rfl⟩
  prepared_eq := by
    split
    · rename_i hpassed
      exact of_decide_eq_true hpassed
    · rfl
  decided_eq := by
    cases hdecided : t.state.decided <;> simp [isDecided, hdecided]
  sent_eq := by rw [Ballot.passes_self]; simp
  decisions_eq := by rw [Ballot.passes_self]; simp

/-- A poll among the prepares: one of them is stored, and the value may become prepared. -/
theorem of_prepare {tally : Tally S} {p : Option (Prepared S)} {id : OperatorId}
    {effects : List (Effect S)}
    (hcast : prepareBallot { t.state with prepares := tally, prepared := p } round value =
      (t.state.prepareBallot round value).cast seat.committee.quorum id)
    (helsewhere : ∀ r, round ≠ r → tally.heard r = t.state.prepares.heard r)
    (hp : p = some ⟨round, value⟩ ∨ p = t.state.prepared)
    (hsent : sentBy effects =
      if t.state.prepared ≠ some ⟨round, value⟩ ∧ p = some ⟨round, value⟩ then
        [sign seat t.state round (.commit value.root)] else []) :
    Polled seat round value t [id] []
      (t.after effects [] { t.state with prepares := tally, prepared := p }) where
  height_eq := rfl
  round_eq := rfl
  accepted_eq := rfl
  prepares_eq := hcast
  commits_eq := rfl
  elsewhere r hr := ⟨helsewhere r hr, rfl⟩
  prepared_eq := by
    rcases hp with rfl | rfl
    · simp [prepareBallot]
    · split
      · rename_i hpassed
        exact of_decide_eq_true hpassed
      · rfl
  decided_eq := by
    cases hdecided : t.state.decided <;> simp [isDecided, hdecided]
  sent_eq := by
    rw [Trace.after, hsent]
    refine congrArg _ (if_congr ?_ rfl rfl)
    simp [Ballot.passes, prepareBallot]
  decisions_eq := by
    have hsame : commitBallot { t.state with prepares := tally, prepared := p } round value =
        t.state.commitBallot round value := rfl
    rw [Trace.state_after, hsame, Ballot.passes_self]
    simp [Trace.after]

/-- A poll among the commits: one of them is stored, and the instance may decide. -/
theorem of_commit {tally : Tally S} {d : Option (Value S)} {id : OperatorId}
    {effects : List (Effect S)} {decisions : List (Decision S)}
    (hcast : commitBallot { t.state with commits := tally, decided := d } round value =
      (t.state.commitBallot round value).cast seat.committee.quorum id)
    (helsewhere : ∀ r, round ≠ r → tally.heard r = t.state.commits.heard r)
    (hd : d = t.state.decided ∨ t.state.decided = none ∧ d = some value)
    (hsent : sentBy effects = [])
    (hdecisions : decisions.length =
      if t.state.decided = none ∧ d.isSome = true then 1 else 0) :
    Polled seat round value t [] [id]
      (t.after effects decisions { t.state with commits := tally, decided := d }) where
  height_eq := rfl
  round_eq := rfl
  accepted_eq := rfl
  prepares_eq := rfl
  commits_eq := hcast
  elsewhere r hr := ⟨rfl, helsewhere r hr⟩
  prepared_eq := by
    split
    · rename_i hpassed
      exact of_decide_eq_true hpassed
    · rfl
  decided_eq := by
    rcases hd with rfl | ⟨hopen, rfl⟩
    · cases hdecided : t.state.decided <;> simp [isDecided, hdecided]
    · simp [isDecided, hopen]
  sent_eq := by
    have hsame : prepareBallot { t.state with commits := tally, decided := d } round value =
        t.state.prepareBallot round value := rfl
    rw [Trace.state_after, hsame, Ballot.passes_self]
    simp [Trace.after, hsent]
  decisions_eq := by
    rw [Trace.after, List.length_append, hdecisions]
    refine congrArg _ (if_congr ?_ rfl rfl)
    simp [Ballot.passes, commitBallot, isDecided]

/-- Two polls in a row. -/
theorem trans (h : Polled seat round value t prepares commits u)
    (h' : Polled seat round value u prepares' commits' w) :
    Polled seat round value t (prepares ++ prepares') (commits ++ commits') w where
  height_eq := h'.height_eq.trans h.height_eq
  round_eq := h'.round_eq.trans h.round_eq
  accepted_eq := h'.accepted_eq.trans h.accepted_eq
  prepares_eq := by rw [h'.prepares_eq, h.prepares_eq, List.foldl_append]
  commits_eq := by rw [h'.commits_eq, h.commits_eq, List.foldl_append]
  elsewhere r hr := ⟨(h'.elsewhere r hr).1.trans (h.elsewhere r hr).1,
    (h'.elsewhere r hr).2.trans (h.elsewhere r hr).2⟩
  prepared_eq := by
    rw [h'.prepared_eq]
    split
    · rfl
    · rename_i hnot
      rw [h.prepared_eq, if_neg (mt h'.passed_prepares hnot)]
  decided_eq := by
    have hfirst : t.state.isDecided = true → u.state.isDecided = true := h.passed_commits
    have hsecond : u.state.isDecided = true → w.state.isDecided = true := h'.passed_commits
    rw [h'.decided_eq]
    by_cases hdecided : u.state.isDecided = true
    · rw [if_pos hdecided, h.decided_eq, if_pos hdecided, if_pos (hsecond hdecided)]
    · rw [if_neg hdecided, if_neg (mt hfirst hdecided)]
  sent_eq := by
    have hsame : sign seat u.state round (.commit value.root) =
        sign seat t.state round (.commit value.root) := by
      rw [sign, sign, h.height_eq]
    rw [h'.sent_eq, h.sent_eq, hsame]
    rcases Ballot.passes_cases h.passed_prepares h'.passed_prepares with ⟨hno, heq⟩ | ⟨hno, heq⟩
    · rw [hno, heq]
      simp
    · rw [hno, heq]
      simp
  decisions_eq := by
    rw [h'.decisions_eq, h.decisions_eq]
    rcases Ballot.passes_cases h.passed_commits h'.passed_commits with ⟨hno, heq⟩ | ⟨hno, heq⟩
    · rw [hno, heq]
      simp
    · rw [hno, heq]
      simp

end Polled

/-- Two runs have got to the same place: the same round, proposal, preparation and decision, with
the same signers heard in each round and the same messages sent. They have decided equally often,
though perhaps with other signatures. -/
structure SameOutcome (u w : Trace S) : Prop where
  round_eq : u.state.round = w.state.round
  accepted_eq : u.state.accepted = w.state.accepted
  prepared_eq : u.state.prepared = w.state.prepared
  decided_eq : u.state.decided = w.state.decided
  prepares_eq : ∀ r, u.state.prepares.heard r = w.state.prepares.heard r
  commits_eq : ∀ r, u.state.commits.heard r = w.state.commits.heard r
  sent_eq : u.sent = w.sent
  decisions_eq : u.decisions.length = w.decisions.length

/-- Where votes lead does not depend on their order. -/
theorem Polled.sameOutcome {seat : Seat S} {round : Round} {value : Value S} {t u w : Trace S}
    {prepares commits prepares' commits' : List OperatorId}
    (h : Polled seat round value t prepares commits u)
    (h' : Polled seat round value t prepares' commits' w)
    (hprepares : prepares.Perm prepares') (hcommits : commits.Perm commits') :
    SameOutcome u w := by
  have hprepareBallot : u.state.prepareBallot round value = w.state.prepareBallot round value := by
    rw [h.prepares_eq, h'.prepares_eq, Ballot.foldl_cast_perm hprepares]
  have hcommitBallot : u.state.commitBallot round value = w.state.commitBallot round value := by
    rw [h.commits_eq, h'.commits_eq, Ballot.foldl_cast_perm hcommits]
  have hdecided : u.state.isDecided = w.state.isDecided := congrArg Ballot.passed hcommitBallot
  constructor
  case round_eq => rw [h.round_eq, h'.round_eq]
  case accepted_eq => rw [h.accepted_eq, h'.accepted_eq]
  case prepared_eq => rw [h.prepared_eq, h'.prepared_eq, hprepareBallot]
  case decided_eq => rw [h.decided_eq, h'.decided_eq, hdecided]
  case prepares_eq =>
    intro r
    rcases eq_or_ne round r with rfl | hr
    · exact congrArg Ballot.heard hprepareBallot
    · exact (h.elsewhere r hr).1.trans (h'.elsewhere r hr).1.symm
  case commits_eq =>
    intro r
    rcases eq_or_ne round r with rfl | hr
    · exact congrArg Ballot.heard hcommitBallot
    · exact (h.elsewhere r hr).2.trans (h'.elsewhere r hr).2.symm
  case sent_eq => rw [h.sent_eq, h'.sent_eq, hprepareBallot]
  case decisions_eq => rw [h.decisions_eq, h'.decisions_eq, hcommitBallot]

/-! ### Lists of votes -/

/-- A vote of some kind counts for the accepted proposal. -/
def Counts (seat : Seat S) (s : Instance S) (type : MessageType) (m : SignedMessage S) : Prop :=
  m.type = type ∧ validateBase seat s m = .ok () ∧ validateVote seat s m = .ok ()

instance (seat : Seat S) (s : Instance S) (type : MessageType) (m : SignedMessage S) :
    Decidable (Counts seat s type m) :=
  inferInstanceAs (Decidable (_ ∧ _ ∧ _))

/-- The signers of the votes that count, one after the other. -/
def votesOf (seat : Seat S) (s : Instance S) (type : MessageType) (ms : List (SignedMessage S)) :
    List OperatorId :=
  (ms.filter fun m => Counts seat s type m).flatMap SignedMessage.signers

/-- An instance that still runs and has accepted a proposal of a value in its round. -/
structure Voting (seat : Seat S) (height : Height) (round : Round) (value : Value S) (t : Trace S) :
    Prop where
  run : Run seat height t
  running : t.state.stopped seat = false
  round_eq : t.state.round = round
  accepted : t.state.acceptedValue? = some value

section Lists

variable {seat : Seat S} {height : Height} {round : Round} {value : Value S} {t u : Trace S}
  {s : Instance S} {m : SignedMessage S} {id : OperatorId} {type : MessageType}
  {prepares commits : List OperatorId} {ms ms' : List (SignedMessage S)}

/-- Whether a vote counts depends on the height, the round and the accepted proposal. -/
theorem counts_congr {s' : Instance S} (hheight : s'.height = s.height)
    (hround : s'.round = s.round) (haccepted : s'.accepted = s.accepted) :
    Counts seat s' type m ↔ Counts seat s type m := by
  simp only [Counts, validateBase_eq_ok_iff, validateVote_eq_ok_iff, hheight, hround, haccepted]

theorem votesOf_perm (h : ms.Perm ms') : (votesOf seat s type ms).Perm (votesOf seat s type ms') :=
  (h.filter _).flatMap_right _

theorem votesOf_cons (type : MessageType) : votesOf seat s type (m :: ms) =
    votesOf seat s type [m] ++ votesOf seat s type ms := by
  rw [votesOf, votesOf, votesOf, ← List.flatMap_append, ← List.filter_append, List.singleton_append]

theorem votesOf_of_not (h : ¬ Counts seat s type m) : votesOf seat s type [m] = [] := by
  simp [votesOf, h]

theorem votesOf_of_counts (h : Counts seat s type m) (hsigners : m.signers = [id]) :
    votesOf seat s type [m] = [id] := by
  simp [votesOf, h, hsigners]

theorem Polled.voting (h : Voting seat height round value t)
    (hpolled : Polled seat round value t prepares commits u) (hrun : Run seat height u) :
    Voting seat height round value u where
  run := hrun
  running := by
    rw [stopped, hpolled.round_eq]
    exact h.running
  round_eq := hpolled.round_eq.trans h.round_eq
  accepted := by
    rw [acceptedValue?, hpolled.accepted_eq]
    exact h.accepted

/-- A vote that counts is by one signer, for the value in the round. -/
theorem Voting.of_counts (h : Voting seat height round value t)
    (hcounts : Counts seat t.state type m) :
    Reaches seat t.state m ∧ (∃ id, m.signers = [id]) ∧ m.round = round ∧
      m.message.valueRoot? = some value.root := by
  obtain ⟨-, hbase, hvalid⟩ := hcounts
  obtain ⟨hid, hheight, hle⟩ := validateBase_eq_ok_iff.1 hbase
  obtain ⟨proposal, haccepted, hround, hroot, hsingle, -⟩ := validateVote_eq_ok_iff.1 hvalid
  refine ⟨⟨h.running, hid, hheight, hle⟩, hsingle, ?_, ?_⟩
  · rw [hround, h.run.collected.accepted haccepted, h.round_eq]
  · have hvalue := h.accepted
    rw [acceptedValue?, haccepted, Option.bind_some] at hvalue
    rw [hroot, Message.valueRoot?_eq_some hvalue]

/-- A vote that does not count is turned away. -/
theorem receive_of_not_counts (net : Network S) (htype : m.type = .prepare ∨ m.type = .commit)
    (h : ¬ Counts seat s m.type m) :
    ∃ e, e.isRejection = true ∧ receive seat net s m = .refuse s e := by
  unfold receive
  split
  · exact ⟨_, rfl, rfl⟩
  cases hbase : validateBase seat s m with
  | error e => exact ⟨e, rejects_validateBase e hbase, rfl⟩
  | ok =>
    cases hvalid : validateVote seat s m with
    | ok => exact absurd ⟨rfl, hbase, hvalid⟩ h
    | error e =>
      refine ⟨e, rejects_validateVote m e hvalid, ?_⟩
      rcases htype with htype | htype
      · rw [htype, onPrepare, hvalid]
        rfl
      · rw [htype, onCommit, hvalid]

theorem extend_of_not_counts (htype : m.type = .prepare ∨ m.type = .commit)
    (h : ¬ Counts seat t.state m.type m) :
    t.extend seat (Network.reliable S) (.receive m) = t := by
  obtain ⟨e, -, hrefused⟩ := receive_of_not_counts (Network.reliable S) htype h
  rw [Trace.extend, step, hrefused]
  exact Trace.after_nil

/-- A prepare of a new signer is counted, in whichever state it leaves the preparation. -/
theorem cast_prepareBallot (hsigners : m.signers = [id])
    (hroot : m.message.valueRoot? = some value.root) (hnew : id ∉ s.prepares.heard m.round)
    {p : Option (Prepared S)} (hp : p = some ⟨m.round, value⟩ ↔ s.prepared = some ⟨m.round, value⟩ ∨
      seat.committee.quorum ≤ ((s.prepares.add m).voters m.round value.root).card) :
    prepareBallot { s with prepares := s.prepares.add m, prepared := p } m.round value =
      (s.prepareBallot m.round value).cast seat.committee.quorum id := by
  rw [Ballot.cast_of_notMem hnew]
  simp only [prepareBallot, Tally.heard_add hsigners, Ballot.mk.injEq, true_and]
  rw [Tally.voters_add hsigners hroot] at hp ⊢
  refine ⟨rfl, ?_⟩
  rw [Bool.eq_iff_iff, Bool.or_eq_true, decide_eq_true_iff, decide_eq_true_iff, hp]
  exact or_congr_right decide_eq_true_iff.symm

/-- A commit of a new signer is counted, in whichever state it leaves the decision. -/
theorem cast_commitBallot (hsigners : m.signers = [id])
    (hroot : m.message.valueRoot? = some value.root) (hnew : id ∉ s.commits.heard m.round)
    {d : Option (Value S)} (hd : d.isSome = true ↔ s.isDecided = true ∨
      seat.committee.quorum ≤ ((s.commits.add m).voters m.round value.root).card) :
    commitBallot { s with commits := s.commits.add m, decided := d } m.round value =
      (s.commitBallot m.round value).cast seat.committee.quorum id := by
  rw [Ballot.cast_of_notMem hnew]
  simp only [commitBallot, isDecided, Tally.heard_add hsigners, Ballot.mk.injEq, true_and]
  rw [Tally.voters_add hsigners hroot] at hd ⊢
  refine ⟨rfl, ?_⟩
  rw [Bool.eq_iff_iff, Bool.or_eq_true, hd]
  exact or_congr_right decide_eq_true_iff.symm

theorem Voting.receive_prepare (net : Network S) (h : Voting seat height round value t)
    (hcounts : Counts seat t.state .prepare m) (hsigners : m.signers = [id]) :
    receive seat net t.state m = undecided
      (if id ∈ t.state.prepares.heard m.round then .done t.state ()
      else if t.state.prepared ≠ some ⟨m.round, value⟩ ∧ seat.committee.quorum ≤
          ((t.state.prepares.add m).voters m.round value.root).card then
        send net { t.state with
            prepares := t.state.prepares.add m
            prepared := some ⟨m.round, value⟩ }
          (sign seat t.state m.round (.commit value.root))
      else .done { t.state with prepares := t.state.prepares.add m } ()) := by
  obtain ⟨htype, hbase, hvalid⟩ := hcounts
  rw [← onPrepare_eq hvalid hsigners h.accepted h.run.collected.prepares.2]
  simp only [receive, h.running, Bool.false_eq_true, if_false, hbase, htype]

theorem Voting.receive_commit (net : Network S) (h : Voting seat height round value t)
    (hcounts : Counts seat t.state .commit m) (hsigners : m.signers = [id]) :
    ∃ commit, (id ∉ t.state.commits.heard m.round → t.state.decided = none →
        seat.committee.quorum ≤ ((t.state.commits.add m).voters m.round value.root).card →
          SignedMessage.aggregate
            ((t.state.commits.add m).uniqueSigners m.round value.root).messages = .ok commit) ∧
      receive seat net t.state m =
        if id ∈ t.state.commits.heard m.round then .done t.state none
        else if t.state.decided = none ∧ seat.committee.quorum ≤
            ((t.state.commits.add m).voters m.round value.root).card then
          decide { t.state with commits := t.state.commits.add m } value commit
        else .done { t.state with commits := t.state.commits.add m } none := by
  obtain ⟨hreach, -⟩ := h.of_counts hcounts
  obtain ⟨htype, hbase, hvalid⟩ := hcounts
  obtain ⟨commit, hcombined, hcommit⟩ := onCommit_eq h.run.coherent hreach htype hvalid hsigners
    h.accepted h.run.collected.commits
  refine ⟨commit, hcombined, ?_⟩
  rw [← hcommit]
  simp only [receive, h.running, Bool.false_eq_true, if_false, hbase, htype]

theorem polled_prepare (h : Voting seat height round value t)
    (hcounts : Counts seat t.state .prepare m) (hsigners : m.signers = [id]) :
    Polled seat round value t [id] [] (t.extend seat (Network.reliable S) (.receive m)) := by
  have hreceive := h.receive_prepare (Network.reliable S) hcounts hsigners
  obtain ⟨-, -, rfl, hroot⟩ := h.of_counts hcounts
  by_cases hheard : id ∈ t.state.prepares.heard m.round
  · rw [if_pos hheard] at hreceive
    have hsame : t.extend seat (Network.reliable S) (.receive m) = t := by
      rw [Trace.extend, step, hreceive]
      exact Trace.after_nil
    rw [hsame]
    exact .of_heard (List.forall_mem_singleton.2 hheard) (List.forall_mem_nil _)
  rw [if_neg hheard] at hreceive
  have helsewhere (r : Round) (hr : m.round ≠ r) :=
    Tally.heard_add_of_ne (t := t.state.prepares) hr
  by_cases hpass : t.state.prepared ≠ some ⟨m.round, value⟩ ∧
      seat.committee.quorum ≤ ((t.state.prepares.add m).voters m.round value.root).card
  · rw [if_pos hpass] at hreceive
    have hextend : t.extend seat (Network.reliable S) (.receive m) =
        t.after [.broadcast (sign seat t.state m.round (.commit value.root))] []
          { t.state with
            prepares := t.state.prepares.add m
            prepared := some ⟨m.round, value⟩ } := by
      rw [Trace.extend, step, hreceive]
      rfl
    rw [hextend]
    refine .of_prepare ?_ helsewhere (.inl rfl) (if_pos ⟨hpass.1, rfl⟩).symm
    exact cast_prepareBallot hsigners hroot hheard (iff_of_true rfl (.inr hpass.2))
  · rw [if_neg hpass] at hreceive
    have hextend : t.extend seat (Network.reliable S) (.receive m) =
        t.after [] [] { t.state with prepares := t.state.prepares.add m } := by
      rw [Trace.extend, step, hreceive]
      rfl
    rw [hextend]
    refine .of_prepare ?_ helsewhere (.inr rfl) (if_neg fun h => h.1 h.2).symm
    refine cast_prepareBallot hsigners hroot hheard ⟨.inl, fun hor => ?_⟩
    refine hor.elim (fun hold => hold) fun hquorum => ?_
    exact not_not.1 fun hfirst => hpass ⟨hfirst, hquorum⟩

theorem polled_commit (h : Voting seat height round value t)
    (hcounts : Counts seat t.state .commit m) (hsigners : m.signers = [id]) :
    Polled seat round value t [] [id] (t.extend seat (Network.reliable S) (.receive m)) := by
  obtain ⟨commit, -, hreceive⟩ := h.receive_commit (Network.reliable S) hcounts hsigners
  obtain ⟨-, -, rfl, hroot⟩ := h.of_counts hcounts
  by_cases hheard : id ∈ t.state.commits.heard m.round
  · rw [if_pos hheard] at hreceive
    have hsame : t.extend seat (Network.reliable S) (.receive m) = t := by
      rw [Trace.extend, step, hreceive]
      exact Trace.after_nil
    rw [hsame]
    exact .of_heard (List.forall_mem_nil _) (List.forall_mem_singleton.2 hheard)
  rw [if_neg hheard] at hreceive
  have helsewhere (r : Round) (hr : m.round ≠ r) :=
    Tally.heard_add_of_ne (t := t.state.commits) hr
  by_cases hpass : t.state.decided = none ∧
      seat.committee.quorum ≤ ((t.state.commits.add m).voters m.round value.root).card
  · rw [if_pos hpass] at hreceive
    have hextend : t.extend seat (Network.reliable S) (.receive m) =
        t.after [.cancel t.state.height] [⟨value, commit⟩]
          { t.state with commits := t.state.commits.add m, decided := some value } := by
      rw [Trace.extend, step, hreceive]
      rfl
    rw [hextend]
    refine .of_commit ?_ helsewhere (.inr ⟨hpass.1, rfl⟩) rfl (if_pos ⟨hpass.1, rfl⟩).symm
    exact cast_commitBallot hsigners hroot hheard (iff_of_true rfl (.inr hpass.2))
  · rw [if_neg hpass] at hreceive
    have hextend : t.extend seat (Network.reliable S) (.receive m) =
        t.after [] [] { t.state with commits := t.state.commits.add m } := by
      rw [Trace.extend, step, hreceive]
      rfl
    have hopen : ¬ (t.state.decided = none ∧ t.state.decided.isSome = true) := by
      rintro ⟨hnone, hsome⟩
      rw [hnone] at hsome
      cases hsome
    rw [hextend]
    refine .of_commit ?_ helsewhere (.inl rfl) rfl (if_neg hopen).symm
    refine cast_commitBallot hsigners hroot hheard ⟨.inl, fun hor => ?_⟩
    refine hor.elim (fun hold => hold) fun hquorum => ?_
    exact Option.isSome_iff_ne_none.2 fun hnone => hpass ⟨hnone, hquorum⟩

/-- One vote is counted, if it counts. -/
theorem polled_receive (h : Voting seat height round value t)
    (htype : m.type = .prepare ∨ m.type = .commit) :
    Polled seat round value t (votesOf seat t.state .prepare [m]) (votesOf seat t.state .commit [m])
      (t.extend seat (Network.reliable S) (.receive m)) := by
  by_cases hcounts : Counts seat t.state m.type m
  · obtain ⟨-, ⟨id, hsigners⟩, -, -⟩ := h.of_counts hcounts
    rcases htype with htype | htype
    · rw [htype] at hcounts
      have hother : ¬ Counts seat t.state .commit m := fun hc => nomatch htype.symm.trans hc.1
      rw [votesOf_of_counts hcounts hsigners, votesOf_of_not hother]
      exact polled_prepare h hcounts hsigners
    · rw [htype] at hcounts
      have hother : ¬ Counts seat t.state .prepare m := fun hc => nomatch htype.symm.trans hc.1
      rw [votesOf_of_counts hcounts hsigners, votesOf_of_not hother]
      exact polled_commit h hcounts hsigners
  · have hnot (type : MessageType) : ¬ Counts seat t.state type m := by
      rintro ⟨rfl, hvalid⟩
      exact hcounts ⟨rfl, hvalid⟩
    rw [extend_of_not_counts htype hcounts, votesOf_of_not (hnot _), votesOf_of_not (hnot _)]
    exact .of_heard nofun nofun

/-- All votes of a list are counted that count, one after the other. -/
theorem polled_play (h : Voting seat height round value t)
    (htype : ∀ m ∈ ms, m.type = .prepare ∨ m.type = .commit) :
    Polled seat round value t (votesOf seat t.state .prepare ms) (votesOf seat t.state .commit ms)
      (t.play seat (ms.map .receive)) := by
  induction ms generalizing t with
  | nil => exact .of_heard nofun nofun
  | cons m ms ih =>
    obtain ⟨hm, hms⟩ := List.forall_mem_cons.1 htype
    have hfirst := polled_receive h hm
    have hrest := ih (hfirst.voting h (h.run.next _ _)) hms
    -- the votes that count are the same after the first one
    have hsame (type : MessageType) : votesOf seat
        (t.extend seat (Network.reliable S) (.receive m)).state type ms =
          votesOf seat t.state type ms := by
      unfold votesOf
      congr 2
      funext x
      exact decide_eq_decide.2
        (counts_congr hfirst.height_eq hfirst.round_eq hfirst.accepted_eq)
    rw [hsame, hsame] at hrest
    rw [votesOf_cons .prepare, votesOf_cons .commit, List.map_cons, Trace.play_cons]
    exact hfirst.trans hrest

/-- A running instance that has accepted a proposal gets to the same place by any order of the same
prepares and commits, and decides at most once on the way. -/
theorem votes_commute (h : Run seat height t) (hrunning : t.state.stopped seat = false)
    (haccepted : t.state.accepted ≠ none)
    (htype : ∀ m ∈ ms, m.type = .prepare ∨ m.type = .commit) (hperm : ms.Perm ms') :
    SameOutcome (t.play seat (ms.map .receive)) (t.play seat (ms'.map .receive)) ∧
      (t.play seat (ms.map .receive)).decisions.length ≤ t.decisions.length + 1 := by
  obtain ⟨value, hvalue⟩ := h.coherent.exists_value_of_accepted haccepted
  have hvoting : Voting seat height t.state.round value t := ⟨h, hrunning, rfl, hvalue⟩
  have htype' : ∀ m ∈ ms', m.type = .prepare ∨ m.type = .commit :=
    fun m hm => htype m (hperm.mem_iff.2 hm)
  have hfirst := polled_play hvoting htype
  have hsecond := polled_play hvoting htype'
  refine ⟨hfirst.sameOutcome hsecond (votesOf_perm hperm) (votesOf_perm hperm), ?_⟩
  rw [hfirst.decisions_eq]
  refine Nat.add_le_add_left ?_ _
  split
  · exact le_rfl
  · exact Nat.zero_le 1

end Lists

namespace Interleaved

open Scheme

/-- Member 1 starts and accepts its own proposal. -/
def opening : Trace plain := (Trace.new Height.first).play plain.seat
  [.start plain.value, .receive (plain.message 1 (.propose plain.value [] []))]

/-- The votes of four members, with a prepare that comes twice and a commit to another value. -/
def votes : List (SignedMessage plain) :=
  [(3, .commit plain.value.root), (1, .prepare plain.value.root), (2, .prepare plain.value.root),
    (2, .commit plain.value.root), (2, .prepare plain.value.root), (3, .commit Digest.zero),
    (4, .commit plain.value.root), (4, .prepare plain.value.root), (1, .commit plain.value.root),
    (3, .prepare plain.value.root)].map fun vote => plain.message vote.1 vote.2

/-- What becomes of the votes in some order. -/
def poll (ms : List (SignedMessage plain)) : Trace plain :=
  opening.play plain.seat (ms.map .receive)

theorem type_of_mem_votes : ∀ m ∈ votes, m.type = .prepare ∨ m.type = .commit := by decide +kernel

theorem voting : Voting plain.seat Height.first Round.first plain.value opening :=
  ⟨Run.new.play _, by decide +kernel, by decide +kernel, by decide +kernel⟩

theorem polled_votes : Polled plain.seat Round.first plain.value opening
    (votesOf plain.seat opening.state .prepare votes)
    (votesOf plain.seat opening.state .commit votes) (poll votes) :=
  polled_play voting type_of_mem_votes

/-- The votes are enough for a decision, as counting them shows. -/
theorem decided_poll : (poll votes).state.decided = some plain.value ∧
    (poll votes).decisions.length = 1 := by
  have hopen : opening.state.isDecided = false := by decide +kernel
  have hdecided : (poll votes).state.isDecided = true := by
    rw [← passed_commitBallot, polled_votes.commits_eq]
    decide +kernel
  have hnone : opening.decisions.length = 0 := by decide +kernel
  constructor
  · rw [polled_votes.decided_eq, hopen, if_neg Bool.false_ne_true, if_pos hdecided]
  · rw [polled_votes.decisions_eq, hnone, Ballot.passes, passed_commitBallot, passed_commitBallot,
      hopen, hdecided]
    rfl

end Interleaved

/-- Backwards, where commits of others complete the quorum, the votes lead to the same decision. -/
theorem votes_commute_of_reversed :
    (Interleaved.poll Interleaved.votes).state.decided = some Scheme.plain.value ∧
      (Interleaved.poll Interleaved.votes.reverse).state.decided = some Scheme.plain.value ∧
      (Interleaved.poll Interleaved.votes.reverse).decisions.length = 1 ∧
      (Interleaved.poll Interleaved.votes).sent =
        (Interleaved.poll Interleaved.votes.reverse).sent := by
  obtain ⟨hvalue, hlength⟩ := Interleaved.decided_poll
  obtain ⟨hsame, -⟩ := votes_commute Interleaved.voting.run Interleaved.voting.running
    (by decide +kernel) Interleaved.type_of_mem_votes (List.reverse_perm Interleaved.votes).symm
  exact ⟨hvalue, hsame.decided_eq.symm.trans hvalue, hsame.decisions_eq.symm.trans hlength,
    hsame.sent_eq⟩

end Instance
end Conclave
