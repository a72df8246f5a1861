import Conclave.Proofs.Node.Heights

/-!
# What a node has stored

A node stores a decision only above the stored one, and not above its own height, so that what is
stored only grows and a node that has loaded it starts above all that was ever stored
(`stored_grows`).

A decision that is reached is stored, or one above it is, unless the failure is listed with it. A
decided message that leads to no decision is different: if it cannot be written it is accepted
nevertheless, and nothing tells of the failure (`accepted_unstored`).

* `Attempt` is what an attempt to store a decision does to an archive;
* `Filing` is what a call does to the archive of a node.
-/

namespace Conclave

variable {S : Scheme}

/-! ### Archives -/

/-- The test that looks up a stream is equality. -/
instance lawfulBytes : LawfulBEq ByteArray where
  rfl {b} := beq_self_eq_true b.data
  eq_of_beq h := ByteArray.ext (eq_of_beq h)

namespace Archive

variable {a : Archive S} {identifier other : ByteArray} {m : SignedMessage S}

/-- The number of heights up to the stored decision. -/
def reached (a : Archive S) (identifier : ByteArray) : ℕ :=
  (a.stored? identifier).elim 0 fun m => m.height.toNat + 1

theorem reached_eq (h : a.stored? identifier = some m) :
    a.reached identifier = m.height.toNat + 1 := by
  rw [reached, h]
  rfl

@[simp] theorem stored?_put (a : Archive S) (identifier : ByteArray) (m : SignedMessage S) :
    (a.put identifier m).stored? identifier = some m := List.lookup_cons_self

/-- Entries of other streams stay. -/
theorem stored?_put_of_ne (a : Archive S) (m : SignedMessage S) (hne : other ≠ identifier) :
    (a.put identifier m).stored? other = a.stored? other := by
  have hfilter : ∀ l : List (ByteArray × SignedMessage S),
      (l.filter fun entry => entry.1 ≠ identifier).lookup other = l.lookup other := by
    intro l
    induction l with
    | nil => rfl
    | cons entry l ih =>
      by_cases hentry : entry.1 = identifier
      · have hother : (other == entry.1) = false := by simpa [hentry] using hne
        rw [List.filter_cons_of_neg (by simpa using hentry), ih, List.lookup_cons, hother]
      · rw [List.filter_cons_of_pos (by simpa using hentry), List.lookup_cons, List.lookup_cons, ih]
  have hother : (other == identifier) = false := by simpa using hne
  rw [stored?, put, List.lookup_cons, hother]
  exact hfilter a.decisions

end Archive

namespace Node

/-- The messages that effects store, whether or not it succeeds. -/
def savedBy (effects : List (Effect S)) : List (SignedMessage S) :=
  effects.filterMap fun
    | .save m => some m
    | _ => none

@[simp] theorem savedBy_append (effects effects' : List (Effect S)) :
    savedBy (effects ++ effects') = savedBy effects ++ savedBy effects' :=
  List.filterMap_append

theorem mem_savedBy {effects : List (Effect S)} {m : SignedMessage S} :
    m ∈ savedBy effects ↔ .save m ∈ effects := by
  rw [savedBy, List.mem_filterMap]
  constructor
  · rintro ⟨effect, hmem, heq⟩
    cases effect with
    | save x =>
      obtain rfl := Option.some.inj heq
      exact hmem
    | announce x => cases heq
    | broadcast x => cases heq
    | schedule height round => cases heq
    | cancel height => cases heq
  · exact fun h => ⟨_, h, rfl⟩

/-- An instance stores nothing on its own. -/
theorem savedBy_step (seat : Seat S) (net : Network S) (s : Instance S) (e : Instance.Event S) :
    savedBy (Instance.step seat net s e).effects = [] := by
  refine List.eq_nil_iff_forall_not_mem.2 fun m hm => ?_
  have hpublished := mem_published.2 (.inr (mem_savedBy.1 hm))
  rw [published_step] at hpublished
  cases hpublished

/-! ### Attempts -/

/-- An attempt to store a decision of a height above the stored one: the messages that are written,
the answer and the archive after it. -/
inductive Attempt (seat : Seat S) (disk : Disk) (a : Archive S) (height : Height)
    (m : SignedMessage S) :
    List (SignedMessage S) → Except StorageError Unit → Archive S → Prop
  /-- The stored decision cannot be read. -/
  | unread {e : StorageError} (hread : disk.read = .error e) :
      Attempt seat disk a height m [] (.error e) a
  /-- The stored decision is not below. -/
  | lower {x : SignedMessage S} (hstored : a.stored? seat.identifier = some x)
      (hle : height ≤ x.height) : Attempt seat disk a height m [] (.ok ()) a
  /-- The decision cannot be written. -/
  | unwritten {e : StorageError} (hwrite : disk.write = .error e) :
      Attempt seat disk a height m [m] (.error e) a
  /-- The decision is stored. -/
  | saved (hwrite : disk.write = .ok ())
      (habove : ∀ x, a.stored? seat.identifier = some x → x.height < height) :
      Attempt seat disk a height m [m] (.ok ()) (a.put seat.identifier m)

section Attempts

variable {seat : Seat S} {disk : Disk} {n : Node S} {height : Height} {m : SignedMessage S}

theorem saveIfHighest_attempt (seat : Seat S) (disk : Disk) (n : Node S) (height : Height)
    (m : SignedMessage S) :
    Attempt seat disk n.archive height m (savedBy (n.saveIfHighest seat disk height m).effects)
      (n.saveIfHighest seat disk height m).answer
      (n.saveIfHighest seat disk height m).state.archive := by
  unfold saveIfHighest
  cases hread : disk.read with
  | error e =>
    rw [isHighest_of_unread hread]
    exact .unread hread
  | ok _ =>
    rw [isHighest_of_read hread]
    cases habove : (n.archive.stored? seat.identifier).all fun x => x.height < height with
    | false =>
      obtain ⟨x, hstored, hle⟩ := (Option.all_eq_false _ _).1 habove
      have hle : ¬ x.height < height := of_decide_eq_false hle
      rw [Height.lt_iff, not_lt] at hle
      exact .lower hstored (Height.le_iff.2 hle)
    | true =>
      dsimp only
      unfold save
      split
      · rename_i hwrite
        exact .saved hwrite fun x hx => of_decide_eq_true ((Option.all_eq_true _ _).1 habove x hx)
      · rename_i e hwrite
        exact .unwritten hwrite

/-- A decision lists the failure to store it. -/
def Notes (answer : Except StorageError Unit) (errors : List SideEffectError) : Prop :=
  ∀ e, answer = .error e → .persist e ∈ errors

theorem notes_noteSave (o : Step S (Node S) StorageError Unit) :
    Notes o.answer (noteSave o).2 := by
  intro e he
  unfold noteSave
  rw [he]
  exact List.mem_singleton_self _

theorem Notes.noteAnnouncement {answer : Except StorageError Unit} {errors : List SideEffectError}
    (h : Notes answer errors) (announced : Except NetworkError Unit) (n : Node S) :
    Notes answer (noteAnnouncement announced n errors).2 := by
  intro e he
  unfold Node.noteAnnouncement
  split
  · exact h e he
  · exact List.mem_append_left _ (h e he)

theorem archive_noteSave (o : Step S (Node S) StorageError Unit) :
    (noteSave o).1.archive = o.state.archive := by
  unfold noteSave
  split <;> rfl

theorem archive_noteAnnouncement (announced : Except NetworkError Unit) (n : Node S)
    (errors : List SideEffectError) :
    (noteAnnouncement announced n errors).1.archive = n.archive := by
  unfold noteAnnouncement
  split <;> rfl

theorem lt_reached_advanceTo (n : Node S) (height : Height) :
    height.toNat < (n.advanceTo height).reached := by
  by_cases h : (n.height.all fun current => current < height) = true
  · rw [advanceTo, if_pos h, reached]
    exact Nat.lt_succ_self _
  · rw [advanceTo, if_neg h]
    rw [Bool.not_eq_true] at h
    obtain ⟨current, hcurrent, hle⟩ := (Option.all_eq_false _ _).1 h
    have hle : ¬ current < height := of_decide_eq_false hle
    rw [Height.lt_iff] at hle
    rw [reached_eq hcurrent]
    omega

end Attempts

/-! ### Calls -/

/-- What a call does to the archive of a node, with the messages that it writes, the height of the
decided message that it accepts and the decision that it returns. -/
inductive Filing (seat : Seat S) (disk : Disk) (a : Archive S) :
    List (SignedMessage S) → Option Height → Option (Decided S) → Node S → Prop
  /-- Nothing is to be stored. -/
  | keep {u : Node S} (harchive : u.archive = a) : Filing seat disk a [] none none u
  /-- A decided message is accepted. It may lead to a decision. -/
  | accept {u : Node S} {m : SignedMessage S} {saves : List (SignedMessage S)}
      {answer : Except StorageError Unit} {decided : Option (Decided S)}
      (hattempt : Attempt seat disk a m.height m saves answer u.archive)
      (hread : disk.read = .ok ())
      (hdecided : ∀ d ∈ decided, d.height = m.height ∧ Notes answer d.sideEffectErrors)
      (hreached : m.height.toNat < u.reached) : Filing seat disk a saves (some m.height) decided u
  /-- An instance decides on its own. -/
  | decide {u : Node S} {saves : List (SignedMessage S)} {answer : Except StorageError Unit}
      {d : Decided S} (hattempt : Attempt seat disk a d.height d.commit saves answer u.archive)
      (hheight : d.commit.height = d.height) (hnotes : Notes answer d.sideEffectErrors)
      (hreached : d.height.toNat < u.reached) : Filing seat disk a saves none (some d) u

section Operations

variable {seat : Seat S} {env : Surroundings S} {n u v : Node S} {t : Trace S} {m : SignedMessage S}

theorem Filing.congr {disk : Disk} {a : Archive S} {saves : List (SignedMessage S)}
    {accepted : Option Height} {decided : Option (Decided S)}
    (h : Filing seat disk a saves accepted decided u) (harchive : v.archive = u.archive)
    (hheight : v.height = u.height) : Filing seat disk a saves accepted decided v := by
  have hsame := reached_congr hheight
  cases h with
  | keep hkept => exact .keep (harchive.trans hkept)
  | accept hattempt hread hdecided hreached =>
    exact .accept (harchive ▸ hattempt) hread hdecided (hsame ▸ hreached)
  | decide hattempt hcommit hnotes hreached =>
    exact .decide (harchive ▸ hattempt) hcommit hnotes (hsame ▸ hreached)

theorem Filing.of_silent {disk : Disk} {a : Archive S} {effects : List (Effect S)}
    (hsaved : savedBy effects = []) (harchive : u.archive = a) :
    Filing seat disk a (savedBy effects) none none u := by
  rw [hsaved]
  exact .keep harchive

theorem conclude_attempt (seat : Seat S) (env : Surroundings S) (n : Node S) (height : Height)
    (decision : Decision S) :
    ∃ answer errors,
      (n.conclude seat env height decision).answer =
        .ok (some ⟨height, decision.value, decision.commit, errors⟩) ∧
      Notes answer errors ∧
      Attempt seat env.disk n.archive height decision.commit
        (savedBy (n.conclude seat env height decision).effects) answer
        (n.conclude seat env height decision).state.archive := by
  have hattempt := saveIfHighest_attempt seat env.disk
    { n with metrics := n.metrics.decided decision.commit.round } height decision.commit
  unfold conclude
  dsimp only
  generalize saveIfHighest seat env.disk
    { n with metrics := n.metrics.decided decision.commit.round } height decision.commit = saved
    at hattempt ⊢
  refine ⟨saved.answer, _, rfl, (notes_noteSave saved).noteAnnouncement _ _, ?_⟩
  rw [archive_noteAnnouncement, archive_noteSave, savedBy_append]
  exact (List.append_nil (savedBy saved.effects)).symm ▸ hattempt

theorem receivePlain_filing (h : Consistent seat t) (m : SignedMessage S) :
    Filing seat env.disk t.state.archive (savedBy (t.state.receivePlain seat env m).effects) none
      (returned (t.state.receivePlain seat env m).answer)
      (t.state.receivePlain seat env m).state := by
  unfold receivePlain
  split
  · exact .keep rfl
  split
  · exact .keep rfl
  rename_i s hs
  have hnone : savedBy (s.receive seat env.network m).effects = [] :=
    savedBy_step seat env.network s (.receive m)
  dsimp only
  split
  · rw [hnone]
    exact .keep rfl
  · rw [hnone]
    exact .keep rfl
  · rename_i decision hanswer
    have hcertified : Instance.Certified seat m.height decision.value decision.commit := by
      refine (h.reachable hs).sound.certified env.network (e := .receive m) trivial ?_
      rw [Instance.step, hanswer]
      exact List.mem_singleton_self _
    have halike := Alike.conclude seat env
      (t.state.setInstance m.height (s.receive seat env.network m).state) m.height decision
    obtain ⟨answer, errors, hdecided, hnotes, hattempt⟩ := conclude_attempt seat env
      (t.state.setInstance m.height (s.receive seat env.network m).state) m.height decision
    rw [Step.after, hdecided, savedBy_append, hnone, List.nil_append]
    refine .decide hattempt hcertified.height_eq hnotes ?_
    rw [reached_congr halike.height_eq]
    exact h.kept_lt hs

theorem savedBy_applied (seat : Seat S) (n : Node S) (m : SignedMessage S)
    (errors : List SideEffectError) : savedBy (n.applied m errors).effects = [] := by
  rcases effects_applied n m errors with h | ⟨s, h⟩
  · rw [h]
    rfl
  · rw [h]
    exact savedBy_step seat (.reliable S) s (.learn m)

theorem receiveDecided_filing (hkind : messageKind seat.committee m = .decided) :
    Filing seat env.disk n.archive (savedBy (n.receiveDecided seat env m).effects)
      (learnedBy? seat m (n.receiveDecided seat env m))
      (returned (n.receiveDecided seat env m).answer) (n.receiveDecided seat env m).state := by
  cases hvalid : validateDecided seat m with
  | error e =>
    rw [receiveDecided_of_invalid hvalid]
    exact .keep rfl
  | ok _ =>
    cases hread : env.disk.read with
    | error e =>
      rw [receiveDecided_of_unread hvalid hread]
      exact .keep rfl
    | ok _ =>
      have hattempt := saveIfHighest_attempt seat env.disk n m.height m
      rw [receiveDecided_of_read hvalid hread]
      generalize n.saveIfHighest seat env.disk m.height m = saved at hattempt ⊢
      obtain ⟨decided, hanswer, hdecided⟩ := answer_applied (noteSave saved).1 m (noteSave saved).2
      have harchive : ((noteSave saved).1.applied m (noteSave saved).2).state.archive =
          saved.state.archive := (archive_applied _ m _).trans (archive_noteSave saved)
      have hreached : m.height.toNat <
          ((noteSave saved).1.applied m (noteSave saved).2).state.reached :=
        (lt_reached_advanceTo _ m.height).trans_eq (reached_congr (height_applied _ m _)).symm
      rw [Step.after, learnedBy?, hanswer, savedBy_append, savedBy_applied seat, List.append_nil]
      dsimp only
      rw [if_pos hkind]
      refine .accept (harchive ▸ hattempt) hread (fun d hd => ?_) hreached
      obtain ⟨hheight, herrors⟩ := hdecided d hd
      exact ⟨hheight, herrors ▸ notes_noteSave saved⟩

theorem learnedBy?_of_ne (hkind : messageKind seat.committee m ≠ .decided)
    (o : Step S (Node S) Error (Option (Decided S))) : learnedBy? seat m o = none := by
  unfold learnedBy?
  split
  · exact if_neg hkind
  · rfl

theorem receive_filing (h : Consistent seat t) (m : SignedMessage S) :
    Filing seat env.disk t.state.archive (savedBy (t.state.receive seat env m).effects)
      (learnedBy? seat m (t.state.receive seat env m))
      (returned (t.state.receive seat env m).answer) (t.state.receive seat env m).state := by
  by_cases hkind : messageKind seat.committee m = .decided
  · unfold receive
    dsimp only
    rw [if_pos hkind]
    exact (receiveDecided_filing hkind).congr rfl rfl
  · rw [learnedBy?_of_ne hkind]
    unfold receive
    dsimp only
    rw [if_neg hkind]
    exact (receivePlain_filing h m).congr rfl rfl

/-- The height of the decided message that a call accepts. -/
def accepted? (seat : Seat S) (n : Node S) (c : Call S) : Option Height :=
  match c.event with
  | .receive m => learnedBy? seat m (n.receive seat c.env m)
  | _ => none

/-- What every call does to the archive. -/
theorem step_filing (h : Consistent seat t) (c : Call S) :
    Filing seat c.env.disk t.state.archive (savedBy (c.step seat t.state).effects)
      (accepted? seat t.state c) (decidedOf (c.step seat t.state).answer)
      (c.step seat t.state).state := by
  obtain ⟨env, e⟩ := c
  cases e with
  | receive m =>
    rw [Call.step, step, Step.mapAnswer, decidedOf_received]
    exact receive_filing h m
  | start value =>
    rw [Call.step, step, Step.mapAnswer, decidedOf_map_eq_none _ _ fun _ => rfl]
    dsimp only
    unfold start
    split
    · exact .keep rfl
    split
    · exact .keep rfl
    split
    · exact .keep rfl
    · exact .of_silent (savedBy_step seat env.network _ (.start value)) rfl
  | timeout height round =>
    rw [Call.step, step, Step.mapAnswer, decidedOf_map_eq_none _ _ fun _ => rfl]
    dsimp only
    unfold timeout
    split
    · exact .keep rfl
    · exact .of_silent (savedBy_step seat env.network _ (.timeout round)) rfl
  | load =>
    rw [Call.step, step, Step.mapAnswer, decidedOf_map_eq_none _ _ fun _ => rfl]
    dsimp only
    unfold load
    split
    · exact .keep rfl
    · exact .keep rfl
    · exact .keep (archive_advanceTo _ _)

end Operations

/-! ### What is stored after a call -/

/-- The messages that a disk stores out of those that are written. -/
def written (disk : Disk) (saves : List (SignedMessage S)) : List (SignedMessage S) :=
  match disk.write with
  | .ok () => saves
  | .error _ => []

/-- The messages that are stored on a call. -/
def saved (seat : Seat S) (n : Node S) (c : Call S) : List (SignedMessage S) :=
  written c.env.disk (savedBy (c.step seat n).effects)

section Filings

variable {seat : Seat S} {disk : Disk} {a b : Archive S} {height : Height} {m : SignedMessage S}
  {saves : List (SignedMessage S)} {answer : Except StorageError Unit} {n u : Node S}
  {accepted : Option Height} {decided : Option (Decided S)}

theorem written_nil (disk : Disk) : written disk ([] : List (SignedMessage S)) = [] := by
  unfold written
  split <;> rfl

namespace Attempt

/-- An attempt stores the decision above the stored one, or nothing. -/
theorem archive_cases (h : Attempt seat disk a height m saves answer b) :
    written disk saves = [] ∧ b = a ∨
      written disk saves = [m] ∧ b = a.put seat.identifier m ∧
        ∀ x, a.stored? seat.identifier = some x → x.height < height := by
  cases h with
  | unread hread => exact .inl ⟨written_nil disk, rfl⟩
  | lower hstored hle => exact .inl ⟨written_nil disk, rfl⟩
  | unwritten hwrite => exact .inl ⟨by rw [written, hwrite], rfl⟩
  | saved hwrite habove => exact .inr ⟨by rw [written, hwrite], rfl, habove⟩

/-- An attempt succeeds if the stored decision can be read and what is written is stored. -/
theorem answer_eq_ok (h : Attempt seat disk a height m saves answer b) (hread : disk.read = .ok ())
    (hwrite : ∀ x ∈ saves, disk.write = .ok ()) : answer = .ok () := by
  cases h with
  | unread hunread =>
    rw [hread] at hunread
    cases hunread
  | lower hstored hle => rfl
  | unwritten hunwritten =>
    rw [hwrite m List.mem_cons_self] at hunwritten
    cases hunwritten
  | saved hwrite habove => rfl

/-- After an attempt that succeeds, what is stored is not below the decision. -/
theorem stored (h : Attempt seat disk a height m saves (.ok ()) b) (hheight : m.height = height) :
    ∃ x, b.stored? seat.identifier = some x ∧ height ≤ x.height := by
  cases h with
  | lower hstored hle => exact ⟨_, hstored, hle⟩
  | saved hwrite habove =>
    exact ⟨m, Archive.stored?_put .., Height.le_iff.2 (hheight ▸ le_rfl)⟩

end Attempt

namespace Filing

/-- A call stores nothing, or a decision above the stored one and not above the height of the
node. -/
theorem archive_cases (h : Filing seat disk a saves accepted decided u) :
    written disk saves = [] ∧ u.archive = a ∨
      ∃ m, written disk saves = [m] ∧ u.archive = a.put seat.identifier m ∧
        (∀ x, a.stored? seat.identifier = some x → x.height < m.height) ∧
        m.height.toNat < u.reached := by
  cases h with
  | keep harchive => exact .inl ⟨written_nil disk, harchive⟩
  | accept hattempt hread hdecided hreached =>
    refine hattempt.archive_cases.imp_right fun ⟨hwritten, harchive, habove⟩ => ?_
    exact ⟨_, hwritten, harchive, habove, hreached⟩
  | decide hattempt hheight hnotes hreached =>
    refine hattempt.archive_cases.imp_right fun ⟨hwritten, harchive, habove⟩ => ?_
    exact ⟨_, hwritten, harchive, hheight ▸ habove, hheight ▸ hreached⟩

/-- What is stored is not below a decided message that is accepted, unless it cannot be written. -/
theorem stored_of_accepted (h : Filing seat disk a saves (some height) decided u)
    (hwrite : ∀ m ∈ saves, disk.write = .ok ()) :
    ∃ x, u.archive.stored? seat.identifier = some x ∧ height ≤ x.height := by
  cases h with
  | accept hattempt hread hdecided hreached =>
    obtain rfl := hattempt.answer_eq_ok hread hwrite
    exact hattempt.stored rfl

/-- What is stored is not below a decision, unless the decision lists the failure. -/
theorem stored_of_decided {d : Decided S} (h : Filing seat disk a saves accepted (some d) u)
    (hnone : ∀ e, .persist e ∉ d.sideEffectErrors) :
    ∃ x, u.archive.stored? seat.identifier = some x ∧ d.height ≤ x.height := by
  have hanswer : ∀ {answer}, Notes answer d.sideEffectErrors → answer = .ok () := by
    intro answer hnotes
    cases answer with
    | error e => exact absurd (hnotes e rfl) (hnone e)
    | ok _ => rfl
  cases h with
  | accept hattempt hread hdecided hreached =>
    obtain ⟨hheight, hnotes⟩ := hdecided d rfl
    obtain rfl := hanswer hnotes
    rw [hheight]
    exact hattempt.stored rfl
  | decide hattempt hheight hnotes hreached =>
    obtain rfl := hanswer hnotes
    exact hattempt.stored hheight

end Filing

end Filings

/-! ### Runs -/

theorem reached_le_step (seat : Seat S) (n : Node S) (c : Call S) :
    n.reached ≤ (c.step seat n).state.reached := by
  cases hheight : n.height with
  | none =>
    rw [reached, hheight]
    exact Nat.zero_le _
  | some height =>
    obtain ⟨height', hheight', hle⟩ := (step_advance seat n c).height_le hheight
    rw [reached_eq hheight, reached_eq hheight']
    have := Height.le_iff.1 hle
    omega

theorem reached_le_play (seat : Seat S) (n : Node S) (calls : List (Call S)) :
    n.reached ≤ (play seat n calls).reached := by
  induction calls generalizing n with
  | nil => exact le_rfl
  | cons c calls ih => exact (reached_le_step seat n c).trans (ih _)

/-- All that a stream has stored in a run: what was stored before it, and what each call stores. -/
def persisted (seat : Seat S) (capacity : ℕ) (archive : Archive S) (calls : List (Call S)) :
    List (SignedMessage S) :=
  (archive.stored? seat.identifier).toList ++ along (saved seat) seat (new capacity archive) calls

/-- The archive of a node, compared with the one that it began with: entries of other streams stay,
the stored decision is not above the earlier one and the node, and nothing that was stored is above
it. -/
structure Grown (seat : Seat S) (archive : Archive S) (n : Node S)
    (persisted : List (SignedMessage S)) : Prop where
  others : ∀ other, other ≠ seat.identifier → n.archive.stored? other = archive.stored? other
  reached_le : n.archive.reached seat.identifier ≤ max (archive.reached seat.identifier) n.reached
  covers : ∀ m ∈ persisted, m.height.toNat < n.archive.reached seat.identifier

namespace Grown

variable {seat : Seat S} {archive : Archive S} {n u : Node S} {stored : List (SignedMessage S)}

theorem new (seat : Seat S) (capacity : ℕ) (archive : Archive S) :
    Grown seat archive (Node.new capacity archive) (archive.stored? seat.identifier).toList where
  others _ _ := rfl
  reached_le := le_max_left _ _
  covers m hm := by
    rw [show (Node.new capacity archive).archive = archive from rfl,
      Archive.reached_eq (Option.mem_toList.1 hm)]
    exact Nat.lt_succ_self _

/-- Nothing is stored. -/
theorem keep (h : Grown seat archive n stored) (harchive : u.archive = n.archive)
    (hreached : n.reached ≤ u.reached) : Grown seat archive u stored where
  others other hother := harchive ▸ h.others other hother
  reached_le := by
    rw [harchive]
    exact h.reached_le.trans (max_le_max_left _ hreached)
  covers m hm := harchive ▸ h.covers m hm

/-- A decision is stored above the stored one. -/
theorem save (h : Grown seat archive n stored) {m : SignedMessage S}
    (harchive : u.archive = n.archive.put seat.identifier m)
    (habove : ∀ x, n.archive.stored? seat.identifier = some x → x.height < m.height)
    (hreached : m.height.toNat < u.reached) : Grown seat archive u (stored ++ [m]) := by
  have hstored : u.archive.reached seat.identifier = m.height.toNat + 1 := by
    rw [harchive]
    exact Archive.reached_eq (Archive.stored?_put ..)
  have hle : n.archive.reached seat.identifier ≤ m.height.toNat := by
    cases hx : n.archive.stored? seat.identifier with
    | none =>
      rw [Archive.reached, hx]
      exact Nat.zero_le _
    | some x =>
      rw [Archive.reached_eq hx]
      exact Height.lt_iff.1 (habove x hx)
  constructor
  · intro other hother
    rw [harchive, Archive.stored?_put_of_ne _ _ hother]
    exact h.others other hother
  · rw [hstored]
    exact le_max_of_le_right hreached
  · intro x hx
    rw [hstored]
    rcases List.mem_append.1 hx with hx | hx
    · have := h.covers x hx
      omega
    · rw [List.mem_singleton.1 hx]
      exact Nat.lt_succ_self _

end Grown

/-- The archive of a node grows in every run. -/
theorem grown_play (seat : Seat S) (capacity : ℕ) (archive : Archive S) (calls : List (Call S)) :
    Grown seat archive (play seat (new capacity archive) calls)
      (persisted seat capacity archive calls) := by
  induction calls using List.reverseRecOn with
  | nil =>
    rw [persisted, along, List.append_nil]
    exact .new seat capacity archive
  | append_singleton past c ih =>
    obtain ⟨t, ht, hstate⟩ := exists_run seat capacity archive past
    have hfiling := step_filing ht.consistent c
    have hreached := reached_le_step seat (play seat (new capacity archive) past) c
    rw [hstate] at hfiling
    rw [play_concat, persisted, along_concat, ← List.append_assoc, saved]
    rcases hfiling.archive_cases with ⟨hwritten, harchive⟩ | ⟨m, hwritten, harchive, habove, hlt⟩
    · rw [hwritten, List.append_nil]
      exact ih.keep harchive hreached
    · rw [hwritten]
      exact ih.save harchive habove hlt

/-- What a call does to the stored decision. -/
structure Grows (seat : Seat S) (n : Node S) (c : Call S) : Prop where
  /-- A call that stores nothing leaves the archive as it is. -/
  unchanged : saved seat n c = [] → (c.step seat n).state.archive = n.archive
  /-- What is stored was above the stored decision. -/
  above : ∀ m ∈ saved seat n c,
    (c.step seat n).state.archive.stored? seat.identifier = some m ∧
      ∀ x, n.archive.stored? seat.identifier = some x → x.height < m.height
  /-- A decided message that is accepted is not above what is stored, unless storing it failed. -/
  accepted : ∀ height, accepted? seat n c = some height →
    (∀ m, .save m ∈ (c.step seat n).effects → c.env.disk.write = .ok ()) →
      ∃ x, (c.step seat n).state.archive.stored? seat.identifier = some x ∧ height ≤ x.height
  /-- A decision is not above what is stored, unless it lists a failure to store it. -/
  decided : ∀ d, decidedOf (c.step seat n).answer = some d →
    (∀ e, .persist e ∉ d.sideEffectErrors) →
      ∃ x, (c.step seat n).state.archive.stored? seat.identifier = some x ∧ d.height ≤ x.height

theorem step_grows {seat : Seat S} {t : Trace S} (h : Consistent seat t) (c : Call S) :
    Grows seat t.state c := by
  have hfiling := step_filing h c
  constructor
  · intro hsaved
    rcases hfiling.archive_cases with ⟨-, harchive⟩ | ⟨m, hwritten, -⟩
    · exact harchive
    · rw [saved, hwritten] at hsaved
      cases hsaved
  · intro m hm
    rw [saved] at hm
    rcases hfiling.archive_cases with ⟨hwritten, -⟩ | ⟨x, hwritten, harchive, habove, -⟩
    · rw [hwritten] at hm
      cases hm
    · rw [hwritten] at hm
      obtain rfl := List.mem_singleton.1 hm
      exact ⟨harchive ▸ Archive.stored?_put .., habove⟩
  · intro height haccepted hwrite
    rw [haccepted] at hfiling
    exact hfiling.stored_of_accepted fun m hm => hwrite m (mem_savedBy.1 hm)
  · intro d hd hnone
    rw [hd] at hfiling
    exact hfiling.stored_of_decided hnone

/-! ### Restarts -/

/-- A node that has loaded what is stored has reached its height. -/
theorem reached_le_load {seat : Seat S} {env : Surroundings S} {n : Node S}
    {stored : Option (SignedMessage S)} (h : (n.load seat env).answer = .ok stored) :
    n.archive.reached seat.identifier ≤ (n.load seat env).state.reached := by
  unfold load Archive.load at h ⊢
  cases hread : env.disk.read with
  | error e =>
    rw [hread] at h
    cases h
  | ok _ =>
    dsimp only [Except.map]
    cases hstored : n.archive.stored? seat.identifier with
    | none =>
      rw [Archive.reached, hstored]
      exact Nat.zero_le _
    | some m =>
      rw [Archive.reached_eq hstored]
      exact lt_reached_advanceTo n m.height

/-- A height that begins is the first one that the node has not reached. -/
theorem toNat_of_begun {seat : Seat S} {n : Node S} {c : Call S} {height : Height}
    (h : begun? seat n c = some height) : height.toNat = n.reached := by
  have hadvance := step_advance seat n c
  rw [h] at hadvance
  generalize learned? seat n c = told at hadvance
  cases hadvance with
  | begin hnext => exact toNat_of_next hnext

/-- A node that loads what is stored before anything else starts above all that its archive has held
since. -/
theorem lt_of_begun {seat : Seat S} {capacity : ℕ} {archive : Archive S} {env : Surroundings S}
    {stored : Option (SignedMessage S)} {later : List (Call S)} {c : Call S} {height : Height}
    (hload : ((new capacity archive).load seat env).answer = .ok stored)
    (hbegun : begun? seat (play seat (new capacity archive) (⟨env, .load⟩ :: later)) c =
      some height) :
    archive.reached seat.identifier ≤ height.toNat ∧
      ∀ m ∈ persisted seat capacity archive (⟨env, .load⟩ :: later), m.height < height := by
  have hgrown := grown_play seat capacity archive (⟨env, .load⟩ :: later)
  have hbegin := toNat_of_begun hbegun
  have hreached : archive.reached seat.identifier ≤
      (play seat (new capacity archive) (⟨env, .load⟩ :: later)).reached :=
    (reached_le_load hload).trans (reached_le_play seat _ later)
  have hle := hgrown.reached_le
  rw [max_eq_right hreached] at hle
  refine ⟨hbegin ▸ hreached, fun m hm => ?_⟩
  rw [Height.lt_iff, hbegin]
  exact (hgrown.covers m hm).trans_le hle

/-- Whatever fails in a run, the stored decision of the stream is never above the decision stored
before and the height of the node, other streams keep theirs, and each call lets it grow (`Grows`).
So if a node of the stream is created over the archive and first loads what is stored, it never
starts a height at or below a decision that was stored before or is stored since. -/
theorem stored_grows (seat : Seat S) (capacity : ℕ) (archive : Archive S) (calls : List (Call S)) :
    let n := play seat (new capacity archive) calls
    (∀ m, n.archive.stored? seat.identifier = some m →
      (∃ x, archive.stored? seat.identifier = some x ∧ m.height ≤ x.height) ∨
        ∃ height, n.height = some height ∧ m.height ≤ height) ∧
    (∀ other, other ≠ seat.identifier → n.archive.stored? other = archive.stored? other) ∧
    (∀ c, Grows seat n c) ∧
    ∀ (peer : Seat S) (capacity' : ℕ) (env : Surroundings S) (stored : Option (SignedMessage S))
      (later : List (Call S)) (c : Call S) (height : Height),
      peer.identifier = seat.identifier →
      ((new capacity' n.archive).load peer env).answer = .ok stored →
      begun? peer (play peer (new capacity' n.archive) (⟨env, .load⟩ :: later)) c = some height →
      ∀ m, m ∈ persisted seat capacity archive calls ∨
        m ∈ persisted peer capacity' n.archive (⟨env, .load⟩ :: later) → m.height < height := by
  intro n
  have hgrown : Grown seat archive n _ := grown_play seat capacity archive calls
  refine ⟨fun m hm => ?_, hgrown.others, fun c => ?_, ?_⟩
  · have hle := hgrown.reached_le
    rw [Archive.reached_eq hm] at hle
    rcases le_max_iff.1 hle with hle | hle
    · cases hx : archive.stored? seat.identifier with
      | none =>
        rw [Archive.reached, hx] at hle
        exact absurd hle (Nat.not_succ_le_zero _)
      | some x =>
        rw [Archive.reached_eq hx] at hle
        exact .inl ⟨x, rfl, Height.le_iff.2 (by omega)⟩
    · cases hheight : n.height with
      | none =>
        rw [reached, hheight] at hle
        exact absurd hle (Nat.not_succ_le_zero _)
      | some height =>
        rw [reached_eq hheight] at hle
        exact .inr ⟨height, rfl, Height.le_iff.2 (by omega)⟩
  · obtain ⟨t, ht, hstate⟩ := exists_run seat capacity archive calls
    have hgrows := step_grows ht.consistent c
    rwa [hstate] at hgrows
  · intro peer capacity' env stored later c height hpeer hload hbegun m hm
    obtain ⟨hreached, hlater⟩ := lt_of_begun hload hbegun
    rcases hm with hm | hm
    · rw [Height.lt_iff]
      rw [hpeer] at hreached
      exact (hgrown.covers m hm).trans_le hreached
    · exact hlater m hm

/-- The certificate of the first decision is stored and outlives the node. The node that loads it
starts with the second height. -/
theorem starts_above_certificate :
    let certify : Call Scheme.plain := ⟨.reliable _, .receive Scheme.plain.certificate⟩
    let load : Call Scheme.plain := ⟨.reliable _, .load⟩
    let start : Call Scheme.plain := ⟨.reliable _, .start Scheme.plain.value⟩
    let n := play Scheme.plain.seat (new 5 Archive.empty) [certify]
    Scheme.plain.certificate ∈ persisted Scheme.plain.seat 5 Archive.empty [certify] ∧
      begun? Scheme.plain.seat (play Scheme.plain.seat (new 5 n.archive) [load]) start =
        some ⟨1⟩ ∧
      Scheme.plain.certificate.height < ⟨1⟩ := by
  intro certify load start n
  have hpersisted : Scheme.plain.certificate ∈
      persisted Scheme.plain.seat 5 Archive.empty [certify] := by decide +kernel
  have hload : ((new 5 n.archive).load Scheme.plain.seat (.reliable _)).answer =
      .ok (some Scheme.plain.certificate) := by decide +kernel
  have hbegun : begun? Scheme.plain.seat (play Scheme.plain.seat (new 5 n.archive) [load]) start =
      some ⟨1⟩ := by decide +kernel
  have hgrows := stored_grows Scheme.plain.seat 5 Archive.empty [certify]
  refine ⟨hpersisted, hbegun, ?_⟩
  exact hgrows.2.2.2 Scheme.plain.seat 5 (.reliable _) _ [] start ⟨1⟩ rfl hload hbegun _
    (.inl hpersisted)

/-- A node accepts a decided message that it cannot store. Nothing is stored then, and the answer
does not tell. -/
theorem accepted_unstored :
    let n := new 5 (Archive.empty : Archive Scheme.plain)
    let c : Call Scheme.plain :=
      ⟨⟨.reliable _, .ok (), .error ⟨"disk is full"⟩⟩, .receive Scheme.plain.certificate⟩
    accepted? Scheme.plain.seat n c = some Height.first ∧
      (n.receive Scheme.plain.seat c.env Scheme.plain.certificate).answer = .ok none ∧
      (c.step Scheme.plain.seat n).state.archive.stored? Scheme.plain.seat.identifier = none := by
  decide +kernel

end Node
end Conclave
