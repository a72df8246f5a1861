import Conclave.Proofs.Node.Change

/-!
# What a decided message leads to

A decided message is refused if it is not valid or if the stored decision cannot be read. Else it is
stored, provided that it is above the stored decision, and applied whether or not that succeeds: the
node advances to its height, and the instance of the height decides if it has accepted the value.

* `applied` is what a decided message leads to, storing it apart;
* `receiveDecided_of_read` says that this is all there is to it.
-/

namespace Conclave

variable {S : Scheme}

/-! ### Instances that learn of a decision -/

namespace Instance

variable {s : Instance S} {commit : SignedMessage S} {value : Value S}

/-- An instance that has accepted the value and not decided decides. -/
theorem learn_eq_decide (hopen : s.decided = none) (hvalue : s.acceptedValue? = some value)
    (hroot : commit.message.valueRoot? = some value.root) :
    s.learn commit = decide { s with commits := s.commits.add commit } value commit := by
  have hundecided : ¬ s.isDecided = true := by simp [isDecided, hopen]
  rw [learn, if_neg hundecided, hvalue]
  dsimp only
  rw [if_neg (not_not.2 hroot)]

/-- Any other instance learns nothing. -/
theorem learn_eq_done (h : ∀ value, s.decided = none → s.acceptedValue? = some value →
    commit.message.valueRoot? ≠ some value.root) : s.learn commit = .done s none := by
  unfold learn
  split
  · rfl
  rename_i hundecided
  split
  · rfl
  rename_i value hvalue
  have hopen : s.decided = none := by simpa [isDecided] using hundecided
  rw [if_pos (h value hopen hvalue)]

/-- An instance that learns of a decision does not fail. -/
theorem learn_answer (s : Instance S) (commit : SignedMessage S) :
    ∃ decision, (s.learn commit).answer = .ok decision := by
  unfold learn
  split
  · exact ⟨_, rfl⟩
  split
  · exact ⟨_, rfl⟩
  split
  · exact ⟨_, rfl⟩
  · exact ⟨_, rfl⟩

end Instance

namespace Node

section Receiving

variable {seat : Seat S} {env : Surroundings S} {n : Node S} {m : SignedMessage S}

/-! ### Two kinds of messages -/

theorem receive_of_decided (hkind : messageKind seat.committee m = .decided) :
    n.receive seat env m = countMessage .decided (n.receiveDecided seat env m) := by
  rw [receive, hkind]
  exact congrArg _ (if_pos rfl)

theorem receive_of_plain (hkind : messageKind seat.committee m ≠ .decided) :
    n.receive seat env m =
      countMessage (messageKind seat.committee m) (n.receivePlain seat env m) := by
  rw [receive]
  exact congrArg _ (if_neg hkind)

end Receiving

section Storing

variable {seat : Seat S} {env : Surroundings S} {disk : Disk} {n : Node S} {height : Height}
  {m : SignedMessage S} {e : StorageError}

/-! ### Storing it -/

theorem isHighest_of_read (hread : disk.read = .ok ()) :
    n.isHighest seat disk height =
      .ok ((n.archive.stored? seat.identifier).all fun x => x.height < height) := by
  rw [isHighest, Archive.load, hread]
  rfl

theorem isHighest_of_unread (hread : disk.read = .error e) :
    n.isHighest seat disk height = .error e := by
  rw [isHighest, Archive.load, hread]
  rfl

/-- A message is stored as a decision of the node is. -/
theorem save_or_done_eq {isHigher : Bool} (h : n.isHighest seat disk height = .ok isHigher) :
    (if isHigher then n.save seat disk m else .done n ()) = n.saveIfHighest seat disk height m := by
  unfold saveIfHighest
  rw [h]
  cases isHigher <;> rfl

/-! ### Applying it -/

/-- What a valid decided message leads to, storing it apart: the node advances to its height, and
the instance of the height decides if it has accepted the value. The decision lists the side effects
that failed before. -/
def applied (n : Node S) (m : SignedMessage S) (errors : List SideEffectError) :
    Step S (Node S) Error (Option (Decided S)) :=
  let n := n.advanceTo m.height
  match n.instanceAt? m.height with
  | none => .done n none
  | some s =>
    let moved := s.learn m
    let n := n.setInstance m.height moved.state
    match moved.answer with
    | .error e => ⟨n, moved.effects, .error (.rejected e)⟩
    | .ok none => ⟨n, moved.effects, .ok none⟩
    | .ok (some decision) =>
      { state := { n with metrics := n.metrics.decided decision.commit.round }
        effects := moved.effects
        answer := .ok (some ⟨m.height, decision.value, decision.commit, errors⟩) }

theorem receiveDecided_of_invalid {e : Error} (hvalid : validateDecided seat m = .error e) :
    n.receiveDecided seat env m = .refuse n e := by
  unfold receiveDecided
  rw [hvalid]

/-- A message that cannot be compared with the stored decision is refused. -/
theorem receiveDecided_of_unread (hvalid : validateDecided seat m = .ok ())
    (hread : env.disk.read = .error e) :
    n.receiveDecided seat env m = .refuse n (.storage e) := by
  unfold receiveDecided
  rw [hvalid, isHighest_of_unread hread]

/-- Any other valid message is stored and applied. -/
theorem receiveDecided_of_read (hvalid : validateDecided seat m = .ok ())
    (hread : env.disk.read = .ok ()) :
    n.receiveDecided seat env m =
      let saved := n.saveIfHighest seat env.disk m.height m
      ((noteSave saved).1.applied m (noteSave saved).2).after saved.effects := by
  unfold receiveDecided
  rw [hvalid, isHighest_of_read hread]
  dsimp only
  rw [save_or_done_eq (isHighest_of_read hread)]
  generalize n.saveIfHighest seat env.disk m.height m = saved
  unfold applied
  dsimp only
  cases ((noteSave saved).1.advanceTo m.height).instanceAt? m.height with
  | none => rw [Step.after, Step.done, List.append_nil]
  | some s =>
    dsimp only
    cases (s.learn m).answer with
    | error e => rfl
    | ok decision =>
      cases decision with
      | none => rfl
      | some decision => rfl

theorem height_applied (n : Node S) (m : SignedMessage S) (errors : List SideEffectError) :
    (n.applied m errors).state.height = (n.advanceTo m.height).height := by
  unfold applied
  dsimp only
  split
  · rfl
  split <;> rfl

theorem archive_advanceTo (n : Node S) (height : Height) :
    (n.advanceTo height).archive = n.archive := by
  unfold advanceTo
  split <;> rfl

theorem archive_applied (n : Node S) (m : SignedMessage S) (errors : List SideEffectError) :
    (n.applied m errors).state.archive = n.archive := by
  refine Eq.trans ?_ (archive_advanceTo n m.height)
  unfold applied
  dsimp only
  split
  · rfl
  split <;> rfl

/-- The instance of the height learns of the decision. -/
theorem instances_applied (n : Node S) (m : SignedMessage S) (errors : List SideEffectError) :
    (n.applied m errors).state.instances =
      (n.modifyInstance m.height fun s => (s.learn m).state).instances := by
  have hinstances := instances_advanceTo n m.height
  unfold applied
  dsimp only
  split
  · rename_i hnone
    rw [instanceAt?_congr hinstances] at hnone
    rw [modifyInstance_of_none hnone]
    exact hinstances
  rename_i s hs
  rw [instanceAt?_congr hinstances] at hs
  rw [← setInstance_eq_modifyInstance hs]
  have hset : ((n.advanceTo m.height).setInstance m.height (s.learn m).state).instances =
      (n.setInstance m.height (s.learn m).state).instances :=
    congrArg (Recent.update · _ _) hinstances
  split <;> exact hset

/-- All effects are those of the instance. -/
theorem effects_applied (n : Node S) (m : SignedMessage S) (errors : List SideEffectError) :
    (n.applied m errors).effects = [] ∨ ∃ s : Instance S,
      (n.applied m errors).effects = (s.learn m).effects := by
  unfold applied
  dsimp only
  split
  · exact .inl rfl
  · rename_i s hs
    refine .inr ⟨s, ?_⟩
    split <;> rfl

/-- Applying a message does not fail. -/
theorem answer_applied (n : Node S) (m : SignedMessage S) (errors : List SideEffectError) :
    ∃ decided, (n.applied m errors).answer = .ok decided ∧
      ∀ d ∈ decided, d.height = m.height ∧ d.sideEffectErrors = errors := by
  unfold applied
  dsimp only
  split
  · exact ⟨none, rfl, fun d hd => absurd hd (Option.not_mem_none d)⟩
  rename_i s hs
  obtain ⟨decision, hanswer⟩ := s.learn_answer m
  rw [hanswer]
  cases decision with
  | none => exact ⟨none, rfl, fun d hd => absurd hd (Option.not_mem_none d)⟩
  | some decision =>
    refine ⟨_, rfl, fun d hd => ?_⟩
    obtain rfl := Option.some.inj hd
    exact ⟨rfl, rfl⟩

end Storing

end Node
end Conclave
