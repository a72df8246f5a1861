import Conclave.Proofs.Node.Heights

/-!
# Catching up

A decided message takes a node that has fallen behind to its height, and the next start begins the
height after it. What may still be in the way is an instance of the node itself: the one of the
decided height, if it is kept, has to decide before the next height begins, and it decides on a
value that it has accepted in its current round, not on the root that the message shows.

* `Follows` is what it takes to go on: there is no such instance, or it has decided, or it has
  accepted the value;
* `isDecided_learn_iff` says that these are the instances that have decided after the message;
* `start_after_decided` is the outcome of the next start in either case.
-/

namespace Conclave

variable {S : Scheme}

/-! ### Instances that learn of a decision -/

namespace Instance

variable {s : Instance S} {commit : SignedMessage S}

/-- An instance has accepted the value that a message is about, in its current round. -/
def Accepts (s : Instance S) (m : SignedMessage S) : Prop :=
  ∃ value, s.acceptedValue? = some value ∧ m.message.valueRoot? = some value.root

/-- An instance that learns of a decision has decided afterwards if it had decided before, or if it
has accepted the value. -/
theorem isDecided_learn_iff :
    (s.learn commit).state.isDecided = true ↔ s.isDecided = true ∨ s.Accepts commit := by
  by_cases hdecided : s.isDecided = true
  · rw [learn, if_pos hdecided]
    exact iff_of_true hdecided (.inl hdecided)
  rw [or_iff_right hdecided]
  have hopen : s.decided = none := by simpa [isDecided] using hdecided
  by_cases haccepts : s.Accepts commit
  · obtain ⟨value, hvalue, hroot⟩ := haccepts
    rw [learn_eq_decide hopen hvalue hroot]
    exact iff_of_true rfl ⟨value, hvalue, hroot⟩
  · rw [learn_eq_done fun value _ hvalue hroot => haccepts ⟨value, hvalue, hroot⟩]
    exact iff_of_false hdecided haccepts

/-- The first start of an instance fails at most to find the proposer and to send the proposal. -/
theorem answer_begin {seat : Seat S} {height : Height} {id : OperatorId} (value : Value S)
    (hproposer : seat.context.proposer seat.committee height Round.first = .ok id) :
    ((Instance.new height).start seat (.reliable S) value).answer = .ok () := by
  have hnew : ¬ (Instance.new height : Instance S).started = true := by simp [started, new]
  have hleader : isLeader seat { Instance.new height with startValue := some value } Round.first =
      .ok (Decidable.decide (id = seat.signer.id)) := by
    rw [isLeader, leader, show (Instance.new height : Instance S).height = height from rfl,
      hproposer]
    rfl
  rw [start, if_neg hnew]
  dsimp only [Step.after]
  split
  · split
    · rename_i e he
      cases hleader.symm.trans he
    · rfl
    · rfl
  · rfl

end Instance

namespace Node

variable {seat : Seat S} {env : Surroundings S} {n : Node S} {m : SignedMessage S}
  {decided : Option (Decided S)} {height next : Height} {value : Value S}

/-! ### The decided message -/

/-- A node that accepts a decided message advances to its height, and the instance of the height
learns of the decision. -/
theorem receive_decided (hkind : messageKind seat.committee m = .decided)
    (haccepted : (n.receive seat env m).answer = .ok decided) :
    (n.receive seat env m).state.height = (n.advanceTo m.height).height ∧
      (n.receive seat env m).state.instances =
        (n.modifyInstance m.height fun s => (s.learn m).state).instances := by
  rw [receive_of_decided hkind] at haccepted ⊢
  have hcounted := Alike.countMessage .decided (n.receiveDecided seat env m)
  rw [hcounted.height_eq, hcounted.instances_eq]
  have haccepted : (n.receiveDecided seat env m).answer = .ok decided := haccepted
  cases hvalid : validateDecided seat m with
  | error e =>
    rw [receiveDecided_of_invalid hvalid] at haccepted
    cases haccepted
  | ok _ =>
    cases hread : env.disk.read with
    | error e =>
      rw [receiveDecided_of_unread hvalid hread] at haccepted
      cases haccepted
    | ok _ =>
      have halike := (Alike.saveIfHighest seat env.disk n m.height m).trans (Alike.noteSave _)
      rw [receiveDecided_of_read hvalid hread]
      refine ⟨(height_applied _ _ _).trans (halike.advanceTo m.height).height_eq, ?_⟩
      exact (instances_applied _ _ _).trans
        (congrArg (Recent.update · _ _) halike.instances_eq)

/-- A node that is not above a height advances to it. -/
theorem height_advanceTo_of_le (h : ∀ current ∈ n.height, current ≤ height) :
    (n.advanceTo height).height = some height := by
  unfold advanceTo
  split
  · rfl
  rename_i hnot
  cases hheight : n.height with
  | none => simp [hheight] at hnot
  | some current =>
    have hle := h current hheight
    rw [hheight, Option.all_some, decide_eq_true_eq, Height.lt_iff, not_lt] at hnot
    rw [Height.le_iff] at hle
    exact congrArg some (Height.toNat_inj.1 (hle.antisymm hnot))

/-! ### The next start -/

/-- Nothing kept holds a node up: the instance of a height, if any, has decided. -/
theorem start_of_decided (env : Surroundings S) (hheight : n.height = some height)
    (hdecided : ∀ s, n.instanceAt? height = some s → s.isDecided = true)
    (hvalue : seat.context.checkValue value = .ok ()) (hnext : height.next? = .ok next) :
    let begun := (Instance.new next).start seat env.network value
    (n.start seat env value).answer = (begun.answer.map fun _ => next).mapError .rejected ∧
      (n.start seat env value).state.height = some next ∧
      (n.start seat env value).state.instances = n.instances.push begun.state := by
  have hgate : (n.height.bind fun h => (n.instanceAt? h).filter fun s => ¬ s.isDecided) = none := by
    rw [hheight, Option.bind_some, Option.filter_eq_none_iff]
    intro s hs
    simpa using hdecided s hs
  have hnext : n.height.elim (.ok Height.first) Height.next? = .ok next := by
    rw [hheight]
    exact hnext
  unfold start
  rw [hgate, hvalue, hnext]
  exact ⟨rfl, rfl, rfl⟩

/-- An instance that is kept and has not decided holds its node up. -/
theorem start_of_undecided {s : Instance S} (hheight : n.height = some height)
    (hs : n.instanceAt? height = some s) (hopen : ¬ s.isDecided = true) :
    n.start seat env value = .refuse n (.previousNotDecided height) := by
  have hgate : (n.height.bind fun h => (n.instanceAt? h).filter fun s => ¬ s.isDecided) =
      some s := by
    rw [hheight, Option.bind_some, hs]
    simp [hopen]
  unfold start
  rw [hgate]
  dsimp only
  rw [height_of_instanceAt? hs]

/-- No instance keeps a node from going on after a decided message. -/
def Follows (n : Node S) (m : SignedMessage S) : Prop :=
  ∀ s, n.instanceAt? m.height = some s → s.isDecided = true ∨ s.Accepts m

/-- A node that is not above the height of a decided message and accepts it begins the next height
with its next start, unless it keeps an instance of the height that has neither decided nor accepted
the value in its current round. Then the start is refused. -/
theorem start_after_decided {id : OperatorId} (disk : Disk)
    (hkind : messageKind seat.committee m = .decided)
    (hheight : ∀ current ∈ n.height, current ≤ m.height)
    (haccepted : (n.receive seat env m).answer = .ok decided)
    (hnext : m.height.next? = .ok next) (hvalue : seat.context.checkValue value = .ok ())
    (hproposer : seat.context.proposer seat.committee next Round.first = .ok id) :
    let u := (n.receive seat env m).state
    let o := u.start seat ⟨.reliable S, disk⟩ value
    (n.Follows m → o.answer = .ok next ∧ o.state.height = some next ∧
        ∃ s, o.state.instanceAt? next = some s ∧ s.started = true) ∧
      (¬ n.Follows m → o = .refuse u (.previousNotDecided m.height)) := by
  intro u o
  obtain ⟨hadvanced, hinstances⟩ := receive_decided hkind haccepted
  have hu : u.height = some m.height := hadvanced.trans (height_advanceTo_of_le hheight)
  have hkept : u.instanceAt? m.height =
      (n.instanceAt? m.height).map fun s => (s.learn m).state := by
    rw [instanceAt?_congr hinstances]
    exact instanceAt?_modifyInstance fun s =>
      Instance.step_height seat (.reliable S) s (.learn m)
  constructor
  · intro hfollows
    have hdecided : ∀ s, u.instanceAt? m.height = some s → s.isDecided = true := by
      intro s hs
      rw [hkept, Option.map_eq_some_iff] at hs
      obtain ⟨before, hbefore, rfl⟩ := hs
      exact Instance.isDecided_learn_iff.2 (hfollows before hbefore)
    obtain ⟨hanswer, hheight, hpushed⟩ :=
      start_of_decided ⟨.reliable S, disk⟩ hu hdecided hvalue hnext
    rw [Instance.answer_begin value hproposer] at hanswer
    refine ⟨hanswer, hheight, _, ?_, Instance.started_begin seat (.reliable S) next value⟩
    rw [instanceAt?_congr (n := { u with instances := u.instances.push _ }) hpushed]
    refine Recent.find?_push_self (decide_eq_true ?_)
    exact Instance.step_height seat (.reliable S) (.new next) (.start value)
  · intro hheld
    unfold Follows at hheld
    push Not at hheld
    obtain ⟨s, hs, hopen, hnot⟩ := hheld
    refine start_of_undecided hu (hkept.trans (by rw [hs, Option.map_some])) ?_
    rw [Instance.isDecided_learn_iff]
    rintro (hdecided | haccepts)
    · exact hopen hdecided
    · exact hnot haccepts

namespace CatchUp

open Scheme

/-- Member 1 has started the first height and has received some messages. -/
def started (received : List (SignedMessage plain)) : Node plain :=
  play plain.seat (new 2 .empty)
    ((.start plain.value :: received.map .receive).map (Call.mk (.reliable plain)))

/-- The proposal of the first round. -/
def proposal : SignedMessage plain := plain.message 1 (.propose plain.value [] [])

end CatchUp

/-- A member that has accepted the proposal goes on after the decision of others. -/
theorem start_after_decided_of_proposal :
    let u := ((CatchUp.started [CatchUp.proposal]).receive Scheme.plain.seat (.reliable _)
      Scheme.plain.certificate).state
    let o := u.start Scheme.plain.seat ⟨.reliable _, .reliable⟩ Scheme.plain.value
    o.answer = .ok ⟨1⟩ ∧ o.state.height = some ⟨1⟩ ∧
      ∃ s, o.state.instanceAt? ⟨1⟩ = some s ∧ s.started = true := by
  have hheight : (CatchUp.started [CatchUp.proposal]).height = some Height.first := by
    decide +kernel
  obtain ⟨decided, haccepted⟩ : ∃ decided, ((CatchUp.started [CatchUp.proposal]).receive
      Scheme.plain.seat (.reliable _) Scheme.plain.certificate).answer = .ok decided :=
    ⟨some ⟨Height.first, Scheme.plain.value, Scheme.plain.certificate, []⟩, by decide +kernel⟩
  have hfollows : (CatchUp.started [CatchUp.proposal]).Follows Scheme.plain.certificate := by
    intro s hs
    have haccepts : ((CatchUp.started [CatchUp.proposal]).instanceAt?
        Scheme.plain.certificate.height).bind Instance.acceptedValue? =
          some Scheme.plain.value := by
      decide +kernel
    rw [hs, Option.bind_some] at haccepts
    exact .inr ⟨_, haccepts, by decide +kernel⟩
  have hproposer : Scheme.plain.seat.context.proposer Scheme.plain.seat.committee ⟨1⟩ Round.first =
      .ok ⟨2⟩ := by
    decide +kernel
  refine (start_after_decided .reliable (by decide +kernel) (fun current hcurrent => ?_) haccepted
    (by decide +kernel) (by decide +kernel) hproposer).1 hfollows
  rw [hheight] at hcurrent
  obtain rfl := Option.mem_some.1 hcurrent
  decide +kernel

/-- A member that has started the height and has not received the proposal accepts the decision of
others and stores it, and is held up nevertheless. -/
theorem held_up_without_proposal :
    let n := CatchUp.started []
    let o := n.receive Scheme.plain.seat (.reliable _) Scheme.plain.certificate
    messageKind Scheme.plain.seat.committee Scheme.plain.certificate = .decided ∧
      n.height = some Scheme.plain.certificate.height ∧ o.answer = .ok none ∧
      o.state.archive.stored? Scheme.plain.seat.identifier = some Scheme.plain.certificate ∧
      Scheme.plain.certificate.height.next? = .ok ⟨1⟩ ∧
      Scheme.plain.seat.context.checkValue Scheme.plain.value = .ok () ∧
      (o.state.start Scheme.plain.seat (.reliable _) Scheme.plain.value).answer =
        .error (.previousNotDecided Scheme.plain.certificate.height) := by
  decide +kernel

end Node
end Conclave
