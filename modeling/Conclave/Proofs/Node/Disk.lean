import Conclave.Proofs.Node.Calls
import Conclave.Proofs.Node.Decided
import Conclave.Proofs.PlainScheme

/-!
# A node and a disk that fails

A node reads the stored decision to tell whether another one is above it. Where it decides on its
own, a disk that fails costs nothing: the failure is listed with the decision. Where it takes a
decided message, it gives up before it has done anything if the stored decision cannot be read. The
message is lost if it was news, that is, if the node would have advanced to its height or decided.

* `Agree` compares an operation with the same one on a disk that does not fail;
* `Lost` are the messages that are lost, `Loses` the calls on which one is;
* `agrees_iff_nothing_lost`: without these calls, and only without them, a node on a disk that fails
  does what it does on one that does not.
-/

namespace Conclave

namespace Node

variable {S : Scheme}

/-! ### Operations that agree -/

/-- The effects that do not concern the disk. -/
def unsaved (effects : List (Effect S)) : List (Effect S) :=
  effects.filter fun
    | .save _ => false
    | _ => true

/-- What a decision consists of, apart from the side effects that failed. -/
def Decided.bare (d : Decided S) : Height × Value S × SignedMessage S :=
  ⟨d.height, d.value, d.commit⟩

/-- Two operations after which the nodes have the same instances at the same height, that ask for
the same effects apart from what they store, and that return the same decision. -/
structure Agree {α : Type} (decision : Except Error α → Option (Decided S))
    (o' o : Step S (Node S) Error α) : Prop where
  state : Alike o'.state o.state
  effects_eq : unsaved o.effects = unsaved o'.effects
  decided_eq : (decision o.answer).map Decided.bare = (decision o'.answer).map Decided.bare

@[simp] theorem unsaved_append (effects effects' : List (Effect S)) :
    unsaved (effects ++ effects') = unsaved effects ++ unsaved effects' :=
  List.filter_append effects effects'

namespace Agree

variable {α β : Type} {decision : Except Error α → Option (Decided S)}
  {o o' o'' : Step S (Node S) Error α}

theorem symm (h : Agree decision o' o) : Agree decision o o' :=
  ⟨h.state.symm, h.effects_eq.symm, h.decided_eq.symm⟩

theorem trans (h : Agree decision o o') (h' : Agree decision o' o'') : Agree decision o o'' :=
  ⟨h.state.trans h'.state, h'.effects_eq.trans h.effects_eq, h'.decided_eq.trans h.decided_eq⟩

theorem refuse {n u : Node S} (h : Alike n u) (e : Error) :
    Agree decision (.refuse n e) (.refuse u e) := ⟨h, rfl, rfl⟩

theorem mapAnswer {decision' : Except Error β → Option (Decided S)} (h : Agree decision o' o)
    {f : α → β} (hf : ∀ answer, decision' (answer.map f) = decision answer) :
    Agree decision' (o'.mapAnswer f) (o.mapAnswer f) := by
  refine ⟨h.state, h.effects_eq, ?_⟩
  rw [Step.mapAnswer, Step.mapAnswer, hf, hf]
  exact h.decided_eq

theorem after (h : Agree decision o' o) (effects : List (Effect S)) :
    Agree decision (o'.after effects) (o.after effects) := by
  refine ⟨h.state, ?_, h.decided_eq⟩
  rw [Step.after, Step.after, unsaved_append, unsaved_append, h.effects_eq]

/-- What is stored before an operation makes no difference to it. -/
theorem after_unsaved (h : Agree decision o' o) {effects : List (Effect S)}
    (heffects : unsaved effects = []) : Agree decision o' (o.after effects) := by
  refine ⟨h.state, ?_, h.decided_eq⟩
  rw [Step.after, unsaved_append, heffects, List.nil_append, h.effects_eq]

theorem countMessage {o o' : Step S (Node S) Error (Option (Decided S))}
    (h : Agree returned o' o) (kind : MessageKind) :
    Agree returned (countMessage kind o') (countMessage kind o) :=
  ⟨((Alike.countMessage kind o').symm.trans h.state).trans (Alike.countMessage kind o),
    h.effects_eq, h.decided_eq⟩

end Agree

/-! ### Operations that do not read the disk -/

section Operations

variable {seat : Seat S} {net : Network S} {disk disk' : Disk} {n u : Node S} {m : SignedMessage S}

/-- The operations other than taking a message return no decision. -/
def undecided {α : Type} (_ : Except Error α) : Option (Decided S) := none

theorem agree_start (h : Alike n u) (value : Value S) :
    Agree undecided (n.start seat ⟨net, disk'⟩ value) (u.start seat ⟨net, disk⟩ value) := by
  unfold start
  simp only [h.height_eq, h.instanceAt?_eq]
  split
  · exact .refuse h _
  split
  · exact .refuse h _
  split
  · exact .refuse h _
  · exact ⟨⟨congrArg (Recent.push · _) h.instances_eq, rfl, h.decisions_eq⟩, rfl, rfl⟩

theorem agree_timeout (h : Alike n u) (height : Height) (round : Round) :
    Agree undecided (n.timeout seat ⟨net, disk'⟩ height round)
      (u.timeout seat ⟨net, disk⟩ height round) := by
  unfold timeout
  simp only [h.instanceAt?_eq]
  split
  · exact .refuse h _
  · exact ⟨h.setInstance height _, rfl, rfl⟩

/-! ### Decisions of the instances -/

theorem unsaved_save (seat : Seat S) (disk : Disk) (n : Node S) (m : SignedMessage S) :
    unsaved (n.save seat disk m).effects = [] := by
  unfold save
  split <;> rfl

theorem unsaved_saveIfHighest (seat : Seat S) (disk : Disk) (n : Node S) (height : Height)
    (m : SignedMessage S) : unsaved (n.saveIfHighest seat disk height m).effects = [] := by
  unfold saveIfHighest
  split
  · rfl
  · rfl
  · exact unsaved_save seat disk n m

/-- A decision stands, whether or not it is stored. -/
theorem agree_conclude (h : Alike n u) (height : Height) (decision : Decision S) :
    Agree returned (n.conclude seat ⟨net, disk'⟩ height decision)
      (u.conclude seat ⟨net, disk⟩ height decision) := by
  have hcounted := h.countDecision decision.commit.round
  refine ⟨((Alike.conclude ..).symm.trans hcounted).trans (Alike.conclude ..), ?_, rfl⟩
  simp only [conclude, unsaved_append, unsaved_saveIfHighest]

theorem agree_receivePlain (h : Alike n u) (m : SignedMessage S) :
    Agree returned (n.receivePlain seat ⟨net, disk'⟩ m) (u.receivePlain seat ⟨net, disk⟩ m) := by
  unfold receivePlain
  simp only [h.instanceAt?_eq]
  split
  · exact .refuse h _
  split
  · exact .refuse h _
  rename_i s hs
  have hset := h.setInstance m.height (s.receive seat net m).state
  split
  · exact ⟨hset, rfl, rfl⟩
  · exact ⟨hset, rfl, rfl⟩
  · rename_i decision hanswer
    exact (agree_conclude hset m.height decision).after _

/-! ### Decided messages -/

theorem agree_applied (h : Alike n u) (m : SignedMessage S)
    (errors' errors : List SideEffectError) :
    Agree returned (n.applied m errors') (u.applied m errors) := by
  have hadvanced := h.advanceTo m.height
  unfold applied
  simp only [hadvanced.instanceAt?_eq]
  split
  · exact ⟨hadvanced, rfl, rfl⟩
  rename_i s hs
  have hset := hadvanced.setInstance m.height (s.learn m).state
  split
  · exact ⟨hset, rfl, rfl⟩
  · exact ⟨hset, rfl, rfl⟩
  · rename_i decision hanswer
    exact ⟨hset.countDecision decision.commit.round, rfl, rfl⟩

/-- A valid decided message is applied, whether or not it is stored, if the stored decision can be
read. -/
theorem agree_receiveDecided (hvalid : validateDecided seat m = .ok ())
    (hread : disk.read = .ok ()) :
    Agree returned (n.applied m []) (n.receiveDecided seat ⟨net, disk⟩ m) := by
  have hreceive : n.receiveDecided seat ⟨net, disk⟩ m = _ := receiveDecided_of_read hvalid hread
  have hsaved := Alike.saveIfHighest seat disk n m.height m
  rw [hreceive]
  exact (agree_applied (hsaved.trans (Alike.noteSave _)) m _ _).after_unsaved
    (unsaved_saveIfHighest seat disk n m.height m)

/-! ### News -/

/-- A decided message that the node has not applied yet: it is of a greater height, or of an
instance that has accepted its value and not decided. -/
def IsNews (n : Node S) (m : SignedMessage S) : Prop :=
  (n.height.all fun current => current < m.height) = true ∨
    ∃ s value, n.instanceAt? m.height = some s ∧ s.decided = none ∧
      s.acceptedValue? = some value ∧ m.message.valueRoot? = some value.root

/-- What is not news leads to nothing, like a message that is refused. -/
theorem agree_refuse_of_not_news (h : ¬ IsNews n m) (e : Error) :
    Agree returned (n.applied m []) (.refuse n e) := by
  rw [IsNews, not_or] at h
  obtain ⟨hheight, hopen⟩ := h
  have hadvanced : n.advanceTo m.height = n := by rw [advanceTo, if_neg hheight]
  unfold applied
  rw [hadvanced]
  dsimp only
  cases hkept : n.instanceAt? m.height with
  | none => exact ⟨.refl n, rfl, rfl⟩
  | some s =>
    have hlearn : s.learn m = .done s none :=
      Instance.learn_eq_done fun value hundecided hvalue hroot =>
        hopen ⟨s, value, hkept, hundecided, hvalue, hroot⟩
    dsimp only
    rw [hlearn]
    exact ⟨⟨congrArg instances (setInstance_self hkept).symm, rfl, rfl⟩, rfl, rfl⟩

/-- News leads to another height or to a decision. -/
theorem not_alike_of_news (h : IsNews n m) : ¬ Alike (n.applied m []).state n := by
  intro halike
  rcases h with habove | ⟨s, value, hkept, hopen, hvalue, hroot⟩
  · have hheight := halike.height_eq
    rw [height_applied, advanceTo, if_pos habove] at hheight
    rw [hheight, Option.all_some, decide_eq_true_eq, Height.lt_iff] at habove
    exact lt_irrefl _ habove
  · have hadvanced : (n.advanceTo m.height).instanceAt? m.height = some s :=
      (instanceAt?_congr (instances_advanceTo n m.height)).trans hkept
    have hdecided : (n.applied m []).state.instanceAt? m.height =
        some (s.learn m).state := by
      unfold applied
      dsimp only
      rw [hadvanced]
      dsimp only
      have hkeptHeight : s.height = m.height := height_of_instanceAt? hkept
      have hheight : (s.learn m).state.height = m.height := by
        rw [Instance.learn_eq_decide hopen hvalue hroot]
        exact hkeptHeight
      have hset := instanceAt?_setInstance hadvanced hheight
      split
      · exact hset
      · exact hset
      · exact hset
    rw [← halike.instanceAt?_eq, hkept, Instance.learn_eq_decide hopen hvalue hroot,
      Option.some.injEq] at hdecided
    have hfinal := congrArg Instance.decided hdecided
    rw [hopen] at hfinal
    cases hfinal

/-! ### Calls -/

/-- A message is lost: the node is told of a decision that is news to it, and does not take it
because the stored decision cannot be read. -/
structure Lost (seat : Seat S) (disk : Disk) (n : Node S) (m : SignedMessage S) : Prop where
  kind_eq : messageKind seat.committee m = .decided
  valid : validateDecided seat m = .ok ()
  unread : ∃ e, disk.read = .error e
  news : IsNews n m

/-- A message is lost on a call. -/
def Loses (seat : Seat S) (n : Node S) (c : Call S) : Prop :=
  ∃ m, c.event = .receive m ∧ Lost seat c.env.disk n m

theorem agree_receiveDecided_of_not_lost (h : Alike n u)
    (hkind : messageKind seat.committee m = .decided) (hlost : ¬ Lost seat disk u m) :
    Agree returned (n.receiveDecided seat ⟨net, .reliable⟩ m)
      (u.receiveDecided seat ⟨net, disk⟩ m) := by
  cases hvalid : validateDecided seat m with
  | error e =>
    rw [receiveDecided_of_invalid hvalid, receiveDecided_of_invalid hvalid]
    exact .refuse h e
  | ok _ =>
    have hreliable : Agree returned (n.receiveDecided seat ⟨net, .reliable⟩ m) (u.applied m []) :=
      (agree_receiveDecided hvalid rfl).symm.trans (agree_applied h m [] [])
    cases hread : disk.read with
    | ok _ => exact hreliable.trans (agree_receiveDecided hvalid hread)
    | error e =>
      have hrefuse : u.receiveDecided seat ⟨net, disk⟩ m = .refuse u (.storage e) :=
        receiveDecided_of_unread hvalid hread
      have hold : ¬ IsNews u m := fun hnews => hlost ⟨hkind, hvalid, ⟨e, hread⟩, hnews⟩
      rw [hrefuse]
      exact hreliable.trans (agree_refuse_of_not_news hold (.storage e))

theorem agree_receive_of_not_lost (h : Alike n u) (hlost : ¬ Lost seat disk u m) :
    Agree returned (n.receive seat ⟨net, .reliable⟩ m) (u.receive seat ⟨net, disk⟩ m) := by
  unfold receive
  dsimp only
  split
  · rename_i hkind
    exact (agree_receiveDecided_of_not_lost h hkind hlost).countMessage _
  · exact (agree_receivePlain h m).countMessage _

theorem not_alike_receive_of_lost (h : Alike n u) (hlost : Lost seat disk u m) :
    ¬ Alike (n.receive seat ⟨net, .reliable⟩ m).state (u.receive seat ⟨net, disk⟩ m).state := by
  obtain ⟨hkind, hvalid, ⟨e, hread⟩, hnews⟩ := hlost
  intro halike
  have hrefuse : u.receiveDecided seat ⟨net, disk⟩ m = .refuse u (.storage e) :=
    receiveDecided_of_unread hvalid hread
  unfold receive at halike
  dsimp only at halike
  rw [if_pos hkind, if_pos hkind, hrefuse] at halike
  have hreliable : Agree returned (u.applied m []) (n.receiveDecided seat ⟨net, .reliable⟩ m) :=
    (agree_applied h m [] []).symm.trans (agree_receiveDecided hvalid rfl)
  have happlied := (hreliable.countMessage _).state.trans halike
  exact not_alike_of_news hnews
    (((Alike.countMessage _ _).trans happlied).trans (Alike.countMessage _ _).symm)

theorem not_loses_of_ne_receive {c : Call S} (h : ∀ m, c.event ≠ .receive m) :
    ¬ Loses seat n c := by
  rintro ⟨m, hm, -⟩
  exact h m hm

/-- A call goes as it does on a disk that does not fail exactly if no message is lost on it. -/
theorem agree_step_iff (h : Alike n u) {c : Call S} (hload : c.event ≠ .load) :
    Agree decidedOf (c.onReliable.step seat n) (c.step seat u) ↔ ¬ Loses seat u c := by
  obtain ⟨⟨net, disk⟩, e⟩ := c
  cases e with
  | start value =>
    refine iff_of_true ?_ (not_loses_of_ne_receive nofun)
    exact (agree_start h value).mapAnswer fun answer =>
      decidedOf_map_eq_none answer .started fun _ => rfl
  | timeout height round =>
    refine iff_of_true ?_ (not_loses_of_ne_receive nofun)
    exact (agree_timeout h height round).mapAnswer fun answer =>
      decidedOf_map_eq_none answer (fun _ => .timedOut) fun _ => rfl
  | load => exact absurd rfl hload
  | receive m =>
    constructor
    · rintro hagree ⟨x, hx, hlost⟩
      obtain rfl := Event.receive.inj hx
      exact not_alike_receive_of_lost h hlost hagree.state
    · intro hnone
      have hlost : ¬ Lost seat disk u m := fun hlost => hnone ⟨m, rfl, hlost⟩
      exact (agree_receive_of_not_lost h hlost).mapAnswer decidedOf_received

end Operations

/-! ### Runs -/

section Runs

variable {seat : Seat S} {n : Node S} {calls : List (Call S)}

/-- If every call goes as it does on a disk that does not fail, the nodes are alike after them. -/
theorem alike_of_agree (h : ∀ past c, past ++ [c] <+: calls →
      Agree decidedOf (c.onReliable.step seat (play seat n (past.map Call.onReliable)))
        (c.step seat (play seat n past))) :
    Alike (play seat n (calls.map Call.onReliable)) (play seat n calls) := by
  rcases List.eq_nil_or_concat calls with rfl | ⟨past, c, rfl⟩
  · exact .refl n
  · rw [List.concat_eq_append] at h ⊢
    rw [List.map_append, List.map_singleton, play_concat, play_concat]
    exact (h past c (List.prefix_refl _)).state

/-- If nothing is lost on any call, the nodes are alike after the calls. -/
theorem alike_of_not_loses (hload : ∀ c ∈ calls, c.event ≠ .load)
    (h : ∀ past c, past ++ [c] <+: calls → ¬ Loses seat (play seat n past) c) :
    Alike (play seat n (calls.map Call.onReliable)) (play seat n calls) := by
  induction calls using List.reverseRecOn with
  | nil => exact .refl n
  | append_singleton past c ih =>
    have hpast := ih (fun x hx => hload x (List.mem_append_left _ hx))
      (fun before x hx => h before x (hx.trans (List.prefix_append past [c])))
    rw [List.map_append, List.map_singleton, play_concat, play_concat]
    have hc := hload c (List.mem_append_right _ List.mem_cons_self)
    exact ((agree_step_iff hpast hc).2 (h past c (List.prefix_refl _))).state

end Runs

/-- On calls that do not load the stored decision, a node whose disk fails has the instances and the
height, asks for the effects and returns the decisions that it does on a disk that does not fail, at
every call, exactly if no message is lost on any of them: each decided message that is news to the
node comes while the stored decision can be read. -/
theorem agrees_iff_nothing_lost (seat : Seat S) (capacity : ℕ) (archive : Archive S)
    (calls : List (Call S)) (hload : ∀ c ∈ calls, c.event ≠ .load) :
    (∀ past c, past ++ [c] <+: calls →
      Agree decidedOf
        (c.onReliable.step seat (play seat (new capacity archive) (past.map Call.onReliable)))
        (c.step seat (play seat (new capacity archive) past))) ↔
    ∀ past c, past ++ [c] <+: calls → ¬ Loses seat (play seat (new capacity archive) past) c := by
  constructor
  · intro hagree past c hc
    have hpast := alike_of_agree fun before x hx =>
      hagree before x ((hx.trans (List.prefix_append past [c])).trans hc)
    have hcall := hload c (hc.subset (List.mem_append_right _ List.mem_cons_self))
    exact (agree_step_iff hpast hcall).1 (hagree past c hc)
  · intro hnone past c hc
    have hbefore := (List.prefix_append past [c]).trans hc
    have hpast := alike_of_not_loses (fun x hx => hload x (hbefore.subset hx))
      fun before x hx => hnone before x (hx.trans hbefore)
    have hcall := hload c (hc.subset (List.mem_append_right _ List.mem_cons_self))
    exact (agree_step_iff hpast hcall).2 (hnone past c hc)

/-! ### A disk that fails -/

namespace Unreadable

open Scheme

/-- A disk that can be neither read nor written. -/
def unreadable : Surroundings plain :=
  ⟨.reliable plain, .error ⟨"disk is unreadable"⟩, .error ⟨"disk is unreadable"⟩⟩

/-- A disk that can be read, but not written. -/
def full : Surroundings plain := ⟨.reliable plain, .ok (), .error ⟨"disk is full"⟩⟩

/-- The node before its first start. -/
def node : Node plain := new 5 Archive.empty

/-- Member 1 starts and accepts the proposal. -/
def opening : List (Call plain) :=
  [.start plain.value, .receive (plain.message 1 (.propose plain.value [] []))].map
    (.mk (.reliable plain))

/-- Member 1 starts and prepares while the disk fails. The certificate comes while it is full. -/
def preparing : List (Call plain) :=
  .mk unreadable (.start plain.value) :: plain.preparation.map (.mk unreadable ∘ .receive) ++
    [⟨full, .receive plain.certificate⟩]

theorem eq_of_mem_preparing {c : Call plain} (h : c ∈ preparing) :
    c = ⟨unreadable, .start plain.value⟩ ∨
      (∃ m ∈ plain.preparation, c = ⟨unreadable, .receive m⟩) ∨
      c = ⟨full, .receive plain.certificate⟩ := by
  rcases List.mem_append.1 h with h | h
  · rcases List.mem_cons.1 h with h | h
    · exact .inl h
    · obtain ⟨m, hm, rfl⟩ := List.mem_map.1 h
      exact .inr (.inl ⟨m, hm, rfl⟩)
  · exact .inr (.inr (List.mem_singleton.1 h))

end Unreadable

/-- A node decides although its disk fails at every call, as it does on one that does not fail. -/
theorem agrees_on_full_disk :
    (∀ c ∈ Unreadable.preparing, c.event ≠ .load) ∧
      ((play Scheme.plain.seat Unreadable.node Unreadable.preparing).instanceAt? Height.first).map
        Instance.decided = some (some Scheme.plain.value) ∧
      ∀ past c, past ++ [c] <+: Unreadable.preparing →
        Agree decidedOf
          (c.onReliable.step Scheme.plain.seat
            (play Scheme.plain.seat Unreadable.node (past.map Call.onReliable)))
          (c.step Scheme.plain.seat (play Scheme.plain.seat Unreadable.node past)) := by
  have hload : ∀ c ∈ Unreadable.preparing, c.event ≠ .load := by
    intro c hc
    rcases Unreadable.eq_of_mem_preparing hc with rfl | ⟨m, -, rfl⟩ | rfl <;> exact nofun
  refine ⟨hload, by decide +kernel, ?_⟩
  refine (agrees_iff_nothing_lost Scheme.plain.seat 5 Archive.empty _ hload).2 ?_
  rintro past c hc ⟨m, hm, hlost⟩
  have hmem := hc.subset (List.mem_append_right past List.mem_cons_self)
  rcases Unreadable.eq_of_mem_preparing hmem with rfl | ⟨x, hx, rfl⟩ | rfl
  · cases hm
  -- no message before the certificate is decided
  · obtain rfl := Event.receive.inj hm
    have hkind : ∀ m ∈ Scheme.plain.preparation,
        messageKind Scheme.plain.seat.committee m ≠ .decided := by decide +kernel
    exact hkind x hx hlost.kind_eq
  · obtain ⟨e, he⟩ := hlost.unread
    cases he

/-- A node does not take the certificate of a decision, and does not decide, because the disk cannot
tell which decision is stored. On a disk that does not fail it decides. -/
theorem certificate_lost :
    let seat := Scheme.plain.seat
    let c : Call Scheme.plain := ⟨Unreadable.unreadable, .receive Scheme.plain.certificate⟩
    let failing := c.step seat (play seat Unreadable.node Unreadable.opening)
    let reliable := c.onReliable.step seat
      (play seat Unreadable.node (Unreadable.opening.map Call.onReliable))
    failing.answer = .error (.storage ⟨"disk is unreadable"⟩) ∧
      (failing.state.instanceAt? Height.first).map Instance.decided = some none ∧
      decidedOf reliable.answer =
        some ⟨Height.first, Scheme.plain.value, Scheme.plain.certificate, []⟩ ∧
      ¬ Agree decidedOf reliable failing := by
  intro seat c failing reliable
  have hreceive : ((play seat Unreadable.node Unreadable.opening).receive seat
      Unreadable.unreadable Scheme.plain.certificate).answer =
        .error (.storage ⟨"disk is unreadable"⟩) := by decide +kernel
  have hanswer : failing.answer = .error (.storage ⟨"disk is unreadable"⟩) :=
    congrArg (Except.map Answer.received) hreceive
  have hdecided : decidedOf reliable.answer =
      some ⟨Height.first, Scheme.plain.value, Scheme.plain.certificate, []⟩ := by
    decide +kernel
  refine ⟨hanswer, by decide +kernel, hdecided, fun hagree => ?_⟩
  have hsame := hagree.decided_eq
  rw [hdecided, hanswer] at hsame
  cases hsame

end Node
end Conclave
