import Conclave.Proofs.Instance.Network
import Conclave.Proofs.Node.Calls
import Conclave.Proofs.Node.Decided

/-!
# A node and a network that fails

A node sends the messages of its instances and announces its decisions. Whatever the network takes
of these, the node and its instances go through the same states, and ask for the same effects in the
same order. The answers tell of the failures: one that is not an error anyway is the failure of the
first message that was not taken, and a decision lists the announcement that was not
(`network_changes_answers_only`).

* `SameButCounts` are nodes that differ in what they count, which failures are a part of;
* `Over` compares an operation with the same one over a reliable network;
* `Once` are the effects of operations: nothing is sent or announced twice.
-/

namespace Conclave

variable {S : Scheme}

/-- The decisions that effects announce. -/
def Node.announcedBy (effects : List (Effect S)) : List (SignedMessage S) :=
  effects.filterMap fun
    | .announce m => some m
    | _ => none

/-- The announcements among effects that the network does not take. -/
def Network.unannounced (net : Network S) (effects : List (Effect S)) :
    List Node.SideEffectError :=
  (Node.announcedBy effects).filterMap fun m =>
    match net.announce m with
    | .ok () => none
    | .error e => some (.broadcast e)

namespace Node

/-- The decision with more side effects that failed. -/
def Decided.noting (errors : List SideEffectError) (d : Decided S) : Decided S :=
  { d with sideEffectErrors := d.sideEffectErrors ++ errors }

/-- The answer with more side effects that failed, if it holds a decision. -/
def Answer.noting (errors : List SideEffectError) : Answer S → Answer S
  | .received decided => .received (decided.map (Decided.noting errors))
  | answer => answer

/-! ### Announcements -/

section Announcements

variable {net : Network S} {effects : List (Effect S)}

@[simp] theorem announcedBy_append (effects effects' : List (Effect S)) :
    announcedBy (effects ++ effects') = announcedBy effects ++ announcedBy effects' :=
  List.filterMap_append

theorem announcedBy_sublist_published (effects : List (Effect S)) :
    (announcedBy effects).Sublist (published effects) := by
  induction effects with
  | nil => exact .slnil
  | cons effect effects ih =>
    cases effect with
    | announce m => exact ih.cons_cons m
    | save m => exact ih.cons m
    | broadcast m => exact ih
    | schedule height round => exact ih
    | cancel height => exact ih

/-- Effects that send and announce nothing. -/
structure Silent (effects : List (Effect S)) : Prop where
  sentBy_eq : Instance.sentBy effects = []
  announcedBy_eq : announcedBy effects = []

namespace Silent

theorem nil : Silent ([] : List (Effect S)) := ⟨rfl, rfl⟩

theorem append {effects' : List (Effect S)} (h : Silent effects) (h' : Silent effects') :
    Silent (effects ++ effects') where
  sentBy_eq := by rw [Instance.sentBy_append, h.sentBy_eq, h'.sentBy_eq, List.append_nil]
  announcedBy_eq := by rw [announcedBy_append, h.announcedBy_eq, h'.announcedBy_eq, List.append_nil]

theorem failure?_eq (h : Silent effects) : net.failure? effects = none :=
  Network.failure?_of_sentBy_eq_nil h.sentBy_eq

theorem unannounced_eq (h : Silent effects) : net.unannounced effects = [] := by
  rw [Network.unannounced, h.announcedBy_eq, List.filterMap_nil]

end Silent

/-- An instance announces nothing on its own. -/
theorem announcedBy_step (seat : Seat S) (net : Network S) (s : Instance S)
    (e : Instance.Event S) :
    announcedBy (Instance.step seat net s e).effects = [] := by
  have h := announcedBy_sublist_published (Instance.step seat net s e).effects
  rw [published_step] at h
  exact List.sublist_nil.1 h

/-- An instance that learns of a decision sends nothing. -/
theorem silent_learn (s : Instance S) (m : SignedMessage S) : Silent (s.learn m).effects := by
  unfold Instance.learn
  split
  · exact .nil
  split
  · exact .nil
  split
  · exact .nil
  · exact ⟨rfl, rfl⟩

theorem Decided.noting_nil (d : Decided S) : d.noting [] = d := by
  rw [noting, List.append_nil]

theorem map_noting_nil (decided : Option (Decided S)) :
    decided.map (Decided.noting []) = decided := by
  cases decided with
  | none => rfl
  | some d => rw [Option.map_some, Decided.noting_nil]

end Announcements

/-! ### Nodes that differ in what they count -/

/-- Two nodes that differ in nothing but what they count. -/
structure SameButCounts (n u : Node S) : Prop where
  height_eq : u.height = n.height
  instances_eq : u.instances = n.instances
  archive_eq : u.archive = n.archive

/-- Two operations that end alike, but for what the nodes count. -/
structure SameEnd {ε α : Type} (o' o : Step S (Node S) ε α) : Prop where
  state : SameButCounts o'.state o.state
  effects_eq : o.effects = o'.effects
  answer_eq : o.answer = o'.answer

namespace SameButCounts

variable {n u : Node S}

theorem refl (n : Node S) : SameButCounts n n := ⟨rfl, rfl, rfl⟩

theorem advanceTo (h : SameButCounts n u) (height : Height) :
    SameButCounts (n.advanceTo height) (u.advanceTo height) := by
  unfold Node.advanceTo
  rw [h.height_eq]
  split
  · exact ⟨rfl, h.instances_eq, h.archive_eq⟩
  · exact h

theorem setInstance (h : SameButCounts n u) (height : Height) (s : Instance S) :
    SameButCounts (n.setInstance height s) (u.setInstance height s) :=
  ⟨h.height_eq, congrArg (Recent.update · _ _) h.instances_eq, h.archive_eq⟩

theorem instanceAt?_eq (h : SameButCounts n u) (height : Height) :
    u.instanceAt? height = n.instanceAt? height :=
  instanceAt?_congr h.instances_eq

theorem isHighest_eq (h : SameButCounts n u) (seat : Seat S) (disk : Disk) (height : Height) :
    u.isHighest seat disk height = n.isHighest seat disk height := by
  rw [isHighest, h.archive_eq, isHighest]

theorem save (h : SameButCounts n u) (seat : Seat S) (disk : Disk) (m : SignedMessage S) :
    SameEnd (n.save seat disk m) (u.save seat disk m) := by
  unfold Node.save
  rw [h.archive_eq]
  split
  · exact ⟨⟨h.height_eq, h.instances_eq, rfl⟩, rfl, rfl⟩
  · exact ⟨h, rfl, rfl⟩

theorem saveIfHighest (h : SameButCounts n u) (seat : Seat S) (disk : Disk) (height : Height)
    (m : SignedMessage S) :
    SameEnd (n.saveIfHighest seat disk height m) (u.saveIfHighest seat disk height m) := by
  unfold Node.saveIfHighest
  rw [h.isHighest_eq]
  split
  · exact ⟨h, rfl, rfl⟩
  · exact ⟨h, rfl, rfl⟩
  · exact h.save seat disk m

theorem countFailure (h : SameButCounts n u) (effect : SideEffect) :
    SameButCounts n (u.countFailure effect) := ⟨h.height_eq, h.instances_eq, h.archive_eq⟩

theorem countMessage {o' o : Step S (Node S) Error (Option (Decided S))}
    (h : SameButCounts o'.state o.state) (kind : MessageKind) :
    SameButCounts (countMessage kind o').state (countMessage kind o).state :=
  ⟨h.height_eq, h.instances_eq, h.archive_eq⟩

end SameButCounts

theorem SameEnd.after {ε α : Type} {o' o : Step S (Node S) ε α} (h : SameEnd o' o)
    (effects : List (Effect S)) : SameEnd (o'.after effects) (o.after effects) :=
  ⟨h.state, congrArg (effects ++ ·) h.effects_eq, h.answer_eq⟩

/-- What is noted of an attempt to store a decision. -/
theorem SameEnd.noteSave {o' o : Step S (Node S) StorageError Unit} (h : SameEnd o' o) :
    SameButCounts (noteSave o').1 (noteSave o).1 ∧ (noteSave o).2 = (noteSave o').2 := by
  unfold Node.noteSave
  rw [h.answer_eq]
  split
  · exact ⟨h.state, rfl⟩
  · exact ⟨⟨h.state.height_eq, h.state.instances_eq, h.state.archive_eq⟩, rfl⟩

/-! ### Operations -/

/-- An operation over a network, compared with the same one over a reliable network: only counts and
the answer differ. -/
structure Over {α : Type} (net : Network S) (note : List SideEffectError → α → α)
    (o' o : Step S (Node S) Error α) : Prop where
  state : SameButCounts o'.state o.state
  effects_eq : o.effects = o'.effects
  answer_eq : o.answer = net.outcome o'.effects (.rejected ∘ .broadcast)
    (o'.answer.map (note (net.unannounced o'.effects)))

section Operations

variable {seat : Seat S} {net : Network S} {disk : Disk} {n u : Node S} {α β : Type}
  {note : List SideEffectError → α → α} {o' o : Step S (Node S) Error α} {m : SignedMessage S}

theorem Over.mapAnswer {note' : List SideEffectError → β → β} (h : Over net note o' o) (f : α → β)
    (hf : ∀ errors a, f (note errors a) = note' errors (f a)) :
    Over net note' (o'.mapAnswer f) (o.mapAnswer f) := by
  refine ⟨h.state, h.effects_eq, ?_⟩
  rw [Step.mapAnswer, h.answer_eq, Network.outcome_map]
  cases hanswer : o'.answer with
  | error e => simp only [Step.mapAnswer, hanswer, Except.map]
  | ok a => simp only [Step.mapAnswer, hanswer, Except.map, hf]

/-- An operation that sends and announces nothing. -/
theorem Over.of_silent {o' o : Step S (Node S) Error (Option (Decided S))} (h : SameEnd o' o)
    (hsilent : Silent o'.effects) : Over net (Option.map ∘ Decided.noting) o' o := by
  refine ⟨h.state, h.effects_eq, ?_⟩
  rw [hsilent.unannounced_eq, Network.outcome_of_no_failure hsilent.failure?_eq, h.answer_eq]
  cases o'.answer with
  | error e => rfl
  | ok decided => exact congrArg Except.ok (map_noting_nil decided).symm

/-- What is silent before an operation makes no difference to it. -/
theorem Over.after (h : Over net note o' o) {effects : List (Effect S)} (hsilent : Silent effects) :
    Over net note (o'.after effects) (o.after effects) := by
  have hfailure : net.failure? (effects ++ o'.effects) = net.failure? o'.effects := by
    rw [Network.failure?_append, hsilent.failure?_eq, Option.none_or]
  have hunannounced : net.unannounced (effects ++ o'.effects) = net.unannounced o'.effects := by
    rw [Network.unannounced, announcedBy_append, hsilent.announcedBy_eq, List.nil_append,
      Network.unannounced]
  refine ⟨h.state, congrArg (effects ++ ·) h.effects_eq, h.answer_eq.trans ?_⟩
  unfold Step.after Network.outcome
  rw [hfailure, hunannounced]

theorem over_refuse (h : SameButCounts n u) (e : Error) :
    Over net note (.refuse n e) (.refuse u e) :=
  ⟨h, rfl, rfl⟩

theorem over_start (h : SameButCounts n u) (value : Value S) :
    Over net (fun _ a => a) (n.start seat ⟨.reliable S, disk⟩ value)
      (u.start seat ⟨net, disk⟩ value) := by
  unfold start
  simp only [h.height_eq, h.instanceAt?_eq]
  split
  · exact over_refuse h _
  split
  · exact over_refuse h _
  split
  · exact over_refuse h _
  rename_i height hnext
  rw [Instance.start_across seat net]
  refine ⟨⟨rfl, congrArg (Recent.push · _) h.instances_eq, h.archive_eq⟩, rfl, ?_⟩
  dsimp only [Step.across]
  rw [Network.outcome_map, Network.outcome_mapError]
  generalize (Except.mapError Error.rejected _) = answer
  cases answer <;> rfl

theorem over_timeout (h : SameButCounts n u) (height : Height) (round : Round) :
    Over net (fun _ a => a) (n.timeout seat ⟨.reliable S, disk⟩ height round)
      (u.timeout seat ⟨net, disk⟩ height round) := by
  unfold timeout
  simp only [h.instanceAt?_eq]
  split
  · exact over_refuse h _
  rename_i s hs
  rw [Instance.timeout_across seat net]
  refine ⟨h.setInstance height _, rfl, ?_⟩
  dsimp only [Step.across]
  rw [Network.outcome_mapError]
  generalize (Except.mapError Error.rejected _) = answer
  cases answer <;> rfl

theorem over_load (h : SameButCounts n u) :
    Over net (fun _ a => a) (n.load seat ⟨.reliable S, disk⟩) (u.load seat ⟨net, disk⟩) := by
  unfold load
  rw [h.archive_eq]
  dsimp only
  split
  · exact over_refuse h _
  · exact ⟨h, rfl, rfl⟩
  · exact ⟨h.advanceTo _, rfl, rfl⟩

/-- Storing a decision sends and announces nothing. -/
theorem silent_save (seat : Seat S) (disk : Disk) (n : Node S) (m : SignedMessage S) :
    Silent (n.save seat disk m).effects := by
  unfold save
  split <;> exact ⟨rfl, rfl⟩

theorem silent_saveIfHighest (seat : Seat S) (disk : Disk) (n : Node S) (height : Height)
    (m : SignedMessage S) : Silent (n.saveIfHighest seat disk height m).effects := by
  unfold saveIfHighest
  split
  · exact .nil
  · exact .nil
  · exact silent_save _ _ n m

theorem effects_conclude (seat : Seat S) (env : Surroundings S) (n : Node S) (height : Height)
    (decision : Decision S) :
    Instance.sentBy (n.conclude seat env height decision).effects = [] ∧
      announcedBy (n.conclude seat env height decision).effects = [decision.commit] := by
  unfold conclude
  obtain ⟨hsent, hannounced⟩ := silent_saveIfHighest seat env.disk
    { n with metrics := n.metrics.decided decision.commit.round } height decision.commit
  constructor
  · rw [Instance.sentBy_append, hsent]
    rfl
  · rw [announcedBy_append, hannounced]
    rfl

/-- A failure to announce a decision is counted and noted. -/
theorem noteAnnouncement_eq (net : Network S) {effects : List (Effect S)}
    (hannounced : announcedBy effects = [m])
    (h : SameButCounts n u) (errors : List SideEffectError) :
    SameButCounts n (noteAnnouncement (net.announce m) u errors).1 ∧
      (noteAnnouncement (net.announce m) u errors).2 = errors ++ net.unannounced effects := by
  rw [Network.unannounced, hannounced]
  cases hsend : net.announce m with
  | ok _ => exact ⟨h, by simp [noteAnnouncement, hsend]⟩
  | error e => exact ⟨h.countFailure .broadcast, by simp [noteAnnouncement, hsend]⟩

theorem over_conclude (h : SameButCounts n u) (height : Height) (decision : Decision S) :
    Over net (Option.map ∘ Decided.noting)
      (n.conclude seat ⟨.reliable S, disk⟩ height decision)
      (u.conclude seat ⟨net, disk⟩ height decision) := by
  have hcounted : SameButCounts
      { n with metrics := n.metrics.decided decision.commit.round }
      { u with metrics := u.metrics.decided decision.commit.round } :=
    ⟨h.height_eq, h.instances_eq, h.archive_eq⟩
  have hsaved := hcounted.saveIfHighest seat disk height decision.commit
  obtain ⟨hnoted, herrors⟩ := hsaved.noteSave
  obtain ⟨hsent, hannounced⟩ := effects_conclude seat ⟨.reliable S, disk⟩ n height decision
  obtain ⟨hstate, hlist⟩ := noteAnnouncement_eq net hannounced hnoted
    (noteSave (saveIfHighest seat disk
      { u with metrics := u.metrics.decided decision.commit.round } height decision.commit)).2
  refine ⟨hstate, ?_, ?_⟩
  · exact congrArg (fun effects => effects ++ [Effect.announce decision.commit]) hsaved.effects_eq
  · rw [Network.outcome_of_no_failure (Network.failure?_of_sentBy_eq_nil hsent)]
    have herrors' := hlist.trans (congrArg (· ++ _) herrors)
    exact congrArg (fun errors => Except.ok (some (Decided.mk height decision.value decision.commit
      errors))) herrors'

theorem over_receivePlain (h : SameButCounts n u) (m : SignedMessage S) :
    Over net (Option.map ∘ Decided.noting) (n.receivePlain seat ⟨.reliable S, disk⟩ m)
      (u.receivePlain seat ⟨net, disk⟩ m) := by
  unfold receivePlain
  simp only [h.instanceAt?_eq]
  split
  · exact over_refuse h _
  split
  · exact over_refuse h _
  rename_i s hs
  have hset := h.setInstance m.height (s.receive seat (.reliable S) m).state
  rw [Instance.receive_across seat net]
  dsimp only [Step.across]
  cases hanswer : (s.receive seat (.reliable S) m).answer with
  | error e => exact ⟨hset, rfl, rfl⟩
  | ok decided =>
    cases decided with
    | none =>
      cases hfailure : net.failure? (s.receive seat (.reliable S) m).effects with
      | none =>
        rw [Network.outcome_of_no_failure hfailure]
        exact ⟨hset, rfl, (Network.outcome_of_no_failure hfailure _).symm⟩
      | some e =>
        rw [Network.outcome_of_failure hfailure]
        refine ⟨hset, rfl, ?_⟩
        dsimp only [Except.map]
        rw [Network.outcome_of_failure hfailure, Function.comp]
    -- an instance that decides has sent nothing that could fail before the decision
    | some decision =>
      have hsilent : Silent (s.receive seat (.reliable S) m).effects :=
        ⟨Instance.sentBy_receive_of_decision hanswer,
          announcedBy_step seat (.reliable S) s (.receive m)⟩
      rw [Network.outcome_of_no_failure hsilent.failure?_eq]
      exact (over_conclude hset m.height decision).after hsilent

theorem silent_applied (n : Node S) (m : SignedMessage S) (errors : List SideEffectError) :
    Silent (n.applied m errors).effects := by
  rcases effects_applied n m errors with h | ⟨s, h⟩
  · rw [h]
    exact .nil
  · rw [h]
    exact silent_learn s m

/-- A decided message leads to no message and no announcement. -/
theorem silent_receiveDecided (seat : Seat S) (env : Surroundings S) (n : Node S)
    (m : SignedMessage S) : Silent (n.receiveDecided seat env m).effects := by
  cases hvalid : validateDecided seat m with
  | error e =>
    rw [receiveDecided_of_invalid hvalid]
    exact .nil
  | ok _ =>
    cases hread : env.disk.read with
    | error e =>
      rw [receiveDecided_of_unread hvalid hread]
      exact .nil
    | ok _ =>
      rw [receiveDecided_of_read hvalid hread]
      exact (silent_saveIfHighest ..).append (silent_applied ..)

theorem sameEnd_applied (h : SameButCounts n u) (m : SignedMessage S)
    (errors : List SideEffectError) : SameEnd (n.applied m errors) (u.applied m errors) := by
  have hadvanced := h.advanceTo m.height
  unfold applied
  simp only [hadvanced.instanceAt?_eq]
  split
  · exact ⟨hadvanced, rfl, rfl⟩
  rename_i s hs
  have hset := hadvanced.setInstance m.height (s.learn m).state
  split
  · exact ⟨hset, rfl, rfl⟩
  · exact ⟨hset, rfl, rfl⟩
  · exact ⟨⟨hset.height_eq, hset.instances_eq, hset.archive_eq⟩, rfl, rfl⟩

theorem sameEnd_receiveDecided (h : SameButCounts n u) (net' net : Network S)
    (m : SignedMessage S) :
    SameEnd (n.receiveDecided seat ⟨net', disk⟩ m) (u.receiveDecided seat ⟨net, disk⟩ m) := by
  cases hvalid : validateDecided seat m with
  | error e =>
    rw [receiveDecided_of_invalid hvalid, receiveDecided_of_invalid hvalid]
    exact ⟨h, rfl, rfl⟩
  | ok _ =>
    cases hread : disk.read with
    | error e =>
      have hrefuse : ∀ (net : Network S) (n : Node S),
          n.receiveDecided seat ⟨net, disk⟩ m = .refuse n (.storage e) :=
        fun net n => receiveDecided_of_unread hvalid hread
      rw [hrefuse, hrefuse]
      exact ⟨h, rfl, rfl⟩
    | ok _ =>
      have hreceive : ∀ (net : Network S) (n : Node S), n.receiveDecided seat ⟨net, disk⟩ m = _ :=
        fun net n => receiveDecided_of_read hvalid hread
      have hsaved := h.saveIfHighest seat disk m.height m
      obtain ⟨hnoted, herrors⟩ := hsaved.noteSave
      rw [hreceive, hreceive]
      dsimp only
      rw [herrors, hsaved.effects_eq]
      exact (sameEnd_applied hnoted m _).after _

theorem over_receiveDecided (h : SameButCounts n u) (m : SignedMessage S) :
    Over net (Option.map ∘ Decided.noting) (n.receiveDecided seat ⟨.reliable S, disk⟩ m)
      (u.receiveDecided seat ⟨net, disk⟩ m) :=
  .of_silent (sameEnd_receiveDecided h (.reliable S) net m) (silent_receiveDecided ..)

theorem over_countMessage (kind : MessageKind)
    {o' o : Step S (Node S) Error (Option (Decided S))}
    (h : Over net (Option.map ∘ Decided.noting) o' o) :
    Over net (Option.map ∘ Decided.noting) (countMessage kind o') (countMessage kind o) :=
  ⟨h.state.countMessage kind, h.effects_eq, h.answer_eq⟩

theorem over_receive (h : SameButCounts n u) (m : SignedMessage S) :
    Over net (Option.map ∘ Decided.noting) (n.receive seat ⟨.reliable S, disk⟩ m)
      (u.receive seat ⟨net, disk⟩ m) := by
  unfold receive
  dsimp only
  split
  · exact over_countMessage _ (over_receiveDecided h m)
  · exact over_countMessage _ (over_receivePlain h m)

/-- What a node does on an event is what it does over a reliable network, but for the answer. -/
theorem step_over (h : SameButCounts n u) (e : Event S) :
    Over net Answer.noting (step seat ⟨.reliable S, disk⟩ n e) (step seat ⟨net, disk⟩ u e) := by
  cases e with
  | start value => exact (over_start h value).mapAnswer _ fun _ _ => rfl
  | receive m => exact (over_receive h m).mapAnswer _ fun _ _ => rfl
  | timeout height round => exact (over_timeout h height round).mapAnswer _ fun _ _ => rfl
  | load => exact (over_load h).mapAnswer _ fun _ _ => rfl

/-! ### What a node gives to the network -/

/-- Effects that do not send or announce a message twice. -/
def Once (effects : List (Effect S)) : Prop :=
  (Instance.sentBy effects).Nodup ∧ (announcedBy effects).Nodup

theorem Silent.once {effects : List (Effect S)} (h : Silent effects) : Once effects := by
  rw [Once, h.sentBy_eq, h.announcedBy_eq]
  exact ⟨List.nodup_nil, List.nodup_nil⟩

theorem once_instance (net : Network S) (s : Instance S) (e : Instance.Event S) :
    Once (Instance.step seat net s e).effects := by
  refine ⟨Instance.nodup_sentBy_step seat net s e, ?_⟩
  rw [announcedBy_step seat net s e]
  exact List.nodup_nil

theorem once_receivePlain (env : Surroundings S) (n : Node S) (m : SignedMessage S) :
    Once (n.receivePlain seat env m).effects := by
  unfold receivePlain
  split
  · exact Silent.nil.once
  split
  · exact Silent.nil.once
  rename_i s hs
  have hmoved : Once (s.receive seat env.network m).effects :=
    once_instance env.network s (.receive m)
  have hannounced : announcedBy (s.receive seat env.network m).effects = [] :=
    announcedBy_step seat env.network s (.receive m)
  dsimp only
  split
  · exact hmoved
  · exact hmoved
  · rename_i decision hanswer
    obtain ⟨hsent, hcommit⟩ := effects_conclude seat env
      (n.setInstance m.height (s.receive seat env.network m).state) m.height decision
    constructor
    · rw [Step.after, Instance.sentBy_append, hsent, List.append_nil]
      exact hmoved.1
    · rw [Step.after, announcedBy_append, hannounced, hcommit]
      exact List.nodup_singleton _

/-- A node does not send or announce a message twice in an operation. -/
theorem once_step (seat : Seat S) (env : Surroundings S) (n : Node S) (e : Event S) :
    Once (step seat env n e).effects := by
  cases e with
  | start value =>
    rw [step, Step.mapAnswer, start]
    split
    · exact Silent.nil.once
    split
    · exact Silent.nil.once
    split
    · exact Silent.nil.once
    · exact once_instance env.network _ (.start value)
  | receive m =>
    rw [step, Step.mapAnswer, receive]
    dsimp only [countMessage]
    split
    · exact (silent_receiveDecided seat env n m).once
    · exact once_receivePlain env n m
  | timeout height round =>
    rw [step, Step.mapAnswer, timeout]
    split
    · exact Silent.nil.once
    · exact once_instance env.network _ (.timeout round)
  | load =>
    rw [step, Step.mapAnswer, load]
    split <;> exact Silent.nil.once

end Operations

/-! ### Runs -/

/-- Calls lead to the node that they lead to over a network that takes everything, but for its
counts. -/
theorem play_overReliable (seat : Seat S) (n : Node S) (calls : List (Call S)) :
    SameButCounts (play seat n (calls.map Call.overReliable)) (play seat n calls) := by
  induction calls using List.reverseRecOn with
  | nil => exact .refl n
  | append_singleton past c ih =>
    rw [List.map_append, List.map_singleton, play_concat, play_concat]
    exact (step_over ih c.event).state

/-- Whatever the network does not take on the way, an instance and a node are in the states, ask for
the effects and give the answers that they do while it takes everything, but for two things: the
answer to an operation that succeeds otherwise is the failure of the first message that it sends in
vain, and a decision lists the announcement that failed. No message is sent or announced twice in an
operation, so a network is any choice of the attempts that fail. -/
theorem network_changes_answers_only (seat : Seat S) :
    (∀ (height : Height) (past : List (Network S × Instance.Event S)) (net : Network S)
        (e : Instance.Event S),
      let s := Instance.play seat (.new height) past
      Instance.play seat (.new height) (Instance.overReliable past) = s ∧
        Instance.step seat net s e = (Instance.step seat (.reliable S) s e).across net .broadcast ∧
        (Instance.sentBy (Instance.step seat net s e).effects).Nodup) ∧
    ∀ (capacity : ℕ) (archive : Archive S) (past : List (Call S)) (c : Call S),
      let n := play seat (new capacity archive) (past.map Call.overReliable)
      let u := play seat (new capacity archive) past
      SameButCounts n u ∧
        Over c.env.network Answer.noting (c.overReliable.step seat n) (c.step seat u) ∧
        Once (c.step seat u).effects := by
  constructor
  · intro height past net e
    exact ⟨Instance.play_overReliable seat _ past, Instance.step_across seat net _ e,
      Instance.nodup_sentBy_step seat net _ e⟩
  · intro capacity archive past c
    have hsame := play_overReliable seat (new capacity archive) past
    exact ⟨hsame, step_over hsame c.event, once_step seat c.env _ c.event⟩

end Node
end Conclave
