import Conclave.Proofs.Instance.Move

/-!
# Runs of an instance

A run takes an instance from its creation through any events, in any order, with any network. Its
`Trace` is the state it has reached, with what the instance has sent and decided on the way: a
message counts as sent when the instance has signed it and given it to the network, also if the
network did not take it.

* `Trace.extend` is what an event does to a trace, `Trace.after` what a move does;
* `Trace.play_induct`: what every event keeps is kept by a sequence of them;
* `Run` are the traces of all runs;
* `Run.induct`: what holds at the creation and is kept by every move holds of every run.
-/

namespace Conclave
namespace Instance

variable {S : Scheme}

/-- The messages that effects send. -/
def sentBy (effects : List (Effect S)) : List (SignedMessage S) :=
  effects.filterMap fun
    | .broadcast m => some m
    | _ => none

@[simp] theorem sentBy_append (effects effects' : List (Effect S)) :
    sentBy (effects ++ effects') = sentBy effects ++ sentBy effects' :=
  List.filterMap_append

@[simp] theorem sentBy_nil : sentBy ([] : List (Effect S)) = [] := rfl

@[simp] theorem sentBy_broadcast (m : SignedMessage S) (effects : List (Effect S)) :
    sentBy (.broadcast m :: effects) = m :: sentBy effects := rfl

@[simp] theorem sentBy_timerCall (seat : Seat S) (s : Instance S) (effects : List (Effect S)) :
    sentBy (timerCall seat s :: effects) = sentBy effects := by
  unfold timerCall
  split <;> rfl

@[simp] theorem sentBy_cancel (height : Height) (effects : List (Effect S)) :
    sentBy (.cancel height :: effects) = sentBy effects := rfl

@[simp] theorem sentBy_entryCalls (seat : Seat S) (s : Instance S) (round : Round) :
    sentBy (entryCalls seat s round) = [] := by
  unfold entryCalls
  split <;> simp

/-- Entering a round and sending a message. -/
theorem sentBy_entryCalls_broadcast (seat : Seat S) (s : Instance S) (round : Round)
    (m : SignedMessage S) : sentBy (entryCalls seat s round ++ [.broadcast m]) = [m] := by
  simp

/-- Setting a timeout and sending a message. -/
theorem sentBy_timerCall_broadcast (seat : Seat S) (s : Instance S) (m : SignedMessage S) :
    sentBy [timerCall seat s, .broadcast m] = [m] := by
  simp

/-- The state that a run has reached, what the instance has sent and what it has decided. -/
structure Trace (S : Scheme) where
  state : Instance S
  sent : List (SignedMessage S)
  decisions : List (Decision S)

namespace Trace

/-- The trace at the creation of an instance. -/
def new (height : Height) : Trace S := ⟨Instance.new height, [], []⟩

/-- The trace after effects, with the decisions made and the state reached. -/
def after (t : Trace S) (effects : List (Effect S)) (decisions : List (Decision S))
    (s : Instance S) : Trace S :=
  ⟨s, t.sent ++ sentBy effects, t.decisions ++ decisions⟩

/-- The trace after an event. -/
def extend (seat : Seat S) (net : Network S) (t : Trace S) (e : Event S) : Trace S :=
  let o := step seat net t.state e
  t.after o.effects (decisionOf o.answer) o.state

/-- The trace after some events, while the network takes every message. -/
def play (seat : Seat S) (t : Trace S) (events : List (Event S)) : Trace S :=
  events.foldl (fun t e => t.extend seat (Network.reliable S) e) t

variable {seat : Seat S} {net : Network S} {t : Trace S}

@[simp] theorem state_after (effects : List (Effect S)) (decisions : List (Decision S))
    (s : Instance S) : (t.after effects decisions s).state = s := rfl

theorem sent_after_singleton {effects : List (Effect S)} {decisions : List (Decision S)}
    {s : Instance S} {m : SignedMessage S} (h : sentBy effects = [m]) :
    (t.after effects decisions s).sent = t.sent ++ [m] := by
  rw [after, h]

theorem mem_sent_after_singleton {effects : List (Effect S)} {decisions : List (Decision S)}
    {s : Instance S} {m x : SignedMessage S} (h : sentBy effects = [m]) :
    x ∈ (t.after effects decisions s).sent ↔ x ∈ t.sent ∨ x = m := by
  rw [sent_after_singleton h, List.mem_append, List.mem_singleton]

theorem state_extend (e : Event S) :
    (t.extend seat net e).state = (step seat net t.state e).state := rfl

theorem play_cons (e : Event S) (events : List (Event S)) :
    t.play seat (e :: events) = (t.extend seat (Network.reliable S) e).play seat events := rfl

theorem play_nil : t.play seat [] = t := rfl

theorem after_nil : t.after [] [] t.state = t := by
  simp [after]

theorem after_append (effects effects' : List (Effect S)) (decisions decisions' : List (Decision S))
    (s u : Instance S) :
    t.after (effects ++ effects') (decisions ++ decisions') u =
      (t.after effects decisions s).after effects' decisions' u := by
  simp [after, List.append_assoc]

/-- What an event keeps is what its moves keep. -/
theorem extend_induct {e : Event S} {P : Trace S → Prop} (h : P t)
    (hmove : ∀ t effects decision u, P t → Move seat t.state e effects decision u →
      P (t.after effects decision.toList u)) :
    P (t.extend seat net e) := by
  have hpath : ∀ {effects decisions u}, Path seat e t.state effects decisions u →
      P (t.after effects decisions u) := by
    intro effects decisions u hpath
    induction hpath with
    | stay =>
      rw [after_nil]
      exact h
    | @move effects effects' decisions decision s u _ hstep ih =>
      rw [after_append effects effects' decisions decision.toList s u]
      exact hmove _ _ _ _ ih hstep
  exact hpath (step_path seat net t.state e)

/-- What every event of a kind keeps is kept by events of the kind in sequence. -/
theorem play_induct {P : Trace S → Prop} {A : Event S → Prop} (h : P t)
    (hextend : ∀ t e, P t → A e → P (t.extend seat (Network.reliable S) e))
    {events : List (Event S)} (he : ∀ e ∈ events, A e) : P (t.play seat events) :=
  List.foldlRecOn events _ h fun t ht e hmem => hextend t e ht (he e hmem)

/-- Nothing that was sent is forgotten. -/
theorem sent_subset_extend (e : Event S) : t.sent ⊆ (t.extend seat net e).sent :=
  List.subset_append_left _ _

/-- What an event makes the instance send has been sent after it. -/
theorem mem_sent_extend {e : Event S} {m : SignedMessage S}
    (h : .broadcast m ∈ (step seat net t.state e).effects) : m ∈ (t.extend seat net e).sent :=
  List.mem_append_right _ (List.mem_filterMap.2 ⟨_, h, rfl⟩)

end Trace

/-- The traces of the runs of one instance. -/
inductive Run (seat : Seat S) (height : Height) : Trace S → Prop
  | new : Run seat height (.new height)
  | next {t : Trace S} (net : Network S) (e : Event S) (h : Run seat height t) :
      Run seat height (t.extend seat net e)

theorem Run.play {seat : Seat S} {height : Height} {t : Trace S} (h : Run seat height t)
    (events : List (Event S)) : Run seat height (t.play seat events) :=
  Trace.play_induct (A := fun _ => True) h (fun _ e h _ => h.next (Network.reliable S) e)
    fun _ _ => trivial

/-- What holds at the creation and is kept by every move holds of every run. -/
theorem Run.induct {seat : Seat S} {height : Height} {P : Trace S → Prop} (hnew : P (.new height))
    (hmove : ∀ t e effects decision u, P t → Move seat t.state e effects decision u →
      P (t.after effects decision.toList u)) {t : Trace S} (h : Run seat height t) : P t := by
  induction h with
  | new => exact hnew
  | next net e _ ih => exact Trace.extend_induct ih fun t => hmove t e

end Instance
end Conclave
