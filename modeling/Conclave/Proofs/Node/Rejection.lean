import Conclave.Proofs.Instance.Rejection
import Conclave.Proofs.Node.Heights
import Conclave.Proofs.Node.Network

/-!
# Operations of a node that fail

A node checks before it acts. An operation that fails has changed nothing but the count of messages
turned away, and has asked for nothing, unless what failed is sending a message: then the operation
is complete, and a start has begun its instance (`unchanged_of_failure`).

* `Completes` says that an operation fails at most to send, `Atomic` that it does, or is refused;
* `countRejection` is the node that has refused an event.

What an instance refuses on behalf of its node rests on the instances of a node being reachable. A
node that goes down has no answer, so that faults are left out.
-/

namespace Conclave

variable {S : Scheme}

/-! ### Starts and timeouts of an instance -/

namespace Instance

variable {seat : Seat S} {net : Network S} {height : Height} {s : Instance S}

theorem completes_after {α : Type} {o : Step S (Instance S) Error α} (h : Completes o)
    (effects : List (Effect S)) : Completes (o.after effects) := h

theorem completes_start (value : Value S) : Completes (s.start seat net value) := by
  unfold start
  split
  · exact completes_done ()
  refine completes_after ?_ _
  split
  · split
    · rename_i e he
      have hleader : FailsOnly (fun e => ∃ f, e = Error.fault f)
          (isLeader seat { s with startValue := some value } s.round) :=
        .bind (leader_failsOnly s.round) fun _ _ => .ok _
      exact .error (.inr (hleader e he))
    · exact completes_send
    · exact completes_done ()
  · exact completes_done ()

theorem timeout_atomic (round : Round) : Atomic s (s.timeout seat net round) := by
  unfold timeout
  split
  · exact .inl ⟨.stopped, rfl, rfl⟩
  refine .inr ?_
  split
  · exact completes_done ()
  split
  · rename_i f _
    exact .error (.inr ⟨f, rfl⟩)
  · exact completes_enterAndSend

/-- What an instance relies on in its late lookups is a part of what it is sound by. -/
theorem Sound.coherent (h : Sound seat height s) : Coherent seat height s :=
  ⟨h.height_eq, h.accepted, fun _ => h.commits.1⟩

theorem Error.exists_broadcast_of_isSideEffect {e : Error} (h : e.isSideEffect = true) :
    ∃ cause, e = .broadcast cause := by
  cases e with
  | broadcast cause => exact ⟨cause, rfl⟩
  | _ => cases h

end Instance

namespace Node

/-! ### Refused or complete -/

/-- The node that has refused an event: a message that is turned away is counted. -/
def countRejection (seat : Seat S) (n : Node S) : Event S → Node S
  | .receive m =>
    { n with metrics := n.metrics.messageRejected (messageKind seat.committee m) }
  | _ => n

/-- An error that does not undo the operation: a message was not sent, or the node goes down. -/
def Error.IsLate (e : Error) : Prop :=
  (∃ cause, e = .rejected (.broadcast cause)) ∨ ∃ f, e.fault? = some f

/-- An operation fails at most to send, unless the node goes down. -/
def Completes {α : Type} (o : Step S (Node S) Error α) : Prop := FailsOnly Error.IsLate o.answer

/-- An operation is refused, with the given node left, or it completes. -/
def Atomic {α : Type} (u : Node S) (o : Step S (Node S) Error α) : Prop :=
  (∃ e, o = .refuse u e) ∨ Completes o

section Operations

variable {seat : Seat S} {env : Surroundings S} {n u : Node S} {m : SignedMessage S}
  {α β : Type} {o : Step S (Node S) Error α}

theorem atomic_refuse (e : Error) : Atomic u (.refuse u e : Step S (Node S) Error α) :=
  .inl ⟨e, rfl⟩

theorem Completes.of_ok {a : α} (h : o.answer = .ok a) : Completes o := by
  rw [Completes, h]
  exact .ok a

theorem answer_mapAnswer_eq_error_iff {f : α → β} {e : Error} :
    (o.mapAnswer f).answer = .error e ↔ o.answer = .error e := map_eq_error_iff

theorem Atomic.mapAnswer (h : Atomic u o) (f : α → β) : Atomic u (o.mapAnswer f) := by
  rcases h with ⟨e, rfl⟩ | h
  · exact atomic_refuse e
  · exact .inr (FailsOnly.map h f)

/-- What an instance fails in, its node fails in. -/
theorem isLate_rejected {e : Instance.Error} (h : e.isSideEffect = true ∨ ∃ f, e = .fault f) :
    (Error.rejected e).IsLate := by
  rcases h with h | ⟨f, rfl⟩
  · obtain ⟨cause, rfl⟩ := Instance.Error.exists_broadcast_of_isSideEffect h
    exact .inl ⟨cause, rfl⟩
  · exact .inr ⟨f, rfl⟩

theorem failsLate_rejected {x : Except Instance.Error α}
    (h : FailsOnly (fun e => e.isSideEffect = true ∨ ∃ f, e = .fault f) x) :
    FailsOnly Error.IsLate (x.mapError .rejected) := by
  cases x with
  | error e => exact .error (isLate_rejected (h e rfl))
  | ok a => exact .ok a

theorem start_atomic (value : Value S) : Atomic n (n.start seat env value) := by
  unfold start
  split
  · exact atomic_refuse _
  split
  · exact atomic_refuse _
  split
  · exact atomic_refuse _
  rename_i height hnext
  have hbegun : Instance.Completes ((Instance.new height).start seat env.network value) :=
    Instance.completes_start value
  exact .inr (failsLate_rejected (hbegun.map _))

theorem timeout_atomic (height : Height) (round : Round) :
    Atomic n (n.timeout seat env height round) := by
  unfold timeout
  split
  · exact atomic_refuse _
  rename_i s hs
  have hmoved : Instance.Atomic s (s.timeout seat env.network round) :=
    Instance.timeout_atomic round
  dsimp only
  rcases hmoved with ⟨e, -, hrefuse⟩ | hcompletes
  · rw [hrefuse]
    refine .inl ⟨.rejected e, ?_⟩
    dsimp only [Step.refuse, Except.mapError]
    rw [setInstance_self hs]
  · exact .inr (failsLate_rejected hcompletes)

/-- A message that the instance of its height turns away leaves the node as it is. -/
theorem receivePlain_atomic (hkept : ∀ height s, n.instanceAt? height = some s →
    Instance.Reachable seat height s) : Atomic n (n.receivePlain seat env m) := by
  unfold receivePlain
  split
  · exact atomic_refuse _
  split
  · exact atomic_refuse _
  rename_i s hs
  have hmoved : Instance.Atomic s (s.receive seat env.network m) :=
    Instance.receive_atomic (hkept _ s hs).sound.coherent
  dsimp only
  rcases hmoved with ⟨e, -, hrefuse⟩ | hcompletes
  · rw [hrefuse]
    refine .inl ⟨.rejected e, ?_⟩
    dsimp only [Step.refuse]
    rw [setInstance_self hs]
  · refine .inr ?_
    split
    · rename_i e hanswer
      exact .error (isLate_rejected (hcompletes e hanswer))
    · exact .of_ok rfl
    · exact .of_ok rfl

theorem receiveDecided_atomic : Atomic n (n.receiveDecided seat env m) := by
  rcases receiveDecided_cases seat env n m with ⟨e, hrefuse⟩ | ⟨-, -, decided, hanswer⟩
  · exact .inl ⟨e, hrefuse⟩
  · exact .inr (.of_ok hanswer)

theorem receive_atomic (hkept : ∀ height s, n.instanceAt? height = some s →
    Instance.Reachable seat height s) :
    Atomic (n.countRejection seat (.receive m)) (n.receive seat env m) := by
  have hcount : ∀ {o : Step S (Node S) Error (Option (Decided S))}, Atomic n o →
      Atomic (n.countRejection seat (.receive m))
        (countMessage (messageKind seat.committee m) o) := by
    rintro o (⟨e, rfl⟩ | h)
    · exact atomic_refuse e
    · exact .inr h
  unfold receive
  dsimp only
  split
  · exact hcount receiveDecided_atomic
  · exact hcount (receivePlain_atomic hkept)

theorem load_atomic : Atomic n (n.load seat env) := by
  unfold load
  split
  · exact atomic_refuse _
  · exact .inr (.of_ok rfl)
  · exact .inr (.of_ok rfl)

theorem step_atomic (hkept : ∀ height s, n.instanceAt? height = some s →
    Instance.Reachable seat height s) (e : Event S) :
    Atomic (n.countRejection seat e) (step seat env n e) := by
  cases e with
  | start value => exact (start_atomic value).mapAnswer _
  | receive m => exact (receive_atomic hkept).mapAnswer _
  | timeout height round => exact (timeout_atomic height round).mapAnswer _
  | load => exact load_atomic.mapAnswer _

/-- A start that fails in its instance has begun it. -/
theorem start_of_rejected {value : Value S} {cause : Instance.Error}
    (h : (n.start seat env value).answer = .error (.rejected cause)) :
    ∃ height, n.height.elim (.ok Height.first) Height.next? = .ok height ∧
      (n.start seat env value).state.height = some height ∧
      (n.start seat env value).state.instances =
        n.instances.push { Instance.new height with startValue := some value } := by
  unfold start at h ⊢
  split at h
  · cases h
  split at h
  · cases h
  split at h
  · cases h
  rename_i height hnext
  refine ⟨height, hnext, rfl, ?_⟩
  exact congrArg n.instances.push (Instance.state_begin seat env.network height value)

end Operations

/-! ### Runs -/

section Runs

variable {seat : Seat S} {capacity : ℕ} {archive : Archive S} {t : Trace S}

/-- Over any run of a node, with whatever network and disk, an operation that fails, other than to
send a message, is refused: the height, the instances and what is stored are as before, and nothing
is asked for. A start that fails to send its proposal has begun the next height all the same, and
keeps its instance. -/
theorem unchanged_of_failure (h : Run seat capacity archive t) (env : Surroundings S)
    (e : Event S) {error : Error} (herror : (step seat env t.state e).answer = .error error) :
    (error.fault? = none → (∀ cause, error ≠ .rejected (.broadcast cause)) →
      step seat env t.state e = .refuse (t.state.countRejection seat e) error ∧
        SameButCounts t.state (t.state.countRejection seat e)) ∧
    ∀ value cause, e = .start value → error = .rejected (.broadcast cause) →
      ∃ height s, t.state.height.elim (.ok Height.first) Height.next? = .ok height ∧
        (step seat env t.state e).state.height = some height ∧
        (step seat env t.state e).state.instances = t.state.instances.push s ∧
        (step seat env t.state e).state.instanceAt? height = some s ∧
        s.started = true ∧ s.startValue = some value := by
  constructor
  · intro hfault hsend
    have hatomic : Atomic (t.state.countRejection seat e) (step seat env t.state e) :=
      step_atomic (fun _ _ hs => h.consistent.reachable hs) e
    rcases hatomic with ⟨cause, hrefuse⟩ | hcompletes
    · rw [hrefuse] at herror
      obtain rfl := Except.error.inj herror
      refine ⟨hrefuse, ?_⟩
      cases e <;> exact ⟨rfl, rfl, rfl⟩
    · rcases hcompletes error herror with ⟨cause, hcause⟩ | ⟨f, hf⟩
      · exact absurd hcause (hsend cause)
      · rw [hfault] at hf
        cases hf
  · rintro value cause rfl rfl
    obtain ⟨height, hnext, hheight, hinstances⟩ :=
      start_of_rejected (answer_mapAnswer_eq_error_iff.1 herror)
    refine ⟨height, _, hnext, hheight, hinstances, ?_, rfl, rfl⟩
    have hpush : (step seat env t.state (.start value)).state.instances =
        t.state.instances.push { Instance.new height with startValue := some value } := hinstances
    rw [instanceAt?, hpush]
    exact Recent.find?_push_self (decide_eq_true rfl)

end Runs

/-! ### A commit for another value, and a start without a network -/

namespace Mismatched

open Scheme

/-- Member 1 starts and prepares with a quorum. -/
def trace : Trace plain :=
  (Trace.new 5 Archive.empty).play plain.seat
    (.start plain.value :: plain.preparation.map .receive)

theorem run_trace : Run plain.seat 5 Archive.empty trace := Run.new.play _

/-- The commit of member 4 for another value than the accepted one. -/
def commit : SignedMessage plain := plain.message 4 (.commit ⟨0, 0, 0, 0⟩)

/-- Why nothing is sent. -/
def down : NetworkError := ⟨"network is down"⟩

/-- Surroundings whose network takes nothing. -/
def offline : Surroundings plain := ⟨⟨fun _ => .error down, fun _ => .error down⟩, .reliable⟩

end Mismatched

/-- The commit for another value is turned away, and all is as before. A node whose proposal is not
sent is at the first height nevertheless, with an instance that has started. -/
theorem unchanged_of_mismatched_commit :
    step Scheme.plain.seat (.reliable _) Mismatched.trace.state (.receive Mismatched.commit) =
        .refuse (Mismatched.trace.state.countRejection Scheme.plain.seat
          (.receive Mismatched.commit)) (.rejected .dataMismatch) ∧
      (step Scheme.plain.seat Mismatched.offline (.new 5 Archive.empty)
        (.start Scheme.plain.value)).answer = .error (.rejected (.broadcast Mismatched.down)) ∧
      ∃ height s, (step Scheme.plain.seat Mismatched.offline (.new 5 Archive.empty)
          (.start Scheme.plain.value)).state.instanceAt? height = some s ∧
        s.started = true ∧ s.startValue = some Scheme.plain.value := by
  have hreceive : (Mismatched.trace.state.receive Scheme.plain.seat (.reliable _)
      Mismatched.commit).answer = .error (.rejected .dataMismatch) := by decide +kernel
  have hcommit : (step Scheme.plain.seat (.reliable _) Mismatched.trace.state
      (.receive Mismatched.commit)).answer = .error (.rejected .dataMismatch) :=
    answer_mapAnswer_eq_error_iff.2 hreceive
  have hbegin : (start Scheme.plain.seat Mismatched.offline (.new 5 Archive.empty)
      Scheme.plain.value).answer = .error (.rejected (.broadcast Mismatched.down)) := by
    decide +kernel
  have hstart : (step Scheme.plain.seat Mismatched.offline (.new 5 Archive.empty)
      (.start Scheme.plain.value)).answer = .error (.rejected (.broadcast Mismatched.down)) :=
    answer_mapAnswer_eq_error_iff.2 hbegin
  refine ⟨((unchanged_of_failure Mismatched.run_trace _ _ hcommit).1 rfl nofun).1, hstart, ?_⟩
  obtain ⟨height, s, -, -, -, hkept, hstarted, hvalue⟩ :=
    (unchanged_of_failure (t := .new 5 Archive.empty) .new _ _ hstart).2 _ _ rfl rfl
  exact ⟨height, s, hkept, hstarted, hvalue⟩

end Node
end Conclave
