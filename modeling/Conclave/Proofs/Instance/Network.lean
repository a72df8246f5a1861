import Conclave.Proofs.Instance.Run

/-!
# An instance and a network that fails

An instance gives messages to the network in the middle of its operations, and twice in one of them.
Which of them the network takes makes no difference to what the instance does: the state, the
messages and the calls of the timer are those over a reliable network. Only the answer tells, and
only where the operation succeeds otherwise: it is then the failure of the first message that was
not taken (`step_across`). No operation sends a message twice (`nodup_sentBy_step`), so a network is
given by the messages that it takes.

* `Network.failure?` is that failure, `Step.across` the operation with the answer it leads to;
* `play` is what becomes of an instance on some events, each with a network of its own, and `along`
  collects what there is to tell of each of them.
-/

namespace Conclave

variable {S : Scheme}

/-! ### Failures -/

namespace Network

/-- The failure of the first message among effects that the network does not take. -/
def failure? (net : Network S) (effects : List (Effect S)) : Option NetworkError :=
  (Instance.sentBy effects).findSome? fun m =>
    match net.broadcast m with
    | .ok () => none
    | .error e => some e

/-- The answer of an operation over a network, given its answer over a reliable one. -/
def outcome {ε α : Type} (net : Network S) (effects : List (Effect S)) (fail : NetworkError → ε) :
    Except ε α → Except ε α
  | .error e => .error e
  | .ok a =>
    match net.failure? effects with
    | none => .ok a
    | some e => .error (fail e)

section

variable {ε ε' α β : Type} {net : Network S} {effects : List (Effect S)} {fail : NetworkError → ε}

theorem failure?_of_sentBy_eq_nil (h : Instance.sentBy effects = []) :
    net.failure? effects = none := by
  rw [failure?, h, List.findSome?_nil]

theorem failure?_timerCall (seat : Seat S) (s : Instance S) :
    net.failure? [Instance.timerCall seat s] = none :=
  failure?_of_sentBy_eq_nil (Instance.sentBy_timerCall seat s [])

/-- Of several effects, the first failure counts. -/
theorem failure?_append (effects effects' : List (Effect S)) :
    net.failure? (effects ++ effects') = (net.failure? effects).or (net.failure? effects') := by
  rw [failure?, Instance.sentBy_append, List.findSome?_append]
  rfl

@[simp] theorem outcome_error (e : ε) :
    net.outcome effects fail (.error e : Except ε α) = .error e := rfl

theorem outcome_of_failure {e : NetworkError} (h : net.failure? effects = some e) (a : α) :
    net.outcome effects fail (.ok a) = .error (fail e) := by
  simp only [outcome, h]

theorem outcome_of_no_failure (h : net.failure? effects = none) (answer : Except ε α) :
    net.outcome effects fail answer = answer := by
  cases answer with
  | error e => rfl
  | ok a => simp only [outcome, h]

theorem outcome_map (f : α → β) (answer : Except ε α) :
    (net.outcome effects fail answer).map f = net.outcome effects fail (answer.map f) := by
  cases answer with
  | error e => rfl
  | ok a => cases h : net.failure? effects <;> simp only [outcome, h, Except.map]

theorem outcome_mapError (g : ε → ε') (answer : Except ε α) :
    (net.outcome effects fail answer).mapError g =
      net.outcome effects (g ∘ fail) (answer.mapError g) := by
  cases answer with
  | error e => rfl
  | ok a =>
    cases h : net.failure? effects <;>
      simp only [outcome, h, Except.mapError, Function.comp]

end

end Network

namespace Step

variable {σ ε α β : Type}

/-- An operation over a network, given what it does over a reliable one. -/
def across (net : Network S) (fail : NetworkError → ε) (o : Step S σ ε α) : Step S σ ε α :=
  { o with answer := net.outcome o.effects fail o.answer }

variable {net : Network S} {fail : NetworkError → ε}

theorem across_of_error {o : Step S σ ε α} {e : ε} (h : o.answer = .error e) :
    o.across net fail = o := by
  rw [across, h, Network.outcome_error, ← h]

theorem across_of_no_failure {o : Step S σ ε α} (h : net.failure? o.effects = none) :
    o.across net fail = o := by
  rw [across, Network.outcome_of_no_failure h]

/-- What does not fail before an operation makes no difference to it. -/
theorem across_after {effects : List (Effect S)} (h : net.failure? effects = none)
    (o : Step S σ ε α) : (o.after effects).across net fail = (o.across net fail).after effects := by
  have hfailure : net.failure? (effects ++ o.effects) = net.failure? o.effects := by
    rw [Network.failure?_append, h, Option.none_or]
  unfold across after
  congr 1
  unfold Network.outcome
  rw [hfailure]

theorem across_mapAnswer (f : α → β) (o : Step S σ ε α) :
    (o.mapAnswer f).across net fail = (o.across net fail).mapAnswer f := by
  rw [across, mapAnswer, across, mapAnswer, Network.outcome_map]

end Step

/-! ### Operations -/

namespace Instance

variable {seat : Seat S} {net : Network S} {s : Instance S} {m : SignedMessage S}

theorem send_across : send net s m = (send (.reliable S) s m).across net .broadcast := by
  have hfailure : net.failure? [.broadcast m] =
      match net.broadcast m with
      | .ok () => none
      | .error e => some e := by
    rw [Network.failure?, sentBy_broadcast, sentBy_nil, List.findSome?_singleton]
  rw [send, send, Step.across]
  cases hsend : net.broadcast m with
  | ok _ =>
    rw [hsend] at hfailure
    rw [Network.outcome_of_no_failure hfailure]
    rfl
  | error e =>
    rw [hsend] at hfailure
    exact congrArg _ (Network.outcome_of_failure hfailure ()).symm

theorem enterAndSend_across :
    enterAndSend seat net s m = (enterAndSend seat (.reliable S) s m).across net .broadcast := by
  rw [enterAndSend, enterAndSend, Step.across_after (Network.failure?_timerCall seat s),
    ← send_across]

theorem start_across (seat : Seat S) (net : Network S) (s : Instance S) (value : Value S) :
    start seat net s value = (start seat (.reliable S) s value).across net .broadcast := by
  unfold start
  split
  · rfl
  dsimp only
  rw [Step.across_after (Network.failure?_timerCall seat _)]
  congr 1
  split
  · split
    · rfl
    · exact send_across
    · rfl
  · rfl

theorem onPropose_across :
    onPropose seat net s m = (onPropose seat (.reliable S) s m).across net .broadcast := by
  unfold onPropose
  split
  · rfl
  split
  · rfl
  dsimp only
  split
  · rw [Step.across_after (Network.failure?_timerCall seat _), ← send_across]
  · exact send_across

theorem onPrepare_across :
    onPrepare seat net s m = (onPrepare seat (.reliable S) s m).across net .broadcast := by
  unfold onPrepare
  split
  · rfl
  split
  · rfl
  dsimp only
  split
  · rfl
  split
  · rfl
  split
  · exact send_across
  · rfl

theorem proposeOnQuorum_across (round : Round) :
    proposeOnQuorum seat net s round =
      (proposeOnQuorum seat (.reliable S) s round).across net .broadcast := by
  unfold proposeOnQuorum
  split
  · rfl
  split
  · rfl
  · rfl
  dsimp only
  split
  · rfl
  split
  · rfl
  · rfl
  split
  · exact enterAndSend_across
  · exact send_across

theorem skipAhead_across :
    skipAhead seat net s = (skipAhead seat (.reliable S) s).across net .broadcast := by
  unfold skipAhead
  split
  · rfl
  split
  · rfl
  split
  · rfl
  · exact enterAndSend_across

/-- Over a reliable network, following a partial quorum fails only if the instance goes down. -/
theorem skipAhead_reliable_error {e : Error}
    (h : (skipAhead seat (.reliable S) s).answer = .error e) : ∃ f, e = .fault f := by
  unfold skipAhead at h
  split at h
  · exact ⟨_, (Except.error.inj h).symm⟩
  split at h
  · cases h
  split at h
  · cases h
  · cases h

/-- The answer of two operations in a row, unless the first one takes the instance down. -/
def later (first next : Except Error Unit) : Except Error Unit :=
  match next, first with
  | .error (.fault e), _ => .error (.fault e)
  | _, .error e => .error e
  | result, .ok () => result

theorem both_eq {first : Step S (Instance S) Error Unit}
    {second : Instance S → Step S (Instance S) Error Unit}
    (h : ∀ f, first.answer ≠ .error (.fault f)) :
    both first second =
      ⟨(second first.state).state, first.effects ++ (second first.state).effects,
        later first.answer (second first.state).answer⟩ := by
  unfold both
  split
  · exact absurd ‹_› (h _)
  · rfl

/-- The first failure to send is the answer, because the second operation has no failure of its own
but one that takes the instance down. -/
theorem later_outcome {effects effects' : List (Effect S)} {first next : Except Error Unit}
    (hnext : ∀ e, next = .error e → ∃ f, e = .fault f) :
    later (net.outcome effects .broadcast first) (net.outcome effects' .broadcast next) =
      net.outcome (effects ++ effects') .broadcast (later first next) := by
  cases next with
  | error e =>
    obtain ⟨f, rfl⟩ := hnext e rfl
    rfl
  | ok _ =>
    cases first with
    | error e => cases h : net.failure? effects' <;> simp only [Network.outcome, h, later]
    | ok _ =>
      cases h : net.failure? effects <;> cases h' : net.failure? effects' <;>
        simp [Network.outcome, Network.failure?_append, h, h', later]

theorem outcome_ne_fault {effects : List (Effect S)} {answer : Except Error Unit} {f : Fault}
    (h : answer ≠ .error (.fault f)) :
    net.outcome effects .broadcast answer ≠ .error (.fault f) := by
  cases answer with
  | error e => exact h
  | ok _ => cases hfail : net.failure? effects <;> simp [Network.outcome, hfail]

/-- Two operations in a row over a network. -/
theorem both_across {first : Step S (Instance S) Error Unit}
    {second second' : Instance S → Step S (Instance S) Error Unit}
    (hsecond : ∀ s, second s = (second' s).across net .broadcast)
    (hfault : ∀ s e, (second' s).answer = .error e → ∃ f, e = .fault f) :
    both (first.across net .broadcast) second = (both first second').across net .broadcast := by
  by_cases h : ∃ f, first.answer = .error (.fault f)
  · obtain ⟨f, hf⟩ := h
    have hboth : ∀ next : Instance S → Step S (Instance S) Error Unit, both first next = first := by
      intro next
      unfold both
      rw [hf]
    rw [Step.across_of_error hf, hboth, hboth, Step.across_of_error hf]
  · rw [not_exists] at h
    rw [both_eq h, both_eq fun f => outcome_ne_fault (h f), hsecond]
    exact congrArg _ (later_outcome (hfault first.state))

theorem onRoundChange_across :
    onRoundChange seat net s m = (onRoundChange seat (.reliable S) s m).across net .broadcast := by
  unfold onRoundChange
  split
  · rfl
  split
  · rfl
  dsimp only
  split
  · rfl
  · rw [proposeOnQuorum_across]
    exact both_across (fun _ => skipAhead_across) fun _ _ => skipAhead_reliable_error

/-- An instance sends nothing when it receives a commit. -/
theorem sentBy_onCommit : sentBy (onCommit seat s m).effects = [] := by
  unfold onCommit
  split
  · rfl
  split
  · rfl
  dsimp only
  split
  · rfl
  split
  · rfl
  split
  · split <;> rfl
  · rfl

theorem sentBy_learn : sentBy (learn s m).effects = [] := by
  unfold learn
  split
  · rfl
  split
  · rfl
  split <;> rfl

/-- An instance that decides on a message sends nothing. -/
theorem sentBy_receive_of_decision {d : Decision S}
    (h : (receive seat net s m).answer = .ok (some d)) :
    sentBy (receive seat net s m).effects = [] := by
  have hnone : ∀ o : Step S (Instance S) Error Unit, (undecided o).answer ≠ .ok (some d) := by
    intro o ho
    have := decisionOf_undecided o
    rw [ho] at this
    cases this
  unfold receive at h ⊢
  split at h
  · cases h
  rename_i hrunning
  rw [if_neg hrunning]
  split at h
  · cases h
  split at h
  · exact absurd h (hnone _)
  · exact absurd h (hnone _)
  · exact sentBy_onCommit
  · exact absurd h (hnone _)

theorem undecided_across (o : Step S (Instance S) Error Unit) :
    undecided (o.across net .broadcast) = (undecided o).across net .broadcast :=
  (Step.across_mapAnswer _ o).symm

theorem receive_across (seat : Seat S) (net : Network S) (s : Instance S) (m : SignedMessage S) :
    receive seat net s m = (receive seat (.reliable S) s m).across net .broadcast := by
  unfold receive
  split
  · rfl
  split
  · rfl
  split
  · rw [onPropose_across, undecided_across]
  · rw [onPrepare_across, undecided_across]
  · rw [Step.across_of_no_failure (Network.failure?_of_sentBy_eq_nil sentBy_onCommit)]
  · rw [onRoundChange_across, undecided_across]

theorem timeout_across (seat : Seat S) (net : Network S) (s : Instance S) (round : Round) :
    timeout seat net s round = (timeout seat (.reliable S) s round).across net .broadcast := by
  unfold timeout
  split
  · rfl
  split
  · rfl
  split
  · rfl
  · exact enterAndSend_across

/-- What an instance does is what it does over a reliable network, but for the answer. -/
theorem step_across (seat : Seat S) (net : Network S) (s : Instance S) (e : Event S) :
    step seat net s e = (step seat (.reliable S) s e).across net .broadcast := by
  cases e with
  | start value =>
    rw [step, start_across, undecided_across]
    rfl
  | receive m => exact receive_across seat net s m
  | timeout round =>
    rw [step, timeout_across, undecided_across]
    rfl
  | learn commit =>
    rw [step, step, Step.across_of_no_failure (Network.failure?_of_sentBy_eq_nil sentBy_learn)]

/-! ### What an operation sends -/

/-- Effects that send at most one message, which is of a type. -/
def SendsOne (type : MessageType) (effects : List (Effect S)) : Prop :=
  sentBy effects = [] ∨ ∃ m, m.type = type ∧ sentBy effects = [m]

namespace SendsOne

variable {type type' : MessageType} {effects effects' : List (Effect S)}

theorem nil : SendsOne (S := S) type [] := .inl rfl

theorem timerCall (h : SendsOne type effects) :
    SendsOne type ([Instance.timerCall seat s] ++ effects) := by
  rwa [SendsOne, sentBy_append, sentBy_timerCall, sentBy_nil, List.nil_append]

theorem send (h : m.type = type) : SendsOne type (send net s m).effects := .inr ⟨m, h, rfl⟩

theorem nodup (h : SendsOne type effects) : (sentBy effects).Nodup := by
  rcases h with h | ⟨m, -, h⟩
  · rw [h]
    exact List.nodup_nil
  · rw [h]
    exact List.nodup_singleton m

/-- Messages of two types are different. -/
theorem nodup_append (h : SendsOne type effects) (h' : SendsOne type' effects')
    (hne : type ≠ type') : (sentBy (effects ++ effects')).Nodup := by
  rw [sentBy_append]
  refine h.nodup.append h'.nodup fun m hm hm' => hne ?_
  rcases h with h | ⟨x, rfl, h⟩ <;> rw [h] at hm
  · cases hm
  rcases h' with h' | ⟨y, rfl, h'⟩ <;> rw [h'] at hm'
  · cases hm'
  rw [← List.mem_singleton.1 hm, ← List.mem_singleton.1 hm']

end SendsOne

theorem start_sendsOne (value : Value S) : SendsOne .propose (start seat net s value).effects := by
  unfold start
  split
  · exact .nil
  refine SendsOne.timerCall ?_
  split
  · split
    · exact .nil
    · exact .send rfl
    · exact .nil
  · exact .nil

theorem onPropose_sendsOne : SendsOne .prepare (onPropose seat net s m).effects := by
  unfold onPropose
  split
  · exact .nil
  split
  · exact .nil
  dsimp only
  split
  · exact SendsOne.timerCall (.send rfl)
  · exact .send rfl

theorem onPrepare_sendsOne : SendsOne .commit (onPrepare seat net s m).effects := by
  unfold onPrepare
  split
  · exact .nil
  split
  · exact .nil
  dsimp only
  split
  · exact .nil
  split
  · exact .nil
  split
  · exact .send rfl
  · exact .nil

theorem proposeOnQuorum_sendsOne (round : Round) :
    SendsOne .propose (proposeOnQuorum seat net s round).effects := by
  unfold proposeOnQuorum
  split
  · exact .nil
  split
  · exact .nil
  · exact .nil
  dsimp only
  split
  · exact .nil
  split
  · exact .nil
  · exact .nil
  split
  · exact SendsOne.timerCall (.send rfl)
  · exact .send rfl

theorem skipAhead_sendsOne : SendsOne .roundChange (skipAhead seat net s).effects := by
  unfold skipAhead
  split
  · exact .nil
  split
  · exact .nil
  split
  · exact .nil
  · exact SendsOne.timerCall (.send rfl)

theorem timeout_sendsOne (round : Round) :
    SendsOne .roundChange (timeout seat net s round).effects := by
  unfold timeout
  split
  · exact .nil
  split
  · exact .nil
  split
  · exact .nil
  · exact SendsOne.timerCall (.send rfl)

theorem nodup_sentBy_both {first : Step S (Instance S) Error Unit}
    {second : Instance S → Step S (Instance S) Error Unit} {type type' : MessageType}
    (h : SendsOne type first.effects) (h' : ∀ s, SendsOne type' (second s).effects)
    (hne : type ≠ type') : (sentBy (both first second).effects).Nodup := by
  unfold both
  split
  · exact h.nodup
  · exact h.nodup_append (h' first.state) hne

theorem nodup_sentBy_onRoundChange : (sentBy (onRoundChange seat net s m).effects).Nodup := by
  unfold onRoundChange
  split
  · exact List.nodup_nil
  split
  · exact List.nodup_nil
  dsimp only
  split
  · exact List.nodup_nil
  · exact nodup_sentBy_both (proposeOnQuorum_sendsOne m.round) (fun _ => skipAhead_sendsOne)
      (by decide)

theorem nodup_sentBy_receive : (sentBy (receive seat net s m).effects).Nodup := by
  unfold receive
  split
  · exact List.nodup_nil
  split
  · exact List.nodup_nil
  split
  · exact onPropose_sendsOne.nodup
  · exact onPrepare_sendsOne.nodup
  · rw [sentBy_onCommit]
    exact List.nodup_nil
  · exact nodup_sentBy_onRoundChange

/-- An operation does not send a message twice, so which of its messages are taken says how each
attempt to send one ends. -/
theorem nodup_sentBy_step (seat : Seat S) (net : Network S) (s : Instance S) (e : Event S) :
    (sentBy (step seat net s e).effects).Nodup := by
  cases e with
  | start value => exact (start_sendsOne value).nodup
  | receive m => exact nodup_sentBy_receive
  | timeout round => exact (timeout_sendsOne round).nodup
  | learn commit =>
    rw [step, sentBy_learn]
    exact List.nodup_nil

/-! ### Runs -/

/-- What becomes of an instance on some events, each with what the network takes on it. -/
def play (seat : Seat S) (s : Instance S) (events : List (Network S × Event S)) : Instance S :=
  events.foldl (fun s x => (step seat x.1 s x.2).state) s

/-- What there is to tell of each of some events, in their order. -/
def along {α : Type} (tell : Instance S → Network S × Event S → List α) (seat : Seat S)
    (s : Instance S) : List (Network S × Event S) → List α
  | [] => []
  | x :: rest => tell s x ++ along tell seat (step seat x.1 s x.2).state rest

theorem play_append (seat : Seat S) (s : Instance S) (past rest : List (Network S × Event S)) :
    play seat s (past ++ rest) = play seat (play seat s past) rest :=
  List.foldl_append

theorem play_concat (seat : Seat S) (s : Instance S) (past : List (Network S × Event S))
    (x : Network S × Event S) :
    play seat s (past ++ [x]) = (step seat x.1 (play seat s past) x.2).state :=
  play_append seat s past [x]

theorem along_concat {α : Type} (tell : Instance S → Network S × Event S → List α) (seat : Seat S)
    (s : Instance S) (past : List (Network S × Event S)) (x : Network S × Event S) :
    along tell seat s (past ++ [x]) = along tell seat s past ++ tell (play seat s past) x := by
  induction past generalizing s with
  | nil => exact List.append_nil _
  | cons y past ih =>
    rw [List.cons_append, along, along, ih, List.append_assoc]
    rfl

/-- Some events make a run. -/
theorem exists_run (seat : Seat S) (height : Height) (events : List (Network S × Event S)) :
    ∃ t, Run seat height t ∧ t.state = play seat (.new height) events := by
  induction events using List.reverseRecOn with
  | nil => exact ⟨_, .new, rfl⟩
  | append_singleton past x ih =>
    obtain ⟨t, ht, hstate⟩ := ih
    refine ⟨_, ht.next x.1 x.2, ?_⟩
    rw [play_concat, ← hstate]
    rfl

/-- The same events over a network that takes everything. -/
def overReliable (events : List (Network S × Event S)) : List (Network S × Event S) :=
  events.map fun x => (.reliable S, x.2)

theorem play_overReliable (seat : Seat S) (s : Instance S) (events : List (Network S × Event S)) :
    play seat s (overReliable events) = play seat s events := by
  induction events generalizing s with
  | nil => rfl
  | cons x events ih =>
    have hstep : (step seat x.1 s x.2).state = (step seat (.reliable S) s x.2).state := by
      rw [step_across]
      rfl
    exact (congrArg (fun s => play seat s (overReliable events)) hstep.symm).trans (ih _)

end Instance
end Conclave
