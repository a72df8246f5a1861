import Conclave.Proofs.Instance.Network
import Conclave.Proofs.Instance.Timeouts
import Conclave.Proofs.PlainScheme

/-!
# The latest call of the timer

Of all that an instance asks of the timer, the latest call counts. While the instance is undecided,
this is what its round calls for: the timeout of the round, or that it be forgotten once the round
has reached the cutoff (`latestCall_of_undecided`).

When it decides, the instance has the timeout forgotten, and it leaves timeouts, round changes and
the decisions of others alone from then on. It does not leave proposals alone: one of them for a
higher round makes it enter that round and ask for its timeout, as a start does that comes late. So
the call of the decision is the latest one exactly if neither has happened since
(`latestCall_of_decided_iff`).

* `Calls.step_induct`: what each move keeps, which may speak of the latest call, an event keeps;
* `Awaits` is the invariant of an undecided instance, `Since` that of one that has decided.
-/

namespace Conclave
namespace Instance

open Timer

variable {S : Scheme}

/-- The latest call of the timer on some events. There is none before the first call. -/
def latestCall? (seat : Seat S) (height : Height) (events : List (Network S × Event S)) :
    Option (Effect S) :=
  (along (fun s x => calls (step seat x.1 s x.2).effects) seat (.new height) events).getLast?

section Calls

variable {seat : Seat S} {height : Height} {s u d : Instance S} {cs : List (Effect S)}
  {latest first : Option (Effect S)}

theorem latestCall?_concat (seat : Seat S) (height : Height) (past : List (Network S × Event S))
    (x : Network S × Event S) : latestCall? seat height (past ++ [x]) =
      (calls (step seat x.1 (play seat (.new height) past) x.2).effects).getLast?.or
        (latestCall? seat height past) := by
  rw [latestCall?, along_concat, List.getLast?_append]
  rfl

/-- What the moves of an event keep. The latest call is the one before it, unless there is one among
its own. -/
theorem Calls.step_induct {P : Instance S → Option (Effect S) → Prop}
    (hmove : ∀ {s u latest cs}, P s latest → u.height = s.height → Calls seat s cs u →
      P u (cs.getLast?.or latest))
    (h : P s latest) (net : Network S) (e : Event S) :
    P (step seat net s e).state ((calls (step seat net s e).effects).getLast?.or latest) := by
  have hpath : ∀ {effects decisions u}, Path seat e s effects decisions u →
      P u ((calls effects).getLast?.or latest) := by
    intro effects decisions u hpath
    induction hpath with
    | stay => exact h
    | move _ hstep ih =>
      rw [calls_append, List.getLast?_append, Option.or_assoc]
      exact hmove ih hstep.turn.1 hstep.calls
  exact hpath (step_path seat net s e)

/-- What a round calls for depends on the height and the round. -/
theorem timerCall_congr (hheight : u.height = s.height) (hround : u.round = s.round) :
    timerCall seat u = timerCall seat s := by
  rw [timerCall, timerCall, stopped, stopped, hheight, hround]

/-! ### Before the decision -/

/-- An instance that was started and is undecided has called the timer for its round. -/
structure Awaits (seat : Seat S) (height : Height) (s : Instance S) (latest : Option (Effect S)) :
    Prop where
  height_eq : s.height = height
  latest_eq : s.started = true → s.decided = none → latest = some (timerCall seat s)

theorem Awaits.calls (h : Awaits seat height s latest) (hheight : u.height = s.height)
    (hcalls : Calls seat s cs u) : Awaits seat height u (cs.getLast?.or latest) where
  height_eq := hheight.trans h.height_eq
  latest_eq hstarted hopen := by
    cases hcalls with
    | none hround hsame hdecided =>
      rw [timerCall_congr hheight hround]
      exact h.latest_eq (hsame.symm.trans hstarted) (hdecided.symm.trans hopen)
    | decide hround hsame hopen' hdecided => exact absurd hopen hdecided
    | start hround hnew hstarted' hdecided => rfl
    | enter hlt hsame hdecided => rfl

theorem awaits_along (seat : Seat S) (height : Height) (events : List (Network S × Event S)) :
    Awaits seat height (play seat (.new height) events) (latestCall? seat height events) := by
  induction events using List.reverseRecOn with
  | nil => exact ⟨rfl, nofun⟩
  | append_singleton past x ih =>
    rw [play_concat, latestCall?_concat]
    exact Calls.step_induct (fun h => h.calls) ih x.1 x.2

end Calls

/-- Whatever happens to an instance, while it runs undecided its latest call of the timer asks for
the timeout of its round; if it has stopped undecided, the latest call has the timeout forgotten. -/
theorem latestCall_of_undecided (seat : Seat S) (height : Height)
    (events : List (Network S × Event S)) {u : Instance S}
    (hu : play seat (.new height) events = u) (hstarted : u.started = true)
    (hopen : u.decided = none) :
    (u.stopped seat = false →
      latestCall? seat height events = some (.schedule height u.round)) ∧
    (u.stopped seat = true → latestCall? seat height events = some (.cancel height)) := by
  subst hu
  obtain ⟨hheight, hlatest⟩ := awaits_along seat height events
  rw [hlatest hstarted hopen, timerCall, hheight]
  constructor
  · intro hrunning
    rw [hrunning, if_neg Bool.false_ne_true]
  · intro hstopped
    rw [if_pos hstopped]

namespace Waiting

open Scheme

/-- Member 1 starts, and its first round times out. -/
def events : List (Network plain × Event plain) :=
  [(.reliable _, .start plain.value), (.reliable _, .timeout Round.first)]

/-- The place of member 1 where instances stop in the second round. -/
def brief : Seat plain := { plain.seat with cutoff := ⟨2⟩ }

end Waiting

/-- The timeout of the second round is asked for, unless this is where instances stop. -/
theorem latestCall_of_timeout :
    latestCall? Scheme.plain.seat Height.first Waiting.events =
      some (.schedule Height.first ⟨2⟩) ∧
    latestCall? Waiting.brief Height.first Waiting.events = some (.cancel Height.first) := by
  constructor
  · exact (latestCall_of_undecided Scheme.plain.seat Height.first Waiting.events rfl
      (by decide +kernel) (by decide +kernel)).1 (by decide +kernel)
  · exact (latestCall_of_undecided Waiting.brief Height.first Waiting.events rfl
      (by decide +kernel) (by decide +kernel)).2 (by decide +kernel)

/-! ### After the decision -/

section Decided

variable {seat : Seat S} {net : Network S} {height : Height} {s u d : Instance S} {e : Event S}
  {cs : List (Effect S)} {latest first : Option (Effect S)}

/-- What has become of an instance since a state in which it had decided, where a call was the
latest one: it remains so until the instance enters a round or is started. -/
structure Since (seat : Seat S) (d : Instance S) (first : Option (Effect S)) (s : Instance S)
    (latest : Option (Effect S)) : Prop where
  height_eq : s.height = d.height
  decided : s.decided ≠ none
  round_le : d.round.toNat ≤ s.round.toNat
  started : d.started = true → s.started = true
  latest_eq : latest =
    if s.round = d.round ∧ s.started = d.started then first else some (timerCall seat s)

theorem since_refl (hdecided : d.decided ≠ none) : Since seat d first d first :=
  ⟨rfl, hdecided, le_rfl, id, (if_pos ⟨rfl, rfl⟩).symm⟩

theorem Since.calls (h : Since seat d first s latest) (hheight : u.height = s.height)
    (hcalls : Calls seat s cs u) : Since seat d first u (cs.getLast?.or latest) := by
  obtain ⟨hsame, hfinal, hle, hstill, hlatest⟩ := h
  cases hcalls with
  | none hround hstarted hdecided =>
    refine ⟨hheight.trans hsame, hdecided ▸ hfinal, hround ▸ hle, hstarted ▸ hstill, ?_⟩
    rw [hround, hstarted, timerCall_congr hheight hround]
    exact hlatest
  | decide hround hstarted hopen hdecided => exact absurd hopen hfinal
  | start hround hnew hstarted hdecided =>
    refine ⟨hheight.trans hsame, hdecided ▸ hfinal, hround ▸ hle, fun _ => hstarted, ?_⟩
    -- an instance that can still be started was not started before either
    rw [if_neg]
    · rfl
    · rintro ⟨-, heq⟩
      have := hstill (heq.symm.trans hstarted)
      rw [hnew] at this
      cases this
  | enter hlt hstarted hdecided =>
    refine ⟨hheight.trans hsame, hdecided ▸ hfinal, hle.trans hlt.le, hstarted ▸ hstill, ?_⟩
    rw [if_neg]
    · rfl
    · rintro ⟨heq, -⟩
      rw [heq] at hlt
      exact absurd hle hlt.not_ge

/-- The timeout of the height is forgotten with the decision. -/
theorem effects_onCommit_of_decision {m : SignedMessage S} {decision : Decision S}
    (h : (onCommit seat s m).answer = .ok (some decision)) :
    (onCommit seat s m).effects = [.cancel s.height] := by
  unfold onCommit at h ⊢
  split at h
  · cases h
  split at h
  · cases h
  dsimp only at h ⊢
  split at h
  · cases h
  rename_i hopen
  rw [if_neg hopen]
  split at h
  · cases h
  split at h
  · rename_i hquorum
    rw [if_pos hquorum]
    split at h
    · cases h
    · rfl
  · cases h

theorem effects_of_decision {decision : Decision S}
    (h : (step seat net s e).answer = .ok (some decision)) :
    (step seat net s e).effects = [.cancel s.height] := by
  have hnone : ∀ o : Step S (Instance S) Error Unit,
      (undecided o).answer ≠ .ok (some decision) := by
    intro o ho
    have hnot := decisionOf_undecided o
    rw [ho] at hnot
    exact absurd hnot (List.cons_ne_nil _ _)
  cases e with
  | start value => exact absurd h (hnone _)
  | timeout round => exact absurd h (hnone _)
  | receive m =>
    rw [step] at h ⊢
    unfold receive at h ⊢
    split at h
    · cases h
    rename_i hrunning
    rw [if_neg hrunning]
    split at h
    · cases h
    split at h
    · exact absurd h (hnone _)
    · exact absurd h (hnone _)
    · exact effects_onCommit_of_decision h
    · exact absurd h (hnone _)
  | learn commit =>
    rw [step] at h ⊢
    unfold learn at h ⊢
    split at h
    · cases h
    rename_i hopen
    rw [if_neg hopen]
    split at h
    · cases h
    split at h
    · cases h
    · rename_i hroot
      rw [if_neg hroot]
      rfl

/-- The state in which an event leaves an instance that decides on it. -/
def decidedOn (seat : Seat S) (s : Instance S) (x : Network S × Event S) : List (Instance S) :=
  if s.isDecided = false ∧ (step seat x.1 s x.2).state.isDecided = true then
    [(step seat x.1 s x.2).state]
  else []

theorem calls_of_decides (hopen : s.decided = none)
    (hdecided : (step seat net s e).state.decided ≠ none) :
    Timer.calls (step seat net s e).effects = [.cancel s.height] := by
  rcases step_decided seat net s e with ⟨-, hsame⟩ | ⟨decision, hdecision, -, -⟩
  · exact absurd (hsame.trans hopen) hdecided
  · unfold decisionOf at hdecision
    split at hdecision
    · rw [effects_of_decision ‹_›]
      rfl
    · cases hdecision

/-- An instance of a height on its way, with the latest call and the state after its decision, as
soon as there is one. -/
inductive Standing (seat : Seat S) (height : Height) (s : Instance S) (latest : Option (Effect S)) :
    List (Instance S) → Prop
  | undecided (hheight : s.height = height) (hopen : s.decided = none) :
      Standing seat height s latest []
  | decided {d : Instance S} (hheight : d.height = height)
      (hsince : Since seat d (some (.cancel height)) s latest) : Standing seat height s latest [d]

theorem standing_along (seat : Seat S) (height : Height) (events : List (Network S × Event S)) :
    Standing seat height (play seat (.new height) events) (latestCall? seat height events)
      (along (decidedOn seat) seat (.new height) events) := by
  induction events using List.reverseRecOn with
  | nil => exact .undecided rfl rfl
  | append_singleton past x ih =>
    rw [play_concat, latestCall?_concat, along_concat]
    generalize play seat (.new height) past = s at ih ⊢
    generalize along (decidedOn seat) seat (.new height) past = ds at ih ⊢
    have hsame := step_height seat x.1 s x.2
    cases ih with
    | undecided hheight hopen =>
      by_cases hdecided : (step seat x.1 s x.2).state.decided = none
      · rw [decidedOn, if_neg (by simp [isDecided, hdecided])]
        exact .undecided (hsame.trans hheight) hdecided
      · have hdecides : s.isDecided = false ∧ (step seat x.1 s x.2).state.isDecided = true := by
          simpa [isDecided, hopen, Option.isSome_iff_ne_none] using hdecided
        rw [decidedOn, if_pos hdecides, calls_of_decides hopen hdecided, hheight]
        exact .decided (hsame.trans hheight) (since_refl hdecided)
    | decided hheight hsince =>
      rw [decidedOn, if_neg (by simp [isDecided, Option.isSome_iff_ne_none, hsince.decided]),
        List.append_nil]
      exact .decided hheight (Calls.step_induct (fun h => h.calls) hsince x.1 x.2)

/-- A decided instance asks for a timeout only when it is started, or on a proposal that makes it
enter a higher round. -/
theorem schedule_of_decided (hdecided : s.decided ≠ none) {round : Round}
    (h : .schedule height round ∈ (step seat net s e).effects) :
    (∃ value, e = .start value ∧ s.started = false) ∨
      ∃ m, e = .receive m ∧ m.type = .propose ∧
        s.round.toNat < (step seat net s e).state.round.toNat := by
  by_cases hstart : ∃ value, e = .start value
  · obtain ⟨value, rfl⟩ := hstart
    refine .inl ⟨value, rfl, ?_⟩
    by_contra hstarted
    rw [Bool.not_eq_false] at hstarted
    rw [step, undecided, Step.mapAnswer, start, if_pos hstarted] at h
    cases h
  · obtain ⟨hlt, hopen | ⟨m, hm, htype⟩⟩ :=
      step_of_schedule net (fun value he => hstart ⟨value, he⟩) h
    · exact absurd hopen hdecided
    · exact .inr ⟨m, hm, htype, hlt⟩

end Decided

/-- In a run that has decided, the latest call of the timer is the one of the decision exactly if
the instance has stopped, or has entered no round and not been started since it decided; otherwise
its latest call asks for the timeout of its round. It asks for one only when it is started, or on a
proposal for a higher round; no other message, no timeout and no decision of others makes it do
so. -/
theorem latestCall_of_decided_iff (seat : Seat S) (height : Height)
    (events : List (Network S × Event S)) {u : Instance S}
    (hu : play seat (.new height) events = u) (hdecided : u.decided ≠ none) :
    (∃ d, along (decidedOn seat) seat (.new height) events = [d] ∧
      (latestCall? seat height events = some (.cancel height) ↔
        u.stopped seat = true ∨ u.round = d.round ∧ u.started = d.started) ∧
      (latestCall? seat height events ≠ some (.cancel height) →
        latestCall? seat height events = some (.schedule height u.round))) ∧
    ∀ past x round, past ++ [x] <+: events → (play seat (.new height) past).decided ≠ none →
      .schedule height round ∈ (step seat x.1 (play seat (.new height) past) x.2).effects →
        (∃ value, x.2 = .start value ∧ (play seat (.new height) past).started = false) ∨
          ∃ m, x.2 = .receive m ∧ m.type = .propose ∧
            (play seat (.new height) past).round.toNat <
              (play seat (.new height) (past ++ [x])).round.toNat := by
  subst hu
  refine ⟨?_, fun past x round _ hpast h => ?_⟩
  · have hstanding := standing_along seat height events
    generalize along (decidedOn seat) seat (.new height) events = ds at hstanding ⊢
    cases hstanding with
    | undecided hheight hopen => exact absurd hopen hdecided
    | @decided d hheight hsince =>
      refine ⟨d, rfl, ?_⟩
      rw [hsince.latest_eq, timerCall, hsince.height_eq, hheight]
      by_cases hsame : (play seat (.new height) events).round = d.round ∧
          (play seat (.new height) events).started = d.started
      · rw [if_pos hsame]
        exact ⟨iff_of_true rfl (.inr hsame), fun hne => absurd rfl hne⟩
      · rw [if_neg hsame]
        by_cases hstopped : (play seat (.new height) events).stopped seat = true
        · rw [if_pos hstopped]
          exact ⟨iff_of_true rfl (.inl hstopped), fun hne => absurd rfl hne⟩
        · rw [if_neg hstopped]
          exact ⟨iff_of_false (by simp) (not_or.2 ⟨hstopped, hsame⟩), fun _ => rfl⟩
  · rw [play_concat]
    exact schedule_of_decided hpast h

namespace Late

open Scheme

/-- Member 1 starts, accepts its proposal and learns that a quorum has committed to the value. -/
def decision : List (Network plain × Event plain) :=
  [.start plain.value, .receive (plain.message 1 (.propose plain.value [] [])),
    .learn plain.certificate].map fun e => (.reliable _, e)

/-- The proposal of member 2, which leads the second round, to a quorum that asks for the round. -/
def proposal : SignedMessage plain :=
  plain.signed 2 plain.seat.identifier Height.first ⟨2⟩ (.propose plain.value
    ([2, 3, 4].map fun id =>
      plain.signed id plain.seat.identifier Height.first ⟨2⟩ (.roundChange none [])) [])

end Late

/-- A commit that comes after the decision does not make the instance ask for a timeout again. -/
theorem latestCall_of_late_commit :
    latestCall? Scheme.plain.seat Height.first (Late.decision ++
        [(.reliable _, .receive (Scheme.plain.message 4 (.commit Scheme.plain.value.root)))]) =
      some (.cancel Height.first) := by
  obtain ⟨⟨d, hd, hiff, -⟩, -⟩ := latestCall_of_decided_iff Scheme.plain.seat Height.first
    (Late.decision ++
      [(.reliable _, .receive (Scheme.plain.message 4 (.commit Scheme.plain.value.root)))])
    rfl (by decide +kernel)
  have hstate : ([d].map fun d => (d.round, d.started)) = [(Round.first, true)] := by
    rw [← hd]
    decide +kernel
  simp only [List.map_cons, List.map_nil, List.cons.injEq, Prod.mk.injEq, and_true] at hstate
  rw [hiff, hstate.1, hstate.2]
  decide +kernel

/-- A proposal that comes after the decision does: the instance has decided, and its latest call
asks for the timeout of the second round. -/
theorem schedule_after_decision :
    (play Scheme.plain.seat (.new Height.first)
        (Late.decision ++ [(.reliable _, .receive Late.proposal)])).decided =
      some Scheme.plain.value ∧
    latestCall? Scheme.plain.seat Height.first
        (Late.decision ++ [(.reliable _, .receive Late.proposal)]) =
      some (.schedule Height.first ⟨2⟩) := by
  decide +kernel

end Instance
end Conclave
