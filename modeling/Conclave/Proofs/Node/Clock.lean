import Conclave.Proofs.Instance.Timeouts
import Conclave.Proofs.Node.Decisions
import Conclave.Proofs.PlainScheme
import Conclave.Runner

/-!
# A node and its timer

All instances of a node share one timer, which keeps one timeout. While the latest instance is
running, the timeout of its round is pending or has expired (`Clocked.Ticking`) for as long as no
instance of another height enters a round: that instance asks for a timeout too, and takes the place
of the pending one (`ticking_iff_undisturbed`).

* `Beat` is what an event of a node has to do with the timer: nothing, or an instance begins, or one
  acts;
* `Clocked` is a node with its timer while events happen and time passes, in any order. What a
  `Runner` does is a case of it.

An instance that has decided leaves timeouts and round changes alone, but not proposals: one of them
for a higher round makes it enter that round. Then the running instance is never woken up
(`pending_after_proposal`).
-/

namespace Conclave

variable {S : Scheme}

/-! ### Time -/

namespace Timer

/-- As time passes, nothing happens or what is pending fires. -/
theorem advanceTo_cases (t : Timer) (time : ℕ) :
    (t.advanceTo time).2 = none ∧ (t.advanceTo time).1.pending = t.pending ∨
      ∃ a, t.pending = some a ∧ (t.advanceTo time).2 = some a := by
  unfold advanceTo fire?
  cases hpending : t.pending with
  | none => exact .inl ⟨rfl, rfl⟩
  | some a =>
    by_cases hdue : a.deadline ≤ time
    · exact .inr ⟨a, rfl, by simp [hdue]⟩
    · exact .inl (by simp [hdue])

end Timer

/-! ### Beats -/

namespace Node

open Timer

variable {seat : Seat S} {env : Surroundings S} {n u v : Node S} {effects : List (Effect S)}

theorem calls_of_save (seat : Seat S) (disk : Disk) (n : Node S) (m : SignedMessage S) :
    calls (n.save seat disk m).effects = [] := by
  unfold save
  split <;> rfl

theorem calls_of_save_or_done (seat : Seat S) (disk : Disk) (n : Node S) (m : SignedMessage S)
    (b : Bool) : calls (if b then n.save seat disk m else .done n ()).effects = [] := by
  split
  · exact calls_of_save seat disk n m
  · rfl

theorem calls_of_conclude (seat : Seat S) (env : Surroundings S) (n : Node S) (height : Height)
    (decision : Decision S) : calls (n.conclude seat env height decision).effects = [] := by
  unfold conclude saveIfHighest
  dsimp only
  split
  · rfl
  · rfl
  · rw [calls_append, calls_of_save]
    rfl

theorem height_advanceTo (n : Node S) (height : Height) :
    (n.advanceTo height).height = n.height ∨
      (n.advanceTo height).height = some height ∧ n.reached ≤ height.toNat := by
  unfold advanceTo
  split
  · rename_i hbelow
    refine .inr ⟨rfl, ?_⟩
    unfold reached
    cases hheight : n.height with
    | none => exact Nat.zero_le _
    | some current =>
      rw [hheight, Option.all_some, decide_eq_true_eq, Height.lt_iff] at hbelow
      exact hbelow
  · exact .inl rfl

/-- What an event of a node passes on to the instance of a height. -/
inductive PassesOn : Event S → Height → Instance.Event S → Prop
  | receive (m : SignedMessage S) : PassesOn (.receive m) m.height (.receive m)
  | learn (m : SignedMessage S) : PassesOn (.receive m) m.height (.learn m)
  | timeout (height : Height) (round : Round) :
      PassesOn (.timeout height round) height (.timeout round)

/-- What an event of a node has to do with the timer, and with the latest instance. -/
inductive Beat (seat : Seat S) (n : Node S) (e : Event S) : List (Effect S) → Node S → Prop
  /-- The instances stay as they are. The node may be taken to a height above all of them. -/
  | idle {effects : List (Effect S)} {u : Node S} (hcalls : calls effects = [])
      (hinstances : u.instances = n.instances)
      (hheight : u.height = n.height ∨
        ∃ height, u.height = some height ∧ n.reached ≤ height.toNat) : Beat seat n e effects u
  /-- The instance of the next height begins, after the latest one has decided. -/
  | begin {effects : List (Effect S)} {u : Node S} {height : Height} (net : Network S)
      (value : Value S)
      (hcalls : calls effects =
        calls (Instance.step seat net (.new height) (.start value)).effects)
      (hlatest : ∀ current s, n.height = some current → n.instanceAt? current = some s →
        s.isDecided = true)
      (hinstances : u.instances =
        n.instances.push (Instance.step seat net (.new height) (.start value)).state)
      (hnext : height.toNat = n.reached) (hheight : u.height = some height) :
      Beat seat n e effects u
  /-- The instance of a height acts. -/
  | act {effects : List (Effect S)} {u : Node S} {height : Height} {s : Instance S}
      {e' : Instance.Event S} (net : Network S) (he : PassesOn e height e')
      (hs : n.instanceAt? height = some s)
      (hcalls : calls effects = calls (Instance.step seat net s e').effects)
      (hinstances : u.instances =
        (n.setInstance height (Instance.step seat net s e').state).instances)
      (hheight : u.height = n.height ∨ n.reached ≤ height.toNat) : Beat seat n e effects u

theorem Beat.congr (h : Beat seat n e effects u) (hinst : v.instances = u.instances)
    (hsame : v.height = u.height) : Beat seat n e effects v := by
  cases h with
  | idle hcalls hinstances hheight =>
    exact .idle hcalls (hinst.trans hinstances) (hsame ▸ hheight)
  | begin net value hcalls hlatest hinstances hnext hheight =>
    exact .begin net value hcalls hlatest (hinst.trans hinstances) hnext (hsame.trans hheight)
  | act net he hs hcalls hinstances hheight =>
    exact .act net he hs hcalls (hinst.trans hinstances) (hsame ▸ hheight)

theorem beat_refuse : Beat seat n e [] n := .idle rfl rfl (.inl rfl)

theorem start_beat (value : Value S) :
    Beat seat n (.start value) (n.start seat env value).effects (n.start seat env value).state := by
  unfold start
  split
  · exact beat_refuse
  rename_i hnone
  split
  · exact beat_refuse
  split
  · exact beat_refuse
  rename_i height hnext
  refine .begin env.network value rfl (fun current s hcurrent hs => ?_) rfl ?_ rfl
  · rw [hcurrent, Option.bind_some, hs] at hnone
    simpa using hnone
  · unfold reached
    cases hheight : n.height with
    | none =>
      rw [hheight] at hnext
      cases hnext
      rfl
    | some current =>
      rw [hheight] at hnext
      exact Height.next?_eq_ok hnext

theorem receivePlain_beat (m : SignedMessage S) :
    Beat seat n (.receive m) (n.receivePlain seat env m).effects
      (n.receivePlain seat env m).state := by
  unfold receivePlain
  split
  · exact beat_refuse
  split
  · exact beat_refuse
  rename_i s hs
  dsimp only
  split
  · exact .act env.network (.receive m) hs rfl rfl (.inl rfl)
  · exact .act env.network (.receive m) hs rfl rfl (.inl rfl)
  · rename_i decision hanswer
    have halike := Alike.conclude seat env
      (n.setInstance m.height (s.receive seat env.network m).state) m.height decision
    refine .act env.network (.receive m) hs ?_ halike.instances_eq (.inl halike.height_eq)
    rw [Step.after, calls_append, calls_of_conclude, List.append_nil]
    rfl

theorem receiveDecided_beat (m : SignedMessage S) :
    Beat seat n (.receive m) (n.receiveDecided seat env m).effects
      (n.receiveDecided seat env m).state := by
  unfold receiveDecided
  split
  · exact beat_refuse
  split
  · exact beat_refuse
  rename_i isHigher hload
  have hsaved := Alike.save_or_done seat env.disk n m isHigher
  have hcalls := calls_of_save_or_done seat env.disk n m isHigher
  generalize (if isHigher then n.save seat env.disk m else .done n ()) = saved at hsaved hcalls ⊢
  have halike := hsaved.trans (Alike.noteSave saved)
  dsimp only
  generalize (noteSave saved).1 = w at halike ⊢
  have hinstances := (instances_advanceTo w m.height).trans halike.instances_eq
  have hheight : (w.advanceTo m.height).height = n.height ∨
      (w.advanceTo m.height).height = some m.height ∧ n.reached ≤ m.height.toNat := by
    rw [← halike.height_eq, ← reached_congr halike.height_eq]
    exact height_advanceTo w m.height
  split
  · exact .idle hcalls hinstances (hheight.imp_right fun h => ⟨_, h⟩)
  rename_i s hs
  rw [instanceAt?_congr hinstances] at hs
  have hlearn : calls (saved.effects ++ (s.learn m).effects) =
      calls (Instance.step seat env.network s (.learn m)).effects := by
    rw [calls_append, hcalls]
    rfl
  have hset : ((w.advanceTo m.height).setInstance m.height (s.learn m).state).instances =
      (n.setInstance m.height (s.learn m).state).instances := by
    rw [setInstance, hinstances, setInstance]
  have hact : Beat seat n (.receive m) (saved.effects ++ (s.learn m).effects)
      ((w.advanceTo m.height).setInstance m.height (s.learn m).state) :=
    .act env.network (.learn m) hs hlearn hset (hheight.imp_right And.right)
  split
  · exact hact
  · exact hact
  · exact hact.congr rfl rfl

theorem timeout_beat (height : Height) (round : Round) :
    Beat seat n (.timeout height round) (n.timeout seat env height round).effects
      (n.timeout seat env height round).state := by
  unfold timeout
  split
  · exact beat_refuse
  · rename_i s hs
    exact .act env.network (.timeout height round) hs rfl rfl (.inl rfl)

theorem load_beat : Beat seat n .load (n.load seat env).effects (n.load seat env).state := by
  unfold load
  split
  · exact beat_refuse
  · exact beat_refuse
  · rename_i m hstored
    exact .idle rfl (instances_advanceTo n m.height)
      ((height_advanceTo n m.height).imp_right fun h => ⟨_, h⟩)

/-- Every event is a beat. -/
theorem step_beat (seat : Seat S) (env : Surroundings S) (n : Node S) (e : Event S) :
    Beat seat n e (step seat env n e).effects (step seat env n e).state := by
  cases e with
  | start value => exact start_beat value
  | receive m =>
    have hreceive : Beat seat n (.receive m)
        (if messageKind seat.committee m = .decided then n.receiveDecided seat env m
          else n.receivePlain seat env m).effects
        (if messageKind seat.committee m = .decided then n.receiveDecided seat env m
          else n.receivePlain seat env m).state := by
      split
      · exact receiveDecided_beat m
      · exact receivePlain_beat m
    exact hreceive.congr rfl rfl
  | timeout height round => exact timeout_beat height round
  | load => exact load_beat

end Node

/-! ### Nodes with a timer -/

/-- A node with its timer, and the timeouts that have expired so far. -/
structure Clocked (S : Scheme) where
  node : Node S
  timer : Timer
  expired : List Alarm

namespace Clocked

/-- What can happen to a node with its timer: an event of the node, or time passes up to a moment. A
timeout that has expired reaches the node at a later event, or never. -/
inductive Action (S : Scheme)
  | event (env : Surroundings S) (e : Node.Event S)
  | wait (time : ℕ)

/-- A node before its first start, with what is stored. -/
def new (capacity : ℕ) (archive : Archive S) (timeouts : Timeouts) (sleep : Sleep) : Clocked S :=
  ⟨Node.new capacity archive, Timer.new timeouts sleep, []⟩

/-- What becomes of a node and its timer. -/
def act (seat : Seat S) (c : Clocked S) : Action S → Clocked S
  | .event env e =>
    let o := Node.step seat env c.node e
    ⟨o.state, c.timer.apply o.effects, c.expired⟩
  | .wait time =>
    let passed := c.timer.advanceTo time
    ⟨c.node, passed.1, c.expired ++ passed.2.toList⟩

/-- What becomes of them after some actions. -/
def play (seat : Seat S) (c : Clocked S) (actions : List (Action S)) : Clocked S :=
  actions.foldl (act seat) c

/-- The timeout of a round has expired. -/
def Expired (c : Clocked S) (height : Height) (round : Round) : Prop :=
  ∃ a ∈ c.expired, a.height = height ∧ a.round = round

/-- The instance of the latest height is kept, and neither decided nor stopped. -/
structure Running (seat : Seat S) (n : Node S) (height : Height) (s : Instance S) : Prop where
  latest : n.height = some height
  kept : n.instanceAt? height = some s
  undecided : s.decided = none
  running : s.stopped seat = false

/-- While the latest instance is running, the timeout of its round is pending or has expired. -/
def Ticking (seat : Seat S) (c : Clocked S) : Prop :=
  ∀ height s, Running seat c.node height s →
    c.timer.Waits height s.round ∨ c.Expired height s.round

/-- While the timeout of the latest instance is pending, a timeout of another height is asked
for. -/
def Displaces (seat : Seat S) (c : Clocked S) (effects : List (Effect S)) : Prop :=
  ∃ height s, Running seat c.node height s ∧ ¬ c.Expired height s.round ∧
    ∃ other round, other ≠ height ∧ .schedule other round ∈ effects

/-- An event on which an instance of another height displaces the timeout of the latest one. -/
def Disturbs (seat : Seat S) (c : Clocked S) : Action S → Prop
  | .event env e => Displaces seat c (Node.step seat env c.node e).effects
  | .wait _ => False

variable {seat : Seat S} {c : Clocked S}

theorem play_append (seat : Seat S) (c : Clocked S) (past rest : List (Action S)) :
    c.play seat (past ++ rest) = (c.play seat past).play seat rest :=
  List.foldl_append

theorem play_concat (seat : Seat S) (c : Clocked S) (past : List (Action S)) (x : Action S) :
    c.play seat (past ++ [x]) = (c.play seat past).act seat x :=
  play_append seat c past [x]

/-- The node has come through a run. -/
theorem exists_run (seat : Seat S) (capacity : ℕ) (archive : Archive S) (timeouts : Timeouts)
    (sleep : Sleep) (actions : List (Action S)) : ∃ t, Node.Run seat capacity archive t ∧
      t.state = ((new capacity archive timeouts sleep).play seat actions).node := by
  induction actions using List.reverseRecOn with
  | nil => exact ⟨_, .new, rfl⟩
  | append_singleton past x ih =>
    obtain ⟨t, ht, hstate⟩ := ih
    rw [play_concat]
    cases x with
    | event env e =>
      refine ⟨_, ht.next env e, ?_⟩
      rw [act, ← hstate]
      rfl
    | wait time => exact ⟨t, ht, hstate⟩

/-! ### One action -/

/-- The instances that are kept are of heights that the node has reached. -/
def KeepsReached (n : Node S) : Prop :=
  ∀ {height s}, n.instanceAt? height = some s → height.toNat < n.reached

theorem Running.timed {height : Height} {s : Instance S} {t : Timer}
    (hrunning : Running seat c.node height s) (h : Instance.Timed seat c.Expired s t) :
    t.Waits height s.round ∨ c.Expired height s.round := by
  have hheight := Node.height_of_instanceAt? hrunning.kept
  rw [← hheight]
  exact h hrunning.undecided hrunning.running

section Beats

variable {effects : List (Effect S)} {u : Node S} {height : Height}

theorem not_displaces_nil (hcalls : Timer.calls effects = []) : ¬ Displaces seat c effects := by
  rintro ⟨-, -, -, -, other, round, -, hmem⟩
  rw [Timer.schedule_mem_congr (hcalls.trans Timer.calls_nil.symm)] at hmem
  cases hmem

/-- The timer is left alone. -/
theorem Ticking.idle (h : Ticking seat c) (hkept : KeepsReached c.node)
    (hcalls : Timer.calls effects = []) (hinstances : u.instances = c.node.instances)
    (hheight : u.height = c.node.height ∨
      ∃ height, u.height = some height ∧ c.node.reached ≤ height.toNat) :
    Ticking seat ⟨u, c.timer.apply effects, c.expired⟩ := by
  intro height s hs
  have hs' : c.node.instanceAt? height = some s :=
    (Node.instanceAt?_congr hinstances).symm.trans hs.kept
  rw [Timer.apply_congr (hcalls.trans Timer.calls_nil.symm), Timer.apply_nil]
  rcases hheight with hsame | ⟨above, habove, hreached⟩
  · exact h height s ⟨hsame.symm.trans hs.latest, hs', hs.undecided, hs.running⟩
  -- nothing is kept of a height that the node is taken to
  · obtain rfl := Option.some.inj (habove.symm.trans hs.latest)
    exact absurd (hkept hs') (not_lt.2 hreached)

/-- An instance that begins asks for its timeout. -/
theorem ticking_begin (hkept : KeepsReached c.node) {net : Network S} {value : Value S}
    (hcalls : Timer.calls effects =
      Timer.calls (Instance.step seat net (.new height) (.start value)).effects)
    (hinstances : u.instances =
      c.node.instances.push (Instance.step seat net (.new height) (.start value)).state)
    (hnext : height.toNat = c.node.reached) (hheight : u.height = some height) :
    Ticking seat ⟨u, c.timer.apply effects, c.expired⟩ := by
  intro height' s hs
  obtain rfl := Option.some.inj (hheight.symm.trans hs.latest)
  have hbegun := Instance.step_height seat net (.new height) (.start value)
  rcases Node.kept_of_push hbegun hinstances _ _ hs.kept with ⟨-, rfl⟩ | hold
  · rw [Timer.apply_congr hcalls]
    exact hs.timed (Instance.timed_start seat net rfl value)
  · exact absurd (hkept hold) (hnext ▸ lt_irrefl _)

variable {s : Instance S} {net : Network S} {e : Instance.Event S}

/-- The latest instance keeps its timeout itself. -/
theorem Ticking.act_latest (h : Ticking seat c) (hlatest : c.node.height = some height)
    (hs : c.node.instanceAt? height = some s)
    (hcalls : Timer.calls effects = Timer.calls (Instance.step seat net s e).effects)
    (hinstances : u.instances =
      (c.node.setInstance height (Instance.step seat net s e).state).instances)
    (hsame : u.height = c.node.height) :
    Ticking seat ⟨u, c.timer.apply effects, c.expired⟩ := by
  intro height' s' hs'
  obtain rfl := Option.some.inj (hlatest.symm.trans (hsame.symm.trans hs'.latest))
  have hheight := Node.height_of_instanceAt? hs
  have hstep := (Instance.step_height seat net s e).trans hheight
  rcases Node.kept_of_setInstance hs hstep hinstances _ _ hs'.kept with ⟨-, rfl⟩ | ⟨hne, -⟩
  · rw [Timer.apply_congr hcalls]
    refine hs'.timed (Instance.Timed.step (fun hopen hrunning => ?_) net e)
    rw [hheight]
    exact h height s ⟨hlatest, hs, hopen, hrunning⟩
  · exact absurd rfl hne

theorem not_displaces_latest (hlatest : c.node.height = some height)
    (hs : c.node.instanceAt? height = some s)
    (hcalls : Timer.calls effects = Timer.calls (Instance.step seat net s e).effects) :
    ¬ Displaces seat c effects := by
  rintro ⟨height', s', hs', -, other, round, hne, hmem⟩
  obtain rfl := Option.some.inj (hlatest.symm.trans hs'.latest)
  rw [Timer.schedule_mem_congr hcalls] at hmem
  exact hne ((Instance.step_forHeight seat net s e _ hmem).trans (Node.height_of_instanceAt? hs))

/-- The latest instance is left alone when one of another height acts. -/
theorem running_iff_of_other (hother : c.node.height ≠ some height)
    (hs : c.node.instanceAt? height = some s)
    (hinstances : u.instances =
      (c.node.setInstance height (Instance.step seat net s e).state).instances)
    (hsame : u.height = c.node.height) {height' : Height} {s' : Instance S} :
    Running seat u height' s' ↔ Running seat c.node height' s' := by
  have hstep := (Instance.step_height seat net s e).trans (Node.height_of_instanceAt? hs)
  have hkept : c.node.height = some height' →
      u.instanceAt? height' = c.node.instanceAt? height' := by
    intro hlatest
    rw [Node.instanceAt?_congr hinstances]
    exact Node.instanceAt?_setInstance_of_ne hstep fun heq => hother (heq ▸ hlatest)
  constructor
  · rintro ⟨hlatest, hs', hopen, hruns⟩
    have hlatest := hsame.symm.trans hlatest
    exact ⟨hlatest, (hkept hlatest).symm.trans hs', hopen, hruns⟩
  · rintro ⟨hlatest, hs', hopen, hruns⟩
    exact ⟨hsame.trans hlatest, (hkept hlatest).trans hs', hopen, hruns⟩

/-- An instance of another height may ask for a timeout. -/
theorem Ticking.act_other_iff (h : Ticking seat c) (hother : c.node.height ≠ some height)
    (hs : c.node.instanceAt? height = some s)
    (hcalls : Timer.calls effects = Timer.calls (Instance.step seat net s e).effects)
    (hinstances : u.instances =
      (c.node.setInstance height (Instance.step seat net s e).state).instances)
    (hsame : u.height = c.node.height) :
    Ticking seat ⟨u, c.timer.apply effects, c.expired⟩ ↔ ¬ Displaces seat c effects := by
  have hfor := Instance.step_forHeight seat net s e
  rw [Node.height_of_instanceAt? hs] at hfor
  have hrunning : ∀ {height' s'}, Running seat u height' s' ↔ Running seat c.node height' s' :=
    running_iff_of_other hother hs hinstances hsame
  have hwaits : ∀ {height' round}, c.node.height = some height' →
      ((c.timer.apply effects).Waits height' round ↔
        c.timer.Waits height' round ∧ ∀ round', .schedule height round' ∉ effects) := by
    intro height' round hlatest
    have hne : height ≠ height' := fun heq => hother (heq ▸ hlatest)
    simp only [Timer.apply_congr hcalls, Timer.schedule_mem_congr hcalls]
    exact Timer.waits_apply_iff hne hfor
  constructor
  · rintro h' ⟨height', s', hs', hpending, other, round, -, hmem⟩
    rcases h' height' s' (hrunning.2 hs') with hwait | hexpired
    · have hmem' := (Timer.schedule_mem_congr hcalls).1 hmem
      obtain rfl : other = height := hfor _ hmem'
      exact ((hwaits hs'.latest).1 hwait).2 round hmem
    · exact hpending hexpired
  · intro hcalm height' s' hs'
    have hs' := hrunning.1 hs'
    by_cases hexpired : c.Expired height' s'.round
    · exact .inr hexpired
    · refine .inl ((hwaits hs'.latest).2 ⟨(h height' s' hs').resolve_right hexpired, ?_⟩)
      exact fun round hmem => hcalm ⟨height', s', hs', hexpired, height, round,
        fun heq => hother (heq ▸ hs'.latest), hmem⟩

end Beats

/-- The latest instance keeps its timeout on an event exactly if it is not disturbed. -/
theorem Ticking.event_iff (h : Ticking seat c) (hkept : KeepsReached c.node)
    (env : Surroundings S) (e : Node.Event S) :
    Ticking seat (c.act seat (.event env e)) ↔ ¬ Disturbs seat c (.event env e) := by
  unfold act Disturbs
  cases Node.step_beat seat env c.node e with
  | idle hcalls hinstances hheight =>
    exact iff_of_true (h.idle hkept hcalls hinstances hheight) (not_displaces_nil hcalls)
  | begin net value hcalls hlatest hinstances hnext hheight =>
    refine iff_of_true (ticking_begin hkept hcalls hinstances hnext hheight) ?_
    rintro ⟨height', s, hs, -⟩
    have hdecided := hlatest height' s hs.latest hs.kept
    rw [Instance.isDecided, hs.undecided] at hdecided
    cases hdecided
  | @act height s e' net he hs hcalls hinstances hheight =>
    have hsame := hheight.resolve_right (not_le.2 (hkept hs))
    by_cases hlatest : c.node.height = some height
    · exact iff_of_true (h.act_latest hlatest hs hcalls hinstances hsame)
        (not_displaces_latest hlatest hs hcalls)
    · exact h.act_other_iff hlatest hs hcalls hinstances hsame

/-- As time passes, what is pending stays so or expires. -/
theorem Ticking.wait (h : Ticking seat c) (time : ℕ) : Ticking seat (c.act seat (.wait time)) := by
  intro height s hs
  rcases h height s hs with hwaits | ⟨a, ha, hround⟩
  · rcases c.timer.advanceTo_cases time with ⟨-, hpending⟩ | ⟨a, hpending, hfired⟩
    · left
      rwa [Timer.Waits, act, hpending]
    · right
      rw [Timer.Waits, hpending, Option.map_some, Option.some.injEq, Prod.mk.injEq] at hwaits
      exact ⟨a, List.mem_append_right _ (Option.mem_toList.2 hfired), hwaits⟩
  · exact .inr ⟨a, List.mem_append_left _ ha, hround⟩

/-- The timeout of the latest instance is displaced by an instance of another height that enters a
higher round. It is undecided, or takes a proposal. -/
theorem Disturbs.cause {env : Surroundings S} {e : Node.Event S}
    (h : Disturbs seat c (.event env e)) :
    ∃ other s u, c.node.height ≠ some other ∧ c.node.instanceAt? other = some s ∧
      (c.act seat (.event env e)).node.instanceAt? other = some u ∧
      s.round.toNat < u.round.toNat ∧
      (s.decided = none ∨ ∃ m, e = .receive m ∧ m.height = other ∧ m.type = .propose) := by
  obtain ⟨height, latest, hlatest, -, other, round, hother, hmem⟩ := h
  unfold act
  cases Node.step_beat seat env c.node e with
  | idle hcalls hinstances hheight =>
    rw [Timer.schedule_mem_congr (hcalls.trans Timer.calls_nil.symm)] at hmem
    cases hmem
  | begin net value hcalls hdecided hinstances hnext hheight =>
    have hdecided := hdecided height latest hlatest.latest hlatest.kept
    rw [Instance.isDecided, hlatest.undecided] at hdecided
    cases hdecided
  | @act acting s e' net he hs hcalls hinstances hheight =>
    rw [Timer.schedule_mem_congr hcalls] at hmem
    have hs_height := Node.height_of_instanceAt? hs
    obtain rfl : other = acting :=
      (Instance.step_forHeight seat net s e' _ hmem).trans hs_height
    have hstart : ∀ value, e' ≠ .start value := by
      rintro value rfl
      cases he
    obtain ⟨hlt, hcause⟩ := Instance.step_of_schedule net hstart hmem
    refine ⟨other, s, _, ?_, hs, ?_, hlt, hcause.imp_right ?_⟩
    · rw [hlatest.latest]
      exact fun heq => hother (Option.some.inj heq).symm
    · dsimp only
      rw [Node.instanceAt?_congr hinstances]
      exact Node.instanceAt?_setInstance hs ((Instance.step_height seat net s e').trans hs_height)
    · rintro ⟨m, rfl, htype⟩
      cases he
      exact ⟨m, rfl, rfl, htype⟩

/-! ### Runners -/

/-- Whatever has expired, some actions take the node and the timer of a runner to those of another
one. -/
def Leads (seat : Seat S) (r r' : Runner S) : Prop :=
  ∀ expired, ∃ actions expired',
    (⟨r.node, r.timer, expired⟩ : Clocked S).play seat actions = ⟨r'.node, r'.timer, expired'⟩

namespace Leads

variable {r r' r'' : Runner S}

theorem refl (seat : Seat S) (r : Runner S) : Leads seat r r := fun expired => ⟨[], expired, rfl⟩

theorem trans (h : Leads seat r r') (h' : Leads seat r' r'') : Leads seat r r'' := by
  intro expired
  obtain ⟨past, expired', hpast⟩ := h expired
  obtain ⟨rest, expired'', hrest⟩ := h' expired'
  exact ⟨past ++ rest, expired'', by rw [play_append, hpast, hrest]⟩

/-- A request to the node is an event of it. -/
theorem request {α : Type} {op : Node S → Step S (Node S) Node.Error α} (env : Surroundings S)
    (e : Node.Event S) (hstate : ∀ n, (op n).state = (Node.step seat env n e).state)
    (heffects : ∀ n, (op n).effects = (Node.step seat env n e).effects) :
    Leads seat r (r.request op).state := by
  unfold Runner.request
  split
  · intro expired
    refine ⟨[.event env e], expired, ?_⟩
    rw [Step.state, Runner.absorb, hstate, heffects]
    rfl
  · exact refl seat r

theorem start (env : Surroundings S) (value : Value S) :
    Leads seat r (r.start seat env value).state :=
  request env (.start value) (fun _ => rfl) fun _ => rfl

theorem receive (env : Surroundings S) (m : SignedMessage S) :
    Leads seat r (r.receive seat env m).state :=
  request env (.receive m) (fun _ => rfl) fun _ => rfl

theorem load (env : Surroundings S) : Leads seat r (r.load seat env).state :=
  request env .load (fun _ => rfl) fun _ => rfl

theorem timeout (env : Surroundings S) (height : Height) (round : Round) :
    Leads seat r (r.timeout seat env height round).state := by
  unfold Runner.timeout
  split
  · exact request env (.timeout height round) (fun _ => rfl) fun _ => rfl
  · exact refl seat r

/-- Time passes. -/
theorem wait (time : ℕ) : Leads seat r { r with timer := (r.timer.advanceTo time).1 } :=
  fun _ => ⟨[.wait time], _, rfl⟩

/-- The timer is at the time at which a timeout fires. -/
theorem fire {time : ℕ} {alarm : Alarm} {timer : Timer}
    (h : r.timer.fire? time = some (alarm, timer)) : Leads seat r { r with timer } := by
  obtain ⟨a, hpending, hdue⟩ := Option.bind_eq_some_iff.1 h
  split at hdue
  · simp only [Option.some.injEq, Prod.mk.injEq] at hdue
    obtain ⟨rfl, rfl⟩ := hdue
    have hwait : Leads seat r { r with timer := (r.timer.advanceTo a.deadline).1 } :=
      wait a.deadline
    simpa [Timer.advanceTo, Timer.fire?, hpending] using hwait
  · cases hdue

theorem fireUntil (env : Surroundings S) (time limit : ℕ) :
    Leads seat r (r.fireUntil seat env time limit).1 := by
  induction limit generalizing r with
  | zero => exact refl seat r
  | succ limit ih =>
    unfold Runner.fireUntil
    split
    · exact refl seat r
    · rename_i alarm timer hfire
      exact ((fire hfire).trans (timeout env alarm.height alarm.round)).trans ih

/-- A runner lets time pass by letting it pass up to each timeout that it delivers. -/
theorem advanceTo (env : Surroundings S) (time : ℕ) :
    Leads seat r (r.advanceTo seat env time).1 :=
  (fireUntil env time _).trans (wait time)

end Leads

/-! ### All actions -/

/-- Along any actions, the running instance of the latest height has its timeout pending, or
expired, all the time, exactly if no event disturbs it; and it is disturbed only by an instance of
another height that enters a higher round, which a decided one does on a proposal. -/
theorem ticking_iff_undisturbed (seat : Seat S) (capacity : ℕ) (archive : Archive S)
    (timeouts : Timeouts) (sleep : Sleep) (actions : List (Action S)) :
    ((∀ past, past <+: actions →
        Ticking seat ((new capacity archive timeouts sleep).play seat past)) ↔
      ∀ past x, past ++ [x] <+: actions →
        ¬ Disturbs seat ((new capacity archive timeouts sleep).play seat past) x) ∧
    ∀ past env e,
      Disturbs seat ((new capacity archive timeouts sleep).play seat past) (.event env e) →
      ∃ other s u,
        ((new capacity archive timeouts sleep).play seat past).node.height ≠ some other ∧
        ((new capacity archive timeouts sleep).play seat past).node.instanceAt? other = some s ∧
        ((new capacity archive timeouts sleep).play seat
          (past ++ [.event env e])).node.instanceAt? other = some u ∧
        s.round.toNat < u.round.toNat ∧
        (s.decided = none ∨ ∃ m, e = .receive m ∧ m.height = other ∧ m.type = .propose) := by
  have hkept : ∀ past,
      KeepsReached ((new capacity archive timeouts sleep).play seat past).node := by
    intro past
    obtain ⟨t, ht, hstate⟩ := exists_run seat capacity archive timeouts sleep past
    rw [← hstate]
    exact ht.consistent.kept_lt
  refine ⟨⟨fun h past x hpast => ?_, fun h past => ?_⟩, fun past env e h => ?_⟩
  · have hbefore := h past ((List.prefix_append past [x]).trans hpast)
    have hafter := h _ hpast
    rw [play_concat] at hafter
    cases x with
    | event env e => exact (hbefore.event_iff (hkept past) env e).1 hafter
    | wait time => exact id
  · induction past using List.reverseRecOn with
    | nil => exact fun _ height s hs => absurd hs.latest (Option.some_ne_none _).symm
    | append_singleton past x ih =>
      intro hpast
      have hbefore := ih ((List.prefix_append past [x]).trans hpast)
      rw [play_concat]
      cases x with
      | event env e => exact (hbefore.event_iff (hkept past) env e).2 (h past _ hpast)
      | wait time => exact hbefore.wait time
  · rw [play_concat]
    exact h.cause

/-! ### A proposal for a height that is decided -/

namespace Displaced

open Scheme

/-- A message of a member for the second round of the first height. -/
def message (id : UInt64) (body : Body plain (SignedMessage plain)) : SignedMessage plain :=
  plain.signed id plain.seat.identifier Height.first ⟨2⟩ body

/-- The prepares of a quorum in the first round. -/
def prepares : List (SignedMessage plain) := plain.preparation.tail

/-- The proposal of member 2, which leads the second round, to a quorum that asks for the round. Two
of its members have prepared the value in the first round. -/
def proposal : SignedMessage plain :=
  let prepared (id : UInt64) := message id (.roundChange (some ⟨Round.first, plain.value⟩) prepares)
  message 2
    (.propose plain.value [prepared 2, prepared 3, message 4 (.roundChange none [])] prepares)

/-- Member 1 decides at the first height, and begins the next one. Then the proposal arrives. -/
def schedule : List (Node.Event plain) :=
  .start plain.value :: plain.preparation.map .receive ++
    [.receive plain.certificate, .start plain.value, .receive proposal]

/-- What becomes of the node and its timer. -/
def outcome : Clocked plain :=
  (new 5 Archive.empty .default .exact).play plain.seat (schedule.map (.event (.reliable plain)))

end Displaced

/-- The instance of the second height runs in its first round, whose timeout has not expired, but
the timeout of the second round of the first height is pending, where member 1 has decided. -/
theorem pending_after_proposal :
    (∃ s, Running Scheme.plain.seat Displaced.outcome.node ⟨1⟩ s ∧ s.round = Round.first) ∧
      (∃ s, Displaced.outcome.node.instanceAt? Height.first = some s ∧ s.isDecided = true) ∧
      Displaced.outcome.timer.Waits Height.first ⟨2⟩ ∧ Displaced.outcome.expired = [] ∧
      ¬ Ticking Scheme.plain.seat Displaced.outcome := by
  have houtcome : (Displaced.outcome.node.instanceAt? ⟨1⟩).isSome = true ∧
      (Displaced.outcome.node.instanceAt? Height.first).isSome = true ∧
      (∀ s ∈ Displaced.outcome.node.instanceAt? ⟨1⟩,
        s.decided = none ∧ s.stopped Scheme.plain.seat = false ∧ s.round = Round.first) ∧
      (∀ s ∈ Displaced.outcome.node.instanceAt? Height.first, s.isDecided = true) ∧
      Displaced.outcome.timer.pending.map (fun a => (a.height, a.round)) =
        some (Height.first, ⟨2⟩) ∧
      Displaced.outcome.expired = [] ∧ Displaced.outcome.node.height = some ⟨1⟩ := by
    decide +kernel
  obtain ⟨hs, hfirst, hstate, hdecided, hpending, hexpired, hheight⟩ := houtcome
  obtain ⟨s, hs⟩ := Option.isSome_iff_exists.1 hs
  obtain ⟨first, hfirst⟩ := Option.isSome_iff_exists.1 hfirst
  obtain ⟨hopen, hruns, hround⟩ := hstate s hs
  have hrunning : Running Scheme.plain.seat Displaced.outcome.node ⟨1⟩ s :=
    ⟨hheight, hs, hopen, hruns⟩
  refine ⟨⟨s, hrunning, hround⟩, ⟨first, hfirst, hdecided first hfirst⟩, hpending, hexpired, ?_⟩
  intro hticking
  rcases hticking _ s hrunning with hwaits | ⟨a, ha, -⟩
  · rw [Timer.Waits, hpending, hround] at hwaits
    exact absurd hwaits (by decide)
  · rw [hexpired] at ha
    cases ha

end Clocked
end Conclave
