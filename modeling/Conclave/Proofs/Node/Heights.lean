import Conclave.Proofs.Node.Calls
import Conclave.Proofs.Node.Clock
import Conclave.Proofs.Node.Decided
import Conclave.Proofs.PlainScheme

/-!
# The heights of a node

A node starts instances at growing heights, never one height twice, and keeps the last of them. Its
height is that of the latest start, or of a later decision that it has been told of or has loaded. A
start is one height further, and what comes before it is known to be decided
(`heights_in_order`).

* `begun?` and `learned?` are the heights that a call starts and tells of;
* `Continues` are nodes that keep instances of the same heights, `Ordered` the nodes of all runs.
-/

namespace Conclave

variable {S : Scheme}

/-! ### Instances that have started -/

namespace Instance

variable {seat : Seat S} {net : Network S} {s u : Instance S} {e : Event S}

/-- A started instance stays so. -/
theorem Move.started {effects : List (Effect S)} {decision : Option (Decision S)}
    (h : Move seat s e effects decision u) (hs : s.started = true) : u.started = true := by
  cases h with
  | start hnew => rfl
  | lead hnew hround hleader => rfl
  | propose htype hopen hround hfirst hleader hquorum hproposal =>
    exact (enter_started s _).trans hs
  | accept hreach htype hvalid hvalue => exact hs
  | storePrepare hreach htype hvalid hnew => exact hs
  | prepare hreach htype hvalid hnew hvalue hfirst hquorum => exact hs
  | storeCommit hreach htype hvalid hnew => exact hs
  | decide hreach htype hvalid hnew hopen hvalue hquorum hcommit => exact hs
  | storeRoundChange hreach htype hvalid hnew => exact hs
  | follow htype hopen habove hquorum hlowest hlt => exact hs
  | expire hrunning hopen hnext => exact hs
  | learn hopen hvalue hroot => exact hs

theorem started_step (net : Network S) (e : Event S) (hs : s.started = true) :
    (step seat net s e).state.started = true := by
  have hpath : ∀ {effects decisions u}, Path seat e s effects decisions u → u.started = true := by
    intro effects decisions u h
    induction h with
    | stay => exact hs
    | move _ hmove ih => exact hmove.started ih
  exact hpath (step_path seat net s e)

/-- A new instance that is started holds the value to propose, whether or not it is sent. -/
theorem state_begin (seat : Seat S) (net : Network S) (height : Height) (value : Value S) :
    ((Instance.new height).start seat net value).state =
      { Instance.new height with startValue := some value } := by
  have hnew : ¬ (Instance.new height : Instance S).started = true := by simp [started, new]
  rw [start, if_neg hnew]
  dsimp only [Step.after]
  split
  · split <;> rfl
  · rfl

/-- A new instance that is started has started. -/
theorem started_begin (seat : Seat S) (net : Network S) (height : Height) (value : Value S) :
    (step seat net (.new height) (.start value)).state.started = true :=
  congrArg Instance.started (state_begin seat net height value)

end Instance

/-! ### Entries that are replaced -/

namespace Recent

variable {α : Type} {p : α → Bool} {f : α → α} {a : α} {l : List α}

/-- One entry is replaced, the others stay. -/
theorem forall₂_updateFirst {r : α → α → Prop} (hrefl : ∀ a, r a a) (h : l.find? p = some a)
    (ha : r a (f a)) : List.Forall₂ r l (updateFirst p f l) := by
  induction l with
  | nil => exact .nil
  | cons b l ih =>
    unfold updateFirst
    by_cases hb : p b = true
    · rw [List.find?_cons_of_pos hb, Option.some.injEq] at h
      subst h
      rw [if_pos hb]
      exact .cons ha (List.forall₂_same.2 fun x _ => hrefl x)
    · rw [List.find?_cons_of_neg hb] at h
      rw [if_neg hb]
      exact .cons (hrefl b) (ih h)

end Recent

namespace Node

/-! ### What a call begins and tells of -/

/-- The height of the instance that a start has begun. It has begun also if its proposal was not
sent. -/
def begunBy? (o : Step S (Node S) Error Height) : Option Height :=
  match o.answer with
  | .ok height => some height
  | .error (.rejected _) => o.state.height
  | .error _ => none

/-- The height of the decision that a message tells of, if it is accepted. -/
def learnedBy? (seat : Seat S) (m : SignedMessage S)
    (o : Step S (Node S) Error (Option (Decided S))) : Option Height :=
  match o.answer with
  | .ok _ => if messageKind seat.committee m = .decided then some m.height else none
  | .error _ => none

/-- The height of the decision that was loaded. -/
def loadedBy? (o : Step S (Node S) Error (Option (SignedMessage S))) : Option Height :=
  match o.answer with
  | .ok stored => stored.map fun m => m.height
  | .error _ => none

section Calls

variable (seat : Seat S) (n : Node S) (c : Call S)

/-- The height of the instance that a call begins. -/
def begun? : Option Height :=
  match c.event with
  | .start value => begunBy? (n.start seat c.env value)
  | _ => none

/-- The height of the decision that a call tells of: by a decided message that is accepted, or by
what was stored. -/
def learned? : Option Height :=
  match c.event with
  | .receive m => learnedBy? seat m (n.receive seat c.env m)
  | .load => loadedBy? (n.load seat c.env)
  | _ => none

end Calls

/-- The heights of the instances that were ever started, in the order of their starts. -/
def started (seat : Seat S) (n : Node S) (calls : List (Call S)) : List Height :=
  along (fun n c => (begun? seat n c).toList) seat n calls

/-- The heights of the decisions that the node was told of. -/
def learned (seat : Seat S) (n : Node S) (calls : List (Call S)) : List Height :=
  along (fun n c => (learned? seat n c).toList) seat n calls

/-! ### One call -/

/-- A node that keeps instances of the same heights, each of which may have acted. -/
structure Continues (n u : Node S) : Prop where
  capacity_eq : u.instances.capacity = n.instances.capacity
  entries : List.Forall₂ (fun s t : Instance S => t.height = s.height ∧
    (s.started = true → t.started = true)) n.instances.entries u.instances.entries

/-- What a call does to the heights of a node, with the height that it begins and the one that it
tells of. -/
inductive Advance (n : Node S) : Option Height → Option Height → Node S → Prop
  /-- The instance of the next height begins, after the latest one has decided. -/
  | begin {u : Node S} {height : Height} {s : Instance S}
      (hnext : n.height.elim (.ok Height.first) Height.next? = .ok height)
      (hlatest : ∀ current t, n.height = some current → n.instanceAt? current = some t →
        t.isDecided = true)
      (hinstances : u.instances = n.instances.push s) (hs : s.height = height)
      (hstarted : s.started = true) (hheight : u.height = some height) :
      Advance n (some height) none u
  /-- The node advances to the height of a decision that it is told of. -/
  | learn {u : Node S} {height : Height} (hcontinues : Continues n u)
      (hheight : u.height = some height) (habove : n.reached ≤ height.toNat) :
      Advance n none (some height) u
  /-- The node stays at its height. -/
  | stay {u : Node S} {learned : Option Height} (hcontinues : Continues n u)
      (hheight : u.height = n.height) : Advance n none learned u

section Operations

variable {seat : Seat S} {env : Surroundings S} {n u v : Node S} {height : Height} {s : Instance S}

namespace Continues

theorem of_instances_eq (h : u.instances = n.instances) : Continues n u where
  capacity_eq := congrArg Recent.capacity h
  entries := by
    rw [h]
    exact List.forall₂_same.2 fun s _ => ⟨rfl, id⟩

theorem congr (h : Continues n u) (hinstances : v.instances = u.instances) : Continues n v where
  capacity_eq := (congrArg Recent.capacity hinstances).trans h.capacity_eq
  entries := by
    rw [hinstances]
    exact h.entries

theorem congr_left (h : Continues v u) (hinstances : v.instances = n.instances) :
    Continues n u where
  capacity_eq := h.capacity_eq.trans (congrArg Recent.capacity hinstances)
  entries := by
    rw [← hinstances]
    exact h.entries

/-- The instance of a height acts. -/
theorem setInstance (seat : Seat S) (net : Network S) (e : Instance.Event S)
    (hs : n.instanceAt? height = some s) :
    Continues n (n.setInstance height (Instance.step seat net s e).state) where
  capacity_eq := rfl
  entries := Recent.forall₂_updateFirst (fun _ => ⟨rfl, id⟩) hs
    ⟨Instance.step_height seat net s e, Instance.started_step net e⟩

theorem heights_eq (h : Continues n u) :
    u.instances.entries.map Instance.height = n.instances.entries.map Instance.height := by
  have hentries := h.entries
  generalize n.instances.entries = l at hentries ⊢
  generalize u.instances.entries = l' at hentries ⊢
  induction hentries with
  | nil => rfl
  | cons hst _ ih => rw [List.map_cons, List.map_cons, hst.1, ih]

theorem started (h : Continues n u) (hstarted : ∀ s ∈ n.instances.entries, s.started = true) :
    ∀ t ∈ u.instances.entries, t.started = true := by
  have hentries := h.entries
  generalize n.instances.entries = l at hentries hstarted
  generalize u.instances.entries = l' at hentries ⊢
  induction hentries with
  | nil => exact nofun
  | cons hst _ ih =>
    obtain ⟨hs, hrest⟩ := List.forall_mem_cons.1 hstarted
    exact List.forall_mem_cons.2 ⟨hst.2 hs, ih hrest⟩

end Continues

theorem start_advance (value : Value S) :
    Advance n (begunBy? (n.start seat env value)) none (n.start seat env value).state := by
  unfold start
  split
  · exact .stay (.of_instances_eq rfl) rfl
  rename_i hnone
  split
  · exact .stay (.of_instances_eq rfl) rfl
  split
  · exact .stay (.of_instances_eq rfl) rfl
  rename_i height hnext
  have hbegin : Advance n (some height) none
      { n with
        height := some height
        instances := n.instances.push ((Instance.new height).start seat env.network value).state
        metrics := (n.metrics.instanceStarted height).setHeight height } := by
    refine .begin hnext (fun current t hcurrent ht => ?_) rfl
      (Instance.step_height seat env.network (.new height) (.start value))
      (Instance.started_begin seat env.network height value) rfl
    rw [hcurrent, Option.bind_some, ht] at hnone
    simpa using hnone
  unfold begunBy?
  dsimp only
  cases ((Instance.new height).start seat env.network value).answer with
  | error e => exact hbegin
  | ok _ => exact hbegin

theorem receivePlain_continues (seat : Seat S) (env : Surroundings S) (n : Node S)
    (m : SignedMessage S) : Continues n (n.receivePlain seat env m).state ∧
      (n.receivePlain seat env m).state.height = n.height := by
  unfold receivePlain
  split
  · exact ⟨.of_instances_eq rfl, rfl⟩
  split
  · exact ⟨.of_instances_eq rfl, rfl⟩
  rename_i s hs
  dsimp only
  split
  · exact ⟨.setInstance seat env.network (.receive m) hs, rfl⟩
  · exact ⟨.setInstance seat env.network (.receive m) hs, rfl⟩
  · rename_i decision hanswer
    have halike := Alike.conclude seat env
      (n.setInstance m.height (s.receive seat env.network m).state) m.height decision
    have hset : Continues n (n.setInstance m.height (s.receive seat env.network m).state) :=
      .setInstance seat env.network (.receive m) hs
    exact ⟨hset.congr halike.instances_eq, halike.height_eq⟩

theorem applied_continues (seat : Seat S) (n : Node S) (m : SignedMessage S)
    (errors : List SideEffectError) : Continues n (n.applied m errors).state := by
  have hinstances := instances_advanceTo n m.height
  unfold applied
  dsimp only
  split
  · exact .of_instances_eq hinstances
  rename_i s hs
  rw [instanceAt?_congr hinstances] at hs
  have hact : Continues n (n.setInstance m.height (s.learn m).state) :=
    .setInstance seat (.reliable S) (.learn m) hs
  have hset : Continues n ((n.advanceTo m.height).setInstance m.height (s.learn m).state) :=
    hact.congr (congrArg (Recent.update · _ _) hinstances)
  split
  · exact hset
  · exact hset
  · exact hset.congr rfl

/-- A decided message is refused, or it is accepted and the node advances to its height. -/
theorem receiveDecided_cases (seat : Seat S) (env : Surroundings S) (n : Node S)
    (m : SignedMessage S) :
    (∃ e, n.receiveDecided seat env m = .refuse n e) ∨
      Continues n (n.receiveDecided seat env m).state ∧
        (n.receiveDecided seat env m).state.height = (n.advanceTo m.height).height ∧
        ∃ decided, (n.receiveDecided seat env m).answer = .ok decided := by
  cases hvalid : validateDecided seat m with
  | error e => exact .inl ⟨e, receiveDecided_of_invalid hvalid⟩
  | ok _ =>
    cases hread : env.disk.read with
    | error e => exact .inl ⟨_, receiveDecided_of_unread hvalid hread⟩
    | ok _ =>
      rw [receiveDecided_of_read hvalid hread]
      have halike := (Alike.saveIfHighest seat env.disk n m.height m).trans (Alike.noteSave _)
      obtain ⟨decided, hanswer, -⟩ := answer_applied
        (noteSave (n.saveIfHighest seat env.disk m.height m)).1 m
        (noteSave (n.saveIfHighest seat env.disk m.height m)).2
      refine .inr ⟨?_, ?_, decided, hanswer⟩
      · exact (applied_continues seat _ m _).congr_left halike.instances_eq
      · exact (height_applied _ m _).trans (halike.advanceTo m.height).height_eq

theorem receive_advance (m : SignedMessage S) :
    Advance n none (learnedBy? seat m (n.receive seat env m)) (n.receive seat env m).state := by
  by_cases hkind : messageKind seat.committee m = .decided
  · rw [receive_of_decided hkind]
    rcases receiveDecided_cases seat env n m with
      ⟨e, hrefuse⟩ | ⟨hcontinues, hheight, decided, hanswer⟩
    · rw [hrefuse]
      exact .stay (.of_instances_eq rfl) rfl
    · have hlearned : learnedBy? seat m
          (countMessage .decided (n.receiveDecided seat env m)) = some m.height := by
        rw [learnedBy?, countMessage, hanswer]
        exact if_pos hkind
      rw [hlearned]
      have hcounted := hcontinues.congr (Alike.countMessage .decided _).instances_eq
      rcases height_advanceTo n m.height with hsame | ⟨habove, hreached⟩
      · exact .stay hcounted (hheight.trans hsame)
      · exact .learn hcounted (hheight.trans habove) hreached
  · obtain ⟨hcontinues, hheight⟩ := receivePlain_continues seat env n m
    rw [receive_of_plain hkind]
    exact .stay (hcontinues.congr rfl) hheight

theorem load_advance :
    Advance n none (loadedBy? (n.load seat env)) (n.load seat env).state := by
  unfold load
  split
  · exact .stay (.of_instances_eq rfl) rfl
  · exact .stay (.of_instances_eq rfl) rfl
  · rename_i m hstored
    have hcontinues : Continues n (n.advanceTo m.height) :=
      .of_instances_eq (instances_advanceTo n m.height)
    rcases height_advanceTo n m.height with hsame | ⟨habove, hreached⟩
    · exact .stay hcontinues hsame
    · exact .learn hcontinues habove hreached

theorem timeout_advance (height : Height) (round : Round) :
    Advance n none none (n.timeout seat env height round).state := by
  unfold timeout
  split
  · exact .stay (.of_instances_eq rfl) rfl
  · rename_i s hs
    exact .stay (.setInstance seat env.network (.timeout round) hs) rfl

/-- Every call begins the next height, or tells of one, or leaves the height as it is. -/
theorem step_advance (seat : Seat S) (n : Node S) (c : Call S) :
    Advance n (begun? seat n c) (learned? seat n c) (c.step seat n).state := by
  obtain ⟨env, e⟩ := c
  cases e with
  | start value => exact start_advance value
  | receive m => exact receive_advance m
  | timeout height round => exact timeout_advance height round
  | load => exact load_advance

theorem reached_eq (h : n.height = some height) : n.reached = height.toNat + 1 := by
  rw [reached, h]
  rfl

/-- The height that is begun is the first that the node has not reached. -/
theorem toNat_of_next (h : n.height.elim (.ok Height.first) Height.next? = .ok height) :
    height.toNat = n.reached := by
  unfold reached
  cases hheight : n.height with
  | none =>
    rw [hheight] at h
    cases h
    rfl
  | some current =>
    rw [hheight] at h
    exact Height.next?_eq_ok h

/-- The height does not decrease. -/
theorem Advance.height_le {begun learned : Option Height} (h : Advance n begun learned u)
    (hheight : n.height = some height) : ∃ height', u.height = some height' ∧ height ≤ height' := by
  have hreached := reached_eq hheight
  cases h with
  | begin hnext hlatest hinstances hs hstarted hbegun =>
    have := toNat_of_next hnext
    exact ⟨_, hbegun, Height.le_iff.2 (by omega)⟩
  | learn hcontinues hlearned habove => exact ⟨_, hlearned, Height.le_iff.2 (by omega)⟩
  | stay hcontinues hsame => exact ⟨height, hsame.trans hheight, Height.le_iff.2 le_rfl⟩

end Operations

/-! ### Runs -/

/-- The heights that were started, and the decisions that the node was told of, account for what it
keeps and for its height. -/
structure Ordered (capacity : ℕ) (n : Node S) (started learned : List Height) : Prop where
  capacity_eq : n.instances.capacity = max capacity 1
  heights_eq : n.instances.entries.map Instance.height = started.reverse.take (max capacity 1)
  running : ∀ s ∈ n.instances.entries, s.started = true
  ascending : started.Pairwise (· < ·)
  started_lt : ∀ height ∈ started, height.toNat < n.reached
  known : ∀ height, n.height = some height → height ∈ started ∨ height ∈ learned

namespace Ordered

variable {capacity : ℕ} {n u : Node S} {started learned : List Height}

theorem new (capacity : ℕ) (archive : Archive S) :
    Ordered capacity (Node.new capacity archive) [] [] where
  capacity_eq := rfl
  heights_eq := by rw [List.reverse_nil, List.take_nil]; rfl
  running := nofun
  ascending := .nil
  started_lt := nofun
  known := nofun

theorem begin (h : Ordered capacity n started learned) {height : Height} {s : Instance S}
    (hnext : height.toNat = n.reached) (hinstances : u.instances = n.instances.push s)
    (hs : s.height = height) (hstarted : s.started = true) (hheight : u.height = some height) :
    Ordered capacity u (started ++ [height]) learned := by
  have hreached := reached_eq hheight
  have hentries : u.instances.entries = (s :: n.instances.entries).take (max capacity 1) := by
    rw [hinstances, ← h.capacity_eq]
    rfl
  constructor
  · rw [hinstances]
    exact h.capacity_eq
  · rw [hentries, List.map_take, List.map_cons, h.heights_eq, hs, List.reverse_append,
      List.reverse_singleton, List.singleton_append]
    obtain ⟨k, hk⟩ := Nat.exists_eq_add_of_le' (Nat.le_max_right capacity 1)
    rw [hk, List.take_succ_cons, List.take_succ_cons, List.take_take, Nat.min_eq_left (by omega)]
  · intro t ht
    rw [hentries] at ht
    rcases List.mem_cons.1 (List.mem_of_mem_take ht) with rfl | hold
    · exact hstarted
    · exact h.running t hold
  · refine List.pairwise_append.2 ⟨h.ascending, List.pairwise_singleton _ _, fun x hx y hy => ?_⟩
    rw [List.mem_singleton.1 hy, Height.lt_iff, hnext]
    exact h.started_lt x hx
  · intro x hx
    rw [hreached]
    rcases List.mem_append.1 hx with hx | hx
    · have := h.started_lt x hx
      omega
    · rw [List.mem_singleton.1 hx]
      exact Nat.lt_succ_self _
  · intro x hx
    rw [hheight, Option.some.injEq] at hx
    exact .inl (List.mem_append_right _ (List.mem_singleton.2 hx.symm))

/-- The instances go on, and the height is an earlier or a learned one. -/
theorem continues (h : Ordered capacity n started learned) (hcontinues : Continues n u)
    {told : List Height} (hreached : n.reached ≤ u.reached)
    (hknown : ∀ height, u.height = some height → n.height = some height ∨ height ∈ told) :
    Ordered capacity u started (learned ++ told) where
  capacity_eq := hcontinues.capacity_eq.trans h.capacity_eq
  heights_eq := hcontinues.heights_eq.trans h.heights_eq
  running := hcontinues.started h.running
  ascending := h.ascending
  started_lt height hheight := (h.started_lt height hheight).trans_le hreached
  known height hheight := by
    rcases hknown height hheight with hold | htold
    · exact (h.known height hold).imp_right (List.mem_append_left told)
    · exact .inr (List.mem_append_right learned htold)

/-- Every call keeps the account. -/
theorem advance (h : Ordered capacity n started learned) {begun told : Option Height}
    (hadvance : Advance n begun told u) :
    Ordered capacity u (started ++ begun.toList) (learned ++ told.toList) := by
  cases hadvance with
  | begin hnext hlatest hinstances hs hstarted hheight =>
    rw [Option.toList_some, Option.toList_none, List.append_nil]
    exact h.begin (toNat_of_next hnext) hinstances hs hstarted hheight
  | learn hcontinues hheight habove =>
    rw [Option.toList_none, List.append_nil]
    refine h.continues hcontinues ?_ fun height hsome => ?_
    · rw [reached_eq hheight]
      omega
    · rw [hheight] at hsome
      exact .inr (Option.mem_toList.2 hsome)
  | stay hcontinues hheight =>
    rw [Option.toList_none, List.append_nil]
    exact h.continues hcontinues (reached_congr hheight).ge
      fun height hsome => .inl (hheight ▸ hsome)

theorem descending (h : Ordered capacity n started learned) :
    started.reverse.Pairwise (· > ·) := List.pairwise_reverse.2 h.ascending

/-- The instance of the node's height is kept if it was started, being the last one that was. -/
theorem exists_instanceAt? (h : Ordered capacity n started learned) {height : Height}
    (hheight : n.height = some height) (hstarted : height ∈ started) :
    ∃ s, n.instanceAt? height = some s := by
  obtain ⟨k, hk⟩ := Nat.exists_eq_add_of_le' (Nat.le_max_right capacity 1)
  have hkept : height ∈ n.instances.entries.map Instance.height := by
    rw [h.heights_eq, hk]
    have hdescending := h.descending
    cases hlatest : started.reverse with
    | nil =>
      rw [List.reverse_eq_nil_iff.1 hlatest] at hstarted
      cases hstarted
    | cons latest earlier =>
      rw [hlatest, List.pairwise_cons] at hdescending
      rw [← List.mem_reverse, hlatest] at hstarted
      rw [List.take_succ_cons]
      rcases List.mem_cons.1 hstarted with rfl | hearlier
      · exact List.mem_cons_self
      -- no later height than the node's was started
      · have hlt := Height.lt_iff.1 (hdescending.1 height hearlier)
        have hle := h.started_lt latest
          (List.mem_reverse.1 (hlatest ▸ List.mem_cons_self))
        rw [reached_eq hheight] at hle
        omega
  obtain ⟨s, hs, hsheight⟩ := List.mem_map.1 hkept
  exact Option.isSome_iff_exists.1 (List.find?_isSome.2 ⟨s, hs, decide_eq_true hsheight⟩)

theorem height_le (h : Ordered capacity n started learned) {s : Instance S}
    (hs : s ∈ n.instances.entries) : ∃ height, n.height = some height ∧ s.height ≤ height := by
  have hmem : s.height ∈ started.reverse.take (max capacity 1) :=
    h.heights_eq ▸ List.mem_map_of_mem hs
  have hlt := h.started_lt s.height (List.mem_reverse.1 (List.mem_of_mem_take hmem))
  cases hheight : n.height with
  | none =>
    rw [reached, hheight] at hlt
    exact absurd hlt (Nat.not_lt_zero _)
  | some height =>
    rw [reached_eq hheight] at hlt
    exact ⟨height, rfl, Height.le_iff.2 (by omega)⟩

/-- What comes before a height that begins is known to be decided. -/
theorem previous (h : Ordered capacity n started learned) {begun told : Option Height}
    (hadvance : Advance n begun told u) {height : Height} (hbegun : begun = some height) :
    height = Height.first ∨ ∃ previous, previous.next? = .ok height ∧
      ((∃ s, n.instanceAt? previous = some s ∧ s.isDecided = true) ∨
        previous ∉ started ∧ previous ∈ learned) := by
  cases hadvance with
  | learn => cases hbegun
  | stay => cases hbegun
  | begin hnext hlatest =>
    obtain rfl := Option.some.inj hbegun
    cases hheight : n.height with
    | none =>
      rw [hheight] at hnext
      exact .inl (Except.ok.inj hnext).symm
    | some current =>
      rw [hheight] at hnext
      refine .inr ⟨current, hnext, ?_⟩
      by_cases hstarted : current ∈ started
      · obtain ⟨s, hs⟩ := h.exists_instanceAt? hheight hstarted
        exact .inl ⟨s, hs, hlatest current s hheight hs⟩
      · exact .inr ⟨hstarted, (h.known current hheight).resolve_left hstarted⟩

end Ordered

/-- A run of a node keeps the account. -/
theorem ordered_play (seat : Seat S) (capacity : ℕ) (archive : Archive S) (calls : List (Call S)) :
    Ordered capacity (play seat (Node.new capacity archive) calls)
      (started seat (Node.new capacity archive) calls)
      (learned seat (Node.new capacity archive) calls) := by
  induction calls using List.reverseRecOn with
  | nil => exact .new capacity archive
  | append_singleton past c ih =>
    rw [play_concat, started, learned, along_concat, along_concat]
    exact ih.advance (step_advance seat _ c)

/-- On any calls, the node keeps the last instances that it started, the newest first, as many as it
has room for; they are of decreasing heights, none above the node's, and they have started. The
height of the node never decreases. A height is started above all that were started before, and only
if it is the first one or the height before is known to be decided: its instance is kept and has
decided, or it was never started and the node was told of the decision. -/
theorem heights_in_order (seat : Seat S) (capacity : ℕ) (archive : Archive S)
    (calls : List (Call S)) :
    let n := play seat (new capacity archive) calls
    let started := started seat (new capacity archive) calls
    let learned := learned seat (new capacity archive) calls
    n.instances.entries.map Instance.height = started.reverse.take (max capacity 1) ∧
      (n.instances.entries.map Instance.height).Pairwise (· > ·) ∧
      (∀ s ∈ n.instances.entries,
        s.started = true ∧ ∃ height, n.height = some height ∧ s.height ≤ height) ∧
      started.Pairwise (· < ·) ∧
      ∀ c, (∀ height, n.height = some height →
          ∃ height', (c.step seat n).state.height = some height' ∧ height ≤ height') ∧
        ∀ height, begun? seat n c = some height →
          height = Height.first ∨ ∃ previous, previous.next? = .ok height ∧
            ((∃ s, n.instanceAt? previous = some s ∧ s.isDecided = true) ∨
              previous ∉ started ∧ previous ∈ learned) := by
  intro n started learned
  have h : Ordered capacity n started learned := ordered_play seat capacity archive calls
  refine ⟨h.heights_eq, ?_, fun s hs => ⟨h.running s hs, h.height_le hs⟩, h.ascending, fun c => ?_⟩
  · rw [h.heights_eq]
    exact h.descending.sublist (List.take_sublist _ _)
  · have hadvance := step_advance seat n c
    exact ⟨fun height hheight => hadvance.height_le hheight, fun height hbegun =>
      h.previous hadvance hbegun⟩

/-- A node that is told of the first decision before it starts begins with the second height. -/
example :
    let calls := [Event.receive Scheme.plain.certificate, .start Scheme.plain.value].map
      (Call.mk (.reliable Scheme.plain))
    let n := Node.new 5 (Archive.empty : Archive Scheme.plain)
    started Scheme.plain.seat n calls = [⟨1⟩] ∧
      learned Scheme.plain.seat n calls = [Height.first] := by
  decide +kernel

end Node
end Conclave
