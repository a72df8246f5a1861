import Conclave.Proofs.Instance.Invariant

/-!
# What an event changes of a node

On an event a node leaves its instances alone, begins the instance of a height above all earlier
ones, or passes something on to the instance of a height, which may decide. `Change` lists these,
with what the node publishes, that is, announces or stores; `step_change` says that there is nothing
else.

* `Alike` are nodes that differ in what they have stored and in what they count besides decisions;
* `Trace` is what a run of a node has led to, `Run` are the traces of all runs.

Whether the disk and the network work makes no difference to any of this.
-/

namespace Conclave

/-! ### Recent entries -/

namespace Recent

variable {α : Type} {p q : α → Bool} {f : α → α} {a : α} {l : List α}

theorem find?_updateFirst (h : l.find? p = some a) (hp : p (f a) = true) :
    (updateFirst p f l).find? p = some (f a) := by
  induction l with
  | nil => cases h
  | cons b l ih =>
    unfold updateFirst
    by_cases hb : p b = true
    · rw [List.find?_cons_of_pos hb, Option.some.injEq] at h
      rw [if_pos hb, h, List.find?_cons_of_pos hp]
    · rw [List.find?_cons_of_neg hb] at h
      rw [if_neg hb, List.find?_cons_of_neg hb, ih h]

/-- Other entries stay as they are. -/
theorem find?_updateFirst_of_disjoint
    (hq : ∀ a, p a = true → ¬ q a = true ∧ ¬ q (f a) = true) :
    (updateFirst p f l).find? q = l.find? q := by
  induction l with
  | nil => rfl
  | cons b l ih =>
    unfold updateFirst
    by_cases hb : p b = true
    · rw [if_pos hb, List.find?_cons_of_neg (hq b hb).1, List.find?_cons_of_neg (hq b hb).2]
    · rw [if_neg hb, List.find?_cons, List.find?_cons, ih]

/-- The entry that is changed is the one that is found. -/
theorem updateFirst_const (h : l.find? p = some a) :
    updateFirst p (fun _ => f a) l = updateFirst p f l := by
  induction l with
  | nil => cases h
  | cons b l ih =>
    unfold updateFirst
    by_cases hb : p b = true
    · rw [List.find?_cons_of_pos hb, Option.some.injEq] at h
      rw [if_pos hb, if_pos hb, h]
    · rw [List.find?_cons_of_neg hb] at h
      rw [if_neg hb, if_neg hb, ih h]

/-- Where nothing is found, nothing is changed. -/
theorem updateFirst_of_find?_eq_none (h : l.find? p = none) : updateFirst p f l = l := by
  induction l with
  | nil => rfl
  | cons b l ih =>
    rw [List.find?_eq_none] at h
    obtain ⟨hb, hrest⟩ := List.forall_mem_cons.1 h
    rw [updateFirst, if_neg hb, ih (List.find?_eq_none.2 hrest)]

theorem updateFirst_id (p : α → Bool) (l : List α) : updateFirst p id l = l := by
  induction l with
  | nil => rfl
  | cons b l ih =>
    unfold updateFirst
    split
    · rfl
    · rw [ih]

theorem update_const {r : Recent α} (h : r.find? p = some a) :
    r.update p (fun _ => f a) = r.update p f := by
  simp only [update, updateFirst_const h]

theorem update_of_find?_eq_none {r : Recent α} (h : r.find? p = none) : r.update p f = r := by
  simp only [update, updateFirst_of_find?_eq_none h]

/-- A new entry is found. -/
theorem find?_push_self {r : Recent α} (h : p a = true) : (r.push a).find? p = some a := by
  obtain ⟨k, hk⟩ := Nat.exists_eq_add_one_of_ne_zero r.capacity_pos.ne'
  rw [find?, push]
  dsimp only
  rw [hk, List.take_succ_cons, List.find?_cons_of_pos h]

/-- What is found after a push is the new entry, or was found before. -/
theorem find?_push {r : Recent α} {b : α} (h : (r.push a).find? p = some b) :
    b = a ∨ r.find? p = some b := by
  have hsub : ((a :: r.entries).take r.capacity) <+: a :: r.entries := List.take_prefix _ _
  have hfind : (a :: r.entries).find? p = some b := hsub.find?_eq_some h
  by_cases ha : p a = true
  · rw [List.find?_cons_of_pos ha, Option.some.injEq] at hfind
    exact .inl hfind.symm
  · rw [List.find?_cons_of_neg ha] at hfind
    exact .inr hfind

end Recent

namespace Node

variable {S : Scheme}

/-! ### Instances -/

/-- The number of heights that the node has behind it: those below it are not started any more. -/
def reached (n : Node S) : ℕ := n.height.elim 0 fun height => height.toNat + 1

section Instances

variable {n u : Node S} {height height' : Height} {s : Instance S}

theorem instanceAt?_congr (h : u.instances = n.instances) :
    u.instanceAt? height = n.instanceAt? height := by
  rw [instanceAt?, h, instanceAt?]

theorem height_of_instanceAt? (h : n.instanceAt? height = some s) : s.height = height := by
  have hfound := List.find?_some h
  exact of_decide_eq_true hfound

theorem instanceAt?_setInstance {t : Instance S} (h : n.instanceAt? height = some t)
    (hs : s.height = height) : (n.setInstance height s).instanceAt? height = some s :=
  Recent.find?_updateFirst h (decide_eq_true hs)

theorem instanceAt?_setInstance_of_ne (hs : s.height = height) (hne : height' ≠ height) :
    (n.setInstance height s).instanceAt? height' = n.instanceAt? height' := by
  refine Recent.find?_updateFirst_of_disjoint fun t ht => ?_
  have ht := of_decide_eq_true ht
  rw [decide_eq_true_eq, decide_eq_true_eq, ht, hs]
  exact ⟨hne.symm, hne.symm⟩

/-- The node in which the instance of a height has changed, if it is kept. -/
def modifyInstance (n : Node S) (height : Height) (f : Instance S → Instance S) : Node S :=
  { n with instances := n.instances.update (fun s => s.height = height) f }

theorem setInstance_eq_modifyInstance (h : n.instanceAt? height = some s)
    (f : Instance S → Instance S) :
    n.setInstance height (f s) = n.modifyInstance height f :=
  congrArg (fun instances => { n with instances }) (Recent.update_const h)

theorem modifyInstance_of_none (h : n.instanceAt? height = none) (f : Instance S → Instance S) :
    n.modifyInstance height f = n :=
  congrArg (fun instances => { n with instances }) (Recent.update_of_find?_eq_none h)

theorem modifyInstance_id (n : Node S) (height : Height) : n.modifyInstance height id = n := by
  unfold modifyInstance Recent.update
  simp only [Recent.updateFirst_id]

/-- A node that puts an instance back as it was is as before. -/
theorem setInstance_self (h : n.instanceAt? height = some s) : n.setInstance height s = n := by
  rw [show s = id s from rfl, setInstance_eq_modifyInstance h, modifyInstance_id]

theorem instanceAt?_modifyInstance {f : Instance S → Instance S}
    (hf : ∀ s, (f s).height = s.height) :
    (n.modifyInstance height f).instanceAt? height = (n.instanceAt? height).map f := by
  cases hs : n.instanceAt? height with
  | none => rw [modifyInstance_of_none hs, hs, Option.map_none]
  | some s =>
    rw [← setInstance_eq_modifyInstance hs, Option.map_some]
    exact instanceAt?_setInstance hs ((hf s).trans (height_of_instanceAt? hs))

theorem instanceAt?_modifyInstance_of_ne {f : Instance S → Instance S}
    (hf : ∀ s, (f s).height = s.height) (hne : height' ≠ height) :
    (n.modifyInstance height f).instanceAt? height' = n.instanceAt? height' := by
  cases hs : n.instanceAt? height with
  | none => rw [modifyInstance_of_none hs]
  | some s =>
    rw [← setInstance_eq_modifyInstance hs]
    exact instanceAt?_setInstance_of_ne ((hf s).trans (height_of_instanceAt? hs)) hne

/-- What is kept after the instance of a height was replaced. -/
theorem kept_of_setInstance {t : Instance S} (ht : n.instanceAt? height = some t)
    (hs : s.height = height) (h : u.instances = (n.setInstance height s).instances) :
    ∀ height' x, u.instanceAt? height' = some x →
      height' = height ∧ x = s ∨ height' ≠ height ∧ n.instanceAt? height' = some x := by
  intro height' x hx
  rw [instanceAt?_congr h] at hx
  by_cases heq : height' = height
  · subst heq
    rw [instanceAt?_setInstance ht hs, Option.some.injEq] at hx
    exact .inl ⟨rfl, hx.symm⟩
  · rw [instanceAt?_setInstance_of_ne hs heq] at hx
    exact .inr ⟨heq, hx⟩

/-- What is kept after an instance was added. -/
theorem kept_of_push (hs : s.height = height) (h : u.instances = n.instances.push s) :
    ∀ height' x, u.instanceAt? height' = some x →
      height' = height ∧ x = s ∨ n.instanceAt? height' = some x := by
  intro height' x hx
  have hheight := height_of_instanceAt? hx
  rw [instanceAt?, h] at hx
  rcases Recent.find?_push hx with rfl | hold
  · exact .inl ⟨hheight.symm.trans hs, rfl⟩
  · exact .inr hold

theorem reached_congr (h : u.height = n.height) : u.reached = n.reached := by
  rw [reached, h, reached]

theorem reached_le_advanceTo (n : Node S) (height : Height) :
    n.reached ≤ (n.advanceTo height).reached := by
  unfold advanceTo
  split
  · rename_i hbelow
    unfold reached
    cases hheight : n.height with
    | none => exact Nat.zero_le _
    | some current =>
      rw [hheight, Option.all_some, decide_eq_true_eq, Height.lt_iff] at hbelow
      simp only [Option.elim_some]
      omega
  · exact le_rfl

theorem instances_advanceTo (n : Node S) (height : Height) :
    (n.advanceTo height).instances = n.instances := by
  unfold advanceTo
  split <;> rfl

theorem decisions_advanceTo (n : Node S) (height : Height) :
    (n.advanceTo height).metrics.decisions = n.metrics.decisions := by
  unfold advanceTo
  split <;> rfl

end Instances

/-! ### Publications -/

/-- The messages that are announced or stored. -/
def published (effects : List (Effect S)) : List (SignedMessage S) :=
  effects.filterMap fun
    | .announce m | .save m => some m
    | _ => none

theorem mem_published {effects : List (Effect S)} {m : SignedMessage S} :
    m ∈ published effects ↔ .announce m ∈ effects ∨ .save m ∈ effects := by
  rw [published, List.mem_filterMap]
  constructor
  · rintro ⟨effect, hmem, heq⟩
    cases effect with
    | announce x =>
      obtain rfl := Option.some.inj heq
      exact .inl hmem
    | save x =>
      obtain rfl := Option.some.inj heq
      exact .inr hmem
    | broadcast x => cases heq
    | schedule height round => cases heq
    | cancel height => cases heq
  · rintro (h | h)
    · exact ⟨_, h, rfl⟩
    · exact ⟨_, h, rfl⟩

@[simp] theorem published_append (effects effects' : List (Effect S)) :
    published (effects ++ effects') = published effects ++ published effects' :=
  List.filterMap_append

@[simp] theorem published_nil : published ([] : List (Effect S)) = [] := rfl

@[simp] theorem published_broadcast (m : SignedMessage S) (effects : List (Effect S)) :
    published (.broadcast m :: effects) = published effects := rfl

@[simp] theorem published_cancel (height : Height) (effects : List (Effect S)) :
    published (.cancel height :: effects) = published effects := rfl

@[simp] theorem published_timerCall (seat : Seat S) (s : Instance S) (effects : List (Effect S)) :
    published (Instance.timerCall seat s :: effects) = published effects := by
  unfold Instance.timerCall
  split <;> rfl

@[simp] theorem published_entryCalls (seat : Seat S) (s : Instance S) (round : Round) :
    published (Instance.entryCalls seat s round) = [] := by
  unfold Instance.entryCalls
  split <;> simp

/-- An instance publishes nothing on its own. -/
theorem published_step (seat : Seat S) (net : Network S) (s : Instance S) (e : Instance.Event S) :
    published (Instance.step seat net s e).effects = [] := by
  have hmove : ∀ {s u : Instance S} {effects decision},
      Instance.Move seat s e effects decision u → published effects = [] := by
    intro s u effects decision h
    cases h <;> simp
  have hpath : ∀ {effects decisions u}, Instance.Path seat e s effects decisions u →
      published effects = [] := by
    intro effects decisions u h
    induction h with
    | stay => rfl
    | move _ hstep ih => rw [published_append, ih, hmove hstep, List.append_nil]
  exact hpath (Instance.step_path seat net s e)

/-! ### Side effects -/

/-- Two nodes with the same instances, at the same height, that count the same decisions. -/
structure Alike (n u : Node S) : Prop where
  instances_eq : u.instances = n.instances
  height_eq : u.height = n.height
  decisions_eq : u.metrics.decisions = n.metrics.decisions

namespace Alike

variable {n u v : Node S}

theorem refl (n : Node S) : Alike n n := ⟨rfl, rfl, rfl⟩

theorem trans (h : Alike n u) (h' : Alike u v) : Alike n v :=
  ⟨h'.instances_eq.trans h.instances_eq, h'.height_eq.trans h.height_eq,
    h'.decisions_eq.trans h.decisions_eq⟩

theorem symm (h : Alike n u) : Alike u n :=
  ⟨h.instances_eq.symm, h.height_eq.symm, h.decisions_eq.symm⟩

theorem instanceAt?_eq (h : Alike n u) (height : Height) :
    u.instanceAt? height = n.instanceAt? height :=
  instanceAt?_congr h.instances_eq

theorem setInstance (h : Alike n u) (height : Height) (s : Instance S) :
    Alike (n.setInstance height s) (u.setInstance height s) :=
  ⟨congrArg (Recent.update · _ _) h.instances_eq, h.height_eq, h.decisions_eq⟩

theorem advanceTo (h : Alike n u) (height : Height) :
    Alike (n.advanceTo height) (u.advanceTo height) := by
  unfold Node.advanceTo
  rw [h.height_eq]
  split
  · exact ⟨h.instances_eq, rfl, h.decisions_eq⟩
  · exact h

theorem countDecision (h : Alike n u) (round : Round) :
    Alike { n with metrics := n.metrics.decided round }
      { u with metrics := u.metrics.decided round } :=
  ⟨h.instances_eq, h.height_eq, congrArg (· + 1) h.decisions_eq⟩

theorem countFailure (n : Node S) (effect : SideEffect) : Alike n (n.countFailure effect) :=
  ⟨rfl, rfl, rfl⟩

theorem save (seat : Seat S) (disk : Disk) (n : Node S) (m : SignedMessage S) :
    Alike n (n.save seat disk m).state := by
  unfold Node.save
  split <;> exact ⟨rfl, rfl, rfl⟩

theorem saveIfHighest (seat : Seat S) (disk : Disk) (n : Node S) (height : Height)
    (m : SignedMessage S) : Alike n (n.saveIfHighest seat disk height m).state := by
  unfold Node.saveIfHighest
  split
  · exact refl n
  · exact refl n
  · exact save seat disk n m

theorem save_or_done (seat : Seat S) (disk : Disk) (n : Node S) (m : SignedMessage S) (b : Bool) :
    Alike n (if b then n.save seat disk m else .done n ()).state := by
  split
  · exact save seat disk n m
  · exact refl n

theorem noteSave (o : Step S (Node S) StorageError Unit) : Alike o.state (noteSave o).1 := by
  unfold Node.noteSave
  split
  · exact refl o.state
  · exact countFailure o.state .persist

theorem noteAnnouncement (answer : Except NetworkError Unit) (n : Node S)
    (errors : List SideEffectError) : Alike n (noteAnnouncement answer n errors).1 := by
  unfold Node.noteAnnouncement
  split
  · exact refl n
  · exact countFailure n .broadcast

theorem countMessage (kind : MessageKind) (o : Step S (Node S) Error (Option (Decided S))) :
    Alike o.state (countMessage kind o).state := by
  unfold Node.countMessage
  refine ⟨rfl, rfl, ?_⟩
  dsimp only
  split <;> rfl

/-- Apart from the count of decisions, nothing that matters here changes when a decision is stored
and announced. -/
theorem conclude (seat : Seat S) (env : Surroundings S) (n : Node S) (height : Height)
    (decision : Decision S) :
    Alike { n with metrics := n.metrics.decided decision.commit.round }
      (n.conclude seat env height decision).state := by
  unfold Node.conclude
  exact ((saveIfHighest ..).trans (noteSave _)).trans (noteAnnouncement ..)

end Alike

theorem published_of_save (seat : Seat S) (disk : Disk) (n : Node S) (m : SignedMessage S) :
    published (n.save seat disk m).effects = [m] := by
  unfold save
  split <;> rfl

theorem eq_of_mem_published_save_or_done {seat : Seat S} {disk : Disk} {n : Node S} {b : Bool}
    {m x : SignedMessage S}
    (h : x ∈ published (if b then n.save seat disk m else .done n ()).effects) : x = m := by
  split at h
  · rw [published_of_save] at h
    exact List.mem_singleton.1 h
  · cases h

/-- What is stored is the decision, if anything is. -/
theorem eq_of_mem_published_saveIfHighest {seat : Seat S} {disk : Disk} {n : Node S}
    {height : Height} {m x : SignedMessage S}
    (h : x ∈ published (n.saveIfHighest seat disk height m).effects) : x = m := by
  unfold saveIfHighest at h
  split at h
  · cases h
  · cases h
  · rw [published_of_save] at h
    exact List.mem_singleton.1 h

/-- The commit of a decision is all that is published about it. -/
theorem eq_of_mem_published_conclude {seat : Seat S} {env : Surroundings S} {n : Node S}
    {height : Height} {decision : Decision S} {x : SignedMessage S}
    (h : x ∈ published (n.conclude seat env height decision).effects) : x = decision.commit := by
  rw [conclude, published_append, List.mem_append] at h
  rcases h with h | h
  · exact eq_of_mem_published_saveIfHighest h
  · exact List.mem_singleton.1 h

/-! ### Changes -/

/-- What an event changes of a node, with the effects it asks for and the decision it returns. -/
inductive Change (seat : Seat S) (n : Node S) :
    List (Effect S) → Option (Decided S) → Node S → Prop
  /-- The instances stay as they are. -/
  | idle {effects : List (Effect S)} {u : Node S}
      (hpublished : ∀ m ∈ published effects, IsCertificate seat m)
      (hinstances : u.instances = n.instances) (hreached : n.reached ≤ u.reached)
      (hdecisions : u.metrics.decisions = n.metrics.decisions) : Change seat n effects none u
  /-- The instance of the next height begins. -/
  | begin {effects : List (Effect S)} {u : Node S} {height : Height} (net : Network S)
      (value : Value S) (hpublished : published effects = []) (hheight : height.toNat = n.reached)
      (hinstances : u.instances =
        n.instances.push (Instance.step seat net (.new height) (.start value)).state)
      (hreached : u.reached = height.toNat + 1)
      (hdecisions : u.metrics.decisions = n.metrics.decisions) : Change seat n effects none u
  /-- The instance of a height acts and decides nothing. -/
  | act {effects : List (Effect S)} {u : Node S} {height : Height} {s : Instance S}
      (net : Network S) (e : Instance.Event S) (hs : n.instanceAt? height = some s)
      (he : Instance.Admitted seat height e)
      (hpublished : ∀ m ∈ published effects, IsCertificate seat m)
      (hanswer : Instance.decisionOf (Instance.step seat net s e).answer = [])
      (hinstances : u.instances =
        (n.setInstance height (Instance.step seat net s e).state).instances)
      (hreached : n.reached ≤ u.reached)
      (hdecisions : u.metrics.decisions = n.metrics.decisions) : Change seat n effects none u
  /-- The instance of a height decides. -/
  | decide {effects : List (Effect S)} {u : Node S} {height : Height} {s : Instance S}
      {decision : Decision S} {errors : List SideEffectError} (net : Network S)
      (e : Instance.Event S) (hs : n.instanceAt? height = some s)
      (he : Instance.Admitted seat height e)
      (hpublished : ∀ m ∈ published effects, m = decision.commit ∨ IsCertificate seat m)
      (hanswer : Instance.decisionOf (Instance.step seat net s e).answer = [decision])
      (hinstances : u.instances =
        (n.setInstance height (Instance.step seat net s e).state).instances)
      (hreached : n.reached ≤ u.reached)
      (hdecisions : u.metrics.decisions = n.metrics.decisions + 1) :
      Change seat n effects (some ⟨height, decision.value, decision.commit, errors⟩) u

section Changes

variable {seat : Seat S} {env : Surroundings S} {n u v : Node S} {effects : List (Effect S)}
  {decided : Option (Decided S)}

theorem Change.alike (h : Change seat n effects decided u) (halike : Alike u v) :
    Change seat n effects decided v := by
  obtain ⟨hinst, hheight, hcount⟩ := halike
  have hsame := reached_congr hheight
  cases h with
  | idle hpublished hinstances hreached hdecisions =>
    exact .idle hpublished (hinst.trans hinstances) (hsame ▸ hreached) (hcount.trans hdecisions)
  | begin net value hpublished hnext hinstances hreached hdecisions =>
    exact .begin net value hpublished hnext (hinst.trans hinstances) (hsame.trans hreached)
      (hcount.trans hdecisions)
  | act net e hs he hpublished hanswer hinstances hreached hdecisions =>
    exact .act net e hs he hpublished hanswer (hinst.trans hinstances) (hsame ▸ hreached)
      (hcount.trans hdecisions)
  | decide net e hs he hpublished hanswer hinstances hreached hdecisions =>
    exact .decide net e hs he hpublished hanswer (hinst.trans hinstances) (hsame ▸ hreached)
      (hcount.trans hdecisions)

theorem change_refuse : Change seat n [] none n :=
  .idle nofun rfl le_rfl rfl

/-- The decision that a message leads to. -/
def returned : Except Error (Option (Decided S)) → Option (Decided S)
  | .ok decided => decided
  | .error _ => none

theorem start_change (value : Value S) :
    Change seat n (n.start seat env value).effects none (n.start seat env value).state := by
  unfold start
  split
  · exact change_refuse
  split
  · exact change_refuse
  split
  · exact change_refuse
  rename_i height hnext
  refine .begin env.network value ?_ ?_ rfl rfl rfl
  · exact published_step seat env.network (.new height) (.start value)
  · unfold reached
    cases hheight : n.height with
    | none =>
      rw [hheight] at hnext
      cases hnext
      rfl
    | some current =>
      rw [hheight] at hnext
      exact Height.next?_eq_ok hnext

theorem receivePlain_change (m : SignedMessage S) :
    Change seat n (n.receivePlain seat env m).effects (returned (n.receivePlain seat env m).answer)
      (n.receivePlain seat env m).state := by
  unfold receivePlain
  split
  · exact change_refuse
  split
  · exact change_refuse
  rename_i s hs
  have hpublished := published_step seat env.network s (.receive m)
  have hnone : ∀ x ∈ published (s.receive seat env.network m).effects, IsCertificate seat x :=
    fun x hx => absurd hx (hpublished ▸ List.not_mem_nil)
  dsimp only
  split
  · rename_i e hanswer
    exact .act env.network (.receive m) hs trivial hnone (by rw [Instance.step, hanswer]; rfl) rfl
      le_rfl rfl
  · rename_i hanswer
    exact .act env.network (.receive m) hs trivial hnone (by rw [Instance.step, hanswer]; rfl) rfl
      le_rfl rfl
  · rename_i decision hanswer
    have halike := Alike.conclude seat env
      (n.setInstance m.height (s.receive seat env.network m).state) m.height decision
    refine .decide env.network (.receive m) hs trivial (fun x hx => ?_)
      (by rw [Instance.step, hanswer]; rfl) halike.instances_eq
      (reached_congr halike.height_eq).ge halike.decisions_eq
    rw [Step.after, published_append, List.mem_append] at hx
    rcases hx with hx | hx
    · exact .inr (hnone x hx)
    · exact .inl (eq_of_mem_published_conclude hx)

theorem receiveDecided_change {m : SignedMessage S} (htype : m.type = .commit) :
    Change seat n (n.receiveDecided seat env m).effects
      (returned (n.receiveDecided seat env m).answer) (n.receiveDecided seat env m).state := by
  unfold receiveDecided
  split
  · exact change_refuse
  rename_i hvalid
  split
  · exact change_refuse
  rename_i isHigher hload
  have hsaved := Alike.save_or_done seat env.disk n m isHigher
  have hpublished : ∀ x ∈ published
      (if isHigher then n.save seat env.disk m else .done n ()).effects, IsCertificate seat x := by
    intro x hx
    rw [eq_of_mem_published_save_or_done hx]
    exact isCertificate_iff.2 ⟨htype, hvalid⟩
  generalize (if isHigher then n.save seat env.disk m else .done n ()) = saved
    at hsaved hpublished ⊢
  -- the node is alike to what it was, until it advances
  have halike := hsaved.trans (Alike.noteSave saved)
  dsimp only
  generalize (noteSave saved).1 = w at halike ⊢
  have hinstances := (instances_advanceTo w m.height).trans halike.instances_eq
  have hreached := reached_congr halike.height_eq ▸ reached_le_advanceTo w m.height
  have hdecisions := (decisions_advanceTo w m.height).trans halike.decisions_eq
  split
  · exact .idle hpublished hinstances hreached hdecisions
  rename_i s hs
  rw [instanceAt?_congr hinstances] at hs
  have he : Instance.Admitted seat m.height (.learn m) := ⟨htype, rfl, hvalid⟩
  have hlearn := published_step seat env.network s (.learn m)
  have hall : ∀ x ∈ published (saved.effects ++ (s.learn m).effects), IsCertificate seat x := by
    intro x hx
    rw [published_append, List.mem_append] at hx
    rcases hx with hx | hx
    · exact hpublished x hx
    · exact absurd hx (hlearn ▸ List.not_mem_nil)
  have hset : ∀ t : Instance S, ((w.advanceTo m.height).setInstance m.height t).instances =
      (n.setInstance m.height t).instances := by
    intro t
    rw [setInstance, hinstances, setInstance]
  split
  · rename_i e hanswer
    exact .act env.network (.learn m) hs he hall (by rw [Instance.step, hanswer]; rfl) (hset _)
      hreached hdecisions
  · rename_i hanswer
    exact .act env.network (.learn m) hs he hall (by rw [Instance.step, hanswer]; rfl) (hset _)
      hreached hdecisions
  · rename_i decision hanswer
    exact .decide env.network (.learn m) hs he (fun x hx => .inr (hall x hx))
      (by rw [Instance.step, hanswer]; rfl) (hset _) hreached (congrArg (· + 1) hdecisions)

theorem receive_change (seat : Seat S) (env : Surroundings S) (n : Node S) (m : SignedMessage S) :
    Change seat n (n.receive seat env m).effects (returned (n.receive seat env m).answer)
      (n.receive seat env m).state := by
  unfold receive
  dsimp only
  split
  · rename_i hkind
    exact (receiveDecided_change (messageKind_eq_decided_iff.1 hkind).1).alike
      (Alike.countMessage ..)
  · exact (receivePlain_change m).alike (Alike.countMessage ..)

theorem timeout_change (height : Height) (round : Round) :
    Change seat n (n.timeout seat env height round).effects none
      (n.timeout seat env height round).state := by
  unfold timeout
  split
  · exact change_refuse
  rename_i s hs
  have hpublished := published_step seat env.network s (.timeout round)
  exact .act env.network (.timeout round) hs trivial
    (fun x hx => absurd hx (hpublished ▸ List.not_mem_nil))
    (Instance.decisionOf_undecided _) rfl le_rfl rfl

theorem load_change :
    Change seat n (n.load seat env).effects none (n.load seat env).state := by
  unfold load
  split
  · exact change_refuse
  · exact change_refuse
  · rename_i m hstored
    exact .idle nofun (instances_advanceTo n m.height) (reached_le_advanceTo n m.height)
      (decisions_advanceTo n m.height)

end Changes

/-! ### Runs -/

/-- The decision that an answer holds. -/
def decidedOf : Except Error (Answer S) → Option (Decided S)
  | .ok (.received decided) => decided
  | _ => none

theorem decidedOf_received (answer : Except Error (Option (Decided S))) :
    decidedOf (answer.map .received) = returned answer := by
  cases answer <;> rfl

/-- Answers of a kind that does not hold decisions. -/
theorem decidedOf_map_eq_none {α : Type} (answer : Except Error α) (f : α → Answer S)
    (hf : ∀ a, decidedOf (.ok (f a)) = none) : decidedOf (answer.map f) = none := by
  cases answer with
  | error e => rfl
  | ok a => exact hf a

/-- What an event changes of a node. -/
theorem step_change (seat : Seat S) (env : Surroundings S) (n : Node S) (e : Event S) :
    Change seat n (step seat env n e).effects (decidedOf (step seat env n e).answer)
      (step seat env n e).state := by
  cases e with
  | start value =>
    rw [step, Step.mapAnswer, decidedOf_map_eq_none _ _ fun _ => rfl]
    exact start_change value
  | receive m =>
    rw [step, Step.mapAnswer, decidedOf_received]
    exact receive_change seat env n m
  | timeout height round =>
    rw [step, Step.mapAnswer, decidedOf_map_eq_none _ _ fun _ => rfl]
    exact timeout_change height round
  | load =>
    rw [step, Step.mapAnswer, decidedOf_map_eq_none _ _ fun _ => rfl]
    exact load_change

/-- The state that a run of a node has reached, the effects it has asked for and the decisions it
has returned. -/
structure Trace (S : Scheme) where
  state : Node S
  effects : List (Effect S)
  decided : List (Decided S)

namespace Trace

/-- The trace of a node before its first start, with what is stored. -/
def new (capacity : ℕ) (archive : Archive S) : Trace S := ⟨Node.new capacity archive, [], []⟩

/-- The trace after effects, with the decision returned and the state reached. -/
def after (t : Trace S) (effects : List (Effect S)) (decided : Option (Decided S)) (n : Node S) :
    Trace S :=
  ⟨n, t.effects ++ effects, t.decided ++ decided.toList⟩

@[simp] theorem decided_after_none (t : Trace S) (effects : List (Effect S)) (n : Node S) :
    (t.after effects none n).decided = t.decided := List.append_nil t.decided

@[simp] theorem decided_after_some (t : Trace S) (effects : List (Effect S)) (d : Decided S)
    (n : Node S) : (t.after effects (some d) n).decided = t.decided ++ [d] := rfl

/-- The trace after an event. -/
def extend (seat : Seat S) (env : Surroundings S) (t : Trace S) (e : Event S) : Trace S :=
  let o := step seat env t.state e
  t.after o.effects (decidedOf o.answer) o.state

/-- The trace after some events, while nothing fails. -/
def play (seat : Seat S) (t : Trace S) (events : List (Event S)) : Trace S :=
  events.foldl (fun t e => t.extend seat (Surroundings.reliable S) e) t

end Trace

/-- The traces of the runs of a node. -/
inductive Run (seat : Seat S) (capacity : ℕ) (archive : Archive S) : Trace S → Prop
  | new : Run seat capacity archive (.new capacity archive)
  | next {t : Trace S} (env : Surroundings S) (e : Event S) (h : Run seat capacity archive t) :
      Run seat capacity archive (t.extend seat env e)

namespace Run

variable {seat : Seat S} {capacity : ℕ} {archive : Archive S} {t : Trace S}

theorem play (h : Run seat capacity archive t) (events : List (Event S)) :
    Run seat capacity archive (t.play seat events) := by
  induction events generalizing t with
  | nil => exact h
  | cons e events ih => exact ih (h.next (Surroundings.reliable S) e)

/-- What holds before the first start and is kept by every change holds of every run. -/
theorem induct {P : Trace S → Prop} (hnew : P (.new capacity archive))
    (hchange : ∀ t effects decided u, P t → Change seat t.state effects decided u →
      P (t.after effects decided u)) (h : Run seat capacity archive t) : P t := by
  induction h with
  | new => exact hnew
  | next env e _ ih => exact hchange _ _ _ _ ih (step_change seat env _ e)

end Run

end Node
end Conclave
