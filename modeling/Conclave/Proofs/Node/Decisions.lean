import Conclave.Proofs.Node.Change

/-!
# The decisions of a node

A node returns one decision for a height at most, and then the instance of the height is decided for
good (`decides_once`): heights are not started twice, an instance decides once, and what is kept of
the instances agrees with what was returned (`Consistent`).

Every decision is certified (`decisions_certified`): its commit convinces every other node of the
stream, and so does all that is announced or stored. Where an instance has counted the commits
itself, this rests on what its tally holds (`Instance.Sound`) and on what a combined message is;
where it has learned of the decision, the certificate is what it has learned it from.
-/

namespace Conclave

variable {S : Scheme}

/-! ### Decisions of an instance -/

namespace Instance

/-- A decision for a height with a certificate for its value, which may be decided on. -/
structure Certified (seat : Seat S) (height : Height) (value : Value S) (commit : SignedMessage S) :
    Prop where
  certificate : Node.IsCertificate seat commit
  height_eq : commit.height = height
  root_eq : commit.message.valueRoot? = some value.root
  checked : seat.context.checkValue value = .ok ()

variable {seat : Seat S} {height : Height} {s u : Instance S} {e : Event S}
  {effects : List (Effect S)} {d : Decision S} {value : Value S}

/-- The accepted value may be decided on. -/
theorem Sound.checkValue (h : Sound seat height s) (hvalue : s.acceptedValue? = some value) :
    seat.context.checkValue value = .ok () := by
  obtain ⟨proposal, haccepted, hproposed⟩ := Option.bind_eq_some_iff.1 hvalue
  obtain ⟨v, hv, hcheck⟩ := (h.accepted haccepted).value
  obtain rfl : v = value := Option.some.inj (hv.symm.trans hproposed)
  exact hcheck

/-- A move that decides has a certificate. -/
theorem Sound.certified_of_move (h : Sound seat height s) (he : Admitted seat height e)
    (hmove : Move seat s e effects (some d) u) : Certified seat height d.value d.commit := by
  have hfiled := h.filed_commits_move he hmove
  cases hmove with
  | decide hreach htype hvalid hnew hopen hvalue hquorum hcommit =>
    obtain ⟨hcertificate, hheight, hroot⟩ := certificate_of_aggregate hfiled hquorum hcommit
    exact ⟨hcertificate, hheight, hroot, h.checkValue hvalue⟩
  | learn hopen hvalue hroot =>
    obtain ⟨htype, hheight, hvalid⟩ := he
    exact ⟨Node.isCertificate_iff.2 ⟨htype, hvalid⟩, hheight, hroot, h.checkValue hvalue⟩

/-- An answer that decides has a certificate. -/
theorem Sound.certified (h : Sound seat height s) (net : Network S) (he : Admitted seat height e)
    (hd : d ∈ decisionOf (Instance.step seat net s e).answer) :
    Certified seat height d.value d.commit := by
  have hall : Sound seat height ((⟨s, [], []⟩ : Trace S).extend seat net e).state ∧
      ∀ d ∈ ((⟨s, [], []⟩ : Trace S).extend seat net e).decisions,
        Certified seat height d.value d.commit := by
    refine Trace.extend_induct (t := ⟨s, [], []⟩) (P := fun t => Sound seat height t.state ∧
      ∀ d ∈ t.decisions, Certified seat height d.value d.commit) ⟨h, nofun⟩ ?_
    rintro t effects decision u ⟨ht, hold⟩ hmove
    refine ⟨ht.move he hmove, fun d hd => ?_⟩
    rcases List.mem_append.1 hd with hd | hd
    · exact hold d hd
    · obtain rfl := Option.mem_toList.1 hd
      exact ht.certified_of_move he hmove
  exact hall.2 d hd

end Instance

namespace Node

variable {seat : Seat S} {t : Trace S} {effects : List (Effect S)} {decided : Option (Decided S)}
  {u : Node S} {capacity : ℕ} {archive : Archive S}

/-! ### One decision for a height -/

/-- The instances that a node keeps agree with the decisions it has returned. -/
structure Consistent (seat : Seat S) (t : Trace S) : Prop where
  kept_lt : ∀ {height s}, t.state.instanceAt? height = some s → height.toNat < t.state.reached
  decided_lt : ∀ {d}, d ∈ t.decided → d.height.toNat < t.state.reached
  reachable : ∀ {height s}, t.state.instanceAt? height = some s →
    Instance.Reachable seat height s
  /-- What is decided was returned, and the other way round. -/
  decided_iff : ∀ {height s}, t.state.instanceAt? height = some s → ∀ value,
    s.decided = some value ↔ ∃ d ∈ t.decided, d.height = height ∧ d.value = value
  nodup : (t.decided.map Decided.height).Nodup
  count_eq : t.state.metrics.decisions = t.decided.length

namespace Consistent

theorem new (capacity : ℕ) (archive : Archive S) : Consistent seat (.new capacity archive) where
  kept_lt := nofun
  decided_lt := nofun
  reachable := nofun
  decided_iff := nofun
  nodup := List.nodup_nil
  count_eq := rfl

/-- An event that leaves the instances as they are. -/
theorem idle (h : Consistent seat t) (hinstances : u.instances = t.state.instances)
    (hreached : t.state.reached ≤ u.reached)
    (hdecisions : u.metrics.decisions = t.state.metrics.decisions) :
    Consistent seat (t.after effects none u) := by
  have hkept : ∀ {height}, u.instanceAt? height = t.state.instanceAt? height :=
    instanceAt?_congr hinstances
  have hdecided := t.decided_after_none effects u
  constructor
  · exact fun hx => (h.kept_lt (hkept.symm.trans hx)).trans_le hreached
  · exact fun hd => (h.decided_lt (hdecided ▸ hd)).trans_le hreached
  · exact fun hx => h.reachable (hkept.symm.trans hx)
  · rw [hdecided]
    exact fun hx => h.decided_iff (hkept.symm.trans hx)
  · rw [hdecided]
    exact h.nodup
  · rw [hdecided]
    exact hdecisions.trans h.count_eq

/-- An instance begins above all that was started. -/
theorem begin (h : Consistent seat t) {height : Height} {s : Instance S}
    (hs : Instance.Reachable seat height s) (hopen : s.decided = none)
    (hheight : height.toNat = t.state.reached) (hinstances : u.instances = t.state.instances.push s)
    (hreached : u.reached = height.toNat + 1)
    (hdecisions : u.metrics.decisions = t.state.metrics.decisions) :
    Consistent seat (t.after effects none u) := by
  have hdecided := t.decided_after_none effects u
  have hkept := kept_of_push hs.sound.height_eq hinstances
  constructor
  · intro height' x hx
    rw [Trace.after, hreached]
    rcases hkept _ _ hx with ⟨rfl, -⟩ | hold
    · exact Nat.lt_succ_self _
    · have := h.kept_lt hold
      omega
  · intro d hd
    rw [Trace.after, hreached]
    have := h.decided_lt (hdecided ▸ hd)
    omega
  · intro height' x hx
    rcases hkept _ _ hx with ⟨rfl, rfl⟩ | hold
    · exact hs
    · exact h.reachable hold
  · intro height' x hx value
    rw [hdecided]
    rcases hkept _ _ hx with ⟨rfl, rfl⟩ | hold
    -- nothing was returned of the new height
    · refine ⟨fun hvalue => ?_, fun ⟨d, hd, hdheight, _⟩ => ?_⟩
      · rw [hopen] at hvalue
        cases hvalue
      · have := h.decided_lt hd
        rw [hdheight] at this
        omega
    · exact h.decided_iff hold value
  · rw [hdecided]
    exact h.nodup
  · rw [hdecided]
    exact hdecisions.trans h.count_eq

/-- The instance of a height acts and decides nothing. -/
theorem act (h : Consistent seat t) {height : Height} {s s' : Instance S}
    (hs : t.state.instanceAt? height = some s) (hs' : Instance.Reachable seat height s')
    (hsame : s'.decided = s.decided)
    (hinstances : u.instances = (t.state.setInstance height s').instances)
    (hreached : t.state.reached ≤ u.reached)
    (hdecisions : u.metrics.decisions = t.state.metrics.decisions) :
    Consistent seat (t.after effects none u) := by
  have hdecided := t.decided_after_none effects u
  have hkept := kept_of_setInstance hs hs'.sound.height_eq hinstances
  constructor
  · intro height' x hx
    rcases hkept _ _ hx with ⟨rfl, -⟩ | ⟨-, hold⟩
    · exact (h.kept_lt hs).trans_le hreached
    · exact (h.kept_lt hold).trans_le hreached
  · exact fun hd => (h.decided_lt (hdecided ▸ hd)).trans_le hreached
  · intro height' x hx
    rcases hkept _ _ hx with ⟨rfl, rfl⟩ | ⟨-, hold⟩
    · exact hs'
    · exact h.reachable hold
  · intro height' x hx
    rw [hdecided]
    rcases hkept _ _ hx with ⟨rfl, rfl⟩ | ⟨-, hold⟩
    · rw [hsame]
      exact h.decided_iff hs
    · exact h.decided_iff hold
  · rw [hdecided]
    exact h.nodup
  · rw [hdecided]
    exact hdecisions.trans h.count_eq

/-- The instance of a height decides. -/
theorem decide (h : Consistent seat t) {d : Decided S} {s s' : Instance S}
    (hs : t.state.instanceAt? d.height = some s) (hs' : Instance.Reachable seat d.height s')
    (hopen : s.decided = none) (hvalue : s'.decided = some d.value)
    (hinstances : u.instances = (t.state.setInstance d.height s').instances)
    (hreached : t.state.reached ≤ u.reached)
    (hdecisions : u.metrics.decisions = t.state.metrics.decisions + 1) :
    Consistent seat (t.after effects (some d) u) := by
  have hdecided := t.decided_after_some effects d u
  have hkept := kept_of_setInstance hs hs'.sound.height_eq hinstances
  -- the instance was undecided, so nothing was returned of the height
  have hfirst : ∀ d' ∈ t.decided, d'.height ≠ d.height := by
    intro d' hd' heq
    have := (h.decided_iff hs d'.value).2 ⟨d', hd', heq, rfl⟩
    rw [hopen] at this
    cases this
  constructor
  · intro height' x hx
    rcases hkept _ _ hx with ⟨rfl, -⟩ | ⟨-, hold⟩
    · exact (h.kept_lt hs).trans_le hreached
    · exact (h.kept_lt hold).trans_le hreached
  · intro d' hd'
    rw [hdecided, List.mem_append, List.mem_singleton] at hd'
    rcases hd' with hd' | rfl
    · exact (h.decided_lt hd').trans_le hreached
    · exact (h.kept_lt hs).trans_le hreached
  · intro height' x hx
    rcases hkept _ _ hx with ⟨rfl, rfl⟩ | ⟨-, hold⟩
    · exact hs'
    · exact h.reachable hold
  · intro height' x hx value
    simp only [hdecided, List.mem_append, List.mem_singleton]
    rcases hkept _ _ hx with ⟨rfl, rfl⟩ | ⟨hne, hold⟩
    · rw [hvalue, Option.some.injEq]
      refine ⟨fun heq => ⟨d, .inr rfl, rfl, heq⟩, fun ⟨d', hd', heq, hd'value⟩ => ?_⟩
      rcases hd' with hd' | rfl
      · exact absurd heq (hfirst d' hd')
      · exact hd'value
    · rw [h.decided_iff hold value]
      refine ⟨fun ⟨d', hd', hd'height⟩ => ⟨d', .inl hd', hd'height⟩,
        fun ⟨d', hd', heq, hd'value⟩ => ?_⟩
      rcases hd' with hd' | rfl
      · exact ⟨d', hd', heq, hd'value⟩
      · exact absurd heq.symm hne
  · rw [hdecided, List.map_append]
    refine List.nodup_append.2 ⟨h.nodup, List.nodup_singleton _, fun a ha b hb heq => ?_⟩
    obtain ⟨d', hd', rfl⟩ := List.mem_map.1 ha
    exact hfirst d' hd' (heq.trans (List.mem_singleton.1 hb))
  · rw [hdecided, List.length_append]
    exact hdecisions.trans (congrArg (· + 1) h.count_eq)

/-- Every change keeps the agreement. -/
theorem change (h : Consistent seat t) (hchange : Change seat t.state effects decided u) :
    Consistent seat (t.after effects decided u) := by
  cases hchange with
  | idle hpublished hinstances hreached hdecisions => exact h.idle hinstances hreached hdecisions
  | begin net value hpublished hheight hinstances hreached hdecisions =>
    refine h.begin (.next net (.start value) .new trivial) ?_ hheight hinstances hreached hdecisions
    exact Instance.decided_of_no_decision (Instance.decisionOf_undecided _)
  | act net e hs he hpublished hanswer hinstances hreached hdecisions =>
    exact h.act hs (.next net e (h.reachable hs) he) (Instance.decided_of_no_decision hanswer)
      hinstances hreached hdecisions
  | decide net e hs he hpublished hanswer hinstances hreached hdecisions =>
    obtain ⟨hopen, hvalue⟩ := Instance.decided_of_decision hanswer
    exact h.decide hs (.next net e (h.reachable hs) he) hopen hvalue hinstances hreached
      hdecisions

/-- The instance of a height for which a decision is returned becomes decided. -/
theorem decides (h : Consistent seat t) {d : Decided S}
    (hchange : Change seat t.state effects (some d) u) :
    ∃ s s', t.state.instanceAt? d.height = some s ∧ s.decided = none ∧
      u.instanceAt? d.height = some s' ∧ s'.decided = some d.value := by
  cases hchange with
  | decide net e hs he hpublished hanswer hinstances hreached hdecisions =>
    obtain ⟨hopen, hvalue⟩ := Instance.decided_of_decision hanswer
    have hheight := ((h.reachable hs).next net e he).sound.height_eq
    refine ⟨_, _, hs, hopen, ?_, hvalue⟩
    rw [instanceAt?_congr hinstances]
    exact instanceAt?_setInstance hs hheight

/-- A decision that is returned is certified. -/
theorem certified (h : Consistent seat t) {d : Decided S}
    (hchange : Change seat t.state effects (some d) u) :
    Instance.Certified seat d.height d.value d.commit := by
  cases hchange with
  | decide net e hs he hpublished hanswer hinstances hreached hdecisions =>
    refine (h.reachable hs).sound.certified net he ?_
    rw [hanswer]
    exact List.mem_singleton_self _

/-- All that an event publishes is a certificate. -/
theorem published (h : Consistent seat t) (hchange : Change seat t.state effects decided u) :
    ∀ m ∈ Node.published effects, IsCertificate seat m := by
  cases hchange with
  | idle hpublished hinstances hreached hdecisions => exact hpublished
  | begin net value hpublished hheight hinstances hreached hdecisions =>
    rw [hpublished]
    exact nofun
  | act net e hs he hpublished hanswer hinstances hreached hdecisions => exact hpublished
  | decide net e hs he hpublished hanswer hinstances hreached hdecisions =>
    intro m hm
    rcases hpublished m hm with rfl | hcertificate
    · refine ((h.reachable hs).sound.certified net he ?_).certificate
      rw [hanswer]
      exact List.mem_singleton_self _
    · exact hcertificate

end Consistent

theorem Run.consistent (h : Run seat capacity archive t) : Consistent seat t :=
  Run.induct (.new capacity archive) (fun _ _ _ _ ht hchange => ht.change hchange) h

/-- Over any run, a node returns at most one decision for a height, and counts those it returns. The
instance of the height becomes decided with the value that is returned, and as long as it is kept it
stays so; no other instance is decided. -/
theorem decides_once (h : Run seat capacity archive t) :
    (t.decided.map Decided.height).Nodup ∧ t.state.metrics.decisions = t.decided.length ∧
      (∀ height s, t.state.instanceAt? height = some s → ∀ value,
        s.decided = some value ↔ ∃ d ∈ t.decided, d.height = height ∧ d.value = value) ∧
      (∀ env m d, (t.state.receive seat env m).answer = .ok (some d) →
        ∃ s s', t.state.instanceAt? d.height = some s ∧ s.decided = none ∧
          (t.state.receive seat env m).state.instanceAt? d.height = some s' ∧
          s'.decided = some d.value) ∧
      ∀ env e height s s' value, t.state.instanceAt? height = some s → s.decided = some value →
        (step seat env t.state e).state.instanceAt? height = some s' → s'.decided = some value := by
  have hconsistent := h.consistent
  refine ⟨hconsistent.nodup, hconsistent.count_eq, fun height s hs => hconsistent.decided_iff hs,
    fun env m d hanswer => ?_, fun env e height s s' value hs hvalue hs' => ?_⟩
  · have hchange := receive_change seat env t.state m
    rw [hanswer] at hchange
    exact hconsistent.decides hchange
  -- what was returned stays returned
  · obtain ⟨d, hd, hd'⟩ := (hconsistent.decided_iff hs value).1 hvalue
    exact ((h.next env e).consistent.decided_iff hs' value).2 ⟨d, List.mem_append_left _ hd, hd'⟩

/-- Over any run, each decision that a node returns is certified for its height and value, and all
that the node announces or stores is a certificate. -/
theorem decisions_certified (h : Run seat capacity archive t) :
    (∀ d ∈ t.decided, Instance.Certified seat d.height d.value d.commit) ∧
      ∀ m, .announce m ∈ t.effects ∨ .save m ∈ t.effects → IsCertificate seat m := by
  have hall : Consistent seat t ∧
      (∀ d ∈ t.decided, Instance.Certified seat d.height d.value d.commit) ∧
      ∀ m ∈ published t.effects, IsCertificate seat m := by
    refine Run.induct (P := fun t => Consistent seat t ∧
      (∀ d ∈ t.decided, Instance.Certified seat d.height d.value d.commit) ∧
      ∀ m ∈ published t.effects, IsCertificate seat m) ⟨.new capacity archive, nofun, nofun⟩ ?_ h
    rintro t effects decided u ⟨ht, hdecided, hpublished⟩ hchange
    refine ⟨ht.change hchange, fun d hd => ?_, fun m hm => ?_⟩
    · rcases List.mem_append.1 hd with hd | hd
      · exact hdecided d hd
      · obtain rfl := Option.mem_toList.1 hd
        exact ht.certified hchange
    · rw [Trace.after, published_append, List.mem_append] at hm
      rcases hm with hm | hm
      · exact hpublished m hm
      · exact ht.published hchange m hm
  exact ⟨hall.2.1, fun m hm => hall.2.2 m (mem_published.2 hm)⟩

/-! ### A node that decides -/

namespace Deciding

open Scheme

/-- Member 1 starts and prepares with a quorum. Then the certificate of the others reaches it twice,
and after it the commits of all members. -/
def schedule : List (Event plain) :=
  .start plain.value :: plain.preparation.map .receive ++
    [.receive plain.certificate, .receive plain.certificate] ++
    [1, 2, 3, 4].map fun id => .receive (plain.message id (.commit plain.value.root))

/-- What becomes of it. -/
def trace : Trace plain := (Trace.new 2 Archive.empty).play plain.seat schedule

theorem run_trace : Run plain.seat 2 Archive.empty trace := Run.new.play schedule

end Deciding

/-- The node returns one decision, although the certificate comes again and a quorum of commits
follows. -/
theorem decides_once_of_certificate :
    Deciding.trace.decided.map Decided.height = [Height.first] ∧
      Deciding.trace.state.metrics.decisions = 1 ∧
      ∃ s, Deciding.trace.state.instanceAt? Height.first = some s ∧
        s.decided = some Scheme.plain.value := by
  obtain ⟨-, hcount, hiff, -, -⟩ := decides_once Deciding.run_trace
  have hdecided : Deciding.trace.decided.map Decided.height = [Height.first] := by decide +kernel
  have hvalue : ∃ d ∈ Deciding.trace.decided, d.height = Height.first ∧
      d.value = Scheme.plain.value := by decide +kernel
  obtain ⟨s, hs⟩ : ∃ s, Deciding.trace.state.instanceAt? Height.first = some s :=
    Option.isSome_iff_exists.1 (by decide +kernel)
  have hlength := congrArg List.length hdecided
  rw [List.length_map, List.length_singleton] at hlength
  exact ⟨hdecided, hcount.trans hlength, s, hs, (hiff Height.first s hs _).2 hvalue⟩

/-- The decision comes with the certificate, which is stored. -/
theorem certified_of_certificate :
    (∃ d ∈ Deciding.trace.decided, d.commit = Scheme.plain.certificate ∧
      Instance.Certified Scheme.plain.seat d.height d.value d.commit) ∧
    .save Scheme.plain.certificate ∈ Deciding.trace.effects ∧
    IsCertificate Scheme.plain.seat Scheme.plain.certificate := by
  obtain ⟨hdecided, hpublished⟩ := decisions_certified Deciding.run_trace
  obtain ⟨d, hd, hcommit⟩ :
      ∃ d ∈ Deciding.trace.decided, d.commit = Scheme.plain.certificate := by decide +kernel
  have hsaved : .save Scheme.plain.certificate ∈ Deciding.trace.effects := by decide +kernel
  exact ⟨⟨d, hd, hcommit, hdecided d hd⟩, hsaved, hpublished _ (.inr hsaved)⟩

end Node
end Conclave
