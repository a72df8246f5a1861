import Conclave.Proofs.Node.Archive
import Conclave.Proofs.Node.Network

/-!
# Independence of heights

Messages for different heights do not get in each other's way: in whichever order two of them
arrive, the answer to each is the same, and so is the node in the end (`heights_independent`).

The instances of a node share the height of the node, the archive and the capacity. What a message
does is told from the instance of its height alone (`exists_delivery`): that instance acts, and a
height and a decision may be put forward. Of two heights, and of two decisions of different heights,
the higher one is kept in either order (`higher_comm`); and instances of different heights act in
either order (`modifyInstance_comm`).
-/

namespace Conclave

variable {S : Scheme}

namespace Recent

variable {α : Type} {p q : α → Bool} {f g : α → α}

/-- Changes of different entries can be swapped. -/
theorem updateFirst_comm (hdisjoint : ∀ a, p a = true → ¬ q a = true)
    (hf : ∀ a, p (f a) = p a ∧ q (f a) = q a) (hg : ∀ a, p (g a) = p a ∧ q (g a) = q a)
    (l : List α) :
    updateFirst p f (updateFirst q g l) = updateFirst q g (updateFirst p f l) := by
  induction l with
  | nil => rfl
  | cons a l ih =>
    by_cases hp : p a = true
    · have hq := hdisjoint a hp
      rw [updateFirst, if_neg hq, updateFirst, if_pos hp, updateFirst, if_pos hp, updateFirst,
        if_neg ((hf a).2 ▸ hq)]
    · by_cases hq : q a = true
      · rw [updateFirst, if_pos hq, updateFirst, if_neg ((hg a).1 ▸ hp), updateFirst, if_neg hp,
          updateFirst, if_pos hq]
      · rw [updateFirst, if_neg hq, updateFirst, if_neg hp, updateFirst, if_neg hp, updateFirst,
          if_neg hq, ih]

end Recent

namespace Node

/-! ### What the instances share -/

/-- Of two entries the one of the greater height, the old one on ties. -/
def higher {α : Type} (height : α → Height) (old : Option α) : Option α → Option α
  | none => old
  | some b => if old.all fun a => height a < height b then some b else old

section Higher

variable {α : Type} {height : α → Height} {a b : α}

@[simp] theorem higher_none_some : higher height none (some b) = some b := rfl

theorem higher_some_some : higher height (some a) (some b) =
    if (height a).toNat < (height b).toNat then some b else some a := by
  simp only [higher, Option.all_some, decide_eq_true_eq, Height.lt_iff]

/-- A lower entry makes no difference before a higher one. -/
theorem higher_before (old : Option α) (hlt : (height a).toNat < (height b).toNat) :
    higher height (higher height old (some a)) (some b) = higher height old (some b) := by
  cases old with
  | none => rw [higher_none_some, higher_some_some, if_pos hlt, higher_none_some]
  | some c =>
    rw [higher_some_some]
    split
    · rw [higher_some_some, higher_some_some, if_pos hlt, if_pos (by omega)]
    · rfl

/-- Nor does it after one. -/
theorem higher_after (old : Option α) (hlt : (height a).toNat < (height b).toNat) :
    higher height (higher height old (some b)) (some a) = higher height old (some b) := by
  cases old with
  | none => rw [higher_none_some, higher_some_some, if_neg (by omega)]
  | some c =>
    rw [higher_some_some]
    split
    · rw [higher_some_some, if_neg (by omega)]
    · rw [higher_some_some, if_neg (by omega)]

/-- Two entries can be put forward in either order, unless they are different ones of one height. -/
theorem higher_comm (old : Option α) {x y : Option α}
    (h : ∀ a ∈ x, ∀ b ∈ y, height a = height b → a = b) :
    higher height (higher height old x) y = higher height (higher height old y) x := by
  cases x with
  | none => rfl
  | some a =>
    cases y with
    | none => rfl
    | some b =>
      rcases lt_trichotomy (height a).toNat (height b).toNat with hlt | heq | hlt
      · rw [higher_before old hlt, higher_after old hlt]
      · rw [h a rfl b rfl (Height.toNat_inj.1 heq)]
      · rw [higher_before old hlt, higher_after old hlt]

end Higher

theorem height_advanceTo_eq (n : Node S) (height : Height) :
    (n.advanceTo height).height = higher id n.height (some height) := by
  unfold advanceTo higher
  dsimp only [id]
  split <;> rfl

/-- On a disk that does not fail, an attempt to store a decision puts it forward. -/
theorem Attempt.of_reliable {seat : Seat S} {a b : Archive S} {height : Height}
    {m : SignedMessage S} {saves : List (SignedMessage S)} {answer : Except StorageError Unit}
    (h : Attempt seat .reliable a height m saves answer b) (hheight : m.height = height) :
    answer = .ok () ∧ b.stored? seat.identifier =
      higher SignedMessage.height (a.stored? seat.identifier) (some m) := by
  refine ⟨h.answer_eq_ok rfl fun _ _ => rfl, ?_⟩
  cases h with
  | unread hread => cases hread
  | lower hstored hle =>
    rw [Height.le_iff] at hle
    rw [hstored, higher_some_some, hheight, if_neg (by omega)]
  | unwritten hwrite => cases hwrite
  | saved hwrite habove =>
    rw [Archive.stored?_put]
    cases hstored : a.stored? seat.identifier with
    | none => rfl
    | some x =>
      have hlt := Height.lt_iff.1 (habove x hstored)
      rw [higher_some_some, hheight, if_pos hlt]

theorem noteSave_of_ok {o : Step S (Node S) StorageError Unit} (h : o.answer = .ok ()) :
    noteSave o = (o.state, []) := by
  unfold noteSave
  rw [h]

/-! ### Instances of different heights -/

/-- Instances of different heights can act in either order. -/
theorem modifyInstance_comm {f g : Instance S → Instance S} {height height' : Height} (n : Node S)
    (hf : ∀ s, (f s).height = s.height) (hg : ∀ s, (g s).height = s.height)
    (hne : height ≠ height') :
    (n.modifyInstance height' g).modifyInstance height f =
      (n.modifyInstance height f).modifyInstance height' g := by
  have hswap := Recent.updateFirst_comm (p := fun s : Instance S => s.height = height)
    (q := fun s => s.height = height') (f := f) (g := g) (fun s hs hs' => hne ?_)
    (fun s => ?_) (fun s => ?_) n.instances.entries
  · unfold modifyInstance Recent.update
    simp only [hswap]
  · exact (of_decide_eq_true hs).symm.trans (of_decide_eq_true hs')
  · simp only [hf, and_self]
  · simp only [hg, and_self]

/-! ### Deliveries -/

/-- What comes of a message: what the instance of its height does, the height that the node is told
of, the decision that is put forward to be stored, and the answer. -/
structure Delivery (S : Scheme) where
  act : Instance S → Instance S
  told : Option Height
  offered : Option (SignedMessage S)
  answer : Except Error (Option (Decided S))

/-- A delivery is about one height. -/
structure Delivery.Concerns (d : Delivery S) (height : Height) : Prop where
  act_height : ∀ s, (d.act s).height = s.height
  offered_height : ∀ commit ∈ d.offered, commit.height = height

/-- All that comes of a message to a node is a delivery, apart from the effects and the counts. -/
structure Delivers (seat : Seat S) (n : Node S) (height : Height) (d : Delivery S)
    (o : Step S (Node S) Error (Option (Decided S))) : Prop where
  answer_eq : o.answer = d.answer
  instances_eq : o.state.instances = (n.modifyInstance height d.act).instances
  height_eq : o.state.height = higher id n.height d.told
  stored_eq : o.state.archive.stored? seat.identifier =
    higher SignedMessage.height (n.archive.stored? seat.identifier) d.offered

section Deliveries

variable {seat : Seat S} {net : Network S} {n : Node S} {m : SignedMessage S}

theorem Delivers.countMessage {height : Height} {d : Delivery S}
    {o : Step S (Node S) Error (Option (Decided S))} (h : Delivers seat n height d o)
    (kind : MessageKind) : Delivers seat n height d (countMessage kind o) :=
  ⟨h.answer_eq, h.instances_eq, h.height_eq, h.stored_eq⟩

/-- A message that is refused comes to nothing. -/
theorem delivers_refuse (n : Node S) (height : Height) (e : Error) :
    Delivers seat n height ⟨id, none, none, .error e⟩ (.refuse n e) := by
  refine ⟨rfl, ?_, rfl, rfl⟩
  rw [modifyInstance_id]
  rfl

theorem concerns_refuse (height : Height) (e : Error) :
    (⟨id, none, none, .error e⟩ : Delivery S).Concerns height :=
  ⟨fun _ => rfl, nofun⟩

/-- The answer to a decided message that is applied. -/
def learnedAnswer (m : SignedMessage S) :
    Option (Instance S) → Except Error (Option (Decided S))
  | none => .ok none
  | some s => ((s.learn m).answer.mapError .rejected).map
      (Option.map fun decision => ⟨m.height, decision.value, decision.commit, []⟩)

theorem answer_applied_eq (n : Node S) (m : SignedMessage S) :
    (n.applied m []).answer = learnedAnswer m (n.instanceAt? m.height) := by
  unfold applied
  dsimp only
  rw [instanceAt?_congr (instances_advanceTo n m.height)]
  cases n.instanceAt? m.height with
  | none => rfl
  | some s =>
    obtain ⟨decision, hanswer⟩ := s.learn_answer m
    dsimp only
    rw [learnedAnswer, hanswer]
    cases decision with
    | none => rfl
    | some decision => rfl

/-- What a decided message comes to. -/
theorem exists_delivery_receiveDecided (seat : Seat S) (net : Network S) (m : SignedMessage S)
    (kept : Option (Instance S)) :
    ∃ d : Delivery S, d.Concerns m.height ∧ ∀ n : Node S, n.instanceAt? m.height = kept →
      Delivers seat n m.height d (n.receiveDecided seat ⟨net, .reliable⟩ m) := by
  cases hvalid : validateDecided seat m with
  | error e =>
    refine ⟨_, concerns_refuse m.height e, fun n _ => ?_⟩
    rw [receiveDecided_of_invalid hvalid]
    exact delivers_refuse n m.height e
  | ok _ =>
    refine ⟨⟨fun s => (s.learn m).state, some m.height, some m, learnedAnswer m kept⟩,
      ⟨fun s => Instance.step_height seat net s (.learn m), fun commit hcommit => ?_⟩,
      fun n hkept => ?_⟩
    · rw [Option.mem_some.1 hcommit]
    have halike := Alike.saveIfHighest seat .reliable n m.height m
    obtain ⟨hsaved, hstored⟩ :=
      (saveIfHighest_attempt seat .reliable n m.height m).of_reliable rfl
    rw [receiveDecided_of_read hvalid rfl]
    dsimp only
    rw [noteSave_of_ok hsaved]
    constructor
    · rw [Step.after, answer_applied_eq, halike.instanceAt?_eq, hkept]
    · exact (instances_applied _ m []).trans (congrArg (Recent.update · _ _) halike.instances_eq)
    · rw [← height_advanceTo_eq]
      exact (height_applied _ m []).trans (halike.advanceTo m.height).height_eq
    · exact (congrArg (Archive.stored? · _) (archive_applied _ m [])).trans hstored

/-- A decision of an instance is put forward and announced. -/
theorem conclude_reliable (seat : Seat S) (net : Network S) (n : Node S) {height : Height}
    {decision : Decision S} (hheight : decision.commit.height = height) :
    (n.conclude seat ⟨net, .reliable⟩ height decision).answer =
        .ok (some ⟨height, decision.value, decision.commit,
          net.unannounced [.announce decision.commit]⟩) ∧
      (n.conclude seat ⟨net, .reliable⟩ height decision).state.archive.stored? seat.identifier =
        higher SignedMessage.height (n.archive.stored? seat.identifier) (some decision.commit) := by
  obtain ⟨hsaved, hstored⟩ := (saveIfHighest_attempt seat .reliable
    { n with metrics := n.metrics.decided decision.commit.round } height
    decision.commit).of_reliable hheight
  have hannounced : announcedBy [Effect.announce decision.commit] = [decision.commit] := rfl
  unfold conclude
  dsimp only
  rw [noteSave_of_ok hsaved, archive_noteAnnouncement]
  refine ⟨?_, hstored⟩
  rw [(noteAnnouncement_eq net hannounced (.refl _) []).2, List.nil_append]

/-- What a message to the instance of its height comes to. -/
theorem exists_delivery_receivePlain (seat : Seat S) (net : Network S) (m : SignedMessage S)
    (kept : Option (Instance S)) (hkept : ∀ s ∈ kept, Instance.Reachable seat m.height s) :
    ∃ d : Delivery S, d.Concerns m.height ∧ ∀ n : Node S, n.instanceAt? m.height = kept →
      Delivers seat n m.height d (n.receivePlain seat ⟨net, .reliable⟩ m) := by
  by_cases hidentifier : m.identifier ≠ seat.identifier
  · refine ⟨_, concerns_refuse m.height .wrongIdentifier, fun n _ => ?_⟩
    rw [receivePlain, if_pos hidentifier]
    exact delivers_refuse n m.height _
  cases kept with
  | none =>
    refine ⟨_, concerns_refuse m.height (.instanceNotFound m.height), fun n hnone => ?_⟩
    rw [receivePlain, if_neg hidentifier, hnone]
    exact delivers_refuse n m.height _
  | some s =>
    have hact : ∀ s : Instance S, (s.receive seat net m).state.height = s.height := fun s =>
      Instance.step_height seat net s (.receive m)
    have hset : ∀ {n : Node S}, n.instanceAt? m.height = some s →
        (n.setInstance m.height (s.receive seat net m).state).instances =
          (n.modifyInstance m.height fun s => (s.receive seat net m).state).instances :=
      fun hs => congrArg Node.instances
        (setInstance_eq_modifyInstance hs fun s => (s.receive seat net m).state)
    cases hanswer : (s.receive seat net m).answer with
    | error e =>
      refine ⟨⟨fun s => (s.receive seat net m).state, none, none, .error (.rejected e)⟩,
        ⟨hact, nofun⟩, fun n hs => ?_⟩
      rw [receivePlain, if_neg hidentifier, hs]
      dsimp only
      rw [hanswer]
      exact ⟨rfl, hset hs, rfl, rfl⟩
    | ok decision =>
      cases decision with
      | none =>
        refine ⟨⟨fun s => (s.receive seat net m).state, none, none, .ok none⟩,
          ⟨hact, nofun⟩, fun n hs => ?_⟩
        rw [receivePlain, if_neg hidentifier, hs]
        dsimp only
        rw [hanswer]
        exact ⟨rfl, hset hs, rfl, rfl⟩
      | some decision =>
        have hcertified : Instance.Certified seat m.height decision.value decision.commit := by
          refine (hkept s rfl).sound.certified net (e := .receive m) trivial ?_
          rw [Instance.step, hanswer]
          exact List.mem_singleton_self _
        refine ⟨⟨fun s => (s.receive seat net m).state, none, some decision.commit,
          .ok (some ⟨m.height, decision.value, decision.commit,
            net.unannounced [.announce decision.commit]⟩)⟩, ⟨hact, fun commit hcommit => ?_⟩,
          fun n hs => ?_⟩
        · rw [← Option.mem_some.1 hcommit]
          exact hcertified.height_eq
        have halike := Alike.conclude seat ⟨net, .reliable⟩
          (n.setInstance m.height (s.receive seat net m).state) m.height decision
        obtain ⟨hdecided, hstored⟩ := conclude_reliable seat net
          (n.setInstance m.height (s.receive seat net m).state) hcertified.height_eq
        rw [receivePlain, if_neg hidentifier, hs]
        dsimp only
        rw [hanswer]
        exact ⟨hdecided, halike.instances_eq.trans (hset hs), halike.height_eq, hstored⟩

/-- What a message comes to is told from the instance of its height. -/
theorem exists_delivery (seat : Seat S) (net : Network S) (m : SignedMessage S)
    (kept : Option (Instance S)) (hkept : ∀ s ∈ kept, Instance.Reachable seat m.height s) :
    ∃ d : Delivery S, d.Concerns m.height ∧ ∀ n : Node S, n.instanceAt? m.height = kept →
      Delivers seat n m.height d (n.receive seat ⟨net, .reliable⟩ m) := by
  by_cases hkind : messageKind seat.committee m = .decided
  · obtain ⟨d, hconcerns, hdelivers⟩ := exists_delivery_receiveDecided seat net m kept
    refine ⟨d, hconcerns, fun n hn => ?_⟩
    rw [receive_of_decided hkind]
    exact (hdelivers n hn).countMessage _
  · obtain ⟨d, hconcerns, hdelivers⟩ := exists_delivery_receivePlain seat net m kept hkept
    refine ⟨d, hconcerns, fun n hn => ?_⟩
    rw [receive_of_plain hkind]
    exact (hdelivers n hn).countMessage _

end Deliveries

/-! ### Two messages -/

/-- A delivery of one height leaves the instances of the others as they are. -/
theorem Delivers.instanceAt?_of_ne {seat : Seat S} {n : Node S} {height height' : Height}
    {d : Delivery S} {o : Step S (Node S) Error (Option (Decided S))}
    (h : Delivers seat n height d o) (hd : d.Concerns height) (hne : height' ≠ height) :
    o.state.instanceAt? height' = n.instanceAt? height' := by
  rw [instanceAt?_congr h.instances_eq, instanceAt?_modifyInstance_of_ne hd.act_height hne]

/-- The entries of a node, of which that of one height may have changed. -/
theorem forall₂_modifyInstance {f : Instance S → Instance S} (n : Node S) (height : Height)
    (hf : ∀ s, (f s).height = s.height) :
    List.Forall₂ (fun s t => t.height = s.height ∧ (s.height ≠ height → t = s))
      n.instances.entries (n.modifyInstance height f).instances.entries := by
  cases hs : n.instanceAt? height with
  | none =>
    rw [modifyInstance_of_none hs]
    exact List.forall₂_same.2 fun _ _ => ⟨rfl, fun _ => rfl⟩
  | some s =>
    refine Recent.forall₂_updateFirst (fun _ => ⟨rfl, fun _ => rfl⟩) hs ⟨hf s, fun hne => ?_⟩
    exact absurd (height_of_instanceAt? hs) hne

/-- Two deliveries of different heights can be swapped. -/
theorem Delivers.swap {seat : Seat S} {n : Node S} {height height' : Height} {d d' : Delivery S}
    {first second first' second' : Step S (Node S) Error (Option (Decided S))}
    (hd : d.Concerns height) (hd' : d'.Concerns height') (hne : height ≠ height')
    (hfirst : Delivers seat n height d first)
    (hsecond : Delivers seat first.state height' d' second)
    (hfirst' : Delivers seat n height' d' first')
    (hsecond' : Delivers seat first'.state height d second') :
    second.state.height = second'.state.height ∧
      second.state.instances = second'.state.instances ∧
      second.state.archive.stored? seat.identifier =
        second'.state.archive.stored? seat.identifier := by
  refine ⟨?_, ?_, ?_⟩
  · rw [hsecond.height_eq, hfirst.height_eq, hsecond'.height_eq, hfirst'.height_eq]
    exact higher_comm n.height fun _ _ _ _ heq => heq
  · rw [hsecond.instances_eq, hsecond'.instances_eq]
    have hswap := modifyInstance_comm n hd'.act_height hd.act_height hne.symm
    calc (first.state.modifyInstance height' d'.act).instances
        = ((n.modifyInstance height d.act).modifyInstance height' d'.act).instances :=
          congrArg (Recent.update · _ _) hfirst.instances_eq
      _ = ((n.modifyInstance height' d'.act).modifyInstance height d.act).instances :=
          congrArg Node.instances hswap
      _ = (first'.state.modifyInstance height d.act).instances :=
          congrArg (Recent.update · _ _) hfirst'.instances_eq.symm
  · rw [hsecond.stored_eq, hfirst.stored_eq, hsecond'.stored_eq, hfirst'.stored_eq]
    refine higher_comm _ fun a ha b hb heq => absurd ?_ hne
    rw [← hd.offered_height a ha, ← hd'.offered_height b hb, heq]

/-- Two messages for different heights, received in either order by a node whose disk does not fail:
the answer to each is the same, and in the end the height of the node, its instances in their order
and the stored decision are. A message changes no instance but that of its height. -/
theorem heights_independent (seat : Seat S) (capacity : ℕ) (archive : Archive S)
    (past : List (Call S)) (net : Network S) {m m' : SignedMessage S} (hne : m.height ≠ m'.height) :
    let env : Surroundings S := ⟨net, .reliable⟩
    let n := play seat (new capacity archive) past
    let first := n.receive seat env m
    let second := first.state.receive seat env m'
    let first' := n.receive seat env m'
    let second' := first'.state.receive seat env m
    (first.answer = second'.answer ∧ second.answer = first'.answer) ∧
      (second.state.height = second'.state.height ∧
        second.state.instances = second'.state.instances ∧
        second.state.archive.stored? seat.identifier =
          second'.state.archive.stored? seat.identifier) ∧
      List.Forall₂ (fun s t => t.height = s.height ∧ (s.height ≠ m.height → t = s))
        n.instances.entries first.state.instances.entries := by
  intro env n first second first' second'
  have hreachable : ∀ height, ∀ s ∈ n.instanceAt? height, Instance.Reachable seat height s := by
    obtain ⟨t, ht, hstate⟩ := exists_run seat capacity archive past
    intro height s hs
    refine ht.consistent.reachable ?_
    rw [hstate]
    exact hs
  obtain ⟨d, hd, hdelivers⟩ := exists_delivery seat net m _ (hreachable m.height)
  obtain ⟨d', hd', hdelivers'⟩ := exists_delivery seat net m' _ (hreachable m'.height)
  have hfirst : Delivers seat n m.height d first := hdelivers n rfl
  have hfirst' : Delivers seat n m'.height d' first' := hdelivers' n rfl
  have hsecond : Delivers seat first.state m'.height d' second :=
    hdelivers' first.state (hfirst.instanceAt?_of_ne hd hne.symm)
  have hsecond' : Delivers seat first'.state m.height d second' :=
    hdelivers first'.state (hfirst'.instanceAt?_of_ne hd' hne)
  refine ⟨⟨?_, ?_⟩, hfirst.swap hd hd' hne hsecond hfirst' hsecond', ?_⟩
  · exact hfirst.answer_eq.trans hsecond'.answer_eq.symm
  · exact hsecond.answer_eq.trans hfirst'.answer_eq.symm
  · rw [hfirst.instances_eq]
    exact forall₂_modifyInstance n m.height hd.act_height

namespace Independence

open Scheme

/-- Member 1 has started the first height and has received the proposal. -/
def accepted : List (Call plain) :=
  [.start plain.value, .receive (plain.message 1 (.propose plain.value [] []))].map
    (Call.mk (.reliable plain))

/-- A commit of a member for the second height. -/
def laterCommit (id : UInt64) : SignedMessage plain :=
  plain.signed id plain.seat.identifier ⟨1⟩ Round.first (.commit plain.value.root)

/-- The commit of a quorum for the second height. -/
def laterCertificate : SignedMessage plain where
  message := (laterCommit 1).message
  signers := [⟨1⟩, ⟨2⟩, ⟨3⟩]
  signatures := [1, 2, 3].flatMap fun id => (laterCommit id).signatures

end Independence

/-- The decision of the second height comes before or after that of the first one, which the member
has not decided: it decides in either case, and the later decision is the one that is stored. -/
theorem later_certificate_stored :
    let env : Surroundings Scheme.plain := ⟨.reliable _, .reliable⟩
    let n := play Scheme.plain.seat (new 2 .empty) Independence.accepted
    let first := n.receive Scheme.plain.seat env Scheme.plain.certificate
    let second := first.state.receive Scheme.plain.seat env Independence.laterCertificate
    let first' := n.receive Scheme.plain.seat env Independence.laterCertificate
    let second' := first'.state.receive Scheme.plain.seat env Scheme.plain.certificate
    Scheme.plain.certificate.height ≠ Independence.laterCertificate.height ∧
      second'.answer =
        .ok (some ⟨Height.first, Scheme.plain.value, Scheme.plain.certificate, []⟩) ∧
      second'.state.height = some ⟨1⟩ ∧ second.state.instances = second'.state.instances ∧
      second'.state.archive.stored? Scheme.plain.seat.identifier =
        some Independence.laterCertificate := by
  have hne : Scheme.plain.certificate.height ≠ Independence.laterCertificate.height := by decide
  obtain ⟨⟨hanswer, -⟩, ⟨hheight, hinstances, hstored⟩, -⟩ :=
    heights_independent Scheme.plain.seat 2 .empty Independence.accepted (.reliable _) hne
  refine ⟨hne, hanswer.symm.trans ?_, hheight.symm.trans ?_, hinstances, hstored.symm.trans ?_⟩
  · decide +kernel
  · decide +kernel
  · decide +kernel

end Node
end Conclave
