import Conclave.Proofs.Instance.Votes
import Conclave.Proofs.PlainScheme

/-!
# The order of the votes of one member

In which order a member signs its messages, over any run of one instance. `Follows` says what each
message keeps to, given what was sent before it; `Chained` are the histories all of whose messages
keep to it. Every turn extends such a history to another one: a disciplined member is never ahead of
its round, and the accepted proposal and the last preparation tell the rest (`Orderly`).

What this means for the whole history is `votes_in_order`: no vote is cast twice in a round, none is
cast behind a round change, and every round change tells of the last vote to commit.
-/

namespace Conclave
namespace Instance

variable {S : Scheme}

/-! ### Histories -/

/-- The last vote to commit among messages, as a preparation: none is in a higher round. -/
def LastCommit (sent : List (SignedMessage S)) : Option (Prepared S) → Prop
  | none => ∀ x ∈ sent, x.type ≠ .commit
  | some p =>
    (∃ x ∈ sent, x.type = .commit ∧ x.round = p.round ∧
      x.message.valueRoot? = some p.value.root) ∧
    ∀ x ∈ sent, x.type = .commit → x.round.toNat ≤ p.round.toNat

/-- What a message keeps to, given what was sent before it. -/
structure Follows (before : List (SignedMessage S)) (m : SignedMessage S) : Prop where
  /-- It is the first of its kind in its round, unless it is a proposal. -/
  first : m.type ≠ .propose → ∀ x ∈ before, x.type = m.type → x.round ≠ m.round
  /-- A vote to commit comes after the vote to prepare. -/
  prepared : m.type = .commit → ∃ x ∈ before, x.type = .prepare ∧ x.round = m.round ∧
    x.message.valueRoot? = m.message.valueRoot?
  /-- A vote does not fall behind a round change. -/
  forward : m.type = .prepare ∨ m.type = .commit → ∀ x ∈ before, x.type = .roundChange →
    x.round.toNat ≤ m.round.toNat
  /-- A round change reports the last vote to commit. -/
  reports : m.type = .roundChange → LastCommit before m.message.prepared?

/-- The histories in which every message keeps to what was sent before it. -/
inductive Chained : List (SignedMessage S) → Prop
  | nil : Chained []
  | concat {before : List (SignedMessage S)} {m : SignedMessage S} (h : Chained before)
      (hm : Follows before m) : Chained (before ++ [m])

section Histories

variable {sent before after : List (SignedMessage S)} {m : SignedMessage S}

/-- More messages, none of which is a vote to commit, leave the last one as it is. -/
theorem LastCommit.append {last : Option (Prepared S)} (h : LastCommit sent last)
    (hafter : ∀ x ∈ after, x.type ≠ .commit) : LastCommit (sent ++ after) last := by
  cases last with
  | none =>
    intro x hx
    rcases List.mem_append.1 hx with hx | hx
    · exact h x hx
    · exact hafter x hx
  | some p =>
    obtain ⟨⟨c, hc, hcommit⟩, hle⟩ := h
    refine ⟨⟨c, List.mem_append_left after hc, hcommit⟩, fun x hx htype => ?_⟩
    rcases List.mem_append.1 hx with hx | hx
    · exact hle x hx htype
    · exact absurd htype (hafter x hx)

theorem follows_of_propose (h : m.type = .propose) : Follows before m where
  first hne := absurd h hne
  prepared htype := by rw [h] at htype; cases htype
  forward htype := by rw [h] at htype; rcases htype with htype | htype <;> cases htype
  reports htype := by rw [h] at htype; cases htype

theorem Chained.append_proposes (h : Chained sent) (hafter : ∀ x ∈ after, x.type = .propose) :
    Chained (sent ++ after) := by
  induction after generalizing sent with
  | nil => rwa [List.append_nil]
  | cons x after ih =>
    obtain ⟨hx, hafter⟩ := List.forall_mem_cons.1 hafter
    rw [List.append_cons]
    exact ih (h.concat (follows_of_propose hx)) hafter

/-- Each message of the history keeps to what was sent before it. -/
theorem Chained.follows (h : Chained sent) (hsent : sent = before ++ m :: after) :
    Follows before m := by
  induction h generalizing after with
  | nil => simp at hsent
  | @concat init x _ hx ih =>
    -- the message is the last one, or one of those before
    rcases List.eq_nil_or_concat after with rfl | ⟨after, y, rfl⟩
    · obtain ⟨rfl, heq⟩ := List.append_inj' hsent rfl
      obtain rfl := List.singleton_inj.1 heq
      exact hx
    · rw [List.concat_eq_append, ← List.cons_append, ← List.append_assoc] at hsent
      exact ih (List.append_inj' hsent rfl).1

/-- Nothing but proposals is sent twice in a round. -/
theorem Chained.countP_le_one (h : Chained sent) {type : MessageType} (htype : type ≠ .propose)
    (round : Round) : sent.countP (fun m => m.type = type ∧ m.round = round) ≤ 1 := by
  induction h with
  | nil => exact Nat.zero_le 1
  | @concat before m _ hm ih =>
    rw [List.countP_append, List.countP_singleton]
    split
    · rename_i heq
      obtain ⟨rfl, rfl⟩ := of_decide_eq_true heq
      have hzero : before.countP (fun x => x.type = m.type ∧ x.round = m.round) = 0 := by
        refine List.countP_eq_zero.2 fun x hx hsame => ?_
        obtain ⟨hxtype, hxround⟩ := of_decide_eq_true hsame
        exact hm.first htype x hx hxtype hxround
      rw [hzero]
    · exact ih

end Histories

/-! ### What the state tells about the history -/

/-- A vote is for a value. -/
theorem exists_valueRoot?_of_vote {m : SignedMessage S}
    (h : m.type = .prepare ∨ m.type = .commit) : ∃ root, m.message.valueRoot? = some root := by
  cases hbody : m.message.body with
  | prepare root => exact ⟨root, by simp only [Message.valueRoot?, hbody]⟩
  | commit root => exact ⟨root, by simp only [Message.valueRoot?, hbody]⟩
  | propose value roundChanges prepares =>
    simp [SignedMessage.type, Message.type, hbody] at h
  | roundChange prepared prepares =>
    simp [SignedMessage.type, Message.type, hbody] at h

namespace Disciplined

variable {height : Height} {t : Trace S} {m : SignedMessage S}

/-- No vote and no round change is ahead of the current round. -/
theorem round_le (h : Disciplined height t) (hm : m ∈ t.sent) (hne : m.type ≠ .propose) :
    m.round.toNat ≤ t.state.round.toNat := by
  cases htype : m.type with
  | propose => exact absurd htype hne
  | prepare =>
    obtain ⟨root, hroot⟩ := exists_valueRoot?_of_vote (.inl htype)
    exact h.prepare_le ⟨m, hm, htype, rfl, hroot⟩
  | commit =>
    obtain ⟨root, hroot⟩ := exists_valueRoot?_of_vote (.inr htype)
    exact h.commit_le_round ⟨m, hm, htype, rfl, hroot⟩
  | roundChange => exact h.asked_le ⟨m, hm, htype, rfl, rfl⟩

/-- A vote to prepare in the current round is for an accepted proposal. -/
theorem accepted_of_prepare (h : Disciplined height t) (hm : m ∈ t.sent) (htype : m.type = .prepare)
    (hround : m.round = t.state.round) : t.state.accepted ≠ none := by
  obtain ⟨root, hroot⟩ := exists_valueRoot?_of_vote (.inl htype)
  obtain ⟨proposal, haccepted, -⟩ := h.prepare_current ⟨m, hm, htype, hround, hroot⟩
  rw [haccepted]
  exact Option.some_ne_none proposal

/-- The first vote to prepare since the round was entered. -/
theorem follows_prepare (h : Disciplined height t) (htype : m.type = .prepare)
    (hle : t.state.round.toNat ≤ m.round.toNat)
    (hopen : m.round = t.state.round → t.state.accepted = none) : Follows t.sent m where
  first _ x hx hxtype hxround := by
    rw [htype] at hxtype
    have hxle := h.round_le hx (by rw [hxtype]; decide)
    rw [hxround] at hxle
    have hcurrent : m.round = t.state.round := Round.toNat_inj.1 (le_antisymm hxle hle)
    exact h.accepted_of_prepare hx hxtype (hxround.trans hcurrent) (hopen hcurrent)
  prepared hcommit := by rw [htype] at hcommit; cases hcommit
  forward _ x hx hxtype := (h.round_le hx (by rw [hxtype]; decide)).trans hle
  reports hchange := by rw [htype] at hchange; cases hchange

end Disciplined

/-- The history of a run is in order, and the state of the instance tells where it stands. -/
structure Orderly (t : Trace S) : Prop where
  chained : Chained t.sent
  /-- The accepted value was prepared in the current round. -/
  voted : ∀ {value}, t.state.acceptedValue? = some value →
    t.Voted .prepare t.state.round value.root
  /-- The last preparation is the last vote to commit. -/
  last : LastCommit t.sent t.state.prepared
  /-- A preparation in the current round is of the accepted value. -/
  current : ∀ {p}, t.state.prepared = some p → p.round = t.state.round →
    t.state.acceptedValue? = some p.value

namespace Orderly

variable {height : Height} {t : Trace S} {effects : List (Effect S)}
  {decisions : List (Decision S)} {u : Instance S} {m : SignedMessage S}

theorem new (height : Height) : Orderly (.new height : Trace S) where
  chained := .nil
  voted := nofun
  last := nofun
  current := nofun

/-- A vote to commit to the accepted value, which is not prepared in this round yet. -/
theorem follows_commit (h : Orderly t) (hd : Disciplined height t) {value : Value S}
    (htype : m.type = .commit) (hround : m.round = t.state.round)
    (hvalue : t.state.acceptedValue? = some value)
    (hroot : m.message.valueRoot? = some value.root)
    (hfirst : t.state.prepared ≠ some ⟨m.round, value⟩) : Follows t.sent m where
  first _ x hx hxtype hxround := by
    rw [htype] at hxtype
    have hlast := h.last
    cases hp : t.state.prepared with
    | none =>
      rw [hp] at hlast
      exact hlast x hx hxtype
    -- an earlier vote in this round means that the accepted value was prepared in it
    | some p =>
      rw [hp] at hlast
      have hxle := hlast.2 x hx hxtype
      rw [hxround, hround] at hxle
      have hpround : p.round = t.state.round :=
        Round.toNat_inj.1 (le_antisymm (hd.prepared_le hp) hxle)
      have hpvalue := h.current hp hpround
      rw [hvalue, Option.some.injEq] at hpvalue
      refine hfirst (hp.trans ?_)
      rw [hround, ← hpround, hpvalue]
  prepared _ := by
    obtain ⟨x, hx, hxtype, hxround, hxroot⟩ := h.voted hvalue
    exact ⟨x, hx, hxtype, hxround.trans hround.symm, hxroot.trans hroot.symm⟩
  forward _ x hx hxtype := by
    rw [hround]
    exact hd.round_le hx (by rw [hxtype]; decide)
  reports hchange := by rw [htype] at hchange; cases hchange

/-- A round change for a higher round that reports the last preparation. -/
theorem follows_roundChange (h : Orderly t) (hd : Disciplined height t)
    (htype : m.type = .roundChange) (hlt : t.state.round.toNat < m.round.toNat)
    (hreport : m.message.prepared? = t.state.prepared) : Follows t.sent m where
  first _ x hx hxtype hxround := by
    have hxle := hd.round_le hx (by rw [hxtype, htype]; decide)
    rw [hxround] at hxle
    omega
  prepared hcommit := by rw [htype] at hcommit; cases hcommit
  forward hvote := by rw [htype] at hvote; rcases hvote with hvote | hvote <;> cases hvote
  reports _ := hreport ▸ h.last

/-- Moves that send nothing but proposals and stay in the round. -/
theorem rest (h : Orderly t) (hsent : ∀ m ∈ sentBy effects, m.type = .propose)
    (hround : u.round = t.state.round) (haccepted : u.accepted = t.state.accepted)
    (hprepared : u.prepared = t.state.prepared) : Orderly (t.after effects decisions u) where
  chained := h.chained.append_proposes hsent
  voted {value} hvalue := by
    rw [Trace.state_after, acceptedValue?, haccepted] at hvalue
    obtain ⟨x, hx, hvote⟩ := h.voted hvalue
    rw [Trace.state_after, hround]
    exact ⟨x, List.mem_append_left _ hx, hvote⟩
  last := by
    rw [Trace.state_after, hprepared]
    refine h.last.append fun x hx => ?_
    rw [hsent x hx]
    decide
  current {p} hp hcurrent := by
    rw [Trace.state_after, acceptedValue?, haccepted]
    exact h.current (hprepared ▸ hp) (hcurrent.trans hround)

/-- Accepting the first proposal of a round, with a vote to prepare its value. -/
theorem accept (h : Orderly t) (hd : Disciplined height t) {vote proposal : SignedMessage S}
    {value : Value S} (hsent : sentBy effects = [vote])
    (hfresh : proposal.round = t.state.round ∧ t.state.accepted = none ∨
      t.state.round.toNat < proposal.round.toNat)
    (hvalue : proposal.message.value? = some value)
    (hbody : vote.message.body = .prepare value.root) (hvote : vote.round = proposal.round)
    (hround : u.round = proposal.round) (haccepted : u.accepted = some proposal)
    (hprepared : u.prepared = t.state.prepared) : Orderly (t.after effects decisions u) := by
  have htype : vote.type = .prepare := by
    simp only [SignedMessage.type, Message.type, hbody]
  have hle : t.state.round.toNat ≤ proposal.round.toNat := by
    rcases hfresh with ⟨heq, -⟩ | hlt
    · rw [heq]
    · exact hlt.le
  have hopen : proposal.round = t.state.round → t.state.accepted = none := by
    intro heq
    rcases hfresh with ⟨-, hopen⟩ | hlt
    · exact hopen
    · rw [heq] at hlt
      exact absurd hlt (lt_irrefl _)
  constructor
  · rw [Trace.sent_after_singleton hsent]
    exact h.chained.concat (hd.follows_prepare htype (hvote ▸ hle) (hvote ▸ hopen))
  · intro v hv
    rw [Trace.state_after, acceptedValue?, haccepted] at hv
    obtain rfl : value = v := Option.some.inj (hvalue.symm.trans hv)
    refine ⟨vote, (Trace.mem_sent_after_singleton hsent).2 (.inr rfl), htype,
      hvote.trans hround.symm, ?_⟩
    simp only [Message.valueRoot?, hbody]
  · rw [Trace.sent_after_singleton hsent, Trace.state_after, hprepared]
    refine h.last.append fun x hx => ?_
    rw [List.mem_singleton.1 hx, htype]
    decide
  · intro p hp hcurrent
    -- what is prepared in the current round was accepted there
    have hp : t.state.prepared = some p := hprepared ▸ hp
    have hcurrent : p.round = proposal.round := hcurrent.trans hround
    have heq : proposal.round = t.state.round :=
      Round.toNat_inj.1 (le_antisymm (hcurrent ▸ hd.prepared_le hp) hle)
    have hold := h.current hp (hcurrent.trans heq)
    rw [acceptedValue?, hopen heq] at hold
    cases hold

/-- Preparing the accepted value for the first time in its round, with a vote to commit to it. -/
theorem commit (h : Orderly t) (hd : Disciplined height t) {vote proposal : SignedMessage S}
    {value : Value S} (hsent : sentBy effects = [vote])
    (hproposal : t.state.accepted = some proposal) (hvalue : proposal.message.value? = some value)
    (hbody : vote.message.body = .commit value.root) (hvote : vote.round = proposal.round)
    (hfirst : t.state.prepared ≠ some ⟨vote.round, value⟩) (hround : u.round = t.state.round)
    (haccepted : u.accepted = t.state.accepted)
    (hprepared : u.prepared = some ⟨vote.round, value⟩) :
    Orderly (t.after effects decisions u) := by
  have htype : vote.type = .commit := by
    simp only [SignedMessage.type, Message.type, hbody]
  have hroot : vote.message.valueRoot? = some value.root := by
    simp only [Message.valueRoot?, hbody]
  have hcurrent : vote.round = t.state.round := hvote.trans (hd.accepted_round hproposal)
  have hacceptedValue : t.state.acceptedValue? = some value := by
    rw [acceptedValue?, hproposal]
    exact hvalue
  constructor
  · rw [Trace.sent_after_singleton hsent]
    exact h.chained.concat (h.follows_commit hd htype hcurrent hacceptedValue hroot hfirst)
  · intro v hv
    rw [Trace.state_after, acceptedValue?, haccepted] at hv
    obtain ⟨x, hx, hxvote⟩ := h.voted hv
    rw [Trace.state_after, hround]
    exact ⟨x, (Trace.mem_sent_after_singleton hsent).2 (.inl hx), hxvote⟩
  · rw [Trace.sent_after_singleton hsent, Trace.state_after, hprepared]
    refine ⟨⟨vote, List.mem_append_right _ (List.mem_singleton_self vote), htype, rfl, hroot⟩,
      fun x hx hxtype => ?_⟩
    rw [List.mem_append, List.mem_singleton] at hx
    rcases hx with hx | rfl
    · rw [hcurrent]
      exact hd.round_le hx (by rw [hxtype]; decide)
    · exact le_rfl
  · intro p hp hpround
    rw [Trace.state_after, hprepared, Option.some.injEq] at hp
    rw [← hp, Trace.state_after, acceptedValue?, haccepted]
    exact hacceptedValue

/-- Entering a higher round, perhaps with a round change. -/
theorem advance (h : Orderly t) (hd : Disciplined height t) (hsent : sentBy effects = [m])
    (hm : m.type = .propose ∨ m.type = .roundChange ∧ m.round = u.round ∧
      m.message.prepared? = t.state.prepared)
    (hround : t.state.round.toNat < u.round.toNat) (haccepted : u.accepted = none)
    (hprepared : u.prepared = t.state.prepared) : Orderly (t.after effects decisions u) := by
  constructor
  · rw [Trace.sent_after_singleton hsent]
    refine h.chained.concat ?_
    rcases hm with htype | ⟨htype, hmround, hreport⟩
    · exact follows_of_propose htype
    · exact h.follows_roundChange hd htype (hmround ▸ hround) hreport
  · intro v hv
    rw [Trace.state_after, acceptedValue?, haccepted] at hv
    cases hv
  · rw [Trace.sent_after_singleton hsent, Trace.state_after, hprepared]
    refine h.last.append fun x hx hcommit => ?_
    rw [List.mem_singleton.1 hx] at hcommit
    rcases hm with htype | ⟨htype, -⟩
    · rw [htype] at hcommit
      cases hcommit
    · rw [htype] at hcommit
      cases hcommit
  · intro p hp hcurrent
    have hple := hd.prepared_le (hprepared ▸ hp)
    rw [hcurrent, Trace.state_after] at hple
    omega

/-- Every turn keeps the history in order. -/
theorem turn (h : Orderly t) (hd : Disciplined height t) (hturn : Turn t.state (sentBy effects) u) :
    Orderly (t.after effects decisions u) := by
  generalize hsent : sentBy effects = sent at hturn
  cases hturn with
  | rest hall hround haccepted hprepared =>
    exact h.rest (hsent ▸ hall) hround haccepted hprepared
  | accept hfresh hvalue hbody hvote hround haccepted hprepared =>
    exact h.accept hd hsent hfresh hvalue hbody hvote hround haccepted hprepared
  | commit hproposal hvalue hbody hvote hfirst hround haccepted hprepared =>
    exact h.commit hd hsent hproposal hvalue hbody hvote hfirst hround haccepted hprepared
  | advance hround haccepted hprepared hm =>
    exact h.advance hd hsent hm hround haccepted hprepared

end Orderly

section Runs

variable {seat : Seat S} {height : Height} {t : Trace S}

/-- Every run is in order. -/
theorem Run.orderly (h : Run seat height t) : Orderly t := by
  have hall : Disciplined height t ∧ Orderly t := by
    refine Run.induct (P := fun t => Disciplined height t ∧ Orderly t)
      ⟨Disciplined.new height, Orderly.new height⟩ ?_ h
    rintro t e effects decision u ⟨hd, ho⟩ hmove
    exact ⟨hd.turn hmove.turn.1 hmove.turn.2, ho.turn hd hmove.turn.2⟩
  exact hall.2

/-- Over any run, a member casts each vote once in a round and asks for a round once. A vote to
commit comes after the vote to prepare the value in the round. After a round change for a round no
vote below it is cast, and the round change reports the last vote to commit before it. -/
theorem votes_in_order (h : Run seat height t) :
    (∀ type, type ≠ .propose → ∀ round,
      t.sent.countP (fun m => m.type = type ∧ m.round = round) ≤ 1) ∧
    ∀ before m after, t.sent = before ++ m :: after →
      (m.type = .commit → ∃ x ∈ before, x.type = .prepare ∧ x.round = m.round ∧
        x.message.valueRoot? = m.message.valueRoot?) ∧
      (m.type = .roundChange → LastCommit before m.message.prepared? ∧
        ∀ x ∈ after, x.type = .prepare ∨ x.type = .commit → m.round.toNat ≤ x.round.toNat) := by
  have hchained := h.orderly.chained
  refine ⟨fun type htype round => hchained.countP_le_one htype round,
    fun before m after hsent => ⟨(hchained.follows hsent).prepared, fun htype =>
      ⟨(hchained.follows hsent).reports htype, fun x hx hvote => ?_⟩⟩⟩
  obtain ⟨between, rest, rfl⟩ := List.append_of_mem hx
  have hsent : t.sent = (before ++ m :: between) ++ x :: rest := by
    rw [hsent, List.append_assoc, List.cons_append]
  refine (hchained.follows hsent).forward hvote m ?_ htype
  exact List.mem_append_right before List.mem_cons_self

end Runs

/-! ### A member that votes and gives up the round -/

namespace GivingUp

open Scheme

/-- Member 1 proposes and prepares with a quorum; then the round times out. -/
def schedule : List (Event plain) :=
  .start plain.value :: plain.preparation.map .receive ++ [.timeout Round.first]

/-- What becomes of it. -/
def trace : Trace plain := (Trace.new Height.first).play plain.seat schedule

end GivingUp

/-- The member that gives up the round has prepared and committed in it once, and tells of this when
it asks for the next one. -/
theorem votes_of_giving_up :
    GivingUp.trace.sent.map SignedMessage.type = [.propose, .prepare, .commit, .roundChange] ∧
      GivingUp.trace.sent.countP (fun m => m.type = .commit ∧ m.round = Round.first) ≤ 1 ∧
      ∀ before m after, GivingUp.trace.sent = before ++ m :: after →
        m.type = .roundChange → LastCommit before m.message.prepared? := by
  have hrun : Run Scheme.plain.seat Height.first GivingUp.trace := Run.new.play _
  obtain ⟨hcount, horder⟩ := votes_in_order hrun
  refine ⟨by decide +kernel, hcount .commit (by decide) Round.first, fun before m after hsent => ?_⟩
  exact fun htype => ((horder before m after hsent).2 htype).1

end Instance
end Conclave
