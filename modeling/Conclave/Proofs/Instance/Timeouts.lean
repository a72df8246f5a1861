import Conclave.Proofs.Instance.Votes
import Conclave.Timer

/-!
# What an instance asks of the timer

An instance asks for the timeout of each round that it enters, and has the timeout of its height
forgotten when it stops or decides. It never names another height (`step_forHeight`), and enters
rounds while it is undecided, or on a proposal (`step_of_schedule`).

* `Timer.Waits` says which timeout is pending; `Timer.waits_apply_iff` is what calls for one height
  mean for the timeout of another: it is replaced by any timeout that is asked for, and not touched
  by what is forgotten;
* `Calls` is what a move asks for, which depends on the round that it leads to (`Move.calls`);
* `Timed` says that the timeout of the current round is pending or has expired; the start of an
  instance establishes it (`timed_start`) and every event keeps it (`Timed.step`).
-/

namespace Conclave

variable {S : Scheme}

namespace Timer

variable {t : Timer} {height other : Height} {round : Round} {effects : List (Effect S)}

/-- The timeout of a round is pending. -/
def Waits (t : Timer) (height : Height) (round : Round) : Prop :=
  t.pending.map (fun a => (a.height, a.round)) = some (height, round)

@[simp] theorem apply_nil (t : Timer) : t.apply ([] : List (Effect S)) = t := rfl

theorem apply_append (t : Timer) (effects effects' : List (Effect S)) :
    t.apply (effects ++ effects') = (t.apply effects).apply effects' :=
  List.foldl_append

@[simp] theorem apply_broadcast (t : Timer) (m : SignedMessage S) (effects : List (Effect S)) :
    t.apply (.broadcast m :: effects) = t.apply effects := rfl

@[simp] theorem apply_announce (t : Timer) (m : SignedMessage S) (effects : List (Effect S)) :
    t.apply (.announce m :: effects) = t.apply effects := rfl

@[simp] theorem apply_save (t : Timer) (m : SignedMessage S) (effects : List (Effect S)) :
    t.apply (.save m :: effects) = t.apply effects := rfl

@[simp] theorem apply_schedule (t : Timer) (height : Height) (round : Round)
    (effects : List (Effect S)) :
    t.apply (.schedule height round :: effects) = (t.schedule height round).apply effects := rfl

@[simp] theorem apply_cancel (t : Timer) (height : Height) (effects : List (Effect S)) :
    t.apply (.cancel height :: effects) = (t.cancel height).apply effects := rfl

/-- Scheduling replaces what is pending, whatever it is for. -/
theorem waits_schedule_iff {height' : Height} {round' : Round} :
    (t.schedule height' round').Waits height round ↔ height' = height ∧ round' = round := by
  simp [Waits, schedule]

/-- Cancelling leaves the timeout of another height alone. -/
theorem waits_cancel_iff (hne : other ≠ height) :
    (t.cancel other).Waits height round ↔ t.Waits height round := by
  unfold Waits cancel
  cases t.pending with
  | none => rfl
  | some a =>
    by_cases ha : a.height = other
    · simp [ha, hne]
    · simp [ha]

/-- A call of the timer that names a height, or no call. -/
def ForHeight (height : Height) : Effect S → Prop
  | .schedule height' _ => height' = height
  | .cancel height' => height' = height
  | _ => True

/-- Calls for one height leave the timeout of another pending unless they ask for a timeout. -/
theorem waits_apply_iff (hne : other ≠ height) (hfor : ∀ x ∈ effects, ForHeight other x) :
    (t.apply effects).Waits height round ↔
      t.Waits height round ∧ ∀ round', .schedule other round' ∉ effects := by
  induction effects generalizing t with
  | nil => simp
  | cons x effects ih =>
    obtain ⟨hx, hrest⟩ := List.forall_mem_cons.1 hfor
    have ih := fun t : Timer => @ih t hrest
    cases x with
    | broadcast m => simpa using ih t
    | announce m => simpa using ih t
    | save m => simpa using ih t
    | schedule height' round' =>
      obtain rfl : height' = other := hx
      rw [apply_schedule, ih, waits_schedule_iff]
      refine iff_of_false (fun h => hne h.1.1) fun h => h.2 round' List.mem_cons_self
    | cancel height' =>
      obtain rfl : height' = other := hx
      rw [apply_cancel, ih, waits_cancel_iff hne]
      simp

/-- The calls of the timer among effects. -/
def calls (effects : List (Effect S)) : List (Effect S) :=
  effects.filter fun
    | .schedule _ _ | .cancel _ => true
    | _ => false

@[simp] theorem calls_append (effects effects' : List (Effect S)) :
    calls (effects ++ effects') = calls effects ++ calls effects' :=
  List.filter_append ..

@[simp] theorem calls_nil : calls ([] : List (Effect S)) = [] := rfl

@[simp] theorem calls_announce (m : SignedMessage S) (effects : List (Effect S)) :
    calls (.announce m :: effects) = calls effects := rfl

@[simp] theorem calls_save (m : SignedMessage S) (effects : List (Effect S)) :
    calls (.save m :: effects) = calls effects := rfl

theorem apply_calls (t : Timer) (effects : List (Effect S)) :
    t.apply (calls effects) = t.apply effects := by
  induction effects generalizing t with
  | nil => rfl
  | cons x effects ih => cases x <;> exact ih _

theorem schedule_mem_calls {height : Height} {round : Round} {effects : List (Effect S)} :
    .schedule height round ∈ calls effects ↔ .schedule height round ∈ effects := by
  simp [calls]

theorem apply_congr {effects effects' : List (Effect S)} (h : calls effects = calls effects')
    (t : Timer) : t.apply effects = t.apply effects' := by
  rw [← apply_calls, h, apply_calls]

theorem schedule_mem_congr {effects effects' : List (Effect S)} (h : calls effects = calls effects')
    {height : Height} {round : Round} :
    .schedule height round ∈ effects ↔ .schedule height round ∈ effects' := by
  rw [← schedule_mem_calls, h, schedule_mem_calls]

end Timer

namespace Instance

open Timer

variable {seat : Seat S} {net : Network S} {s u : Instance S} {e : Event S}
  {effects : List (Effect S)} {decision : Option (Decision S)}

/-! ### One height -/

/-- An event leaves the height of an instance alone. -/
theorem step_height (seat : Seat S) (net : Network S) (s : Instance S) (e : Event S) :
    (step seat net s e).state.height = s.height := by
  have hpath : ∀ {effects decisions u}, Path seat e s effects decisions u →
      u.height = s.height := by
    intro effects decisions u h
    induction h with
    | stay => rfl
    | move _ hmove ih => exact hmove.turn.1.trans ih
  exact hpath (step_path seat net s e)

theorem forHeight_timerCall (seat : Seat S) (s : Instance S) :
    ForHeight s.height (timerCall seat s) := by
  unfold timerCall
  split <;> rfl

/-- A move calls the timer for the height of its instance only. -/
theorem Move.forHeight (h : Move seat s e effects decision u) :
    ∀ x ∈ effects, ForHeight s.height x := by
  have hentry : ∀ round, ∀ x ∈ entryCalls seat s round, ForHeight s.height x := by
    intro round x hx
    unfold entryCalls at hx
    split at hx
    · rw [List.mem_singleton.1 hx]
      exact forHeight_timerCall seat (s.moveTo round)
    · cases hx
  have hmoved : ∀ round m, ∀ x ∈ [timerCall seat (s.moveTo round), .broadcast m],
      ForHeight s.height x := by
    intro round m x hx
    rcases List.mem_pair.1 hx with rfl | rfl
    · exact forHeight_timerCall seat (s.moveTo round)
    · trivial
  cases h with
  | start hnew =>
    intro x hx
    rw [List.mem_singleton.1 hx]
    exact forHeight_timerCall seat s
  | lead hnew hround hleader =>
    intro x hx
    rcases List.mem_pair.1 hx with rfl | rfl
    · exact forHeight_timerCall seat s
    · trivial
  | accept hreach htype hvalid hvalue =>
    intro x hx
    rcases List.mem_append.1 hx with hx | hx
    · exact hentry _ x hx
    · rw [List.mem_singleton.1 hx]
      trivial
  | storePrepare hreach htype hvalid hnew => nofun
  | prepare hreach htype hvalid hnew hvalue hfirst hquorum =>
    intro x hx
    rw [List.mem_singleton.1 hx]
    trivial
  | storeCommit hreach htype hvalid hnew => nofun
  | decide hreach htype hvalid hnew hopen hvalue hquorum hcommit =>
    intro x hx
    rw [List.mem_singleton.1 hx]
    rfl
  | storeRoundChange hreach htype hvalid hnew => nofun
  | propose htype hopen hround hfirst hleader hquorum hproposal =>
    intro x hx
    rcases List.mem_append.1 hx with hx | hx
    · exact hentry _ x hx
    · rw [List.mem_singleton.1 hx]
      trivial
  | follow htype hopen habove hquorum hlowest hlt => exact hmoved _ _
  | expire hrunning hopen hnext => exact hmoved _ _
  | learn hopen hvalue hroot =>
    intro x hx
    rw [List.mem_singleton.1 hx]
    rfl

/-- An instance calls the timer for its height only. -/
theorem step_forHeight (seat : Seat S) (net : Network S) (s : Instance S) (e : Event S) :
    ∀ x ∈ (step seat net s e).effects, ForHeight s.height x := by
  have hpath : ∀ {effects decisions u}, Path seat e s effects decisions u →
      u.height = s.height ∧ ∀ x ∈ effects, ForHeight s.height x := by
    intro effects decisions u h
    induction h with
    | stay => exact ⟨rfl, nofun⟩
    | move _ hmove ih =>
      refine ⟨hmove.turn.1.trans ih.1, fun x hx => ?_⟩
      rcases List.mem_append.1 hx with hx | hx
      · exact ih.2 x hx
      · exact ih.1 ▸ hmove.forHeight x hx
  exact (hpath (step_path seat net s e)).2

/-! ### Who asks for a timeout -/

/-- An event lets an instance ask for timeouts: nothing is decided yet, or it is a proposal. -/
def LetsAsk (s : Instance S) (e : Event S) : Prop :=
  s.decided = none ∨ ∃ m, e = .receive m ∧ m.type = .propose

/-- After its start an instance asks for a timeout only as it enters a higher round. -/
theorem Move.of_schedule (h : Move seat s e effects decision u) (hstart : ∀ value, e ≠ .start value)
    {height : Height} {round : Round} (hmem : .schedule height round ∈ effects) :
    s.round.toNat < u.round.toNat ∧ LetsAsk s e := by
  have hentry : ∀ {round' : Round} {m : SignedMessage S},
      .schedule height round ∈ entryCalls seat s round' ++ [.broadcast m] →
        s.round < round' := by
    intro round' m hmem
    rcases List.mem_append.1 hmem with hmem | hmem
    · unfold entryCalls at hmem
      split at hmem
      · assumption
      · cases hmem
    · cases List.mem_singleton.1 hmem
  cases h with
  | start hnew => exact absurd rfl (hstart _)
  | lead hnew hround hleader => exact absurd rfl (hstart _)
  | accept hreach htype hvalid hvalue =>
    exact ⟨Round.lt_iff.1 (hentry hmem), .inr ⟨_, rfl, htype⟩⟩
  | storePrepare hreach htype hvalid hnew => cases hmem
  | prepare hreach htype hvalid hnew hvalue hfirst hquorum => cases List.mem_singleton.1 hmem
  | storeCommit hreach htype hvalid hnew => cases hmem
  | decide hreach htype hvalid hnew hopen hvalue hquorum hcommit =>
    cases List.mem_singleton.1 hmem
  | storeRoundChange hreach htype hvalid hnew => cases hmem
  | propose htype hopen hround hfirst hleader hquorum hproposal =>
    have hlt := hentry hmem
    refine ⟨?_, .inl hopen⟩
    dsimp only
    rw [enter, if_pos hlt]
    exact Round.lt_iff.1 hlt
  | follow htype hopen habove hquorum hlowest hlt => exact ⟨hlt, .inl hopen⟩
  | expire hrunning hopen hnext =>
    refine ⟨?_, .inl hopen⟩
    exact (Nat.lt_succ_self _).trans_eq (Round.next?_eq_ok hnext).symm
  | learn hopen hvalue hroot => cases List.mem_singleton.1 hmem

theorem step_of_schedule (net : Network S) (hstart : ∀ value, e ≠ .start value) {height : Height}
    {round : Round} (hmem : .schedule height round ∈ (step seat net s e).effects) :
    s.round.toNat < (step seat net s e).state.round.toNat ∧ LetsAsk s e := by
  have hpath : ∀ {effects decisions u}, Path seat e s effects decisions u →
      s.round.toNat ≤ u.round.toNat ∧
        (.schedule height round ∈ effects → s.round.toNat < u.round.toNat ∧ LetsAsk s e) := by
    intro effects decisions u h
    induction h with
    | stay => exact ⟨le_rfl, nofun⟩
    | @move effects effects' decisions decision t u hpath hmove ih =>
      have hle := hmove.turn.2.round_le
      refine ⟨ih.1.trans hle, fun hmem => ?_⟩
      rcases List.mem_append.1 hmem with hmem | hmem
      · exact ⟨(ih.2 hmem).1.trans_le hle, (ih.2 hmem).2⟩
      · obtain ⟨hlt, hopen | hproposal⟩ := hmove.of_schedule hstart hmem
        -- what is undecided later on was undecided before
        · refine ⟨ih.1.trans_lt hlt, .inl ?_⟩
          rcases hpath.decided with ⟨-, hsame⟩ | ⟨d, -, hopen', -⟩
          · rwa [← hsame]
          · exact hopen'
        · exact ⟨ih.1.trans_lt hlt, .inr hproposal⟩
  exact (hpath (step_path seat net s e)).2 hmem

/-! ### What a move asks of the timer -/

/-- What a move asks of the timer: nothing, while it stays in its round and decides nothing; to
forget the timeout of the height, when it decides; or what the round calls for that it starts or
enters. -/
inductive Calls (seat : Seat S) (s : Instance S) : List (Effect S) → Instance S → Prop
  | none {u : Instance S} (hround : u.round = s.round) (hstarted : u.started = s.started)
      (hdecided : u.decided = s.decided) : Calls seat s [] u
  | decide {u : Instance S} (hround : u.round = s.round) (hstarted : u.started = s.started)
      (hopen : s.decided = .none) (hdecided : u.decided ≠ .none) :
      Calls seat s [.cancel s.height] u
  | start {u : Instance S} (hround : u.round = s.round) (hnew : s.started = false)
      (hstarted : u.started = true) (hdecided : u.decided = s.decided) :
      Calls seat s [timerCall seat u] u
  | enter {u : Instance S} (hlt : s.round.toNat < u.round.toNat) (hstarted : u.started = s.started)
      (hdecided : u.decided = s.decided) : Calls seat s [timerCall seat u] u

theorem calls_timerCall (seat : Seat S) (s : Instance S) (effects : List (Effect S)) :
    calls (timerCall seat s :: effects) = timerCall seat s :: calls effects := by
  unfold timerCall
  split <;> rfl

/-- What a move asks for depends on the round that it leads to. -/
theorem Move.calls (h : Move seat s e effects decision u) :
    Calls seat s (Timer.calls effects) u := by
  cases h with
  | @start value hnew =>
    rw [calls_timerCall]
    exact .start (u := { s with startValue := some value }) rfl hnew rfl rfl
  | @lead value hnew hround hleader =>
    rw [calls_timerCall]
    exact .start (u := { s with startValue := some value }) rfl hnew rfl rfl
  | @accept m value hreach htype hvalid hvalue =>
    rw [calls_append]
    unfold entryCalls
    split
    · rename_i hlt
      rw [calls_timerCall]
      exact .enter (u := { s with
        round := m.round
        accepted := some m
        proposes := (s.proposes.addFirst? m).getD s.proposes }) (Round.lt_iff.1 hlt) rfl rfl
    · rename_i hlt
      have hle := hreach.round_le
      rw [Round.lt_iff] at hlt
      exact .none (Round.toNat_inj.1 (le_antisymm (not_lt.1 hlt) hle)) rfl rfl
  | storePrepare hreach htype hvalid hnew => exact .none rfl rfl rfl
  | prepare hreach htype hvalid hnew hvalue hfirst hquorum => exact .none rfl rfl rfl
  | storeCommit hreach htype hvalid hnew => exact .none rfl rfl rfl
  | decide hreach htype hvalid hnew hopen hvalue hquorum hcommit =>
    exact .decide rfl rfl hopen (Option.some_ne_none _)
  | storeRoundChange hreach htype hvalid hnew => exact .none rfl rfl rfl
  | @propose m value prepares htype hopen hround hfirst hleader hquorum hproposal =>
    rw [calls_append]
    unfold entryCalls enter
    split
    · rename_i hlt
      rw [calls_timerCall]
      exact .enter (u := { s.moveTo m.round with proposedRound := some m.round })
        (Round.lt_iff.1 hlt) rfl rfl
    · exact .none rfl rfl rfl
  | follow htype hopen habove hquorum hlowest hlt =>
    rw [calls_timerCall]
    exact .enter hlt rfl rfl
  | expire hrunning hopen hnext =>
    rw [calls_timerCall]
    exact .enter ((Nat.lt_succ_self _).trans_eq (Round.next?_eq_ok hnext).symm) rfl rfl
  | learn hopen hvalue hroot => exact .decide rfl rfl hopen (Option.some_ne_none _)

/-! ### The timeout of the current round -/

/-- While an instance is undecided and has not stopped, the timeout of its round is pending, or has
expired. -/
def Timed (seat : Seat S) (expired : Height → Round → Prop) (s : Instance S) (t : Timer) : Prop :=
  s.decided = none → s.stopped seat = false →
    t.Waits s.height s.round ∨ expired s.height s.round

variable {expired : Height → Round → Prop} {t : Timer}

theorem waits_timerCall (hrunning : s.stopped seat = false) :
    (t.apply [timerCall seat s]).Waits s.height s.round := by
  rw [timerCall, if_neg (by simp [hrunning])]
  exact waits_schedule_iff.2 ⟨rfl, rfl⟩

theorem Timed.move (h : Timed seat expired s t) (hmove : Move seat s e effects decision u) :
    Timed seat expired u (t.apply effects) := by
  intro hopen hrunning
  have hcalls := hmove.calls
  rw [← apply_calls]
  generalize Timer.calls effects = cs at hcalls ⊢
  cases hcalls with
  | none hround hstarted hdecided =>
    have hrunning' : s.stopped seat = false := by
      rwa [stopped, hround] at hrunning
    rw [hround, hmove.turn.1]
    exact h (hdecided.symm.trans hopen) hrunning'
  | decide hround hstarted hopen' hdecided => exact absurd hopen hdecided
  | start hround hnew hstarted hdecided => exact .inl (waits_timerCall hrunning)
  | enter hlt hstarted hdecided => exact .inl (waits_timerCall hrunning)

/-- Whatever happens to an instance keeps the timeout of its round. -/
theorem Timed.step (h : Timed seat expired s t) (net : Network S) (e : Event S) :
    Timed seat expired (Instance.step seat net s e).state
      (t.apply (Instance.step seat net s e).effects) := by
  have hpath : ∀ {effects decisions u}, Path seat e s effects decisions u →
      Timed seat expired u (t.apply effects) := by
    intro effects decisions u hpath
    induction hpath with
    | stay => exact h
    | move _ hmove ih =>
      rw [apply_append]
      exact ih.move hmove
  exact hpath (step_path seat net s e)

/-- At its start an instance asks for the timeout of its round. -/
theorem timed_start (seat : Seat S) (net : Network S) (hnew : s.started = false)
    (value : Value S) : Timed seat expired (Instance.step seat net s (.start value)).state
      (t.apply (Instance.step seat net s (.start value)).effects) := by
  have hstart : (start seat net s value).state = { s with startValue := some value } ∧
      t.apply (start seat net s value).effects =
        t.apply [timerCall seat { s with startValue := some value }] := by
    unfold start
    rw [if_neg (by simp [hnew])]
    dsimp only
    split
    · split
      · exact ⟨rfl, rfl⟩
      · exact ⟨rfl, rfl⟩
      · exact ⟨rfl, rfl⟩
    · exact ⟨rfl, rfl⟩
  intro _ hrunning
  rw [Instance.step, undecided, Step.mapAnswer] at hrunning ⊢
  dsimp only at hrunning ⊢
  rw [hstart.1] at hrunning ⊢
  rw [hstart.2]
  exact .inl (waits_timerCall hrunning)

end Instance
end Conclave
