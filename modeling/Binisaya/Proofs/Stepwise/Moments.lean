import Binisaya.Proofs.Stepwise.Reading

/-! Moments of a run. Steps number the states that a run comes through, also if it never ends; a run that has ended
stays where it is. In some of these states a statement is about to be executed, and these are the statements that the
run executes. -/

namespace Binisaya.Stepwise

variable {cfg : Settings} {p : Node} {m : Machine}

/-- The state after a state, which is the same where nothing is left to be done. -/
def State.next (cfg : Settings) (s : State) : State := (step cfg s).getD s

/-- The state of a run after some number of steps. -/
def stateAt (cfg : Settings) (p : Node) (m : Machine) (i : Nat) : State := (State.next cfg)^[i] (.start p m)

/-- The statement that is about to be executed. -/
def State.statement? : State → Option Node
  | .executing (.statement s :: _) _ => some s
  | _ => none

/-- The statements that a run begins to execute within some number of steps, in that order. -/
def executedBy (cfg : Settings) (p : Node) (m : Machine) (i : Nat) : List Node :=
  (List.range i).filterMap fun j => (stateAt cfg p m j).statement?

theorem stateAt_succ (cfg : Settings) (p : Node) (m : Machine) (i : Nat) :
    stateAt cfg p m (i + 1) = (stateAt cfg p m i).next cfg :=
  Function.iterate_succ_apply' ..

theorem executedBy_succ (cfg : Settings) (p : Node) (m : Machine) (i : Nat) :
    executedBy cfg p m (i + 1) = executedBy cfg p m i ++ (stateAt cfg p m i).statement?.toList := by
  rw [executedBy, List.range_succ, List.filterMap_append, executedBy]
  cases h : (stateAt cfg p m i).statement? <;> simp [h]

theorem eq_of_final {s : State} (h : step cfg s = none) : (∃ m, s = .executing [] m) ∨ ∃ f m, s = .failing f [] m := by
  cases s with
  | evaluating e ws p ts m => cases h
  | returning v ws p ts m => cases ws <;> cases h
  | executing ts m =>
      cases ts with
      | nil => exact .inl ⟨m, rfl⟩
      | cons t ts => cases h
  | failing f ts m =>
      cases ts with
      | nil => exact .inr ⟨f, m, rfl⟩
      | cons t ts => cases h

theorem stateAt_of_final {i : Nat} (h : step cfg (stateAt cfg p m i) = none) {j : Nat} (hij : i ≤ j) :
    stateAt cfg p m j = stateAt cfg p m i := by
  induction hij with
  | refl => rfl
  | step _ ih => rw [stateAt_succ, ih, State.next, h, Option.getD_none]

theorem stateAt_final_unique {i j : Nat} (hi : step cfg (stateAt cfg p m i) = none)
    (hj : step cfg (stateAt cfg p m j) = none) : stateAt cfg p m i = stateAt cfg p m j := by
  rcases Nat.le_total i j with h | h
  · exact (stateAt_of_final hi h).symm
  · exact stateAt_of_final hj h

theorem Steps.exists_stateAt {t : State} (h : Steps cfg (.start p m) t) : ∃ i, stateAt cfg p m i = t := by
  induction h with
  | refl => exact ⟨0, rfl⟩
  | tail _ hstep ih =>
      obtain ⟨i, rfl⟩ := ih
      refine ⟨i + 1, ?_⟩
      rw [stateAt_succ, State.next, hstep, Option.getD_some]

theorem Course.ends {s last : State} {states : List State} (h : Course cfg s states last) :
    Steps cfg s last ∧ step cfg last = none := by
  induction h with
  | last h => exact ⟨.refl _, h⟩
  | next h _ ih => exact ⟨.head h ih.1, ih.2⟩

theorem exists_stateAt_of_run {n : Nat} (h : run cfg n p m ≠ .outOfFuel) :
    ∃ i, step cfg (stateAt cfg p m i) = none ∧ lastState? (run cfg n p m) = some (stateAt cfg p m i) := by
  obtain ⟨states, last, hcourse, hlast⟩ := exists_course_of_run rfl h
  obtain ⟨hsteps, hfinal⟩ := hcourse.ends
  obtain ⟨i, rfl⟩ := hsteps.exists_stateAt
  exact ⟨i, hfinal, hlast⟩

/-- A statement is about to be executed, and it is going to fail. -/
def State.AboutToFail (cfg : Settings) (n : Nat) (f : Failure) (s : State) : Prop :=
  ∃ a ts m₁ m₂, s = .executing (.statement a :: ts) m₁ ∧ exec cfg n a m₁ = .failed f m₂

theorem inOrder_fails {n : Nat} {body : List Node} {ts : List Task} {f : Failure} {m m' : Machine}
    (h : inOrder (exec cfg n) body m = .failed f m') :
    ∃ s : State, Steps cfg (.executing (body.map .statement ++ ts) m) s ∧ s.AboutToFail cfg n f := by
  induction body generalizing m with
  | nil => cases h
  | cons a body ih =>
      rw [inOrder, Exec.bind_apply] at h
      cases ha : exec cfg n a m with
      | failed g m₁ =>
          rw [ha] at h
          cases h
          exact ⟨_, .refl _, a, _, m, _, rfl, ha⟩
      | done u m₁ =>
          rw [ha] at h
          obtain ⟨s, hs, hfails⟩ := ih h
          have hlead := exec_followed cfg n a (body.map .statement ++ ts) m
          rw [ha] at hlead
          exact ⟨s, Steps.trans hlead hs, hfails⟩
      | outOfFuel =>
          rw [ha] at h
          cases h

/-- Only its statements can make the run of a program fail. -/
theorem inOrder_of_run_failed {n : Nat} {types : TypeTable} {body : List Node} {f : Failure} {m' : Machine}
    (h : run cfg n (.program types body) m = .failed f m') :
    ∃ m₁, inOrder (exec cfg n) body (noted cfg (.starting body.length) { m with types := m.types.update types }) =
      .failed f m₁ := by
  simp only [run, runBody, Exec.bind_apply, Exec.modify, Exec.afterwards, note_apply] at h
  revert h
  cases inOrder (exec cfg n) body (noted cfg (.starting body.length) { m with types := m.types.update types }) with
  | failed g m₁ =>
      intro h
      cases h
      exact ⟨m₁, rfl⟩
  | done u m₁ =>
      intro h
      cases hbanner : cfg.banner <;> rw [hbanner] at h <;> cases h
  | outOfFuel =>
      intro h
      cases h

/-- A run that fails comes to a statement that fails so. -/
theorem run_fails {n : Nat} {types : TypeTable} {body : List Node} {f : Failure} {m' : Machine}
    (h : run cfg n (.program types body) m = .failed f m') :
    ∃ j, (stateAt cfg (.program types body) m j).AboutToFail cfg n f := by
  obtain ⟨m₁, hbody⟩ := inOrder_of_run_failed h
  obtain ⟨s, hs, hfails⟩ := @inOrder_fails cfg n body [.close] f _ m₁ hbody
  have hsteps : Steps cfg (.start (.program types body) m) s := .head rfl hs
  obtain ⟨j, rfl⟩ := hsteps.exists_stateAt
  exact ⟨j, hfails⟩

end Binisaya.Stepwise
