import Binisaya.Proofs.Operators
import Binisaya.Proofs.Stepwise.Safety

/-! Runs of programs from source text, on any input and with any settings. They end well, never end, or fail as
programs of the language do; and all the way variables and expressions have numbers, texts and single characters
as their values. -/

namespace Binisaya

open Stepwise

namespace Stepwise

variable {cfg : Settings}

/-- A state in which `%` is applied to an infinite number and some other. -/
def State.TakesInfiniteRemainder (s : State) : Prop :=
  ∃ x y ws p ts m, s = .returning (.number y) (.right "%" (.number x) :: ws) p ts m ∧ magnitude x = .infinite

/-- Remainders of infinite numbers fail where they are taken and nowhere else. -/
theorem step_infiniteDividend {s : State} {us : List Task} {m' : Machine}
    (h : step cfg s = some (.failing (.defect .infiniteDividend) us m')) :
    (∃ ts m, s = .failing (.defect .infiniteDividend) ts m) ∨ s.TakesInfiniteRemainder := by
  obtain ⟨c, deeds, hmove, ht⟩ := step_eq_some_iff.1 h
  obtain rfl : .failing (.defect .infiniteDividend) us = c :=
    (congrArg State.control ht).trans (c.control_on (after cfg deeds s.machine))
  rw [← s.on_control]
  generalize s.control = c at hmove
  generalize s.machine = m at hmove
  cases hmove with
  | @unaryFails symbol v _ hf =>
      have hanswers := evalUnary_answers symbol v
      rw [hf] at hanswers
      exact hanswers.elim
  | binaryFails hf ws p =>
      obtain ⟨rfl, x, y, rfl, rfl, hx, -⟩ := evalBinary_infiniteDividend_iff.1 hf
      exact .inr ⟨x, y, ws, p, us, m, rfl, hx⟩
  | statement hbegins => cases hbegins
  | unwind f t => exact .inl ⟨_, _, rfl⟩

end Stepwise

theorem sound_of_source {source : List Char} {p : Node} (hp : readProgram source = .ok p) {cfg : Settings}
    {input : List Char} {s : State} (hs : Steps cfg (.start p (.fresh input)) s) : s.Sound :=
  hs.sound (start_sound (isProgram_of_readProgram hp) .empty)

/-- A source that can be read and whose program passes a test when it is run. -/
theorem exists_of_test {source input : List Char} {cfg : Settings} {n : Nat} {test : Outcome Unit → Bool}
    (h : (readProgram source).toOption.any (fun p => test (run cfg n p (.fresh input))) = true) :
    ∃ p, readProgram source = .ok p ∧ test (run cfg n p (.fresh input)) = true := by
  cases hp : readProgram source with
  | error f =>
      rw [hp] at h
      cases h
  | ok p =>
      rw [hp] at h
      exact ⟨p, rfl, h⟩

/-- A program from source text ends well, never ends, or fails with an error of the language or the remainder of an
infinite number. It fails with no other error and for no other reason. -/
theorem run_of_source_safe {source : List Char} {p : Node} (hp : readProgram source = .ok p) (cfg : Settings)
    (input : List Char) :
    ((∃ m, EndsAs cfg p (.fresh input) (.done () m)) ∨
      ((∀ n, run cfg n p (.fresh input) = .outOfFuel) ∧ Endless cfg (.start p (.fresh input))) ∨
      ∃ f m, f.IsRunTime ∧ EndsAs cfg p (.fresh input) (.failed f m)) ∧
    (∀ n f m, run cfg n p (.fresh input) = .failed f m → f.IsRunTime) ∧
    ∀ s f ts m, Steps cfg (.start p (.fresh input)) s → step cfg s = some (.failing f ts m) →
      f.IsRunTime ∧ (f = .defect .infiniteDividend →
        (∃ us m', s = .failing f us m') ∨ s.TakesInfiniteRemainder) := by
  have hfailed : ∀ n f m, run cfg n p (.fresh input) = .failed f m → f.IsRunTime := fun n f m h =>
    (sound_of_source hp (run_failed_iff.1 ⟨n, h⟩)).control.1
  refine ⟨?_, hfailed, fun s f ts m hs hstep => ⟨?_, ?_⟩⟩
  · rcases final_or_endless cfg (.start p (.fresh input)) with ⟨t, hst, ht⟩ | hendless
    · obtain ⟨n, ⟨m, hn, -⟩ | ⟨f, m, hn, -⟩⟩ := run_of_final hst ht
      · exact .inl ⟨m, endsAs_of_run hn (Outcome.done_ne_outOfFuel () m)⟩
      · exact .inr (.inr ⟨f, m, hfailed n f m hn, endsAs_of_run hn (Outcome.failed_ne_outOfFuel f m)⟩)
    · exact .inr (.inl ⟨run_outOfFuel_iff.2 hendless, hendless⟩)
  · exact (sound_of_source hp (hs.trans (.one hstep))).control.1
  · rintro rfl
    exact step_infiniteDividend hstep

/-- Prints the remainder of a number that the user gives. -/
def remainderSource : List Char := "SUGOD\nMUGNA NUMERO x\nDAWAT: x\nIPAKITA: x % 2\nKATAPUSAN\n".toList

theorem run_of_source_safe_remainderSource : ∃ p m, readProgram remainderSource = .ok p ∧
    run {} 3 p (.fresh "Infinity\n".toList) = .failed (.defect .infiniteDividend) m ∧
    (Failure.defect .infiniteDividend).IsRunTime := by
  obtain ⟨p, hp, htest⟩ := @exists_of_test remainderSource "Infinity\n".toList {} 3
    (fun o => match o with
      | .failed f _ => f = .defect .infiniteDividend
      | _ => false) (by decide +kernel)
  cases h : run {} 3 p (.fresh "Infinity\n".toList) with
  | failed f m =>
      rw [h] at htest
      obtain rfl := of_decide_eq_true htest
      exact ⟨p, m, hp, h, (run_of_source_safe hp {} _).2.1 3 _ m h⟩
  | done a m =>
      rw [h] at htest
      cases htest
  | outOfFuel =>
      rw [h] at htest
      cases htest

/-- In every state of a run of a program from source text, all variables in all scopes hold proper values, and so
do they where the run ends. Every expression that is evaluated has a proper value, if it has any. -/
theorem values_of_source_proper {source : List Char} {p : Node} (hp : readProgram source = .ok p) (cfg : Settings)
    (input : List Char) :
    (∀ s, Steps cfg (.start p (.fresh input)) s →
      (∀ f ∈ s.machine.scope.frames, ∀ name v, f.get? name = some v → v.Proper) ∧
      (∀ v ws q ts m, s = .returning v ws q ts m → v.Proper) ∧
      ∀ e ws q ts m v m', s = .evaluating e ws q ts m → eval cfg e m = .done v m' → v.Proper) ∧
    ∀ n m, (run cfg n p (.fresh input) = .done () m ∨ ∃ f, run cfg n p (.fresh input) = .failed f m) →
      ∀ f ∈ m.scope.frames, ∀ name v, f.get? name = some v → v.Proper := by
  have hscope : ∀ s, Steps cfg (.start p (.fresh input)) s → s.machine.scope.Proper := fun s hs =>
    (sound_of_source hp hs).scope
  refine ⟨fun s hs => ⟨hscope s hs, ?_, ?_⟩, ?_⟩
  · rintro v ws q ts m rfl
    exact (sound_of_source hp hs).control.1
  · rintro e ws q ts m v m' rfl hv
    have hlead := @eval_leads cfg e ws q ts m
    rw [hv] at hlead
    exact (sound_of_source hp (hs.trans hlead)).control.1
  · rintro n m (hdone | ⟨f, hfailed⟩)
    · exact hscope _ (run_done_iff.1 ⟨n, hdone⟩)
    · exact hscope _ (run_failed_iff.1 ⟨n, hfailed⟩)

/-- Declares a character without a value, reads another, and changes it inside a block. -/
def charactersSource : List Char :=
  "SUGOD\nMUGNA LETRA a, b\nDAWAT: a\nKUNG (a <> b)\nPUNDOK\x7b\nMUGNA LETRA b = 'y'\na = b\n\x7d\nKATAPUSAN\n".toList

theorem values_of_source_proper_charactersSource : ∃ p m, readProgram charactersSource = .ok p ∧
    run { blockScopes := true } 4 p (.fresh "x\n".toList) = .done () m ∧
    m.scope.get? "a" = some (.char "y") ∧ m.scope.get? "b" = some (.text "") ∧
    ∀ f ∈ m.scope.frames, ∀ name v, f.get? name = some v → v.Proper := by
  obtain ⟨p, hp, htest⟩ := @exists_of_test charactersSource "x\n".toList { blockScopes := true } 4
    (fun o => match o with
      | .done () m => m.scope.get? "a" = some (.char "y") ∧ m.scope.get? "b" = some (.text "")
      | _ => false) (by decide +kernel)
  cases h : run { blockScopes := true } 4 p (.fresh "x\n".toList) with
  | done a m =>
      rw [h] at htest
      obtain ⟨ha, hb⟩ := of_decide_eq_true htest
      exact ⟨p, m, hp, h, ha, hb, (values_of_source_proper hp { blockScopes := true } _).2 4 m (.inl h)⟩
  | failed f m =>
      rw [h] at htest
      cases htest
  | outOfFuel =>
      rw [h] at htest
      cases htest

end Binisaya
