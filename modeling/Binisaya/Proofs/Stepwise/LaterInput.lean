import Mathlib.Data.List.Basic
import Mathlib.Data.List.TakeWhile
import Binisaya.Proofs.Stepwise.Reading

/-! Input that a run does not come to. If all lines of an input are ended by newlines, then a line that is taken from
it is the same whatever comes behind the input. A run that does not fail for want of input therefore takes the same
steps when there is more of it, and leaves the additional input unread. -/

namespace Binisaya

/-- Every line of the input is ended by a newline. -/
def LinesEnd (input : List Char) : Prop := input = [] ∨ input.getLast? = some '\n'

theorem takeLine?_line {line : List Char} (h : '\n' ∉ line) (rest : List Char) :
    takeLine? (line ++ '\n' :: rest) = some (bareLine line, rest) := by
  have hline : ∀ c ∈ line, (c != '\n') = true := fun c hc => bne_iff_ne.2 fun heq => h (heq ▸ hc)
  have htake : (line ++ '\n' :: rest).takeWhile (· != '\n') = line := by
    rw [List.takeWhile_append_of_pos hline, List.takeWhile_cons_of_neg (by decide), List.append_nil]
  have hdrop : (line ++ '\n' :: rest).dropWhile (· != '\n') = '\n' :: rest := by
    rw [List.dropWhile_append_of_pos hline, List.dropWhile_cons_of_neg (by decide)]
  have hne : line ++ '\n' :: rest ≠ [] := List.append_ne_nil_of_right_ne_nil line (List.cons_ne_nil _ rest)
  rw [takeLine?_of_ne_nil hne, htake, hdrop]
  rfl

theorem takeLine?_last {line : List Char} (h : '\n' ∉ line) (hne : line ≠ []) :
    takeLine? line = some (bareLine line, []) := by
  have hline : ∀ c ∈ line, (c != '\n') = true := fun c hc => bne_iff_ne.2 fun heq => h (heq ▸ hc)
  rw [takeLine?_of_ne_nil hne, List.takeWhile_eq_self_iff.2 hline, List.dropWhile_eq_nil_iff.2 hline]
  rfl

theorem LinesEnd.exists_eq {input : List Char} (h : LinesEnd input) (hne : input ≠ []) :
    ∃ line rest, input = line ++ '\n' :: rest ∧ '\n' ∉ line ∧ LinesEnd rest := by
  have hlast : input.getLast? = some '\n' := h.resolve_left hne
  obtain ⟨line, rest, rfl, hline⟩ := List.eq_append_cons_of_mem (List.mem_of_getLast? hlast)
  refine ⟨line, rest, rfl, hline, ?_⟩
  cases rest with
  | nil => exact .inl rfl
  | cons c rest =>
      rw [List.getLast?_append_cons, List.getLast?_cons_cons] at hlast
      exact .inr hlast

/-- A line is taken as if there were nothing behind the input. -/
theorem LinesEnd.takeLine?_append {input line rest : List Char} (h : LinesEnd input)
    (hline : takeLine? input = some (line, rest)) (more : List Char) :
    takeLine? (input ++ more) = some (line, rest ++ more) ∧ LinesEnd rest := by
  have hne : input ≠ [] := by
    rintro rfl
    cases hline
  obtain ⟨line', rest', rfl, hnewline, hrest⟩ := h.exists_eq hne
  rw [takeLine?_line hnewline] at hline
  cases hline
  rw [List.append_assoc, List.cons_append, takeLine?_line hnewline]
  exact ⟨rfl, hrest⟩

/-- The machine with more input behind what is left. -/
def Machine.feed (more : List Char) (m : Machine) : Machine := { m with unread := m.unread ++ more }

/-- The ending with more input behind what is left. -/
def Outcome.feed {α : Type} (more : List Char) : Outcome α → Outcome α
  | .done a m => .done a (m.feed more)
  | .failed f m => .failed f (m.feed more)
  | .outOfFuel => .outOfFuel

namespace Stepwise

variable {cfg : Settings} {more : List Char}

def State.feed (more : List Char) (s : State) : State := s.control.on (s.machine.feed more)

theorem Deed.apply_feed {d : Deed} (hd : d ≠ .takeLine) (m : Machine) (more : List Char) :
    d.apply cfg (m.feed more) = (d.apply cfg m).feed more := by
  cases d with
  | note msg =>
      by_cases hlevel : msg.threshold ≤ cfg.level
      · by_cases hlogging : m.logging = true
        · simp [Deed.apply, noted, Machine.feed, hlevel, hlogging]
        · simp [Deed.apply, noted, Machine.feed, hlevel, hlogging]
      · simp [Deed.apply, noted, hlevel]
  | setType name type => cases type <;> rfl
  | takeLine => exact absurd rfl hd
  | _ => rfl

/-- A line that is there is taken in the same way when there is more input. -/
theorem takeLine?_feed {m : Machine} (hm : LinesEnd m.unread) (hne : m.unread ≠ []) (more : List Char) :
    takeLine? (m.feed more).unread = (takeLine? m.unread).map fun p => (p.1, p.2 ++ more) := by
  have hline := takeLine?_of_ne_nil hne
  rw [Machine.feed, (hm.takeLine?_append hline more).1, hline, Option.map_some]

theorem apply_takeLine_feed {m : Machine} (hm : LinesEnd m.unread) (hne : m.unread ≠ []) (more : List Char) :
    Deed.apply cfg (m.feed more) .takeLine = (Deed.apply cfg m .takeLine).feed more := by
  rw [Deed.apply, Deed.apply, takeLine?_feed hm hne, takeLine?_of_ne_nil hne]
  rfl

theorem line?_feed {m : Machine} (hm : LinesEnd m.unread) (hne : m.unread ≠ []) (more : List Char) :
    (m.feed more).line? = m.line? := by
  rw [Machine.line?, Machine.line?, takeLine?_feed hm hne, Option.map_map]
  rfl

theorem after_feed {deeds : List Deed} {m : Machine} (hm : LinesEnd m.unread) (hdeeds : Orderly deeds)
    (hne : .takeLine ∈ deeds → m.unread ≠ []) (more : List Char) :
    after cfg deeds (m.feed more) = (after cfg deeds m).feed more := by
  fun_induction Orderly deeds generalizing m with
  | case1 => rfl
  | case2 d =>
      by_cases hd : d = .takeLine
      · subst hd
        exact @apply_takeLine_feed cfg m hm (hne List.mem_cons_self) more
      · exact Deed.apply_feed hd m more
  | case3 d deeds _ ih =>
      obtain ⟨hd, -, hrest⟩ := hdeeds
      have hunread := @Deed.apply_unread cfg d hd m
      rw [after_cons, after_cons, d.apply_feed hd]
      exact ih (hunread ▸ hm) hrest fun hmem => hunread ▸ hne (List.mem_cons_of_mem d hmem)

/-- A step that is not one into a failure for want of input is the same step when there is more input. -/
theorem step_feed {s t : State} (hs : LinesEnd s.machine.unread) (h : step cfg s = some t) (ht : t.starving = false)
    (more : List Char) : step cfg (s.feed more) = some (t.feed more) := by
  -- there is a line where one is asked for, since without one the next state would starve
  have hne : (s.control.on s.machine).reading? ≠ none → s.machine.unread ≠ [] := by
    rw [s.on_control]
    intro hreading hnil
    obtain ⟨r, hr⟩ := Option.ne_none_iff_exists'.1 hreading
    obtain ⟨hmachine, -, -, hstarving⟩ := step_reading h hr
    rw [hstarving.2 (hmachine ▸ hnil)] at ht
    cases ht
  obtain ⟨c, deeds, hmove, rfl⟩ := step_eq_some_iff.1 h
  refine step_eq_some_iff.2 ⟨c, deeds, ?_, ?_⟩
  · rw [State.feed, Control.machine_on, Control.control_on]
    refine hmove.congr ⟨rfl, rfl⟩ ?_ rfl rfl
    rintro ⟨names, ts, hc⟩
    refine line?_feed hs (hne ?_) more
    rw [hc]
    exact Option.some_ne_none _
  · rw [State.feed, State.feed, Control.machine_on, Control.machine_on, Control.control_on,
      after_feed hs hmove.orderly fun hmem => hne fun hnone => (hmove.keeps hnone s.machine).1 hmem]

theorem step_linesEnd {s t : State} (hs : LinesEnd s.machine.unread) (h : step cfg s = some t) :
    LinesEnd t.machine.unread := by
  cases hreading : s.reading? with
  | none => rwa [(step_keeps h hreading).1]
  | some r =>
      obtain ⟨hmachine, -, hunread, -⟩ := step_reading h hreading
      rw [hmachine] at hs
      rw [hunread]
      cases hline : takeLine? r.machine.unread with
      | none =>
          rw [takeLine?_eq_none.1 hline]
          exact .inl rfl
      | some p =>
          rw [← takeLine?_rest hline]
          exact (hs.takeLine?_append hline []).2

/-- States on the way to an end that is not for want of input are come through when there is more input. -/
theorem Course.feed {s last : State} {states : List State} (h : Course cfg s states last)
    (hs : LinesEnd s.machine.unread) (hlast : last.starving = false) (more : List Char) :
    Steps cfg (s.feed more) (last.feed more) := by
  induction h with
  | last _ => exact .refl _
  | @next s t last states hstep hrest ih =>
      -- a state that starves leads to a last one that does
      have ht : t.starving = false := by
        rw [← Bool.not_eq_true]
        intro hstarving
        rw [hrest.accounted.2.2 (.inl hstarving)] at hlast
        cases hlast
      exact Steps.head (step_feed hs hstep ht more) (ih (step_linesEnd hs hstep) hlast)

/-- **What a run has not read cannot matter to it.** If all lines of the input are ended, and the run on it ends
without asking for more, then on the same input with anything behind it the run ends in the same way: with the same
output, variables and types and the same error, if any. What it leaves unread has just the rest behind it. -/
theorem later_input_unseen {p : Node} {m : Machine} {o : Outcome Unit} (hm : LinesEnd m.unread)
    (h : EndsAs cfg p m o) (ho : o ≠ .outOfFuel) (hinput : ∀ f m', o = .failed f m' → f.isInputError = false)
    (more : List Char) : EndsAs cfg p (m.feed more) (o.feed more) := by
  obtain ⟨n, hn⟩ := h
  obtain ⟨states, last, hcourse, hlast⟩ := exists_course_of_run (hn n (Nat.le_refl n)) ho
  have hcalm : last.starving = false := by
    rw [← Bool.not_eq_true, starving_lastState hlast]
    rintro ⟨f, m', hf, hstarving⟩
    rw [hinput f m' hf] at hstarving
    cases hstarving
  have hsteps : Steps cfg (.start p (m.feed more)) (last.feed more) := hcourse.feed hm hcalm more
  cases o with
  | done a m' =>
      cases hlast
      obtain ⟨k, hk⟩ := run_done_iff.2 hsteps
      exact endsAs_of_run hk (Outcome.done_ne_outOfFuel _ _)
  | failed f m' =>
      cases hlast
      obtain ⟨k, hk⟩ := run_failed_iff.2 hsteps
      exact endsAs_of_run hk (Outcome.failed_ne_outOfFuel _ _)
  | outOfFuel => exact absurd rfl ho

/-- A program that reads `x` until it is `b`, and then asks for a variable that there is not. -/
def untilProgram : Node :=
  .program .empty [.input ["x"],
    .loop (.binary "<>" (.ident "x") (.literal (.text "b") "Text")) (.block [.print [.ident "x"], .input ["x"]]),
    .print [.ident "y"]]

theorem later_input_unseen_untilProgram : ∃ m',
    EndsAs {} untilProgram (.fresh "a\r\n\nb\nc\n".toList) (.failed (.fault (.undefinedVariable "y")) m') ∧
    m'.output = "a" ∧ m'.scope.get? "x" = some (.text "b") ∧ m'.unread = "c\n".toList ∧
    EndsAs {} untilProgram (.fresh "a\r\n\nb\nc\nd".toList)
      (.failed (.fault (.undefinedVariable "y")) { m' with unread := "c\nd".toList }) := by
  have hrun : run {} 9 untilProgram (.fresh "a\r\n\nb\nc\n".toList) = .failed (.fault (.undefinedVariable "y"))
      { scope := ⟨.ofList [("x", .text "b")], []⟩, unread := "c\n".toList, output := "a", logging := false } := by
    decide +kernel
  have hends := endsAs_of_run hrun (Outcome.failed_ne_outOfFuel _ _)
  refine ⟨_, hends, rfl, by decide +kernel, rfl, ?_⟩
  refine later_input_unseen (.inr rfl) hends (Outcome.failed_ne_outOfFuel _ _) (fun f m' hf => ?_) "d".toList
  cases hf
  rfl

end Stepwise

end Binisaya
