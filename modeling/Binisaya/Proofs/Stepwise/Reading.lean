import Mathlib.Tactic.SplitIfs
import Binisaya.Proofs.Alike
import Binisaya.Proofs.Stepwise.Adequacy
import Binisaya.Proofs.Stepwise.Moves

/-! What becomes of the input of a run. The run is taken as the states that it comes through, and in some of them an
input statement is about to be executed. These statements are served with the lines of the input one after the other,
in branches, loops and blocks alike, and also if the fields of a line turn out not to fit. Nothing else touches the
input, and nothing else fails for want of it. -/

namespace Binisaya

/-- The lines of an input with the newlines that end them; the last one may be without. -/
def inputLines : List Char → List (List Char)
  | [] => []
  | c :: cs =>
    if c = '\n' then [c] :: inputLines cs
    else match inputLines cs with
      | [] => [[c]]
      | line :: lines => (c :: line) :: lines

/-- A line without the carriage returns and newlines at its end. -/
def bareLine (line : List Char) : List Char := dropTrailing (fun c => c == '\r' || c == '\n') line

theorem flatten_inputLines (cs : List Char) : (inputLines cs).flatten = cs := by
  induction cs with
  | nil => rfl
  | cons c cs ih =>
      rw [inputLines]
      by_cases hc : c = '\n'
      · rw [if_pos hc, List.flatten_cons, ih]
        rfl
      · rw [if_neg hc]
        cases hlines : inputLines cs with
        | nil =>
            rw [hlines] at ih
            rw [← ih]
            rfl
        | cons line lines =>
            rw [hlines] at ih
            rw [← ih]
            rfl

/-- The first line goes up to the first newline, and the other lines are those of what follows. -/
theorem inputLines_cons (c : Char) (cs : List Char) :
    inputLines (c :: cs) = ((c :: cs).takeWhile (· != '\n') ++ ((c :: cs).dropWhile (· != '\n')).take 1) ::
      inputLines (((c :: cs).dropWhile (· != '\n')).drop 1) := by
  induction cs generalizing c with
  | nil =>
      by_cases hc : c = '\n'
      · subst hc
        rfl
      · simp [inputLines, hc]
  | cons d cs ih =>
      rw [inputLines]
      by_cases hc : c = '\n'
      · subst hc
        rfl
      · have hbool : (c != '\n') = true := by simpa using hc
        have htake : (c :: d :: cs).takeWhile (· != '\n') = c :: (d :: cs).takeWhile (· != '\n') := by
          rw [List.takeWhile_cons, if_pos hbool]
        have hdrop : (c :: d :: cs).dropWhile (· != '\n') = (d :: cs).dropWhile (· != '\n') := by
          rw [List.dropWhile_cons, if_pos hbool]
        rw [if_neg hc, ih d, htake, hdrop]
        rfl

/-- Taking a line takes the first of the lines and leaves the others. -/
theorem takeLine?_eq (cs : List Char) :
    takeLine? cs = (inputLines cs).head?.map fun line => (bareLine line, (inputLines cs).tail.flatten) := by
  cases cs with
  | nil => rfl
  | cons c cs =>
      have hend : ∀ d ∈ ((c :: cs).dropWhile (· != '\n')).take 1, (d == '\r' || d == '\n') = true := by
        intro d hd
        cases hrest : (c :: cs).dropWhile (· != '\n') with
        | nil =>
            rw [hrest] at hd
            cases hd
        | cons e rest =>
            have he := List.head?_dropWhile_not (· != '\n') (c :: cs)
            rw [hrest] at hd he
            obtain rfl := List.mem_singleton.1 hd
            have hnewline : d = '\n' := by simpa using he
            rw [hnewline]
            rfl
      rw [inputLines_cons, List.head?_cons, Option.map_some, List.tail_cons, flatten_inputLines, bareLine,
        dropTrailing_append hend]
      rfl

theorem takeLine?_of_ne_nil {cs : List Char} (h : cs ≠ []) :
    takeLine? cs = some (bareLine (cs.takeWhile (· != '\n')), (cs.dropWhile (· != '\n')).drop 1) := by
  cases cs with
  | nil => exact absurd rfl h
  | cons c cs => rfl

theorem takeLine?_rest {cs line rest : List Char} (h : takeLine? cs = some (line, rest)) :
    rest = (inputLines cs).tail.flatten := by
  rw [takeLine?_eq] at h
  obtain ⟨first, -, heq⟩ := Option.map_eq_some_iff.1 h
  exact (congrArg Prod.snd heq).symm

theorem takeLine?_eq_none {cs : List Char} : takeLine? cs = none ↔ cs = [] := by
  cases cs with
  | nil => simp [takeLine?]
  | cons c cs => simp [takeLine?]

/-- Tells that a failure is reported as one of a missing input line. -/
def Failure.isInputError : Failure → Bool
  | .fault f => f.kind == "InputError"
  | .defect _ => false

/-- Tells that a failure is one that operators give. -/
def Failure.ofOperator : Failure → Bool
  | .fault f => f.kind == "TypeError" || f.kind == "ArithmeticError"
  | .defect d => d == .infiniteDividend

theorem Failure.isInputError_of_ofOperator {f : Failure} (h : f.ofOperator = true) : f.isInputError = false := by
  cases f with
  | fault f =>
      simp only [Failure.ofOperator, Bool.or_eq_true, beq_iff_eq] at h
      rcases h with h | h <;> rw [Failure.isInputError, h] <;> rfl
  | defect d => rfl

theorem onNumbers_error {f : Float → Float → Except Failure Value} (hf : ∀ x y e, f x y = .error e → e.ofOperator = true)
    {a b : Value} {e : Failure} (h : onNumbers f a b = .error e) : e.ofOperator = true := by
  unfold onNumbers at h
  split at h
  · exact hf _ _ _ h
  · cases h
    rfl

theorem BinaryOp.apply_error {op : BinaryOp} {a b : Value} {e : Failure} (h : op.apply a b = .error e) :
    e.ofOperator = true := by
  cases op with
  | concat | or | and | eq => cases h
  | ne =>
      simp only [BinaryOp.apply, unequal] at h
      split at h <;> cases h <;> rfl
  | add =>
      simp only [BinaryOp.apply, addValues] at h
      split at h <;> cases h
      rfl
  | ge | le | gt | lt | sub | mul =>
      refine onNumbers_error (fun x y e he => ?_) h
      cases he
  | div =>
      refine onNumbers_error (fun x y e he => ?_) h
      unfold divide at he
      split_ifs at he
      cases he
      rfl
  | rem =>
      refine onNumbers_error (fun x y e he => ?_) h
      unfold remainder at he
      split_ifs at he
      · cases he
        rfl
      · split at he <;> cases he
        rfl

theorem evalBinary_error {symbol : String} {a b : Value} {e : Failure} (h : evalBinary symbol a b = .error e) :
    e.ofOperator = true := by
  unfold evalBinary at h
  split at h
  · exact BinaryOp.apply_error h
  · cases h
    rfl

theorem evalUnary_error {symbol : String} {a : Value} {e : Failure} (h : evalUnary symbol a = .error e) :
    e.ofOperator = true := by
  unfold evalUnary at h
  split at h
  · next op _ =>
      cases op with
      | not => cases h
      | minus | plus => cases a <;> cases h <;> rfl
  · cases h
    rfl

/-- What is wrong with a field is never that it is missing. -/
theorem fieldValue_error {name : String} {field : List Char} {type : Option VarType} {f : Fault}
    (h : fieldValue name field type = .error f) : (Failure.fault f).isInputError = false := by
  unfold fieldValue at h
  split_ifs at h
  all_goals
    split at h <;> cases h
    rfl

theorem fieldValues_error {typeOf : String → Option VarType} {names : List String} {fields : List (List Char)}
    {f : Fault} (h : fieldValues typeOf names fields = .error f) : (Failure.fault f).isInputError = false := by
  induction names generalizing fields with
  | nil => cases h
  | cons name names ih =>
      cases fields with
      | nil => cases h
      | cons field fields =>
          rw [fieldValues] at h
          cases hv : fieldValue name field (typeOf name) with
          | error e =>
              rw [hv] at h
              cases h
              exact fieldValue_error hv
          | ok v =>
              cases hrest : fieldValues typeOf names fields with
              | error e =>
                  rw [hv, hrest] at h
                  cases h
                  exact ih hrest
              | ok pairs =>
                  rw [hv, hrest] at h
                  cases h

theorem lineValues_error {typeOf : String → Option VarType} {names : List String} {line : List Char} {f : Fault}
    (h : lineValues typeOf names line = .error f) : (Failure.fault f).isInputError = false := by
  simp only [lineValues] at h
  split_ifs at h
  · exact fieldValues_error h
  · cases h
    rfl

namespace Stepwise

variable {cfg : Settings}

/-- The states that steps come through before they end in a last state. -/
inductive Course (cfg : Settings) : State → List State → State → Prop where
  | last {s : State} (h : step cfg s = none) : Course cfg s [] s
  | next {s t u : State} {states : List State} (h : step cfg s = some t) (hrest : Course cfg t states u) :
      Course cfg s (s :: states) u

/-- An input statement that is about to be executed: its variables, and the machine that it is executed on. -/
structure Reading where
  names : List String
  machine : Machine

def State.reading? : State → Option Reading
  | .executing (.statement (.input names) :: _) m => some ⟨names, m⟩
  | _ => none

/-- Tells that executing the statement fails for want of an input line. -/
def Reading.starves (cfg : Settings) (r : Reading) : Bool :=
  match exec cfg 1 (.input r.names) r.machine with
  | .done _ _ => false
  | .failed f _ => f.isInputError
  | .outOfFuel => false

/-- The line that the statement gets to see. -/
def Reading.line? (r : Reading) : Option (List Char) :=
  match Exec.readLine r.machine with
  | .done line _ => some line
  | .failed _ _ => none
  | .outOfFuel => none

theorem assignFields_done (pairs : List (String × Value)) (m : Machine) :
    ∃ m', assignFields cfg pairs m = .done () m' := by
  induction pairs generalizing m with
  | nil => exact ⟨m, rfl⟩
  | cons p rest ih =>
      obtain ⟨m', hm'⟩ := ih (noted cfg (.readField p.1 p.2) { m with scope := m.scope.assign p.1 p.2 })
      refine ⟨m', ?_⟩
      rw [assignFields, Exec.bind_apply]
      simp only [Exec.assign, Exec.modify, note_bind, hm']

/-- Executing an input statement fails for want of input just when there is none. -/
theorem Reading.starves_iff (r : Reading) : r.starves cfg = true ↔ r.machine.unread = [] := by
  obtain ⟨names, m⟩ := r
  have hexec : exec cfg 1 (.input names) m =
      (readInput names >>= assignFields cfg) (noted cfg (.executing (Node.input names).kind) m) := note_bind ..
  have hunread : (noted cfg (.executing (Node.input names).kind) m).unread = m.unread := noted_unread _ m
  generalize noted cfg (.executing (Node.input names).kind) m = m₁ at hexec hunread
  simp only [Reading.starves, hexec, Exec.bind_apply, ← hunread]
  cases hline : takeLine? m₁.unread with
  | none =>
      rw [readInput_of_none hline]
      exact ⟨fun _ => takeLine?_eq_none.1 hline, fun _ => rfl⟩
  | some p =>
      have hne : m₁.unread ≠ [] := fun hnil => by
        rw [takeLine?_eq_none.2 hnil] at hline
        cases hline
      cases hpairs : lineValues m₁.typeOf names p.1 with
      | error f =>
          rw [readInput_of_error hline hpairs]
          simp only [lineValues_error hpairs, hne, Bool.false_eq_true]
      | ok pairs =>
          obtain ⟨m₂, hm₂⟩ := @assignFields_done cfg pairs { m₁ with unread := p.2 }
          rw [readInput_of_ok hline hpairs]
          simp only [hm₂, hne, Bool.false_eq_true]

theorem Reading.line?_eq (r : Reading) : r.line? = (inputLines r.machine.unread).head?.map bareLine := by
  rw [Reading.line?, Exec.readLine, takeLine?_eq]
  cases (inputLines r.machine.unread).head? <;> rfl

/-- Tells that a failure for want of input is on its way. -/
def State.starving : State → Bool
  | .failing f _ _ => f.isInputError
  | _ => false

theorem Deed.apply_unread {d : Deed} (hd : d ≠ .takeLine) (m : Machine) : (d.apply cfg m).unread = m.unread := by
  cases d with
  | note msg => exact noted_unread msg m
  | setType name type => cases type <;> rfl
  | takeLine => exact absurd rfl hd
  | _ => rfl

theorem after_unread {deeds : List Deed} (h : .takeLine ∉ deeds) (m : Machine) :
    (after cfg deeds m).unread = m.unread :=
  after_induction (P := fun m' => m'.unread = m.unread) rfl
    fun d hd m' hm' => (d.apply_unread (fun htake => h (htake ▸ hd)) m').trans hm'

variable {m : Machine} {ts : List Task} {s : Node} {c c' : Control} {deeds : List Deed}

theorem Begins.keeps (h : Begins cfg m ts s c deeds) (hs : ∀ names, s ≠ .input names) (m' : Machine) :
    .takeLine ∉ deeds ∧ (c.on m').starving = false := by
  cases h with
  | noLine | line | unfitLine => exact absurd rfl (hs _)
  | _ => exact ⟨by simp, rfl⟩

/-- Rules other than those for input statements take no line, and start no failure for want of one. -/
theorem Move.keeps (h : Move cfg m c c' deeds) (hc : (c.on m).reading? = none) (m' : Machine) :
    .takeLine ∉ deeds ∧ (c'.on m').starving = (c.on m).starving := by
  cases h with
  | unaryFails hf => exact ⟨by simp, Failure.isInputError_of_ofOperator (evalUnary_error hf)⟩
  | binaryFails hf => exact ⟨by simp, Failure.isInputError_of_ofOperator (evalBinary_error hf)⟩
  | @statement s ts c deeds hbegins =>
      have hs : ∀ names, s ≠ .input names := by
        rintro names rfl
        cases hc
      obtain ⟨hline, hstarving⟩ := hbegins.keeps hs m'
      exact ⟨by simpa using hline, hstarving⟩
  | unwind f t ts => exact ⟨by cases t <;> simp [Task.undoing], rfl⟩
  | _ => exact ⟨by simp, rfl⟩

/-- A step that executes no input statement leaves the input alone, and whether a failure for want of it is on its
way. -/
theorem step_keeps {s t : State} (h : step cfg s = some t) (hs : s.reading? = none) :
    t.machine.unread = s.machine.unread ∧ t.starving = s.starving := by
  obtain ⟨c, deeds, hmove, rfl⟩ := step_eq_some_iff.1 h
  rw [← s.on_control] at hs
  obtain ⟨hline, hstarving⟩ := hmove.keeps hs (after cfg deeds s.machine)
  rw [State.on_control] at hstarving
  exact ⟨by rw [Control.machine_on, after_unread hline], hstarving⟩

theorem State.exists_of_reading? {s : State} {r : Reading} (h : s.reading? = some r) :
    ∃ ts, s = .executing (.statement (.input r.names) :: ts) r.machine := by
  unfold State.reading? at h
  split at h
  · cases h
    exact ⟨_, rfl⟩
  · cases h

theorem unread_takeLine (m : Machine) :
    (Deed.apply cfg m .takeLine).unread = (inputLines m.unread).tail.flatten := by
  rw [Deed.apply, takeLine?_eq, Option.map_map]
  cases hlines : inputLines m.unread <;> rfl

/-- An input statement takes the first line of the input, and starves if there is none. -/
theorem step_reading {s t : State} {r : Reading} (h : step cfg s = some t) (hs : s.reading? = some r) :
    s.machine = r.machine ∧ s.starving = false ∧
      t.machine.unread = (inputLines r.machine.unread).tail.flatten ∧ (t.starving = true ↔ r.machine.unread = []) := by
  obtain ⟨ts, rfl⟩ := s.exists_of_reading? hs
  obtain ⟨c, deeds, hmove, rfl⟩ := step_eq_some_iff.1 h
  refine ⟨rfl, rfl, ?_⟩
  have hsome {line : List Char} (hline : r.machine.line? = some line) : r.machine.unread ≠ [] := by
    intro hnil
    rw [Machine.line?, hnil] at hline
    cases hline
  cases hmove with
  | statement hbegins =>
      rw [Control.machine_on, State.machine]
      cases hbegins with
      | noLine hline =>
          have hnil : r.machine.unread = [] := takeLine?_eq_none.1 (Option.map_eq_none_iff.1 hline)
          refine ⟨?_, fun _ => hnil, fun _ => rfl⟩
          rw [after_unread (by simp), hnil]
          rfl
      | line hline hpairs =>
          refine ⟨?_, fun hstarving => ?_, fun hnil => absurd hnil (hsome hline)⟩
          · rw [after_cons, after_cons, after, List.foldl_nil, unread_takeLine, Deed.apply, noted_unread]
          · cases hstarving
      | unfitLine hline hunfit =>
          refine ⟨?_, fun hstarving => ?_, fun hnil => absurd hnil (hsome hline)⟩
          · rw [after_cons, after_cons, after, List.foldl_nil, unread_takeLine, Deed.apply, noted_unread]
          · have hother := lineValues_error hunfit
            exact absurd hstarving (by rw [Control.on, State.starving, hother]; exact Bool.false_ne_true)
      | notStatement hnot => cases hnot

/-! ### Whole runs -/

/-- Input statements have been served with the first lines of an input, each with one of them in order, and what they
leave are the other lines. -/
structure Accounted (input : List Char) (served : List Reading) (rest : List Char) : Prop where
  unread : rest = ((inputLines input).drop served.length).flatten
  lines : served.map Reading.line? = ((inputLines input).take served.length).map fun line => some (bareLine line)

theorem Accounted.none (input : List Char) : Accounted input [] input := ⟨(flatten_inputLines input).symm, rfl⟩

theorem inputLines_tail (cs : List Char) : inputLines (inputLines cs).tail.flatten = (inputLines cs).tail := by
  cases cs with
  | nil => rfl
  | cons c cs => rw [inputLines_cons, List.tail_cons, flatten_inputLines]

theorem Accounted.cons {r : Reading} {served : List Reading} {rest : List Char} (hr : r.machine.unread ≠ [])
    (h : Accounted (inputLines r.machine.unread).tail.flatten served rest) :
    Accounted r.machine.unread (r :: served) rest := by
  obtain ⟨hunread, hlines⟩ := h
  rw [inputLines_tail] at hunread hlines
  have hline := r.line?_eq
  cases hall : inputLines r.machine.unread with
  | nil =>
      have hflatten := flatten_inputLines r.machine.unread
      rw [hall] at hflatten
      exact absurd hflatten.symm hr
  | cons line lines =>
      rw [hall] at hunread hlines hline
      refine ⟨?_, ?_⟩
      · rw [hunread, hall]
        rfl
      · rw [hall, List.map_cons, hline, hlines]
        rfl

/-- The input statements on the way that do not starve are those that the input is accounted to. -/
theorem Course.accounted {s last : State} {states : List State} (h : Course cfg s states last) :
    Accounted s.machine.unread ((states.filterMap State.reading?).filter (!·.starves cfg)) last.machine.unread ∧
      (last.starving = true ↔
        s.starving = true ∨ ∃ r ∈ states.filterMap State.reading?, r.machine.unread = []) := by
  induction h with
  | last h =>
      refine ⟨.none _, .inl, ?_⟩
      rintro (h | ⟨r, hr, -⟩)
      · exact h
      · cases hr
  | @next s t last states h _ ih =>
      obtain ⟨haccounted, hstarving⟩ := ih
      cases hs : s.reading? with
      | none =>
          obtain ⟨hunread, hsame⟩ := step_keeps h hs
          rw [List.filterMap_cons_none hs, ← hunread, ← hsame]
          exact ⟨haccounted, hstarving⟩
      | some r =>
          obtain ⟨hmachine, hcalm, hunread, hnone⟩ := step_reading h hs
          rw [hunread] at haccounted
          rw [List.filterMap_cons_some hs, hmachine, hcalm, List.filter_cons]
          by_cases hr : r.machine.unread = []
          · have hstarves : ¬(!r.starves cfg) = true := by simp [r.starves_iff, hr]
            rw [if_neg hstarves]
            refine ⟨?_, fun _ => .inr ⟨r, List.mem_cons_self, hr⟩, fun _ => hstarving.2 (.inl (hnone.2 hr))⟩
            rw [hr] at haccounted ⊢
            exact haccounted
          · have hserved : (!r.starves cfg) = true := by simpa using mt r.starves_iff.1 hr
            rw [if_pos hserved, hstarving]
            refine ⟨.cons hr haccounted, ?_⟩
            constructor
            · rintro (ht | ⟨r', hr', hnil⟩)
              · exact absurd (hnone.1 ht) hr
              · exact .inr ⟨r', List.mem_cons_of_mem r hr', hnil⟩
            · rintro (hfalse | ⟨r', hr', hnil⟩)
              · cases hfalse
              · rcases List.mem_cons.1 hr' with rfl | hr'
                · exact absurd hnil hr
                · exact .inr ⟨r', hr', hnil⟩

theorem Steps.exists_course {s t : State} (h : Steps cfg s t) (ht : step cfg t = none) :
    ∃ states, Course cfg s states t := by
  induction h using Relation.ReflTransGen.head_induction_on with
  | refl => exact ⟨[], .last ht⟩
  | head hstep _ ih =>
      obtain ⟨states, hstates⟩ := ih
      exact ⟨_, .next hstep hstates⟩

/-- The last state of a run that ends in a certain way. -/
def lastState? : Outcome Unit → Option State
  | .done _ m => some (.executing [] m)
  | .failed f m => some (.failing f [] m)
  | .outOfFuel => none

theorem exists_course_of_run {n : Nat} {p : Node} {m : Machine} {o : Outcome Unit} (h : run cfg n p m = o)
    (ho : o ≠ .outOfFuel) : ∃ states last, Course cfg (.start p m) states last ∧ lastState? o = some last := by
  have hlead := @run_leads cfg n p [] m
  rw [h] at hlead
  cases o with
  | done a m' =>
      obtain ⟨states, hstates⟩ := Steps.exists_course hlead rfl
      exact ⟨states, _, hstates, rfl⟩
  | failed f m' =>
      obtain ⟨states, hstates⟩ := Steps.exists_course hlead rfl
      exact ⟨states, _, hstates, rfl⟩
  | outOfFuel => exact absurd rfl ho

theorem starving_lastState {o : Outcome Unit} {last : State} (h : lastState? o = some last) :
    last.starving = true ↔ ∃ f m, o = .failed f m ∧ f.isInputError = true := by
  cases o with
  | done a m =>
      cases h
      simp [State.starving]
  | failed f m =>
      cases h
      simp [State.starving]
  | outOfFuel => cases h

/-- **Every line of input is accounted for.** However a run ends, the input statements that it executes on its way and
that find a line have taken the first lines of the input, the first statement the first line and so on; each has seen
its line without the carriage returns and newlines at the end, and all the other lines are left. The run fails for want
of input just when some input statement is executed with nothing left. -/
theorem input_lines_accounted {p : Node} {m : Machine} {o : Outcome Unit} (h : EndsAs cfg p m o)
    (ho : o ≠ .outOfFuel) :
    ∃ states last, Course cfg (.start p m) states last ∧ lastState? o = some last ∧
      Accounted m.unread ((states.filterMap State.reading?).filter (!·.starves cfg)) last.machine.unread ∧
      ((∃ f m', o = .failed f m' ∧ f.isInputError = true) ↔
        ∃ r ∈ states.filterMap State.reading?, r.machine.unread = []) := by
  obtain ⟨n, hn⟩ := h
  obtain ⟨states, last, hcourse, hlast⟩ := exists_course_of_run (hn n (Nat.le_refl n)) ho
  obtain ⟨haccounted, hstarving⟩ := hcourse.accounted
  refine ⟨states, last, hcourse, hlast, haccounted, ?_⟩
  rw [← starving_lastState hlast, hstarving]
  exact or_iff_right Bool.false_ne_true

/-- A program that asks for input again and again. -/
def askingProgram : Node := .program .empty [.loop (.literal (.text "OO") "Text") (.block [.input ["x"]])]

theorem input_lines_accounted_askingProgram :
    ∃ states last, Course {} (.start askingProgram (.fresh "a\r\n\nb".toList)) states last ∧
      Accounted "a\r\n\nb".toList ((states.filterMap State.reading?).filter (!·.starves {})) last.machine.unread ∧
      ∃ r ∈ states.filterMap State.reading?, r.machine.unread = [] := by
  obtain ⟨m', hrun⟩ : ∃ m', run {} 10 askingProgram (.fresh "a\r\n\nb".toList) = .failed (.fault .noInput) m' :=
    ⟨_, rfl⟩
  obtain ⟨states, last, hcourse, -, haccounted, hstarved⟩ :=
    input_lines_accounted (endsAs_of_run hrun (Outcome.failed_ne_outOfFuel _ _)) (Outcome.failed_ne_outOfFuel _ _)
  exact ⟨states, last, hcourse, haccounted, hstarved.1 ⟨_, _, rfl, rfl⟩⟩

end Stepwise

end Binisaya
