import Mathlib.Tactic.SplitIfs
import Binisaya.Proofs.Stepwise.Step

/-! The rules of a step. In a step the control passes from what was at hand to what comes next, and a few deeds are done
to the machine. Which deeds these are is told by the control and by what it can see of the machine, which is the
variables, their types and the next line of the input; how they change the machine does not matter to the rule. There is
one rule for each kind of step, and what holds of all steps is shown rule by rule and deed by deed. -/

namespace Binisaya

/-- The line that would be taken next. -/
def Machine.line? (m : Machine) : Option (List Char) := (takeLine? m.unread).map Prod.fst

theorem Machine.exists_of_line? {m : Machine} {line : List Char} (h : m.line? = some line) :
    ∃ rest, takeLine? m.unread = some (line, rest) := by
  obtain ⟨⟨line, rest⟩, hline, rfl⟩ := Option.map_eq_some_iff.1 h
  exact ⟨rest, hline⟩

/-- Variables and types are the same. -/
structure Machine.SameNames (m m' : Machine) : Prop where
  scope : m'.scope = m.scope
  types : m'.types = m.types

namespace Stepwise

/-- What is at hand and left to do in a state. -/
inductive Control where
  | evaluating (e : Node) (ws : List Waiting) (p : Purpose) (ts : List Task)
  | returning (v : Value) (ws : List Waiting) (p : Purpose) (ts : List Task)
  | executing (ts : List Task)
  | failing (f : Failure) (ts : List Task)

def Control.on (m : Machine) : Control → State
  | evaluating e ws p ts => .evaluating e ws p ts m
  | returning v ws p ts => .returning v ws p ts m
  | executing ts => .executing ts m
  | failing f ts => .failing f ts m

def State.control : State → Control
  | .evaluating e ws p ts _ => .evaluating e ws p ts
  | .returning v ws p ts _ => .returning v ws p ts
  | .executing ts _ => .executing ts
  | .failing f ts _ => .failing f ts

@[simp]
theorem State.on_control (s : State) : s.control.on s.machine = s := by cases s <;> rfl

@[simp]
theorem Control.machine_on (c : Control) (m : Machine) : (c.on m).machine = m := by cases c <;> rfl

@[simp]
theorem Control.control_on (c : Control) (m : Machine) : (c.on m).control = c := by cases c <;> rfl

/-- What a step can do to the machine. -/
inductive Deed where
  | note (msg : Message)
  | assign (name : String) (v : Value)
  | declare (name : String) (v : Value)
  | setType (name : String) (type : Option VarType)
  | adopt (types : TypeTable)
  | write (text : String)
  | takeLine
  | enter
  | leave
  | closeLog

def Deed.apply (cfg : Settings) (m : Machine) : Deed → Machine
  | note msg => noted cfg msg m
  | assign name v => { m with scope := m.scope.assign name v }
  | declare name v => { m with scope := m.scope.declare name v }
  | setType name type => typed name type m
  | adopt types => { m with types := m.types.update types }
  | write text => { m with output := m.output ++ text }
  | takeLine => { m with unread := ((takeLine? m.unread).map Prod.snd).getD [] }
  | enter => { m with scope := m.scope.enter }
  | leave => { m with scope := m.scope.leave }
  | closeLog => { m with logging := false }

/-- The machine after some deeds. -/
def after (cfg : Settings) (deeds : List Deed) (m : Machine) : Machine := deeds.foldl (Deed.apply cfg) m

theorem after_cons (cfg : Settings) (d : Deed) (deeds : List Deed) (m : Machine) :
    after cfg (d :: deeds) m = after cfg deeds (d.apply cfg m) := rfl

/-- What every deed keeps is kept. -/
theorem after_induction {cfg : Settings} {P : Machine → Prop} {deeds : List Deed} {m : Machine} (hm : P m)
    (h : ∀ d ∈ deeds, ∀ m, P m → P (d.apply cfg m)) : P (after cfg deeds m) := by
  induction deeds generalizing m with
  | nil => exact hm
  | cons d deeds ih =>
      obtain ⟨hd, hdeeds⟩ := List.forall_mem_cons.1 h
      exact ih (hd m hm) hdeeds

/-- Tells that a node is one of those that can be evaluated. -/
def isEvaluated : Node → Bool
  | .literal .. | .group _ | .ident _ | .unary .. | .binary .. | .assign .. => true
  | _ => false

/-- Tells that a node is one of those that can be executed. -/
def isExecuted : Node → Bool
  | .exprStmt _ | .print _ | .declare .. | .block _ | .branch .. | .loop .. | .input _ => true
  | _ => false

/-- How a statement begins, and the deeds that are done for it then. -/
inductive Begins (cfg : Settings) (m : Machine) (ts : List Task) : Node → Control → List Deed → Prop
  | exprStmt (e : Node) : Begins cfg m ts (.exprStmt e) (.evaluating e [] .discard ts) []
  | printNothing : Begins cfg m ts (.print []) (.executing ts) [.write ""]
  | print (e : Node) (es : List Node) : Begins cfg m ts (.print (e :: es)) (.evaluating e [] (.print [] es) ts) []
  | declareBare {name : String} {type : Option VarType} {v : Value}
      (hv : v = (declared name .absent (typed name type m)).1) :
      Begins cfg m ts (.declare name .null type) (.executing ts)
        [.setType name type, .declare name v, .note (.declared name v)]
  | declare {name : String} {init : Node} {type : Option VarType} (hinit : init ≠ .null) :
      Begins cfg m ts (.declare name init type) (.evaluating init [] (.declare name) ts) [.setType name type]
  | scopedBlock (hscopes : cfg.blockScopes = true) (body : List Node) :
      Begins cfg m ts (.block body) (.executing (body.map .statement ++ .leave :: ts))
        [.enter, .note (.enteredBlock body.length)]
  | flatBlock (hscopes : cfg.blockScopes = false) (body : List Node) :
      Begins cfg m ts (.block body) (.executing (body.map .statement ++ ts)) [.note (.enteredBlock body.length)]
  | branch (condition yes no : Node) :
      Begins cfg m ts (.branch condition yes no) (.evaluating condition [] (.choose yes no) ts) []
  | loop (condition body : Node) :
      Begins cfg m ts (.loop condition body) (.evaluating condition [] (.test condition body) ts) []
  | noLine {names : List String} (hline : m.line? = none) :
      Begins cfg m ts (.input names) (.failing (.fault .noInput) ts) []
  | line {names : List String} {line : List Char} {pairs : List (String × Value)} (hline : m.line? = some line)
      (hpairs : lineValues m.typeOf names line = .ok pairs) :
      Begins cfg m ts (.input names) (.executing (.fields pairs :: ts)) [.takeLine]
  | unfitLine {names : List String} {line : List Char} {f : Fault} (hline : m.line? = some line)
      (hunfit : lineValues m.typeOf names line = .error f) :
      Begins cfg m ts (.input names) (.failing (.fault f) ts) [.takeLine]
  | notStatement {s : Node} (hs : isExecuted s = false) :
      Begins cfg m ts s (.failing (.defect (.notStatement s.kind)) ts) []

/-- What is undone when a failure passes a task. -/
def Task.undoing : Task → List Deed
  | .leave => [.leave]
  | .close => [.closeLog]
  | _ => []

/-- By one step the first control becomes the second, and these deeds are done. -/
inductive Move (cfg : Settings) (m : Machine) : Control → Control → List Deed → Prop
  | literal (v : Value) (kind : String) (ws : List Waiting) (p : Purpose) (ts : List Task) :
      Move cfg m (.evaluating (.literal v kind) ws p ts) (.returning v ws p ts) []
  | group (e : Node) (ws : List Waiting) (p : Purpose) (ts : List Task) :
      Move cfg m (.evaluating (.group e) ws p ts) (.evaluating e ws p ts) []
  | found {name : String} {v : Value} (hv : m.scope.get? name = some v) (ws : List Waiting) (p : Purpose)
      (ts : List Task) : Move cfg m (.evaluating (.ident name) ws p ts) (.returning v ws p ts) []
  | missing {name : String} (hnone : m.scope.get? name = none) (ws : List Waiting) (p : Purpose) (ts : List Task) :
      Move cfg m (.evaluating (.ident name) ws p ts) (.failing (.fault (.undefinedVariable name)) ts) []
  | unary (symbol : String) (e : Node) (ws : List Waiting) (p : Purpose) (ts : List Task) :
      Move cfg m (.evaluating (.unary symbol e) ws p ts) (.evaluating e (.unary symbol :: ws) p ts) []
  | binary (symbol : String) (left right : Node) (ws : List Waiting) (p : Purpose) (ts : List Task) :
      Move cfg m (.evaluating (.binary symbol left right) ws p ts) (.evaluating left (.left symbol right :: ws) p ts) []
  | assign (name : String) (e : Node) (ws : List Waiting) (p : Purpose) (ts : List Task) :
      Move cfg m (.evaluating (.assign name e) ws p ts) (.evaluating e (.assign name :: ws) p ts) []
  | notExpression {e : Node} (he : isEvaluated e = false) (ws : List Waiting) (p : Purpose) (ts : List Task) :
      Move cfg m (.evaluating e ws p ts) (.failing (.defect (.notExpression e.kind)) ts) []
  | unaryDone {symbol : String} {v w : Value} (hw : evalUnary symbol v = .ok w) (ws : List Waiting) (p : Purpose)
      (ts : List Task) : Move cfg m (.returning v (.unary symbol :: ws) p ts) (.returning w ws p ts) []
  | unaryFails {symbol : String} {v : Value} {f : Failure} (hf : evalUnary symbol v = .error f) (ws : List Waiting)
      (p : Purpose) (ts : List Task) : Move cfg m (.returning v (.unary symbol :: ws) p ts) (.failing f ts) []
  | leftDone (symbol : String) (right : Node) (v : Value) (ws : List Waiting) (p : Purpose) (ts : List Task) :
      Move cfg m (.returning v (.left symbol right :: ws) p ts) (.evaluating right (.right symbol v :: ws) p ts) []
  | binaryDone {symbol : String} {a v w : Value} (hw : evalBinary symbol a v = .ok w) (ws : List Waiting) (p : Purpose)
      (ts : List Task) : Move cfg m (.returning v (.right symbol a :: ws) p ts) (.returning w ws p ts)
        [.note (.applied symbol a v)]
  | binaryFails {symbol : String} {a v : Value} {f : Failure} (hf : evalBinary symbol a v = .error f)
      (ws : List Waiting) (p : Purpose) (ts : List Task) :
      Move cfg m (.returning v (.right symbol a :: ws) p ts) (.failing f ts) [.note (.applied symbol a v)]
  | assigned (name : String) (v : Value) (ws : List Waiting) (p : Purpose) (ts : List Task) :
      Move cfg m (.returning v (.assign name :: ws) p ts) (.returning v ws p ts)
        [.assign name v, .note (.assigned name v)]
  | discarded (v : Value) (ts : List Task) : Move cfg m (.returning v [] .discard ts) (.executing ts) []
  | printed (before : List Value) (v : Value) (ts : List Task) :
      Move cfg m (.returning v [] (.print before []) ts) (.executing ts)
        [.write (String.join ((before ++ [v]).map Value.print))]
  | printNext (before : List Value) (v : Value) (e : Node) (es : List Node) (ts : List Task) :
      Move cfg m (.returning v [] (.print before (e :: es)) ts) (.evaluating e [] (.print (before ++ [v]) es) ts) []
  | declared {name : String} {v w : Value} (hw : w = (declared name v m).1) (ts : List Task) :
      Move cfg m (.returning v [] (.declare name) ts) (.executing ts) [.declare name w, .note (.declared name w)]
  | chosen {v : Value} (hv : v.truthy = true) (yes no : Node) (ts : List Task) :
      Move cfg m (.returning v [] (.choose yes no) ts) (.executing (.statement yes :: ts)) [.note (.testedBranch v)]
  | otherwise {v : Value} (hv : v.truthy = false) (yes : Node) {no : Node} (hno : no ≠ .null) (ts : List Task) :
      Move cfg m (.returning v [] (.choose yes no) ts) (.executing (.statement no :: ts)) [.note (.testedBranch v)]
  | passedOver {v : Value} (hv : v.truthy = false) (yes : Node) (ts : List Task) :
      Move cfg m (.returning v [] (.choose yes .null) ts) (.executing ts) [.note (.testedBranch v)]
  | again {v : Value} (hv : v.truthy = true) (condition body : Node) (ts : List Task) :
      Move cfg m (.returning v [] (.test condition body) ts)
        (.executing (.statement body :: .round condition body :: ts)) [.note (.testedLoop v)]
  | enough {v : Value} (hv : v.truthy = false) (condition body : Node) (ts : List Task) :
      Move cfg m (.returning v [] (.test condition body) ts) (.executing ts) [.note (.testedLoop v)]
  | program (types : TypeTable) (body : List Node) (ts : List Task) :
      Move cfg m (.executing (.program (.program types body) :: ts))
        (.executing (body.map .statement ++ .close :: ts)) [.adopt types, .note (.starting body.length)]
  | notProgram {p : Node} (hp : ∀ types body, p ≠ .program types body) (ts : List Task) :
      Move cfg m (.executing (.program p :: ts)) (.failing (.defect .notProgram) ts) []
  | statement {s : Node} {ts : List Task} {c : Control} {deeds : List Deed} (h : Begins cfg m ts s c deeds) :
      Move cfg m (.executing (.statement s :: ts)) c (.note (.executing s.kind) :: deeds)
  | round (condition body : Node) (ts : List Task) :
      Move cfg m (.executing (.round condition body :: ts)) (.evaluating condition [] (.test condition body) ts) []
  | noField (ts : List Task) : Move cfg m (.executing (.fields [] :: ts)) (.executing ts) []
  | field (name : String) (v : Value) (rest : List (String × Value)) (ts : List Task) :
      Move cfg m (.executing (.fields ((name, v) :: rest) :: ts)) (.executing (.fields rest :: ts))
        [.assign name v, .note (.readField name v)]
  | leave (ts : List Task) : Move cfg m (.executing (.leave :: ts)) (.executing ts) [.leave]
  | close (ts : List Task) : Move cfg m (.executing (.close :: ts)) (.executing ts)
      [.write (if cfg.banner then closingNotice else ""), .closeLog]
  | unwind (f : Failure) (t : Task) (ts : List Task) : Move cfg m (.failing f (t :: ts)) (.failing f ts) t.undoing

section

variable {cfg : Settings} (msg : Message) (m : Machine)

@[simp]
theorem noted_scope : (noted cfg msg m).scope = m.scope := by
  unfold noted
  split_ifs <;> rfl

@[simp]
theorem noted_types : (noted cfg msg m).types = m.types := by
  unfold noted
  split_ifs <;> rfl

@[simp]
theorem noted_unread : (noted cfg msg m).unread = m.unread := by
  unfold noted
  split_ifs <;> rfl

@[simp]
theorem noted_logging : (noted cfg msg m).logging = m.logging := by
  unfold noted
  split_ifs <;> rfl

theorem noted_sameNames : m.SameNames (noted cfg msg m) := ⟨noted_scope .., noted_types ..⟩

theorem noted_line? : (noted cfg msg m).line? = m.line? := by rw [Machine.line?, Machine.line?, noted_unread]

end

variable {cfg cfg' : Settings} {m m' : Machine} {ts : List Task} {s : Node} {c c' : Control} {deeds : List Deed}

theorem typeOf_congr (htypes : m'.types = m.types) : m'.typeOf = m.typeOf := by
  funext name
  rw [Machine.typeOf, Machine.typeOf, htypes]

theorem declared_congr (htypes : m'.types = m.types) (name : String) (v : Value) :
    (declared name v m').1 = (declared name v m).1 := by
  simp only [declared, typeOf_congr htypes]

theorem typed_congr (htypes : m'.types = m.types) (name : String) (type : Option VarType) :
    (typed name type m').types = (typed name type m).types := by
  cases type with
  | none => exact htypes
  | some t => simp only [typed, htypes]

/-- A statement begins in the same way on machines with the same variables and types, and if it is one for input also
with the same next line. -/
theorem Begins.congr (h : Begins cfg m ts s c deeds) (hsame : m.SameNames m')
    (hline : (∃ names, s = .input names) → m'.line? = m.line?) (hscopes : cfg'.blockScopes = cfg.blockScopes) :
    Begins cfg' m' ts s c deeds := by
  cases h with
  | declareBare hv => exact .declareBare (hv.trans (declared_congr (typed_congr hsame.types ..) ..).symm)
  | declare hinit => exact .declare hinit
  | scopedBlock h body => exact .scopedBlock (hscopes.trans h) body
  | flatBlock h body => exact .flatBlock (hscopes.trans h) body
  | noLine hnone => exact .noLine ((hline ⟨_, rfl⟩).trans hnone)
  | line hsome hpairs => exact .line ((hline ⟨_, rfl⟩).trans hsome) (typeOf_congr hsame.types ▸ hpairs)
  | unfitLine hsome hunfit => exact .unfitLine ((hline ⟨_, rfl⟩).trans hsome) (typeOf_congr hsame.types ▸ hunfit)
  | notStatement hs => exact .notStatement hs
  | _ => constructor

/-- What a step sees of the machine are the variables and types, and where an input statement is executed the next line;
what it sees of the settings is all but the level of the debug log. -/
theorem Move.congr (h : Move cfg m c c' deeds) (hsame : m.SameNames m')
    (hline : (∃ names ts, c = .executing (.statement (.input names) :: ts)) → m'.line? = m.line?)
    (hscopes : cfg'.blockScopes = cfg.blockScopes) (hbanner : cfg'.banner = cfg.banner) :
    Move cfg' m' c c' deeds := by
  cases h with
  | found hv => exact .found (hsame.scope ▸ hv) ..
  | missing hnone => exact .missing (hsame.scope ▸ hnone) ..
  | declared hw => exact .declared (hw.trans (declared_congr hsame.types ..).symm) ..
  | @statement s ts _ _ h =>
      refine .statement (h.congr hsame ?_ hscopes)
      rintro ⟨names, rfl⟩
      exact hline ⟨names, ts, rfl⟩
  | close ts => exact hbanner ▸ .close ts
  | notProgram hp => exact .notProgram hp _
  | _ =>
      constructor
      all_goals assumption

theorem Begins.begin_eq (h : Begins cfg m ts s c deeds) : begin cfg ts m s = c.on (after cfg deeds m) := by
  cases h with
  | declareBare hv =>
      subst hv
      rfl
  | @declare name init type hinit =>
      cases init with
      | null => exact absurd rfl hinit
      | _ => rfl
  | scopedBlock hscopes body =>
      rw [begin, if_pos hscopes]
      rfl
  | flatBlock hscopes body =>
      rw [begin, if_neg (by rw [hscopes]; exact Bool.false_ne_true)]
      rfl
  | noLine hline =>
      rw [begin, receive, Option.map_eq_none_iff.1 hline]
      rfl
  | line hline hpairs =>
      obtain ⟨rest, hrest⟩ := m.exists_of_line? hline
      simp [begin, receive, hrest, hpairs, Control.on, after, Deed.apply]
  | unfitLine hline hunfit =>
      obtain ⟨rest, hrest⟩ := m.exists_of_line? hline
      simp [begin, receive, hrest, hunfit, Control.on, after, Deed.apply]
  | notStatement hs =>
      cases s with
      | null | program | literal | group | unary | binary | ident | assign => rfl
      | _ => cases hs
  | _ => rfl

theorem exists_begins (cfg : Settings) (m : Machine) (ts : List Task) (s : Node) :
    ∃ c deeds, Begins cfg m ts s c deeds := by
  cases s with
  | exprStmt e => exact ⟨_, _, .exprStmt e⟩
  | print items =>
      cases items with
      | nil => exact ⟨_, _, .printNothing⟩
      | cons e es => exact ⟨_, _, .print e es⟩
  | declare name init type =>
      by_cases hinit : init = .null
      · subst hinit
        exact ⟨_, _, .declareBare rfl⟩
      · exact ⟨_, _, .declare hinit⟩
  | block body =>
      cases hscopes : cfg.blockScopes with
      | true => exact ⟨_, _, .scopedBlock hscopes body⟩
      | false => exact ⟨_, _, .flatBlock hscopes body⟩
  | branch condition yes no => exact ⟨_, _, .branch condition yes no⟩
  | loop condition body => exact ⟨_, _, .loop condition body⟩
  | input names =>
      cases hline : m.line? with
      | none => exact ⟨_, _, .noLine hline⟩
      | some line =>
          cases hpairs : lineValues m.typeOf names line with
          | ok pairs => exact ⟨_, _, .line hline hpairs⟩
          | error f => exact ⟨_, _, .unfitLine hline hpairs⟩
  | _ => exact ⟨_, _, .notStatement rfl⟩

/-- The rules do what the step does. -/
theorem Move.step_eq (h : Move cfg m c c' deeds) : step cfg (c.on m) = some (c'.on (after cfg deeds m)) := by
  cases h with
  | found hv => simp [Control.on, step, enter, hv, after]
  | missing hnone => simp [Control.on, step, enter, hnone, after]
  | @notExpression e he =>
      cases e with
      | literal | group | unary | binary | ident | assign => cases he
      | _ => rfl
  | unaryDone hw => simp [Control.on, step, operate, settle, hw, after]
  | unaryFails hf => simp [Control.on, step, operate, settle, hf, after]
  | binaryDone hw => simp [Control.on, step, operate, settle, hw, after, Deed.apply]
  | binaryFails hf => simp [Control.on, step, operate, settle, hf, after, Deed.apply]
  | declared hw =>
      subst hw
      rfl
  | chosen hv => simp [Control.on, step, deliver, hv, after, Deed.apply]
  | @otherwise v hv yes no hno =>
      cases no with
      | null => exact absurd rfl hno
      | _ => simp [Control.on, step, deliver, hv, after, Deed.apply]
  | passedOver hv => simp [Control.on, step, deliver, hv, after, Deed.apply]
  | again hv => simp [Control.on, step, deliver, hv, after, Deed.apply]
  | enough hv => simp [Control.on, step, deliver, hv, after, Deed.apply]
  | @notProgram p hp =>
      cases p with
      | program types body => exact absurd rfl (hp types body)
      | _ => rfl
  | @statement s ts c deeds h =>
      -- what was said before does not matter
      exact congrArg some (h.congr (noted_sameNames (.executing s.kind) m) (fun _ => noted_line? _ m) rfl).begin_eq
  | close ts =>
      cases hbanner : cfg.banner <;> simp [Control.on, step, perform, hbanner, after, Deed.apply]
  | unwind f t ts => cases t <;> rfl
  | _ => rfl

/-- There is a rule for every step. -/
theorem exists_move {s : State} (h : step cfg s ≠ none) : ∃ c deeds, Move cfg s.machine s.control c deeds := by
  cases s with
  | evaluating e ws p ts m =>
      cases e with
      | literal v kind => exact ⟨_, _, .literal v kind ws p ts⟩
      | group e => exact ⟨_, _, .group e ws p ts⟩
      | ident name =>
          cases hv : m.scope.get? name with
          | some v => exact ⟨_, _, .found hv ws p ts⟩
          | none => exact ⟨_, _, .missing hv ws p ts⟩
      | unary symbol e => exact ⟨_, _, .unary symbol e ws p ts⟩
      | binary symbol left right => exact ⟨_, _, .binary symbol left right ws p ts⟩
      | assign name e => exact ⟨_, _, .assign name e ws p ts⟩
      | _ => exact ⟨_, _, .notExpression rfl ws p ts⟩
  | returning v ws p ts m =>
      cases ws with
      | cons w ws =>
          cases w with
          | unary symbol =>
              cases hw : evalUnary symbol v with
              | ok w => exact ⟨_, _, .unaryDone hw ws p ts⟩
              | error f => exact ⟨_, _, .unaryFails hw ws p ts⟩
          | left symbol right => exact ⟨_, _, .leftDone symbol right v ws p ts⟩
          | right symbol a =>
              cases hw : evalBinary symbol a v with
              | ok w => exact ⟨_, _, .binaryDone hw ws p ts⟩
              | error f => exact ⟨_, _, .binaryFails hw ws p ts⟩
          | assign name => exact ⟨_, _, .assigned name v ws p ts⟩
      | nil =>
          cases p with
          | discard => exact ⟨_, _, .discarded v ts⟩
          | print before rest =>
              cases rest with
              | nil => exact ⟨_, _, .printed before v ts⟩
              | cons e es => exact ⟨_, _, .printNext before v e es ts⟩
          | declare name => exact ⟨_, _, .declared rfl ts⟩
          | choose yes no =>
              cases hv : v.truthy with
              | true => exact ⟨_, _, .chosen hv yes no ts⟩
              | false =>
                  by_cases hno : no = .null
                  · subst hno
                    exact ⟨_, _, .passedOver hv yes ts⟩
                  · exact ⟨_, _, .otherwise hv yes hno ts⟩
          | test condition body =>
              cases hv : v.truthy with
              | true => exact ⟨_, _, .again hv condition body ts⟩
              | false => exact ⟨_, _, .enough hv condition body ts⟩
  | executing ts m =>
      cases ts with
      | nil => exact absurd rfl h
      | cons t ts =>
          cases t with
          | program p =>
              cases p with
              | program types body => exact ⟨_, _, .program types body ts⟩
              | _ => exact ⟨_, _, .notProgram (by simp) ts⟩
          | statement s =>
              obtain ⟨c, deeds, hbegins⟩ := exists_begins cfg m ts s
              exact ⟨c, _, .statement hbegins⟩
          | round condition body => exact ⟨_, _, .round condition body ts⟩
          | fields pairs =>
              cases pairs with
              | nil => exact ⟨_, _, .noField ts⟩
              | cons q rest => exact ⟨_, _, .field q.1 q.2 rest ts⟩
          | leave => exact ⟨_, _, .leave ts⟩
          | close => exact ⟨_, _, .close ts⟩
  | failing f ts m =>
      cases ts with
      | nil => exact absurd rfl h
      | cons t ts => exact ⟨_, _, .unwind f t ts⟩

/-- **What a step can do.** A step follows one of the rules, from what is at hand to what comes next, and does its deeds
to the machine. -/
theorem step_eq_some_iff {s t : State} : step cfg s = some t ↔
    ∃ c deeds, Move cfg s.machine s.control c deeds ∧ t = c.on (after cfg deeds s.machine) := by
  constructor
  · intro h
    obtain ⟨c, deeds, hmove⟩ := exists_move (by rw [h]; exact Option.some_ne_none t)
    have hstep := hmove.step_eq
    rw [State.on_control, h] at hstep
    exact ⟨c, deeds, hmove, Option.some.inj hstep⟩
  · rintro ⟨c, deeds, hmove, rfl⟩
    rw [← hmove.step_eq, State.on_control]

/-- A line is taken or the log closed by the last of the deeds only. -/
def Orderly : List Deed → Prop
  | [] | [_] => True
  | d :: deeds => d ≠ .takeLine ∧ d ≠ .closeLog ∧ Orderly deeds

theorem Move.orderly (h : Move cfg m c c' deeds) : Orderly deeds := by
  cases h with
  | statement h => cases h <;> simp [Orderly]
  | unwind f t ts => cases t <;> exact trivial
  | _ => simp [Orderly]

end Stepwise

end Binisaya
