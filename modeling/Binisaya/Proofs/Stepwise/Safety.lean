import Binisaya.Proofs.Proper
import Binisaya.Proofs.Stepwise.Adequacy
import Binisaya.Proofs.Stepwise.Moves

/-! Programs from source text never go wrong. In every state that a run of such a program comes to, what is at hand
and what is left to do is well formed and all variables hold proper values, so a run fails with an error of the
language or with the remainder of an infinite number, and with nothing else. -/

namespace Binisaya

/-- Every variable of a scope and of the scopes around it holds a proper value. -/
def Scope.Proper (s : Scope) : Prop := ∀ f ∈ s.frames, ∀ name v, f.get? name = some v → v.Proper

namespace Scope.Proper

variable {s : Scope} {name : String} {v : Value}

theorem empty : Scope.empty.Proper := by
  intro f hf name v h
  rw [List.mem_singleton.1 hf] at h
  cases h

theorem insert_frame {f : Frame} (hf : ∀ name v, f.get? name = some v → v.Proper) (hv : v.Proper) :
    ∀ other w, (f.insert name v).get? other = some w → w.Proper := by
  intro other w h
  rw [Table.get?_insert] at h
  split_ifs at h with heq
  · cases h
    exact hv
  · exact hf other w h

theorem declare (hs : s.Proper) (hv : v.Proper) : (s.declare name v).Proper := by
  intro f hf
  rcases List.mem_cons.1 hf with rfl | hf
  · exact insert_frame (hs s.own List.mem_cons_self) hv
  · exact hs f (List.mem_cons_of_mem _ hf)

theorem rebind {frames : List Frame} (hs : ∀ f ∈ frames, ∀ name v, f.get? name = some v → v.Proper) (hv : v.Proper) :
    ∀ f ∈ rebind name v frames, ∀ other w, f.get? other = some w → w.Proper := by
  induction frames with
  | nil => exact List.forall_mem_nil _
  | cons g gs ih =>
      intro f hf
      rw [Binisaya.rebind] at hf
      split_ifs at hf with hbound
      · rcases List.mem_cons.1 hf with rfl | hf
        · exact insert_frame (hs g List.mem_cons_self) hv
        · exact hs f (List.mem_cons_of_mem _ hf)
      · rcases List.mem_cons.1 hf with rfl | hf
        · exact hs f List.mem_cons_self
        · exact ih (fun f hf => hs f (List.mem_cons_of_mem _ hf)) f hf

theorem assign (hs : s.Proper) (hv : v.Proper) : (s.assign name v).Proper := by
  unfold Scope.assign
  split_ifs with hbound
  · exact hs.declare hv
  · intro f hf
    rcases List.mem_cons.1 hf with rfl | hf
    · exact hs s.own List.mem_cons_self
    · exact rebind (fun f hf => hs f (List.mem_cons_of_mem _ hf)) hv f hf

theorem enter (hs : s.Proper) : s.enter.Proper := by
  intro f hf name v h
  rcases List.mem_cons.1 hf with rfl | hf
  · cases h
  · exact hs f hf name v h

theorem leave (hs : s.Proper) : s.leave.Proper := by
  intro f hf
  unfold Scope.leave at hf
  cases ho : s.outer with
  | nil =>
      rw [ho] at hf
      exact hs f hf
  | cons g gs =>
      rw [ho] at hf
      refine hs f (List.mem_cons_of_mem _ ?_)
      rwa [ho]

theorem get? (hs : s.Proper) (h : s.get? name = some v) : v.Proper := by
  obtain ⟨f, hf, hv⟩ := List.exists_of_findSome?_eq_some h
  exact hs f hf name v hv

end Scope.Proper

namespace Stepwise

variable {cfg : Settings}

def Waiting.Sound : Waiting → Prop
  | .unary symbol => ∃ op, UnaryOp.ofSymbol? symbol = some op
  | .left symbol e => (∃ op, BinaryOp.ofSymbol? symbol = some op) ∧ e.IsExpression
  | .right symbol _ => ∃ op, BinaryOp.ofSymbol? symbol = some op
  | .assign _ => True

def Purpose.Sound : Purpose → Prop
  | .discard | .declare _ => True
  | .print _ rest => ∀ e ∈ rest, e.IsExpression
  | .choose yes no => yes.IsStatement ∧ (no ≠ .null → no.IsStatement)
  | .test condition body => condition.IsExpression ∧ body.IsStatement

def Task.Sound : Task → Prop
  | .program p => p.IsProgram
  | .statement s => s.IsStatement
  | .round condition body => condition.IsExpression ∧ body.IsStatement
  | .fields pairs => ∀ q ∈ pairs, q.2.Proper
  | .leave | .close => True

/-- What an expression at hand is wanted for is well formed, from the operators that wait for its value to the tasks after
it. -/
structure Within (ws : List Waiting) (p : Purpose) (ts : List Task) : Prop where
  waiting : ∀ w ∈ ws, w.Sound
  purpose : p.Sound
  tasks : ∀ t ∈ ts, t.Sound

def Control.Sound : Control → Prop
  | .evaluating e ws p ts => e.IsExpression ∧ Within ws p ts
  | .returning v ws p ts => v.Proper ∧ Within ws p ts
  | .executing ts => ∀ t ∈ ts, t.Sound
  | .failing f ts => f.IsRunTime ∧ ∀ t ∈ ts, t.Sound

/-- What is at hand and left to do is well formed, and all variables hold proper values. -/
structure State.Sound (s : State) : Prop where
  control : s.control.Sound
  scope : s.machine.scope.Proper

/-- Variables are given proper values only. -/
def Deed.Sound : Deed → Prop
  | .assign _ v | .declare _ v => v.Proper
  | _ => True

theorem Deed.apply_proper {d : Deed} {m : Machine} (hd : d.Sound) (hm : m.scope.Proper) :
    (d.apply cfg m).scope.Proper := by
  cases d with
  | note msg =>
      rw [Deed.apply, noted_scope]
      exact hm
  | assign name v => exact hm.assign hd
  | declare name v => exact hm.declare hd
  | setType name type => cases type <;> exact hm
  | enter => exact hm.enter
  | leave => exact hm.leave
  | _ => exact hm

section

variable {w : Waiting} {ws : List Waiting} {p : Purpose} {ts : List Task}

theorem Within.cons (h : Within ws p ts) (hw : w.Sound) : Within (w :: ws) p ts :=
  ⟨List.forall_mem_cons.2 ⟨hw, h.waiting⟩, h.purpose, h.tasks⟩

theorem Within.head (h : Within (w :: ws) p ts) : w.Sound := h.waiting w List.mem_cons_self

theorem Within.tail (h : Within (w :: ws) p ts) : Within ws p ts :=
  ⟨(List.forall_mem_cons.1 h.waiting).2, h.purpose, h.tasks⟩

theorem Within.alone (hp : p.Sound) (hts : ∀ t ∈ ts, t.Sound) : Within [] p ts := ⟨List.forall_mem_nil _, hp, hts⟩

theorem sound_statements {body : List Node} (hbody : ∀ s ∈ body, s.IsStatement) (hts : ∀ t ∈ ts, t.Sound) :
    ∀ t ∈ body.map Task.statement ++ ts, t.Sound :=
  List.forall_mem_append.2 ⟨List.forall_mem_map.2 hbody, hts⟩

end

theorem declared_proper {name : String} {v : Value} {m : Machine} (hv : v.Proper) : (declared name v m).1.Proper := by
  cases v with
  | absent => cases hv
  | _ => exact hv

/-- A bare declaration takes its value from the type that was entered just before. -/
theorem declared_absent_proper {name : String} {type : VarType} {m : Machine} (htype : type.initialValue.Proper) :
    (declared name .absent (typed name (some type) m)).1.Proper := by
  have htypeOf : (typed name (some type) m).typeOf name = some type := by
    simp [typed, Machine.typeOf]
  simp only [declared, if_true, htypeOf]
  exact htype

variable {m : Machine} {ts : List Task} {s : Node} {c c' : Control} {deeds : List Deed}

theorem Begins.sound (h : Begins cfg m ts s c deeds) (hs : s.IsStatement) (hts : ∀ t ∈ ts, t.Sound) :
    c.Sound ∧ ∀ d ∈ deeds, d.Sound := by
  cases h with
  | exprStmt e =>
      cases hs with
      | exprStmt he => exact ⟨⟨he, .alone trivial hts⟩, List.forall_mem_nil _⟩
  | printNothing => exact ⟨hts, by simp [Deed.Sound]⟩
  | print e es =>
      cases hs with
      | print hitems =>
          obtain ⟨he, hes⟩ := List.forall_mem_cons.1 hitems
          exact ⟨⟨he, .alone hes hts⟩, List.forall_mem_nil _⟩
  | declareBare hv =>
      cases hs with
      | declare _ htype => exact ⟨hts, by simp [Deed.Sound, hv, declared_absent_proper htype]⟩
  | declare hne =>
      cases hs with
      | declare hinit => exact ⟨⟨hinit hne, .alone trivial hts⟩, by simp [Deed.Sound]⟩
  | scopedBlock _ body =>
      cases hs with
      | block hbody => exact ⟨sound_statements hbody (List.forall_mem_cons.2 ⟨trivial, hts⟩), by simp [Deed.Sound]⟩
  | flatBlock _ body =>
      cases hs with
      | block hbody => exact ⟨sound_statements hbody hts, by simp [Deed.Sound]⟩
  | branch condition yes no =>
      cases hs with
      | branch hcondition hyes hno => exact ⟨⟨hcondition, .alone ⟨hyes, hno⟩ hts⟩, List.forall_mem_nil _⟩
  | loop condition body =>
      cases hs with
      | loop hcondition hbody => exact ⟨⟨hcondition, .alone ⟨hcondition, hbody⟩ hts⟩, List.forall_mem_nil _⟩
  | noLine => exact ⟨⟨Fault.isRunTime rfl, hts⟩, List.forall_mem_nil _⟩
  | @line names line _ _ hpairs =>
      have hline := lineValues_settled m.typeOf names line
      rw [hpairs] at hline
      exact ⟨List.forall_mem_cons.2 ⟨hline, hts⟩, by simp [Deed.Sound]⟩
  | @unfitLine names line _ _ hunfit =>
      have hline := lineValues_settled m.typeOf names line
      rw [hunfit] at hline
      exact ⟨⟨hline, hts⟩, by simp [Deed.Sound]⟩
  | notStatement hnot => cases hs <;> cases hnot

/-- Each rule leads from what is well formed to what is, and gives proper values to variables. -/
theorem Move.sound (h : Move cfg m c c' deeds) (hc : c.Sound) (hm : m.scope.Proper) :
    c'.Sound ∧ ∀ d ∈ deeds, d.Sound := by
  have hnone : ∀ d ∈ ([] : List Deed), d.Sound := List.forall_mem_nil _
  cases h with
  | literal =>
      cases hc.1 with
      | literal hv => exact ⟨⟨hv, hc.2⟩, hnone⟩
  | group =>
      cases hc.1 with
      | group he => exact ⟨⟨he, hc.2⟩, hnone⟩
  | found hv => exact ⟨⟨hm.get? hv, hc.2⟩, hnone⟩
  | missing => exact ⟨⟨Fault.isRunTime rfl, hc.2.tasks⟩, hnone⟩
  | unary =>
      cases hc.1 with
      | unary hop he => exact ⟨⟨he, hc.2.cons ⟨_, hop⟩⟩, hnone⟩
  | binary =>
      cases hc.1 with
      | binary hop hleft hright => exact ⟨⟨hleft, hc.2.cons ⟨⟨_, hop⟩, hright⟩⟩, hnone⟩
  | assign =>
      cases hc.1 with
      | assign he => exact ⟨⟨he, hc.2.cons trivial⟩, hnone⟩
  | notExpression hnot => cases hc.1 <;> cases hnot
  | @unaryDone symbol v w hw =>
      obtain ⟨op, hop⟩ := hc.2.head
      have hsettled := settled_evalUnary hop v
      rw [hw] at hsettled
      exact ⟨⟨hsettled, hc.2.tail⟩, hnone⟩
  | @unaryFails symbol v f hf =>
      obtain ⟨op, hop⟩ := hc.2.head
      have hsettled := settled_evalUnary hop v
      rw [hf] at hsettled
      exact ⟨⟨hsettled, hc.2.tasks⟩, hnone⟩
  | leftDone =>
      obtain ⟨hop, he⟩ := hc.2.head
      exact ⟨⟨he, hc.2.tail.cons hop⟩, hnone⟩
  | @binaryDone symbol a v w hw =>
      obtain ⟨op, hop⟩ := hc.2.head
      have hsettled := settled_evalBinary hop a v
      rw [hw] at hsettled
      exact ⟨⟨hsettled, hc.2.tail⟩, by simp [Deed.Sound]⟩
  | @binaryFails symbol a v f hf =>
      obtain ⟨op, hop⟩ := hc.2.head
      have hsettled := settled_evalBinary hop a v
      rw [hf] at hsettled
      exact ⟨⟨hsettled, hc.2.tasks⟩, by simp [Deed.Sound]⟩
  | assigned => exact ⟨⟨hc.1, hc.2.tail⟩, by simp [Deed.Sound, hc.1]⟩
  | discarded => exact ⟨hc.2.tasks, hnone⟩
  | printed => exact ⟨hc.2.tasks, by simp [Deed.Sound]⟩
  | printNext =>
      obtain ⟨he, hes⟩ := List.forall_mem_cons.1 hc.2.purpose
      exact ⟨⟨he, .alone hes hc.2.tasks⟩, hnone⟩
  | declared hw => exact ⟨hc.2.tasks, by simp [Deed.Sound, hw, declared_proper hc.1]⟩
  | chosen => exact ⟨List.forall_mem_cons.2 ⟨hc.2.purpose.1, hc.2.tasks⟩, by simp [Deed.Sound]⟩
  | otherwise _ _ hno => exact ⟨List.forall_mem_cons.2 ⟨hc.2.purpose.2 hno, hc.2.tasks⟩, by simp [Deed.Sound]⟩
  | passedOver => exact ⟨hc.2.tasks, by simp [Deed.Sound]⟩
  | again =>
      have hround := List.forall_mem_cons.2 ⟨show (Task.round _ _).Sound from hc.2.purpose, hc.2.tasks⟩
      exact ⟨List.forall_mem_cons.2 ⟨hc.2.purpose.2, hround⟩, by simp [Deed.Sound]⟩
  | enough => exact ⟨hc.2.tasks, by simp [Deed.Sound]⟩
  | program =>
      obtain ⟨hp, hts⟩ := List.forall_mem_cons.1 hc
      cases hp with
      | program hbody => exact ⟨sound_statements hbody (List.forall_mem_cons.2 ⟨trivial, hts⟩), by simp [Deed.Sound]⟩
  | notProgram hnot =>
      cases (List.forall_mem_cons.1 hc).1 with
      | program => exact absurd rfl (hnot _ _)
  | statement hbegins =>
      obtain ⟨hs, hts⟩ := List.forall_mem_cons.1 hc
      obtain ⟨hc', hdeeds⟩ := hbegins.sound hs hts
      exact ⟨hc', List.forall_mem_cons.2 ⟨trivial, hdeeds⟩⟩
  | round =>
      obtain ⟨hround, hts⟩ := List.forall_mem_cons.1 hc
      exact ⟨⟨hround.1, .alone hround hts⟩, hnone⟩
  | noField => exact ⟨(List.forall_mem_cons.1 hc).2, hnone⟩
  | field =>
      obtain ⟨hpairs, hts⟩ := List.forall_mem_cons.1 hc
      obtain ⟨hv, hrest⟩ := List.forall_mem_cons.1 hpairs
      exact ⟨List.forall_mem_cons.2 ⟨hrest, hts⟩, by simp [Deed.Sound, hv]⟩
  | leave => exact ⟨(List.forall_mem_cons.1 hc).2, by simp [Deed.Sound]⟩
  | close => exact ⟨(List.forall_mem_cons.1 hc).2, by simp [Deed.Sound]⟩
  | unwind f t ts =>
      refine ⟨⟨hc.1, (List.forall_mem_cons.1 hc.2).2⟩, ?_⟩
      cases t <;> simp [Task.undoing, Deed.Sound]

theorem step_sound {s t : State} (hs : s.Sound) (h : step cfg s = some t) : t.Sound := by
  obtain ⟨c, deeds, hmove, rfl⟩ := step_eq_some_iff.1 h
  obtain ⟨hc, hdeeds⟩ := hmove.sound hs.control hs.scope
  have hscope : (after cfg deeds s.machine).scope.Proper :=
    after_induction (P := fun m => m.scope.Proper) hs.scope fun d hd m hm => d.apply_proper (hdeeds d hd) hm
  exact ⟨by rwa [Control.control_on], by rwa [Control.machine_on]⟩

theorem Steps.sound {s t : State} (hst : Steps cfg s t) (hs : s.Sound) : t.Sound := by
  induction hst with
  | refl => exact hs
  | tail _ h ih => exact step_sound ih h

theorem start_sound {p : Node} {m : Machine} (hp : p.IsProgram) (hm : m.scope.Proper) : (State.start p m).Sound :=
  ⟨List.forall_mem_singleton.2 hp, hm⟩

end Stepwise

end Binisaya
