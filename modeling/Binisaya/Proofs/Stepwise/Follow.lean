import Binisaya.Proofs.Fuel
import Binisaya.Proofs.Stepwise.Step

/-! The steps of a run follow the program that runs: from a state in which an expression, a statement or a program
is at hand, the steps come to where evaluating, executing or running it ends, and leave alone what is to be done
after it. -/

namespace Binisaya.Stepwise

variable {cfg : Settings}

theorem note_apply (cfg : Settings) (msg : Message) (m : Machine) :
    Exec.note cfg msg m = .done () (noted cfg msg m) := by
  unfold Exec.note noted
  split <;> rfl

theorem note_bind {α : Type} (cfg : Settings) (msg : Message) (x : Exec α) (m : Machine) :
    (Exec.note cfg msg >>= fun _ => x) m = x (noted cfg msg m) := by
  rw [Exec.bind_apply, note_apply]

theorem Steps.head {s t u : State} (h : step cfg s = some t) (htu : Steps cfg t u) : Steps cfg s u :=
  Relation.ReflTransGen.head h htu

theorem Steps.one {s t : State} (h : step cfg s = some t) : Steps cfg s t := Relation.ReflTransGen.single h

theorem Steps.refl (s : State) : Steps cfg s s := Relation.ReflTransGen.refl

theorem Steps.trans {s t u : State} (hst : Steps cfg s t) (htu : Steps cfg t u) : Steps cfg s u :=
  Relation.ReflTransGen.trans hst htu

/-- From a state the steps come to where an action ends: to a goal if it ends well, and otherwise to a failure that
has the given tasks to pass. -/
def Leads {α : Type} (cfg : Settings) (s : State) (ts : List Task) (goal : α → Machine → State) : Outcome α → Prop
  | .done a m => Steps cfg s (goal a m)
  | .failed f m => Steps cfg s (.failing f ts m)
  | .outOfFuel => True

section

variable {α β : Type} {s t : State} {ts : List Task}

theorem Leads.after {goal : α → Machine → State} {o : Outcome α} (hst : Steps cfg s t) (h : Leads cfg t ts goal o) :
    Leads cfg s ts goal o := by
  cases o with
  | done a m => exact hst.trans h
  | failed f m => exact hst.trans h
  | outOfFuel => trivial

theorem Leads.head {goal : α → Machine → State} {o : Outcome α} (hst : step cfg s = some t)
    (h : Leads cfg t ts goal o) : Leads cfg s ts goal o :=
  h.after (.one hst)

theorem Leads.bind {mid : α → Machine → State} {goal : β → Machine → State} {x : Exec α} {f : α → Exec β}
    {m : Machine} (hx : Leads cfg s ts mid (x m)) (hf : ∀ a m', Leads cfg (mid a m') ts goal (f a m')) :
    Leads cfg s ts goal ((x >>= f) m) := by
  rw [Exec.bind_apply]
  cases h : x m with
  | done a m' =>
      rw [h] at hx
      exact (hf a m').after hx
  | failed e m' =>
      rw [h] at hx
      exact hx
  | outOfFuel => trivial

theorem Leads.noted {msg : Message} {goal : α → Machine → State} {x : Exec α} {m : Machine}
    (h : Leads cfg s ts goal (x (noted cfg msg m))) :
    Leads cfg s ts goal ((Exec.note cfg msg >>= fun _ => x) m) := by
  rw [note_bind]
  exact h

end

theorem eval_leads (e : Node) (ws : List Waiting) (p : Purpose) (ts : List Task) (m : Machine) :
    Leads cfg (.evaluating e ws p ts m) ts (fun v m' => .returning v ws p ts m') (eval cfg e m) := by
  fun_induction eval cfg e generalizing ws m with
  | case1 v => exact .one rfl
  | case2 e ih => exact Leads.head rfl (ih ws m)
  | case3 name =>
      refine Leads.head rfl ?_
      simp only [enter, Exec.lookup]
      cases m.scope.get? name with
      | none => exact .refl _
      | some v => exact .refl _
  | case4 symbol e ih =>
      refine Leads.head rfl ((ih _ m).bind fun a m' => Leads.head rfl ?_)
      simp only [operate]
      cases evalUnary symbol a with
      | ok v => exact .refl _
      | error f => exact .refl _
  | case5 symbol left right ihl ihr =>
      refine Leads.head rfl ((ihl _ m).bind fun a m₁ => Leads.head rfl ((ihr _ m₁).bind fun b m₂ => Leads.head rfl ?_))
      rw [note_bind]
      simp only [operate]
      cases evalBinary symbol a b with
      | ok v => exact .refl _
      | error f => exact .refl _
  | case6 name e ih =>
      refine Leads.head rfl ((ih _ m).bind fun v m' => Leads.head rfl ?_)
      rw [Exec.bind_apply]
      simp only [Exec.assign, Exec.modify, note_bind, operate]
      exact .refl _
  | case7 other h =>
      refine Leads.head rfl ?_
      rw [enter]
      · exact .refl _
      all_goals assumption

theorem evalAll_leads (e : Node) (es : List Node) (before : List Value) (ts : List Task) (m : Machine) :
    Leads cfg (.evaluating e [] (.print before es) ts m) ts
      (fun vs m' => .executing ts (printed (before ++ vs) m')) (evalAll cfg (e :: es) m) := by
  induction es generalizing e before m with
  | nil =>
      refine (eval_leads e [] _ ts m).bind fun v m' => ?_
      exact Steps.one rfl
  | cons e' es ih =>
      refine (eval_leads e [] _ ts m).bind fun v m' => Leads.head rfl ((ih e' (before ++ [v]) m').bind fun vs m'' => ?_)
      rw [List.append_assoc]
      exact .refl _

/-- A failure passes a task that has nothing to undo. -/
theorem Leads.pass {α : Type} {s : State} {task : Task} {ts : List Task} {goal : α → Machine → State} {o : Outcome α}
    (htask : ∀ m, unwind m task = m) (h : Leads cfg s (task :: ts) goal o) : Leads cfg s ts goal o := by
  cases o with
  | done a m => exact h
  | failed f m => exact h.trans (.one (by simp only [step, htask]))
  | outOfFuel => trivial

theorem Leads.passStatements {α : Type} {s : State} {body : List Node} {ts : List Task} {goal : α → Machine → State}
    {o : Outcome α} (h : Leads cfg s (body.map .statement ++ ts) goal o) : Leads cfg s ts goal o := by
  induction body with
  | nil => exact h
  | cons b body ih => exact ih (h.pass fun _ => rfl)

theorem readInput_leads (names : List String) (ts : List Task) (m : Machine) :
    Leads cfg (receive names ts m) ts (fun pairs m' => .executing (.fields pairs :: ts) m') (readInput names m) := by
  change Leads cfg _ ts _ (Exec.bind Exec.readLine _ m)
  unfold receive Exec.bind Exec.readLine
  cases takeLine? m.unread with
  | none => exact Steps.refl _
  | some p =>
      obtain ⟨line, rest⟩ := p
      have htypes : Machine.typeOf { m with unread := rest } = m.typeOf := rfl
      simp only [htypes]
      cases lineValues m.typeOf names line with
      | ok pairs => exact Steps.refl _
      | error f => exact Steps.refl _

theorem assignFields_leads (pairs : List (String × Value)) (ts : List Task) (m : Machine) :
    Leads cfg (.executing (.fields pairs :: ts) m) ts (fun _ m' => .executing ts m') (assignFields cfg pairs m) := by
  induction pairs generalizing m with
  | nil => exact Steps.one rfl
  | cons p rest ih =>
      refine Leads.head rfl ?_
      rw [assignFields, Exec.bind_apply]
      simp only [Exec.assign, Exec.modify, note_bind]
      exact ih _

/-- The steps of a statement come to where executing it ends, whatever is to be done after it. -/
def Followed (cfg : Settings) (action : Exec Unit) (s : Node) : Prop :=
  ∀ ts m, Leads cfg (.executing (.statement s :: ts) m) ts (fun _ m' => .executing ts m') (action m)

theorem inOrder_leads {action : Node → Exec Unit} (h : ∀ s, Followed cfg (action s) s) (body : List Node)
    (ts : List Task) (m : Machine) :
    Leads cfg (.executing (body.map .statement ++ ts) m) ts (fun _ m' => .executing ts m') (inOrder action body m) := by
  induction body generalizing m with
  | nil => exact Steps.refl _
  | cons s ss ih => exact ((h s _ m).passStatements).bind fun _ m' => ih m'

theorem repeatWhile_leads {action : Exec Unit} {body : Node} (h : Followed cfg action body) (condition : Node)
    (ts : List Task) (n : Nat) (m : Machine) :
    Leads cfg (.evaluating condition [] (.test condition body) ts m) ts (fun _ m' => .executing ts m')
      (repeatWhile cfg condition action n m) := by
  induction n generalizing m with
  | zero => trivial
  | succ n ih =>
      refine (eval_leads condition [] _ ts m).bind fun v m' => Leads.head rfl ?_
      rw [note_bind]
      simp only [deliver]
      by_cases hv : v.truthy
      · rw [if_pos hv, if_pos hv]
        exact ((h _ _).pass fun _ => rfl).bind fun _ m'' => Leads.head rfl (ih m'')
      · rw [if_neg hv, if_neg hv]
        exact Steps.refl _

theorem inBlock_leads {action : Node → Exec Unit} (h : ∀ s, Followed cfg (action s) s) (body : List Node)
    (ts : List Task) (m : Machine) :
    Leads cfg (begin cfg ts m (.block body)) ts (fun _ m' => .executing ts m')
      (inBlock cfg (do .note cfg (.enteredBlock body.length); inOrder action body) m) := by
  simp only [begin, inBlock]
  by_cases hb : cfg.blockScopes
  · rw [if_pos hb, if_pos hb]
    simp only [Exec.inNewScope, Exec.afterwards, note_bind]
    have hbody := inOrder_leads h body (.leave :: ts) (noted cfg (.enteredBlock body.length) { m with scope := m.scope.enter })
    revert hbody
    cases inOrder action body (noted cfg (.enteredBlock body.length) { m with scope := m.scope.enter }) with
    | done a m' => exact fun hbody => hbody.trans (.one rfl)
    | failed f m' => exact fun hbody => hbody.trans (.one rfl)
    | outOfFuel => exact fun _ => trivial
  · rw [if_neg hb, if_neg hb, note_bind]
    exact inOrder_leads h body ts _

theorem declare_leads (name : String) (v : Value) (ts : List Task) (m : Machine) :
    Leads cfg (.executing ts (bindName cfg name v m)) ts (fun _ m' => .executing ts m')
      ((do let v ← Exec.declare name v; Exec.note cfg (.declared name v) : Exec Unit) m) := by
  change Leads cfg _ ts _ (Exec.note cfg (.declared name (declared name v m).1) (declared name v m).2)
  rw [note_apply]
  exact Steps.refl _

theorem declareType_apply (name : String) (type : Option VarType) (m : Machine) :
    Exec.declareType name type m = .done () (typed name type m) := by
  cases type <;> rfl

theorem exec_followed (cfg : Settings) (n : Nat) (s : Node) : Followed cfg (exec cfg n s) s := by
  induction n generalizing s with
  | zero => exact fun _ _ => trivial
  | succ n ih =>
      intro ts m
      refine Leads.head rfl (Leads.noted ?_)
      simp only [perform]
      generalize noted cfg (.executing s.kind) m = m
      cases s with
      | exprStmt e => exact (eval_leads e [] .discard ts m).bind fun _ m' => Steps.one rfl
      | print items =>
          cases items with
          | nil => exact Steps.refl _
          | cons e es => exact (evalAll_leads e es [] ts m).bind fun vs m' => Steps.refl _
      | declare name init type =>
          simp only [begin]
          rw [Exec.bind_apply, declareType_apply]
          cases init with
          | null => exact declare_leads name .absent ts _
          | _ => exact (eval_leads _ [] (.declare name) ts _).bind fun v m' => Leads.head rfl (declare_leads name v ts m')
      | block body => exact inBlock_leads ih body ts m
      | branch condition yes no =>
          refine (eval_leads condition [] (.choose yes no) ts m).bind fun v m' => Leads.head rfl ?_
          rw [note_bind]
          simp only [deliver]
          by_cases hv : v.truthy
          · rw [if_pos hv, if_pos hv]
            exact ih yes ts _
          · rw [if_neg hv, if_neg hv]
            cases no with
            | null => exact Steps.refl _
            | _ => exact ih _ ts _
      | loop condition body => exact repeatWhile_leads (ih body) condition ts n m
      | input names => exact (readInput_leads names ts m).bind fun pairs m' => assignFields_leads pairs ts m'
      | _ => exact Steps.refl _

theorem run_leads (n : Nat) (p : Node) (ts : List Task) (m : Machine) :
    Leads cfg (.executing (.program p :: ts) m) ts (fun _ m' => .executing ts m') (run cfg n p m) := by
  refine Leads.head rfl ?_
  cases p with
  | program types body =>
      have hbody := inOrder_leads (exec_followed cfg n) body (.close :: ts)
        (noted cfg (.starting body.length) { m with types := m.types.update types })
      simp only [run, runBody, Exec.bind_apply, Exec.modify, Exec.afterwards, note_apply, perform]
      revert hbody
      cases inOrder (exec cfg n) body (noted cfg (.starting body.length) { m with types := m.types.update types }) with
      | done a m' =>
          intro hbody
          refine Leads.after hbody (Leads.head rfl ?_)
          simp only [perform]
          cases cfg.banner with
          | true => exact Steps.refl _
          | false => exact Steps.refl _
      | failed f m' => exact fun hbody => hbody.trans (.one rfl)
      | outOfFuel => exact fun _ => trivial
  | _ => exact Steps.refl _

end Binisaya.Stepwise
