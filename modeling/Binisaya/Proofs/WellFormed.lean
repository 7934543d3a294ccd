import Binisaya.Program

/-! Trees that come from source text. Any node may stand anywhere in a stored program, but the tree of a source has
expressions where values are wanted and statements where something is to be done, names operators that exist, and
declares every variable with a type that knows a value for it. -/

namespace Binisaya

/-- The values that programs compute with: numbers, texts and single characters. -/
def Value.Proper : Value → Prop
  | .number _ | .text _ => True
  | .char s => s.length = 1
  | .nil | .absent | .flag _ => False

namespace Node

inductive IsExpression : Node → Prop
  | literal {v : Value} {label : String} (hv : v.Proper) : IsExpression (.literal v label)
  | group {e : Node} (he : IsExpression e) : IsExpression (.group e)
  | ident {name : String} : IsExpression (.ident name)
  | unary {symbol : String} {op : UnaryOp} {e : Node} (hop : UnaryOp.ofSymbol? symbol = some op)
      (he : IsExpression e) : IsExpression (.unary symbol e)
  | binary {symbol : String} {op : BinaryOp} {left right : Node} (hop : BinaryOp.ofSymbol? symbol = some op)
      (hleft : IsExpression left) (hright : IsExpression right) : IsExpression (.binary symbol left right)
  | assign {name : String} {e : Node} (he : IsExpression e) : IsExpression (.assign name e)

inductive IsStatement : Node → Prop
  | exprStmt {e : Node} (he : e.IsExpression) : IsStatement (.exprStmt e)
  | print {items : List Node} (hitems : ∀ e ∈ items, e.IsExpression) : IsStatement (.print items)
  | declare {name : String} {init : Node} {type : VarType} (hinit : init ≠ .null → init.IsExpression)
      (htype : type.initialValue.Proper) : IsStatement (.declare name init (some type))
  | block {body : List Node} (hbody : ∀ s ∈ body, IsStatement s) : IsStatement (.block body)
  | branch {condition yes no : Node} (hcondition : condition.IsExpression) (hyes : IsStatement yes)
      (hno : no ≠ .null → IsStatement no) : IsStatement (.branch condition yes no)
  | loop {condition body : Node} (hcondition : condition.IsExpression) (hbody : IsStatement body) :
      IsStatement (.loop condition body)
  | input {names : List String} : IsStatement (.input names)

inductive IsProgram : Node → Prop
  | program {types : TypeTable} {body : List Node} (hbody : ∀ s ∈ body, s.IsStatement) :
      IsProgram (.program types body)

theorem IsExpression.concatItems {e : Node} (he : e.IsExpression) : ∀ i ∈ e.concatItems, i.IsExpression := by
  fun_induction Node.concatItems e with
  | case1 left right ihleft ihright =>
      cases he with
      | binary _ hleft hright =>
          intro i hi
          rcases List.mem_append.1 hi with hi | hi
          · exact ihleft hleft i hi
          · exact ihright hright i hi
  | case2 e =>
      intro i hi
      rw [List.mem_singleton.1 hi]
      exact he

end Node

open Node

theorem Expr.isExpression_toNode (e : Expr) : e.toNode.IsExpression := by
  induction e with
  | number x => exact .literal trivial
  | text s => exact .literal trivial
  | char c => exact .literal (String.length_singleton ..)
  | var name => exact .ident
  | group e ih => exact .group ih
  | unary op e ih => exact .unary op.ofSymbol?_symbol ih
  | binary op left right ihleft ihright => exact .binary op.ofSymbol?_symbol ihleft ihright
  | assign name e ih => exact .assign ih

theorem isExpression_initNode (init : Option Expr) (h : initNode init ≠ .null) : (initNode init).IsExpression := by
  cases init with
  | none => exact absurd rfl h
  | some e => exact e.isExpression_toNode

/-- Each of the four types of the language knows a value for a bare declaration. -/
theorem TypeWord.proper_initialValue (word : TypeWord) : word.type.initialValue.Proper := by
  cases word <;> trivial

theorem isStatement_declareNodes (word : TypeWord) (items : List (String × Option Expr)) :
    ∀ n ∈ declareNodes word items, n.IsStatement := by
  intro n hn
  obtain ⟨⟨name, init⟩, _, rfl⟩ := List.mem_map.1 hn
  exact .declare (isExpression_initNode init) word.proper_initialValue

mutual

theorem Stmt.isStatement_toNodes : ∀ (s : Stmt), ∀ n ∈ s.toNodes, n.IsStatement
  | .declare word items => isStatement_declareNodes word items
  | .print e => by
      simp only [Stmt.toNodes, List.mem_singleton, forall_eq]
      exact .print e.isExpression_toNode.concatItems
  | .input names => by
      simp only [Stmt.toNodes, List.mem_singleton, forall_eq]
      exact .input
  | .branch condition body otherwise => by
      simp only [Stmt.toNodes, List.mem_singleton, forall_eq]
      exact .branch condition.isExpression_toNode (.block (isStatement_bodyNodes body)) otherwise.isStatement_toNode
  | .loop condition body => by
      simp only [Stmt.toNodes, List.mem_singleton, forall_eq]
      exact .loop condition.isExpression_toNode (.block (isStatement_bodyNodes body))
  | .count init condition update body => by
      simp only [Stmt.toNodes, List.mem_singleton, forall_eq]
      -- the update is the last statement of every round
      have hround : ∀ s ∈ bodyNodes body ++ [.exprStmt update.toNode], s.IsStatement := by
        intro s hs
        rcases List.mem_append.1 hs with hs | hs
        · exact isStatement_bodyNodes body s hs
        · rw [List.mem_singleton.1 hs]
          exact .exprStmt update.isExpression_toNode
      refine .block fun s hs => ?_
      rcases List.mem_cons.1 hs with rfl | hs
      · exact .exprStmt init.isExpression_toNode
      · rw [List.mem_singleton.1 hs]
        exact .loop condition.isExpression_toNode (.block hround)
  | .expr e => by
      simp only [Stmt.toNodes, List.mem_singleton, forall_eq]
      exact .exprStmt e.isExpression_toNode

theorem Otherwise.isStatement_toNode : ∀ (o : Otherwise), o.toNode ≠ .null → o.toNode.IsStatement
  | .nothing, h => absurd rfl h
  | .block body, _ => .block (isStatement_bodyNodes body)
  | .branch condition body otherwise, _ =>
      .branch condition.isExpression_toNode (.block (isStatement_bodyNodes body)) otherwise.isStatement_toNode

theorem isStatement_bodyNodes : ∀ (body : List Stmt), ∀ n ∈ bodyNodes body, n.IsStatement
  | [] => List.forall_mem_nil _
  | s :: ss => by
      intro n hn
      rcases List.mem_append.1 hn with hn | hn
      · exact s.isStatement_toNodes n hn
      · exact isStatement_bodyNodes ss n hn

end

/-- A source that can be read holds a program. -/
theorem isProgram_of_readProgram {source : List Char} {p : Node} (h : readProgram source = .ok p) : p.IsProgram := by
  unfold readProgram at h
  cases hbody : readStatements source with
  | error f =>
      rw [hbody] at h
      cases h
  | ok body =>
      rw [hbody] at h
      cases h
      exact .program (isStatement_bodyNodes body)

end Binisaya
