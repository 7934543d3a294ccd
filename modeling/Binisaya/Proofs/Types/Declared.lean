import Binisaya.Proofs.Grammar.Soundness
import Binisaya.Proofs.Subtree
import Binisaya.Proofs.Tables
import Binisaya.Proofs.WellFormed

/-! The declared types of a source. Three things tell of the declarations of a program: the text, in which they stand
one after the other, the nodes of its tree, and the table of types. Counting loops, chains of branches and declarations
of several variables are put together anew in the tree, and yet its nodes come in the order of the text, and the table
holds for each name the type of its last declaration. -/

namespace Binisaya

namespace Node

/-- The variable that a node itself declares, with the type that it is given. -/
def declaration? : Node → Option (String × Option VarType)
  | .declare name _ type => some (name, type)
  | _ => none

/-- The variables that trees declare at any depth, a node before those below it and these from left to right. -/
def declarations (body : List Node) : List (String × Option VarType) := (subtreesOf body).filterMap declaration?

theorem declarations_append (ss ss' : List Node) :
    declarations (ss ++ ss') = declarations ss ++ declarations ss' := by
  have hsubtrees : subtreesOf (ss ++ ss') = subtreesOf ss ++ subtreesOf ss' := by
    induction ss with
    | nil => rfl
    | cons s ss ih => rw [List.cons_append, subtreesOf, ih, subtreesOf, List.append_assoc]
  rw [declarations, hsubtrees, List.filterMap_append, declarations, declarations]

theorem declarations_cons (s : Node) (ss : List Node) :
    declarations (s :: ss) = declarations [s] ++ declarations ss :=
  declarations_append [s] ss

theorem declarations_singleton (s : Node) : declarations [s] = s.declaration?.toList ++ declarations s.parts := by
  rw [declarations, subtreesOf, subtreesOf, List.append_nil, subtrees_eq, List.filterMap_cons]
  cases s.declaration? <;> rfl

theorem declarations_block (body : List Node) : declarations [.block body] = declarations body :=
  declarations_singleton _

theorem declarations_exprStmt (e : Node) : declarations [.exprStmt e] = declarations [e] := declarations_singleton _

theorem declarations_loop (condition body : Node) :
    declarations [.loop condition body] = declarations [condition] ++ declarations [body] :=
  (declarations_singleton _).trans (declarations_cons _ _)

theorem declarations_branch (condition yes no : Node) :
    declarations [.branch condition yes no] =
      declarations [condition] ++ (declarations [yes] ++ declarations [no]) := by
  rw [declarations_singleton, parts, declarations_cons, declarations_cons yes]
  rfl

theorem declarations_binary (symbol : String) (left right : Node) :
    declarations [.binary symbol left right] = declarations [left] ++ declarations [right] :=
  (declarations_singleton _).trans (declarations_cons _ _)

theorem declaration?_eq_some_iff {t : Node} {name : String} {type : Option VarType} :
    t.declaration? = some (name, type) ↔ ∃ init, t = .declare name init type := by
  constructor
  · intro h
    cases t with
    | declare other init otherType =>
        cases h
        exact ⟨init, rfl⟩
    | _ => cases h
  · rintro ⟨init, rfl⟩
    rfl

theorem mem_filterMap_declaration?_iff {ss : List Node} {name : String} {type : Option VarType} :
    (name, type) ∈ ss.filterMap declaration? ↔ ∃ init, .declare name init type ∈ ss := by
  rw [List.mem_filterMap]
  constructor
  · rintro ⟨t, ht, hdeclared⟩
    obtain ⟨init, rfl⟩ := declaration?_eq_some_iff.1 hdeclared
    exact ⟨init, ht⟩
  · rintro ⟨init, ht⟩
    exact ⟨_, ht, rfl⟩

/-- A type is that of the last declaration of a name if and only if the last node that declares the name gives it. -/
theorem lookup_declarations_iff {body : List Node} {name : String} {type : Option VarType} :
    (declarations body).reverse.lookup name = some type ↔
      ∃ before init after, subtreesOf body = before ++ .declare name init type :: after ∧
        ∀ init' type', .declare name init' type' ∉ after := by
  rw [lookup_reverse_eq_some_iff, declarations]
  constructor
  · rintro ⟨before, after, hsplit, hafter⟩
    obtain ⟨nodes, rest, hnodes, -, hrest⟩ := List.filterMap_eq_append_iff.1 hsplit
    obtain ⟨skipped, t, later, rfl, -, ht, rfl⟩ := List.filterMap_eq_cons_iff.1 hrest
    obtain ⟨init, rfl⟩ := declaration?_eq_some_iff.1 ht
    refine ⟨nodes ++ skipped, init, later, ?_, fun init' type' hmem => ?_⟩
    · rw [hnodes, List.append_assoc]
    · exact hafter type' (mem_filterMap_declaration?_iff.2 ⟨init', hmem⟩)
  · rintro ⟨before, init, after, hsplit, hafter⟩
    refine ⟨before.filterMap declaration?, after.filterMap declaration?, ?_, fun type' hmem => ?_⟩
    · rw [hsplit, List.filterMap_append, List.filterMap_cons]
      rfl
    · obtain ⟨init', hinit'⟩ := mem_filterMap_declaration?_iff.1 hmem
      exact hafter init' type' hinit'

/-- The operands of a chain declare what the chain does. -/
theorem declarations_concatItems (e : Node) : declarations e.concatItems = declarations [e] := by
  fun_induction Node.concatItems e with
  | case1 left right ihleft ihright =>
      rw [declarations_append, ihleft, ihright, declarations_binary]
  | case2 e => rfl

end Node

open Node

/-- Where a reader of tokens stands: outside of declarations, before the name of a variable of some type, or behind
it. -/
inductive Reader where
  | outside
  | before (type : TypeWord)
  | behind (type : TypeWord)

namespace Reader

/-- Where the reader stands after a token. The word of a type comes before the first variable of a declaration, a comma
before each further one, and the end of a line ends the declaration. -/
def next : Reader → Token → Reader
  | _, .typeWord type => .before type
  | _, .lineEnd => .outside
  | .before type, .ident _ => .behind type
  | .behind type, .comma => .before type
  | r, _ => r

/-- The variable that a token declares. -/
def declared? : Reader → Token → Option (String × Option VarType)
  | .before type, .ident name => some (name, some type.type)
  | _, _ => none

/-- The variables that tokens declare, in their order. -/
def declarations : Reader → List Token → List (String × Option VarType)
  | _, [] => []
  | r, t :: ts => (r.declared? t).toList ++ (r.next t).declarations ts

/-- Reading tokens leads a reader from one place to another, past these declarations. -/
structure Reads (r : Reader) (ts : List Token) (l : List (String × Option VarType)) (r' : Reader) : Prop where
  place : ts.foldl next r = r'
  declared : r.declarations ts = l

variable {r r' r'' : Reader} {t : Token} {ts ts' : List Token} {l l' : List (String × Option VarType)}

theorem declarations_append (r : Reader) (ts ts' : List Token) :
    r.declarations (ts ++ ts') = r.declarations ts ++ (ts.foldl next r).declarations ts' := by
  induction ts generalizing r with
  | nil => rfl
  | cons t ts ih => rw [List.cons_append, declarations, ih, declarations, List.append_assoc, List.foldl_cons]

theorem isSome_of_mem_declarations {p : String × Option VarType} (h : p ∈ r.declarations ts) : p.2.isSome = true := by
  induction ts generalizing r with
  | nil => cases h
  | cons t ts ih =>
      rcases List.mem_append.1 h with h | h
      · have hdeclared := Option.mem_toList.1 h
        unfold declared? at hdeclared
        split at hdeclared
        · cases hdeclared
          rfl
        · cases hdeclared
      · exact ih h

theorem Reads.nil : Reads r [] [] r := ⟨rfl, rfl⟩

theorem Reads.append (h : Reads r ts l r') (h' : Reads r' ts' l' r'') : Reads r (ts ++ ts') (l ++ l') r'' := by
  refine ⟨?_, ?_⟩
  · rw [List.foldl_append, h.place, h'.place]
  · rw [declarations_append, h.declared, h.place, h'.declared]

/-- A token that declares nothing. -/
theorem Reads.cons (hnone : r.declared? t = none) (h : Reads (r.next t) ts l r') : Reads r (t :: ts) l r' := by
  refine ⟨h.place, ?_⟩
  rw [declarations, hnone, h.declared]
  rfl

theorem Reads.snoc (h : Reads r ts l r') (hnone : r'.declared? t = none) : Reads r (ts ++ [t]) l (r'.next t) := by
  have happend := h.append (.cons hnone .nil)
  rwa [List.append_nil] at happend

/-- The name of a variable in a declaration. -/
theorem Reads.name {type : TypeWord} {name : String} (h : Reads (.behind type) ts l r') :
    Reads (.before type) (.ident name :: ts) ((name, some type.type) :: l) r' := by
  refine ⟨h.place, ?_⟩
  rw [declarations]
  exact congrArg ((name, some type.type) :: ·) h.declared

/-- Tells that a token neither begins nor ends a declaration, nor parts its variables. -/
def inner : Token → Bool
  | .typeWord _ | .comma | .lineEnd => false
  | _ => true

theorem next_of_inner (hr : ∀ type, r ≠ .before type) (ht : inner t = true) : r.next t = r ∧ r.declared? t = none := by
  cases r with
  | outside => cases t <;> first | exact ⟨rfl, rfl⟩ | cases ht
  | before type => exact absurd rfl (hr type)
  | behind type => cases t <;> first | exact ⟨rfl, rfl⟩ | cases ht

theorem reads_of_inner (hr : ∀ type, r ≠ .before type) (hts : ∀ t ∈ ts, inner t = true) : Reads r ts [] r := by
  induction ts with
  | nil => exact .nil
  | cons t ts ih =>
      obtain ⟨ht, hrest⟩ := List.forall_mem_cons.1 hts
      obtain ⟨hnext, hnone⟩ := next_of_inner hr ht
      refine .cons hnone ?_
      rw [hnext]
      exact ih hrest

end Reader

/-! ### Declarations in a derivation -/

namespace Grammar

open Reader (Reads inner reads_of_inner)

mutual

/-- An expression declares nothing, neither by its tokens nor by its nodes. -/
theorem Expression.declares_nothing :
    ∀ e : Expression, (∀ t ∈ e.tokens, inner t = true) ∧ declarations [e.node] = []
  | .assign name e => by
      obtain ⟨htokens, hnode⟩ := e.declares_nothing
      rw [Expression.tokens, Expression.node, declarations_singleton, parts, hnode]
      exact ⟨List.forall_mem_cons.2 ⟨rfl, List.forall_mem_cons.2 ⟨rfl, htokens⟩⟩, rfl⟩
  | .operation e => by
      rw [Expression.tokens, Expression.node]
      exact e.declares_nothing

theorem Operation.declares_nothing {levels : List (List BinaryOp)} :
    ∀ e : Operation levels, (∀ t ∈ e.tokens, inner t = true) ∧ declarations [e.node] = []
  | .unary e => by
      rw [Operation.tokens, Operation.node]
      exact e.declares_nothing
  | .chain first more => by
      obtain ⟨hfirst, hleft⟩ := first.declares_nothing
      obtain ⟨hmore, hnode⟩ := more.declares_nothing
      rw [Operation.tokens, Operation.node]
      exact ⟨List.forall_mem_append.2 ⟨hfirst, hmore⟩, hnode _ hleft⟩

theorem Tail.declares_nothing {ops : List BinaryOp} {tighter : List (List BinaryOp)} :
    ∀ more : Tail ops tighter, (∀ t ∈ more.tokens, inner t = true) ∧
      ∀ left, declarations [left] = [] → declarations [more.node left] = []
  | .nil => by
      rw [Tail.tokens]
      refine ⟨List.forall_mem_nil _, fun left hleft => ?_⟩
      rw [Tail.node]
      exact hleft
  | .cons op hop e more => by
      obtain ⟨he, hright⟩ := e.declares_nothing
      obtain ⟨hmore, hnode⟩ := more.declares_nothing
      rw [Tail.tokens]
      refine ⟨List.forall_mem_cons.2 ⟨rfl, List.forall_mem_append.2 ⟨he, hmore⟩⟩, fun left hleft => ?_⟩
      rw [Tail.node]
      apply hnode
      rw [declarations_binary, hleft, hright]
      rfl

theorem Unary.declares_nothing :
    ∀ e : Unary, (∀ t ∈ e.tokens, inner t = true) ∧ declarations [e.node] = []
  | .sign op e => by
      obtain ⟨htokens, hnode⟩ := e.declares_nothing
      rw [Unary.tokens, Unary.node, declarations_singleton, parts, hnode]
      refine ⟨List.forall_mem_cons.2 ⟨?_, htokens⟩, rfl⟩
      cases op <;> rfl
  | .primary e => by
      rw [Unary.tokens, Unary.node]
      exact e.declares_nothing

theorem Primary.declares_nothing :
    ∀ e : Primary, (∀ t ∈ e.tokens, inner t = true) ∧ declarations [e.node] = []
  | .group e => by
      obtain ⟨htokens, hnode⟩ := e.declares_nothing
      rw [Primary.tokens, Primary.node, declarations_singleton, parts, hnode]
      refine ⟨List.forall_mem_cons.2 ⟨rfl, List.forall_mem_append.2 ⟨htokens, ?_⟩⟩, rfl⟩
      exact List.forall_mem_singleton.2 rfl
  | .number _ | .text _ | .char _ | .escape _ | .newline | .ident _ => by
      rw [Primary.tokens, Primary.node]
      exact ⟨List.forall_mem_singleton.2 rfl, rfl⟩

end

/-- A reader passes an expression where it stands. -/
theorem Expression.reads (e : Expression) {r : Reader} (hr : ∀ type, r ≠ .before type) : Reads r e.tokens [] r :=
  reads_of_inner hr e.declares_nothing.1

theorem Expression.reads_outside (e : Expression) : Reads .outside e.tokens [] .outside :=
  e.reads fun _ h => by cases h

/-- What the items of a declaration declare. -/
def declaredItems (type : TypeWord) (items : List DeclItem) : List (String × Option VarType) :=
  items.map fun d => (d.name, some type.type)

theorem declarations_items (type : TypeWord) (items : List DeclItem) :
    declarations (items.map (DeclItem.node type)) = declaredItems type items := by
  induction items with
  | nil => rfl
  | cons d items ih =>
      have hinit : declarations [d.init.elim .null Expression.node] = [] := by
        cases d.init with
        | none => rfl
        | some e => exact e.declares_nothing.2
      rw [List.map_cons, declarations_cons, ih, DeclItem.node, declarations_singleton, parts, hinit]
      rfl

theorem types_items (type : TypeWord) (items : List DeclItem) (types : TypeTable) :
    items.foldl (DeclItem.enter type) types = types.insertAll (declaredItems type items) := by
  rw [Table.insertAll, declaredItems, List.foldl_map]
  rfl

theorem DeclItem.reads (type : TypeWord) (d : DeclItem) :
    Reads (.before type) d.tokens (declaredItems type [d]) (.behind type) := by
  apply Reads.name
  cases d.init with
  | none => exact .nil
  | some e => exact .cons rfl (e.reads fun _ h => by cases h)

theorem reads_commaItems (type : TypeWord) (items : List DeclItem) :
    Reads (.behind type) (commaTokens DeclItem.tokens items) (declaredItems type items) (.behind type) := by
  induction items with
  | nil => exact .nil
  | cons d items ih =>
      rw [commaTokens_cons]
      exact .cons rfl ((d.reads type).append ih)

theorem reads_commaNames (names : List String) :
    Reads .outside (commaTokens (fun x => [.ident x]) names) [] .outside := by
  induction names with
  | nil => exact .nil
  | cons x names ih =>
      rw [commaTokens_cons]
      exact .cons rfl (.cons rfl ih)

/-- Tokens, nodes and what is entered in the table of types tell of these declarations, all in the same order. -/
structure Declares (tokens : List Token) (nodes : List Node) (enter : TypeTable → TypeTable)
    (l : List (String × Option VarType)) : Prop where
  text : Reads .outside tokens l .outside
  tree : declarations nodes = l
  table : ∀ types, enter types = types.insertAll l

mutual

theorem Statement.declares : ∀ d : Statement, ∃ l, Declares d.tokens d.nodes d.types l
  | .declaration type first more => by
      refine ⟨declaredItems type (first :: more), ?_, declarations_items type _, fun types => ?_⟩
      · rw [Statement.tokens]
        exact .cons rfl (.cons rfl ((first.reads type).append ((reads_commaItems type more).snoc rfl)))
      · rw [Statement.types, types_items]
  | .print e => by
      refine ⟨[], ?_, ?_, fun types => ?_⟩
      · rw [Statement.tokens]
        exact .cons rfl (.cons rfl (e.reads_outside.snoc rfl))
      · rw [Statement.nodes, declarations_singleton, parts, declarations_concatItems, e.declares_nothing.2]
        rfl
      · rw [Statement.types]
        rfl
  | .input first more => by
      refine ⟨[], ?_, ?_, fun types => ?_⟩
      · rw [Statement.tokens]
        exact .cons rfl (.cons rfl (.cons rfl ((reads_commaNames more).snoc rfl)))
      · rw [Statement.nodes]
        rfl
      · rw [Statement.types]
        rfl
  | .expr e => by
      refine ⟨[], ?_, ?_, fun types => ?_⟩
      · rw [Statement.tokens]
        exact e.reads_outside.snoc rfl
      · rw [Statement.nodes, declarations_exprStmt, e.declares_nothing.2]
      · rw [Statement.types]
        rfl
  | .loop condition body => by
      obtain ⟨l, htext, htree, htable⟩ := body.declares
      refine ⟨l, ?_, ?_, fun types => ?_⟩
      · rw [Statement.tokens]
        exact .cons rfl (.cons rfl (condition.reads_outside.append (.cons rfl (htext.snoc rfl))))
      · rw [Statement.nodes, declarations_loop, declarations_block, condition.declares_nothing.2, htree]
        rfl
      · rw [Statement.types, htable]
  | .count init condition update body => by
      obtain ⟨l, htext, htree, htable⟩ := body.declares
      refine ⟨l, ?_, ?_, fun types => ?_⟩
      · rw [Statement.tokens]
        exact .cons rfl (.cons rfl (init.reads_outside.append (.cons rfl (condition.reads_outside.append
          (.cons rfl (update.reads_outside.append (.cons rfl (htext.snoc rfl))))))))
      · -- the update goes behind the body, where it declares as little as before it
        rw [Statement.nodes, declarations_block, declarations_cons, declarations_exprStmt, declarations_loop,
          declarations_block, declarations_append, declarations_exprStmt, init.declares_nothing.2,
          condition.declares_nothing.2, update.declares_nothing.2, htree, List.append_nil]
        rfl
      · rw [Statement.types, htable]
  | .branch condition body elseIfs elseClause => by
      obtain ⟨l, htext, htree, htable⟩ := body.declares
      obtain ⟨ls, htexts, htrees, htables⟩ := elseIfs_declare elseIfs
      obtain ⟨l', htext', htree', htable'⟩ := else_declares elseClause
      refine ⟨l ++ (ls ++ l'), ?_, ?_, fun types => ?_⟩
      · rw [Statement.tokens]
        exact .cons rfl (.cons rfl (condition.reads_outside.append (.cons rfl (htext.append
          (htexts.append (htext'.snoc rfl))))))
      · rw [Statement.nodes, declarations_branch, declarations_block, condition.declares_nothing.2, htree, htrees,
          htree']
        rfl
      · rw [Statement.types, htable, htables, htable', Table.insertAll_append, Table.insertAll_append]

theorem Block.declares : ∀ d : Block, ∃ l, Declares d.tokens d.nodes d.types l
  | .mk statements => by
      obtain ⟨l, htext, htree, htable⟩ := statements_declare statements
      refine ⟨l, ?_, ?_, fun types => ?_⟩
      · rw [Block.tokens]
        exact .cons rfl (.cons rfl (.cons rfl (htext.snoc rfl)))
      · rw [Block.nodes, htree]
      · rw [Block.types, htable]

theorem statements_declare :
    ∀ ds : List Statement, ∃ l, Declares (statementsTokens ds) (statementsNodes ds) (statementsTypes ds) l
  | [] => by
      rw [statementsTokens, statementsNodes]
      refine ⟨[], .nil, rfl, fun types => ?_⟩
      rw [statementsTypes]
      rfl
  | d :: ds => by
      obtain ⟨l, htext, htree, htable⟩ := d.declares
      obtain ⟨ls, htexts, htrees, htables⟩ := statements_declare ds
      refine ⟨l ++ ls, ?_, ?_, fun types => ?_⟩
      · rw [statementsTokens]
        exact htext.append htexts
      · rw [statementsNodes, declarations_append, htree, htrees]
      · rw [statementsTypes, htable, htables, Table.insertAll_append]

/-- The clauses come before all that follows them, which stands deepest in their nodes. -/
theorem elseIfs_declare : ∀ cs : List ElseIf, ∃ l, Reads .outside (elseIfsTokens cs) l .outside ∧
    (∀ otherwise, declarations [elseIfsNode cs otherwise] = l ++ declarations [otherwise]) ∧
    ∀ types, elseIfsTypes cs types = types.insertAll l
  | [] => by
      rw [elseIfsTokens]
      refine ⟨[], .nil, fun otherwise => ?_, fun types => ?_⟩
      · rw [elseIfsNode]
        rfl
      · rw [elseIfsTypes]
        rfl
  | .mk condition body :: cs => by
      obtain ⟨l, htext, htree, htable⟩ := body.declares
      obtain ⟨ls, htexts, htrees, htables⟩ := elseIfs_declare cs
      refine ⟨l ++ ls, ?_, fun otherwise => ?_, fun types => ?_⟩
      · rw [elseIfsTokens, ElseIf.tokens]
        refine Reads.append ?_ htexts
        exact .cons rfl (.cons rfl (condition.reads_outside.append (.cons rfl htext)))
      · rw [elseIfsNode, ElseIf.node, declarations_branch, declarations_block, condition.declares_nothing.2, htree,
          htrees, List.append_assoc]
        rfl
      · rw [elseIfsTypes, ElseIf.types, htable, htables, Table.insertAll_append]

theorem else_declares : ∀ c : Option Block, ∃ l, Declares (elseTokens c) [elseNode c] (elseTypes c) l
  | none => by
      rw [elseTokens, elseNode]
      refine ⟨[], .nil, rfl, fun types => ?_⟩
      rw [elseTypes]
      rfl
  | some body => by
      obtain ⟨l, htext, htree, htable⟩ := body.declares
      refine ⟨l, ?_, ?_, fun types => ?_⟩
      · rw [elseTokens]
        exact .cons rfl htext
      · rw [elseNode, declarations_block, htree]
      · rw [elseTypes, htable]

end

/-- A program declares in its text what it declares in its tree, and its table has just that. -/
theorem Start.declares (d : Start) : ∃ l, Reader.outside.declarations d.tokens = l ∧
    declarations (statementsNodes d.statements) = l ∧
    statementsTypes d.statements .empty = Table.empty.insertAll l := by
  obtain ⟨l, htext, htree, htable⟩ := statements_declare d.statements
  have hclose : Reads .outside (.katapusan :: if d.lineEnd then [.lineEnd] else []) [] .outside := by
    refine .cons rfl ?_
    split
    · exact .cons rfl .nil
    · exact .nil
  have hwhole : Reads .outside d.tokens (l ++ []) .outside := .cons rfl (.cons rfl (htext.append hclose))
  exact ⟨l, by rw [hwhole.declared, List.append_nil], htree, htable _⟩

end Grammar

open Grammar

theorem parseTokens_of_statements {s : Scanned} {body : List Stmt} (h : s.statements = .ok body) :
    parseTokens (s.lexemes.map Lexeme.token) = .ok body := by
  unfold Scanned.statements at h
  split at h
  · cases h
  · next hparse =>
      split at h
      · cases h
      · cases h
        exact hparse

/-- A source that is read derives from the grammar, with its tree. -/
theorem derives_of_readProgram {source : List Char} {tree : Node} (h : readProgram source = .ok tree) :
    ∃ d : Start, d.tokens = (scan (normalize source)).lexemes.map Lexeme.token ∧ tree = d.program := by
  unfold readProgram readStatements at h
  cases hstatements : (scan (normalize source)).statements with
  | error p =>
      rw [hstatements] at h
      cases h
  | ok body =>
      rw [hstatements] at h
      cases h
      exact Parser.parseTokens_sound (parseTokens_of_statements hstatements)

/-- **The table of types agrees with the tree.** The table of a source names the variables that the nodes of its tree
declare at any depth. Each of these nodes carries a type, and the table has that of the last one in the order of the
tree. That order is the order of the text. -/
theorem declared_types_agree {source : List Char} {tree : Node} (h : readProgram source = .ok tree) :
    ∃ types body, tree = .program types body ∧
      (∀ name, name ∈ types.names ↔ ∃ init type, .declare name init type ∈ subtreesOf body) ∧
      (∀ name init type, .declare name init type ∈ subtreesOf body → type.isSome = true) ∧
      (∀ name type, types.get? name = some type ↔
        ∃ before init after, subtreesOf body = before ++ .declare name init type :: after ∧
          ∀ init' type', .declare name init' type' ∉ after) ∧
      declarations body = Reader.outside.declarations ((scan (normalize source)).lexemes.map Lexeme.token) := by
  obtain ⟨d, htokens, rfl⟩ := derives_of_readProgram h
  obtain ⟨l, htext, htree, htable⟩ := d.declares
  have hget : ∀ name, (statementsTypes d.statements .empty).get? name = l.reverse.lookup name := by
    intro name
    rw [htable, Table.get?_insertAll, Table.get?_empty, Option.or_none]
  subst htree
  refine ⟨_, _, rfl, fun name => ?_, fun name init type hmem => ?_, fun name type => ?_, ?_⟩
  · rw [← Table.contains_iff, Table.contains, hget, Option.isSome_iff_exists]
    constructor
    · rintro ⟨type, hlookup⟩
      obtain ⟨before, init, after, hsplit, -⟩ := lookup_declarations_iff.1 hlookup
      exact ⟨init, type, hsplit ▸ List.mem_append_right before List.mem_cons_self⟩
    · rintro ⟨init, type, hmem⟩
      rw [← Option.isSome_iff_exists, List.lookup_isSome_iff]
      have hdeclared := mem_filterMap_declaration?_iff.2 ⟨init, hmem⟩
      exact ⟨(name, type), List.mem_reverse.2 hdeclared, beq_self_eq_true name⟩
  · have hdeclared := mem_filterMap_declaration?_iff.2 ⟨init, hmem⟩
    rw [← declarations, ← htext] at hdeclared
    exact Reader.isSome_of_mem_declarations hdeclared
  · rw [hget, lookup_declarations_iff]
  · rw [← htokens, htext]

/-- A declaration of two variables, one in a later clause of a branch, and one in a counting loop. -/
def scatteredSource : List Char :=
  ("SUGOD\nMUGNA NUMERO a, b\nKUNG (b)\nPUNDOK\x7b\n\x7d\nKUNG DILI (a)\nPUNDOK\x7b\nMUGNA TINUOD a\n\x7d\n" ++
    "ALANG SA (a=0, a, a=1)\nPUNDOK\x7b\nMUGNA LETRA b\n\x7d\nKATAPUSAN\n").toList

theorem declared_types_agree_scatteredSource : ∃ types body, readProgram scatteredSource = .ok (.program types body) ∧
    declarations body =
      [("a", some .number), ("b", some .number), ("a", some .boolean), ("b", some .character)] ∧
    types.get? "a" = some (some .boolean) ∧ types.get? "b" = some (some .character) := by
  have hread : (readProgram scatteredSource).isOk = true := by decide +kernel
  cases h : readProgram scatteredSource with
  | error f =>
      rw [h] at hread
      cases hread
  | ok tree =>
      obtain ⟨types, body, rfl, -, -, hget, hdeclared⟩ := declared_types_agree h
      have htext : Reader.outside.declarations ((scan (normalize scatteredSource)).lexemes.map Lexeme.token) =
          [("a", some .number), ("b", some .number), ("a", some .boolean), ("b", some .character)] := by
        decide +kernel
      rw [htext] at hdeclared
      refine ⟨types, body, rfl, hdeclared, (hget _ _).2 (lookup_declarations_iff.1 ?_),
        (hget _ _).2 (lookup_declarations_iff.1 ?_)⟩
      · rw [hdeclared]
        decide
      · rw [hdeclared]
        decide

end Binisaya
