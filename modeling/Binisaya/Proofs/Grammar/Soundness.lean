import Binisaya.Proofs.Grammar.Derivation
import Binisaya.Proofs.Tables
import Binisaya.Surface.Grammar

/-! What the parser accepts derives from the grammar. Each parser is compared with the trees of one symbol: the tokens
that it takes are those of a tree, and its result stands for the same program tree. No statement here speaks of what
follows; that a parser takes as much as it should is the converse. -/

namespace Binisaya.Parser

open Grammar

section Results

variable {α β : Type} {ts rest : List Token}

theorem bind_ok {p : Parser α} {f : α → Parser β} {b : β} :
    (p >>= f) ts = .ok (b, rest) ↔ ∃ a mid, p ts = .ok (a, mid) ∧ f a mid = .ok (b, rest) := by
  change (StateT.bind p f) ts = .ok (b, rest) ↔ _
  unfold StateT.bind
  cases hp : p ts with
  | error left => simp [bind, Except.bind]
  | ok r =>
      obtain ⟨a, mid⟩ := r
      constructor
      · intro h
        exact ⟨a, mid, rfl, h⟩
      · rintro ⟨a', mid', heq, h⟩
        cases heq
        exact h

theorem pure_ok {a b : α} : (pure a : Parser α) ts = .ok (b, rest) ↔ a = b ∧ ts = rest := by
  change Except.ok (a, ts) = Except.ok (b, rest) ↔ _
  simp

theorem map_ok {p : Parser α} {f : α → β} {b : β} :
    (f <$> p) ts = .ok (b, rest) ↔ ∃ a, p ts = .ok (a, rest) ∧ f a = b := by
  rw [← bind_pure_comp, bind_ok]
  constructor
  · rintro ⟨a, mid, hp, hpure⟩
    obtain ⟨rfl, rfl⟩ := pure_ok.1 hpure
    exact ⟨a, hp, rfl⟩
  · rintro ⟨a, hp, rfl⟩
    exact ⟨a, rest, hp, pure_ok.2 ⟨rfl, rfl⟩⟩

theorem expect_ok {t : Token} {u : Unit} : expect t ts = .ok (u, rest) ↔ ts = t :: rest := by
  cases ts with
  | nil => simp [expect]
  | cons s ts =>
      by_cases h : s = t
      · simp [expect, h]
      · simp [expect, h]

theorem accept_ok {t : Token} {b : Bool} :
    accept t ts = .ok (b, rest) ↔ if b then ts = t :: rest else ts = rest ∧ ts.head? ≠ some t := by
  cases ts with
  | nil => cases b <;> simp [accept, eq_comm]
  | cons s ts =>
      by_cases h : s = t
      · cases b <;> simp [accept, h]
      · cases b <;> simp [accept, h]

theorem name_ok {x : String} : name ts = .ok (x, rest) ↔ ts = .ident x :: rest := by
  unfold name
  split
  · simp
  · next h => simpa using fun heq => h x rest heq

theorem typeWord_ok {t : TypeWord} : typeWord ts = .ok (t, rest) ↔ ts = .typeWord t :: rest := by
  unfold typeWord
  split
  · simp
  · next h => simpa using fun heq => h t rest heq

theorem ending_ok {u : Unit} : ending ts = .ok (u, rest) ↔ ts = [] ∧ rest = [] := by
  cases ts <;> simp [ending, eq_comm]

end Results

/-- Whatever the parser takes are the tokens of a tree, and its result has the meaning of the tree. -/
def Sound {α τ β : Type} (p : Parser α) (tokens : τ → List Token) (meaning : τ → β) (meaningOf : α → β) : Prop :=
  ∀ ts rest a, p ts = .ok (a, rest) → ∃ d, ts = tokens d ++ rest ∧ meaningOf a = meaning d

/-- Operands of one level, joined to what stands before them. -/
theorem chainTail_sound {ops : List BinaryOp} {tighter : List (List BinaryOp)} {p : Parser Expr}
    (hp : Sound p (@Operation.tokens tighter) Operation.node Expr.toNode) (n : Nat) {e e' : Expr}
    {ts rest : List Token} (h : chainTail ops p n e ts = .ok (e', rest)) :
    ∃ d : Tail ops tighter, ts = d.tokens ++ rest ∧ e'.toNode = d.node e.toNode := by
  induction n generalizing e ts with
  | zero =>
      obtain ⟨rfl, rfl⟩ := pure_ok.1 h
      exact ⟨.nil, by rw [Tail.tokens]; rfl, by rw [Tail.node]⟩
  | succ n ih =>
      simp only [chainTail] at h
      split at h
      · next op ts =>
          split at h
          · next hop =>
              obtain ⟨right, mid, hright, htail⟩ := bind_ok.1 h
              obtain ⟨d, htokens, hnode⟩ := hp _ _ _ hright
              obtain ⟨t, htokens', hnode'⟩ := ih htail
              refine ⟨.cons op hop d t, ?_, ?_⟩
              · rw [Tail.tokens, htokens, htokens', List.cons_append, List.append_assoc]
              · rw [Tail.node, hnode', Expr.toNode, hnode]
          · cases h
            exact ⟨.nil, by rw [Tail.tokens]; rfl, by rw [Tail.node]⟩
      · cases h
        exact ⟨.nil, by rw [Tail.tokens]; rfl, by rw [Tail.node]⟩

theorem chain_sound {bound : Nat} {ops : List BinaryOp} {tighter : List (List BinaryOp)} {p : Parser Expr}
    (hp : Sound p (@Operation.tokens tighter) Operation.node Expr.toNode) :
    Sound (chain bound ops p) (@Operation.tokens (ops :: tighter)) Operation.node Expr.toNode := by
  intro ts rest e h
  obtain ⟨first, mid, hfirst, htail⟩ := bind_ok.1 h
  obtain ⟨d, htokens, hnode⟩ := hp _ _ _ hfirst
  obtain ⟨t, htokens', hnode'⟩ := chainTail_sound hp bound htail
  refine ⟨.chain d t, ?_, ?_⟩
  · rw [Operation.tokens, htokens, htokens', List.append_assoc]
  · rw [Operation.node, hnode', hnode]

/-- All levels at once: the parser goes through them as the trees do. -/
theorem operation_sound {bound : Nat} {p : Parser Expr} (hp : Sound p Unary.tokens Unary.node Expr.toNode) :
    Sound (operation bound p) (@Operation.tokens precedence) Operation.node Expr.toNode := by
  have hlevels : ∀ levels : List (List BinaryOp),
      Sound (levels.foldr (chain bound) p) (@Operation.tokens levels) Operation.node Expr.toNode := by
    intro levels
    induction levels with
    | nil =>
        intro ts rest e h
        obtain ⟨d, htokens, hnode⟩ := hp _ _ _ h
        exact ⟨.unary d, by rw [Operation.tokens, htokens], by rw [Operation.node, hnode]⟩
    | cons ops tighter ih => exact chain_sound ih
  exact hlevels precedence

theorem expressionOf_sound {bound : Nat} {p : Parser Expr}
    (hp : Sound p Unary.tokens Unary.node Expr.toNode) :
    Sound (expressionOf bound p) Expression.tokens Expression.node Expr.toNode := by
  intro ts rest e h
  induction ts using expressionOf.induct generalizing e with
  | case1 x ts ih =>
      rw [expressionOf] at h
      cases hts : expressionOf bound p ts with
      | error left =>
          rw [hts] at h
          cases h
      | ok r =>
          obtain ⟨e', rest'⟩ := r
          rw [hts] at h
          cases h
          obtain ⟨d, htokens, hnode⟩ := ih _ hts
          exact ⟨.assign x d, by rw [Expression.tokens, htokens]; rfl, by rw [Expression.node, Expr.toNode, hnode]⟩
  | case2 ts hts =>
      rw [expressionOf] at h
      · obtain ⟨d, htokens, hnode⟩ := operation_sound hp _ _ _ h
        exact ⟨.operation d, by rw [Expression.tokens, htokens], by rw [Expression.node, hnode]⟩
      · exact hts

/-- An operand that is one token. -/
theorem primary_sound {ts rest : List Token} {e : Expr} (d : Primary) (htokens : ts = d.tokens ++ rest)
    (hnode : e.toNode = d.node) : ∃ d : Unary, ts = d.tokens ++ rest ∧ e.toNode = d.node :=
  ⟨.primary d, by rw [Unary.tokens, htokens], by rw [Unary.node, hnode]⟩

theorem sign_sound {p : Parser Expr} (hp : Sound p Unary.tokens Unary.node Expr.toNode) (op : UnaryOp)
    {ts rest : List Token} {e : Expr} (h : (Expr.unary op <$> p) ts = .ok (e, rest)) :
    ∃ d : Unary, signToken op :: ts = d.tokens ++ rest ∧ e.toNode = d.node := by
  obtain ⟨e', he', rfl⟩ := map_ok.1 h
  obtain ⟨d, htokens, hnode⟩ := hp _ _ _ he'
  exact ⟨.sign op d, by rw [Unary.tokens, htokens]; rfl, by rw [Unary.node, Expr.toNode, hnode]⟩

theorem operand_sound (bound n : Nat) : Sound (operand bound n) Unary.tokens Unary.node Expr.toNode := by
  induction n with
  | zero =>
      intro ts rest e h
      cases h
  | succ n ih =>
      intro ts rest e h
      simp only [operand] at h
      split at h
      · exact sign_sound ih .plus h
      · exact sign_sound ih .minus h
      · exact sign_sound ih .not h
      · cases h
        exact primary_sound (.number _) (by rw [Primary.tokens]; rfl) (by rw [Primary.node, Expr.toNode])
      · cases h
        exact primary_sound (.text _) (by rw [Primary.tokens]; rfl) (by rw [Primary.node, Expr.toNode])
      · cases h
        exact primary_sound (.char _) (by rw [Primary.tokens]; rfl) (by rw [Primary.node, Expr.toNode])
      · cases h
        exact primary_sound (.escape _) (by rw [Primary.tokens]; rfl) (by rw [Primary.node, Expr.toNode])
      · cases h
        exact primary_sound .newline (by rw [Primary.tokens]; rfl) (by rw [Primary.node, Expr.toNode])
      · cases h
        exact primary_sound (.ident _) (by rw [Primary.tokens]; rfl) (by rw [Primary.node, Expr.toNode])
      · obtain ⟨e', mid, he', h⟩ := bind_ok.1 h
        obtain ⟨_, mid', hparen, h⟩ := bind_ok.1 h
        obtain ⟨rfl, rfl⟩ := pure_ok.1 h
        obtain ⟨d, htokens, hnode⟩ := expressionOf_sound ih _ _ _ he'
        rw [expect_ok.1 hparen] at htokens
        refine primary_sound (.group d) ?_ (by rw [Primary.node, Expr.toNode, hnode])
        rw [Primary.tokens, htokens, List.cons_append, List.append_assoc]
        rfl
      · cases h

theorem expression_sound (bound : Nat) : Sound (expression bound) Expression.tokens Expression.node Expr.toNode :=
  expressionOf_sound (operand_sound bound bound)

theorem condition_sound {bound : Nat} {ts rest : List Token} {e : Expr} (h : condition bound ts = .ok (e, rest)) :
    ∃ d : Expression, ts = .leftParen :: (d.tokens ++ .rightParen :: rest) ∧ e.toNode = d.node := by
  obtain ⟨_, mid, hleft, h⟩ := bind_ok.1 h
  obtain ⟨e', mid', he', h⟩ := bind_ok.1 h
  obtain ⟨_, mid'', hright, h⟩ := bind_ok.1 h
  obtain ⟨rfl, rfl⟩ := pure_ok.1 h
  obtain ⟨d, htokens, hnode⟩ := expression_sound bound _ _ _ he'
  rw [expect_ok.1 hright] at htokens
  exact ⟨d, by rw [expect_ok.1 hleft, htokens], hnode⟩

theorem moreItems_sound {α τ β : Type} {item : Parser α} {tokens : τ → List Token} {meaning : τ → β}
    {meaningOf : α → β} (hitem : Sound item tokens meaning meaningOf) (n : Nat) {ts rest : List Token} {as : List α}
    (h : moreItems item n ts = .ok (as, rest)) :
    ∃ ds, ts = commaTokens tokens ds ++ rest ∧ as.map meaningOf = ds.map meaning := by
  induction n generalizing ts as with
  | zero =>
      obtain ⟨rfl, rfl⟩ := pure_ok.1 h
      exact ⟨[], rfl, rfl⟩
  | succ n ih =>
      rw [moreItems] at h
      obtain ⟨b, mid, hcomma, h⟩ := bind_ok.1 h
      have hcomma := accept_ok.1 hcomma
      cases b with
      | true =>
          obtain ⟨a, mid', ha, h⟩ := bind_ok.1 h
          obtain ⟨as', mid'', has', h⟩ := bind_ok.1 h
          obtain ⟨rfl, rfl⟩ := pure_ok.1 h
          obtain ⟨d, htokens, hmeaning⟩ := hitem _ _ _ ha
          obtain ⟨ds, htokens', hmeaning'⟩ := ih has'
          refine ⟨d :: ds, ?_, by rw [List.map_cons, List.map_cons, hmeaning, hmeaning']⟩
          rw [show ts = .comma :: mid from hcomma, htokens, htokens', commaTokens_cons, List.cons_append,
            List.append_assoc]
      | false =>
          obtain ⟨rfl, rfl⟩ := pure_ok.1 h
          exact ⟨[], hcomma.1, rfl⟩

theorem items_sound {α τ β : Type} {item : Parser α} {tokens : τ → List Token} {meaning : τ → β}
    {meaningOf : α → β} (hitem : Sound item tokens meaning meaningOf) {bound : Nat} {ts rest : List Token}
    {as : List α} (h : items bound item ts = .ok (as, rest)) :
    ∃ d ds, ts = tokens d ++ (commaTokens tokens ds ++ rest) ∧ as.map meaningOf = (d :: ds).map meaning := by
  obtain ⟨a, mid, ha, h⟩ := bind_ok.1 h
  obtain ⟨as', mid', has', h⟩ := bind_ok.1 h
  obtain ⟨rfl, rfl⟩ := pure_ok.1 h
  obtain ⟨d, htokens, hmeaning⟩ := hitem _ _ _ ha
  obtain ⟨ds, htokens', hmeaning'⟩ := moreItems_sound hitem bound has'
  exact ⟨d, ds, by rw [htokens, htokens'], by rw [List.map_cons, List.map_cons, hmeaning, hmeaning']⟩

theorem name_sound : Sound name (fun x => [.ident x]) id id :=
  fun _ _ x h => ⟨x, name_ok.1 h, rfl⟩

theorem declaredItem_sound (bound : Nat) :
    Sound (declaredItem bound) DeclItem.tokens (fun d => (d.name, d.init.elim .null Expression.node))
      fun p => (p.1, initNode p.2) := by
  intro ts rest p h
  obtain ⟨x, mid, hx, h⟩ := bind_ok.1 h
  obtain ⟨b, mid', hb, h⟩ := bind_ok.1 h
  have hb := accept_ok.1 hb
  rw [name_ok.1 hx]
  cases b with
  | true =>
      obtain ⟨e, mid'', he, h⟩ := bind_ok.1 h
      obtain ⟨rfl, rfl⟩ := pure_ok.1 h
      obtain ⟨d, htokens, hnode⟩ := expression_sound bound _ _ _ he
      refine ⟨⟨x, some d⟩, ?_, Prod.ext rfl hnode⟩
      rw [show mid = .equals :: mid' from hb, htokens]
      rfl
  | false =>
      obtain ⟨rfl, rfl⟩ := pure_ok.1 h
      exact ⟨⟨x, none⟩, by rw [hb.1]; rfl, rfl⟩

/-! ### Statements

What a statement means is its nodes and what it enters in the table of declared types. -/

/-- The meaning of a statement of the surface. -/
def stmtMeaning (s : Stmt) : List Node × (TypeTable → TypeTable) := (s.toNodes, fun types => types.insertAll s.declared)

def bodyMeaning (body : List Stmt) : List Node × (TypeTable → TypeTable) :=
  (bodyNodes body, fun types => types.insertAll (bodyDeclared body))

/-- The meaning of a derived statement. -/
def statementMeaning (d : Statement) : List Node × (TypeTable → TypeTable) := (d.nodes, d.types)

def statementsMeaning (ds : List Statement) : List Node × (TypeTable → TypeTable) :=
  (statementsNodes ds, statementsTypes ds)

def blockMeaning (d : Block) : List Node × (TypeTable → TypeTable) := (d.nodes, d.types)

theorem bodyMeaning_nil : bodyMeaning [] = statementsMeaning [] := by
  refine Prod.ext ?_ (funext fun types => ?_)
  · simp only [bodyMeaning, statementsMeaning, bodyNodes, statementsNodes]
  · simp only [bodyMeaning, statementsMeaning, bodyDeclared, statementsTypes]
    rfl

theorem bodyMeaning_cons {s : Stmt} {body : List Stmt} {d : Statement} {ds : List Statement}
    (hs : stmtMeaning s = statementMeaning d) (hbody : bodyMeaning body = statementsMeaning ds) :
    bodyMeaning (s :: body) = statementsMeaning (d :: ds) := by
  obtain ⟨hnodes, htypes⟩ := Prod.mk.inj hs
  obtain ⟨hnodes', htypes'⟩ := Prod.mk.inj hbody
  refine Prod.ext ?_ (funext fun types => ?_)
  · simp only [bodyMeaning, statementsMeaning, bodyNodes, statementsNodes, hnodes, hnodes']
  · simp only [bodyMeaning, statementsMeaning, bodyDeclared, statementsTypes, Table.insertAll_append, ← htypes,
      ← htypes']

section Blocks

variable {bound : Nat} {stmt : Parser Stmt}
  (hstmt : Sound stmt Statement.tokens statementMeaning stmtMeaning)

include hstmt

theorem statementsUntil_sound (stop : Token) (n : Nat) {ts rest : List Token} {body : List Stmt}
    (h : statementsUntil stop stmt n ts = .ok (body, rest)) :
    ∃ ds, ts = statementsTokens ds ++ rest ∧ bodyMeaning body = statementsMeaning ds := by
  induction n generalizing ts body with
  | zero => cases h
  | succ n ih =>
      rw [statementsUntil] at h
      obtain ⟨ts', mid, hget, h⟩ := bind_ok.1 h
      cases hget
      split at h
      · obtain ⟨rfl, rfl⟩ := pure_ok.1 h
        exact ⟨[], by rw [statementsTokens]; rfl, bodyMeaning_nil⟩
      · obtain ⟨s, mid, hs, h⟩ := bind_ok.1 h
        obtain ⟨body', mid', hbody', h⟩ := bind_ok.1 h
        obtain ⟨rfl, rfl⟩ := pure_ok.1 h
        obtain ⟨d, htokens, hmeaning⟩ := hstmt _ _ _ hs
        obtain ⟨ds, htokens', hmeaning'⟩ := ih hbody'
        exact ⟨d :: ds, by rw [statementsTokens, htokens, htokens', List.append_assoc],
          bodyMeaning_cons hmeaning hmeaning'⟩

theorem block_sound : Sound (block bound stmt) Block.tokens blockMeaning bodyMeaning := by
  intro ts rest body h
  obtain ⟨_, mid, hpundok, h⟩ := bind_ok.1 h
  obtain ⟨_, mid', hbrace, h⟩ := bind_ok.1 h
  obtain ⟨_, mid'', hline, h⟩ := bind_ok.1 h
  obtain ⟨body', mid₃, hbody', h⟩ := bind_ok.1 h
  obtain ⟨_, mid₄, hclose, h⟩ := bind_ok.1 h
  obtain ⟨rfl, rfl⟩ := pure_ok.1 h
  obtain ⟨ds, htokens, hmeaning⟩ := statementsUntil_sound hstmt _ _ hbody'
  refine ⟨.mk ds, ?_, ?_⟩
  · rw [expect_ok.1 hpundok, expect_ok.1 hbrace, expect_ok.1 hline, htokens, expect_ok.1 hclose, Block.tokens]
    simp only [List.cons_append, List.append_assoc, List.nil_append]
  · rw [hmeaning]
    refine Prod.ext ?_ (funext fun types => ?_)
    · simp only [blockMeaning, statementsMeaning, Block.nodes]
    · simp only [blockMeaning, statementsMeaning, Block.types]

/-- The clauses after the first block of a branch. -/
theorem otherwise_sound (n : Nat) {ts rest : List Token} {o : Otherwise}
    (h : otherwise bound stmt n ts = .ok (o, rest)) :
    ∃ cs last, ts = elseIfsTokens cs ++ (elseTokens last ++ rest) ∧ o.toNode = elseIfsNode cs (elseNode last) ∧
      ∀ types, types.insertAll o.declared = elseTypes last (elseIfsTypes cs types) := by
  have hnothing : ∃ cs last, rest = elseIfsTokens cs ++ (elseTokens last ++ rest) ∧
      Otherwise.nothing.toNode = elseIfsNode cs (elseNode last) ∧
      ∀ types, types.insertAll Otherwise.nothing.declared = elseTypes last (elseIfsTypes cs types) := by
    refine ⟨[], none, ?_, ?_, fun types => ?_⟩
    · simp only [elseIfsTokens, elseTokens, List.nil_append]
    · simp only [Otherwise.toNode, elseIfsNode, elseNode]
    · simp only [Otherwise.declared, elseTypes, elseIfsTypes]
      rfl
  induction n generalizing ts o with
  | zero =>
      obtain ⟨rfl, rfl⟩ := pure_ok.1 h
      exact hnothing
  | succ n ih =>
      rw [otherwise] at h
      obtain ⟨b, mid, hb, h⟩ := bind_ok.1 h
      have hb := accept_ok.1 hb
      cases b with
      | true =>
          obtain ⟨c, mid', hc, h⟩ := bind_ok.1 h
          obtain ⟨body, mid'', hbody, h⟩ := bind_ok.1 h
          obtain ⟨o', mid₃, ho', h⟩ := bind_ok.1 h
          obtain ⟨rfl, rfl⟩ := pure_ok.1 h
          obtain ⟨d, htokens, hnode⟩ := condition_sound hc
          obtain ⟨blk, htokens', hmeaning⟩ := block_sound hstmt _ _ _ hbody
          obtain ⟨cs, last, htokens₃, hnode₃, htypes₃⟩ := ih ho'
          obtain ⟨hnodes, htypes⟩ := Prod.mk.inj hmeaning
          refine ⟨.mk d blk :: cs, last, ?_, ?_, fun types => ?_⟩
          · rw [show ts = .kungDili :: mid from hb, htokens, htokens', htokens₃, elseIfsTokens, ElseIf.tokens]
            simp only [List.cons_append, List.append_assoc]
          · rw [Otherwise.toNode, hnode, hnodes, hnode₃, elseIfsNode, ElseIf.node]
          · rw [Otherwise.declared, Table.insertAll_append, htypes₃, congrFun htypes types, elseIfsTypes, ElseIf.types]
      | false =>
          obtain ⟨b', mid', hb', h⟩ := bind_ok.1 h
          have hb' := accept_ok.1 hb'
          obtain ⟨rfl, -⟩ := hb
          cases b' with
          | true =>
              obtain ⟨body, mid'', hbody, h⟩ := bind_ok.1 h
              obtain ⟨rfl, rfl⟩ := pure_ok.1 h
              obtain ⟨blk, htokens, hmeaning⟩ := block_sound hstmt _ _ _ hbody
              obtain ⟨hnodes, htypes⟩ := Prod.mk.inj hmeaning
              refine ⟨[], some blk, ?_, ?_, fun types => ?_⟩
              · rw [show ts = .kungWala :: mid' from hb', htokens, elseIfsTokens, elseTokens]
                rfl
              · rw [Otherwise.toNode, hnodes, elseIfsNode, elseNode]
              · rw [Otherwise.declared, congrFun htypes types, elseIfsTypes, elseTypes]
          | false =>
              obtain ⟨rfl, -⟩ := hb'
              obtain ⟨rfl, rfl⟩ := pure_ok.1 h
              exact hnothing

end Blocks

/-! A statement is its derivation without the line end, which the caller of these parsers takes. -/

theorem declaration_sound {bound : Nat} {ts rest : List Token} {s : Stmt}
    (h : declaration bound ts = .ok (s, .lineEnd :: rest)) :
    ∃ d : Statement, .mugna :: ts = d.tokens ++ rest ∧ stmtMeaning s = statementMeaning d := by
  obtain ⟨t, mid, ht, h⟩ := bind_ok.1 h
  obtain ⟨items, mid', hitems, h⟩ := bind_ok.1 h
  obtain ⟨rfl, rfl⟩ := pure_ok.1 h
  obtain ⟨d, ds, htokens, hmeaning⟩ := items_sound (declaredItem_sound bound) hitems
  refine ⟨.declaration t d ds, ?_, Prod.ext ?_ (funext fun types => ?_)⟩
  · rw [typeWord_ok.1 ht, htokens, Statement.tokens]
    simp only [List.cons_append, List.append_assoc, List.nil_append]
  · calc declareNodes t items
        = (items.map fun p => (p.1, initNode p.2)).map fun p => .declare p.1 p.2 (some t.type) := by
          rw [declareNodes, List.map_map]
          rfl
      _ = (d :: ds).map (DeclItem.node t) := by
          rw [hmeaning, List.map_map]
          rfl
      _ = (Statement.declaration t d ds).nodes := by rw [Statement.nodes]
  · calc types.insertAll (items.map fun p => (p.1, some t.type))
        = (items.map fun p => (p.1, initNode p.2)).foldl (fun u p => u.insert p.1 (some t.type)) types := by
          rw [Table.insertAll, List.foldl_map, List.foldl_map]
      _ = (d :: ds).foldl (DeclItem.enter t) types := by
          rw [hmeaning, List.foldl_map]
          rfl
      _ = (Statement.declaration t d ds).types types := by rw [Statement.types]

theorem printed_sound {bound : Nat} {ts rest : List Token} {s : Stmt}
    (h : printed bound ts = .ok (s, .lineEnd :: rest)) :
    ∃ d : Statement, .ipakita :: ts = d.tokens ++ rest ∧ stmtMeaning s = statementMeaning d := by
  obtain ⟨_, mid, hcolon, h⟩ := bind_ok.1 h
  obtain ⟨e, mid', he, h⟩ := bind_ok.1 h
  obtain ⟨rfl, rfl⟩ := pure_ok.1 h
  obtain ⟨d, htokens, hnode⟩ := expression_sound bound _ _ _ he
  refine ⟨.print d, ?_, Prod.ext ?_ (funext fun types => ?_)⟩
  · rw [expect_ok.1 hcolon, htokens, Statement.tokens]
    simp only [List.cons_append, List.append_assoc, List.nil_append]
  · simp only [stmtMeaning, statementMeaning, Stmt.toNodes, Statement.nodes, hnode]
  · simp only [stmtMeaning, statementMeaning, Stmt.declared, Statement.types]
    rfl

theorem inputTargets_sound {bound : Nat} {ts rest : List Token} {s : Stmt}
    (h : inputTargets bound ts = .ok (s, .lineEnd :: rest)) :
    ∃ d : Statement, .dawat :: ts = d.tokens ++ rest ∧ stmtMeaning s = statementMeaning d := by
  obtain ⟨_, mid, hcolon, h⟩ := bind_ok.1 h
  obtain ⟨names, mid', hnames, h⟩ := bind_ok.1 h
  obtain ⟨rfl, rfl⟩ := pure_ok.1 h
  obtain ⟨x, xs, htokens, hmeaning⟩ := items_sound name_sound hnames
  rw [List.map_id, List.map_id] at hmeaning
  refine ⟨.input x xs, ?_, Prod.ext ?_ (funext fun types => ?_)⟩
  · rw [expect_ok.1 hcolon, htokens, Statement.tokens]
    simp only [List.cons_append, List.append_assoc, List.nil_append]
  · simp only [stmtMeaning, statementMeaning, Stmt.toNodes, Statement.nodes, hmeaning]
  · simp only [stmtMeaning, statementMeaning, Stmt.declared, Statement.types]
    rfl

section Nesting

variable {bound : Nat} {stmt : Parser Stmt}
  (hstmt : Sound stmt Statement.tokens statementMeaning stmtMeaning)

include hstmt

theorem branching_sound {ts rest : List Token} {s : Stmt} (h : branching bound stmt ts = .ok (s, .lineEnd :: rest)) :
    ∃ d : Statement, .kung :: ts = d.tokens ++ rest ∧ stmtMeaning s = statementMeaning d := by
  obtain ⟨c, mid, hc, h⟩ := bind_ok.1 h
  obtain ⟨body, mid', hbody, h⟩ := bind_ok.1 h
  obtain ⟨o, mid'', ho, h⟩ := bind_ok.1 h
  obtain ⟨rfl, rfl⟩ := pure_ok.1 h
  obtain ⟨d, htokens, hnode⟩ := condition_sound hc
  obtain ⟨blk, htokens', hmeaning⟩ := block_sound hstmt _ _ _ hbody
  obtain ⟨cs, last, htokens₃, hnode₃, htypes₃⟩ := otherwise_sound hstmt _ ho
  obtain ⟨hnodes, htypes⟩ := Prod.mk.inj hmeaning
  refine ⟨.branch d blk cs last, ?_, Prod.ext ?_ (funext fun types => ?_)⟩
  · rw [htokens, htokens', htokens₃, Statement.tokens]
    simp only [List.cons_append, List.append_assoc, List.nil_append]
  · simp only [stmtMeaning, statementMeaning, Stmt.toNodes, Statement.nodes, hnode, hnodes, hnode₃]
  · simp only [stmtMeaning, statementMeaning, Stmt.declared, Statement.types, Table.insertAll_append, htypes₃]
    rw [congrFun htypes types]

theorem looping_sound {ts rest : List Token} {s : Stmt} (h : looping bound stmt ts = .ok (s, .lineEnd :: rest)) :
    ∃ d : Statement, .samtang :: ts = d.tokens ++ rest ∧ stmtMeaning s = statementMeaning d := by
  obtain ⟨c, mid, hc, h⟩ := bind_ok.1 h
  obtain ⟨body, mid', hbody, h⟩ := bind_ok.1 h
  obtain ⟨rfl, rfl⟩ := pure_ok.1 h
  obtain ⟨d, htokens, hnode⟩ := condition_sound hc
  obtain ⟨blk, htokens', hmeaning⟩ := block_sound hstmt _ _ _ hbody
  obtain ⟨hnodes, htypes⟩ := Prod.mk.inj hmeaning
  refine ⟨.loop d blk, ?_, Prod.ext ?_ (funext fun types => ?_)⟩
  · rw [htokens, htokens', Statement.tokens]
    simp only [List.cons_append, List.append_assoc, List.nil_append]
  · simp only [stmtMeaning, statementMeaning, Stmt.toNodes, Statement.nodes, hnode, hnodes]
  · simp only [stmtMeaning, statementMeaning, Stmt.declared, Statement.types]
    exact congrFun htypes types

theorem counting_sound {ts rest : List Token} {s : Stmt} (h : counting bound stmt ts = .ok (s, .lineEnd :: rest)) :
    ∃ d : Statement, .alangSa :: ts = d.tokens ++ rest ∧ stmtMeaning s = statementMeaning d := by
  obtain ⟨_, mid, hleft, h⟩ := bind_ok.1 h
  obtain ⟨init, mid₁, hinit, h⟩ := bind_ok.1 h
  obtain ⟨_, mid₂, hcomma, h⟩ := bind_ok.1 h
  obtain ⟨c, mid₃, hc, h⟩ := bind_ok.1 h
  obtain ⟨_, mid₄, hcomma', h⟩ := bind_ok.1 h
  obtain ⟨update, mid₅, hupdate, h⟩ := bind_ok.1 h
  obtain ⟨_, mid₆, hright, h⟩ := bind_ok.1 h
  obtain ⟨body, mid₇, hbody, h⟩ := bind_ok.1 h
  obtain ⟨rfl, rfl⟩ := pure_ok.1 h
  obtain ⟨di, htokens, hnode⟩ := expression_sound bound _ _ _ hinit
  obtain ⟨dc, htokens', hnode'⟩ := expression_sound bound _ _ _ hc
  obtain ⟨du, htokens₃, hnode₃⟩ := expression_sound bound _ _ _ hupdate
  obtain ⟨blk, htokens₄, hmeaning⟩ := block_sound hstmt _ _ _ hbody
  obtain ⟨hnodes, htypes⟩ := Prod.mk.inj hmeaning
  refine ⟨.count di dc du blk, ?_, Prod.ext ?_ (funext fun types => ?_)⟩
  · rw [expect_ok.1 hleft, htokens, expect_ok.1 hcomma, htokens', expect_ok.1 hcomma', htokens₃, expect_ok.1 hright,
      htokens₄, Statement.tokens]
    simp only [List.cons_append, List.append_assoc, List.nil_append]
  · simp only [stmtMeaning, statementMeaning, Stmt.toNodes, Statement.nodes, hnode, hnode', hnode₃, hnodes]
  · simp only [stmtMeaning, statementMeaning, Stmt.declared, Statement.types]
    exact congrFun htypes types

end Nesting

theorem statement_sound (bound n : Nat) :
    Sound (statement bound n) Statement.tokens statementMeaning stmtMeaning := by
  induction n with
  | zero =>
      intro ts rest s h
      cases h
  | succ n ih =>
      intro ts rest s h
      rw [statement] at h
      obtain ⟨s', mid, hs', h⟩ := bind_ok.1 h
      obtain ⟨_, mid', hline, h⟩ := bind_ok.1 h
      obtain ⟨rfl, rfl⟩ := pure_ok.1 h
      rw [expect_ok.1 hline] at hs'
      simp only [statementOf] at hs'
      split at hs'
      · exact declaration_sound hs'
      · exact printed_sound hs'
      · exact inputTargets_sound hs'
      · exact branching_sound ih hs'
      · exact looping_sound ih hs'
      · exact counting_sound ih hs'
      · obtain ⟨e, he, rfl⟩ := map_ok.1 hs'
        obtain ⟨d, htokens, hnode⟩ := expression_sound bound _ _ _ he
        refine ⟨.expr d, ?_, Prod.ext ?_ (funext fun types => ?_)⟩
        · rw [htokens, Statement.tokens, List.append_assoc]
          rfl
        · simp only [stmtMeaning, statementMeaning, Stmt.toNodes, Statement.nodes, hnode]
        · simp only [stmtMeaning, statementMeaning, Stmt.declared, Statement.types]
          rfl

/-- What is accepted as a program derives from the start symbol, and its tree is that of the derivation. -/
theorem parseTokens_sound {ts : List Token} {body : List Stmt} (h : parseTokens ts = .ok body) :
    ∃ d : Start, d.tokens = ts ∧ programNode body = d.program := by
  unfold parseTokens at h
  cases hprogram : program (ts.length + 1) ts with
  | error left =>
      rw [hprogram] at h
      cases h
  | ok r =>
      obtain ⟨body', rest⟩ := r
      rw [hprogram] at h
      cases h
      obtain ⟨_, mid, hsugod, hprogram⟩ := bind_ok.1 hprogram
      obtain ⟨_, mid₁, hline, hprogram⟩ := bind_ok.1 hprogram
      obtain ⟨body', mid₂, hbody, hprogram⟩ := bind_ok.1 hprogram
      obtain ⟨_, mid₃, hkatapusan, hprogram⟩ := bind_ok.1 hprogram
      obtain ⟨b, mid₄, hb, hprogram⟩ := bind_ok.1 hprogram
      obtain ⟨_, mid₅, hending, hprogram⟩ := bind_ok.1 hprogram
      obtain ⟨rfl, rfl⟩ := pure_ok.1 hprogram
      obtain ⟨rfl, rfl⟩ := ending_ok.1 hending
      obtain ⟨ds, htokens, hmeaning⟩ := statementsUntil_sound (statement_sound _ _) _ _ hbody
      obtain ⟨hnodes, htypes⟩ := Prod.mk.inj hmeaning
      refine ⟨⟨ds, b⟩, ?_, ?_⟩
      · rw [expect_ok.1 hsugod, expect_ok.1 hline, htokens, expect_ok.1 hkatapusan]
        have hb := accept_ok.1 hb
        cases b with
        | true => rw [show mid₃ = [.lineEnd] from hb]; rfl
        | false => rw [show mid₃ = [] from hb.1]; rfl
      · rw [programNode, Start.program, hnodes, ← congrFun htypes .empty]
        rfl

end Binisaya.Parser
