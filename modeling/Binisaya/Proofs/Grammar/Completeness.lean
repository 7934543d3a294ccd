import Binisaya.Proofs.Grammar.Soundness
import Binisaya.Proofs.Grammar.Unambiguous

/-! The parser accepts all that derives from the grammar. A parser is run on the tokens of a tree and whatever follows
them, as long as that cannot go on with the tree, and is shown to take the tokens and leave the rest. The numbers
that bound repetition and nesting never matter, because a tree has at least as many tokens as it has repetitions and
levels of nesting. Together with soundness and unambiguity this is the main statement about the parser: it accepts
exactly the grammar, and returns the tree of the only derivation. -/

namespace Binisaya.Parser

open Grammar

section Results

variable {α β : Type} {ts mid rest : List Token}

theorem bind_accepts {p : Parser α} {f : α → Parser β} {a : α} (hp : p ts = .ok (a, mid))
    (hf : ∃ b, f a mid = .ok (b, rest)) : ∃ b, (p >>= f) ts = .ok (b, rest) := by
  obtain ⟨b, hb⟩ := hf
  exact ⟨b, bind_ok.2 ⟨a, mid, hp, hb⟩⟩

theorem pure_accepts (a : α) : ∃ b, (pure a : Parser α) rest = .ok (b, rest) := ⟨a, rfl⟩

theorem map_accepts {p : Parser α} {f : α → β} (hp : ∃ a, p ts = .ok (a, rest)) :
    ∃ b, (f <$> p) ts = .ok (b, rest) := by
  obtain ⟨a, ha⟩ := hp
  exact ⟨f a, map_ok.2 ⟨a, ha, rfl⟩⟩

theorem expect_accepts {t : Token} {f : Unit → Parser β} (hf : ∃ b, f () mid = .ok (b, rest)) :
    ∃ b, (expect t >>= f) (t :: mid) = .ok (b, rest) :=
  bind_accepts (expect_ok.2 rfl) hf

/-- A token that may come and comes. -/
theorem accept_accepts {t : Token} {f : Bool → Parser β} (hf : ∃ b, f true mid = .ok (b, rest)) :
    ∃ b, (accept t >>= f) (t :: mid) = .ok (b, rest) := by
  have htrue : accept t (t :: mid) = .ok (true, mid) := accept_ok.2 rfl
  exact bind_accepts htrue hf

/-- A token that may come and does not. -/
theorem skip_accepts {t : Token} {f : Bool → Parser β} (hmid : mid.head? ≠ some t)
    (hf : ∃ b, f false mid = .ok (b, rest)) : ∃ b, (accept t >>= f) mid = .ok (b, rest) := by
  have hfalse : accept t mid = .ok (false, mid) := accept_ok.2 ⟨rfl, hmid⟩
  exact bind_accepts hfalse hf

theorem name_accepts {x : String} {f : String → Parser β} (hf : ∃ b, f x mid = .ok (b, rest)) :
    ∃ b, (name >>= f) (.ident x :: mid) = .ok (b, rest) :=
  bind_accepts (name_ok.2 rfl) hf

end Results

mutual

theorem operation_accepts {bound size : Nat} {p : Parser Expr}
    (hp : ∀ (d : Unary) (rest : List Token), d.tokens.length ≤ size → ∃ e, p (d.tokens ++ rest) = .ok (e, rest))
    (hsize : size ≤ bound) {levels : List (List BinaryOp)} (hlevels : levels.flatten.Nodup) (d : Operation levels)
    {rest : List Token} (hlength : d.tokens.length ≤ size) (hrest : NoOperator levels rest) :
    ∃ e, levels.foldr (chain bound) p (d.tokens ++ rest) = .ok (e, rest) := by
  match d with
  | .unary d =>
      rw [Operation.tokens] at hlength ⊢
      exact hp d rest hlength
  | .chain first more =>
      rw [Operation.tokens, List.length_append] at hlength
      rw [Operation.tokens, List.append_assoc]
      have htighter := (List.nodup_append.1 hlevels).2.1
      obtain ⟨e, he⟩ := operation_accepts hp hsize htighter first (by omega) (hrest.tail hlevels more)
      exact bind_accepts he (chainTail_accepts hp hsize hlevels more bound (by omega) (by omega) hrest e)

theorem chainTail_accepts {bound size : Nat} {p : Parser Expr}
    (hp : ∀ (d : Unary) (rest : List Token), d.tokens.length ≤ size → ∃ e, p (d.tokens ++ rest) = .ok (e, rest))
    (hsize : size ≤ bound) {ops : List BinaryOp} {tighter : List (List BinaryOp)}
    (hlevels : (ops :: tighter).flatten.Nodup) (d : Tail ops tighter) (n : Nat) {rest : List Token}
    (hlength : d.tokens.length ≤ size) (hn : d.tokens.length ≤ n) (hrest : NoOperator (ops :: tighter) rest)
    (e : Expr) :
    ∃ e', chainTail ops (tighter.foldr (chain bound) p) n e (d.tokens ++ rest) = .ok (e', rest) := by
  match d, n with
  | .nil, 0 =>
      rw [Tail.tokens]
      exact pure_accepts e
  | .nil, n + 1 =>
      rw [Tail.tokens, List.nil_append]
      simp only [chainTail]
      split
      · next op ts =>
          have hop : op ∉ ops := fun hop => hrest op (List.mem_append_left _ hop) rfl
          exact ⟨e, if_neg hop⟩
      · exact ⟨e, rfl⟩
  | .cons op hop d more, 0 =>
      rw [Tail.tokens] at hn
      exact absurd hn (Nat.not_succ_le_zero _)
  | .cons op hop d more, n + 1 =>
      rw [Tail.tokens, List.length_cons, List.length_append] at hlength hn
      rw [Tail.tokens, List.cons_append, List.append_assoc]
      simp only [chainTail]
      rw [if_pos hop]
      have htighter := (List.nodup_append.1 hlevels).2.1
      obtain ⟨e', he'⟩ := operation_accepts hp hsize htighter d (by omega) (hrest.tail hlevels more)
      exact bind_accepts he' (chainTail_accepts hp hsize hlevels more n (by omega) (by omega) hrest _)

end

theorem expressionOf_accepts {bound size : Nat} {p : Parser Expr}
    (hp : ∀ (d : Unary) (rest : List Token), d.tokens.length ≤ size → ∃ e, p (d.tokens ++ rest) = .ok (e, rest))
    (hsize : size ≤ bound) (d : Expression) (rest : List Token) (hlength : d.tokens.length ≤ size)
    (hrest : Closing rest) : ∃ e, expressionOf bound p (d.tokens ++ rest) = .ok (e, rest) := by
  match d with
  | .assign name d =>
      rw [Expression.tokens, List.length_cons, List.length_cons] at hlength
      obtain ⟨e, he⟩ := expressionOf_accepts hp hsize d rest (by omega) hrest
      refine ⟨.assign name e, ?_⟩
      rw [Expression.tokens, List.cons_append, List.cons_append, expressionOf, he]
      rfl
  | .operation d =>
      rw [Expression.tokens] at hlength ⊢
      rw [expressionOf]
      · exact operation_accepts hp hsize (by decide) d hlength (hrest.noOperator _)
      · exact fun _ _ => d.not_assignment hrest.ne_equals

theorem sign_accepts {bound n : Nat} (op : UnaryOp) (ts : List Token) :
    operand bound (n + 1) (signToken op :: ts) = (Expr.unary op <$> operand bound n) ts := by
  cases op <;> rfl

/-- Signs and parentheses are tokens, so that an operand of a given length never nests deeper. -/
theorem operand_accepts {bound n : Nat} (hn : n ≤ bound) (d : Unary) (rest : List Token)
    (hlength : d.tokens.length ≤ n) : ∃ e, operand bound n (d.tokens ++ rest) = .ok (e, rest) := by
  induction n generalizing d rest with
  | zero =>
      obtain ⟨t, ts, htokens, -⟩ := d.tokens_eq_cons
      rw [htokens] at hlength
      exact absurd hlength (Nat.not_succ_le_zero _)
  | succ n ih =>
      have hn : n ≤ bound := by omega
      cases d with
      | sign op d =>
          rw [Unary.tokens, List.length_cons] at hlength
          rw [Unary.tokens, List.cons_append, sign_accepts]
          exact map_accepts (ih hn d rest (by omega))
      | primary d =>
          rw [Unary.tokens] at hlength ⊢
          cases d with
          | group d =>
              rw [Primary.tokens, List.length_cons, List.length_append] at hlength
              rw [Primary.tokens, List.cons_append, List.append_assoc]
              obtain ⟨e, he⟩ := expressionOf_accepts (ih hn) hn d (.rightParen :: rest) (by omega) (.inr (.inl rfl))
              exact bind_accepts he (expect_accepts (pure_accepts _))
          | _ =>
              rw [Primary.tokens]
              exact ⟨_, rfl⟩

theorem expression_accepts {bound : Nat} (d : Expression) (rest : List Token) (hlength : d.tokens.length ≤ bound)
    (hrest : Closing rest) : ∃ e, expression bound (d.tokens ++ rest) = .ok (e, rest) :=
  expressionOf_accepts (operand_accepts (Nat.le_refl bound)) (Nat.le_refl bound) d rest hlength hrest

theorem condition_accepts {bound : Nat} (d : Expression) (rest : List Token) (hlength : d.tokens.length ≤ bound) :
    ∃ e, condition bound (.leftParen :: (d.tokens ++ .rightParen :: rest)) = .ok (e, rest) := by
  obtain ⟨e, he⟩ := expression_accepts d (.rightParen :: rest) hlength (.inr (.inl rfl))
  exact expect_accepts (bind_accepts he (expect_accepts (pure_accepts e)))

theorem moreItems_accepts {α τ : Type} {item : Parser α} {tokens : τ → List Token} {size : Nat}
    (hitem : ∀ (d : τ) (rest : List Token), (tokens d).length ≤ size → Closing rest →
      ∃ a, item (tokens d ++ rest) = .ok (a, rest))
    (ds : List τ) (n : Nat) {rest : List Token} (hlength : (commaTokens tokens ds).length ≤ size)
    (hn : ds.length ≤ n) (hrest : rest.head? = some .lineEnd) :
    ∃ as, moreItems item n (commaTokens tokens ds ++ rest) = .ok (as, rest) := by
  induction ds generalizing n with
  | nil =>
      cases n with
      | zero => exact pure_accepts []
      | succ n =>
          have hcomma : rest.head? ≠ some .comma := by
            rw [hrest]
            decide
          exact skip_accepts hcomma (pure_accepts [])
  | cons d ds ih =>
      cases n with
      | zero => exact absurd hn (Nat.not_succ_le_zero _)
      | succ n =>
          rw [commaTokens_cons, List.length_cons, List.length_append] at hlength
          rw [List.length_cons] at hn
          rw [commaTokens_cons, List.cons_append, List.append_assoc]
          obtain ⟨a, ha⟩ := hitem d _ (by omega) (closing_commaTokens tokens ds hrest)
          obtain ⟨as, has⟩ := ih n (by omega) (by omega)
          exact accept_accepts (bind_accepts ha (bind_accepts has (pure_accepts _)))

theorem length_le_commaTokens {τ : Type} (tokens : τ → List Token) (ds : List τ) :
    ds.length ≤ (commaTokens tokens ds).length := by
  induction ds with
  | nil => exact Nat.zero_le _
  | cons d ds ih =>
      rw [commaTokens_cons, List.length_cons, List.length_cons, List.length_append]
      omega

theorem items_accepts {α τ : Type} {item : Parser α} {tokens : τ → List Token} {size bound : Nat}
    (hitem : ∀ (d : τ) (rest : List Token), (tokens d).length ≤ size → Closing rest →
      ∃ a, item (tokens d ++ rest) = .ok (a, rest))
    (d : τ) (ds : List τ) (rest : List Token) (hd : (tokens d).length ≤ size)
    (hds : (commaTokens tokens ds).length ≤ size) (hbound : (commaTokens tokens ds).length ≤ bound)
    (hrest : rest.head? = some .lineEnd) :
    ∃ as, items bound item (tokens d ++ (commaTokens tokens ds ++ rest)) = .ok (as, rest) := by
  have hlength := length_le_commaTokens tokens ds
  obtain ⟨a, ha⟩ := hitem d _ hd (closing_commaTokens tokens ds hrest)
  obtain ⟨as, has⟩ := moreItems_accepts hitem ds bound hds (by omega) hrest
  exact bind_accepts ha (bind_accepts has (pure_accepts _))

theorem declaredItem_accepts {bound : Nat} (d : DeclItem) (rest : List Token) (hlength : d.tokens.length ≤ bound)
    (hrest : Closing rest) : ∃ p, declaredItem bound (d.tokens ++ rest) = .ok (p, rest) := by
  obtain ⟨x, init⟩ := d
  refine name_accepts ?_
  cases init with
  | none => exact skip_accepts hrest.ne_equals (pure_accepts _)
  | some e =>
      have hlength : e.tokens.length + 2 ≤ bound := hlength
      obtain ⟨e', he'⟩ := expression_accepts e rest (show e.tokens.length ≤ bound by omega) hrest
      exact accept_accepts (bind_accepts he' (pure_accepts _))

/-! ### Statements -/

theorem length_le_statementsTokens (ds : List Statement) : ds.length ≤ (statementsTokens ds).length := by
  induction ds with
  | nil => exact Nat.zero_le _
  | cons d ds ih =>
      obtain ⟨t, ts, htokens, -⟩ := d.tokens_eq_cons
      rw [statementsTokens, htokens, List.length_append, List.length_cons, List.length_cons]
      omega

/-- Either the statements end here or one more is taken. -/
theorem statementsUntil_succ (stop : Token) (stmt : Parser Stmt) (n : Nat) (ts : List Token) :
    statementsUntil stop stmt (n + 1) ts =
      if ts.head? = some stop then .ok ([], ts)
      else (stmt >>= fun s => statementsUntil stop stmt n >>= fun ss => pure (s :: ss)) ts := by
  rw [statementsUntil]
  change (if ts.head? = some stop then pure [] else _ : Parser (List Stmt)) ts = _
  split
  · rfl
  · rfl

section Blocks

variable {bound size : Nat} {stmt : Parser Stmt}
  (hstmt : ∀ (d : Statement) (rest : List Token), d.tokens.length ≤ size →
    ∃ s, stmt (d.tokens ++ rest) = .ok (s, rest))
  (hsize : size < bound)

include hstmt

/-- Statements up to a token that none of them starts with. -/
theorem statementsUntil_accepts {stop : Token} (hstop : startsStatement stop = false) (ds : List Statement) (n : Nat)
    (rest : List Token) (hlength : (statementsTokens ds).length ≤ size) (hn : ds.length < n) :
    ∃ body, statementsUntil stop stmt n (statementsTokens ds ++ stop :: rest) = .ok (body, stop :: rest) := by
  induction ds generalizing n with
  | nil =>
      obtain ⟨n, rfl⟩ : ∃ k, n = k + 1 := ⟨n - 1, by omega⟩
      rw [statementsTokens, List.nil_append, statementsUntil_succ, if_pos (List.head?_cons ..)]
      exact ⟨[], rfl⟩
  | cons d ds ih =>
      obtain ⟨n, rfl⟩ : ∃ k, n = k + 1 := ⟨n - 1, by omega⟩
      rw [statementsTokens, List.length_append] at hlength
      rw [List.length_cons] at hn
      have hhead : (d.tokens ++ (statementsTokens ds ++ stop :: rest)).head? ≠ some stop := by
        obtain ⟨t, ts, htokens, hstart, -⟩ := d.tokens_eq_cons
        rw [htokens, List.cons_append, List.head?_cons]
        rintro ⟨⟩
        rw [hstart] at hstop
        cases hstop
      obtain ⟨s, hs⟩ := hstmt d (statementsTokens ds ++ stop :: rest) (by omega)
      obtain ⟨body, hbody⟩ := ih n (by omega) (by omega)
      rw [statementsTokens, List.append_assoc, statementsUntil_succ, if_neg hhead]
      exact bind_accepts hs (bind_accepts hbody (pure_accepts _))

include hsize

theorem block_accepts (d : Block) (rest : List Token) (hlength : d.tokens.length ≤ size) :
    ∃ body, block bound stmt (d.tokens ++ rest) = .ok (body, rest) := by
  obtain ⟨ds⟩ := d
  simp only [Block.tokens, List.length_cons, List.length_append] at hlength
  simp only [Block.tokens, List.cons_append, List.append_assoc, List.nil_append]
  have hds := length_le_statementsTokens ds
  obtain ⟨body, hbody⟩ := statementsUntil_accepts hstmt (show startsStatement .rightBrace = false from rfl) ds bound
    rest (by omega) (by omega)
  exact expect_accepts (expect_accepts (expect_accepts (bind_accepts hbody (expect_accepts (pure_accepts body)))))

theorem otherwise_accepts (cs : List ElseIf) (last : Option Block) (n : Nat) (rest : List Token)
    (hlength : (elseIfsTokens cs).length + (elseTokens last).length ≤ size)
    (hn : (elseIfsTokens cs).length + (elseTokens last).length ≤ n) :
    ∃ o, otherwise bound stmt n (elseIfsTokens cs ++ (elseTokens last ++ .lineEnd :: rest)) =
      .ok (o, .lineEnd :: rest) := by
  induction cs generalizing n with
  | nil =>
      rw [elseIfsTokens, List.length_nil] at hlength hn
      rw [elseIfsTokens, List.nil_append]
      cases last with
      | none =>
          rw [elseTokens, List.nil_append]
          cases n with
          | zero => exact pure_accepts _
          | succ n => exact skip_accepts (by simp) (skip_accepts (by simp) (pure_accepts _))
      | some body =>
          rw [elseTokens, List.length_cons] at hlength hn
          rw [elseTokens, List.cons_append]
          obtain ⟨n, rfl⟩ : ∃ k, n = k + 1 := ⟨n - 1, by omega⟩
          obtain ⟨b, hb⟩ := block_accepts hstmt hsize body (.lineEnd :: rest) (by omega)
          exact skip_accepts (by simp) (accept_accepts (bind_accepts hb (pure_accepts _)))
  | cons c cs ih =>
      obtain ⟨condition, body⟩ := c
      simp only [elseIfsTokens, ElseIf.tokens, List.length_cons, List.length_append] at hlength hn
      simp only [elseIfsTokens, ElseIf.tokens, List.cons_append, List.append_assoc]
      obtain ⟨n, rfl⟩ : ∃ k, n = k + 1 := ⟨n - 1, by omega⟩
      obtain ⟨e, he⟩ := condition_accepts condition (body.tokens ++ (elseIfsTokens cs ++ (elseTokens last ++
        .lineEnd :: rest))) (show condition.tokens.length ≤ bound by omega)
      obtain ⟨b, hb⟩ := block_accepts hstmt hsize body (elseIfsTokens cs ++ (elseTokens last ++ .lineEnd :: rest))
        (by omega)
      obtain ⟨o, ho⟩ := ih n (by omega) (by omega)
      exact accept_accepts (bind_accepts he (bind_accepts hb (bind_accepts ho (pure_accepts _))))

end Blocks

/-! The rests of statements after their first words, up to the line end. -/

theorem declaration_accepts {bound : Nat} (type : TypeWord) (first : DeclItem) (more : List DeclItem)
    (rest : List Token) (hfirst : first.tokens.length ≤ bound)
    (hmore : (commaTokens DeclItem.tokens more).length ≤ bound) :
    ∃ s, declaration bound (.typeWord type :: (first.tokens ++ (commaTokens DeclItem.tokens more ++ .lineEnd :: rest))) =
      .ok (s, .lineEnd :: rest) := by
  obtain ⟨ps, hps⟩ := items_accepts declaredItem_accepts first more (.lineEnd :: rest) hfirst hmore hmore rfl
  exact bind_accepts (typeWord_ok.2 rfl) (bind_accepts hps (pure_accepts _))

theorem printed_accepts {bound : Nat} (d : Expression) (rest : List Token) (hlength : d.tokens.length ≤ bound) :
    ∃ s, printed bound (.colon :: (d.tokens ++ .lineEnd :: rest)) = .ok (s, .lineEnd :: rest) := by
  obtain ⟨e, he⟩ := expression_accepts d (.lineEnd :: rest) hlength (.inl rfl)
  exact expect_accepts (bind_accepts he (pure_accepts _))

theorem inputTargets_accepts {bound : Nat} (first : String) (more : List String) (rest : List Token)
    (hmore : (commaTokens (fun x => [.ident x]) more).length ≤ bound) :
    ∃ s, inputTargets bound (.colon :: .ident first :: (commaTokens (fun x => [.ident x]) more ++ .lineEnd :: rest)) =
      .ok (s, .lineEnd :: rest) := by
  have hname : ∀ (x : String) (rest : List Token), [Token.ident x].length ≤ bound + 1 → Closing rest →
      ∃ a, name ([.ident x] ++ rest) = .ok (a, rest) := fun x rest _ _ => ⟨x, name_ok.2 rfl⟩
  obtain ⟨xs, hxs⟩ := items_accepts hname first more (.lineEnd :: rest) (Nat.succ_le_succ (Nat.zero_le _))
    (Nat.le_succ_of_le hmore) hmore rfl
  exact expect_accepts (bind_accepts hxs (pure_accepts _))

section Nesting

variable {bound size : Nat} {stmt : Parser Stmt}
  (hstmt : ∀ (d : Statement) (rest : List Token), d.tokens.length ≤ size →
    ∃ s, stmt (d.tokens ++ rest) = .ok (s, rest))
  (hsize : size < bound)

include hstmt hsize

theorem branching_accepts (condition : Expression) (body : Block) (cs : List ElseIf) (last : Option Block)
    (rest : List Token) (hlength : condition.tokens.length + body.tokens.length + (elseIfsTokens cs).length +
      (elseTokens last).length ≤ size) :
    ∃ s, branching bound stmt (.leftParen :: (condition.tokens ++ .rightParen :: (body.tokens ++
      (elseIfsTokens cs ++ (elseTokens last ++ .lineEnd :: rest))))) = .ok (s, .lineEnd :: rest) := by
  obtain ⟨e, he⟩ := condition_accepts condition (body.tokens ++ (elseIfsTokens cs ++ (elseTokens last ++
    .lineEnd :: rest))) (show condition.tokens.length ≤ bound by omega)
  obtain ⟨b, hb⟩ := block_accepts hstmt hsize body (elseIfsTokens cs ++ (elseTokens last ++ .lineEnd :: rest))
    (by omega)
  obtain ⟨o, ho⟩ := otherwise_accepts hstmt hsize cs last bound rest (by omega) (by omega)
  exact bind_accepts he (bind_accepts hb (bind_accepts ho (pure_accepts _)))

theorem looping_accepts (condition : Expression) (body : Block) (rest : List Token)
    (hlength : condition.tokens.length + body.tokens.length ≤ size) :
    ∃ s, looping bound stmt (.leftParen :: (condition.tokens ++ .rightParen :: (body.tokens ++ rest))) =
      .ok (s, rest) := by
  obtain ⟨e, he⟩ := condition_accepts condition (body.tokens ++ rest) (show condition.tokens.length ≤ bound by omega)
  obtain ⟨b, hb⟩ := block_accepts hstmt hsize body rest (by omega)
  exact bind_accepts he (bind_accepts hb (pure_accepts _))

theorem counting_accepts (init condition update : Expression) (body : Block) (rest : List Token)
    (hlength : init.tokens.length + condition.tokens.length + update.tokens.length + body.tokens.length ≤ size) :
    ∃ s, counting bound stmt (.leftParen :: (init.tokens ++ .comma :: (condition.tokens ++ .comma ::
      (update.tokens ++ .rightParen :: (body.tokens ++ rest))))) = .ok (s, rest) := by
  obtain ⟨b, hb⟩ := block_accepts hstmt hsize body rest (by omega)
  obtain ⟨u, hu⟩ := expression_accepts update (.rightParen :: (body.tokens ++ rest))
    (show update.tokens.length ≤ bound by omega) (.inr (.inl rfl))
  obtain ⟨c, hc⟩ := expression_accepts condition (.comma :: (update.tokens ++ .rightParen :: (body.tokens ++ rest)))
    (show condition.tokens.length ≤ bound by omega) (.inr (.inr rfl))
  obtain ⟨i, hi⟩ := expression_accepts init (.comma :: (condition.tokens ++ .comma :: (update.tokens ++ .rightParen ::
    (body.tokens ++ rest)))) (show init.tokens.length ≤ bound by omega) (.inr (.inr rfl))
  exact expect_accepts (bind_accepts hi (expect_accepts (bind_accepts hc (expect_accepts (bind_accepts hu
    (expect_accepts (bind_accepts hb (pure_accepts _))))))))

end Nesting

/-- An expression starts with none of the words that other statements start with. -/
theorem statementOf_expression {bound : Nat} {stmt : Parser Stmt} (d : Expression) (rest : List Token) :
    statementOf bound stmt (d.tokens ++ rest) = (Stmt.expr <$> expression bound) (d.tokens ++ rest) := by
  obtain ⟨t, ts, htokens, hstart⟩ := d.tokens_eq_cons
  rw [htokens]
  cases t with
  | ident | number | text | char | escape | newline | leftParen | dili | operator => rfl
  | _ => cases hstart

/-- Blocks are longer than the statements in them, so that a statement of a given length never nests deeper. -/
theorem statement_accepts {bound n : Nat} (hn : n ≤ bound) (d : Statement) (rest : List Token)
    (hlength : d.tokens.length ≤ n) : ∃ s, statement bound n (d.tokens ++ rest) = .ok (s, rest) := by
  induction n generalizing d rest with
  | zero =>
      obtain ⟨t, ts, htokens, -⟩ := d.tokens_eq_cons
      rw [htokens] at hlength
      exact absurd hlength (Nat.not_succ_le_zero _)
  | succ n ih =>
      have hstmt := ih (Nat.le_of_succ_le hn)
      suffices hstatement :
          ∃ s, statementOf bound (statement bound n) (d.tokens ++ rest) = .ok (s, .lineEnd :: rest) by
        obtain ⟨s, hs⟩ := hstatement
        exact bind_accepts hs (expect_accepts (pure_accepts s))
      cases d with
      | expr e =>
          simp only [Statement.tokens, List.length_append] at hlength
          rw [Statement.tokens, List.append_assoc, statementOf_expression]
          exact map_accepts (expression_accepts e _ (by omega) (.inl rfl))
      | declaration type first more =>
          simp only [Statement.tokens, List.length_cons, List.length_append] at hlength
          simp only [Statement.tokens, List.cons_append, List.append_assoc, List.nil_append, statementOf]
          exact declaration_accepts type first more rest (by omega) (by omega)
      | print e =>
          simp only [Statement.tokens, List.length_cons, List.length_append] at hlength
          simp only [Statement.tokens, List.cons_append, List.append_assoc, List.nil_append, statementOf]
          exact printed_accepts e rest (by omega)
      | input first more =>
          simp only [Statement.tokens, List.length_cons, List.length_append] at hlength
          simp only [Statement.tokens, List.cons_append, List.append_assoc, List.nil_append, statementOf]
          exact inputTargets_accepts first more rest (by omega)
      | branch condition body elseIfs elseClause =>
          simp only [Statement.tokens, List.length_cons, List.length_append] at hlength
          simp only [Statement.tokens, List.cons_append, List.append_assoc, List.nil_append, statementOf]
          exact branching_accepts hstmt hn condition body elseIfs elseClause rest (by omega)
      | loop condition body =>
          simp only [Statement.tokens, List.length_cons, List.length_append] at hlength
          simp only [Statement.tokens, List.cons_append, List.append_assoc, List.nil_append, statementOf]
          exact looping_accepts hstmt hn condition body (.lineEnd :: rest) (by omega)
      | count init condition update body =>
          simp only [Statement.tokens, List.length_cons, List.length_append] at hlength
          simp only [Statement.tokens, List.cons_append, List.append_assoc, List.nil_append, statementOf]
          exact counting_accepts hstmt hn init condition update body (.lineEnd :: rest) (by omega)

/-- Every list of tokens that derives from the start symbol is accepted. -/
theorem parseTokens_accepts (d : Start) : ∃ body, parseTokens d.tokens = .ok body := by
  obtain ⟨ds, b⟩ := d
  have hlength : (Start.tokens ⟨ds, b⟩).length =
      (statementsTokens ds).length + (if b then [Token.lineEnd] else []).length + 3 := by
    simp only [Start.tokens, List.length_cons, List.length_append]
    omega
  have hds := length_le_statementsTokens ds
  obtain ⟨body, hbody⟩ := statementsUntil_accepts
    (statement_accepts (Nat.le_refl ((Start.tokens ⟨ds, b⟩).length + 1)))
    (show startsStatement .katapusan = false from rfl) ds ((Start.tokens ⟨ds, b⟩).length + 1)
    (if b then [.lineEnd] else []) (by omega) (by omega)
  have hend : ∃ body', (accept .lineEnd >>= fun _ => ending >>= fun _ => pure body : Parser (List Stmt))
      (if b then [.lineEnd] else []) = .ok (body', []) := by
    cases b with
    | true => exact accept_accepts (pure_accepts body)
    | false => exact skip_accepts (by simp) (pure_accepts body)
  obtain ⟨body', hprogram⟩ : ∃ body', program ((Start.tokens ⟨ds, b⟩).length + 1) (Start.tokens ⟨ds, b⟩) =
      .ok (body', []) :=
    expect_accepts (expect_accepts (bind_accepts hbody (expect_accepts hend)))
  exact ⟨body', by rw [parseTokens, hprogram]; rfl⟩

/-- **The parser accepts exactly the grammar.** Tokens are accepted just when they derive from the start symbol. They
then do so in one way only, and the tree of the accepted program is the tree of that derivation. -/
theorem parseTokens_iff_derivation (ts : List Token) :
    ((∃ body, parseTokens ts = .ok body) ↔ ∃ d : Start, d.tokens = ts) ∧
      (∀ d d' : Start, d.tokens = ts → d'.tokens = ts → d = d') ∧
      ∀ d : Start, d.tokens = ts → (parseTokens ts).map programNode = .ok d.program := by
  refine ⟨⟨?_, ?_⟩, ?_, ?_⟩
  · rintro ⟨body, hbody⟩
    obtain ⟨d, htokens, -⟩ := parseTokens_sound hbody
    exact ⟨d, htokens⟩
  · rintro ⟨d, rfl⟩
    exact parseTokens_accepts d
  · intro d d' hd hd'
    exact Start.tokens_injective (hd.trans hd'.symm)
  · rintro d rfl
    obtain ⟨body, hbody⟩ := parseTokens_accepts d
    obtain ⟨d', htokens, hprogram⟩ := parseTokens_sound hbody
    rw [hbody, ← Start.tokens_injective htokens, ← hprogram]
    rfl

-- `x = y = a - b - c * d`: assignments lean to the right, differences to the left, and products bind tighter.
example :
    (parseTokens [.sugod, .lineEnd, .ident "x", .equals, .ident "y", .equals, .ident "a", .operator .sub, .ident "b",
      .operator .sub, .ident "c", .operator .mul, .ident "d", .lineEnd, .katapusan]).map programNode =
      .ok (.program .empty [.exprStmt (.assign "x" (.assign "y" (.binary "-"
        (.binary "-" (.ident "a") (.ident "b")) (.binary "*" (.ident "c") (.ident "d")))))]) := rfl

end Binisaya.Parser
