import Mathlib.Data.List.Nodup
import Binisaya.Proofs.Grammar.Derivation

/-! The grammar is unambiguous: a list of tokens has at most one derivation. Each kind of tree is shown to be
determined by its tokens even when more tokens follow, provided that these cannot go on with the tree; what an
expression can go on with is an operator, so after a chain of one level no operator of this or a tighter level may
come. Trees that nest others are compared by induction on a bound for their length. -/

namespace Binisaya.Grammar

/-- The tokens that an expression can start with. -/
def startsExpression : Token → Bool
  | .operator op => op = .add ∨ op = .sub
  | .dili | .number _ | .text _ | .char _ | .escape _ | .newline | .ident _ | .leftParen => true
  | _ => false

theorem startsExpression_signToken (op : UnaryOp) : startsExpression (signToken op) = true := by
  cases op <;> rfl

theorem Primary.tokens_eq_cons (e : Primary) : ∃ t ts, e.tokens = t :: ts ∧ startsExpression t = true := by
  cases e <;> exact ⟨_, _, by rw [Primary.tokens], rfl⟩

theorem Unary.tokens_eq_cons (e : Unary) : ∃ t ts, e.tokens = t :: ts ∧ startsExpression t = true := by
  cases e with
  | sign op e => exact ⟨_, _, by rw [Unary.tokens], startsExpression_signToken op⟩
  | primary e =>
      rw [Unary.tokens]
      exact e.tokens_eq_cons

theorem Operation.tokens_eq_cons {levels : List (List BinaryOp)} (e : Operation levels) :
    ∃ t ts, e.tokens = t :: ts ∧ startsExpression t = true := by
  match e with
  | .unary e =>
      rw [Operation.tokens]
      exact e.tokens_eq_cons
  | .chain first more =>
      obtain ⟨t, ts, htokens, hstart⟩ := first.tokens_eq_cons
      exact ⟨t, ts ++ more.tokens, by rw [Operation.tokens, htokens]; rfl, hstart⟩

theorem Expression.tokens_eq_cons (e : Expression) : ∃ t ts, e.tokens = t :: ts ∧ startsExpression t = true := by
  cases e with
  | assign name e => exact ⟨_, _, by rw [Expression.tokens], rfl⟩
  | operation e =>
      rw [Expression.tokens]
      exact e.tokens_eq_cons

/-- No operator of the levels comes next. -/
def NoOperator (levels : List (List BinaryOp)) (ts : List Token) : Prop :=
  ∀ op ∈ levels.flatten, ts.head? ≠ some (.operator op)

theorem NoOperator.tighter {ops : List BinaryOp} {tighter : List (List BinaryOp)} {ts : List Token}
    (h : NoOperator (ops :: tighter) ts) : NoOperator tighter ts :=
  fun op hop => h op (List.mem_append_right ops hop)

/-- An operand of a level is followed by an operator of that level, if by any. -/
theorem NoOperator.tail {ops : List BinaryOp} {tighter : List (List BinaryOp)} {ts : List Token}
    (hlevels : (ops :: tighter).flatten.Nodup) (h : NoOperator (ops :: tighter) ts) (more : Tail ops tighter) :
    NoOperator tighter (more.tokens ++ ts) := by
  cases more with
  | nil => simpa only [Tail.tokens, List.nil_append] using h.tighter
  | cons op hop e more =>
      intro op' hop' heq
      rw [Tail.tokens, List.cons_append, List.head?_cons] at heq
      have hne : op ≠ op' := fun hop'' =>
        (List.nodup_append.1 hlevels).2.2 op hop op' hop' hop''
      exact hne (by simpa using heq)

/-- Nothing that an expression could go on with comes next. -/
def Closing (ts : List Token) : Prop :=
  ts.head? = some .lineEnd ∨ ts.head? = some .rightParen ∨ ts.head? = some .comma

theorem Closing.noOperator {ts : List Token} (h : Closing ts) (levels : List (List BinaryOp)) :
    NoOperator levels ts := by
  intro op _ heq
  rcases h with h | h | h <;> rw [h] at heq <;> cases heq

theorem Closing.ne_equals {ts : List Token} (h : Closing ts) : ts.head? ≠ some .equals := by
  rcases h with h | h | h <;> rw [h] <;> decide

theorem Tail.head?_ne_equals {ops : List BinaryOp} {tighter : List (List BinaryOp)} (more : Tail ops tighter)
    {r : List Token} (hr : r.head? ≠ some .equals) : (more.tokens ++ r).head? ≠ some .equals := by
  cases more with
  | nil => simpa only [Tail.tokens, List.nil_append] using hr
  | cons op hop e more => simp [Tail.tokens]

/-- An operand never looks like the start of an assignment. -/
theorem Unary.not_assignment (e : Unary) {name : String} {r ts : List Token} (hr : r.head? ≠ some .equals) :
    e.tokens ++ r ≠ .ident name :: .equals :: ts := by
  intro heq
  cases e with
  | sign op e => cases op <;> simp [Unary.tokens, signToken] at heq
  | primary e =>
      cases e with
      | ident name' =>
          simp only [Unary.tokens, Primary.tokens, List.cons_append, List.nil_append, List.cons.injEq] at heq
          exact hr (by rw [heq.2]; rfl)
      | _ => simp [Unary.tokens, Primary.tokens] at heq

theorem Operation.not_assignment {levels : List (List BinaryOp)} (e : Operation levels) {name : String}
    {r ts : List Token} (hr : r.head? ≠ some .equals) : e.tokens ++ r ≠ .ident name :: .equals :: ts := by
  match e with
  | .unary e =>
      rw [Operation.tokens]
      exact e.not_assignment hr
  | .chain first more =>
      rw [Operation.tokens, List.append_assoc]
      exact first.not_assignment (more.head?_ne_equals hr)

/-- The tokens of an operand determine it, whatever follows. -/
def Unary.Determined (e : Unary) : Prop :=
  ∀ (e' : Unary) (r r' : List Token), e.tokens ++ r = e'.tokens ++ r' → e = e' ∧ r = r'

mutual

theorem Operation.determined {bound : Nat} (hunary : ∀ e : Unary, e.tokens.length ≤ bound → e.Determined)
    {levels : List (List BinaryOp)} (hlevels : levels.flatten.Nodup) (e e' : Operation levels) {r r' : List Token}
    (hlength : e.tokens.length ≤ bound) (hr : NoOperator levels r) (hr' : NoOperator levels r')
    (heq : e.tokens ++ r = e'.tokens ++ r') : e = e' ∧ r = r' := by
  match e, e' with
  | .unary e, .unary e' =>
      rw [Operation.tokens, Operation.tokens] at heq
      rw [Operation.tokens] at hlength
      obtain ⟨he, hrest⟩ := hunary e hlength e' r r' heq
      exact ⟨congrArg _ he, hrest⟩
  | .chain first more, .chain first' more' =>
      rw [Operation.tokens, Operation.tokens, List.append_assoc, List.append_assoc] at heq
      rw [Operation.tokens, List.length_append] at hlength
      have htighter := (List.nodup_append.1 hlevels).2.1
      obtain ⟨hfirst, hrest⟩ := Operation.determined hunary htighter first first' (by omega) (hr.tail hlevels more)
        (hr'.tail hlevels more') heq
      obtain ⟨hmore, hrest⟩ := Tail.determined hunary hlevels more more' (by omega) hr hr' hrest
      rw [hfirst, hmore]
      exact ⟨rfl, hrest⟩

theorem Tail.determined {bound : Nat} (hunary : ∀ e : Unary, e.tokens.length ≤ bound → e.Determined)
    {ops : List BinaryOp} {tighter : List (List BinaryOp)} (hlevels : (ops :: tighter).flatten.Nodup)
    (t t' : Tail ops tighter) {r r' : List Token} (hlength : t.tokens.length ≤ bound) (hr : NoOperator (ops :: tighter) r)
    (hr' : NoOperator (ops :: tighter) r') (heq : t.tokens ++ r = t'.tokens ++ r') : t = t' ∧ r = r' := by
  match t, t' with
  | .nil, .nil => exact ⟨rfl, by simpa only [Tail.tokens, List.nil_append] using heq⟩
  | .nil, .cons op hop e more =>
      rw [Tail.tokens, Tail.tokens, List.nil_append] at heq
      exact absurd (by rw [heq]; rfl) (hr op (List.mem_append_left _ hop))
  | .cons op hop e more, .nil =>
      rw [Tail.tokens, Tail.tokens, List.nil_append] at heq
      exact absurd (by rw [← heq]; rfl) (hr' op (List.mem_append_left _ hop))
  | .cons op hop e more, .cons op' hop' e' more' =>
      simp only [Tail.tokens, List.cons_append, List.append_assoc, List.cons.injEq, Token.operator.injEq] at heq
      rw [Tail.tokens, List.length_cons, List.length_append] at hlength
      obtain ⟨rfl, heq⟩ := heq
      have htighter := (List.nodup_append.1 hlevels).2.1
      obtain ⟨he, hrest⟩ := Operation.determined hunary htighter e e' (by omega) (hr.tail hlevels more)
        (hr'.tail hlevels more') heq
      obtain ⟨hmore, hrest⟩ := Tail.determined hunary hlevels more more' (by omega) hr hr' hrest
      rw [he, hmore]
      exact ⟨rfl, hrest⟩

end

theorem Expression.determined {bound : Nat} (hunary : ∀ e : Unary, e.tokens.length ≤ bound → e.Determined)
    (e e' : Expression) {r r' : List Token} (hlength : e.tokens.length ≤ bound) (hr : Closing r)
    (hr' : Closing r') (heq : e.tokens ++ r = e'.tokens ++ r') : e = e' ∧ r = r' := by
  have hlevels : precedence.flatten.Nodup := by decide
  match e, e' with
  | .assign name e, .assign name' e' =>
      simp only [Expression.tokens, List.cons_append, List.cons.injEq, Token.ident.injEq, true_and] at heq
      rw [Expression.tokens, List.length_cons, List.length_cons] at hlength
      obtain ⟨rfl, heq⟩ := heq
      obtain ⟨he, hrest⟩ := Expression.determined hunary e e' (by omega) hr hr' heq
      rw [he]
      exact ⟨rfl, hrest⟩
  | .assign name e, .operation e' =>
      rw [Expression.tokens, Expression.tokens] at heq
      exact absurd heq.symm (e'.not_assignment hr'.ne_equals)
  | .operation e, .assign name e' =>
      rw [Expression.tokens, Expression.tokens] at heq
      exact absurd heq (e.not_assignment hr.ne_equals)
  | .operation e, .operation e' =>
      rw [Expression.tokens, Expression.tokens] at heq
      rw [Expression.tokens] at hlength
      obtain ⟨he, hrest⟩ := Operation.determined hunary hlevels e e' hlength (hr.noOperator _) (hr'.noOperator _) heq
      rw [he]
      exact ⟨rfl, hrest⟩

theorem signToken_injective {op op' : UnaryOp} (h : signToken op = signToken op') : op = op' := by
  cases op with
  | minus =>
      cases op' with
      | minus => rfl
      | plus | not => cases h
  | plus =>
      cases op' with
      | plus => rfl
      | minus | not => cases h
  | not =>
      cases op' with
      | not => rfl
      | minus | plus => cases h

/-- A sign is no operand. -/
theorem Primary.tokens_ne_sign (e : Primary) (op : UnaryOp) (r ts : List Token) :
    e.tokens ++ r ≠ signToken op :: ts := by
  cases e <;> cases op <;> simp [Primary.tokens, signToken]

theorem Primary.determined {bound : Nat} (hunary : ∀ e : Unary, e.tokens.length ≤ bound → e.Determined)
    (e e' : Primary) {r r' : List Token} (hlength : e.tokens.length ≤ bound + 1)
    (heq : e.tokens ++ r = e'.tokens ++ r') : e = e' ∧ r = r' := by
  cases e with
  | group e =>
      cases e' with
      | group e' =>
          simp only [Primary.tokens, List.cons_append, List.append_assoc, List.nil_append, List.cons.injEq,
            true_and] at heq
          rw [Primary.tokens, List.length_cons, List.length_append] at hlength
          obtain ⟨he, hrest⟩ := Expression.determined hunary e e' (by omega) (.inr (.inl rfl)) (.inr (.inl rfl)) heq
          rw [he]
          exact ⟨rfl, by simpa using hrest⟩
      | _ => simp [Primary.tokens] at heq
  | _ => cases e' <;> simp_all [Primary.tokens]

theorem Unary.determined_of_length (bound : Nat) : ∀ e : Unary, e.tokens.length ≤ bound → e.Determined := by
  induction bound with
  | zero =>
      intro e hlength
      obtain ⟨t, ts, htokens, -⟩ := e.tokens_eq_cons
      rw [htokens] at hlength
      exact absurd hlength (Nat.not_succ_le_zero _)
  | succ bound ih =>
      intro e hlength e' r r' heq
      cases e with
      | sign op e =>
          cases e' with
          | sign op' e' =>
              simp only [Unary.tokens, List.cons_append, List.cons.injEq] at heq
              rw [Unary.tokens, List.length_cons] at hlength
              obtain ⟨he, hrest⟩ := ih e (by omega) e' r r' heq.2
              rw [he, signToken_injective heq.1]
              exact ⟨rfl, hrest⟩
          | primary e' =>
              rw [Unary.tokens, Unary.tokens] at heq
              exact absurd heq.symm (e'.tokens_ne_sign op _ _)
      | primary e =>
          cases e' with
          | sign op' e' =>
              rw [Unary.tokens, Unary.tokens] at heq
              exact absurd heq (e.tokens_ne_sign op' _ _)
          | primary e' =>
              rw [Unary.tokens, Unary.tokens] at heq
              rw [Unary.tokens] at hlength
              obtain ⟨he, hrest⟩ := Primary.determined ih e e' hlength heq
              rw [he]
              exact ⟨rfl, hrest⟩

/-- The tokens of an expression determine it, whatever follows that it cannot go on with. -/
theorem Expression.unique {e e' : Expression} {r r' : List Token} (hr : Closing r) (hr' : Closing r')
    (heq : e.tokens ++ r = e'.tokens ++ r') : e = e' ∧ r = r' :=
  Expression.determined (Unary.determined_of_length e.tokens.length) e e' (Nat.le_refl _) hr hr' heq

theorem closing_commaTokens {α : Type} (tokens : α → List Token) (items : List α) {r : List Token}
    (hr : r.head? = some .lineEnd) : Closing (commaTokens tokens items ++ r) := by
  cases items with
  | nil => exact .inl hr
  | cons a items => exact .inr (.inr rfl)

theorem commaTokens_unique {α : Type} {tokens : α → List Token}
    (hitem : ∀ {a a' : α} {r r' : List Token}, Closing r → Closing r' → tokens a ++ r = tokens a' ++ r' →
      a = a' ∧ r = r')
    (items items' : List α) {r r' : List Token} (hr : r.head? = some .lineEnd) (hr' : r'.head? = some .lineEnd)
    (heq : commaTokens tokens items ++ r = commaTokens tokens items' ++ r') : items = items' ∧ r = r' := by
  induction items generalizing items' with
  | nil =>
      cases items' with
      | nil => exact ⟨rfl, heq⟩
      | cons a' items' =>
          change r = .comma :: _ at heq
          rw [heq] at hr
          cases hr
  | cons a items ih =>
      cases items' with
      | nil =>
          change .comma :: _ = r' at heq
          rw [← heq] at hr'
          cases hr'
      | cons a' items' =>
          simp only [commaTokens_cons, List.cons_append, List.append_assoc, List.cons.injEq, true_and] at heq
          obtain ⟨ha, hrest⟩ := hitem (closing_commaTokens tokens items hr) (closing_commaTokens tokens items' hr') heq
          obtain ⟨hitems, hrest⟩ := ih items' hrest
          rw [ha, hitems]
          exact ⟨rfl, hrest⟩

theorem DeclItem.unique {d d' : DeclItem} {r r' : List Token} (hr : Closing r) (hr' : Closing r')
    (heq : d.tokens ++ r = d'.tokens ++ r') : d = d' ∧ r = r' := by
  obtain ⟨name, init⟩ := d
  obtain ⟨name', init'⟩ := d'
  simp only [DeclItem.tokens, List.cons_append, List.cons.injEq, Token.ident.injEq] at heq
  obtain ⟨rfl, heq⟩ := heq
  cases init with
  | none =>
      cases init' with
      | none => exact ⟨rfl, heq⟩
      | some e' => exact absurd (by rw [show r = _ from heq]; rfl) hr.ne_equals
  | some e =>
      cases init' with
      | none => exact absurd (by rw [← show _ = r' from heq]; rfl) hr'.ne_equals
      | some e' =>
          obtain ⟨he, hrest⟩ := Expression.unique hr hr' (List.cons.inj heq).2
          rw [he]
          exact ⟨rfl, hrest⟩

/-! ### Statements -/

/-- The word that a statement starts with; expressions have none. -/
def Statement.keyword : Statement → Option Token
  | .declaration .. => some .mugna
  | .print _ => some .ipakita
  | .input .. => some .dawat
  | .branch .. => some .kung
  | .loop .. => some .samtang
  | .count .. => some .alangSa
  | .expr _ => none

/-- The tokens that a statement can start with. -/
def startsStatement (t : Token) : Bool :=
  startsExpression t || t = .mugna || t = .ipakita || t = .dawat || t = .kung || t = .samtang || t = .alangSa

theorem Statement.tokens_eq_cons (s : Statement) :
    ∃ t ts, s.tokens = t :: ts ∧ startsStatement t = true ∧
      s.keyword = if startsExpression t then none else some t := by
  cases s with
  | expr e =>
      obtain ⟨t, ts, htokens, hstart⟩ := e.tokens_eq_cons
      exact ⟨t, ts ++ [.lineEnd], by rw [Statement.tokens, htokens]; rfl, by simp [startsStatement, hstart],
        by rw [if_pos hstart]; rfl⟩
  | _ => exact ⟨_, _, by rw [Statement.tokens], rfl, rfl⟩

/-- Statements with the same first token are of the same kind. -/
theorem Statement.keyword_eq {s s' : Statement} {r r' : List Token} (heq : s.tokens ++ r = s'.tokens ++ r') :
    s.keyword = s'.keyword := by
  obtain ⟨t, ts, htokens, -, hkeyword⟩ := s.tokens_eq_cons
  obtain ⟨t', ts', htokens', -, hkeyword'⟩ := s'.tokens_eq_cons
  rw [htokens, htokens'] at heq
  rw [hkeyword, hkeyword', (List.cons.inj heq).1]

/-- The tokens of a statement determine it, whatever follows. -/
def Statement.Determined (s : Statement) : Prop :=
  ∀ (s' : Statement) (r r' : List Token), s.tokens ++ r = s'.tokens ++ r' → s = s' ∧ r = r'

/-- No statement comes next. -/
def EndsStatements (ts : List Token) : Prop := ∀ t, ts.head? = some t → startsStatement t = false

theorem EndsStatements.ne_tokens {r r' : List Token} (hr : EndsStatements r) (s : Statement) :
    r ≠ s.tokens ++ r' := by
  intro heq
  obtain ⟨t, ts, htokens, hstart, -⟩ := s.tokens_eq_cons
  rw [htokens] at heq
  have hnone := hr t (by rw [heq]; rfl)
  rw [hstart] at hnone
  cases hnone

theorem endsStatements_rightBrace (r : List Token) : EndsStatements (.rightBrace :: r) := by
  rintro t ⟨⟩
  rfl

theorem endsStatements_katapusan (r : List Token) : EndsStatements (.katapusan :: r) := by
  rintro t ⟨⟩
  rfl

section Nested

variable {bound : Nat} (hstatement : ∀ s : Statement, s.tokens.length ≤ bound → s.Determined)

include hstatement

theorem statements_determined (ss ss' : List Statement) {r r' : List Token}
    (hlength : (statementsTokens ss).length ≤ bound) (hr : EndsStatements r) (hr' : EndsStatements r')
    (heq : statementsTokens ss ++ r = statementsTokens ss' ++ r') : ss = ss' ∧ r = r' := by
  induction ss generalizing ss' with
  | nil =>
      cases ss' with
      | nil => exact ⟨rfl, by simpa only [statementsTokens, List.nil_append] using heq⟩
      | cons s' ss' =>
          rw [statementsTokens, statementsTokens, List.nil_append, List.append_assoc] at heq
          exact absurd heq (hr.ne_tokens s')
  | cons s ss ih =>
      rw [statementsTokens, List.length_append] at hlength
      cases ss' with
      | nil =>
          rw [statementsTokens, statementsTokens, List.nil_append, List.append_assoc] at heq
          exact absurd heq.symm (hr'.ne_tokens s)
      | cons s' ss' =>
          rw [statementsTokens, statementsTokens, List.append_assoc, List.append_assoc] at heq
          obtain ⟨hs, hrest⟩ := hstatement s (by omega) s' _ _ heq
          obtain ⟨hss, hrest⟩ := ih ss' (by omega) hrest
          rw [hs, hss]
          exact ⟨rfl, hrest⟩

theorem Block.determined (b b' : Block) {r r' : List Token} (hlength : b.tokens.length ≤ bound)
    (heq : b.tokens ++ r = b'.tokens ++ r') : b = b' ∧ r = r' := by
  obtain ⟨ss⟩ := b
  obtain ⟨ss'⟩ := b'
  simp only [Block.tokens, List.cons_append, List.append_assoc, List.nil_append, List.cons.injEq, true_and] at heq
  simp only [Block.tokens, List.length_cons, List.length_append] at hlength
  obtain ⟨hss, hrest⟩ := statements_determined hstatement ss ss' (by omega) (endsStatements_rightBrace r)
    (endsStatements_rightBrace r') heq
  rw [hss]
  exact ⟨rfl, (List.cons.inj hrest).2⟩

/-- A condition in parentheses and the block it guards. -/
theorem guarded_determined (e e' : Expression) (b b' : Block) {r r' : List Token} (hlength : b.tokens.length ≤ bound)
    (heq : e.tokens ++ .rightParen :: (b.tokens ++ r) = e'.tokens ++ .rightParen :: (b'.tokens ++ r')) :
    e = e' ∧ b = b' ∧ r = r' := by
  obtain ⟨he, hrest⟩ := Expression.unique (.inr (.inl rfl)) (.inr (.inl rfl)) heq
  exact ⟨he, Block.determined hstatement b b' hlength (List.cons.inj hrest).2⟩

theorem elseIfs_determined (cs cs' : List ElseIf) {r r' : List Token}
    (hlength : (elseIfsTokens cs).length ≤ bound) (hr : r.head? ≠ some .kungDili) (hr' : r'.head? ≠ some .kungDili)
    (heq : elseIfsTokens cs ++ r = elseIfsTokens cs' ++ r') : cs = cs' ∧ r = r' := by
  induction cs generalizing cs' with
  | nil =>
      cases cs' with
      | nil => exact ⟨rfl, by simpa only [elseIfsTokens, List.nil_append] using heq⟩
      | cons c' cs' =>
          obtain ⟨condition', body'⟩ := c'
          simp only [elseIfsTokens, ElseIf.tokens, List.nil_append, List.cons_append] at heq
          exact absurd (by rw [heq]; rfl) hr
  | cons c cs ih =>
      obtain ⟨condition, body⟩ := c
      cases cs' with
      | nil =>
          simp only [elseIfsTokens, ElseIf.tokens, List.nil_append, List.cons_append] at heq
          exact absurd (by rw [← heq]; rfl) hr'
      | cons c' cs' =>
          obtain ⟨condition', body'⟩ := c'
          simp only [elseIfsTokens, ElseIf.tokens, List.cons_append, List.append_assoc, List.cons.injEq,
            true_and] at heq
          simp only [elseIfsTokens, ElseIf.tokens, List.length_cons, List.length_append] at hlength
          obtain ⟨hcondition, hbody, hrest⟩ := guarded_determined hstatement condition condition' body body' (by omega) heq
          obtain ⟨hcs, hrest⟩ := ih cs' (by omega) hrest
          rw [hcondition, hbody, hcs]
          exact ⟨rfl, hrest⟩

theorem else_determined (o o' : Option Block) {r r' : List Token} (hlength : (elseTokens o).length ≤ bound)
    (heq : elseTokens o ++ .lineEnd :: r = elseTokens o' ++ .lineEnd :: r') : o = o' ∧ r = r' := by
  cases o with
  | none =>
      cases o' with
      | none => exact ⟨rfl, by simpa only [elseTokens, List.nil_append, List.cons.injEq, true_and] using heq⟩
      | some body' => simp [elseTokens] at heq
  | some body =>
      cases o' with
      | none => simp [elseTokens] at heq
      | some body' =>
          simp only [elseTokens, List.cons_append, List.cons.injEq, true_and] at heq
          rw [elseTokens, List.length_cons] at hlength
          obtain ⟨hbody, hrest⟩ := Block.determined hstatement body body' (by omega) heq
          rw [hbody]
          exact ⟨rfl, (List.cons.inj hrest).2⟩

end Nested

theorem elseTokens_head?_ne (o : Option Block) (r : List Token) :
    (elseTokens o ++ .lineEnd :: r).head? ≠ some .kungDili := by
  cases o <;> simp [elseTokens]

theorem ident_unique {x x' : String} {r r' : List Token} (_ : Closing r) (_ : Closing r')
    (heq : [Token.ident x] ++ r = [.ident x'] ++ r') : x = x' ∧ r = r' := by
  simpa using heq

theorem Statement.determined_of_length (bound : Nat) :
    ∀ s : Statement, s.tokens.length ≤ bound → s.Determined := by
  induction bound with
  | zero =>
      intro s hlength
      obtain ⟨t, ts, htokens, -⟩ := s.tokens_eq_cons
      rw [htokens] at hlength
      exact absurd hlength (Nat.not_succ_le_zero _)
  | succ bound ih =>
      intro s hlength s' r r' heq
      have hkeyword := Statement.keyword_eq heq
      cases s with
      | declaration type first more =>
          cases s' with
          | declaration type' first' more' =>
              simp only [Statement.tokens, List.cons_append, List.append_assoc, List.nil_append, List.cons.injEq,
                Token.typeWord.injEq, true_and] at heq
              obtain ⟨htype, heq⟩ := heq
              obtain ⟨hfirst, hrest⟩ := DeclItem.unique (closing_commaTokens _ more rfl)
                (closing_commaTokens _ more' rfl) heq
              obtain ⟨hmore, hrest⟩ := commaTokens_unique DeclItem.unique more more' rfl rfl hrest
              rw [htype, hfirst, hmore]
              exact ⟨rfl, (List.cons.inj hrest).2⟩
          | _ => cases hkeyword
      | print e =>
          cases s' with
          | print e' =>
              simp only [Statement.tokens, List.cons_append, List.append_assoc, List.nil_append, List.cons.injEq,
                true_and] at heq
              obtain ⟨he, hrest⟩ := Expression.unique (.inl rfl) (.inl rfl) heq
              rw [he]
              exact ⟨rfl, (List.cons.inj hrest).2⟩
          | _ => cases hkeyword
      | input first more =>
          cases s' with
          | input first' more' =>
              simp only [Statement.tokens, List.cons_append, List.append_assoc, List.nil_append, List.cons.injEq,
                Token.ident.injEq, true_and] at heq
              obtain ⟨hfirst, heq⟩ := heq
              obtain ⟨hmore, hrest⟩ := commaTokens_unique ident_unique more more' rfl rfl heq
              rw [hfirst, hmore]
              exact ⟨rfl, (List.cons.inj hrest).2⟩
          | _ => cases hkeyword
      | branch condition body elseIfs elseClause =>
          cases s' with
          | branch condition' body' elseIfs' elseClause' =>
              simp only [Statement.tokens, List.cons_append, List.append_assoc, List.nil_append, List.cons.injEq,
                true_and] at heq
              simp only [Statement.tokens, List.length_cons, List.length_append] at hlength
              obtain ⟨hcondition, hbody, hrest⟩ := guarded_determined ih condition condition' body body' (by omega) heq
              obtain ⟨helseIfs, hrest⟩ := elseIfs_determined ih elseIfs elseIfs' (by omega)
                (elseTokens_head?_ne _ _) (elseTokens_head?_ne _ _) hrest
              obtain ⟨helse, hrest⟩ := else_determined ih elseClause elseClause' (by omega) hrest
              rw [hcondition, hbody, helseIfs, helse]
              exact ⟨rfl, hrest⟩
          | _ => cases hkeyword
      | loop condition body =>
          cases s' with
          | loop condition' body' =>
              simp only [Statement.tokens, List.cons_append, List.append_assoc, List.nil_append, List.cons.injEq,
                true_and] at heq
              simp only [Statement.tokens, List.length_cons, List.length_append] at hlength
              obtain ⟨hcondition, hbody, hrest⟩ := guarded_determined ih condition condition' body body' (by omega) heq
              rw [hcondition, hbody]
              exact ⟨rfl, (List.cons.inj hrest).2⟩
          | _ => cases hkeyword
      | count init condition update body =>
          cases s' with
          | count init' condition' update' body' =>
              simp only [Statement.tokens, List.cons_append, List.append_assoc, List.nil_append, List.cons.injEq,
                true_and] at heq
              simp only [Statement.tokens, List.length_cons, List.length_append] at hlength
              obtain ⟨hinit, hrest⟩ := Expression.unique (.inr (.inr rfl)) (.inr (.inr rfl)) heq
              obtain ⟨hcondition, hrest⟩ := Expression.unique (.inr (.inr rfl)) (.inr (.inr rfl))
                (List.cons.inj hrest).2
              obtain ⟨hupdate, hbody, hrest⟩ := guarded_determined ih update update' body body' (by omega)
                (List.cons.inj hrest).2
              rw [hinit, hcondition, hupdate, hbody]
              exact ⟨rfl, (List.cons.inj hrest).2⟩
          | _ => cases hkeyword
      | expr e =>
          cases s' with
          | expr e' =>
              simp only [Statement.tokens, List.append_assoc] at heq
              obtain ⟨he, hrest⟩ := Expression.unique (.inl rfl) (.inl rfl) heq
              rw [he]
              exact ⟨rfl, (List.cons.inj hrest).2⟩
          | _ => cases hkeyword

/-- A list of tokens derives from the start symbol in at most one way. -/
theorem Start.tokens_injective : Function.Injective Start.tokens := by
  rintro ⟨ss, b⟩ ⟨ss', b'⟩ heq
  simp only [Start.tokens, List.cons.injEq, true_and] at heq
  obtain ⟨hss, hrest⟩ := statements_determined (Statement.determined_of_length (statementsTokens ss).length) ss ss'
    (Nat.le_refl _) (endsStatements_katapusan _) (endsStatements_katapusan _) heq
  have hend : b = b' := by
    cases b with
    | true =>
        cases b' with
        | true => rfl
        | false => cases hrest
    | false =>
        cases b' with
        | true => cases hrest
        | false => rfl
  rw [hss, hend]

end Binisaya.Grammar
