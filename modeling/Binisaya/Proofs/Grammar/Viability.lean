import Binisaya.Proofs.Grammar.Lookahead

/-! Where the parser gives up, what it has taken can be completed: some more tokens make it derive from the grammar.
Each parser is compared with the words of one symbol. A parser that chooses by the next token is as good as its
choices, and one that runs two others in turn completes what the first leaves open by any word of the second. -/

namespace Binisaya.Parser

open Grammar

instance : Nonempty Expr := ⟨.var ""⟩

instance : Nonempty Stmt := ⟨.input []⟩

instance : Nonempty Otherwise := ⟨.nothing⟩

instance : Nonempty TypeWord := ⟨.numero⟩

/-- The parser takes words of a language, and where it gives up, what it has taken is the start of one. -/
structure Viable {α : Type} (p : Parser α) (L : List Token → Prop) : Prop where
  inhabited : ∃ w, L w
  ok : ∀ {ts a rest}, p ts = .ok (a, rest) → ∃ taken, ts = taken ++ rest ∧ L taken
  error : ∀ {ts left}, p ts = .error left → ∃ taken more, ts = taken ++ left ∧ L (taken ++ more)

/-- The words that the trees of a symbol derive. -/
def Derived {τ : Type} (tokens : τ → List Token) (w : List Token) : Prop := ∃ d, w = tokens d

/-- Words of one language, each followed by one of another. -/
def Followed (L L' : List Token → Prop) (w : List Token) : Prop := ∃ u v, L u ∧ L' v ∧ w = u ++ v

section Combining

variable {α β : Type} {L L' : List Token → Prop}

theorem Viable.mono {p : Parser α} (h : Viable p L) (hL : ∀ w, L w → L' w) : Viable p L' where
  inhabited := by
    obtain ⟨w, hw⟩ := h.inhabited
    exact ⟨w, hL w hw⟩
  ok := by
    intro ts a rest hok
    obtain ⟨taken, hts, htaken⟩ := h.ok hok
    exact ⟨taken, hts, hL _ htaken⟩
  error := by
    intro ts left herror
    obtain ⟨taken, more, hts, htaken⟩ := h.error herror
    exact ⟨taken, more, hts, hL _ htaken⟩

theorem Viable.bind [Nonempty α] {p : Parser α} {f : α → Parser β} (hp : Viable p L) (hf : ∀ a, Viable (f a) L') :
    Viable (p >>= f) (Followed L L') := by
  obtain ⟨v, hv⟩ := (hf (Classical.arbitrary α)).inhabited
  refine ⟨?_, ?_, ?_⟩
  · obtain ⟨u, hu⟩ := hp.inhabited
    exact ⟨u ++ v, u, v, hu, hv, rfl⟩
  · intro ts b rest h
    obtain ⟨a, mid, ha, hb⟩ := bind_ok.1 h
    obtain ⟨taken, rfl, htaken⟩ := hp.ok ha
    obtain ⟨taken', rfl, htaken'⟩ := (hf a).ok hb
    exact ⟨taken ++ taken', (List.append_assoc ..).symm, taken, taken', htaken, htaken', rfl⟩
  · intro ts left h
    rcases bind_error.1 h with ha | ⟨a, mid, ha, hb⟩
    · obtain ⟨taken, more, hts, htaken⟩ := hp.error ha
      exact ⟨taken, more ++ v, hts, taken ++ more, v, htaken, hv, (List.append_assoc ..).symm⟩
    · obtain ⟨taken, rfl, htaken⟩ := hp.ok ha
      obtain ⟨taken', more, rfl, htaken'⟩ := (hf a).error hb
      exact ⟨taken ++ taken', more, (List.append_assoc ..).symm, taken, taken' ++ more, htaken, htaken',
        List.append_assoc ..⟩

theorem viable_pure (a : α) : Viable (pure a : Parser α) (· = []) where
  inhabited := ⟨[], rfl⟩
  ok := fun h => ⟨[], (pure_ok.1 h).2, rfl⟩
  error := fun h => by cases h

theorem viable_reject (h : ∃ w, L w) : Viable (reject : Parser α) L where
  inhabited := h
  ok := fun h => by cases h
  error := by
    intro ts left hleft
    obtain ⟨w, hw⟩ := h
    cases hleft
    exact ⟨[], w, rfl, hw⟩

theorem Viable.map {p : Parser α} (h : Viable p L) (f : α → β) : Viable (f <$> p) L where
  inhabited := h.inhabited
  ok := by
    intro ts b rest hb
    obtain ⟨a, ha, -⟩ := map_ok.1 hb
    exact h.ok ha
  error := by
    intro ts left hleft
    rw [← bind_pure_comp] at hleft
    rcases bind_error.1 hleft with ha | ⟨a, mid, -, hpure⟩
    · exact h.error ha
    · cases hpure

/-- A parser that does one thing or another by the next token. -/
theorem Viable.by_head {p : Parser α} (h : ∀ u, ∃ q : Parser α, Viable q L ∧ AgreeAt u p q) : Viable p L where
  inhabited := by
    obtain ⟨q, hq, -⟩ := h none
    exact hq.inhabited
  ok := by
    intro ts a rest hok
    obtain ⟨q, hq, hsame⟩ := h ts.head?
    exact hq.ok ((hsame ts rfl).symm.trans hok)
  error := by
    intro ts left herror
    obtain ⟨q, hq, hsame⟩ := h ts.head?
    exact hq.error ((hsame ts rfl).symm.trans herror)

theorem viable_expect (t : Token) : Viable (expect t) (· = [t]) where
  inhabited := ⟨[t], rfl⟩
  ok := fun h => ⟨[t], expect_ok.1 h, rfl⟩
  error := by
    intro ts left h
    have hleft : left = ts := by
      cases ts with
      | nil => cases h; rfl
      | cons u ts =>
          simp only [expect] at h
          split at h
          · cases h
          · cases h; rfl
    exact ⟨[], [t], hleft.symm, rfl⟩

theorem viable_name : Viable name (Derived fun x : String => [.ident x]) where
  inhabited := ⟨_, "", rfl⟩
  ok := fun h => ⟨_, name_ok.1 h, _, rfl⟩
  error := by
    intro ts left h
    unfold name at h
    split at h
    · cases h
    · cases h
      exact ⟨[], [.ident ""], rfl, "", rfl⟩

theorem viable_typeWord : Viable typeWord (Derived fun t : TypeWord => [.typeWord t]) where
  inhabited := ⟨_, .numero, rfl⟩
  ok := fun h => ⟨_, typeWord_ok.1 h, _, rfl⟩
  error := by
    intro ts left h
    unfold typeWord at h
    split at h
    · cases h
    · cases h
      exact ⟨[], [.typeWord .numero], rfl, .numero, rfl⟩

theorem viable_ending : Viable ending (· = []) where
  inhabited := ⟨[], rfl⟩
  ok := by
    intro ts a rest h
    obtain ⟨rfl, rfl⟩ := ending_ok.1 h
    exact ⟨[], rfl, rfl⟩
  error := by
    intro ts left h
    unfold ending at h
    split at h
    · cases h
    · cases h
      exact ⟨[], [], rfl, rfl⟩

/-- A parser after a token that must come. -/
theorem Viable.after {f : Unit → Parser α} (h : Viable (f ()) L) (t : Token) :
    Viable (expect t >>= f) fun w => ∃ v, L v ∧ w = t :: v := by
  refine ((viable_expect t).bind fun _ => h).mono ?_
  rintro w ⟨u, v, rfl, hv, rfl⟩
  exact ⟨v, hv, rfl⟩

/-- A parser before a token that must come. -/
theorem Viable.before [Nonempty α] {p : Parser α} (h : Viable p L) (t : Token) (g : α → β) :
    Viable (p >>= fun a => expect t >>= fun _ => pure (g a)) fun w => ∃ v, L v ∧ w = v ++ [t] := by
  refine (h.bind fun a => (viable_pure (g a)).after t).mono ?_
  rintro w ⟨u, v, hu, ⟨_, rfl, rfl⟩, rfl⟩
  exact ⟨u, hu, rfl⟩

/-- A parser whose result is only used. -/
theorem Viable.result {p : Parser α} (h : Viable p L) (g : α → β) : Viable (p >>= fun a => pure (g a)) L := by
  have hmap := h.map g
  rwa [← bind_pure_comp] at hmap

end Combining

theorem chainTail_viable {ops : List BinaryOp} {tighter : List (List BinaryOp)} {p : Parser Expr}
    (hp : Viable p (Derived (@Operation.tokens tighter))) (n : Nat) (e : Expr) :
    Viable (chainTail ops p n e) (Derived (@Tail.tokens ops tighter)) := by
  have hnil (e : Expr) : Viable (pure e : Parser Expr) (Derived (@Tail.tokens ops tighter)) := by
    refine (viable_pure e).mono ?_
    rintro w rfl
    exact ⟨.nil, by rw [Tail.tokens]⟩
  induction n generalizing e with
  | zero => exact hnil e
  | succ n ih =>
      refine Viable.by_head fun u => ?_
      rcases chainTail_cases ops u with ⟨op, hop, h⟩ | h
      · refine ⟨_, ((hp.bind fun right => ih (.binary op e right)).after _).mono ?_, h p n e⟩
        rintro w ⟨_, ⟨_, _, ⟨d, rfl⟩, ⟨more, rfl⟩, rfl⟩, rfl⟩
        exact ⟨.cons op hop d more, by rw [Tail.tokens]⟩
      · exact ⟨_, hnil e, h p n e⟩

theorem levels_viable {bound : Nat} {p : Parser Expr} (hp : Viable p (Derived Unary.tokens))
    (levels : List (List BinaryOp)) : Viable (levels.foldr (chain bound) p) (Derived (@Operation.tokens levels)) := by
  induction levels with
  | nil =>
      refine hp.mono ?_
      rintro w ⟨d, rfl⟩
      exact ⟨.unary d, by rw [Operation.tokens]⟩
  | cons ops tighter ih =>
      refine (ih.bind fun e => chainTail_viable ih bound e).mono ?_
      rintro w ⟨_, _, ⟨d, rfl⟩, ⟨more, rfl⟩, rfl⟩
      exact ⟨.chain d more, by rw [Operation.tokens]⟩

theorem expressionOf_viable {bound : Nat} {p : Parser Expr} (hp : Viable p (Derived Unary.tokens)) :
    Viable (expressionOf bound p) (Derived Expression.tokens) := by
  have hoperation : Viable (operation bound p) (Derived Expression.tokens) := by
    refine (levels_viable hp precedence).mono ?_
    rintro w ⟨d, rfl⟩
    exact ⟨.operation d, by rw [Expression.tokens]⟩
  refine ⟨hoperation.inhabited, ?_, ?_⟩
  · intro ts e rest h
    induction ts using expressionOf.induct generalizing e with
    | case1 x ts ih =>
        rw [expressionOf] at h
        cases hts : expressionOf bound p ts with
        | error left =>
            rw [hts] at h
            cases h
        | ok r =>
            rw [hts] at h
            cases h
            obtain ⟨_, rfl, d, rfl⟩ := ih hts
            exact ⟨_, rfl, .assign x d, by rw [Expression.tokens]⟩
    | case2 ts hts =>
        rw [expressionOf] at h
        · exact hoperation.ok h
        · exact hts
  · intro ts left h
    induction ts using expressionOf.induct with
    | case1 x ts ih =>
        rw [expressionOf] at h
        cases hts : expressionOf bound p ts with
        | ok r =>
            rw [hts] at h
            cases h
        | error left' =>
            rw [hts] at h
            cases h
            obtain ⟨taken, more, rfl, d, hd⟩ := ih hts
            exact ⟨.ident x :: .equals :: taken, more, rfl, .assign x d, by rw [Expression.tokens, ← hd]; rfl⟩
    | case2 ts hts =>
        rw [expressionOf] at h
        · exact hoperation.error h
        · exact hts

theorem operand_viable (bound n : Nat) : Viable (operand bound n) (Derived Unary.tokens) := by
  have hinhabited : ∃ w, Derived Unary.tokens w := ⟨_, .primary .newline, rfl⟩
  induction n with
  | zero => exact viable_reject hinhabited
  | succ n ih =>
      refine Viable.by_head fun u => ?_
      rcases operand_cases u with ⟨op, h⟩ | ⟨d, t, e, htokens, h⟩ | h | h
      · refine ⟨_, ((ih.map (Expr.unary op)).after _).mono ?_, h bound n⟩
        rintro w ⟨_, ⟨d, rfl⟩, rfl⟩
        exact ⟨.sign op d, by rw [Unary.tokens]⟩
      · refine ⟨_, ((viable_pure e).after t).mono ?_, h bound n⟩
        rintro w ⟨_, rfl, rfl⟩
        exact ⟨.primary d, by rw [Unary.tokens, htokens]⟩
      · refine ⟨_, (((expressionOf_viable ih).before .rightParen Expr.group).after .leftParen).mono ?_, h bound n⟩
        rintro w ⟨_, ⟨_, ⟨d, rfl⟩, rfl⟩, rfl⟩
        exact ⟨.primary (.group d), by rw [Unary.tokens, Primary.tokens]⟩
      · exact ⟨_, viable_reject hinhabited, h bound n⟩

theorem expression_viable (bound : Nat) : Viable (expression bound) (Derived Expression.tokens) :=
  expressionOf_viable (operand_viable bound bound)

theorem condition_viable (bound : Nat) :
    Viable (condition bound) (Derived fun d : Expression => .leftParen :: (d.tokens ++ [.rightParen])) := by
  refine (((expression_viable bound).before .rightParen id).after .leftParen).mono ?_
  rintro w ⟨_, ⟨_, ⟨d, rfl⟩, rfl⟩, rfl⟩
  exact ⟨d, rfl⟩

section Items

variable {α τ : Type} [Nonempty α] {item : Parser α} {tokens : τ → List Token} (hitem : Viable item (Derived tokens))

include hitem

theorem moreItems_viable (n : Nat) : Viable (moreItems item n) (Derived (commaTokens tokens)) := by
  have hnil : Viable (pure [] : Parser (List α)) (Derived (commaTokens tokens)) := by
    refine (viable_pure []).mono ?_
    rintro w rfl
    exact ⟨[], rfl⟩
  induction n with
  | zero => exact hnil
  | succ n ih =>
      refine Viable.by_head fun u => ?_
      rcases moreItems_cases u with h | h
      · refine ⟨_, ((hitem.bind fun a => ih.result (a :: ·)).after .comma).mono ?_, h α item n⟩
        rintro w ⟨_, ⟨_, _, ⟨d, rfl⟩, ⟨ds, rfl⟩, rfl⟩, rfl⟩
        exact ⟨d :: ds, by rw [commaTokens_cons]⟩
      · exact ⟨_, hnil, h α item n⟩

theorem items_viable (bound : Nat) :
    Viable (items bound item) (Followed (Derived tokens) (Derived (commaTokens tokens))) :=
  hitem.bind fun a => (moreItems_viable hitem bound).result (a :: ·)

end Items

theorem initialValue_viable (bound : Nat) (x : String) : Viable (initialValue bound x)
    (Derived fun init : Option Expression => init.elim [] fun e => .equals :: e.tokens) := by
  refine Viable.by_head fun u => ?_
  rcases initialValue_cases u with h | h
  · refine ⟨_, (((expression_viable bound).result fun e => (x, some e)).after .equals).mono ?_, h bound x⟩
    rintro w ⟨_, ⟨e, rfl⟩, rfl⟩
    exact ⟨some e, rfl⟩
  · refine ⟨_, (viable_pure (x, none)).mono ?_, h bound x⟩
    rintro w rfl
    exact ⟨none, rfl⟩

theorem declaredItem_viable (bound : Nat) : Viable (declaredItem bound) (Derived DeclItem.tokens) := by
  rw [declaredItem_eq]
  refine (viable_name.bind (initialValue_viable bound)).mono ?_
  rintro w ⟨_, _, ⟨x, rfl⟩, ⟨init, rfl⟩, rfl⟩
  exact ⟨⟨x, init⟩, rfl⟩

/-! ### Statements -/

/-- A statement without the end of its line. -/
def Unended (w : List Token) : Prop := ∃ d : Statement, d.tokens = w ++ [.lineEnd]

/-- What follows the first word of a statement, up to the end of its line. -/
def RestOf (t : Token) (w : List Token) : Prop := Unended (t :: w)

theorem Viable.statement {p : Parser Stmt} {t : Token} (h : Viable p (RestOf t)) :
    Viable (expect t >>= fun _ => p) Unended := by
  refine (h.after t).mono ?_
  rintro w ⟨v, hv, rfl⟩
  exact hv

theorem declaration_viable (bound : Nat) : Viable (declaration bound) (RestOf .mugna) := by
  refine (viable_typeWord.bind fun t => (items_viable (declaredItem_viable bound) bound).result (Stmt.declare t)).mono ?_
  rintro w ⟨_, _, ⟨t, rfl⟩, ⟨_, _, ⟨d, rfl⟩, ⟨ds, rfl⟩, rfl⟩, rfl⟩
  refine ⟨.declaration t d ds, ?_⟩
  rw [Statement.tokens]
  simp only [List.cons_append, List.append_assoc, List.nil_append]

theorem printed_viable (bound : Nat) : Viable (printed bound) (RestOf .ipakita) := by
  refine (((expression_viable bound).result Stmt.print).after .colon).mono ?_
  rintro w ⟨_, ⟨d, rfl⟩, rfl⟩
  exact ⟨.print d, by rw [Statement.tokens]; rfl⟩

theorem inputTargets_viable (bound : Nat) : Viable (inputTargets bound) (RestOf .dawat) := by
  refine (((items_viable viable_name bound).result Stmt.input).after .colon).mono ?_
  rintro w ⟨_, ⟨_, _, ⟨x, rfl⟩, ⟨xs, rfl⟩, rfl⟩, rfl⟩
  exact ⟨.input x xs, by rw [Statement.tokens]; rfl⟩

section Blocks

variable {bound : Nat} {stmt : Parser Stmt} (hstmt : Viable stmt (Derived Statement.tokens))

include hstmt

theorem statementsUntil_viable (stop : Token) (n : Nat) :
    Viable (statementsUntil stop stmt n) (Derived statementsTokens) := by
  have hnil : Viable (pure [] : Parser (List Stmt)) (Derived statementsTokens) := by
    refine (viable_pure []).mono ?_
    rintro w rfl
    exact ⟨[], by rw [statementsTokens]⟩
  induction n with
  | zero => exact viable_reject hnil.inhabited
  | succ n ih =>
      refine Viable.by_head fun u => ?_
      rcases statementsUntil_cases stop u with h | h
      · exact ⟨_, hnil, h stmt n⟩
      · refine ⟨_, (hstmt.bind fun s => ih.result (s :: ·)).mono ?_, h stmt n⟩
        rintro w ⟨_, _, ⟨d, rfl⟩, ⟨ds, rfl⟩, rfl⟩
        exact ⟨d :: ds, by rw [statementsTokens]⟩

theorem block_viable : Viable (block bound stmt) (Derived Block.tokens) := by
  refine (((((statementsUntil_viable hstmt .rightBrace bound).before .rightBrace id).after .lineEnd).after
    .leftBrace).after .pundok).mono ?_
  rintro w ⟨_, ⟨_, ⟨_, ⟨_, ⟨ds, rfl⟩, rfl⟩, rfl⟩, rfl⟩, rfl⟩
  exact ⟨.mk ds, by rw [Block.tokens]⟩

/-- What may follow the first block of a branch. -/
def Clauses (w : List Token) : Prop := ∃ cs last, w = elseIfsTokens cs ++ elseTokens last

theorem otherwise_viable (n : Nat) : Viable (otherwise bound stmt n) Clauses := by
  have hnothing : Viable (pure .nothing : Parser Otherwise) Clauses := by
    refine (viable_pure _).mono ?_
    rintro w rfl
    exact ⟨[], none, by rw [elseIfsTokens, elseTokens]; rfl⟩
  induction n with
  | zero => exact hnothing
  | succ n ih =>
      refine Viable.by_head fun u => ?_
      rcases otherwise_cases u with h | h | h
      · refine ⟨_, (((condition_viable bound).bind fun c => (block_viable hstmt).bind fun body =>
          ih.result (Otherwise.branch c body)).after _).mono ?_, h bound n stmt⟩
        rintro w ⟨_, ⟨_, _, ⟨d, rfl⟩, ⟨_, _, ⟨body, rfl⟩, ⟨cs, last, rfl⟩, rfl⟩, rfl⟩, rfl⟩
        refine ⟨.mk d body :: cs, last, ?_⟩
        rw [elseIfsTokens, ElseIf.tokens]
        simp only [List.cons_append, List.append_assoc, List.nil_append]
      · refine ⟨_, (((block_viable hstmt).result Otherwise.block).after _).mono ?_, h bound n stmt⟩
        rintro w ⟨_, ⟨body, rfl⟩, rfl⟩
        exact ⟨[], some body, by rw [elseIfsTokens, elseTokens]; rfl⟩
      · exact ⟨_, hnothing, h bound n stmt⟩

theorem branching_viable : Viable (branching bound stmt) (RestOf .kung) := by
  refine ((condition_viable bound).bind fun c => (block_viable hstmt).bind fun body =>
    (otherwise_viable hstmt bound).result (Stmt.branch c body)).mono ?_
  rintro w ⟨_, _, ⟨d, rfl⟩, ⟨_, _, ⟨body, rfl⟩, ⟨cs, last, rfl⟩, rfl⟩, rfl⟩
  refine ⟨.branch d body cs last, ?_⟩
  rw [Statement.tokens]
  simp only [List.cons_append, List.append_assoc, List.nil_append]

theorem looping_viable : Viable (looping bound stmt) (RestOf .samtang) := by
  refine ((condition_viable bound).bind fun c => (block_viable hstmt).result (Stmt.loop c)).mono ?_
  rintro w ⟨_, _, ⟨d, rfl⟩, ⟨body, rfl⟩, rfl⟩
  refine ⟨.loop d body, ?_⟩
  rw [Statement.tokens]
  simp only [List.cons_append, List.append_assoc, List.nil_append]

theorem counting_viable : Viable (counting bound stmt) (RestOf .alangSa) := by
  have hexpression := expression_viable bound
  refine ((hexpression.bind fun init => (hexpression.bind fun c => (hexpression.bind fun update =>
    ((block_viable hstmt).result (Stmt.count init c update)).after .rightParen).after .comma).after .comma).after
    .leftParen).mono ?_
  rintro w ⟨_, ⟨_, _, ⟨init, rfl⟩, ⟨_, ⟨_, _, ⟨c, rfl⟩, ⟨_, ⟨_, _, ⟨update, rfl⟩, ⟨_, ⟨body, rfl⟩, rfl⟩, rfl⟩,
    rfl⟩, rfl⟩, rfl⟩, rfl⟩, rfl⟩
  refine ⟨.count init c update body, ?_⟩
  rw [Statement.tokens]
  simp only [List.cons_append, List.append_assoc]

theorem statementOf_viable : Viable (statementOf bound stmt) Unended := by
  have hexpr : Viable (Stmt.expr <$> expression bound) Unended := by
    refine ((expression_viable bound).map _).mono ?_
    rintro w ⟨d, rfl⟩
    exact ⟨.expr d, by rw [Statement.tokens]⟩
  have hforms : ∀ form ∈ statementForms, Viable (form bound stmt) Unended := by
    simp only [statementForms, List.forall_mem_cons]
    exact ⟨(declaration_viable bound).statement, (printed_viable bound).statement,
      (inputTargets_viable bound).statement, (branching_viable hstmt).statement, (looping_viable hstmt).statement,
      (counting_viable hstmt).statement, hexpr, List.forall_mem_nil _⟩
  refine Viable.by_head fun u => ?_
  obtain ⟨form, hform, h⟩ := statementOf_cases u
  exact ⟨_, hforms form hform, h bound stmt⟩

end Blocks

theorem statement_viable (bound n : Nat) : Viable (statement bound n) (Derived Statement.tokens) := by
  induction n with
  | zero => exact viable_reject ⟨_, .input "" [], rfl⟩
  | succ n ih =>
      refine ((statementOf_viable ih).before .lineEnd id).mono ?_
      rintro w ⟨v, ⟨d, hd⟩, rfl⟩
      exact ⟨d, hd.symm⟩

theorem programEnd_viable (body : List Stmt) :
    Viable (programEnd body) (Derived fun b : Bool => if b then [.lineEnd] else []) := by
  have hending := viable_ending.result fun _ => body
  refine Viable.by_head fun u => ?_
  rcases programEnd_cases u with h | h
  · refine ⟨_, (hending.after .lineEnd).mono ?_, h body⟩
    rintro w ⟨_, rfl, rfl⟩
    exact ⟨true, rfl⟩
  · refine ⟨_, hending.mono ?_, h body⟩
    rintro w rfl
    exact ⟨false, rfl⟩

theorem program_viable (bound : Nat) : Viable (program bound) (Derived Start.tokens) := by
  have hbody := statementsUntil_viable (statement_viable bound bound) .katapusan bound
  rw [program_eq]
  refine (((hbody.bind fun body => (programEnd_viable body).after .katapusan).after .lineEnd).after .sugod).mono ?_
  rintro w ⟨_, ⟨_, ⟨_, _, ⟨ds, rfl⟩, ⟨_, ⟨b, rfl⟩, rfl⟩, rfl⟩, rfl⟩, rfl⟩
  exact ⟨⟨ds, b⟩, rfl⟩

/-- Tokens that some more tokens make a program. -/
def Completable (ts : List Token) : Prop := ∃ (more : List Token) (d : Start), d.tokens = ts ++ more

theorem parseTokens_error_iff {ts left : List Token} :
    parseTokens ts = .error left ↔ program (ts.length + 1) ts = .error left := by
  rw [parseTokens]
  cases program (ts.length + 1) ts <;> simp [Except.map]

/-- Where the parser gives up, the tokens before can be completed to a program. -/
theorem completable_of_parseTokens {ts left : List Token} (h : parseTokens ts = .error left) :
    ∃ taken, ts = taken ++ left ∧ Completable taken := by
  obtain ⟨taken, more, hts, d, hd⟩ := (program_viable _).error (parseTokens_error_iff.1 h)
  exact ⟨taken, hts, more, d, hd.symm⟩

end Binisaya.Parser
