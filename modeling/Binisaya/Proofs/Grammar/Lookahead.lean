import Binisaya.Proofs.Grammar.Completeness

/-! What a parser does next is told by the next token. For each parser that chooses, the choices are written out: given
the next token, it does the same as a parser that takes this token and goes on, as one that takes nothing, or as one
that gives up. What is shown about all these holds of the parser. -/

namespace Binisaya.Parser

open Grammar

/-- Two parsers do the same where a given token comes next, or none. -/
def AgreeAt {α : Type} (u : Option Token) (p q : Parser α) : Prop := ∀ ts, ts.head? = u → p ts = q ts

section Results

variable {α β : Type} {ts left : List Token}

theorem bind_error {p : Parser α} {f : α → Parser β} :
    (p >>= f) ts = .error left ↔ p ts = .error left ∨ ∃ a mid, p ts = .ok (a, mid) ∧ f a mid = .error left := by
  change (StateT.bind p f) ts = .error left ↔ _
  unfold StateT.bind
  cases hp : p ts with
  | error left' => simp [bind, Except.bind]
  | ok r =>
      obtain ⟨a, mid⟩ := r
      constructor
      · intro h
        exact .inr ⟨a, mid, rfl, h⟩
      · rintro (h | ⟨a', mid', hmid, h⟩)
        · cases h
        · cases hmid
          exact h

theorem expect_bind_cons (t : Token) (f : Unit → Parser α) (ts : List Token) :
    (expect t >>= f) (t :: ts) = f () ts := by
  change StateT.bind (expect t) f (t :: ts) = _
  simp only [StateT.bind, expect, if_true]
  rfl

theorem agreeAt_nil {p q : Parser α} (h : p [] = q []) : AgreeAt none p q := by
  intro ts hts
  rwa [List.head?_eq_none_iff.1 hts]

theorem agreeAt_cons {t : Token} {p q : Parser α} (h : ∀ ts, p (t :: ts) = q (t :: ts)) : AgreeAt (some t) p q := by
  intro ts hts
  obtain ⟨rest, rfl⟩ := List.head?_eq_some_iff.1 hts
  exact h rest

theorem agreeAt_expect {t : Token} {p : Parser α} {f : Unit → Parser α} (h : ∀ ts, p (t :: ts) = f () ts) :
    AgreeAt (some t) p (expect t >>= f) := by
  refine agreeAt_cons fun ts => ?_
  rw [h, expect_bind_cons]

/-- A token that may come is taken if it comes. -/
theorem agreeAt_accept (t : Token) (f : Bool → Parser α) :
    AgreeAt (some t) (accept t >>= f) (expect t >>= fun _ => f true) := by
  refine agreeAt_expect fun ts => ?_
  change StateT.bind (accept t) f (t :: ts) = _
  simp only [StateT.bind, accept, if_true]
  rfl

theorem agreeAt_skip {t : Token} {u : Option Token} (h : u ≠ some t) (f : Bool → Parser α) :
    AgreeAt u (accept t >>= f) (f false) := by
  intro ts hts
  have hskip : accept t ts = .ok (false, ts) := accept_ok.2 ⟨rfl, by rwa [hts]⟩
  change StateT.bind (accept t) f ts = _
  simp only [StateT.bind, hskip]
  rfl

theorem AgreeAt.trans {u : Option Token} {p q r : Parser α} (h : AgreeAt u p q) (h' : AgreeAt u q r) : AgreeAt u p r :=
  fun ts hts => (h ts hts).trans (h' ts hts)

end Results

theorem chainTail_cases (ops : List BinaryOp) (u : Option Token) :
    (∃ op ∈ ops, ∀ (p : Parser Expr) (n : Nat) (e : Expr), AgreeAt u (chainTail ops p (n + 1) e)
      (expect (.operator op) >>= fun _ => p >>= fun right => chainTail ops p n (.binary op e right))) ∨
    ∀ (p : Parser Expr) (n : Nat) (e : Expr), AgreeAt u (chainTail ops p (n + 1) e) (pure e) := by
  by_cases hu : ∃ op ∈ ops, u = some (.operator op)
  · obtain ⟨op, hop, rfl⟩ := hu
    exact .inl ⟨op, hop, fun p n e => agreeAt_expect fun ts => if_pos hop⟩
  · refine .inr fun p n e ts hts => ?_
    simp only [chainTail]
    split
    · next op rest =>
        have hop : op ∉ ops := fun hop => hu ⟨op, hop, hts.symm⟩
        exact if_neg hop
    · rfl

/-- An operand starts with a sign, is a single token, or stands in parentheses. -/
theorem operand_cases (u : Option Token) :
    (∃ op, ∀ bound n : Nat, AgreeAt u (operand bound (n + 1))
      (expect (signToken op) >>= fun _ => Expr.unary op <$> operand bound n)) ∨
    (∃ (d : Primary) (t : Token) (e : Expr), d.tokens = [t] ∧ ∀ bound n : Nat, AgreeAt u (operand bound (n + 1))
      (expect t >>= fun _ => pure e)) ∨
    (∀ bound n : Nat, AgreeAt u (operand bound (n + 1)) (expect .leftParen >>= fun _ =>
      expressionOf bound (operand bound n) >>= fun e => expect .rightParen >>= fun _ => pure (.group e))) ∨
    ∀ bound n : Nat, AgreeAt u (operand bound (n + 1)) reject := by
  have hsign (op : UnaryOp) : ∃ op', ∀ bound n : Nat, AgreeAt (some (signToken op)) (operand bound (n + 1))
      (expect (signToken op') >>= fun _ => Expr.unary op' <$> operand bound n) :=
    ⟨op, fun bound n => agreeAt_expect (sign_accepts op)⟩
  have hprimary {t : Token} (d : Primary) (e : Expr) (htokens : d.tokens = [t])
      (h : ∀ bound n ts, operand bound (n + 1) (t :: ts) = .ok (e, ts)) :
      ∃ (d : Primary) (t' : Token) (e : Expr), d.tokens = [t'] ∧ ∀ bound n : Nat,
        AgreeAt (some t) (operand bound (n + 1)) (expect t' >>= fun _ => pure e) :=
    ⟨d, t, e, htokens, fun bound n => agreeAt_expect (h bound n)⟩
  cases u with
  | none => exact .inr (.inr (.inr fun bound n => agreeAt_nil rfl))
  | some t =>
      cases t with
      | dili => exact .inl (hsign .not)
      | number x => exact .inr (.inl (hprimary (.number x) _ (by rw [Primary.tokens]) fun _ _ _ => rfl))
      | text s => exact .inr (.inl (hprimary (.text s) _ (by rw [Primary.tokens]) fun _ _ _ => rfl))
      | char c => exact .inr (.inl (hprimary (.char c) _ (by rw [Primary.tokens]) fun _ _ _ => rfl))
      | escape c => exact .inr (.inl (hprimary (.escape c) _ (by rw [Primary.tokens]) fun _ _ _ => rfl))
      | newline => exact .inr (.inl (hprimary .newline _ (by rw [Primary.tokens]) fun _ _ _ => rfl))
      | ident x => exact .inr (.inl (hprimary (.ident x) _ (by rw [Primary.tokens]) fun _ _ _ => rfl))
      | leftParen => exact .inr (.inr (.inl fun bound n => agreeAt_expect fun _ => rfl))
      | operator op =>
          cases op with
          | add => exact .inl (hsign .plus)
          | sub => exact .inl (hsign .minus)
          | _ => exact .inr (.inr (.inr fun bound n => agreeAt_cons fun _ => rfl))
      | _ => exact .inr (.inr (.inr fun bound n => agreeAt_cons fun _ => rfl))

theorem moreItems_cases (u : Option Token) :
    (∀ (α : Type) (item : Parser α) (n : Nat), AgreeAt u (moreItems item (n + 1))
      (expect .comma >>= fun _ => item >>= fun a => moreItems item n >>= fun as => pure (a :: as))) ∨
    ∀ (α : Type) (item : Parser α) (n : Nat), AgreeAt u (moreItems item (n + 1)) (pure []) := by
  by_cases hu : u = some .comma
  · subst hu
    exact .inl fun α item n => agreeAt_accept _ _
  · exact .inr fun α item n => agreeAt_skip hu _

/-- What may follow the name of a declared variable. -/
def initialValue (bound : Nat) (x : String) : Parser (String × Option Expr) :=
  accept .equals >>= fun b => if b then expression bound >>= fun e => pure (x, some e) else pure (x, none)

theorem declaredItem_eq (bound : Nat) : declaredItem bound = name >>= initialValue bound := rfl

theorem initialValue_cases (u : Option Token) :
    (∀ (bound : Nat) (x : String), AgreeAt u (initialValue bound x)
      (expect .equals >>= fun _ => expression bound >>= fun e => pure (x, some e))) ∨
    ∀ (bound : Nat) (x : String), AgreeAt u (initialValue bound x) (pure (x, none)) := by
  by_cases hu : u = some .equals
  · subst hu
    exact .inl fun bound x => agreeAt_accept _ _
  · exact .inr fun bound x => agreeAt_skip hu _

theorem statementsUntil_cases (stop : Token) (u : Option Token) :
    (∀ (stmt : Parser Stmt) (n : Nat), AgreeAt u (statementsUntil stop stmt (n + 1)) (pure [])) ∨
    ∀ (stmt : Parser Stmt) (n : Nat), AgreeAt u (statementsUntil stop stmt (n + 1))
      (stmt >>= fun s => statementsUntil stop stmt n >>= fun ss => pure (s :: ss)) := by
  by_cases hu : u = some stop
  · refine .inl fun stmt n ts hts => ?_
    rw [statementsUntil_succ, if_pos (hts.trans hu)]
    rfl
  · refine .inr fun stmt n ts hts => ?_
    rw [statementsUntil_succ, if_neg (by rwa [hts])]

theorem otherwise_cases (u : Option Token) :
    (∀ (bound n : Nat) (stmt : Parser Stmt), AgreeAt u (otherwise bound stmt (n + 1)) (expect .kungDili >>= fun _ =>
      condition bound >>= fun c => block bound stmt >>= fun body => otherwise bound stmt n >>= fun o =>
        pure (.branch c body o))) ∨
    (∀ (bound n : Nat) (stmt : Parser Stmt), AgreeAt u (otherwise bound stmt (n + 1)) (expect .kungWala >>= fun _ =>
      block bound stmt >>= fun body => pure (.block body))) ∨
    ∀ (bound n : Nat) (stmt : Parser Stmt), AgreeAt u (otherwise bound stmt (n + 1)) (pure .nothing) := by
  by_cases hdili : u = some .kungDili
  · subst hdili
    exact .inl fun bound n stmt => agreeAt_accept _ _
  · by_cases hwala : u = some .kungWala
    · subst hwala
      exact .inr (.inl fun bound n stmt => (agreeAt_skip hdili _).trans (agreeAt_accept _ _))
    · exact .inr (.inr fun bound n stmt => (agreeAt_skip hdili _).trans (agreeAt_skip hwala _))

/-- The parsers of statements by their first words. -/
def statementForms : List (Nat → Parser Stmt → Parser Stmt) :=
  [fun bound _ => expect .mugna >>= fun _ => declaration bound, fun bound _ => expect .ipakita >>= fun _ => printed bound,
    fun bound _ => expect .dawat >>= fun _ => inputTargets bound,
    fun bound stmt => expect .kung >>= fun _ => branching bound stmt,
    fun bound stmt => expect .samtang >>= fun _ => looping bound stmt,
    fun bound stmt => expect .alangSa >>= fun _ => counting bound stmt, fun bound _ => Stmt.expr <$> expression bound]

/-- The first token tells which statement follows. -/
theorem statementOf_cases (u : Option Token) : ∃ form ∈ statementForms,
    ∀ (bound : Nat) (stmt : Parser Stmt), AgreeAt u (statementOf bound stmt) (form bound stmt) := by
  cases u with
  | none =>
      exact ⟨_, .tail _ (.tail _ (.tail _ (.tail _ (.tail _ (.tail _ (.head _)))))), fun bound stmt => agreeAt_nil rfl⟩
  | some t =>
      cases t with
      | mugna => exact ⟨_, .head _, fun bound stmt => agreeAt_expect fun _ => rfl⟩
      | ipakita => exact ⟨_, .tail _ (.head _), fun bound stmt => agreeAt_expect fun _ => rfl⟩
      | dawat => exact ⟨_, .tail _ (.tail _ (.head _)), fun bound stmt => agreeAt_expect fun _ => rfl⟩
      | kung => exact ⟨_, .tail _ (.tail _ (.tail _ (.head _))), fun bound stmt => agreeAt_expect fun _ => rfl⟩
      | samtang =>
          exact ⟨_, .tail _ (.tail _ (.tail _ (.tail _ (.head _)))), fun bound stmt => agreeAt_expect fun _ => rfl⟩
      | alangSa =>
          exact ⟨_, .tail _ (.tail _ (.tail _ (.tail _ (.tail _ (.head _))))),
            fun bound stmt => agreeAt_expect fun _ => rfl⟩
      | _ =>
          exact ⟨_, .tail _ (.tail _ (.tail _ (.tail _ (.tail _ (.tail _ (.head _)))))),
            fun bound stmt => agreeAt_cons fun _ => rfl⟩

/-- What may follow the last word of a program. -/
def programEnd (body : List Stmt) : Parser (List Stmt) :=
  accept .lineEnd >>= fun _ => ending >>= fun _ => pure body

theorem program_eq (bound : Nat) : program bound = expect .sugod >>= fun _ => expect .lineEnd >>= fun _ =>
    statementsUntil .katapusan (statement bound bound) bound >>= fun body => expect .katapusan >>= fun _ =>
      programEnd body := rfl

theorem programEnd_cases (u : Option Token) :
    (∀ body : List Stmt, AgreeAt u (programEnd body) (expect .lineEnd >>= fun _ => ending >>= fun _ => pure body)) ∨
    ∀ body : List Stmt, AgreeAt u (programEnd body) (ending >>= fun _ => pure body) := by
  by_cases hu : u = some .lineEnd
  · subst hu
    exact .inl fun body => agreeAt_accept _ _
  · exact .inr fun body => agreeAt_skip hu _

end Binisaya.Parser
