import Binisaya.Proofs.DebugLevel
import Binisaya.Proofs.Grammar.Completeness
import Binisaya.Proofs.Source.Scanning

/-! Literals on their way from the source to the output. Each of the stages that a source goes through has its own way
to tell where a literal ends, and all of them agree: comments, white space and operators inside of literals are never
taken for such, and a program that prints literals writes the texts that they denote. -/

namespace Binisaya

/-- A literal as it can be written, with no line break in it. -/
inductive Literal where
  | text (s : String) (h : ∀ c ∈ s.toList, c ≠ '"' ∧ isLineBreak c = false)
  | char (c : Char) (hquote : c ≠ '\'') (hbreak : isLineBreak c = false)
  | escape (c : Char) (hbreak : isLineBreak c = false)
  | newline

namespace Literal

/-- The literal as it is written. -/
def spelling : Literal → List Char
  | text s _ => '"' :: (s.toList ++ ['"'])
  | char c _ _ => ['\'', c, '\'']
  | escape c _ => ['[', c, ']']
  | newline => ['$']

/-- The text that the literal denotes. -/
def denoted : Literal → String
  | text s _ => s
  | char c _ _ => .singleton c
  | escape c _ => .singleton c
  | newline => "\n"

def token : Literal → Token
  | text s _ => .text s
  | char c _ _ => .char c
  | escape c _ => .escape c
  | newline => .newline

/-- Literals with `&` between them. -/
def joined (first : Literal) (more : List Literal) : List Char :=
  first.spelling ++ more.flatMap fun l => ' ' :: '&' :: ' ' :: l.spelling

/-- The lines of a program that prints literals. -/
def printLines (first : Literal) (more : List Literal) : List (List Char) :=
  ["SUGOD".toList, "IPAKITA: ".toList ++ joined first more, "KATAPUSAN".toList]

/-- A program that prints literals. -/
def printSource (first : Literal) (more : List Literal) : List Char :=
  List.intercalate ['\n'] (printLines first more)

theorem not_isLineBreak_of_mem (l : Literal) : ∀ c ∈ l.spelling, isLineBreak c = false := by
  cases l with
  | text s h =>
      intro c hc
      simp only [spelling, List.mem_cons, List.mem_append, List.not_mem_nil, or_false] at hc
      rcases hc with rfl | hc | rfl
      · rfl
      · exact (h c hc).2
      · rfl
  | char c hquote hbreak => simpa [spelling] using ⟨rfl, hbreak, rfl⟩
  | escape c hbreak => simpa [spelling] using ⟨rfl, hbreak, rfl⟩
  | newline => exact List.forall_mem_singleton.2 rfl

theorem codePartFrom_quoted {quote : Char} {cs : List Char} (h : ∀ c ∈ cs, c ≠ quote) (rest : List Char) :
    codePartFrom (some quote) (cs ++ quote :: rest) = cs ++ quote :: codePartFrom none rest := by
  induction cs with
  | nil => rw [List.nil_append, codePartFrom, leftOpen, if_pos rfl, List.nil_append]
  | cons c cs ih =>
      rw [List.cons_append, codePartFrom, leftOpen, if_neg (h c (List.mem_cons_self ..)),
        ih fun d hd => h d (List.mem_cons_of_mem c hd), List.cons_append]

/-- Nothing in a literal starts a comment, and no quote is open after it. -/
theorem codePartFrom_spelling (l : Literal) (rest : List Char) :
    codePartFrom none (l.spelling ++ rest) = l.spelling ++ codePartFrom none rest := by
  cases l with
  | text s h =>
      have hquoted := codePartFrom_quoted (fun c hc => (h c hc).1) rest
      rw [spelling, List.cons_append, List.append_assoc, List.cons_append, List.nil_append]
      change '"' :: codePartFrom (some '"') (s.toList ++ '"' :: rest) = _
      rw [hquoted, List.cons_append, List.append_assoc]
      rfl
  | char c hquote hbreak =>
      have hquoted := @codePartFrom_quoted '\'' [c] (List.forall_mem_singleton.2 hquote) rest
      exact congrArg ('\'' :: ·) hquoted
  | escape c hbreak => rfl
  | newline => rfl

theorem codePartFrom_joined (first : Literal) (more : List Literal) :
    codePartFrom none (joined first more) = joined first more := by
  rw [joined, codePartFrom_spelling]
  congr 1
  induction more with
  | nil => rfl
  | cons l more ih =>
      rw [List.flatMap_cons, List.cons_append, List.cons_append, List.cons_append]
      change ' ' :: '&' :: ' ' :: codePartFrom none (l.spelling ++ _) = _
      rw [codePartFrom_spelling, ih]

theorem codePart_printLine (first : Literal) (more : List Literal) :
    codePart ("IPAKITA: ".toList ++ joined first more) = "IPAKITA: ".toList ++ joined first more := by
  nth_rewrite 2 [← codePartFrom_joined]
  rfl

/-- Every literal ends with a character that is no white space. -/
theorem spelling_getLast? (l : Literal) : ∃ c, l.spelling.getLast? = some c ∧ isBlank c = false := by
  cases l with
  | text s h => exact ⟨'"', by rw [spelling, ← List.cons_append, List.getLast?_concat], rfl⟩
  | char c hquote hbreak => exact ⟨'\'', rfl, rfl⟩
  | escape c hbreak => exact ⟨']', rfl, rfl⟩
  | newline => exact ⟨'$', rfl, rfl⟩

theorem joined_getLast? (first : Literal) (more : List Literal) :
    ∃ c, (joined first more).getLast? = some c ∧ isBlank c = false := by
  rcases List.eq_nil_or_concat' more with rfl | ⟨more, last, rfl⟩
  · rw [joined, List.flatMap_nil, List.append_nil]
    exact spelling_getLast? first
  · obtain ⟨c, hc, hblank⟩ := spelling_getLast? last
    refine ⟨c, ?_, hblank⟩
    rw [joined, List.flatMap_append, List.flatMap_singleton, ← List.append_assoc]
    simp only [List.getLast?_append, List.getLast?_cons, hc]
    rfl

theorem codeLines_printSource (first : Literal) (more : List Literal) :
    codeLines (printSource first more) = printLines first more := by
  have hprint : ∀ c ∈ "IPAKITA: ".toList ++ joined first more, isLineBreak c = false := by
    intro c hc
    rw [joined, List.mem_append, List.mem_append, List.mem_flatMap] at hc
    rcases hc with hc | hc | ⟨l, -, hc⟩
    · have hword : ∀ c ∈ "IPAKITA: ".toList, isLineBreak c = false := forall_mem_of_all (by decide)
      exact hword c hc
    · exact not_isLineBreak_of_mem first c hc
    · simp only [List.mem_cons] at hc
      rcases hc with rfl | rfl | rfl | hc
      · rfl
      · rfl
      · rfl
      · exact not_isLineBreak_of_mem l c hc
  have hlines : splitLines (printSource first more) = printLines first more := by
    change splitLines ("SUGOD".toList ++
      '\n' :: ("IPAKITA: ".toList ++ joined first more ++ '\n' :: "KATAPUSAN".toList)) = _
    rw [splitLines_line (forall_mem_of_all (by decide)), splitLines_line hprint,
      splitLines_last (forall_mem_of_all (by decide)) (by decide)]
    rfl
  have htrim : trim ("IPAKITA: ".toList ++ joined first more) = "IPAKITA: ".toList ++ joined first more := by
    obtain ⟨c, hc, hblank⟩ := joined_getLast? first more
    apply trim_eq_self
    · exact fun c hc => by cases hc; rfl
    · rw [List.getLast?_append, hc]
      rintro d ⟨⟩
      exact hblank
  rw [codeLines, hlines, printLines, List.map_cons, List.map_cons, codePart_printLine, htrim]
  rfl

theorem normalize_printSource (first : Literal) (more : List Literal) :
    normalize (printSource first more) = printSource first more ++ ['\n'] := by
  rw [normalize, codeLines_printSource]
  rfl

theorem scanToken?_spelling (l : Literal) (rest : List Char) :
    scanToken? (l.spelling ++ rest) = some (l.token, l.spelling) := by
  cases l with
  | text s h =>
      have hinside : ∀ c ∈ s.toList, inText c = true := by
        intro c hc
        obtain ⟨hquote, hbreak⟩ := h c hc
        simp [inText, hquote, ne_newline_of_not_isLineBreak hbreak]
      have hbody : (s.toList ++ '"' :: rest).takeWhile inText = s.toList := by
        rw [List.takeWhile_append_of_pos hinside]
        exact List.append_nil _
      have hrest : (s.toList ++ '"' :: rest).dropWhile inText = '"' :: rest := by
        rw [List.dropWhile_append_of_pos hinside]
        rfl
      rw [spelling, List.cons_append, List.append_assoc]
      change scanText? (s.toList ++ '"' :: rest) = _
      rw [scanText?, hrest, hbody, List.head?_cons, if_pos rfl, String.ofList_toList]
      rfl
  | char c hquote hbreak => exact if_neg (by simp [hquote, ne_newline_of_not_isLineBreak hbreak])
  | escape c hbreak => exact if_neg (ne_newline_of_not_isLineBreak hbreak)
  | newline => cases rest <;> rfl

theorem scans_literal (l : Literal) {rest : List Char} {ts : List Token} (h : Scans rest ts) :
    Scans (l.spelling ++ rest) (l.token :: ts) := by
  have htoken := scanToken?_spelling l rest
  cases l with
  | text s _ => exact .token rfl htoken h
  | char c _ _ => exact .token rfl htoken h
  | escape c _ => exact .token rfl htoken h
  | newline => exact .token rfl htoken h

/-- The tokens of a program that prints literals. -/
def printTokens (first : Literal) (more : List Literal) : List Token :=
  .sugod :: .lineEnd :: .ipakita :: .colon :: first.token ::
    (more.flatMap fun l => [.operator .concat, l.token]) ++ [.lineEnd, .katapusan, .lineEnd]

theorem scans_more (more : List Literal) {rest : List Char} {ts : List Token} (h : Scans rest ts) :
    Scans ((more.flatMap fun l => ' ' :: '&' :: ' ' :: l.spelling) ++ rest)
      ((more.flatMap fun l => [.operator .concat, l.token]) ++ ts) := by
  induction more with
  | nil => exact h
  | cons l more ih =>
      rw [List.flatMap_cons, List.flatMap_cons, List.append_assoc, List.append_assoc]
      exact .space rfl (@Scans.token (.operator .concat) '&' [] _ _ rfl rfl (.space rfl (scans_literal l ih)))

theorem scans_printSource (first : Literal) (more : List Literal) :
    Scans (printSource first more ++ ['\n']) (printTokens first more) := by
  have hlast : Scans "\nKATAPUSAN\n".toList [.lineEnd, .katapusan, .lineEnd] :=
    @Scans.token .lineEnd '\n' [] _ _ rfl rfl
      (@Scans.token .katapusan 'K' "ATAPUSAN".toList _ _ rfl rfl (@Scans.token .lineEnd '\n' [] _ _ rfl rfl scans_nil))
  have hliterals := scans_literal first (scans_more more hlast)
  have hprint := @Scans.token .ipakita 'I' "PAKITA".toList _ _ rfl rfl
    (@Scans.token .colon ':' [] _ _ rfl rfl (@Scans.space ' ' _ _ rfl hliterals))
  have hall := @Scans.token .sugod 'S' "UGOD".toList _ _ rfl rfl (@Scans.token .lineEnd '\n' [] _ _ rfl rfl hprint)
  have htext : printSource first more ++ ['\n'] = "SUGOD\nIPAKITA: ".toList ++ (first.spelling ++
      ((more.flatMap fun l => ' ' :: '&' :: ' ' :: l.spelling) ++ "\nKATAPUSAN\n".toList)) := by
    simp [printSource, printLines, joined, List.intercalate]
  rw [htext]
  exact hall

open Grammar

/-- The derivation of a literal. -/
def primary : Literal → Primary
  | text s _ => .text s
  | char c _ _ => .char c
  | escape c _ => .escape c
  | newline => .newline

/-- The value that a literal stands for in the tree. -/
def value : Literal → Value
  | text s _ => .text s
  | char c _ _ => .char (.singleton c)
  | escape c _ => .text (.singleton c)
  | newline => .text "\n"

/-- The levels of operators that bind tighter than `&`. -/
abbrev tighterLevels : List (List BinaryOp) :=
  [[.or], [.and], [.eq, .ne], [.ge, .le, .gt, .lt], [.add, .sub], [.mul, .div, .rem]]

/-- An operand of `&` that is a literal. -/
def operand (l : Literal) : Operation tighterLevels :=
  .chain (.chain (.chain (.chain (.chain (.chain (.unary (.primary l.primary)) .nil) .nil) .nil) .nil) .nil) .nil

/-- The further operands of a chain of `&`. -/
def operands : List Literal → Tail [.concat] tighterLevels
  | [] => .nil
  | l :: more => .cons .concat (List.mem_singleton_self _) l.operand (operands more)

def printStart (first : Literal) (more : List Literal) : Start :=
  ⟨[.print (.operation (.chain first.operand (operands more)))], true⟩

theorem operand_tokens (l : Literal) : l.operand.tokens = [l.token] := by
  cases l <;> rfl

theorem operands_tokens (more : List Literal) :
    (operands more).tokens = more.flatMap fun l => [.operator .concat, l.token] := by
  induction more with
  | nil => rfl
  | cons l more ih => rw [operands, Tail.tokens, operand_tokens, ih, List.flatMap_cons]; rfl

theorem printStart_tokens (first : Literal) (more : List Literal) :
    (printStart first more).tokens = printTokens first more := by
  simp [printStart, printTokens, Start.tokens, statementsTokens, Statement.tokens, Expression.tokens, Operation.tokens,
    operand_tokens, operands_tokens]

theorem parseTokens_of_derivation (d : Start) :
    ∃ body, parseTokens d.tokens = .ok body ∧ programNode body = d.program := by
  obtain ⟨body, hbody⟩ := Parser.parseTokens_accepts d
  obtain ⟨d', htokens, hprogram⟩ := Parser.parseTokens_sound hbody
  exact ⟨body, hbody, by rw [hprogram, Start.tokens_injective htokens]⟩

theorem operand_node (l : Literal) : l.operand.node = l.primary.node := rfl

theorem concatItems_primary (l : Literal) : l.primary.node.concatItems = [l.primary.node] := by
  cases l <;> rfl

/-- The operands of `&` are taken apart again before they are printed. -/
theorem concatItems_operands (more : List Literal) (left : Node) :
    ((operands more).node left).concatItems = left.concatItems ++ more.map (·.primary.node) := by
  induction more generalizing left with
  | nil => exact (List.append_nil _).symm
  | cons l more ih =>
      rw [operands, Tail.node, ih, operand_node]
      change (left.concatItems ++ l.primary.node.concatItems) ++ _ = _
      rw [concatItems_primary, List.append_assoc]
      rfl

theorem readProgram_printSource (first : Literal) (more : List Literal) :
    readProgram (printSource first more) = .ok (.program .empty [.print ((first :: more).map (·.primary.node))]) := by
  obtain ⟨body, hbody, hprogram⟩ := parseTokens_of_derivation (printStart first more)
  have hscans := scans_printSource first more
  rw [← normalize_printSource, ← printStart_tokens] at hscans
  rw [readProgram_of_scans hscans hbody, hprogram]
  change Except.ok (Node.program _ [.print ((operands more).node first.operand.node).concatItems]) = _
  rw [concatItems_operands, operand_node, concatItems_primary]
  rfl

theorem evalAll_literals (cfg : Settings) (literals : List Literal) :
    evalAll cfg (literals.map (·.primary.node)) = pure (literals.map value) := by
  induction literals with
  | nil => rfl
  | cons l literals ih =>
      have hvalue : eval cfg l.primary.node = pure l.value := by cases l <;> rfl
      rw [List.map_cons, evalAll, hvalue, ih]
      rfl

theorem print_value (l : Literal) : l.value.print = l.denoted := by
  cases l <;> rfl

theorem run_print_literals {cfg : Settings} (hbanner : cfg.banner = false) (literals : List Literal)
    (input : List Char) (n : Nat) : ∃ log,
      run cfg (n + 1) (.program .empty [.print (literals.map (·.primary.node))]) (.fresh input) =
        .done () { unread := input, output := .join (literals.map denoted), log := log, logging := false } := by
  have hkeeps (log : Array Message) : Machine.KeepsOutput cfg { unread := input, log := log } := .inr rfl
  obtain ⟨log₁, hstart⟩ := (hkeeps #[]).note (.starting 1)
  obtain ⟨log₂, hexecuting⟩ := (hkeeps log₁).note (.executing "PrintStmt")
  have hvalues := evalAll_literals cfg literals
  have htexts : (literals.map value).map Value.print = literals.map denoted := by
    rw [List.map_map]
    exact List.map_congr_left fun l _ => print_value l
  have hbody : runBody cfg (n + 1) [.print (literals.map (·.primary.node))] { unread := input } =
      .done () { unread := input, output := .join (literals.map denoted), log := log₂ } := by
    simp only [runBody, List.length_singleton, Exec.bind_apply, hstart, inOrder, exec, Node.kind, hexecuting, hvalues,
      Exec.pure_apply, htexts, hbanner, Exec.write, Exec.modify, Bool.false_eq_true, if_false]
    rw [String.empty_append]
  refine ⟨log₂, ?_⟩
  change (runBody cfg (n + 1) _).afterwards _ { unread := input } = _
  rw [Exec.afterwards, hbody]

/-- **Literals reach the output as they are.** A program that prints literals with `&` between them can be read, and its
run ends well. It takes no input, and writes the texts that the literals denote one after the other. -/
theorem print_literals_verbatim {cfg : Settings} (hbanner : cfg.banner = false) (first : Literal)
    (more : List Literal) (input : List Char) :
    ∃ p m, readProgram (printSource first more) = .ok p ∧ EndsAs cfg p (.fresh input) (.done () m) ∧
      m.quiet = { unread := input, output := .join ((first :: more).map denoted), logging := false } := by
  obtain ⟨log, hrun⟩ := run_print_literals hbanner (first :: more) input 0
  exact ⟨_, _, readProgram_printSource first more, endsAs_of_run hrun (Outcome.done_ne_outOfFuel () _), rfl⟩

/-- A text with a comment, a quote, an escape and keywords in it. -/
def hostileText : Literal := .text "-- & 'a' [\\] KATAPUSAN  " (forall_mem_of_all (by decide))

theorem print_literals_verbatim_hostileText : ∃ p m,
    readProgram
        "SUGOD\nIPAKITA: \"-- & 'a' [\\] KATAPUSAN  \" & [\"] & '\"' & $ & [-] & [']\nKATAPUSAN".toList = .ok p ∧
      EndsAs {} p (.fresh []) (.done () m) ∧ m.output = "-- & 'a' [\\] KATAPUSAN  \"\"\n-'" := by
  obtain ⟨p, m, hp, hends, hm⟩ := @print_literals_verbatim {} rfl hostileText
    [.escape '"' rfl, .char '"' (by decide) rfl, .newline, .escape '-' rfl, .escape '\'' rfl] []
  refine ⟨p, m, hp, hends, ?_⟩
  exact congrArg Machine.output hm

end Literal

end Binisaya
