import Binisaya.Program

/-! Sources that are read to their end. What is said about the tokens of a text leaves out their places and the fuel
that scanning is given, so that it can be put together token by token. -/

namespace Binisaya

/-- Each character of a text is looked at, instead of all that there are. -/
theorem forall_mem_of_all {p : Char → Prop} [DecidablePred p] {cs : List Char} (h : cs.all (p ·) = true) :
    ∀ c ∈ cs, p c :=
  fun c hc => of_decide_eq_true (List.all_eq_true.1 h c hc)

theorem ne_newline_of_not_isLineBreak {c : Char} (h : isLineBreak c = false) : c ≠ '\n' := by
  rintro rfl
  cases h

theorem ne_return_of_not_isLineBreak {c : Char} (h : isLineBreak c = false) : c ≠ '\r' := by
  rintro rfl
  cases h

/-- A first character that ends no line belongs to the first line. -/
theorem splitLines_cons {c : Char} (h : isLineBreak c = false) (cs : List Char) :
    splitLines (c :: cs) = (c :: (splitLines cs).headD []) :: (splitLines cs).tail := by
  have hreturn := ne_return_of_not_isLineBreak h
  rw [splitLines]
  · rw [if_neg (by rw [h]; exact Bool.false_ne_true)]
    cases splitLines cs with
    | nil => rfl
    | cons line lines => rfl
  · intro rest hc
    exact absurd hc hreturn

theorem splitLines_line {line : List Char} (h : ∀ c ∈ line, isLineBreak c = false) (rest : List Char) :
    splitLines (line ++ '\n' :: rest) = line :: splitLines rest := by
  induction line with
  | nil => rfl
  | cons c line ih =>
      obtain ⟨hc, hcs⟩ := List.forall_mem_cons.1 h
      rw [List.cons_append, splitLines_cons hc, ih hcs]
      rfl

theorem splitLines_last {line : List Char} (h : ∀ c ∈ line, isLineBreak c = false) (hline : line ≠ []) :
    splitLines line = [line] := by
  induction line with
  | nil => exact absurd rfl hline
  | cons c line ih =>
      rw [splitLines_cons (h c (List.mem_cons_self ..))]
      cases line with
      | nil => rfl
      | cons d line =>
          rw [ih (fun d hd => h d (List.mem_cons_of_mem c hd)) (List.cons_ne_nil d line)]
          rfl

/-- A text that neither starts nor ends with white space stays as it is. -/
theorem trim_eq_self {cs : List Char} (hfirst : ∀ c ∈ cs.head?, isBlank c = false)
    (hlast : ∀ c ∈ cs.getLast?, isBlank c = false) : trim cs = cs := by
  have hdrop : cs.dropWhile isBlank = cs := by
    cases cs with
    | nil => rfl
    | cons c cs => rw [List.dropWhile_cons, if_neg (by rw [hfirst c rfl]; exact Bool.false_ne_true)]
  rw [trim, hdrop, dropTrailing_of_getLast? hlast]

/-- These are the tokens of a text, which is scanned to its end. -/
def Scans (cs : List Char) (ts : List Token) : Prop :=
  ∀ n p, cs.length < n → (scanFrom n p cs).lexemes.map Lexeme.token = ts ∧ (scanFrom n p cs).stuck = none

theorem scans_nil : Scans [] [] := by
  intro n p hn
  cases n with
  | zero => exact absurd hn (Nat.lt_irrefl 0)
  | succ n => exact ⟨rfl, rfl⟩

theorem Scans.space {c : Char} {cs : List Char} {ts : List Token} (hc : isSpacing c = true) (h : Scans cs ts) :
    Scans (c :: cs) ts := by
  intro n p hn
  cases n with
  | zero => exact absurd hn (Nat.not_lt_zero _)
  | succ n =>
      have hsame : scanFrom (n + 1) p (c :: cs) = scanFrom (n + 1) (p.next c) cs := by
        rw [scanFrom, scanFrom, List.dropWhile_cons, if_pos hc, List.takeWhile_cons, if_pos hc]
        rfl
      rw [hsame]
      exact h (n + 1) (p.next c) (Nat.lt_of_succ_lt hn)

theorem Scans.token {t : Token} {c : Char} {text rest : List Char} {ts : List Token} (hc : isSpacing c = false)
    (htoken : scanToken? (c :: text ++ rest) = some (t, c :: text)) (h : Scans rest ts) :
    Scans (c :: text ++ rest) (t :: ts) := by
  intro n p hn
  cases n with
  | zero => exact absurd hn (Nat.not_lt_zero _)
  | succ n =>
      have hrest : rest.length < n := by
        simp only [List.length_append, List.length_cons] at hn
        omega
      have hdrop : (c :: text ++ rest).dropWhile isSpacing = c :: text ++ rest := by
        rw [List.cons_append, List.dropWhile_cons, if_neg (by rw [hc]; exact Bool.false_ne_true)]
      have hafter : (c :: text ++ rest).drop (c :: text).length = rest := List.drop_left
      obtain ⟨htokens, hstuck⟩ := h n ((p.after ((c :: text ++ rest).takeWhile isSpacing)).after (c :: text)) hrest
      rw [scanFrom, hdrop, htoken]
      simp only [hafter]
      exact ⟨congrArg (t :: ·) htokens, hstuck⟩

/-- A source whose normal form is scanned to its end is read as its tokens are parsed. -/
theorem readProgram_of_scans {source : List Char} {ts : List Token} {body : List Stmt}
    (hscans : Scans (normalize source) ts) (hparse : parseTokens ts = .ok body) :
    readProgram source = .ok (programNode body) := by
  obtain ⟨htokens, hstuck⟩ := hscans _ .start (Nat.lt_succ_self _)
  rw [readProgram, readStatements, Scanned.statements, scan, htokens, hparse, hstuck]
  rfl

end Binisaya
