import Mathlib.Data.List.TakeWhile
import Mathlib.Logic.Relation
import Binisaya.Proofs.Source.Scanning

/-! The layout of a source does not show in its normal form. A source is taken as the lines that it is made of, with
any line breaks between them. Lines without code can come and go anywhere, also between a statement and the line that
goes on with it, lines can be indented and have white space or a comment put behind them, and the source is read as
before. The one exception is a line that ends inside a quoted text, where two hyphens start no comment. -/

namespace Binisaya

/-- Tells that a text ends a line: a character that does so alone, or a carriage return with its newline. -/
def EndsLine (sep : List Char) : Prop := sep = ['\r', '\n'] ∨ ∃ c, isLineBreak c = true ∧ sep = [c]

/-- The source holds the lines, with a line break after each of them; the last one may be without. -/
inductive MadeOf : List (List Char) → List Char → Prop where
  | nothing : MadeOf [] []
  | last {line : List Char} (hline : ∀ c ∈ line, isLineBreak c = false) : MadeOf [line] line
  | line {line sep rest : List Char} {lines : List (List Char)} (hline : ∀ c ∈ line, isLineBreak c = false)
      (hsep : EndsLine sep) (hrest : MadeOf lines rest) : MadeOf (line :: lines) (line ++ (sep ++ rest))

theorem MadeOf.cons {c : Char} (hc : isLineBreak c = false) {line rest : List Char} {lines : List (List Char)}
    (h : MadeOf (line :: lines) rest) : MadeOf ((c :: line) :: lines) (c :: rest) := by
  cases h with
  | last hline => exact .last (List.forall_mem_cons.2 ⟨hc, hline⟩)
  | line hline hsep hrest => exact .line (List.forall_mem_cons.2 ⟨hc, hline⟩) hsep hrest

/-- Every source is made of its lines. -/
theorem madeOf_splitLines (source : List Char) : MadeOf (splitLines source) source := by
  fun_induction splitLines source with
  | case1 => exact .nothing
  | case2 cs ih => exact @MadeOf.line [] _ _ _ (List.forall_mem_nil _) (.inl rfl) ih
  | case3 c cs _ hc ih => exact @MadeOf.line [] _ _ _ (List.forall_mem_nil _) (.inr ⟨c, hc, rfl⟩) ih
  | case4 c cs _ hc hlines ih =>
      have hc : isLineBreak c = false := by simpa using hc
      rw [hlines] at ih
      cases ih
      exact .last (List.forall_mem_singleton.2 hc)
  | case5 c cs _ hc line lines hlines ih =>
      have hc : isLineBreak c = false := by simpa using hc
      rw [hlines] at ih
      exact ih.cons hc

/-- What is left of lines once comments, blank lines and the white space around lines are gone. -/
def keptLines (lines : List (List Char)) : List (List Char) :=
  (lines.map fun line => trim (codePart line)).filter (!·.isEmpty)

theorem keptLines_append (lines lines' : List (List Char)) :
    keptLines (lines ++ lines') = keptLines lines ++ keptLines lines' := by
  rw [keptLines, List.map_append, List.filter_append]
  rfl

theorem keptLines_cons (line : List Char) (lines : List (List Char)) :
    keptLines (line :: lines) = keptLines [line] ++ keptLines lines := keptLines_append [line] lines

theorem keptLines_singleton_congr {line line' : List Char} (h : trim (codePart line) = trim (codePart line')) :
    keptLines [line] = keptLines [line'] := by
  simp only [keptLines, List.map_cons, List.map_nil, h]

theorem keptLines_singleton_eq_nil {line : List Char} (h : trim (codePart line) = []) : keptLines [line] = [] := by
  simp [keptLines, h]

/-- A line break ends the line before it. A carriage return takes a newline behind it for a part of the same break, and
the empty line that is lost between the two would not be kept. -/
theorem splitLines_sep {sep : List Char} (hsep : EndsLine sep) (rest : List Char) :
    ∃ more, splitLines (sep ++ rest) = [] :: more ∧ keptLines more = keptLines (splitLines rest) := by
  rcases hsep with rfl | ⟨c, hc, rfl⟩
  · exact ⟨splitLines rest, rfl, rfl⟩
  · by_cases hpair : c = '\r' ∧ rest.head? = some '\n'
    · obtain ⟨rfl, hhead⟩ := hpair
      cases rest with
      | nil => cases hhead
      | cons d rest =>
          obtain rfl : d = '\n' := Option.some.inj hhead
          exact ⟨splitLines rest, rfl, rfl⟩
    · refine ⟨splitLines rest, ?_, rfl⟩
      rw [List.singleton_append, splitLines, if_pos hc]
      rintro cs rfl rfl
      exact hpair ⟨rfl, rfl⟩

theorem splitLines_append {line : List Char} (hline : ∀ c ∈ line, isLineBreak c = false) {rest : List Char}
    {more : List (List Char)} (hrest : splitLines rest = [] :: more) : splitLines (line ++ rest) = line :: more := by
  induction line with
  | nil => exact hrest
  | cons c line ih =>
      obtain ⟨hc, hcs⟩ := List.forall_mem_cons.1 hline
      rw [List.cons_append, splitLines_cons hc, ih hcs]
      rfl

/-- Which line breaks divide a source does not matter. -/
theorem MadeOf.codeLines_eq {lines : List (List Char)} {source : List Char} (h : MadeOf lines source) :
    codeLines source = keptLines lines := by
  change keptLines (splitLines source) = keptLines lines
  induction h with
  | nothing => rfl
  | @last line hline =>
      cases line with
      | nil => rfl
      | cons c line => rw [splitLines_last hline (List.cons_ne_nil c line)]
  | @line line sep rest lines hline hsep hrest ih =>
      obtain ⟨more, hmore, hkept⟩ := splitLines_sep hsep rest
      rw [splitLines_append hline hmore, keptLines_cons, hkept, ih, ← keptLines_cons]

/-- Nothing but white space. -/
def Space (cs : List Char) : Prop := ∀ c ∈ cs, isBlank c = true

theorem trim_space_append {space : List Char} (h : Space space) (cs : List Char) : trim (space ++ cs) = trim cs := by
  rw [trim, trim, List.dropWhile_append_of_pos h]

theorem trim_append_space {space : List Char} (h : Space space) (cs : List Char) : trim (cs ++ space) = trim cs := by
  rw [trim, trim, List.dropWhile_append]
  by_cases hcs : (cs.dropWhile isBlank).isEmpty
  · rw [if_pos hcs, List.isEmpty_iff.1 hcs, List.dropWhile_eq_nil_iff.2 h]
  · rw [if_neg hcs, dropTrailing_append h]

theorem trim_eq_nil {space : List Char} (h : Space space) : trim space = [] := by
  have htrim := trim_append_space h []
  rwa [List.nil_append] at htrim

/-- What a line is in the middle of where it ends. -/
inductive LineState where
  | code
  | quoted (quote : Char)
  | comment
deriving DecidableEq

/-- What a line is in the middle of where it ends, when a quote may be open at its start. -/
def stateAfter : Option Char → List Char → LineState
  | none, [] => .code
  | some quote, [] => .quoted quote
  | some quote, c :: cs => stateAfter (leftOpen quote c) cs
  | none, '[' :: _ :: ']' :: cs => stateAfter none cs
  | none, '-' :: '-' :: _ => .comment
  | none, c :: cs => stateAfter (openedBy c) cs

/-- The line does not end inside a quoted text that nothing closes. -/
def Closed (line : List Char) : Prop := ∀ quote, stateAfter none line ≠ .quoted quote

/-- The code of a text that follows a line, given what the line ended in the middle of. -/
def LineState.codeOf : LineState → List Char → List Char
  | code, cs => codePartFrom none cs
  | quoted quote, cs => codePartFrom (some quote) cs
  | comment, _ => []

/-- White space is code outside of quotes. -/
theorem codePartFrom_space_append {space : List Char} (h : Space space) (cs : List Char) :
    codePartFrom none (space ++ cs) = space ++ codePartFrom none cs := by
  induction space with
  | nil => rfl
  | cons c space ih =>
      obtain ⟨hc, hspace⟩ := List.forall_mem_cons.1 h
      have hopened : openedBy c = none := by
        rw [openedBy, if_neg]
        rintro (rfl | rfl) <;> cases hc
      rw [List.cons_append, codePartFrom, hopened, ih hspace]
      · rfl
      · rintro d rest rfl
        cases hc
      · rintro rest rfl
        cases hc

theorem codePartFrom_space {space : List Char} (h : Space space) (quote? : Option Char) :
    codePartFrom quote? space = space := by
  induction space generalizing quote? with
  | nil => cases quote? <;> rfl
  | cons c space ih =>
      cases quote? with
      | none =>
          have hspace := codePartFrom_space_append h []
          rwa [List.append_nil, codePartFrom, List.append_nil] at hspace
      | some quote => rw [codePartFrom, ih (List.forall_mem_cons.1 h).2]

theorem LineState.codeOf_space {space : List Char} (h : Space space) (state : LineState) :
    state.codeOf space = space ∨ state.codeOf space = [] := by
  cases state with
  | code => exact .inl (codePartFrom_space h none)
  | quoted quote => exact .inl (codePartFrom_space h (some quote))
  | comment => exact .inr rfl

section Behind

variable {a c : Char} {line cs : List Char}

/-- The end of a line makes no escape together with white space behind it. -/
theorem not_escape_append (hc : isBlank c = true) (hcs : cs.head? ≠ some ']')
    (h : ∀ d rest, a = '[' → line = d :: ']' :: rest → False) :
    ∀ d rest, a = '[' → line ++ c :: cs = d :: ']' :: rest → False := by
  rintro d rest ha hrest
  rcases line with _ | ⟨e, _ | ⟨f, line⟩⟩
  · cases hrest
    exact hcs rfl
  · cases hrest
    cases hc
  · cases hrest
    exact h _ _ ha rfl

/-- The end of a line makes no pair of hyphens together with white space behind it. -/
theorem not_hyphens_append (hc : isBlank c = true) (h : ∀ rest, a = '-' → line = '-' :: rest → False) :
    ∀ rest, a = '-' → line ++ c :: cs = '-' :: rest → False := by
  rintro rest ha hrest
  cases line with
  | nil =>
      cases hrest
      cases hc
  | cons d line =>
      cases hrest
      exact h _ ha rfl

end Behind

/-- A text behind a line that starts with white space. It makes no escape and no pair of hyphens together with the
end of the line. -/
theorem codePartFrom_append {c : Char} (hc : isBlank c = true) {cs : List Char} (hcs : cs.head? ≠ some ']')
    (quote? : Option Char) (line : List Char) :
    codePartFrom quote? (line ++ c :: cs) = codePartFrom quote? line ++ (stateAfter quote? line).codeOf (c :: cs) := by
  fun_induction stateAfter quote? line with
  | case1 => rfl
  | case2 quote => rfl
  | case3 quote d line ih => rw [List.cons_append, codePartFrom, ih, codePartFrom, List.cons_append]
  | case4 d line ih =>
      rw [List.cons_append, List.cons_append, List.cons_append, codePartFrom, ih, codePartFrom]
      rfl
  | case5 line => rfl
  | case6 d line hescape hhyphens ih =>
      rw [List.cons_append, codePartFrom, ih, codePartFrom, List.cons_append]
      · exact hescape
      · exact hhyphens
      · exact not_escape_append hc hcs hescape
      · exact not_hyphens_append hc hhyphens

/-- A line without code: nothing but white space, and perhaps a comment. -/
def Idle (line : List Char) : Prop :=
  ∃ space, Space space ∧ (line = space ∨ ∃ text, line = space ++ '-' :: '-' :: text)

theorem Idle.trim_codePart {line : List Char} (h : Idle line) : trim (codePart line) = [] := by
  obtain ⟨space, hspace, rfl | ⟨text, rfl⟩⟩ := h
  · rw [codePart, codePartFrom_space hspace, trim_eq_nil hspace]
  · rw [codePart, codePartFrom_space_append hspace, codePartFrom, List.append_nil, trim_eq_nil hspace]

theorem trim_codePart_indent {space : List Char} (hspace : Space space) (line : List Char) :
    trim (codePart (space ++ line)) = trim (codePart line) := by
  rw [codePart, codePartFrom_space_append hspace, trim_space_append hspace]
  rfl

theorem trim_codePart_trail {space : List Char} (hspace : Space space) (line : List Char) :
    trim (codePart (line ++ space)) = trim (codePart line) := by
  cases space with
  | nil => rw [List.append_nil]
  | cons c space =>
      obtain ⟨hc, hcs⟩ := List.forall_mem_cons.1 hspace
      have hhead : space.head? ≠ some ']' := by
        intro hhead
        cases hcs ']' (List.mem_of_mem_head? hhead)
      rw [codePart, codePartFrom_append hc hhead]
      rcases (stateAfter none line).codeOf_space hspace with hcode | hcode
      · rw [hcode, trim_append_space hspace]
        rfl
      · rw [hcode, List.append_nil]
        rfl

theorem trim_codePart_comment {space : List Char} (hspace : Space space) (hne : space ≠ []) {line : List Char}
    (hline : Closed line) (text : List Char) :
    trim (codePart (line ++ (space ++ '-' :: '-' :: text))) = trim (codePart line) := by
  cases space with
  | nil => exact absurd rfl hne
  | cons c space =>
      obtain ⟨hc, hcs⟩ := List.forall_mem_cons.1 hspace
      have hhead : (space ++ '-' :: '-' :: text).head? ≠ some ']' := by
        cases space with
        | nil => simp
        | cons d space => exact fun hhead => by cases hhead; cases hcs ']' (List.mem_cons_self ..)
      rw [codePart, List.cons_append, codePartFrom_append hc hhead]
      cases hstate : stateAfter none line with
      | code =>
          have hcode := codePartFrom_space_append hspace ('-' :: '-' :: text)
          rw [LineState.codeOf, ← List.cons_append, hcode, codePartFrom, List.append_nil, trim_append_space hspace]
          rfl
      | quoted quote => exact absurd hstate (hline quote)
      | comment =>
          rw [LineState.codeOf, List.append_nil]
          rfl

/-- A change of the layout. That no line break gets into a line is left to `MadeOf`. -/
inductive LayoutEdit : List (List Char) → List (List Char) → Prop where
  /-- A line without code comes in. -/
  | insert (before after : List (List Char)) {line : List Char} (hline : Idle line) :
      LayoutEdit (before ++ after) (before ++ line :: after)
  /-- White space is put before a line. -/
  | indent (before after : List (List Char)) (line : List Char) {space : List Char} (hspace : Space space) :
      LayoutEdit (before ++ line :: after) (before ++ (space ++ line) :: after)
  /-- White space is put behind a line. -/
  | trail (before after : List (List Char)) (line : List Char) {space : List Char} (hspace : Space space) :
      LayoutEdit (before ++ line :: after) (before ++ (line ++ space) :: after)
  /-- White space and a comment are put behind a line. -/
  | comment (before after : List (List Char)) {line space : List Char} (hline : Closed line) (hspace : Space space)
      (hne : space ≠ []) (text : List Char) :
      LayoutEdit (before ++ line :: after) (before ++ (line ++ (space ++ '-' :: '-' :: text)) :: after)

/-- Lists of lines that differ in their layout only: edits lead from one to the other, some of them undone. -/
def SameLayout : List (List Char) → List (List Char) → Prop := Relation.EqvGen LayoutEdit

theorem keptLines_replace (before after : List (List Char)) {line line' : List Char}
    (h : trim (codePart line) = trim (codePart line')) :
    keptLines (before ++ line :: after) = keptLines (before ++ line' :: after) := by
  rw [keptLines_append, keptLines_append, keptLines_cons, keptLines_cons line', keptLines_singleton_congr h]

theorem LayoutEdit.keptLines_eq {lines lines' : List (List Char)} (h : LayoutEdit lines lines') :
    keptLines lines = keptLines lines' := by
  cases h with
  | @insert before after line hline =>
      have hnil := keptLines_singleton_eq_nil hline.trim_codePart
      rw [keptLines_append, keptLines_append, keptLines_cons, hnil, List.nil_append]
  | indent before after line hspace => exact (keptLines_replace before after (trim_codePart_indent hspace line)).symm
  | trail before after line hspace => exact (keptLines_replace before after (trim_codePart_trail hspace line)).symm
  | comment before after hline hspace hne text =>
      exact (keptLines_replace before after (trim_codePart_comment hspace hne hline text)).symm

theorem SameLayout.keptLines_eq {lines lines' : List (List Char)} (h : SameLayout lines lines') :
    keptLines lines = keptLines lines' := by
  induction h with
  | rel lines lines' hedit => exact hedit.keptLines_eq
  | refl lines => rfl
  | symm lines lines' _ ih => exact ih.symm
  | trans lines lines' lines'' _ _ ih ih' => exact ih.trans ih'

/-- **Layout does not matter.** Every source is made of lines, and sources whose lines differ in their layout only have
the same normal form, whatever line breaks they use; so they are read as the same program, or rejected with the same
message. -/
theorem layout_invisible :
    (∀ source, MadeOf (splitLines source) source) ∧
      ∀ {lines lines' : List (List Char)} {source source' : List Char}, MadeOf lines source → MadeOf lines' source' →
        SameLayout lines lines' → normalize source = normalize source' ∧ readProgram source = readProgram source' := by
  refine ⟨madeOf_splitLines, ?_⟩
  intro lines lines' source source' hsource hsource' hlayout
  have hnormal : normalize source = normalize source' := by
    rw [normalize, normalize, hsource.codeLines_eq, hsource'.codeLines_eq, hlayout.keptLines_eq]
  refine ⟨hnormal, ?_⟩
  rw [readProgram, readProgram, readStatements, readStatements, hnormal]

/-- The lines of a branch. -/
def plainBranch : List (List Char) :=
  ["SUGOD".toList, "KUNG (x)".toList, "PUNDOK\x7b".toList, "\x7d".toList, "KATAPUSAN".toList]

/-- The same lines with a comment between the condition and its block, and a comment with a quote in it where the block
starts. -/
def spacedBranch : List (List Char) :=
  ["SUGOD".toList, "KUNG (x)".toList, " -- it's".toList, "\tPUNDOK\x7b -- \"".toList, "\x7d".toList,
    "KATAPUSAN".toList]

theorem sameLayout_branches : SameLayout plainBranch spacedBranch := by
  have hspace (c : Char) (hc : isBlank c = true) : Space [c] := List.forall_mem_singleton.2 hc
  have hclosed : Closed "\tPUNDOK\x7b".toList := fun quote h => by cases h
  have hinsert := @LayoutEdit.insert (plainBranch.take 2) (plainBranch.drop 2) " -- it's".toList
    ⟨[' '], hspace ' ' rfl, .inr ⟨" it's".toList, rfl⟩⟩
  have hindent := LayoutEdit.indent (spacedBranch.take 3) (plainBranch.drop 3) "PUNDOK\x7b".toList (hspace '\t' rfl)
  have hcomment := LayoutEdit.comment (spacedBranch.take 3) (plainBranch.drop 3) hclosed (hspace ' ' rfl)
    (List.cons_ne_nil ' ' []) " \"".toList
  exact .trans _ _ _ (.rel _ _ hinsert) (.trans _ _ _ (.rel _ _ hindent) (.rel _ _ hcomment))

theorem layout_invisible_branches :
    normalize "SUGOD\nKUNG (x)\nPUNDOK\x7b\n\x7d\nKATAPUSAN\n".toList =
        normalize "SUGOD\r\nKUNG (x)\r -- it's\n\tPUNDOK\x7b -- \"\r\n\x7d\rKATAPUSAN".toList ∧
      readProgram "SUGOD\nKUNG (x)\nPUNDOK\x7b\n\x7d\nKATAPUSAN\n".toList =
        readProgram "SUGOD\r\nKUNG (x)\r -- it's\n\tPUNDOK\x7b -- \"\r\n\x7d\rKATAPUSAN".toList := by
  have hnewline : EndsLine ['\n'] := .inr ⟨'\n', rfl, rfl⟩
  have hreturn : EndsLine ['\r'] := .inr ⟨'\r', rfl, rfl⟩
  have hboth : EndsLine ['\r', '\n'] := .inl rfl
  have hplain : MadeOf plainBranch _ :=
    .line (forall_mem_of_all (by decide)) hnewline <| .line (forall_mem_of_all (by decide)) hnewline <|
      .line (forall_mem_of_all (by decide)) hnewline <| .line (forall_mem_of_all (by decide)) hnewline <|
      .line (forall_mem_of_all (by decide)) hnewline .nothing
  have hspaced : MadeOf spacedBranch _ :=
    .line (forall_mem_of_all (by decide)) hboth <| .line (forall_mem_of_all (by decide)) hreturn <|
      .line (forall_mem_of_all (by decide)) hnewline <| .line (forall_mem_of_all (by decide)) hboth <|
      .line (forall_mem_of_all (by decide)) hreturn <| .last (forall_mem_of_all (by decide))
  exact layout_invisible.2 hplain hspaced sameLayout_branches

end Binisaya
