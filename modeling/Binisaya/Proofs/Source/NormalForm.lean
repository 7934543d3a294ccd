import Mathlib.Data.List.DropRight
import Binisaya.Proofs.Source.Comments

/-! The normal form of a source is its own normal form. A line of it may be joined from several lines, and all of it is
looked at again as one line: nothing in it may start a comment where two lines meet, and it may not start like the
continuation of another. Both hold as the lines that are joined end outside of quotes. -/

namespace Binisaya

/-- What a line with a text behind it ends in the middle of, given what the line itself ended in the middle of. -/
def LineState.stateOf : LineState → List Char → LineState
  | code, cs => stateAfter none cs
  | quoted quote, cs => stateAfter (some quote) cs
  | comment, _ => comment

theorem stateAfter_append {c : Char} (hc : isBlank c = true) {cs : List Char} (hcs : cs.head? ≠ some ']')
    (quote? : Option Char) (line : List Char) :
    stateAfter quote? (line ++ c :: cs) = (stateAfter quote? line).stateOf (c :: cs) := by
  fun_induction stateAfter quote? line with
  | case1 => rfl
  | case2 quote => rfl
  | case3 quote d line ih => rw [List.cons_append, stateAfter, ih]
  | case4 d line ih => rw [List.cons_append, List.cons_append, List.cons_append, stateAfter, ih]
  | case5 line => rfl
  | case6 d line hescape hhyphens ih =>
      rw [List.cons_append, stateAfter_cons (not_escape_append hc hcs hescape) (not_hyphens_append hc hhyphens), ih]

/-- Tells that a character is a quote. -/
def isQuote (c : Char) : Bool := c == '"' || c == '\''

/-- What is open at the end of a line is a quote. -/
theorem isQuote_of_stateAfter {quote? : Option Char} {line : List Char} {quote : Char}
    (h : stateAfter quote? line = .quoted quote) (hquote : ∀ q ∈ quote?, isQuote q = true) : isQuote quote = true := by
  fun_induction stateAfter quote? line with
  | case1 => cases h
  | case2 q =>
      cases h
      exact hquote quote rfl
  | case3 q c line ih =>
      refine ih h fun p hp => ?_
      rw [leftOpen] at hp
      split_ifs at hp with hc
      · cases hp
      · cases hp
        exact hquote q rfl
  | case4 c line ih => exact ih h hquote
  | case5 line => cases h
  | case6 c line _ _ ih =>
      refine ih h fun p hp => ?_
      rw [openedBy] at hp
      split_ifs at hp with hc
      · cases hp
        simpa [isQuote] using hc
      · cases hp

theorem stateAfter_open {quote : Char} {cs : List Char} (h : ∀ c ∈ cs, c ≠ quote) :
    stateAfter (some quote) cs = .quoted quote := by
  induction cs with
  | nil => rfl
  | cons c cs ih =>
      obtain ⟨hc, hcs⟩ := List.forall_mem_cons.1 h
      rw [stateAfter, leftOpen, if_neg hc, ih hcs]

theorem isPlain_of_isBlank {c : Char} (h : isBlank c = true) : isPlain c = true :=
  isPlain_of_class (by decide) (by decide) (by decide) (by decide) h

/-- White space at the end of a line closes no quote. -/
theorem stateAfter_of_append_space {line space : List Char} (hspace : Space space)
    (h : stateAfter none (line ++ space) = .code) : stateAfter none line = .code := by
  cases space with
  | nil => rwa [List.append_nil] at h
  | cons c space =>
      obtain ⟨hc, hcs⟩ := List.forall_mem_cons.1 hspace
      have hhead : space.head? ≠ some ']' := by
        intro hhead
        cases hcs ']' (List.mem_of_mem_head? hhead)
      rw [stateAfter_append hc hhead] at h
      cases hstate : stateAfter none line with
      | code => rfl
      | comment =>
          rw [hstate] at h
          cases h
      | quoted quote =>
          have hquote := isQuote_of_stateAfter hstate fun q hq => by cases hq
          have hopen : stateAfter (some quote) (c :: space) = .quoted quote := by
            refine stateAfter_open fun d hd => ?_
            rintro rfl
            have hblank := hspace d hd
            simp only [isQuote, Bool.or_eq_true, beq_iff_eq] at hquote
            rcases hquote with rfl | rfl <;> cases hblank
          rw [hstate, LineState.stateOf, hopen] at h
          cases h

theorem exists_trim_eq (cs : List Char) :
    ∃ before after, Space before ∧ Space after ∧ cs = before ++ (trim cs ++ after) := by
  refine ⟨cs.takeWhile isBlank, (cs.dropWhile isBlank).rtakeWhile isBlank, fun c hc => List.mem_takeWhile_imp hc,
    fun c hc => List.mem_rtakeWhile_imp hc, ?_⟩
  have hsplit : trim cs ++ (cs.dropWhile isBlank).rtakeWhile isBlank = cs.dropWhile isBlank :=
    List.rdropWhile_append_rtakeWhile
  rw [hsplit, List.takeWhile_append_dropWhile]

theorem stateAfter_trim {cs : List Char} (h : stateAfter none cs = .code) : stateAfter none (trim cs) = .code := by
  obtain ⟨before, after, hbefore, hafter, hcs⟩ := exists_trim_eq cs
  rw [hcs, stateAfter_plain fun c hc => isPlain_of_isBlank (hbefore c hc)] at h
  exact stateAfter_of_append_space hafter h

/-- How a line starts that goes on with the statement before it. -/
inductive Continues : List Char → Prop
  | block {rest : List Char} (hend : atWordEnd rest = true) : Continues ("PUNDOK".toList ++ rest)
  | brace (rest : List Char) : Continues ('\x7b' :: rest)
  | branch {second : String} (hsecond : second = "WALA" ∨ second = "DILI") {space rest cs : List Char}
      (h : StartsWithPhrase "KUNG" second space rest cs) : Continues cs

theorem isSome_phraseText?_iff {first second : String} (hsecond : isName second.toList = true) {cs : List Char} :
    (phraseText? first second cs).isSome = true ↔ ∃ space rest, StartsWithPhrase first second space rest cs := by
  rw [Option.isSome_iff_exists]
  constructor
  · rintro ⟨text, htext⟩
    obtain ⟨space, rest, hstarts, -⟩ := (phraseText?_eq_some_iff hsecond).1 htext
    exact ⟨space, rest, hstarts⟩
  · rintro ⟨space, rest, hstarts⟩
    exact ⟨_, (phraseText?_eq_some_iff hsecond).2 ⟨space, rest, hstarts, rfl⟩⟩

theorem continuesStatement_iff {line : List Char} : continuesStatement line = true ↔ Continues line := by
  rw [continuesStatement, Bool.or_eq_true, Bool.or_eq_true, Bool.or_eq_true, startsWithWord_iff, beq_iff_eq,
    isSome_phraseText?_iff (by decide), isSome_phraseText?_iff (by decide)]
  constructor
  · rintro (((⟨rest, rfl, hend⟩ | hbrace) | ⟨space, rest, hstarts⟩) | ⟨space, rest, hstarts⟩)
    · exact .block hend
    · obtain ⟨rest, rfl⟩ := List.head?_eq_some_iff.1 hbrace
      exact .brace rest
    · exact .branch (.inl rfl) hstarts
    · exact .branch (.inr rfl) hstarts
  · rintro (hend | _ | ⟨rfl | rfl, hstarts⟩)
    · exact .inl (.inl (.inl ⟨_, rfl, hend⟩))
    · exact .inl (.inl (.inr rfl))
    · exact .inl (.inr ⟨_, _, hstarts⟩)
    · exact .inr ⟨_, _, hstarts⟩

theorem Continues.head? {cs : List Char} (h : Continues cs) : ∃ c ∈ ['P', '\x7b', 'K'], cs.head? = some c := by
  cases h with
  | block => exact ⟨'P', by decide, rfl⟩
  | brace => exact ⟨'\x7b', by decide, rfl⟩
  | branch _ hstarts =>
      obtain ⟨rfl, -⟩ := hstarts
      exact ⟨'K', by decide, rfl⟩

/-- A word that starts a line and what is joined to it stands in the line. -/
theorem exists_append_of_word {word line rest more : List Char} (hword : ' ' ∉ word)
    (h : line ++ ' ' :: more = word ++ rest) : ∃ left, line = word ++ left ∧ rest = left ++ ' ' :: more := by
  rcases List.append_eq_append_iff.1 h with ⟨between, hline, hrest⟩ | ⟨left, hline, hrest⟩
  · cases between with
    | nil => exact ⟨[], by rw [hline, List.append_nil, List.append_nil], hrest.symm⟩
    | cons c between =>
        obtain ⟨rfl, -⟩ := List.cons.inj hrest
        exact absurd (hline ▸ List.mem_append_right line (List.mem_cons_self ..)) hword
  · exact ⟨left, hline, hrest⟩

theorem atWordEnd_of_append {left more : List Char} (h : atWordEnd (left ++ ' ' :: more) = true) :
    atWordEnd left = true := by
  cases left with
  | nil => rfl
  | cons c left => exact h

/-- A phrase is not made by joining: its second word is none that a continuation starts with. -/
theorem StartsWithPhrase.of_append {second : String} (hsecond : second = "WALA" ∨ second = "DILI")
    {space rest line more : List Char} (h : StartsWithPhrase "KUNG" second space rest (line ++ ' ' :: more))
    (hmore : Continues more) : ∃ left, StartsWithPhrase "KUNG" second space left line := by
  have hname : isName second.toList = true := by rcases hsecond with rfl | rfl <;> decide
  have hblank : ' ' ∉ second.toList := by rcases hsecond with rfl | rfl <;> decide
  obtain ⟨hcs, hne, hspace, hend⟩ := h
  simp only [List.append_assoc] at hcs
  obtain ⟨left, rfl, hleft⟩ := exists_append_of_word (by decide) hcs
  have hdrop : (left ++ ' ' :: more).dropWhile isSpacing = second.toList ++ rest := by
    rw [← hleft, (stops_isSpacing_of_isName hname rest).dropWhile_append hspace]
  rw [List.dropWhile_append] at hdrop
  split_ifs at hdrop with hall
  · -- only space stands between the first word and the joint, so that the second word would start the continuation
    obtain ⟨c, hc, hhead⟩ := hmore.head?
    have hletters : ∀ c ∈ ['P', '\x7b', 'K'], isSpacing c = false := forall_mem_of_all (by decide)
    obtain ⟨more, rfl⟩ := List.head?_eq_some_iff.1 hhead
    rw [List.dropWhile_cons, if_pos (by decide), List.dropWhile_cons, hletters c hc, if_neg Bool.false_ne_true] at hdrop
    have hfirst : second.toList.head? = some c := by
      rcases hsecond with rfl | rfl <;> exact congrArg List.head? hdrop.symm
    rcases hsecond with rfl | rfl <;> cases hfirst <;> exact absurd hc (by decide)
  · obtain ⟨left', hleft', hrest⟩ := exists_append_of_word hblank hdrop
    have hsplit : left.takeWhile isSpacing ++ (second.toList ++ left') = left := by
      rw [← hleft', List.takeWhile_append_dropWhile]
    have hsame : space = left.takeWhile isSpacing := by
      rw [← hsplit, hrest, List.append_assoc, List.append_assoc] at hleft
      exact List.append_cancel_right hleft
    refine ⟨left', ?_, hne, hspace, atWordEnd_of_append (hrest ▸ hend)⟩
    rw [hsame, List.append_assoc, List.append_assoc, hsplit]

/-- Where a line with a continuation behind it starts like a continuation, so does the line alone. -/
theorem Continues.of_append {line more : List Char} (h : Continues (line ++ ' ' :: more)) (hmore : Continues more) :
    Continues line := by
  generalize hcs : line ++ ' ' :: more = cs at h
  cases h with
  | block hend =>
      obtain ⟨left, rfl, rfl⟩ := exists_append_of_word (by decide) hcs
      exact .block (atWordEnd_of_append hend)
  | brace rest =>
      cases line with
      | nil => cases hcs
      | cons c line =>
          cases hcs
          exact .brace line
  | branch hsecond hstarts =>
      obtain ⟨left, hleft⟩ := StartsWithPhrase.of_append hsecond (hcs ▸ hstarts) hmore
      exact .branch hsecond hleft

/-- A line of code and nothing else: there is no white space around it and no comment, and it ends outside of quotes. -/
structure CodeLine (line : List Char) : Prop where
  ne_nil : line ≠ []
  unbroken : ∀ c ∈ line, isLineBreak c = false
  first : ∀ c ∈ line.head?, isBlank c = false
  last : ∀ c ∈ line.getLast?, isBlank c = false
  closed : stateAfter none line = .code

namespace CodeLine

variable {line more : List Char}

theorem trim_eq (h : CodeLine line) : trim line = line := trim_eq_self h.first h.last

theorem codePart_eq (h : CodeLine line) : codePart line = line :=
  codePartFrom_of_stateAfter (by rw [h.closed]; decide)

/-- A continuation can be joined to a line of code. -/
theorem join (h : CodeLine line) (hmore : CodeLine more) (hcontinues : Continues more) :
    CodeLine (line ++ ' ' :: more) where
  ne_nil := List.append_ne_nil_of_left_ne_nil h.ne_nil _
  unbroken := List.forall_mem_append.2 ⟨h.unbroken, List.forall_mem_cons.2 ⟨rfl, hmore.unbroken⟩⟩
  first := by
    rw [List.head?_append_of_ne_nil _ h.ne_nil]
    exact h.first
  last := by
    obtain ⟨c, hc⟩ : ∃ c, more.getLast? = some c := ⟨_, List.getLast?_eq_some_getLast hmore.ne_nil⟩
    rw [List.getLast?_append, List.getLast?_cons, hc]
    rintro d ⟨⟩
    exact hmore.last _ hc
  closed := by
    obtain ⟨c, hc, hhead⟩ := hcontinues.head?
    have hletters : ∀ c ∈ ['P', '\x7b', 'K'], c ≠ ']' := forall_mem_of_all (by decide)
    have hbracket : more.head? ≠ some ']' := by
      rw [hhead]
      rintro ⟨⟩
      exact hletters _ hc rfl
    have hplain := stateAfter_plain (List.forall_mem_singleton.2 (isPlain_of_isBlank (c := ' ') rfl)) more
    rw [stateAfter_append rfl hbracket, h.closed]
    exact hplain.trans hmore.closed

end CodeLine

theorem MadeOf.unbroken {lines : List (List Char)} {source : List Char} (h : MadeOf lines source) :
    ∀ line ∈ lines, ∀ c ∈ line, isLineBreak c = false := by
  induction h with
  | nothing => exact List.forall_mem_nil _
  | last hline => exact List.forall_mem_singleton.2 hline
  | line hline _ _ ih => exact List.forall_mem_cons.2 ⟨hline, ih⟩

/-- Without its comment a line that closes its quotes ends outside of them. -/
theorem Closed.stateAfter_codePart {line : List Char} (h : Closed line) : stateAfter none (codePart line) = .code := by
  rw [codePart, stateAfter_codePartFrom]
  split_ifs with hcomment
  · rfl
  · cases hstate : stateAfter none line with
    | code => rfl
    | quoted quote => exact absurd hstate (h quote)
    | comment => exact absurd hstate hcomment

theorem trim_ends (cs : List Char) :
    (∀ c ∈ (trim cs).head?, isBlank c = false) ∧ ∀ c ∈ (trim cs).getLast?, isBlank c = false := by
  constructor
  · intro c hc
    have hprefix : trim cs <+: cs.dropWhile isBlank := List.rdropWhile_prefix isBlank _
    obtain ⟨rest, hrest⟩ := hprefix
    obtain ⟨more, hmore⟩ := List.head?_eq_some_iff.1 hc
    refine stops_dropWhile isBlank cs c ?_
    rw [← hrest, hmore]
    rfl
  · intro c hc
    have hne : trim cs ≠ [] := by
      intro hnil
      rw [hnil] at hc
      cases hc
    rw [List.getLast?_eq_some_getLast hne] at hc
    cases hc
    exact Bool.eq_false_iff.2 (List.rdropWhile_last_not _ _ hne)

theorem codeLine_of_mem {source : List Char} (hclosed : ∀ line ∈ splitLines source, Closed line) :
    ∀ line ∈ codeLines source, CodeLine line := by
  intro line hline
  obtain ⟨hkept, hne⟩ := List.mem_filter.1 hline
  obtain ⟨raw, hraw, rfl⟩ := List.mem_map.1 hkept
  obtain ⟨before, after, -, -, hsplit⟩ := exists_trim_eq (codePart raw)
  refine ⟨by simpa using hne, fun c hc => ?_, (trim_ends _).1, (trim_ends _).2,
    stateAfter_trim (hclosed raw hraw).stateAfter_codePart⟩
  refine (madeOf_splitLines source).unbroken raw hraw c ((codePartFrom_isPrefix none raw).subset ?_)
  change c ∈ codePart raw
  rw [hsplit]
  exact List.mem_append_right _ (List.mem_append_left _ hc)

/-- The lines of a normal form. -/
structure Normal (lines : List (List Char)) : Prop where
  codeLine : ∀ line ∈ lines, CodeLine line
  starts : ∀ line ∈ lines.tail, ¬Continues line

/-- Lines of code are joined to lines of a normal form. Only the one that was open at the start may start like a
continuation. -/
theorem gatherLines_normal {lines : List (List Char)} (h : ∀ line ∈ lines, CodeLine line) {current : List Char}
    (hcurrent : CodeLine current) :
    Normal (gatherLines current lines) ∧
      (¬Continues current → ∀ line ∈ gatherLines current lines, ¬Continues line) := by
  induction lines generalizing current with
  | nil =>
      refine ⟨⟨List.forall_mem_singleton.2 hcurrent, List.forall_mem_nil _⟩, fun hnot => ?_⟩
      exact List.forall_mem_singleton.2 hnot
  | cons line lines ih =>
      obtain ⟨hline, hlines⟩ := List.forall_mem_cons.1 h
      rw [gatherLines]
      split_ifs with hcontinues
      · rw [continuesStatement_iff] at hcontinues
        obtain ⟨hnormal, hstarts⟩ := ih hlines (hcurrent.join hline hcontinues)
        exact ⟨hnormal, fun hnot => hstarts fun hjoined => hnot (hjoined.of_append hcontinues)⟩
      · rw [continuesStatement_iff] at hcontinues
        obtain ⟨hnormal, hstarts⟩ := ih hlines hline
        exact ⟨⟨List.forall_mem_cons.2 ⟨hcurrent, hnormal.codeLine⟩, hstarts hcontinues⟩,
          fun hnot => List.forall_mem_cons.2 ⟨hnot, hstarts hcontinues⟩⟩

theorem joinContinued_normal {lines : List (List Char)} (h : ∀ line ∈ lines, CodeLine line) :
    Normal (joinContinued lines) := by
  cases lines with
  | nil => exact ⟨List.forall_mem_nil _, List.forall_mem_nil _⟩
  | cons line lines =>
      obtain ⟨hline, hlines⟩ := List.forall_mem_cons.1 h
      exact (gatherLines_normal hlines hline).1

theorem gatherLines_eq_cons {lines : List (List Char)} (h : ∀ line ∈ lines, ¬Continues line) (current : List Char) :
    gatherLines current lines = current :: lines := by
  induction lines generalizing current with
  | nil => rfl
  | cons line lines ih =>
      obtain ⟨hline, hlines⟩ := List.forall_mem_cons.1 h
      rw [gatherLines, if_neg (mt continuesStatement_iff.1 hline), ih hlines]

theorem gatherLines_ne_nil (current : List Char) (lines : List (List Char)) : gatherLines current lines ≠ [] := by
  induction lines generalizing current with
  | nil => exact List.cons_ne_nil _ _
  | cons line lines ih =>
      rw [gatherLines]
      split_ifs
      · exact ih _
      · exact List.cons_ne_nil _ _

theorem joinContinued_ne_nil {lines : List (List Char)} (h : lines ≠ []) : joinContinued lines ≠ [] := by
  obtain ⟨line, lines, rfl⟩ := List.exists_cons_of_ne_nil h
  exact gatherLines_ne_nil line lines

theorem splitLines_intercalate {lines : List (List Char)} (hne : lines ≠ [])
    (h : ∀ line ∈ lines, ∀ c ∈ line, isLineBreak c = false) :
    splitLines (List.intercalate ['\n'] lines ++ ['\n']) = lines := by
  induction lines with
  | nil => exact absurd rfl hne
  | cons line lines ih =>
      obtain ⟨hline, hlines⟩ := List.forall_mem_cons.1 h
      cases lines with
      | nil =>
          rw [List.intercalate_singleton, splitLines_line hline]
          rfl
      | cons next lines =>
          rw [List.intercalate_cons_cons, List.append_assoc, List.append_assoc, List.singleton_append,
            splitLines_line hline, ih (List.cons_ne_nil next lines) hlines]

namespace Normal

variable {lines : List (List Char)}

theorem joinContinued_eq (h : Normal lines) : joinContinued lines = lines := by
  cases lines with
  | nil => rfl
  | cons line lines => exact gatherLines_eq_cons h.starts line

theorem keptLines_eq (h : Normal lines) : keptLines lines = lines := by
  have hsame : (lines.map fun line => trim (codePart line)) = lines := by
    refine (List.map_congr_left fun line hline => ?_).trans (List.map_id lines)
    rw [(h.codeLine line hline).codePart_eq, (h.codeLine line hline).trim_eq]
    rfl
  rw [keptLines, hsame, List.filter_eq_self]
  intro line hline
  simpa using (h.codeLine line hline).ne_nil

/-- The lines of a normal form are found again, unless there are none. -/
theorem splitLines_eq (h : Normal lines) (hne : lines ≠ []) :
    splitLines (List.intercalate ['\n'] lines ++ ['\n']) = lines :=
  splitLines_intercalate hne fun line hline => (h.codeLine line hline).unbroken

theorem normalize_eq (h : Normal lines) :
    normalize (List.intercalate ['\n'] lines ++ ['\n']) = List.intercalate ['\n'] lines ++ ['\n'] := by
  by_cases hne : lines = []
  · subst hne
    rfl
  · have hcode : codeLines (List.intercalate ['\n'] lines ++ ['\n']) = lines := by
      change keptLines (splitLines _) = lines
      rw [h.splitLines_eq hne, h.keptLines_eq]
    rw [normalize, hcode, h.joinContinued_eq]

end Normal

/-- **The normal form of a source is its own normal form**, if no line of the source ends inside a quoted text. A source
without code has a single newline for its normal form. The lines of any other are not empty; they are trimmed and have
no comment, and none but the first starts like the continuation of another. -/
theorem normal_form_kept {source : List Char} (hclosed : ∀ line ∈ splitLines source, Closed line) :
    normalize (normalize source) = normalize source ∧ (codeLines source = [] → normalize source = ['\n']) ∧
      (codeLines source ≠ [] → ∀ line ∈ splitLines (normalize source), line ≠ []) ∧
      (∀ line ∈ splitLines (normalize source), trim line = line ∧ codePart line = line) ∧
      ∀ line ∈ (splitLines (normalize source)).tail, ¬Continues line := by
  have hnormal := joinContinued_normal (codeLine_of_mem hclosed)
  have hnothing (hcode : codeLines source = []) : normalize source = ['\n'] := by
    rw [normalize, hcode]
    rfl
  have hlines (hcode : codeLines source ≠ []) : splitLines (normalize source) = joinContinued (codeLines source) :=
    hnormal.splitLines_eq (joinContinued_ne_nil hcode)
  refine ⟨hnormal.normalize_eq, hnothing, fun hcode line hline => ?_, ?_⟩
  · rw [hlines hcode] at hline
    exact (hnormal.codeLine line hline).ne_nil
  · by_cases hcode : codeLines source = []
    · rw [hnothing hcode]
      exact ⟨List.forall_mem_singleton.2 ⟨rfl, rfl⟩, List.forall_mem_nil _⟩
    · rw [hlines hcode]
      refine ⟨fun line hline => ?_, hnormal.starts⟩
      exact ⟨(hnormal.codeLine line hline).trim_eq, (hnormal.codeLine line hline).codePart_eq⟩

/-- A source with comments and quotes in them, and with brackets, hyphens and quotes where lines are joined. -/
def jaggedSource : List Char :=
  "KUNG -- \"\n  PUNDOK\x7b '-' -\n\t-- it's\n\x7b ['] [\r\nKUNG\tWALA -\n x-\n-y --\n".toList

theorem normal_form_kept_jaggedSource :
    normalize jaggedSource = "KUNG PUNDOK\x7b '-' - \x7b ['] [ KUNG\tWALA -\nx-\n-y\n".toList ∧
      normalize (normalize jaggedSource) = normalize jaggedSource := by
  have hstates : ∀ line ∈ splitLines jaggedSource, stateAfter none line = .code ∨ stateAfter none line = .comment := by
    decide +kernel
  refine ⟨by decide +kernel, (normal_form_kept fun line hline quote hquoted => ?_).1⟩
  rcases hstates line hline with hstate | hstate
  · cases hstate.symm.trans hquoted
  · cases hstate.symm.trans hquoted

/-- The normal form of a source without lines has a line, and it is empty. -/
theorem normal_form_of_nothing :
    (∀ line ∈ splitLines [], Closed line) ∧ normalize [] = ['\n'] ∧ [] ∈ splitLines (normalize []) :=
  ⟨List.forall_mem_nil _, rfl, List.mem_singleton_self _⟩

end Binisaya
