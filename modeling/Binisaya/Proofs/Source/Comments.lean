import Binisaya.Proofs.Source.Layout
import Binisaya.Proofs.Source.Lexing

/-! Comments and tokens. Where a comment starts is told character by character, with no knowledge of tokens. Yet
wherever a token of a line begins, the line is outside of quotes and escapes, so that two hyphens inside a literal start
no comment and any others do. -/

namespace Binisaya

section Cons

variable {c : Char} {cs : List Char} (hescape : ∀ d rest, c = '[' → cs = d :: ']' :: rest → False)
  (hhyphens : ∀ rest, c = '-' → cs = '-' :: rest → False)

include hescape hhyphens

/-- A character that starts neither an escape nor a comment is code. -/
theorem codePartFrom_cons : codePartFrom none (c :: cs) = c :: codePartFrom (openedBy c) cs := by
  rw [codePartFrom]
  · exact hescape
  · exact hhyphens

theorem stateAfter_cons : stateAfter none (c :: cs) = stateAfter (openedBy c) cs := by
  rw [stateAfter]
  · exact hescape
  · exact hhyphens

end Cons

/-- Only the start of a comment is cut at. -/
theorem codePartFrom_of_stateAfter {quote? : Option Char} {cs : List Char} (h : stateAfter quote? cs ≠ .comment) :
    codePartFrom quote? cs = cs := by
  fun_induction stateAfter quote? cs with
  | case1 => rfl
  | case2 quote => rfl
  | case3 quote c cs ih => rw [codePartFrom, ih h]
  | case4 c cs ih => rw [codePartFrom, ih h]
  | case5 cs => exact absurd rfl h
  | case6 c cs hescape hhyphens ih => rw [codePartFrom_cons hescape hhyphens, ih h]

/-- What is cut off is a comment with the two hyphens that start it. -/
theorem codePartFrom_cut (quote? : Option Char) (cs : List Char) :
    codePartFrom quote? cs = cs ∨ ∃ comment, cs = codePartFrom quote? cs ++ '-' :: '-' :: comment := by
  fun_induction codePartFrom quote? cs with
  | case1 => exact .inl rfl
  | case2 quote c cs ih =>
      rcases ih with ih | ⟨comment, ih⟩
      · exact .inl (congrArg (c :: ·) ih)
      · exact .inr ⟨comment, congrArg (c :: ·) ih⟩
  | case3 c cs ih =>
      rcases ih with ih | ⟨comment, ih⟩
      · exact .inl (congrArg ('[' :: c :: ']' :: ·) ih)
      · exact .inr ⟨comment, congrArg ('[' :: c :: ']' :: ·) ih⟩
  | case4 comment => exact .inr ⟨comment, rfl⟩
  | case5 c cs hescape hhyphens ih =>
      rcases ih with ih | ⟨comment, ih⟩
      · exact .inl (congrArg (c :: ·) ih)
      · exact .inr ⟨comment, congrArg (c :: ·) ih⟩

theorem codePartFrom_isPrefix (quote? : Option Char) (cs : List Char) : codePartFrom quote? cs <+: cs := by
  rcases codePartFrom_cut quote? cs with hall | ⟨comment, hcut⟩
  · exact ⟨[], by rw [List.append_nil, hall]⟩
  · exact ⟨_, hcut.symm⟩

/-- Without its comment a line ends where the comment started, outside of quotes; nothing else changes. -/
theorem stateAfter_codePartFrom (quote? : Option Char) (cs : List Char) : stateAfter quote? (codePartFrom quote? cs) =
    if stateAfter quote? cs = .comment then .code else stateAfter quote? cs := by
  fun_induction stateAfter quote? cs with
  | case1 => rfl
  | case2 quote => rfl
  | case3 quote c cs ih => rw [codePartFrom, stateAfter, ih]
  | case4 c cs ih => rw [codePartFrom, stateAfter, ih]
  | case5 cs => rfl
  | case6 c cs hescape hhyphens ih =>
      -- what is left of the line has no escape and no pair of hyphens where the line has none
      obtain ⟨cut, hcut⟩ := codePartFrom_isPrefix (openedBy c) cs
      rw [codePartFrom_cons hescape hhyphens, stateAfter_cons, ih]
      · intro d rest hc hrest
        rw [hrest] at hcut
        exact hescape d (rest ++ cut) hc hcut.symm
      · intro rest hc hrest
        rw [hrest] at hcut
        exact hhyphens (rest ++ cut) hc hcut.symm

theorem codePartFrom_idempotent (quote? : Option Char) (cs : List Char) :
    codePartFrom quote? (codePartFrom quote? cs) = codePartFrom quote? cs := by
  apply codePartFrom_of_stateAfter
  rw [stateAfter_codePartFrom]
  split_ifs with hcomment
  · decide
  · exact hcomment

/-- Tells that a character has no part in where a comment starts. -/
def isPlain (c : Char) : Bool := c != '"' && c != '\'' && c != '[' && c != '-'

theorem isPlain_of_class {p : Char → Bool} (hdouble : p '"' = false) (hsingle : p '\'' = false)
    (hbracket : p '[' = false) (hhyphen : p '-' = false) {c : Char} (hc : p c = true) : isPlain c = true := by
  have hne {d : Char} (hd : p d = false) : c ≠ d := by
    rintro rfl
    rw [hc] at hd
    cases hd
  simp [isPlain, hne hdouble, hne hsingle, hne hbracket, hne hhyphen]

theorem stateAfter_plain {run : List Char} (h : ∀ c ∈ run, isPlain c = true) (rest : List Char) :
    stateAfter none (run ++ rest) = stateAfter none rest := by
  induction run with
  | nil => rfl
  | cons c run ih =>
      obtain ⟨hc, hrun⟩ := List.forall_mem_cons.1 h
      simp only [isPlain, Bool.and_eq_true, bne_iff_ne] at hc
      obtain ⟨⟨⟨hdouble, hsingle⟩, hbracket⟩, hhyphen⟩ := hc
      have hopened : openedBy c = none := if_neg (not_or.2 ⟨hdouble, hsingle⟩)
      rw [List.cons_append, stateAfter_cons, hopened, ih hrun]
      · exact fun _ _ hc => absurd hc hbracket
      · exact fun _ hc => absurd hc hhyphen

theorem stateAfter_hyphen {rest : List Char} (h : rest.head? ≠ some '-') :
    stateAfter none ('-' :: rest) = stateAfter none rest := by
  rw [stateAfter_cons]
  · rfl
  · exact fun _ _ hc => absurd hc (by decide)
  · rintro more - rfl
    exact h rfl

theorem stateAfter_quoted {quote : Char} {body : List Char} (h : ∀ c ∈ body, c ≠ quote) (rest : List Char) :
    stateAfter (some quote) (body ++ quote :: rest) = stateAfter none rest := by
  induction body with
  | nil => rw [List.nil_append, stateAfter, leftOpen, if_pos rfl]
  | cons c body ih =>
      obtain ⟨hc, hbody⟩ := List.forall_mem_cons.1 h
      rw [List.cons_append, stateAfter, leftOpen, if_neg hc, ih hbody]

theorem isPlain_of_inName {c : Char} (h : inName c = true) : isPlain c = true :=
  isPlain_of_class (by decide) (by decide) (by decide) (by decide) h

theorem isPlain_of_isSpacing {c : Char} (h : isSpacing c = true) : isPlain c = true :=
  isPlain_of_class (by decide) (by decide) (by decide) (by decide) h

theorem isPlain_of_isScriptDigit {c : Char} (h : isScriptDigit c = true) : isPlain c = true :=
  isPlain_of_class (by decide) (by decide) (by decide) (by decide) h

theorem isPlain_of_isName {name : List Char} (h : isName name = true) : ∀ c ∈ name, isPlain c = true :=
  fun c hc => isPlain_of_inName (inName_of_isName h c hc)

/-- A token, be it a literal or not, leaves a line that is outside of quotes outside of them, as long as it does not
start a comment together with what follows. -/
theorem Spelled.stateAfter_append {t : Token} {text after rest : List Char} (h : Spelled t text after)
    (hhyphens : text = ['-'] → rest.head? ≠ some '-') : stateAfter none (text ++ rest) = stateAfter none rest := by
  cases h with
  | keyword hmem => exact stateAfter_plain (isPlain_of_isName (isName_keyword hmem)) rest
  | typeWord w => exact stateAfter_plain (isPlain_of_isName (isName_spelling w)) rest
  | phrase hmem _ hspace =>
      obtain ⟨hfirst, hsecond⟩ := isName_phrase hmem
      refine stateAfter_plain (List.forall_mem_append.2 ⟨List.forall_mem_append.2 ⟨?_, ?_⟩, ?_⟩) rest
      · exact isPlain_of_isName hfirst
      · exact fun c hc => isPlain_of_isSpacing (hspace c hc)
      · exact isPlain_of_isName hsecond
  | @pair a b t hmem =>
      have hall : ∀ e ∈ symbolPairs, isPlain e.1 = true ∧ isPlain e.2.1 = true := by decide
      exact stateAfter_plain (by simpa using hall _ hmem) rest
  | @symbol c t hmem =>
      have hall : ∀ e ∈ symbolChars, isPlain e.1 = true ∨ e.1 = '-' := by decide
      rcases hall _ hmem with hplain | rfl
      · exact stateAfter_plain (List.forall_mem_singleton.2 hplain) rest
      · exact stateAfter_hyphen (hhyphens rfl)
  | whole _ hdigits => exact stateAfter_plain (fun c hc => isPlain_of_isScriptDigit (hdigits c hc)) rest
  | decimal _ _ hwhole hfraction =>
      refine stateAfter_plain (List.forall_mem_append.2 ⟨?_, List.forall_mem_cons.2 ⟨rfl, ?_⟩⟩) rest
      · exact fun c hc => isPlain_of_isScriptDigit (hwhole c hc)
      · exact fun c hc => isPlain_of_isScriptDigit (hfraction c hc)
  | @text body hbody =>
      have hquote : ∀ c ∈ body, c ≠ '"' := by
        rintro c hc rfl
        exact absurd (hbody '"' hc) (by decide)
      rw [List.cons_append, List.cons_append, List.append_assoc, List.singleton_append]
      exact stateAfter_quoted hquote rest
  | char hquote => exact stateAfter_quoted (List.forall_mem_singleton.2 hquote) rest
  | escape => rfl
  | lineEnd _ hbreaks =>
      refine stateAfter_plain (fun c hc => ?_) rest
      obtain ⟨b, hb, hcb⟩ := List.mem_flatten.1 hc
      have hline : ∀ d ∈ ['\r', '\n'], isPlain d = true := forall_mem_of_all (by decide)
      apply hline
      rcases hbreaks b hb with rfl | rfl
      · exact List.mem_cons_of_mem _ hcb
      · exact hcb
  | ident hname => exact stateAfter_plain (isPlain_of_isName hname) rest

theorem spread_cons (tile : Tile) (tiles : List Tile) :
    spread (tile :: tiles) = tile.space ++ (tile.lexeme.text ++ spread tiles) := by
  rw [spread, List.flatMap_cons, List.append_assoc]
  rfl

theorem spread_append (tiles tiles' : List Tile) : spread (tiles ++ tiles') = spread tiles ++ spread tiles' :=
  List.flatMap_append

/-- A line of tokens is outside of quotes at its end if no two hyphens meet there. -/
theorem stateAfter_spread {tiles : List Tile} {space : List Char}
    (hspaces : ∀ tile ∈ tiles, ∀ c ∈ tile.space, isSpacing c = true) (hspace : ∀ c ∈ space, isSpacing c = true)
    (htokens : ∀ before tile after, tiles = before ++ tile :: after →
      Spelled tile.lexeme.token tile.lexeme.text (spread after ++ space) ∧
        (tile.lexeme.text = ['-'] → (spread after ++ space).head? ≠ some '-')) :
    stateAfter none (spread tiles ++ space) = .code := by
  induction tiles with
  | nil =>
      have hplain := stateAfter_plain (fun c hc => isPlain_of_isSpacing (hspace c hc)) []
      rwa [List.append_nil] at hplain
  | cons tile tiles ih =>
      obtain ⟨hfirst, hmore⟩ := List.forall_mem_cons.1 hspaces
      obtain ⟨hspelled, hhyphens⟩ := htokens [] tile tiles rfl
      rw [spread_cons, List.append_assoc, List.append_assoc,
        stateAfter_plain fun c hc => isPlain_of_isSpacing (hfirst c hc), hspelled.stateAfter_append hhyphens]
      refine ih hmore fun before tile' after htiles => ?_
      exact htokens (tile :: before) tile' after (congrArg (tile :: ·) htiles)

theorem Position.after_eq {cs : List Char} (h : '\n' ∉ cs) (p : Position) :
    p.after cs = ⟨p.line, p.column + cs.length⟩ := by
  induction cs generalizing p with
  | nil => rfl
  | cons c cs ih =>
      obtain ⟨hc, hcs⟩ := not_or.1 (mt List.mem_cons.2 h)
      have hnext : p.next c = ⟨p.line, p.column + 1⟩ := if_neg (Ne.symm hc)
      change (p.next c).after cs = _
      rw [ih hcs, hnext, List.length_cons, Nat.add_right_comm, Nat.add_assoc]

/-- On one line, columns count characters. -/
theorem column_append {before more : List Char} (h : (placeAfter (before ++ more)).line = (placeAfter before).line) :
    (placeAfter (before ++ more)).column = (placeAfter before).column + more.length := by
  have hcount : more.count '\n' = 0 := by
    simp only [placeAfter, List.count_append] at h
    omega
  rw [placeAfter_append, Position.after_eq (List.count_eq_zero.1 hcount)]

theorem column_add_length {cs before before' : List Char} (h : before <+: cs) (h' : before' <+: cs)
    (hline : (placeAfter before).line = (placeAfter before').line) :
    (placeAfter before).column + before'.length = (placeAfter before').column + before.length := by
  rcases List.prefix_or_prefix_of_prefix h h' with ⟨more, rfl⟩ | ⟨more, rfl⟩
  · rw [column_append hline.symm, List.length_append]
    omega
  · rw [column_append hline, List.length_append]
    omega

/-- The characters at a place and behind it, so many of them, are part of a token. -/
def Lexeme.Covers (l : Lexeme) (p : Position) (n : Nat) : Prop :=
  l.start.line = p.line ∧ l.start.column ≤ p.column ∧ p.column + n ≤ l.start.column + l.text.length

instance (l : Lexeme) (p : Position) (n : Nat) : Decidable (l.Covers p n) :=
  inferInstanceAs (Decidable (_ ∧ _ ∧ _))

/-- The number of characters before the token of a tile. -/
def offset (before : List Tile) (tile : Tile) : Nat := (spread before ++ tile.space).length

/-- A place belongs to no more than one token. -/
theorem tile_eq_of_offset {before before' after after' : List Tile} {tile tile' : Tile}
    (htiles : before ++ tile :: after = before' ++ tile' :: after') (hne : tile.lexeme.text ≠ [])
    (hle : offset before' tile' ≤ offset before tile)
    (hlt : offset before tile < offset before' tile' + tile'.lexeme.text.length) : tile = tile' := by
  have hpos := List.length_pos_iff.2 hne
  simp only [offset, List.length_append] at hle hlt
  rcases List.append_eq_append_iff.1 htiles with ⟨between, rfl, hrest⟩ | ⟨between, rfl, hrest⟩
  · cases between with
    | nil => exact (List.cons.inj hrest).1
    | cons first between =>
        obtain ⟨rfl, -⟩ := List.cons.inj hrest
        rw [spread_append, spread_cons] at hle
        simp only [List.length_append] at hle
        omega
  · cases between with
    | nil => exact (List.cons.inj hrest).1.symm
    | cons first between =>
        obtain ⟨rfl, -⟩ := List.cons.inj hrest
        rw [spread_append, spread_cons] at hlt
        simp only [List.length_append] at hlt
        omega

/-- Tells that a token is a literal between quotes or brackets. -/
def Token.isEnclosed : Token → Bool
  | text _ | char _ | escape _ => true
  | _ => false

/-- Wherever two hyphens stand in a text, they are part of a literal. -/
def HyphensEnclosed (cs : List Char) : Prop :=
  ∀ i < cs.length, cs[i]? = some '-' → cs[i + 1]? = some '-' →
    ∃ l ∈ (scan cs).lexemes, l.token.isEnclosed = true ∧ l.Covers (placeAfter (cs.take i)) 2

instance (cs : List Char) : Decidable (HyphensEnclosed cs) :=
  inferInstanceAs (Decidable (∀ i < cs.length, _ → _ → ∃ l ∈ (scan cs).lexemes, _ ∧ _))

section Tiles

variable {cs space rest : List Char} {s : Scanned} {tiles before after : List Tile} {tile : Tile}

theorem Tiling.text_eq (h : Tiling [] cs s tiles space rest) (htiles : tiles = before ++ tile :: after) :
    cs = (spread before ++ tile.space) ++ (tile.lexeme.text ++ (spread after ++ (space ++ rest))) := by
  rw [h.text, htiles, spread_append, spread_cons]
  simp only [List.append_assoc]

/-- The characters that a token covers, counted from the start of the text. -/
theorem Tiling.offset_of_covers (h : Tiling [] cs s tiles space rest) (htiles : tiles = before ++ tile :: after)
    {start : List Char} (hstart : start <+: cs) {n : Nat} (hcovers : tile.lexeme.Covers (placeAfter start) n) :
    offset before tile ≤ start.length ∧ start.length + n ≤ offset before tile + tile.lexeme.text.length := by
  have hplace : tile.lexeme.start = placeAfter (spread before ++ tile.space) := (h.token before tile after htiles).1
  have hbefore : spread before ++ tile.space <+: cs := ⟨_, (h.text_eq htiles).symm⟩
  obtain ⟨hline, hfirst, hlast⟩ := hcovers
  rw [hplace] at hline hfirst hlast
  have hcolumns := column_add_length hbefore hstart hline
  rw [offset]
  omega

/-- Where all pairs of hyphens are in literals, no hyphen that is a token stands before another. -/
theorem Tiling.head?_ne_hyphen (h : Tiling [] cs (scan cs) tiles space rest) (hhyphens : HyphensEnclosed cs)
    (htiles : tiles = before ++ tile :: after) (hhyphen : tile.lexeme.text = ['-']) :
    (spread after ++ (space ++ rest)).head? ≠ some '-' := by
  intro hnext
  obtain ⟨more, hmore⟩ := List.head?_eq_some_iff.1 hnext
  have htext := h.text_eq htiles
  rw [hhyphen, hmore] at htext
  generalize hstart : spread before ++ tile.space = start at htext
  have htake : cs.take start.length = start := by rw [htext, List.take_left]
  obtain ⟨l, hl, -, hcovers⟩ := hhyphens start.length (by simp [htext]) (by simp [htext]) (by simp [htext])
  rw [h.lexemes, List.mem_map] at hl
  obtain ⟨tile', hmem, rfl⟩ := hl
  obtain ⟨before', after', htiles'⟩ := List.append_of_mem hmem
  rw [htake] at hcovers
  obtain ⟨hle, hge⟩ := h.offset_of_covers htiles' ⟨_, htext.symm⟩ hcovers
  -- the literal would be the hyphen itself, which is too short
  have hoffset : offset before tile = start.length := congrArg List.length hstart
  obtain rfl : tile = tile' :=
    tile_eq_of_offset (htiles.symm.trans htiles') (by simp [hhyphen]) (by omega) (by omega)
  rw [hhyphen, List.length_singleton] at hge
  omega

end Tiles

/-- A text of tokens with all its pairs of hyphens in literals is outside of quotes and comments at its end. -/
theorem stateAfter_of_scan {cs : List Char} (hstuck : (scan cs).stuck = none) (hhyphens : HyphensEnclosed cs) :
    stateAfter none cs = .code := by
  obtain ⟨tiles, space, rest, h⟩ := scan_tiling cs
  obtain rfl : rest = [] := by
    by_contra hrest
    rw [h.stuck, if_neg hrest] at hstuck
    cases hstuck
  have htext := h.text
  rw [List.append_nil] at htext
  rw [htext]
  refine stateAfter_spread h.spaces h.lastSpace fun before tile after htiles => ?_
  have hscan := (h.token before tile after htiles).2
  have hnext := h.head?_ne_hyphen hhyphens htiles
  rw [List.append_nil] at hscan hnext
  exact ⟨spelled_of_scanToken? hscan, hnext⟩

/-- **Comments are told as tokens are.** A line that is scanned to its end and has two hyphens only inside of literals
is all code, and if a blank and a comment follow it, it is kept with the blank, whatever is in the literals and in the
comment. Of any line at all a start is kept: all of it, or what stands before two hyphens; and that has no comment. -/
theorem comments_agree_with_tokens :
    (∀ line, (scan line).stuck = none → HyphensEnclosed line →
        codePart line = line ∧ ∀ comment, codePart (line ++ ' ' :: '-' :: '-' :: comment) = line ++ [' ']) ∧
      ∀ line, codePart line <+: line ∧
        (codePart line = line ∨ ∃ comment, line = codePart line ++ '-' :: '-' :: comment) ∧
        codePart (codePart line) = codePart line := by
  refine ⟨fun line hstuck hhyphens => ?_, fun line =>
    ⟨codePartFrom_isPrefix none line, codePartFrom_cut none line, codePartFrom_idempotent none line⟩⟩
  have hstate := stateAfter_of_scan hstuck hhyphens
  have hline : codePartFrom none line = line := codePartFrom_of_stateAfter (by rw [hstate]; decide)
  refine ⟨hline, fun comment => ?_⟩
  rw [codePart, codePartFrom_append rfl (by simp), hline, hstate]
  rfl

/-- A line with hyphens, quotes and brackets inside of literals, and hyphens with a blank between them. -/
def hostileLine : List Char := "IPAKITA: \"--'[\" & '\"' & [-] & ['] - -x".toList

theorem comments_agree_with_tokens_hostileLine :
    codePart "IPAKITA: \"--'[\" & '\"' & [-] & ['] - -x".toList = hostileLine ∧
      codePart "IPAKITA: \"--'[\" & '\"' & [-] & ['] - -x --\" [-]".toList = hostileLine ++ [' '] := by
  have hstuck : (scan hostileLine).stuck = none := by decide +kernel
  have hhyphens : HyphensEnclosed hostileLine := by decide +kernel
  obtain ⟨hline, hcomment⟩ := comments_agree_with_tokens.1 hostileLine hstuck hhyphens
  exact ⟨hline, hcomment "\" [-]".toList⟩

end Binisaya
