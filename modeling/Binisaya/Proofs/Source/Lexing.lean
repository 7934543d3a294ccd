import Binisaya.Proofs.Source.Terminals

/-! Scanning a text takes it apart without loss: the tokens, with the blanks and tabs between them, make up the text
again, each token stands where its place says, and each is the longest that can be written there. Where scanning stops
before the end, no token can be written. -/

namespace Binisaya

/-- The place after a text: the lines before it count, and the characters since the last of them. -/
def placeAfter (before : List Char) : Position :=
  ⟨before.count '\n' + 1, (before.reverse.takeWhile (· != '\n')).length + 1⟩

theorem placeAfter_concat (before : List Char) (c : Char) : placeAfter (before ++ [c]) = (placeAfter before).next c := by
  by_cases hc : c = '\n'
  · subst hc
    simp [placeAfter, Position.next]
  · simp [placeAfter, Position.next, hc, List.count_append]

theorem placeAfter_append (before cs : List Char) : placeAfter (before ++ cs) = (placeAfter before).after cs := by
  induction cs generalizing before with
  | nil => rw [List.append_nil]; rfl
  | cons c cs ih => rw [List.append_cons, ih, placeAfter_concat]; rfl

/-- A token of a text with the blanks and tabs in front of it. -/
structure Tile where
  space : List Char
  lexeme : Lexeme

/-- The text that tiles make up. -/
def spread (tiles : List Tile) : List Char := tiles.flatMap fun tile => tile.space ++ tile.lexeme.text

/-- A scanned text as tiles, some space and a rest; `done` is the text before it. -/
structure Tiling (done cs : List Char) (s : Scanned) (tiles : List Tile) (space rest : List Char) : Prop where
  lexemes : s.lexemes = tiles.map Tile.lexeme
  text : cs = spread tiles ++ (space ++ rest)
  spaces : ∀ tile ∈ tiles, ∀ c ∈ tile.space, isSpacing c = true
  lastSpace : ∀ c ∈ space, isSpacing c = true
  token : ∀ before tile after, tiles = before ++ tile :: after →
    tile.lexeme.start = placeAfter (done ++ (spread before ++ tile.space)) ∧
      scanToken? (tile.lexeme.text ++ (spread after ++ (space ++ rest))) =
        some (tile.lexeme.token, tile.lexeme.text)
  stuck : s.stuck = if rest = [] then none else some (placeAfter (done ++ (spread tiles ++ space)))
  stops : Stops isSpacing rest
  unread : rest ≠ [] → scanToken? rest = none

/-- No tile, where scanning stops. -/
theorem tiling_nil {done space rest : List Char} (hspace : ∀ c ∈ space, isSpacing c = true)
    (hstops : Stops isSpacing rest) (hunread : rest ≠ [] → scanToken? rest = none) :
    Tiling done (space ++ rest) ⟨[], if rest = [] then none else some (placeAfter (done ++ space))⟩ [] space rest where
  lexemes := rfl
  text := rfl
  spaces := List.forall_mem_nil _
  lastSpace := hspace
  token := fun before _ _ htiles => absurd htiles.symm (List.append_ne_nil_of_right_ne_nil before (List.cons_ne_nil _ _))
  stuck := rfl
  stops := hstops
  unread := hunread

/-- One more tile in front. -/
theorem Tiling.cons {done cs space rest sp text : List Char} {s : Scanned} {tiles : List Tile} {t : Token}
    (h : Tiling (done ++ sp ++ text) cs s tiles space rest) (hsp : ∀ c ∈ sp, isSpacing c = true)
    (htoken : scanToken? (text ++ cs) = some (t, text)) :
    Tiling done (sp ++ (text ++ cs)) { s with lexemes := ⟨t, text, placeAfter (done ++ sp)⟩ :: s.lexemes }
      (⟨sp, t, text, placeAfter (done ++ sp)⟩ :: tiles) space rest where
  lexemes := congrArg (_ :: ·) h.lexemes
  text := by
    rw [spread, List.flatMap_cons, ← spread, List.append_assoc, List.append_assoc, ← h.text]
  spaces := List.forall_mem_cons.2 ⟨hsp, h.spaces⟩
  lastSpace := h.lastSpace
  token := by
    intro before tile after htiles
    cases before with
    | nil =>
        cases htiles
        refine ⟨rfl, ?_⟩
        rw [← h.text]
        exact htoken
    | cons first before =>
        obtain ⟨hfirst, hmore⟩ := List.cons.inj htiles
        subst hfirst
        obtain ⟨hstart, hscan⟩ := h.token before tile after hmore
        refine ⟨?_, hscan⟩
        rw [hstart, spread, spread, List.flatMap_cons]
        simp only [List.append_assoc]
  stuck := by
    rw [h.stuck, spread, spread, List.flatMap_cons]
    simp only [List.append_assoc]
  stops := h.stops
  unread := h.unread

theorem scanFrom_tiling {n : Nat} {done cs : List Char} (hn : cs.length < n) :
    ∃ tiles space rest, Tiling done cs (scanFrom n (placeAfter done) cs) tiles space rest := by
  induction n generalizing done cs with
  | zero => exact absurd hn (Nat.not_lt_zero _)
  | succ n ih =>
      have hsplit : cs = cs.takeWhile isSpacing ++ cs.dropWhile isSpacing := List.takeWhile_append_dropWhile.symm
      have hspace : ∀ c ∈ cs.takeWhile isSpacing, isSpacing c = true := fun c hc => List.mem_takeWhile_imp hc
      have hplace := placeAfter_append done (cs.takeWhile isSpacing)
      have hstops := stops_dropWhile isSpacing cs
      rw [scanFrom, ← hplace]
      by_cases hhere : cs.dropWhile isSpacing = []
      · have hnil := @tiling_nil done _ _ hspace hstops (fun hne => absurd hhere hne)
        rw [← hsplit, if_pos hhere] at hnil
        rw [hhere, List.isEmpty_nil, if_pos rfl]
        exact ⟨[], _, _, hnil⟩
      · rw [if_neg (by rwa [List.isEmpty_iff])]
        cases htoken : scanToken? (cs.dropWhile isSpacing) with
        | none =>
            have hnil := @tiling_nil done _ _ hspace hstops (fun _ => htoken)
            rw [← hsplit, if_neg hhere] at hnil
            exact ⟨[], _, _, hnil⟩
        | some r =>
            obtain ⟨t, text⟩ := r
            obtain ⟨rest, hrest, hspelled⟩ := scanToken?_spelled htoken
            have hlength : rest.length < n := by
              have := List.length_pos_iff.2 hspelled.text_ne_nil
              rw [hsplit, hrest] at hn
              simp only [List.length_append] at hn
              omega
            obtain ⟨tiles, space, unread, htiling⟩ := @ih (done ++ cs.takeWhile isSpacing ++ text) rest hlength
            rw [hrest] at htoken
            have hcons := htiling.cons hspace htoken
            rw [← hrest, ← hsplit] at hcons
            simp only [hrest, List.drop_left, ← placeAfter_append]
            exact ⟨_, space, unread, hcons⟩

/-- The kinds of tokens that are told apart by how they are written. -/
inductive TokenKind where
  | keyword
  | typeWord
  | phrase
  | symbol
  | literal
  | lineEnd
  | ident
deriving DecidableEq

def Token.kind : Token → TokenKind
  | sugod | katapusan | mugna | ipakita | dawat | kung | samtang | pundok | dili | operator .and | operator .or =>
    .keyword
  | typeWord _ => .typeWord
  | kungDili | kungWala | alangSa => .phrase
  | operator _ | colon | comma | equals | leftParen | rightParen | leftBrace | rightBrace | newline => .symbol
  | number _ | text _ | char _ | escape _ => .literal
  | lineEnd => .lineEnd
  | ident _ => .ident

section Kinds

variable {t : Token} {text rest : List Char}

theorem kind_keyword {word : String} (h : (word, t) ∈ keywords) : t.kind = .keyword := by
  have hall : ∀ e ∈ keywords, e.2.kind = .keyword := by decide
  exact hall (word, t) h

theorem kind_phrase {first second : String} (h : (first, second, t) ∈ phrases) : t.kind = .phrase := by
  have hall : ∀ e ∈ phrases, e.2.2.kind = .phrase := by decide
  exact hall (first, second, t) h

theorem kind_pair {a b : Char} (h : (a, b, t) ∈ symbolPairs) : t.kind = .symbol := by
  have hall : ∀ e ∈ symbolPairs, e.2.2.kind = .symbol := by decide
  exact hall (a, b, t) h

theorem kind_symbol {c : Char} (h : (c, t) ∈ symbolChars) : t.kind = .symbol := by
  have hall : ∀ e ∈ symbolChars, e.2.kind = .symbol := by decide
  exact hall (c, t) h

/-- A token of one kind is written in the way of that kind. -/
theorem Spelled.of_kind (h : Spelled t text rest) :
    match t.kind with
    | .keyword => ∃ word, (word, t) ∈ keywords ∧ text = word.toList
    | .typeWord => ∃ w, t = .typeWord w ∧ text = w.spelling.toList ∧ atWordEnd rest = true
    | .phrase => ∃ first second space, (first, second, t) ∈ phrases ∧ text = first.toList ++ space ++ second.toList ∧
        StartsWithPhrase first second space rest (text ++ rest)
    | .ident => t = .ident (.ofList text) ∧ isName text = true
    | _ => True := by
  cases h with
  | @keyword word t hmem =>
      rw [kind_keyword hmem]
      exact ⟨word, hmem, rfl⟩
  | typeWord w hend => exact ⟨w, rfl, rfl, hend⟩
  | @phrase first second t hmem space rest hne hspace hend =>
      rw [kind_phrase hmem]
      exact ⟨first, second, space, hmem, rfl, rfl, hne, hspace, hend⟩
  | pair hmem => rw [kind_pair hmem]; trivial
  | symbol hmem => rw [kind_symbol hmem]; trivial
  | ident hname => exact ⟨rfl, hname⟩
  | whole | decimal | text | char | escape | lineEnd => trivial

end Kinds

/-- A token is the one to take where a text and then another stand: it is written as the first, no token is written as
a longer one, and it is no name if another token is written the same way. A keyword or the word of a type is taken as
such exactly if it is all of the name there; the word of a type moreover ends as a word. -/
structure TokenAt (t : Token) (text after : List Char) : Prop where
  spelled : Spelled t text after
  longest : ∀ {u text' after'}, Spelled u text' after' → text' ++ after' = text ++ after → text'.length ≤ text.length
  preferred : ∀ {u}, Spelled u text after → u = t ∨ ∃ name, u = .ident name
  keyword_iff : ∀ {word u}, (word, u) ∈ keywords →
    (t = u ↔ text = word.toList ∧ (text ++ after).takeWhile inName = word.toList)
  typeWord_iff : ∀ {w : TypeWord}, t = .typeWord w ↔
    text = w.spelling.toList ∧ (text ++ after).takeWhile inName = w.spelling.toList ∧ atWordEnd after = true
  phrase_iff : ∀ {first second u}, (first, second, u) ∈ phrases →
    (t = u ↔ ∃ space rest, StartsWithPhrase first second space rest (text ++ after))
  ident_iff : ∀ {name : String}, t = .ident name ↔
    text = name.toList ∧ (text ++ after).takeWhile inName = name.toList ∧ isName text = true ∧
      (∀ u, (name, u) ∉ keywords) ∧ ∀ w : TypeWord, name = w.spelling → atWordEnd after = false

section Choice

variable {t : Token} {text after : List Char}

theorem spelled_of_scanToken? (h : scanToken? (text ++ after) = some (t, text)) : Spelled t text after := by
  obtain ⟨rest, hrest, hspelled⟩ := scanToken?_spelled h
  rwa [List.append_cancel_left hrest]

theorem longest_of_scanToken? (h : scanToken? (text ++ after) = some (t, text)) {u : Token} {text' after' : List Char}
    (hspelled : Spelled u text' after') (hsame : text' ++ after' = text ++ after) :
    text'.length ≤ text.length ∧ (text'.length = text.length → u = t ∨ ∃ name, u = .ident name) := by
  obtain ⟨t', longer, hscan, hle, htie⟩ := hspelled.exists_scanToken?
  rw [hsame, h] at hscan
  cases hscan
  exact ⟨hle, htie⟩

/-- A token that is written like a name is all of the name that stands there. -/
theorem takeWhile_inName_of_scanToken? (h : scanToken? (text ++ after) = some (t, text)) (hname : isName text = true) :
    (text ++ after).takeWhile inName = text := by
  have hspelled := Spelled.ident (isName_takeWhile_append hname after) ((text ++ after).dropWhile inName)
  have hle := (longest_of_scanToken? h hspelled List.takeWhile_append_dropWhile).1
  have htake : (text ++ after).takeWhile inName = text ++ after.takeWhile inName :=
    List.takeWhile_append_of_pos (inName_of_isName hname)
  rw [htake, List.length_append] at hle
  rw [htake, List.eq_nil_of_length_eq_zero (by omega : (after.takeWhile inName).length = 0), List.append_nil]

theorem keyword_iff_of_scanToken? (h : scanToken? (text ++ after) = some (t, text)) {word : String} {u : Token}
    (hmem : (word, u) ∈ keywords) :
    t = u ↔ text = word.toList ∧ (text ++ after).takeWhile inName = word.toList := by
  constructor
  · rintro rfl
    have hkind := (spelled_of_scanToken? h).of_kind
    rw [kind_keyword hmem] at hkind
    obtain ⟨word', hmem', rfl⟩ := hkind
    have hinjective : ∀ e ∈ keywords, ∀ e' ∈ keywords, e.2 = e'.2 → e.1 = e'.1 := by decide
    obtain rfl : word' = word := hinjective _ hmem' _ hmem rfl
    exact ⟨rfl, takeWhile_inName_of_scanToken? h (isName_keyword hmem)⟩
  · rintro ⟨rfl, -⟩
    rcases (longest_of_scanToken? h (.keyword hmem after) rfl).2 rfl with hsame | ⟨name, rfl⟩
    · exact hsame.symm
    · cases kind_keyword hmem

theorem typeWord_iff_of_scanToken? (h : scanToken? (text ++ after) = some (t, text)) {w : TypeWord} :
    t = .typeWord w ↔
      text = w.spelling.toList ∧ (text ++ after).takeWhile inName = w.spelling.toList ∧ atWordEnd after = true := by
  constructor
  · rintro rfl
    obtain ⟨w', hw, rfl, hend⟩ := (spelled_of_scanToken? h).of_kind
    cases hw
    exact ⟨rfl, takeWhile_inName (isName_spelling w) hend, hend⟩
  · rintro ⟨rfl, -, hend⟩
    rcases (longest_of_scanToken? h (.typeWord w hend) rfl).2 rfl with hsame | ⟨name, hname⟩
    · exact hsame.symm
    · cases hname

theorem phrase_iff_of_scanToken? (h : scanToken? (text ++ after) = some (t, text)) {first second : String} {u : Token}
    (hmem : (first, second, u) ∈ phrases) :
    t = u ↔ ∃ space rest, StartsWithPhrase first second space rest (text ++ after) := by
  constructor
  · rintro rfl
    have hkind := (spelled_of_scanToken? h).of_kind
    rw [kind_phrase hmem] at hkind
    obtain ⟨first', second', space, hmem', -, hstarts⟩ := hkind
    have hinjective : ∀ e ∈ phrases, ∀ e' ∈ phrases, e.2.2 = e'.2.2 → e = e' := by decide
    cases hinjective _ hmem' _ hmem rfl
    exact ⟨space, after, hstarts⟩
  · rintro ⟨space, rest, hstarts⟩
    have hscan : scanToken? (text ++ after) = some (scanWord (text ++ after)) := by
      have hname := scanToken?_name (isName_phrase hmem).1 (space ++ (second.toList ++ rest))
      rwa [← List.append_assoc, ← List.append_assoc, ← hstarts.1] at hname
    rw [hscan, scanWord_phrase hmem hstarts] at h
    cases h
    rfl

theorem ident_iff_of_scanToken? (h : scanToken? (text ++ after) = some (t, text)) {name : String} :
    t = .ident name ↔ text = name.toList ∧ (text ++ after).takeWhile inName = name.toList ∧ isName text = true ∧
      (∀ u, (name, u) ∉ keywords) ∧ ∀ w : TypeWord, name = w.spelling → atWordEnd after = false := by
  constructor
  · rintro rfl
    obtain ⟨hident, hname⟩ := (spelled_of_scanToken? h).of_kind
    obtain rfl : text = name.toList := by
      rw [Token.ident.inj hident, String.toList_ofList]
    refine ⟨rfl, takeWhile_inName_of_scanToken? h hname, hname, fun u hmem => ?_, ?_⟩
    · rw [← (keyword_iff_of_scanToken? h hmem).2 ⟨rfl, takeWhile_inName_of_scanToken? h hname⟩] at hmem
      cases kind_keyword hmem
    · rintro w rfl
      refine Bool.eq_false_iff.2 fun hend => ?_
      cases (typeWord_iff_of_scanToken? h).2 ⟨rfl, takeWhile_inName (isName_spelling w) hend, hend⟩
  · rintro ⟨rfl, htake, hname, hkeyword, htype⟩
    rw [scanToken?_name hname] at h
    rcases scanWord_cases (name.toList ++ after) with ⟨w, rest, hcs, hend, hword⟩ |
      ⟨first, second, u, space, rest, hmem, hstarts, hword⟩ | ⟨-, -, hword⟩
    · rw [hword] at h
      obtain ⟨-, hspelling⟩ := Prod.mk.inj (Option.some.inj h)
      rw [hspelling] at hcs
      rw [List.append_cancel_left hcs, hend] at htype
      cases htype w (String.toList_inj.1 hspelling.symm)
    · -- the token would be longer than the name
      rw [hword] at h
      obtain ⟨-, hphrase⟩ := Prod.mk.inj (Option.some.inj h)
      have hspace := List.length_pos_iff.2 hstarts.2.1
      have hlength := congrArg List.length (hphrase.trans htake.symm)
      rw [hstarts.takeWhile_inName (isName_phrase hmem).1] at hlength
      simp only [List.length_append] at hlength
      omega
    · rw [hword, htake] at h
      obtain ⟨rfl, -⟩ := Prod.mk.inj (Option.some.inj h)
      have hcases := wordToken_cases name.toList
      rw [String.ofList_toList] at hcases
      exact hcases.resolve_left (hkeyword _)

end Choice

theorem tokenAt_of_scanToken? {t : Token} {text after : List Char} (h : scanToken? (text ++ after) = some (t, text)) :
    TokenAt t text after where
  spelled := spelled_of_scanToken? h
  longest := fun hspelled hsame => (longest_of_scanToken? h hspelled hsame).1
  preferred := fun hspelled => (longest_of_scanToken? h hspelled rfl).2 rfl
  keyword_iff := keyword_iff_of_scanToken? h
  typeWord_iff := typeWord_iff_of_scanToken? h
  phrase_iff := phrase_iff_of_scanToken? h
  ident_iff := ident_iff_of_scanToken? h

theorem scan_tiling (cs : List Char) : ∃ tiles space rest, Tiling [] cs (scan cs) tiles space rest :=
  scanFrom_tiling (Nat.lt_succ_self _)

/-- Scanning is lossless and takes the longest token at each place. The tokens and the space in front of each, with the
space and the rest after them, make up the text; each token starts at its place and is the one to take there. If
scanning ends there is no rest, and else it stops at the rest, which neither is space nor can start with a token. -/
theorem scan_longest_tokens (cs : List Char) : ∃ tiles space rest,
    (scan cs).lexemes = tiles.map Tile.lexeme ∧ cs = spread tiles ++ (space ++ rest) ∧
      (∀ tile ∈ tiles, ∀ c ∈ tile.space, isSpacing c = true) ∧ (∀ c ∈ space, isSpacing c = true) ∧
      (∀ before tile after, tiles = before ++ tile :: after →
        tile.lexeme.start = placeAfter (spread before ++ tile.space) ∧
          TokenAt tile.lexeme.token tile.lexeme.text (spread after ++ (space ++ rest))) ∧
      (scan cs).stuck = (if rest = [] then none else some (placeAfter (spread tiles ++ space))) ∧
      (rest ≠ [] → (∀ c ∈ rest.head?, isSpacing c = false) ∧
        ∀ t text after, rest = text ++ after → ¬Spelled t text after) := by
  obtain ⟨tiles, space, rest, h⟩ := scan_tiling cs
  refine ⟨tiles, space, rest, h.lexemes, h.text, h.spaces, h.lastSpace, ?_, h.stuck, ?_⟩
  · intro before tile after htiles
    obtain ⟨hstart, hscan⟩ := h.token before tile after htiles
    exact ⟨hstart, tokenAt_of_scanToken? hscan⟩
  · intro hrest
    exact ⟨h.stops, scanToken?_eq_none_iff.1 (h.unread hrest)⟩

example : (scan "SUGODX Ok NUMERO_1 NUMERO KUNG \t DILI".toList).lexemes.map Lexeme.token =
    [.ident "SUGODX", .ident "Ok", .ident "NUMERO_1", .typeWord .numero, .kungDili] := by
  decide +kernel

/-- The word of a type is a name, although it is all of the name there, before a digit of another script. -/
theorem typeWord_name_before_digit :
    let rest := "NUMERO٣\nKATAPUSAN\n".toList
    normalize "SUGOD\nMUGNA NUMERO٣\nKATAPUSAN".toList = "SUGOD\nMUGNA ".toList ++ rest ∧
      rest.takeWhile inName = TypeWord.numero.spelling.toList ∧
      ⟨.ident "NUMERO", TypeWord.numero.spelling.toList, placeAfter "SUGOD\nMUGNA ".toList⟩ ∈
        (scan ("SUGOD\nMUGNA ".toList ++ rest)).lexemes := by
  decide +kernel

end Binisaya
