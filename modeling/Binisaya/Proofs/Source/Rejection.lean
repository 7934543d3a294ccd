import Binisaya.Proofs.Grammar.Locality
import Binisaya.Proofs.Source.Lexing

/-! The place that is reported for a source that is no program. It is that of the first token with which the tokens can
no longer become those of a program, or of the character where no token can be written if all tokens before it still
can. Where only the end of the text comes too early, it is that of the last token. -/

namespace Binisaya

open Grammar Binisaya.Parser

/-- The tokens of tiles. -/
def tileTokens (tiles : List Tile) : List Token := tiles.map fun tile => tile.lexeme.token

/-- The place of the first problem of a text that is made up of tiles, some space and a rest. -/
inductive FirstProblem (tiles : List Tile) (space rest : List Char) : Position → Prop
  /-- A token that no program has after those before it. -/
  | token {before after : List Tile} {tile : Tile} (split : tiles = before ++ tile :: after)
      (possible : Completable (tileTokens before)) (impossible : ¬Completable (tileTokens before ++ [tile.lexeme.token])) :
      FirstProblem tiles space rest (placeAfter (spread before ++ tile.space))
  /-- A character that no token can be written with. -/
  | character (unread : rest ≠ []) (possible : Completable (tileTokens tiles))
      (unspelled : ∀ t text after, rest = text ++ after → ¬Spelled t text after) :
      FirstProblem tiles space rest (placeAfter (spread tiles ++ space))
  /-- The end of the text, reported at the last token. -/
  | ending {before : List Tile} {tile : Tile} (read : rest = []) (split : tiles = before ++ [tile])
      (possible : Completable (tileTokens tiles)) (incomplete : ∀ d : Start, d.tokens ≠ tileTokens tiles) :
      FirstProblem tiles space rest (placeAfter (spread before ++ tile.space))

section Problems

variable {source : List Char} {s : Scanned} {tiles : List Tile} {space rest : List Char}

theorem Tiling.tokens (h : Tiling [] source s tiles space rest) : s.lexemes.map Lexeme.token = tileTokens tiles := by
  rw [h.lexemes, List.map_map]
  rfl

theorem Tiling.start {before after : List Tile} {tile : Tile} (h : Tiling [] source s tiles space rest)
    (htiles : tiles = before ++ tile :: after) : tile.lexeme.start = placeAfter (spread before ++ tile.space) :=
  (h.token before tile after htiles).1

/-- A text that ends in a line break has a token, unless something of it is not read. -/
theorem Tiling.ne_nil (h : Tiling [] (source ++ ['\n']) s tiles space []) : tiles ≠ [] := by
  rintro rfl
  have hbreak : '\n' ∈ space := by
    have htext : source ++ ['\n'] = space := h.text.trans (List.append_nil space)
    rw [← htext]
    exact List.mem_append_right source (List.mem_singleton_self _)
  exact absurd (h.lastSpace _ hbreak) (by decide)

/-- The parser gives up at a token. -/
theorem Tiling.problem_token {taken after : List Token} {t : Token} (h : Tiling [] source s tiles space rest)
    (htokens : tileTokens tiles = taken ++ t :: after) : ∃ before tile later, tiles = before ++ tile :: later ∧
      tileTokens before = taken ∧ tile.lexeme.token = t ∧
      s.problem (t :: after).length = placeAfter (spread before ++ tile.space) := by
  obtain ⟨before, more, htiles, hbefore, hmore⟩ := List.map_eq_append_iff.1 htokens
  obtain ⟨tile, later, rfl, htile, hlater⟩ := List.map_eq_cons_iff.1 hmore
  refine ⟨before, tile, later, htiles, hbefore, htile, ?_⟩
  have hdrop : s.lexemes.drop (s.lexemes.length - (t :: after).length) = tile.lexeme :: later.map Tile.lexeme := by
    have hlength : s.lexemes.length - (t :: after).length = (before.map Tile.lexeme).length := by
      rw [h.lexemes, htiles, ← hlater]
      simp only [List.length_map, List.length_append, List.length_cons]
      omega
    rw [hlength, h.lexemes, htiles, List.map_append, List.drop_left]
    rfl
  rw [Scanned.problem, hdrop]
  exact h.start htiles

/-- The tokens end, or scanning stops, before the parser has given up. -/
theorem Tiling.problem_end (h : Tiling [] (source ++ ['\n']) s tiles space rest)
    (possible : Completable (tileTokens tiles))
    (incomplete : rest = [] → ∀ d : Start, d.tokens ≠ tileTokens tiles) :
    FirstProblem tiles space rest (s.problem 0) := by
  rw [Scanned.problem, Nat.sub_zero, List.drop_length]
  by_cases hrest : rest = []
  · subst hrest
    obtain ⟨before, tile, htiles⟩ := (List.eq_nil_or_concat' tiles).resolve_left h.ne_nil
    have hlast : s.lexemes.getLast? = some tile.lexeme := by
      rw [h.lexemes, htiles, List.map_append, List.map_singleton, List.getLast?_append, List.getLast?_singleton]
      rfl
    have hproblem : s.stuck.getD ((s.lexemes.getLast?.map Lexeme.start).getD .start) = tile.lexeme.start := by
      rw [h.stuck, if_pos rfl, hlast]
      rfl
    rw [hproblem, h.start htiles]
    exact .ending rfl htiles possible (incomplete rfl)
  · rw [h.stuck, if_neg hrest]
    exact .character hrest possible (scanToken?_eq_none_iff.1 (h.unread hrest))

theorem Tiling.firstProblem {p : Position} (h : Tiling [] (source ++ ['\n']) s tiles space rest)
    (hp : s.statements = .error p) : FirstProblem tiles space rest p := by
  unfold Scanned.statements at hp
  rw [h.tokens] at hp
  cases hparse : parseTokens (tileTokens tiles) with
  | ok body =>
      obtain ⟨d, hd, -⟩ := parseTokens_sound hparse
      have possible : Completable (tileTokens tiles) := ⟨[], d, by rw [hd, List.append_nil]⟩
      rw [hparse, h.stuck] at hp
      by_cases hrest : rest = []
      · rw [if_pos hrest] at hp
        cases hp
      · rw [if_neg hrest] at hp
        cases hp
        exact .character hrest possible (scanToken?_eq_none_iff.1 (h.unread hrest))
  | error left =>
      rw [hparse] at hp
      cases hp
      obtain ⟨taken, htokens, possible, impossible⟩ := parseTokens_error hparse
      cases left with
      | nil =>
          rw [List.append_nil] at htokens
          rw [← htokens] at possible
          refine h.problem_end possible fun _ d hd => ?_
          obtain ⟨body, hbody⟩ := parseTokens_accepts d
          rw [hd, hparse] at hbody
          cases hbody
      | cons t after =>
          obtain ⟨before, tile, later, htiles, rfl, rfl, hproblem⟩ := h.problem_token htokens
          rw [hproblem]
          exact .token htiles possible (impossible _ _ rfl)

end Problems

/-- **A rejected source is rejected at its first impossible token.** -/
theorem rejected_at_first_problem {source : List Char} {f : Fault} (h : readProgram source = .error f) :
    ∃ tiles space rest p, Tiling [] (normalize source) (scan (normalize source)) tiles space rest ∧
      FirstProblem tiles space rest p ∧ f = .unexpectedInput p.line p.column := by
  obtain ⟨tiles, space, rest, htiling⟩ := scan_tiling (normalize source)
  unfold readProgram readStatements at h
  cases hstatements : (scan (normalize source)).statements with
  | ok body =>
      rw [hstatements] at h
      cases h
  | error p =>
      rw [hstatements] at h
      cases h
      exact ⟨tiles, space, rest, p, htiling, htiling.firstProblem hstatements, rfl⟩

/-- Tells that reading fails with a given fault. -/
def failsWith (f : Fault) : Except Fault Node → Bool
  | .error g => g = f
  | .ok _ => false

theorem eq_error_of_failsWith {f : Fault} {r : Except Fault Node} (h : failsWith f r = true) : r = .error f := by
  cases r with
  | ok p => cases h
  | error g => rw [of_decide_eq_true h]

/-- An operand is missing before a parenthesis, and after it comes a character that starts no token. -/
def missingOperand : List Char := "SUGOD\nIPAKITA: (a & ) # b\nKATAPUSAN\n".toList

theorem rejected_at_first_problem_missingOperand :
    readProgram missingOperand = .error (.unexpectedInput 2 15) ∧
      ∃ tiles space rest p, Tiling [] (normalize missingOperand) (scan (normalize missingOperand)) tiles space rest ∧
        FirstProblem tiles space rest p ∧ Fault.unexpectedInput 2 15 = .unexpectedInput p.line p.column := by
  have h : readProgram missingOperand = .error (.unexpectedInput 2 15) := eq_error_of_failsWith (by decide +kernel)
  exact ⟨h, rejected_at_first_problem h⟩

-- a character that starts no token, and an end that comes too early
example : failsWith (.unexpectedInput 2 7) (readProgram "SUGOD\na = b # c\nKATAPUSAN\n".toList) = true ∧
    failsWith (.unexpectedInput 3 2) (readProgram "SUGOD\na = b\nb\n".toList) = true := by
  decide +kernel

end Binisaya
