import Binisaya.Proofs.Source.Words

/-! What each token is written as, whatever else the same text could be. Scanning agrees with that: the token that it
takes is written as the text that it takes, and no token is written as a longer text at the same place. -/

namespace Binisaya

/-- A token can be written as a text where another text follows it. Only words that end as words depend on what
follows. -/
inductive Spelled : Token → List Char → List Char → Prop
  | keyword {word : String} {t : Token} (h : (word, t) ∈ keywords) (rest : List Char) : Spelled t word.toList rest
  | typeWord (t : TypeWord) {rest : List Char} (hend : atWordEnd rest = true) :
      Spelled (.typeWord t) t.spelling.toList rest
  | phrase {first second : String} {t : Token} (h : (first, second, t) ∈ phrases) {space rest : List Char}
      (hne : space ≠ []) (hspace : ∀ c ∈ space, isSpacing c = true) (hend : atWordEnd rest = true) :
      Spelled t (first.toList ++ space ++ second.toList) rest
  | pair {a b : Char} {t : Token} (h : (a, b, t) ∈ symbolPairs) (rest : List Char) : Spelled t [a, b] rest
  | symbol {c : Char} {t : Token} (h : (c, t) ∈ symbolChars) (rest : List Char) : Spelled t [c] rest
  | whole {digits : List Char} (hne : digits ≠ []) (h : ∀ c ∈ digits, isScriptDigit c = true) (rest : List Char) :
      Spelled (numberToken digits []) digits rest
  | decimal {whole fraction : List Char} (hwhole : whole ≠ []) (hfraction : fraction ≠ [])
      (h : ∀ c ∈ whole, isScriptDigit c = true) (h' : ∀ c ∈ fraction, isScriptDigit c = true) (rest : List Char) :
      Spelled (numberToken whole fraction) (whole ++ '.' :: fraction) rest
  | text {body : List Char} (h : ∀ c ∈ body, inText c = true) (rest : List Char) :
      Spelled (.text (.ofList body)) ('"' :: body ++ ['"']) rest
  | char {c : Char} (hquote : c ≠ '\'') (hbreak : c ≠ '\n') (rest : List Char) :
      Spelled (.char c) ['\'', c, '\''] rest
  | escape {c : Char} (hbreak : c ≠ '\n') (rest : List Char) : Spelled (.escape c) ['[', c, ']'] rest
  | lineEnd {breaks : List (List Char)} (hne : breaks ≠ []) (h : ∀ b ∈ breaks, b = ['\n'] ∨ b = ['\r', '\n'])
      (rest : List Char) : Spelled .lineEnd breaks.flatten rest
  | ident {name : List Char} (h : isName name = true) (rest : List Char) : Spelled (.ident (.ofList name)) name rest

theorem Spelled.text_ne_nil {t : Token} {text rest : List Char} (h : Spelled t text rest) : text ≠ [] := by
  cases h with
  | keyword hmem => exact ne_nil_of_isName (isName_keyword hmem)
  | typeWord u => exact ne_nil_of_isName (isName_spelling u)
  | phrase hmem =>
      rw [List.append_assoc]
      exact List.append_ne_nil_of_left_ne_nil (ne_nil_of_isName (isName_phrase hmem).1) _
  | whole hne => exact hne
  | decimal hwhole => exact List.append_ne_nil_of_left_ne_nil hwhole _
  | @lineEnd breaks hne hall =>
      cases breaks with
      | nil => exact absurd rfl hne
      | cons b breaks =>
          rcases hall b (List.mem_cons_self ..) with rfl | rfl
          · exact List.cons_ne_nil _ _
          · exact List.cons_ne_nil _ _
  | ident hname => exact ne_nil_of_isName hname
  | pair | symbol | text | char | escape => exact List.cons_ne_nil _ _

section Others

variable {cs text rest : List Char} {t : Token}

theorem scanWord_spelled {c : Char} (h : startsName c = true) (cs : List Char) :
    ∃ rest, c :: cs = (scanWord (c :: cs)).2 ++ rest ∧ Spelled (scanWord (c :: cs)).1 (scanWord (c :: cs)).2 rest := by
  rcases scanWord_cases (c :: cs) with ⟨t, rest, hcs, hend, hword⟩ |
    ⟨first, second, t, space, rest, hmem, ⟨hcs, hne, hspace, hend⟩, hword⟩ | ⟨-, -, hword⟩
  · rw [hword]
    exact ⟨rest, hcs, .typeWord t hend⟩
  · rw [hword]
    exact ⟨rest, hcs, .phrase hmem hne hspace hend⟩
  · rw [hword]
    refine ⟨_, List.takeWhile_append_dropWhile.symm, ?_⟩
    rcases wordToken_cases ((c :: cs).takeWhile inName) with hkeyword | hident
    · have hspelled := Spelled.keyword hkeyword ((c :: cs).dropWhile inName)
      rwa [String.toList_ofList] at hspelled
    · rw [hident]
      exact .ident (isName_takeWhile h cs) _

theorem lineEnds_breaks (cs : List Char) : ∃ breaks : List (List Char), lineEnds cs = breaks.flatten ∧
    ∀ b ∈ breaks, b = ['\n'] ∨ b = ['\r', '\n'] := by
  fun_induction lineEnds cs with
  | case1 cs ih =>
      obtain ⟨breaks, hbreaks, hall⟩ := ih
      exact ⟨['\n'] :: breaks, by rw [hbreaks]; rfl, List.forall_mem_cons.2 ⟨.inl rfl, hall⟩⟩
  | case2 cs ih =>
      obtain ⟨breaks, hbreaks, hall⟩ := ih
      exact ⟨['\r', '\n'] :: breaks, by rw [hbreaks]; rfl, List.forall_mem_cons.2 ⟨.inr rfl, hall⟩⟩
  | case3 cs => exact ⟨[], rfl, List.forall_mem_nil _⟩

theorem lineEnds_isPrefix (cs : List Char) : ∃ rest, cs = lineEnds cs ++ rest := by
  fun_induction lineEnds cs with
  | case1 cs ih =>
      obtain ⟨rest, hrest⟩ := ih
      exact ⟨rest, congrArg ('\n' :: ·) hrest⟩
  | case2 cs ih =>
      obtain ⟨rest, hrest⟩ := ih
      exact ⟨rest, congrArg ('\r' :: '\n' :: ·) hrest⟩
  | case3 cs => exact ⟨cs, rfl⟩

theorem lineEnds_append {breaks : List (List Char)} (h : ∀ b ∈ breaks, b = ['\n'] ∨ b = ['\r', '\n'])
    (rest : List Char) : lineEnds (breaks.flatten ++ rest) = breaks.flatten ++ lineEnds rest := by
  induction breaks with
  | nil => rfl
  | cons b breaks ih =>
      obtain ⟨hb, hbreaks⟩ := List.forall_mem_cons.1 h
      rw [List.flatten_cons, List.append_assoc]
      rcases hb with rfl | rfl
      · exact congrArg ('\n' :: ·) (ih hbreaks)
      · exact congrArg ('\r' :: '\n' :: ·) (ih hbreaks)

theorem lineEnds_spelled (h : lineEnds cs ≠ []) :
    ∃ rest, cs = lineEnds cs ++ rest ∧ Spelled .lineEnd (lineEnds cs) rest := by
  obtain ⟨rest, hrest⟩ := lineEnds_isPrefix cs
  obtain ⟨breaks, hbreaks, hall⟩ := lineEnds_breaks cs
  refine ⟨rest, hrest, ?_⟩
  rw [hbreaks] at h ⊢
  refine .lineEnd ?_ hall rest
  rintro rfl
  exact h rfl

theorem scanText?_eq_some_iff : scanText? cs = some (t, text) ↔
    ∃ body rest, cs = body ++ '"' :: rest ∧ (∀ c ∈ body, inText c = true) ∧ t = .text (.ofList body) ∧
      text = '"' :: body ++ ['"'] := by
  rw [scanText?]
  constructor
  · intro h
    simp only [Option.ite_none_right_eq_some, Option.some.injEq, Prod.mk.injEq] at h
    obtain ⟨hquote, rfl, rfl⟩ := h
    obtain ⟨rest, hrest⟩ := List.head?_eq_some_iff.1 hquote
    refine ⟨cs.takeWhile inText, rest, ?_, fun c hc => List.mem_takeWhile_imp hc, rfl, rfl⟩
    rw [← hrest, List.takeWhile_append_dropWhile]
  · rintro ⟨body, rest, rfl, hbody, rfl, rfl⟩
    have hstops : Stops inText ('"' :: rest) := stops_cons (by decide) rest
    simp only [hstops.takeWhile_append hbody, hstops.dropWhile_append hbody, List.head?_cons, if_true]

theorem isScriptDigit_of_mem_fractionDigits (cs : List Char) : ∀ c ∈ fractionDigits cs, isScriptDigit c = true := by
  fun_cases fractionDigits cs with
  | case1 cs => exact fun c hc => List.mem_takeWhile_imp hc
  | case2 cs => exact List.forall_mem_nil _

theorem fractionDigits_isPrefix (h : fractionDigits cs ≠ []) : ∃ rest, cs = '.' :: fractionDigits cs ++ rest := by
  revert h
  fun_cases fractionDigits cs with
  | case1 cs =>
      intro _
      exact ⟨cs.dropWhile isScriptDigit, congrArg ('.' :: ·) List.takeWhile_append_dropWhile.symm⟩
  | case2 cs => exact fun h => absurd rfl h

theorem scanNumber_spelled {c : Char} (h : isScriptDigit c = true) (cs : List Char) :
    ∃ rest, c :: cs = (scanNumber (c :: cs)).2 ++ rest ∧
      Spelled (scanNumber (c :: cs)).1 (scanNumber (c :: cs)).2 rest := by
  have hne : (c :: cs).takeWhile isScriptDigit ≠ [] := by
    rw [List.takeWhile_cons, if_pos h]
    exact List.cons_ne_nil _ _
  have hwhole : ∀ d ∈ (c :: cs).takeWhile isScriptDigit, isScriptDigit d = true := fun d hd =>
    List.mem_takeWhile_imp hd
  have hsplit : c :: cs = (c :: cs).takeWhile isScriptDigit ++ (c :: cs).dropWhile isScriptDigit :=
    List.takeWhile_append_dropWhile.symm
  simp only [scanNumber]
  by_cases hfraction : fractionDigits ((c :: cs).dropWhile isScriptDigit) = []
  · rw [hfraction, List.isEmpty_nil, if_pos rfl]
    exact ⟨_, hsplit, .whole hne hwhole _⟩
  · obtain ⟨rest, hrest⟩ := fractionDigits_isPrefix hfraction
    rw [if_neg (by rwa [List.isEmpty_iff])]
    refine ⟨rest, ?_, .decimal hne hfraction hwhole (isScriptDigit_of_mem_fractionDigits _) rest⟩
    rw [List.append_assoc, ← hrest, ← hsplit]

/-- A number is scanned with all its digits. -/
theorem scanNumber_whole {digits : List Char} (h : ∀ c ∈ digits, isScriptDigit c = true) (rest : List Char) :
    digits.length ≤ (scanNumber (digits ++ rest)).2.length ∧
      (digits.length = (scanNumber (digits ++ rest)).2.length →
        (scanNumber (digits ++ rest)).1 = numberToken digits []) := by
  simp only [scanNumber, List.takeWhile_append_of_pos h]
  split
  next hfraction =>
    rw [List.isEmpty_iff] at hfraction
    refine ⟨by rw [List.length_append]; exact Nat.le_add_right _ _, fun hlength => ?_⟩
    have hnil : rest.takeWhile isScriptDigit = [] := by
      rw [List.length_append] at hlength
      exact List.eq_nil_of_length_eq_zero (by omega)
    rw [hfraction, hnil, List.append_nil]
  · simp only [List.length_append, List.length_cons]
    exact ⟨by omega, fun hlength => absurd hlength (by omega)⟩

/-- A number with a point is scanned with all its digits. -/
theorem scanNumber_decimal {whole fraction : List Char} (hne : fraction ≠ [])
    (h : ∀ c ∈ whole, isScriptDigit c = true) (h' : ∀ c ∈ fraction, isScriptDigit c = true) (rest : List Char) :
    (whole ++ '.' :: fraction).length ≤ (scanNumber (whole ++ '.' :: fraction ++ rest)).2.length ∧
      ((whole ++ '.' :: fraction).length = (scanNumber (whole ++ '.' :: fraction ++ rest)).2.length →
        (scanNumber (whole ++ '.' :: fraction ++ rest)).1 = numberToken whole fraction) := by
  have hstops : Stops isScriptDigit ('.' :: (fraction ++ rest)) := stops_cons (by decide) _
  have hfraction : fractionDigits ('.' :: (fraction ++ rest)) = fraction ++ rest.takeWhile isScriptDigit := by
    rw [fractionDigits, List.takeWhile_append_of_pos h']
  have hsome : (fraction ++ rest.takeWhile isScriptDigit).isEmpty = false := by
    rw [List.isEmpty_eq_false_iff]
    exact List.append_ne_nil_of_left_ne_nil hne _
  rw [List.append_assoc, List.cons_append]
  simp only [scanNumber, hstops.takeWhile_append h, hstops.dropWhile_append h, hfraction, hsome,
    Bool.false_eq_true, if_false, List.length_append, List.length_cons]
  refine ⟨by omega, fun hlength => ?_⟩
  have hnil : rest.takeWhile isScriptDigit = [] := List.eq_nil_of_length_eq_zero (by omega)
  rw [hnil, List.append_nil]

theorem scanPair?_spelled (h : scanPair? cs = some (t, text)) : ∃ rest, cs = text ++ rest ∧ Spelled t text rest := by
  unfold scanPair? at h
  split at h
  next a b rest =>
    obtain ⟨⟨x, y, u⟩, hfind, hu⟩ := Option.map_eq_some_iff.1 h
    have hsame := List.find?_some hfind
    simp only [decide_eq_true_eq] at hsame
    cases hu
    obtain ⟨rfl, rfl⟩ := hsame
    exact ⟨rest, rfl, .pair (List.mem_of_find?_eq_some hfind) rest⟩
  · cases h

theorem scanChar?_spelled (h : scanChar? cs = some (t, text)) : ∃ rest, cs = text ++ rest ∧ Spelled t text rest := by
  unfold scanChar? at h
  split at h
  next a rest =>
    obtain ⟨u, hlookup, hu⟩ := Option.map_eq_some_iff.1 h
    cases hu
    obtain ⟨before, after, hchars, -⟩ := List.lookup_eq_some_iff.1 hlookup
    refine ⟨rest, rfl, .symbol ?_ rest⟩
    rw [hchars]
    exact List.mem_append_right before (List.mem_cons_self ..)
  · cases h

theorem scanSymbol?_spelled (h : scanSymbol? cs = some (t, text)) :
    ∃ rest, cs = text ++ rest ∧ Spelled t text rest := by
  rcases Option.or_eq_some_iff.1 h with hpair | ⟨-, hchar⟩
  · exact scanPair?_spelled hpair
  · exact scanChar?_spelled hchar

theorem scanPair?_pair {a b : Char} (h : (a, b, t) ∈ symbolPairs) (rest : List Char) :
    scanPair? (a :: b :: rest) = some (t, [a, b]) := by
  have hall : ∀ e ∈ symbolPairs, scanPair? [e.1, e.2.1] = some (e.2.2, [e.1, e.2.1]) := by decide
  exact hall (a, b, t) h

theorem scanChar?_symbol {c : Char} (h : (c, t) ∈ symbolChars) (rest : List Char) :
    scanChar? (c :: rest) = some (t, [c]) := by
  have hall : ∀ e ∈ symbolChars, symbolChars.lookup e.1 = some e.2 := by decide
  rw [scanChar?, hall (c, t) h]
  rfl

end Others

section Tokens

variable {cs text rest : List Char} {t : Token}

/-- The characters that tokens other than words, numbers and symbols start with. -/
def isDelimiter (c : Char) : Bool := c = '\n' || c = '\r' || c = '"' || c = '\'' || c = '['

theorem scanToken?_of_not_isDelimiter {c : Char} (h : isDelimiter c = false) (cs : List Char) :
    scanToken? (c :: cs) = if startsName c then some (scanWord (c :: cs))
      else if isScriptDigit c then some (scanNumber (c :: cs)) else scanSymbol? (c :: cs) := by
  simp only [isDelimiter, Bool.or_eq_false_iff, decide_eq_false_iff_not] at h
  obtain ⟨⟨⟨⟨hnewline, hreturn⟩, hdouble⟩, hsingle⟩, hbracket⟩ := h
  rw [scanToken?]
  · exact hnewline
  · exact fun _ hc => absurd hc hreturn
  · exact hdouble
  · exact fun _ _ hc => absurd hc hsingle
  · exact fun _ _ hc => absurd hc hbracket

/-- The token that is scanned is written as the text that it is taken from. -/
theorem scanToken?_spelled (h : scanToken? cs = some (t, text)) : ∃ rest, cs = text ++ rest ∧ Spelled t text rest := by
  unfold scanToken? at h
  split at h
  next cs =>
    cases h
    exact lineEnds_spelled (List.cons_ne_nil '\n' (lineEnds cs))
  next cs =>
    cases h
    exact lineEnds_spelled (List.cons_ne_nil '\r' ('\n' :: lineEnds cs))
  next cs =>
    obtain ⟨body, rest, rfl, hbody, rfl, rfl⟩ := scanText?_eq_some_iff.1 h
    exact ⟨rest, by simp, .text hbody rest⟩
  next c rest =>
    split at h
    · cases h
    next hc =>
      cases h
      exact ⟨rest, rfl, .char (fun hquote => hc (.inl hquote)) (fun hbreak => hc (.inr hbreak)) rest⟩
  next c rest =>
    split at h
    · cases h
    next hc =>
      cases h
      exact ⟨rest, rfl, .escape hc rest⟩
  next c cs _ _ _ _ _ =>
    split at h
    next hname =>
      obtain ⟨rest, hcs, hspelled⟩ := scanWord_spelled hname cs
      rw [Option.some.inj h] at hcs hspelled
      exact ⟨rest, hcs, hspelled⟩
    next =>
      split at h
      next hdigit =>
        obtain ⟨rest, hcs, hspelled⟩ := scanNumber_spelled hdigit cs
        rw [Option.some.inj h] at hcs hspelled
        exact ⟨rest, hcs, hspelled⟩
      · exact scanSymbol?_spelled h
  · cases h

theorem not_isDelimiter {c : Char} (h : startsName c = true ∨ isScriptDigit c = true) : isDelimiter c = false := by
  rw [Bool.eq_false_iff]
  intro hc
  simp only [isDelimiter, Bool.or_eq_true, decide_eq_true_eq] at hc
  rcases hc with (((rfl | rfl) | rfl) | rfl) | rfl <;> exact absurd h (by decide)

theorem scanToken?_name {name : List Char} (h : isName name = true) (rest : List Char) :
    scanToken? (name ++ rest) = some (scanWord (name ++ rest)) := by
  cases name with
  | nil => cases h
  | cons c cs =>
      rw [isName, Bool.and_eq_true] at h
      rw [List.cons_append, scanToken?_of_not_isDelimiter (not_isDelimiter (.inl h.1)), if_pos h.1]

theorem scanToken?_digits {digits : List Char} (hne : digits ≠ []) (h : ∀ c ∈ digits, isScriptDigit c = true)
    (rest : List Char) : scanToken? (digits ++ rest) = some (scanNumber (digits ++ rest)) := by
  cases digits with
  | nil => exact absurd rfl hne
  | cons c cs =>
      have hc := h c (List.mem_cons_self ..)
      rw [List.cons_append, scanToken?_of_not_isDelimiter (not_isDelimiter (.inr hc)),
        if_neg (by rw [not_startsName_of_isScriptDigit hc]; exact Bool.false_ne_true), if_pos hc]

theorem scanToken?_symbol {c : Char} (h : ∃ u, (c, u) ∈ symbolChars) (rest : List Char) :
    scanToken? (c :: rest) = scanSymbol? (c :: rest) := by
  obtain ⟨u, hu⟩ := h
  have hall : ∀ e ∈ symbolChars, isDelimiter e.1 = false ∧ startsName e.1 = false ∧ isScriptDigit e.1 = false := by
    decide
  obtain ⟨hdelimiter, hname, hdigit⟩ := hall (c, u) hu
  rw [scanToken?_of_not_isDelimiter hdelimiter, if_neg (by rw [hname]; exact Bool.false_ne_true),
    if_neg (by rw [hdigit]; exact Bool.false_ne_true)]

theorem length_scanPair? (h : scanPair? cs = some (t, text)) : text.length = 2 := by
  unfold scanPair? at h
  split at h
  · obtain ⟨e, -, he⟩ := Option.map_eq_some_iff.1 h
    cases he
    rfl
  · cases h

/-- Where a token can be written as a text, scanning takes at least that text; and if no more than that, then that
token, unless the token is a name. -/
theorem Spelled.exists_scanToken? (h : Spelled t text rest) :
    ∃ t' text', scanToken? (text ++ rest) = some (t', text') ∧ text.length ≤ text'.length ∧
      (text.length = text'.length → t = t' ∨ ∃ name, t = .ident name) := by
  have hexact {t : Token} {text : List Char} (h : scanToken? (text ++ rest) = some (t, text)) :
      ∃ t' text', scanToken? (text ++ rest) = some (t', text') ∧ text.length ≤ text'.length ∧
        (text.length = text'.length → t = t' ∨ ∃ name, t = .ident name) :=
    ⟨t, text, h, Nat.le_refl _, fun _ => .inl rfl⟩
  have hword {name : List Char} (h : isName name = true) : name.length ≤ (scanWord (name ++ rest)).2.length :=
    (length_le_takeWhile_append (inName_of_isName h) rest).trans (length_takeWhile_le_scanWord _)
  cases h with
  | keyword hmem =>
      have hname := isName_keyword hmem
      exact ⟨_, _, scanToken?_name hname rest, hword hname,
        fun hlength => .inl (scanWord_keyword hmem hlength.symm).symm⟩
  | typeWord u hend => exact hexact (by rw [scanToken?_name (isName_spelling u), scanWord_typeWord u hend])
  | phrase hmem hne hspace hend =>
      refine hexact ?_
      rw [← scanWord_phrase hmem ⟨rfl, hne, hspace, hend⟩]
      simp only [List.append_assoc]
      exact scanToken?_name (isName_phrase hmem).1 _
  | @pair a b t hmem =>
      have hfirst : ∀ e ∈ symbolPairs, ∃ e' ∈ symbolChars, e'.1 = e.1 := by decide
      obtain ⟨⟨c, u⟩, hu, rfl⟩ := hfirst _ hmem
      refine hexact ?_
      rw [List.cons_append, scanToken?_symbol ⟨u, hu⟩, scanSymbol?]
      exact Option.or_eq_some_iff.2 (.inl (scanPair?_pair hmem rest))
  | @symbol c t hmem =>
      rw [List.cons_append, List.nil_append, scanToken?_symbol ⟨t, hmem⟩, scanSymbol?]
      cases hpair : scanPair? (c :: rest) with
      | none => exact ⟨t, [c], scanChar?_symbol hmem rest, Nat.le_refl _, fun _ => .inl rfl⟩
      | some r =>
          have hlonger : [c].length < r.2.length := by
            rw [length_scanPair? hpair]
            exact Nat.lt_succ_self 1
          exact ⟨r.1, r.2, rfl, hlonger.le, fun h => absurd h hlonger.ne⟩
  | whole hne h =>
      obtain ⟨hle, hsame⟩ := scanNumber_whole h rest
      exact ⟨_, _, scanToken?_digits hne h rest, hle, fun hlength => .inl (hsame hlength).symm⟩
  | @decimal whole fraction hwhole hfraction h h' =>
      obtain ⟨hle, hsame⟩ := scanNumber_decimal hfraction h h' rest
      refine ⟨_, _, ?_, hle, fun hlength => .inl (hsame hlength).symm⟩
      rw [List.append_assoc]
      exact scanToken?_digits hwhole h _
  | @text body hbody =>
      refine hexact ?_
      rw [List.cons_append, List.cons_append, scanToken?]
      exact scanText?_eq_some_iff.2 ⟨body, rest, by simp, hbody, rfl, rfl⟩
  | char hquote hbreak => exact hexact (if_neg (not_or.2 ⟨hquote, hbreak⟩))
  | escape hbreak => exact hexact (if_neg hbreak)
  | @lineEnd breaks hne hall =>
      refine ⟨.lineEnd, breaks.flatten ++ lineEnds rest, ?_, ?_, fun _ => .inl rfl⟩
      · rw [← lineEnds_append hall]
        cases breaks with
        | nil => exact absurd rfl hne
        | cons b breaks =>
            rcases hall b (List.mem_cons_self ..) with rfl | rfl <;> rfl
      · rw [List.length_append]
        exact Nat.le_add_right _ _
  | ident hname => exact ⟨_, _, scanToken?_name hname rest, hword hname, fun _ => .inr ⟨_, rfl⟩⟩

/-- Nothing is scanned exactly where no token can be written. -/
theorem scanToken?_eq_none_iff : scanToken? cs = none ↔ ∀ t text rest, cs = text ++ rest → ¬Spelled t text rest := by
  constructor
  · rintro h t text rest rfl hspelled
    obtain ⟨t', text', hscan, -⟩ := hspelled.exists_scanToken?
    rw [h] at hscan
    cases hscan
  · intro h
    cases hscan : scanToken? cs with
    | none => rfl
    | some r =>
        obtain ⟨rest, hcs, hspelled⟩ := scanToken?_spelled hscan
        exact absurd hspelled (h r.1 r.2 rest hcs)

end Tokens

end Binisaya
