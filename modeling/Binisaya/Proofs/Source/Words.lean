import Mathlib.Data.List.Pairwise
import Mathlib.Data.List.TakeWhile
import Binisaya.Proofs.Source.Scanning

/-! Words at the start of a text. A word goes on as far as a name does, and it is scanned as the word of a type, as the
first word of a phrase, as a keyword or as a name; each of these is told exactly, by what the text starts with. -/

namespace Binisaya

/-- A text does not go on with characters of a class. -/
def Stops (p : Char → Bool) (cs : List Char) : Prop := ∀ c ∈ cs.head?, p c = false

section Runs

variable {p : Char → Bool} {run rest : List Char}

theorem stops_cons {c : Char} (h : p c = false) (cs : List Char) : Stops p (c :: cs) := by
  intro d hd
  cases hd
  exact h

theorem stops_dropWhile (p : Char → Bool) (cs : List Char) : Stops p (cs.dropWhile p) := by
  intro c hc
  have hhead := List.head?_dropWhile_not p cs
  rw [Option.mem_def.1 hc] at hhead
  simpa using hhead

theorem Stops.takeWhile_append (h : Stops p rest) (hrun : ∀ c ∈ run, p c = true) :
    (run ++ rest).takeWhile p = run := by
  rw [List.takeWhile_append_of_pos hrun]
  cases rest with
  | nil => exact List.append_nil run
  | cons c rest => rw [List.takeWhile_cons, h c rfl, if_neg Bool.false_ne_true, List.append_nil]

theorem Stops.dropWhile_append (h : Stops p rest) (hrun : ∀ c ∈ run, p c = true) :
    (run ++ rest).dropWhile p = rest := by
  rw [List.dropWhile_append_of_pos hrun]
  cases rest with
  | nil => rfl
  | cons c rest => rw [List.dropWhile_cons, h c rfl, if_neg Bool.false_ne_true]

theorem length_le_takeWhile_append (hrun : ∀ c ∈ run, p c = true) (rest : List Char) :
    run.length ≤ ((run ++ rest).takeWhile p).length := by
  rw [List.takeWhile_append_of_pos hrun, List.length_append]
  exact Nat.le_add_right _ _

end Runs

theorem isAlpha_iff {c : Char} :
    c.isAlpha = true ↔ (65 ≤ c.toNat ∧ c.toNat ≤ 90) ∨ (97 ≤ c.toNat ∧ c.toNat ≤ 122) := by
  change (decide (c.val ≥ 'A'.val ∧ c.val ≤ 'Z'.val) || (decide (c.val ≥ 'a'.val) && decide (c.val ≤ 'z'.val))) =
    true ↔ _
  simp only [Bool.or_eq_true, Bool.and_eq_true, decide_eq_true_eq, UInt32.le_iff_toNat_le, ge_iff_le]
  rfl

theorem toNat_lt_of_isAlpha {c : Char} (h : c.isAlpha = true) : c.toNat < 0x80 := by
  have hrange := isAlpha_iff.1 h
  omega

theorem not_isAlpha_of_isDigit {c : Char} (h : c.isDigit = true) : c.isAlpha = false := by
  simp only [Char.isDigit, Bool.and_eq_true, decide_eq_true_eq, UInt32.le_iff_toNat_le] at h
  change 48 ≤ c.toNat ∧ c.toNat ≤ 57 at h
  rw [Bool.eq_false_iff, ne_eq, isAlpha_iff]
  omega

theorem isWordChar_of_inName {c : Char} (h : inName c = true) : isWordChar c = true := by
  have hascii : c.toNat < 0x80 := by
    simp only [inName, Char.isAlphanum, Bool.or_eq_true, beq_iff_eq] at h
    rcases h with (halpha | hdigit) | rfl
    · exact toNat_lt_of_isAlpha halpha
    · simp only [Char.isDigit, Bool.and_eq_true, decide_eq_true_eq, UInt32.le_iff_toNat_le] at hdigit
      exact Nat.lt_of_le_of_lt hdigit.2 (by decide)
    · decide
  rw [isWordChar, if_pos hascii, Bool.or_comm]
  exact h

theorem inName_of_startsName {c : Char} (h : startsName c = true) : inName c = true := by
  simp only [startsName, inName, Char.isAlphanum, Bool.or_eq_true] at h ⊢
  exact h.imp_left Or.inl

theorem not_startsName_of_isScriptDigit {c : Char} (h : isScriptDigit c = true) : startsName c = false := by
  have hname : ∀ d : Char, d.isAlpha = false → d ≠ '_' → startsName d = false := by
    intro d halpha hline
    rw [startsName, halpha, Bool.false_or, beq_eq_false_iff_ne.2 hline]
  rw [isScriptDigit, scriptDigit?] at h
  split at h
  · split at h
    next hdigit =>
      refine hname c (not_isAlpha_of_isDigit hdigit) ?_
      rintro rfl
      exact absurd hdigit (by decide)
    · cases h
  · rename_i hascii
    refine hname c (Bool.eq_false_iff.2 fun halpha => hascii (toNat_lt_of_isAlpha halpha)) ?_
    rintro rfl
    exact hascii (by decide)

theorem stops_inName_of_atWordEnd {rest : List Char} (h : atWordEnd rest = true) : Stops inName rest := by
  cases rest with
  | nil => intro c hc; cases hc
  | cons c rest =>
      refine stops_cons (Bool.eq_false_iff.2 fun hc => ?_) rest
      rw [atWordEnd, isWordChar_of_inName hc] at h
      cases h

/-- Tells that a text is written like a name. -/
def isName : List Char → Bool
  | [] => false
  | c :: cs => startsName c && cs.all inName

section Words

variable {name rest cs text : List Char}

theorem inName_of_isName (h : isName name = true) : ∀ c ∈ name, inName c = true := by
  cases name with
  | nil => exact List.forall_mem_nil _
  | cons c cs =>
      rw [isName, Bool.and_eq_true, List.all_eq_true] at h
      exact List.forall_mem_cons.2 ⟨inName_of_startsName h.1, h.2⟩

theorem ne_nil_of_isName (h : isName name = true) : name ≠ [] := by
  rintro rfl
  cases h

theorem isName_takeWhile {c : Char} (h : startsName c = true) (cs : List Char) :
    isName ((c :: cs).takeWhile inName) = true := by
  rw [List.takeWhile_cons, if_pos (inName_of_startsName h), isName, h, Bool.true_and, List.all_eq_true]
  exact fun d hd => List.mem_takeWhile_imp hd

theorem isName_takeWhile_append (h : isName name = true) (rest : List Char) :
    isName ((name ++ rest).takeWhile inName) = true := by
  cases name with
  | nil => cases h
  | cons c cs =>
      rw [isName, Bool.and_eq_true] at h
      exact isName_takeWhile h.1 (cs ++ rest)

/-- Before the end of a word the whole name is the word. -/
theorem takeWhile_inName (h : isName name = true) (hend : atWordEnd rest = true) :
    (name ++ rest).takeWhile inName = name :=
  (stops_inName_of_atWordEnd hend).takeWhile_append (inName_of_isName h)

theorem isName_keyword {word : String} {t : Token} (h : (word, t) ∈ keywords) : isName word.toList = true := by
  have hall : ∀ e ∈ keywords, isName e.1.toList = true := by decide
  exact hall (word, t) h

theorem isName_spelling (t : TypeWord) : isName t.spelling.toList = true := by
  cases t <;> decide

theorem mem_typeWords (t : TypeWord) : t ∈ TypeWord.all := by
  cases t <;> decide

theorem spelling_injective {t u : TypeWord} (h : t.spelling.toList = u.spelling.toList) : t = u := by
  cases t <;> cases u <;> first | rfl | exact absurd h (by decide)

theorem isName_phrase {first second : String} {t : Token} (h : (first, second, t) ∈ phrases) :
    isName first.toList = true ∧ isName second.toList = true := by
  have hall : ∀ e ∈ phrases, isName e.1.toList = true ∧ isName e.2.1.toList = true := by decide
  exact hall (first, second, t) h

theorem startsWithWord_iff {word : String} :
    startsWithWord word cs = true ↔ ∃ rest, cs = word.toList ++ rest ∧ atWordEnd rest = true := by
  rw [startsWithWord]
  constructor
  · intro h
    cases hrest : word.toList.isPrefixOf? cs with
    | none => rw [hrest] at h; cases h
    | some rest =>
        rw [hrest] at h
        exact ⟨rest, (List.isPrefixOf?_eq_some_iff_append_eq.1 hrest).symm, h⟩
  · rintro ⟨rest, rfl, hend⟩
    rw [List.isPrefixOf?_eq_some_iff_append_eq.2 rfl]
    exact hend

/-- The word of a type is scanned exactly where it stands as a word. -/
theorem scanTypeWord?_eq_some_iff {r : Token × List Char} :
    scanTypeWord? cs = some r ↔
      ∃ t rest, cs = t.spelling.toList ++ rest ∧ atWordEnd rest = true ∧ r = (.typeWord t, t.spelling.toList) := by
  rw [scanTypeWord?, Option.map_eq_some_iff]
  constructor
  · rintro ⟨t, hfind, rfl⟩
    have hword := List.find?_some hfind
    obtain ⟨rest, hcs, hend⟩ := startsWithWord_iff.1 hword
    exact ⟨t, rest, hcs, hend, rfl⟩
  · rintro ⟨t, rest, rfl, hend, rfl⟩
    have hsome : (TypeWord.all.find? fun u => startsWithWord u.spelling (t.spelling.toList ++ rest)).isSome = true :=
      List.find?_isSome.2 ⟨t, mem_typeWords t, startsWithWord_iff.2 ⟨rest, rfl, hend⟩⟩
    obtain ⟨u, hfind⟩ := Option.isSome_iff_exists.1 hsome
    have hword := List.find?_some hfind
    obtain ⟨rest', hrest, hend'⟩ := startsWithWord_iff.1 hword
    -- both words are the whole name
    have hsame : t.spelling.toList = u.spelling.toList := by
      rw [← takeWhile_inName (isName_spelling t) hend, hrest, takeWhile_inName (isName_spelling u) hend']
    exact ⟨u, hfind, by rw [spelling_injective hsame]⟩

/-- The two words of a phrase, with space between them, at the start of a text. -/
def StartsWithPhrase (first second : String) (space rest cs : List Char) : Prop :=
  cs = first.toList ++ space ++ second.toList ++ rest ∧ space ≠ [] ∧ (∀ c ∈ space, isSpacing c = true) ∧
    atWordEnd rest = true

theorem stops_isSpacing_of_isName (h : isName name = true) (rest : List Char) : Stops isSpacing (name ++ rest) := by
  cases name with
  | nil => cases h
  | cons c cs =>
      refine stops_cons (Bool.eq_false_iff.2 fun hc => ?_) _
      rw [isName, Bool.and_eq_true] at h
      simp only [isSpacing, Bool.or_eq_true, beq_iff_eq] at hc
      rcases hc with rfl | rfl
      · exact absurd h.1 (by decide)
      · exact absurd h.1 (by decide)

theorem stops_inName_of_isSpacing {space : List Char} (hne : space ≠ []) (h : ∀ c ∈ space, isSpacing c = true)
    (rest : List Char) : Stops inName (space ++ rest) := by
  cases space with
  | nil => exact absurd rfl hne
  | cons c cs =>
      have hc := h c (List.mem_cons_self ..)
      simp only [isSpacing, Bool.or_eq_true, beq_iff_eq] at hc
      rcases hc with rfl | rfl
      · exact stops_cons (by decide) _
      · exact stops_cons (by decide) _

theorem phraseText?_eq_some_iff {first second : String} (hsecond : isName second.toList = true) :
    phraseText? first second cs = some text ↔
      ∃ space rest, StartsWithPhrase first second space rest cs ∧ text = first.toList ++ space ++ second.toList := by
  rw [phraseText?]
  constructor
  · intro h
    cases hrest : first.toList.isPrefixOf? cs with
    | none => rw [hrest] at h; cases h
    | some rest =>
        rw [hrest] at h
        simp only [Option.ite_none_right_eq_some, Bool.and_eq_true, Bool.not_eq_true', List.isEmpty_eq_false_iff,
          Option.some.injEq] at h
        obtain ⟨⟨hne, hword⟩, rfl⟩ := h
        obtain ⟨rest', hrest', hend⟩ := startsWithWord_iff.1 hword
        refine ⟨_, rest', ⟨?_, hne, fun c hc => List.mem_takeWhile_imp hc, hend⟩, rfl⟩
        calc cs = first.toList ++ rest := (List.isPrefixOf?_eq_some_iff_append_eq.1 hrest).symm
          _ = first.toList ++ (rest.takeWhile isSpacing ++ rest.dropWhile isSpacing) := by
              rw [List.takeWhile_append_dropWhile]
          _ = first.toList ++ rest.takeWhile isSpacing ++ second.toList ++ rest' := by
              rw [hrest', ← List.append_assoc, ← List.append_assoc]
  · rintro ⟨space, rest, ⟨rfl, hne, hspace, hend⟩, rfl⟩
    have hfirst : first.toList.isPrefixOf? (first.toList ++ space ++ second.toList ++ rest) =
        some (space ++ (second.toList ++ rest)) := by
      rw [List.isPrefixOf?_eq_some_iff_append_eq]
      simp only [List.append_assoc]
    have hstops := stops_isSpacing_of_isName hsecond rest
    have hword : startsWithWord second (second.toList ++ rest) = true := startsWithWord_iff.2 ⟨rest, rfl, hend⟩
    rw [hfirst]
    simp only [hstops.takeWhile_append hspace, hstops.dropWhile_append hspace, hword,
      List.isEmpty_eq_false_iff.2 hne, Bool.not_false, Bool.and_self, if_true]

/-- The first word of a phrase is the whole name. -/
theorem StartsWithPhrase.takeWhile_inName {first second : String} {space : List Char}
    (h : StartsWithPhrase first second space rest cs) (hfirst : isName first.toList = true) :
    cs.takeWhile inName = first.toList := by
  obtain ⟨rfl, hne, hspace, -⟩ := h
  rw [List.append_assoc, List.append_assoc]
  exact (stops_inName_of_isSpacing hne hspace _).takeWhile_append (inName_of_isName hfirst)

/-- A text starts with at most one phrase. -/
theorem StartsWithPhrase.unique {first second first' second' : String} {space space' rest' : List Char}
    (h : StartsWithPhrase first second space rest cs) (h' : StartsWithPhrase first' second' space' rest' cs)
    (hfirst : isName first.toList = true) (hfirst' : isName first'.toList = true)
    (hsecond : isName second.toList = true) (hsecond' : isName second'.toList = true) :
    first.toList = first'.toList ∧ space = space' ∧ second.toList = second'.toList := by
  have hfirsts : first.toList = first'.toList := by
    rw [← h.takeWhile_inName hfirst, h'.takeWhile_inName hfirst']
  obtain ⟨rfl, -, hspace, hend⟩ := h
  obtain ⟨hcs, -, hspace', hend'⟩ := h'
  rw [hfirsts] at hcs
  simp only [List.append_assoc] at hcs
  have hafter := List.append_cancel_left hcs
  have hspaces : space = space' := by
    rw [← (stops_isSpacing_of_isName hsecond rest).takeWhile_append hspace, hafter,
      (stops_isSpacing_of_isName hsecond' rest').takeWhile_append hspace']
  rw [hspaces] at hafter
  have hwords := List.append_cancel_left hafter
  refine ⟨hfirsts, hspaces, ?_⟩
  rw [← Binisaya.takeWhile_inName hsecond hend, hwords, Binisaya.takeWhile_inName hsecond' hend']

theorem phrases_injective : ∀ e ∈ phrases, ∀ e' ∈ phrases, e.1.toList = e'.1.toList →
    e.2.1.toList = e'.2.1.toList → e = e' := by decide

theorem startsWithPhrase_of_scanPhrase? {r : Token × List Char} (h : scanPhrase? cs = some r) :
    ∃ first second t space rest, (first, second, t) ∈ phrases ∧ StartsWithPhrase first second space rest cs ∧
      r = (t, first.toList ++ space ++ second.toList) := by
  rw [scanPhrase?] at h
  obtain ⟨⟨first, second, t⟩, hmem, hphrase⟩ := List.exists_of_findSome?_eq_some h
  obtain ⟨text, htext, rfl⟩ := Option.map_eq_some_iff.1 hphrase
  obtain ⟨space, rest, hstarts, rfl⟩ := (phraseText?_eq_some_iff (isName_phrase hmem).2).1 htext
  exact ⟨first, second, t, space, rest, hmem, hstarts, rfl⟩

/-- A phrase is scanned exactly where it stands, whatever its space. -/
theorem scanPhrase?_eq_some_iff {r : Token × List Char} :
    scanPhrase? cs = some r ↔
      ∃ first second t space rest, (first, second, t) ∈ phrases ∧ StartsWithPhrase first second space rest cs ∧
        r = (t, first.toList ++ space ++ second.toList) := by
  constructor
  · exact startsWithPhrase_of_scanPhrase?
  · rintro ⟨first, second, t, space, rest, hmem, hstarts, rfl⟩
    have hsome : (scanPhrase? cs).isSome := by
      rw [scanPhrase?, List.findSome?_isSome_iff]
      refine ⟨_, hmem, ?_⟩
      change ((phraseText? first second cs).map (t, ·)).isSome = true
      rw [(phraseText?_eq_some_iff (isName_phrase hmem).2).2 ⟨space, rest, hstarts, rfl⟩]
      rfl
    -- Some phrase is scanned, and no other one can stand here.
    obtain ⟨r, hr⟩ := Option.isSome_iff_exists.1 hsome
    obtain ⟨first', second', t', space', rest', hmem', hstarts', rfl⟩ := startsWithPhrase_of_scanPhrase? hr
    obtain ⟨hfirst, hspace, hsecond⟩ := hstarts.unique hstarts' (isName_phrase hmem).1 (isName_phrase hmem').1
      (isName_phrase hmem).2 (isName_phrase hmem').2
    have htoken := congrArg (·.2.2) (phrases_injective _ hmem _ hmem' hfirst hsecond)
    rw [hr, hfirst, hspace, hsecond]
    exact congrArg (fun u => some (u, first'.toList ++ space' ++ second'.toList)) htoken.symm

theorem not_spelling_of_phrase : ∀ e ∈ phrases, ∀ t ∈ TypeWord.all, e.1.toList ≠ t.spelling.toList := by decide

/-- What a word is scanned as: the word of a type, a phrase, or else its whole name. -/
theorem scanWord_cases (cs : List Char) :
    (∃ t rest, cs = t.spelling.toList ++ rest ∧ atWordEnd rest = true ∧
      scanWord cs = (.typeWord t, t.spelling.toList)) ∨
    (∃ first second t space rest, (first, second, t) ∈ phrases ∧ StartsWithPhrase first second space rest cs ∧
      scanWord cs = (t, first.toList ++ space ++ second.toList)) ∨
    (scanTypeWord? cs = none ∧ scanPhrase? cs = none ∧
      scanWord cs = (wordToken (cs.takeWhile inName), cs.takeWhile inName)) := by
  rw [scanWord]
  cases htype : scanTypeWord? cs with
  | some r =>
      obtain ⟨t, rest, hcs, hend, rfl⟩ := scanTypeWord?_eq_some_iff.1 htype
      exact .inl ⟨t, rest, hcs, hend, rfl⟩
  | none =>
      cases hphrase : scanPhrase? cs with
      | some r =>
          obtain ⟨first, second, t, space, rest, hmem, hstarts, rfl⟩ := scanPhrase?_eq_some_iff.1 hphrase
          exact .inr (.inl ⟨first, second, t, space, rest, hmem, hstarts, rfl⟩)
      | none => exact .inr (.inr ⟨rfl, rfl, rfl⟩)

theorem length_takeWhile_le_scanWord (cs : List Char) : (cs.takeWhile inName).length ≤ (scanWord cs).2.length := by
  rcases scanWord_cases cs with ⟨t, rest, rfl, hend, hword⟩ | ⟨first, second, t, space, rest, hmem, hstarts, hword⟩ |
    ⟨-, -, hword⟩
  · rw [hword, takeWhile_inName (isName_spelling t) hend]
  · rw [hword, hstarts.takeWhile_inName (isName_phrase hmem).1, List.append_assoc, List.length_append]
    exact Nat.le_add_right _ _
  · rw [hword]

theorem wordToken_cases (name : List Char) :
    (String.ofList name, wordToken name) ∈ keywords ∨ wordToken name = .ident (.ofList name) := by
  rw [wordToken]
  cases h : keywords.lookup (.ofList name) with
  | none => exact .inr rfl
  | some t =>
      obtain ⟨before, after, hkeywords, -⟩ := List.lookup_eq_some_iff.1 h
      rw [hkeywords]
      exact .inl (List.mem_append_right before (List.mem_cons_self ..))

theorem wordToken_keyword {word : String} {t : Token} (h : (word, t) ∈ keywords) : wordToken word.toList = t := by
  have hall : ∀ e ∈ keywords, wordToken e.1.toList = e.2 := by decide
  exact hall (word, t) h

theorem scanWord_typeWord (t : TypeWord) (hend : atWordEnd rest = true) :
    scanWord (t.spelling.toList ++ rest) = (.typeWord t, t.spelling.toList) := by
  rw [scanWord, scanTypeWord?_eq_some_iff.2 ⟨t, rest, rfl, hend, rfl⟩]
  rfl

theorem scanWord_phrase {first second : String} {t : Token} {space : List Char} (hmem : (first, second, t) ∈ phrases)
    (h : StartsWithPhrase first second space rest cs) : scanWord cs = (t, first.toList ++ space ++ second.toList) := by
  -- the first word, which is the whole name, names no type
  have htype : scanTypeWord? cs = none := by
    rw [Option.eq_none_iff_forall_ne_some]
    intro r hr
    obtain ⟨u, rest', hcs, hend, -⟩ := scanTypeWord?_eq_some_iff.1 hr
    refine not_spelling_of_phrase _ hmem u (mem_typeWords u) ?_
    rw [← h.takeWhile_inName (isName_phrase hmem).1, hcs, takeWhile_inName (isName_spelling u) hend]
  rw [scanWord, htype, scanPhrase?_eq_some_iff.2 ⟨first, second, t, space, rest, hmem, h, rfl⟩]
  rfl

theorem not_spelling_of_keyword : ∀ e ∈ keywords, ∀ t ∈ TypeWord.all, e.1.toList ≠ t.spelling.toList := by decide

/-- Where nothing longer is scanned, a keyword is scanned as itself. -/
theorem scanWord_keyword {word : String} {t : Token} (h : (word, t) ∈ keywords)
    (hlength : (scanWord (word.toList ++ rest)).2.length = word.toList.length) :
    (scanWord (word.toList ++ rest)).1 = t := by
  have hname := inName_of_isName (isName_keyword h)
  have hle := length_le_takeWhile_append hname rest
  rcases scanWord_cases (word.toList ++ rest) with ⟨u, rest', hcs, -, hword⟩ |
    ⟨first, second, u, space, rest', hmem, hstarts, hword⟩ | ⟨-, -, hword⟩
  · rw [hword] at hlength
    obtain ⟨hsame, -⟩ := List.append_inj hcs hlength.symm
    exact absurd hsame (not_spelling_of_keyword _ h u (mem_typeWords u))
  · have hspace := List.length_pos_iff.2 hstarts.2.1
    rw [hword] at hlength
    rw [hstarts.takeWhile_inName (isName_phrase hmem).1] at hle
    simp only [List.length_append] at hlength
    omega
  · rw [hword] at hlength ⊢
    rw [List.takeWhile_append_of_pos hname, List.length_append] at hlength
    have hnil : rest.takeWhile inName = [] := List.eq_nil_of_length_eq_zero (by omega)
    rw [List.takeWhile_append_of_pos hname, hnil, List.append_nil]
    exact wordToken_keyword h

end Words

end Binisaya
