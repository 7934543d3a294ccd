import Binisaya.Proofs.Grammar.Viability

/-! The parser looks at no token behind the one that it gives up at. Two runs on tokens that agree up to some token do
the same as long as the first does not get past that token, whatever follows in the other; and as the numbers that
bound repetition and nesting depend on all the tokens, the two runs may have different ones. So where the parser gives
up, no program goes on with the same tokens. -/

namespace Binisaya.Parser

open Grammar

/-- Two parsers on tokens that agree up to one with fewer than `k` before it: if the first leaves that token, with what
it has not taken before it, or gives up there, so does the second. -/
structure Local {α : Type} (k : Nat) (p q : Parser α) (L : List Token → Prop) : Prop where
  viable : Viable p L
  ok : ∀ {pre suf t after a} (after' : List Token), pre.length < k →
    p (pre ++ t :: after) = .ok (a, suf ++ t :: after) → q (pre ++ t :: after') = .ok (a, suf ++ t :: after')
  error : ∀ {pre t after} (after' : List Token), pre.length < k →
    p (pre ++ t :: after) = .error (t :: after) → q (pre ++ t :: after') = .error (t :: after')

section Combining

variable {α β : Type} {k j : Nat} {L L' : List Token → Prop} {p q : Parser α}

theorem local_zero (hv : Viable p L) (q : Parser α) : Local 0 p q L where
  viable := hv
  ok := fun _ h => absurd h (Nat.not_lt_zero _)
  error := fun _ h => absurd h (Nat.not_lt_zero _)

theorem Local.mono (h : Local k p q L) (hj : j ≤ k) : Local j p q L where
  viable := h.viable
  ok := fun after' hpre => h.ok after' (Nat.lt_of_lt_of_le hpre hj)
  error := fun after' hpre => h.error after' (Nat.lt_of_lt_of_le hpre hj)

theorem Local.withViable (h : Local k p q L) (hv : Viable p L') : Local k p q L' where
  viable := hv
  ok := h.ok
  error := h.error

theorem local_pure (a : α) : Local k (pure a : Parser α) (pure a) (· = []) where
  viable := viable_pure a
  ok := by
    intro pre suf t after b after' _ h
    obtain ⟨rfl, hsame⟩ := pure_ok.1 h
    rw [List.append_cancel_right hsame]
    rfl
  error := fun _ _ h => by cases h

theorem local_reject (h : ∃ w, L w) : Local k (reject : Parser α) reject L where
  viable := viable_reject h
  ok := fun _ _ h => by cases h
  error := by
    intro pre t after after' _ h
    obtain rfl : pre = [] := List.append_left_eq_self.1 (Except.error.inj h)
    rfl

/-- A parser that takes the next token or gives up at it. -/
theorem local_single (hv : Viable p L)
    (h : ∀ u, (∃ a, ∀ ts, p (u :: ts) = .ok (a, ts)) ∨ ∀ ts, p (u :: ts) = .error (u :: ts)) : Local k p p L where
  viable := hv
  ok := by
    intro pre suf t after b after' _ hok
    cases pre with
    | nil =>
        rcases h t with ⟨a, ha⟩ | herror
        · rw [List.nil_append, ha] at hok
          have hlength := congrArg List.length (Prod.mk.inj (Except.ok.inj hok)).2
          simp only [List.length_append, List.length_cons] at hlength
          omega
        · rw [List.nil_append, herror] at hok
          cases hok
    | cons u pre =>
        rcases h u with ⟨a, ha⟩ | herror
        · rw [List.cons_append, ha] at hok
          obtain ⟨rfl, hsame⟩ := Prod.mk.inj (Except.ok.inj hok)
          rw [List.cons_append, ha, List.append_cancel_right hsame]
        · rw [List.cons_append, herror] at hok
          cases hok
  error := by
    intro pre t after after' _ herror
    cases pre with
    | nil =>
        rcases h t with ⟨a, ha⟩ | hall
        · rw [List.nil_append, ha] at herror
          cases herror
        · exact hall after'
    | cons u pre =>
        rcases h u with ⟨a, ha⟩ | hall
        · rw [List.cons_append, ha] at herror
          cases herror
        · rw [List.cons_append, hall] at herror
          have hlength := congrArg List.length (Except.error.inj herror)
          simp only [List.length_append, List.length_cons] at hlength
          omega

/-- Parsers that do one thing or another by the next token. -/
theorem Local.by_head (hv : Viable p L)
    (h : ∀ u, ∃ p' q' L', Local k p' q' L' ∧ AgreeAt (some u) p p' ∧ AgreeAt (some u) q q') : Local k p q L := by
  have hhead (pre : List Token) (t : Token) : ∃ u, ∀ after, (pre ++ t :: after).head? = some u := by
    cases pre with
    | nil => exact ⟨t, fun _ => rfl⟩
    | cons u pre => exact ⟨u, fun _ => rfl⟩
  refine ⟨hv, ?_, ?_⟩
  · intro pre suf t after a after' hpre hok
    obtain ⟨u, hu⟩ := hhead pre t
    obtain ⟨p', q', L', hlocal, hp, hq⟩ := h u
    rw [hp _ (hu after)] at hok
    rw [hq _ (hu after')]
    exact hlocal.ok after' hpre hok
  · intro pre t after after' hpre herror
    obtain ⟨u, hu⟩ := hhead pre t
    obtain ⟨p', q', L', hlocal, hp, hq⟩ := h u
    rw [hp _ (hu after)] at herror
    rw [hq _ (hu after')]
    exact hlocal.error after' hpre herror

/-- One parser after another. The second has fewer tokens before the one in question, by those that the first takes. -/
theorem Local.bind [Nonempty α] {f g : α → Parser β} (hp : Local k p q L) (hL : ∀ w, L w → k ≤ j + w.length)
    (hf : ∀ a, Local j (f a) (g a) L') : Local k (p >>= f) (q >>= g) (Followed L L') := by
  -- what the first parser leaves starts before the token in question
  have hmid {pre before after : List Token} {t : Token} {a : α} (hpre : pre.length < k)
      (ha : p (pre ++ t :: after) = .ok (a, before ++ t :: after)) : before.length < j := by
    obtain ⟨w, hw, hword⟩ := hp.viable.ok ha
    have hk := hL w hword
    have hlength := congrArg List.length hw
    simp only [List.length_append, List.length_cons] at hlength
    omega
  refine ⟨hp.viable.bind fun a => (hf a).viable, ?_, ?_⟩
  · intro pre suf t after b after' hpre hok
    obtain ⟨a, mid, ha, hb⟩ := bind_ok.1 hok
    obtain ⟨taken, rfl, -⟩ := (hf a).viable.ok hb
    rw [← List.append_assoc] at ha hb
    exact bind_ok.2 ⟨a, _, hp.ok after' hpre ha, (hf a).ok after' (hmid hpre ha) hb⟩
  · intro pre t after after' hpre herror
    rcases bind_error.1 herror with ha | ⟨a, mid, ha, hb⟩
    · exact bind_error.2 (.inl (hp.error after' hpre ha))
    · obtain ⟨taken, more, rfl, -⟩ := (hf a).viable.error hb
      exact bind_error.2 (.inr ⟨a, _, hp.ok after' hpre ha, (hf a).error after' (hmid hpre ha) hb⟩)

/-- One parser after another, where it does not matter that the first takes tokens. -/
theorem Local.seq [Nonempty α] {f g : α → Parser β} (hp : Local k p q L) (hf : ∀ a, Local k (f a) (g a) L') :
    Local k (p >>= f) (q >>= g) (Followed L L') :=
  hp.bind (fun _ _ => Nat.le_add_right _ _) hf

theorem local_expect (t : Token) : Local k (expect t) (expect t) (· = [t]) := by
  refine local_single (viable_expect t) fun u => ?_
  by_cases hu : u = t
  · exact .inl ⟨(), fun ts => by simp [expect, hu]⟩
  · exact .inr fun ts => by simp [expect, hu]

theorem local_name : Local k name name (Derived fun x : String => [.ident x]) := by
  refine local_single viable_name fun u => ?_
  cases u with
  | ident x => exact .inl ⟨x, fun ts => rfl⟩
  | _ => exact .inr fun ts => rfl

theorem local_typeWord : Local k typeWord typeWord (Derived fun t : TypeWord => [.typeWord t]) := by
  refine local_single viable_typeWord fun u => ?_
  cases u with
  | typeWord t => exact .inl ⟨t, fun ts => rfl⟩
  | _ => exact .inr fun ts => rfl

theorem local_ending : Local k ending ending (· = []) :=
  Local.by_head viable_ending fun _ =>
    ⟨reject, reject, _, local_reject ⟨[], rfl⟩, agreeAt_cons fun _ => rfl, agreeAt_cons fun _ => rfl⟩

/-- Parsers after a token that must come, which is one of those before the token in question. -/
theorem Local.next (h : Local k p q L) (t : Token) :
    Local (k + 1) (expect t >>= fun _ => p) (expect t >>= fun _ => q) (Followed (· = [t]) L) := by
  refine (local_expect t).bind ?_ (fun _ => h)
  rintro w rfl
  exact Nat.le_refl _

/-- Parsers after a token that must come. -/
theorem Local.after (h : Local k p q L) (t : Token) :
    Local k (expect t >>= fun _ => p) (expect t >>= fun _ => q) (Followed (· = [t]) L) :=
  (h.next t).mono (Nat.le_succ k)

theorem Local.result (h : Local k p q L) (g : α → β) :
    Local k (p >>= fun a => pure (g a)) (q >>= fun a => pure (g a)) L where
  viable := h.viable.result g
  ok := by
    intro pre suf t after b after' hpre hok
    obtain ⟨a, mid, ha, hb⟩ := bind_ok.1 hok
    obtain ⟨rfl, rfl⟩ := pure_ok.1 hb
    exact bind_ok.2 ⟨a, _, h.ok after' hpre ha, pure_ok.2 ⟨rfl, rfl⟩⟩
  error := by
    intro pre t after after' hpre herror
    rcases bind_error.1 herror with ha | ⟨a, mid, -, hpure⟩
    · exact bind_error.2 (.inl (h.error after' hpre ha))
    · cases hpure

theorem Local.map (h : Local k p q L) (f : α → β) : Local k (f <$> p) (f <$> q) L := by
  rw [← bind_pure_comp, ← bind_pure_comp]
  exact h.result f

/-- Parsers before a token that must come. -/
theorem Local.before [Nonempty α] (h : Local k p q L) (t : Token) (g : α → β) :
    Local k (p >>= fun a => expect t >>= fun _ => pure (g a)) (q >>= fun a => expect t >>= fun _ => pure (g a))
      (Followed L (· = [t])) :=
  h.seq fun a => (local_expect t).result fun _ => g a

end Combining

section Operators

variable {k bound bound' : Nat} {p q : Parser Expr}

theorem chainTail_local {ops : List BinaryOp} {tighter : List (List BinaryOp)}
    (hp : Local k p q (Derived (@Operation.tokens tighter))) {n n' : Nat} (hn : k ≤ n) (hn' : k ≤ n') (e : Expr) :
    Local k (chainTail ops p n e) (chainTail ops q n' e) (Derived (@Tail.tokens ops tighter)) := by
  induction k generalizing n n' e with
  | zero => exact local_zero (chainTail_viable hp.viable n e) _
  | succ k ih =>
      obtain ⟨m, rfl⟩ : ∃ m, n = m + 1 := ⟨n - 1, by omega⟩
      obtain ⟨m', rfl⟩ : ∃ m', n' = m' + 1 := ⟨n' - 1, by omega⟩
      have hp' := hp.mono (Nat.le_succ k)
      refine Local.by_head (chainTail_viable hp.viable _ e) fun u => ?_
      rcases chainTail_cases ops (some u) with ⟨op, -, h⟩ | h
      · have htail (right : Expr) := ih hp' (Nat.le_of_succ_le_succ hn) (Nat.le_of_succ_le_succ hn') (.binary op e right)
        exact ⟨_, _, _, (hp'.seq htail).next _, h p m e, h q m' e⟩
      · exact ⟨_, _, _, local_pure e, h p m e, h q m' e⟩

theorem levels_local (hp : Local k p q (Derived Unary.tokens)) (hbound : k ≤ bound) (hbound' : k ≤ bound')
    (levels : List (List BinaryOp)) :
    Local k (levels.foldr (chain bound) p) (levels.foldr (chain bound') q) (Derived (@Operation.tokens levels)) := by
  induction levels with
  | nil => exact hp.withViable (@levels_viable bound p hp.viable [])
  | cons ops tighter ih =>
      exact (ih.seq (chainTail_local ih hbound hbound')).withViable (levels_viable hp.viable (ops :: tighter))

end Operators

/-- The parser gets past some first tokens. -/
def Passes {α : Type} (w : List Token) (p : Parser α) : Prop := ∀ ts,
  (∀ a rest, p (w ++ ts) = .ok (a, rest) → rest.length ≤ ts.length) ∧
    ∀ left, p (w ++ ts) = .error left → left.length ≤ ts.length

section Passing

variable {α β : Type} {w : List Token} {p : Parser α}

/-- A parser that gets past a token neither leaves it nor gives up at it. -/
theorem Passes.ne (h : Passes w p) {pre after : List Token} {t : Token} (ts : List Token)
    (hts : pre ++ t :: after = w ++ ts) (hpre : pre.length < w.length) :
    (∀ a suf, p (pre ++ t :: after) ≠ .ok (a, suf ++ t :: after)) ∧ p (pre ++ t :: after) ≠ .error (t :: after) := by
  have hlength := congrArg List.length hts
  simp only [List.length_append, List.length_cons] at hlength
  rw [hts]
  refine ⟨fun a suf hok => ?_, fun herror => ?_⟩
  · have hrest := (h ts).1 a _ hok
    simp only [List.length_append, List.length_cons] at hrest
    omega
  · have hleft := (h ts).2 _ herror
    simp only [List.length_cons] at hleft
    omega

theorem Passes.bind {f : α → Parser β} {L : List Token → Prop} (hp : Passes w p) (hf : ∀ a, Viable (f a) L) :
    Passes w (p >>= f) := by
  intro ts
  refine ⟨fun b rest h => ?_, fun left h => ?_⟩
  · obtain ⟨a, mid, ha, hb⟩ := bind_ok.1 h
    obtain ⟨taken, rfl, -⟩ := (hf a).ok hb
    have hlength := (hp ts).1 a _ ha
    rw [List.length_append] at hlength
    omega
  · rcases bind_error.1 h with ha | ⟨a, mid, ha, hb⟩
    · exact (hp ts).2 left ha
    · obtain ⟨taken, more, rfl, -⟩ := (hf a).error hb
      have hlength := (hp ts).1 a _ ha
      rw [List.length_append] at hlength
      omega

end Passing

section Assignments

variable {k bound bound' : Nat} {p q : Parser Expr}

theorem levels_passes {w : List Token} (hp : Passes w p) (hv : Viable p (Derived Unary.tokens))
    (levels : List (List BinaryOp)) : Passes w (levels.foldr (chain bound) p) := by
  induction levels with
  | nil => exact hp
  | cons ops tighter ih => exact ih.bind (chainTail_viable (levels_viable hv tighter) bound)

/-- An assignment is begun with two tokens. -/
theorem expressionOf_passes (hv : Viable p (Derived Unary.tokens)) (x : String) :
    Passes [.ident x, .equals] (expressionOf bound p) := by
  intro ts
  have hassign : expressionOf bound p ([.ident x, .equals] ++ ts) =
      (expressionOf bound p ts).map fun r => (.assign x r.1, r.2) := by
    rw [List.cons_append, List.cons_append, List.nil_append, expressionOf]
  rw [hassign]
  cases hts : expressionOf bound p ts with
  | ok r =>
      obtain ⟨taken, htaken, -⟩ := (expressionOf_viable hv).ok hts
      constructor
      · intro a rest h
        cases h
        rw [htaken, List.length_append]
        exact Nat.le_add_left _ _
      · intro left h
        cases h
  | error left' =>
      obtain ⟨taken, more, htaken, -⟩ := (expressionOf_viable hv).error hts
      constructor
      · intro a rest h
        cases h
      · intro left h
        cases h
        rw [htaken, List.length_append]
        exact Nat.le_add_left _ _

theorem expressionOf_eq_operation {ts : List Token} (h : ¬∃ x rest, ts = .ident x :: .equals :: rest) :
    expressionOf bound p ts = operation bound p ts := by
  rw [expressionOf]
  intro x rest hts
  exact h ⟨x, rest, hts⟩

/-- Whether an expression is an assignment is told by its first two tokens. Only if the token in question is the first
of them can the two runs take different ways, and then neither leaves it. -/
theorem expressionOf_local (hp : Local k p q (Derived Unary.tokens)) (hname : 0 < k → ∀ x, Passes [.ident x] p)
    (hbound : k ≤ bound) (hbound' : k ≤ bound') :
    Local k (expressionOf bound p) (expressionOf bound' q) (Derived Expression.tokens) := by
  have hv := hp.viable
  have hoperation : Local k (operation bound p) (operation bound' q) (Derived (@Operation.tokens precedence)) :=
    levels_local hp hbound hbound' precedence
  have hboth (pre : List Token) (t : Token) (after after' : List Token) (hpre : pre.length < k) :
      (∀ a suf, expressionOf bound p (pre ++ t :: after) = .ok (a, suf ++ t :: after) →
        expressionOf bound' q (pre ++ t :: after') = .ok (a, suf ++ t :: after')) ∧
      (expressionOf bound p (pre ++ t :: after) = .error (t :: after) →
        expressionOf bound' q (pre ++ t :: after') = .error (t :: after')) := by
    induction pre using expressionOf.induct with
    | case1 x pre ih =>
        have ih := ih (by simp only [List.length_cons] at hpre; omega)
        simp only [List.cons_append]
        rw [expressionOf, expressionOf]
        cases hrest : expressionOf bound p (pre ++ t :: after) with
        | ok r =>
            constructor
            · intro a suf hok
              obtain ⟨e, rest⟩ := r
              obtain ⟨rfl, rfl⟩ := Prod.mk.inj (Except.ok.inj hok)
              rw [ih.1 e suf hrest]
              rfl
            · intro herror
              cases herror
        | error left =>
            constructor
            · intro a suf hok
              cases hok
            · intro herror
              cases herror
              rw [ih.2 hrest]
              rfl
    | case2 pre hnot =>
        by_cases hassign : ∃ x rest, pre ++ t :: after = .ident x :: .equals :: rest
        · obtain ⟨x, rest, hts⟩ := hassign
          have hshort : pre.length < 2 := by
            cases pre with
            | nil => exact Nat.zero_lt_succ 1
            | cons u pre =>
                cases pre with
                | nil => exact Nat.lt_succ_self 1
                | cons u' pre =>
                    cases hts
                    exact absurd rfl (hnot x pre)
          obtain ⟨hok, herror⟩ := (@expressionOf_passes bound p hv x).ne rest hts hshort
          exact ⟨fun a suf h => absurd h (hok a suf), fun h => absurd h herror⟩
        · rw [expressionOf_eq_operation hassign]
          by_cases hassign' : ∃ x rest, pre ++ t :: after' = .ident x :: .equals :: rest
          · obtain ⟨x, rest, hassign'⟩ := hassign'
            obtain ⟨rfl, rfl⟩ : pre = [] ∧ t = .ident x := by
              cases pre with
              | nil =>
                  cases hassign'
                  exact ⟨rfl, rfl⟩
              | cons u pre =>
                  cases pre with
                  | nil =>
                      cases hassign'
                      exact absurd ⟨x, after, rfl⟩ hassign
                  | cons u' pre =>
                      cases hassign'
                      exact absurd rfl (hnot x pre)
            have hpasses := @levels_passes bound p _ (hname (Nat.zero_lt_of_lt hpre) x) hv precedence
            have hts : [] ++ .ident x :: after = [.ident x] ++ after := rfl
            obtain ⟨hok, herror⟩ := hpasses.ne after hts (Nat.zero_lt_succ 0)
            exact ⟨fun a suf h => absurd h (hok a suf), fun h => absurd h herror⟩
          · rw [expressionOf_eq_operation hassign']
            exact ⟨fun a suf h => hoperation.ok after' hpre h, fun h => hoperation.error after' hpre h⟩
  exact ⟨expressionOf_viable hv, fun after' hpre h => (hboth _ _ _ after' hpre).1 _ _ h,
    fun after' hpre h => (hboth _ _ _ after' hpre).2 h⟩

end Assignments

theorem operand_passes {bound n : Nat} (hn : 0 < n) (x : String) : Passes [.ident x] (operand bound n) := by
  obtain ⟨m, rfl⟩ : ∃ m, n = m + 1 := ⟨n - 1, by omega⟩
  intro ts
  constructor
  · intro a rest h
    cases h
    exact Nat.le_refl _
  · intro left h
    cases h

/-- Each sign or parenthesis that is opened is one of the tokens before the one in question. -/
theorem operand_local {k bound bound' n n' : Nat} (hbound : k ≤ bound) (hbound' : k ≤ bound') (hn : k ≤ n)
    (hn' : k ≤ n') : Local k (operand bound n) (operand bound' n') (Derived Unary.tokens) := by
  induction k generalizing n n' with
  | zero => exact local_zero (operand_viable bound n) _
  | succ k ih =>
      obtain ⟨m, rfl⟩ : ∃ m, n = m + 1 := ⟨n - 1, by omega⟩
      obtain ⟨m', rfl⟩ : ∃ m', n' = m' + 1 := ⟨n' - 1, by omega⟩
      have hinner : Local k (operand bound m) (operand bound' m') (Derived Unary.tokens) :=
        ih (by omega) (by omega) (by omega) (by omega)
      refine Local.by_head (operand_viable bound _) fun u => ?_
      rcases operand_cases (some u) with ⟨op, h⟩ | ⟨d, t, e, -, h⟩ | h | h
      · exact ⟨_, _, _, (hinner.map _).next _, h bound m, h bound' m'⟩
      · exact ⟨_, _, _, (local_pure e).next t, h bound m, h bound' m'⟩
      · have hgroup := @expressionOf_local _ bound bound' _ _ hinner (fun hk => operand_passes (by omega)) (by omega)
          (by omega)
        exact ⟨_, _, _, (hgroup.before _ _).next _, h bound m, h bound' m'⟩
      · exact ⟨_, _, _, local_reject hinner.viable.inhabited, h bound m, h bound' m'⟩

/-! ### Statements

From here on `k` is at most the numbers that the two runs are given. -/

section Statements

variable {k bound bound' : Nat} (hbound : k ≤ bound) (hbound' : k ≤ bound')

include hbound hbound'

theorem expression_local : Local k (expression bound) (expression bound') (Derived Expression.tokens) :=
  expressionOf_local (operand_local hbound hbound' hbound hbound')
    (fun hk => operand_passes (Nat.lt_of_lt_of_le hk hbound)) hbound hbound'

theorem condition_local : Local k (condition bound) (condition bound')
    (Derived fun d : Expression => .leftParen :: (d.tokens ++ [.rightParen])) :=
  (((expression_local hbound hbound').before .rightParen id).after .leftParen).withViable (condition_viable bound)

theorem items_local {α τ : Type} [Nonempty α] {item item' : Parser α} {tokens : τ → List Token}
    (hitem : Local k item item' (Derived tokens)) :
    Local k (items bound item) (items bound' item') (Followed (Derived tokens) (Derived (commaTokens tokens))) := by
  have hmore (j : Nat) (hitem : Local j item item' (Derived tokens)) {n n' : Nat} (hn : j ≤ n) (hn' : j ≤ n') :
      Local j (moreItems item n) (moreItems item' n') (Derived (commaTokens tokens)) := by
    induction j generalizing n n' with
    | zero => exact local_zero (moreItems_viable hitem.viable n) _
    | succ j ih =>
        obtain ⟨m, rfl⟩ : ∃ m, n = m + 1 := ⟨n - 1, by omega⟩
        obtain ⟨m', rfl⟩ : ∃ m', n' = m' + 1 := ⟨n' - 1, by omega⟩
        have hitem' := hitem.mono (Nat.le_succ j)
        have hrest := ih hitem' (Nat.le_of_succ_le_succ hn) (Nat.le_of_succ_le_succ hn')
        refine Local.by_head (moreItems_viable hitem.viable _) fun u => ?_
        rcases moreItems_cases (some u) with h | h
        · exact ⟨_, _, _, (hitem'.seq fun a => hrest.result (a :: ·)).next _, h α item m, h α item' m'⟩
        · exact ⟨_, _, _, local_pure [], h α item m, h α item' m'⟩
  exact hitem.seq fun a => (hmore k hitem hbound hbound').result (a :: ·)

theorem initialValue_local (x : String) : Local k (initialValue bound x) (initialValue bound' x)
    (Derived fun init : Option Expression => init.elim [] fun e => .equals :: e.tokens) := by
  refine Local.by_head (initialValue_viable bound x) fun u => ?_
  rcases initialValue_cases (some u) with h | h
  · have hexpression := (expression_local hbound hbound').result fun e => (x, some e)
    exact ⟨_, _, _, hexpression.after _, h bound x, h bound' x⟩
  · exact ⟨_, _, _, local_pure (x, none), h bound x, h bound' x⟩

theorem declaredItem_local : Local k (declaredItem bound) (declaredItem bound') (Derived DeclItem.tokens) :=
  (local_name.seq (initialValue_local hbound hbound')).withViable (declaredItem_viable bound)

theorem declaration_local : Local k (declaration bound) (declaration bound') (RestOf .mugna) := by
  have hitems := items_local hbound hbound' (declaredItem_local hbound hbound')
  exact (local_typeWord.seq fun t => hitems.result (Stmt.declare t)).withViable (declaration_viable bound)

theorem printed_local : Local k (printed bound) (printed bound') (RestOf .ipakita) :=
  (((expression_local hbound hbound').result Stmt.print).after .colon).withViable (printed_viable bound)

theorem inputTargets_local : Local k (inputTargets bound) (inputTargets bound') (RestOf .dawat) :=
  (((items_local hbound hbound' local_name).result Stmt.input).after .colon).withViable (inputTargets_viable bound)

end Statements

theorem statementsUntil_local {k n n' : Nat} {stmt stmt' : Parser Stmt}
    (hstmt : Local k stmt stmt' (Derived Statement.tokens)) (stop : Token) (hn : k ≤ n) (hn' : k ≤ n') :
    Local k (statementsUntil stop stmt n) (statementsUntil stop stmt' n') (Derived statementsTokens) := by
  -- a statement takes at least one token
  have hlength (k : Nat) (w : List Token) (hw : Derived Statement.tokens w) : k + 1 ≤ k + w.length := by
    obtain ⟨d, rfl⟩ := hw
    obtain ⟨t, ts, htokens, -⟩ := d.tokens_eq_cons
    rw [htokens, List.length_cons]
    omega
  induction k generalizing n n' with
  | zero => exact local_zero (statementsUntil_viable hstmt.viable stop n) _
  | succ k ih =>
      obtain ⟨m, rfl⟩ : ∃ m, n = m + 1 := ⟨n - 1, by omega⟩
      obtain ⟨m', rfl⟩ : ∃ m', n' = m' + 1 := ⟨n' - 1, by omega⟩
      have hmore := ih (hstmt.mono (Nat.le_succ k)) (Nat.le_of_succ_le_succ hn) (Nat.le_of_succ_le_succ hn')
      refine Local.by_head (statementsUntil_viable hstmt.viable stop _) fun u => ?_
      rcases statementsUntil_cases stop (some u) with h | h
      · exact ⟨_, _, _, local_pure [], h stmt m, h stmt' m'⟩
      · exact ⟨_, _, _, hstmt.bind (hlength k) fun s => hmore.result (s :: ·), h stmt m, h stmt' m'⟩

section Blocks

variable {k bound bound' : Nat} {stmt stmt' : Parser Stmt} (hbound : k ≤ bound) (hbound' : k ≤ bound')
  (hstmt : Local k stmt stmt' (Derived Statement.tokens))

include hbound hbound' hstmt

theorem block_local : Local k (block bound stmt) (block bound' stmt') (Derived Block.tokens) := by
  have hbody := (statementsUntil_local hstmt .rightBrace hbound hbound').before .rightBrace id
  exact (((hbody.after .lineEnd).after .leftBrace).after .pundok).withViable (block_viable hstmt.viable)

theorem otherwise_local {n n' : Nat} (hn : k ≤ n) (hn' : k ≤ n') :
    Local k (otherwise bound stmt n) (otherwise bound' stmt' n') Clauses := by
  induction k generalizing n n' with
  | zero => exact local_zero (otherwise_viable hstmt.viable n) _
  | succ k ih =>
      obtain ⟨m, rfl⟩ : ∃ m, n = m + 1 := ⟨n - 1, by omega⟩
      obtain ⟨m', rfl⟩ : ∃ m', n' = m' + 1 := ⟨n' - 1, by omega⟩
      have hcondition := @condition_local k bound bound' (Nat.le_of_succ_le hbound) (Nat.le_of_succ_le hbound')
      have hstmt' := hstmt.mono (Nat.le_succ k)
      have hblock := block_local (Nat.le_of_succ_le hbound) (Nat.le_of_succ_le hbound') hstmt'
      have hmore := ih (Nat.le_of_succ_le hbound) (Nat.le_of_succ_le hbound') hstmt' (Nat.le_of_succ_le_succ hn)
        (Nat.le_of_succ_le_succ hn')
      refine Local.by_head (otherwise_viable hstmt.viable _) fun u => ?_
      rcases otherwise_cases (some u) with h | h | h
      · exact ⟨_, _, _, (hcondition.seq fun c => hblock.seq fun body => hmore.result (Otherwise.branch c body)).next _,
          h bound m stmt, h bound' m' stmt'⟩
      · exact ⟨_, _, _, (hblock.result Otherwise.block).next _, h bound m stmt, h bound' m' stmt'⟩
      · exact ⟨_, _, _, local_pure .nothing, h bound m stmt, h bound' m' stmt'⟩

theorem branching_local : Local k (branching bound stmt) (branching bound' stmt') (RestOf .kung) := by
  have hclauses := otherwise_local hbound hbound' hstmt hbound hbound'
  exact ((condition_local hbound hbound').seq fun c => (block_local hbound hbound' hstmt).seq fun body =>
    hclauses.result (Stmt.branch c body)).withViable (branching_viable hstmt.viable)

theorem looping_local : Local k (looping bound stmt) (looping bound' stmt') (RestOf .samtang) :=
  ((condition_local hbound hbound').seq fun c => (block_local hbound hbound' hstmt).result (Stmt.loop c)).withViable
    (looping_viable hstmt.viable)

theorem counting_local : Local k (counting bound stmt) (counting bound' stmt') (RestOf .alangSa) := by
  have hexpression := expression_local hbound hbound'
  have hblock := block_local hbound hbound' hstmt
  have hupdate (i c : Expr) := (hexpression.seq fun u => (hblock.result (Stmt.count i c u)).after .rightParen).after
    .comma
  exact ((hexpression.seq fun i => (hexpression.seq fun c => hupdate i c).after .comma).after .leftParen).withViable
    (counting_viable hstmt.viable)

end Blocks

/-- A statement in a block stands behind the word that the block belongs to. -/
theorem statement_local {k bound bound' n n' : Nat} (hbound : k ≤ bound) (hbound' : k ≤ bound') (hn : k ≤ n)
    (hn' : k ≤ n') : Local k (statement bound n) (statement bound' n') (Derived Statement.tokens) := by
  induction k generalizing n n' with
  | zero => exact local_zero (statement_viable bound n) _
  | succ k ih =>
      obtain ⟨m, rfl⟩ : ∃ m, n = m + 1 := ⟨n - 1, by omega⟩
      obtain ⟨m', rfl⟩ : ∃ m', n' = m' + 1 := ⟨n' - 1, by omega⟩
      have hk : k ≤ bound := Nat.le_of_succ_le hbound
      have hk' : k ≤ bound' := Nat.le_of_succ_le hbound'
      have hinner := ih hk hk' (Nat.le_of_succ_le_succ hn) (Nat.le_of_succ_le_succ hn')
      have hforms : ∀ form ∈ statementForms, ∃ L,
          Local (k + 1) (form bound (statement bound m)) (form bound' (statement bound' m')) L := by
        simp only [statementForms, List.forall_mem_cons]
        exact ⟨⟨_, (declaration_local hk hk').next _⟩, ⟨_, (printed_local hk hk').next _⟩,
          ⟨_, (inputTargets_local hk hk').next _⟩, ⟨_, (branching_local hk hk' hinner).next _⟩,
          ⟨_, (looping_local hk hk' hinner).next _⟩, ⟨_, (counting_local hk hk' hinner).next _⟩,
          ⟨_, (expression_local hbound hbound').map _⟩, List.forall_mem_nil _⟩
      have hof : Local (k + 1) (statementOf bound (statement bound m)) (statementOf bound' (statement bound' m'))
          Unended := by
        refine Local.by_head (statementOf_viable hinner.viable) fun u => ?_
        obtain ⟨form, hform, h⟩ := statementOf_cases (some u)
        obtain ⟨L, hlocal⟩ := hforms form hform
        exact ⟨_, _, L, hlocal, h bound _, h bound' _⟩
      exact (hof.before .lineEnd id).withViable (statement_viable bound (m + 1))

theorem program_local {k bound bound' : Nat} (hbound : k ≤ bound) (hbound' : k ≤ bound') :
    Local k (program bound) (program bound') (Derived Start.tokens) := by
  have hend (body : List Stmt) : Local k (programEnd body) (programEnd body)
      (Derived fun b : Bool => if b then [.lineEnd] else []) := by
    refine Local.by_head (programEnd_viable body) fun u => ?_
    rcases programEnd_cases (some u) with h | h
    · exact ⟨_, _, _, (local_ending.result fun _ => body).after _, h body, h body⟩
    · exact ⟨_, _, _, local_ending.result fun _ => body, h body, h body⟩
  have hbody := statementsUntil_local (statement_local hbound hbound' hbound hbound') .katapusan hbound hbound'
  exact (((hbody.seq fun body => (hend body).after .katapusan).after .lineEnd).after .sugod).withViable
    (program_viable bound)

/-- The parser gives up at a token whatever follows it. -/
theorem parseTokens_local {before after : List Token} {t : Token}
    (h : parseTokens (before ++ t :: after) = .error (t :: after)) (after' : List Token) :
    parseTokens (before ++ t :: after') = .error (t :: after') := by
  rw [parseTokens_error_iff] at h ⊢
  have hlocal : Local (before.length + 1) (program ((before ++ t :: after).length + 1))
      (program ((before ++ t :: after').length + 1)) (Derived Start.tokens) := by
    refine program_local ?_ ?_ <;> rw [List.length_append] <;> omega
  exact hlocal.error after' (Nat.lt_succ_self _) h

/-- **The parser gives up at the first impossible token.** The tokens before it can be completed to a program, and with
it they cannot. -/
theorem parseTokens_error {ts left : List Token} (h : parseTokens ts = .error left) :
    ∃ taken, ts = taken ++ left ∧ Completable taken ∧ ∀ t after, left = t :: after → ¬Completable (taken ++ [t]) := by
  obtain ⟨taken, rfl, htaken⟩ := completable_of_parseTokens h
  refine ⟨taken, rfl, htaken, ?_⟩
  rintro t after rfl ⟨more, d, hd⟩
  have herror := parseTokens_local h more
  obtain ⟨body, hbody⟩ := parseTokens_accepts d
  rw [List.append_assoc] at hd
  rw [hd] at hbody
  cases herror.symm.trans hbody

end Binisaya.Parser
