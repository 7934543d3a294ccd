import Binisaya.Proofs.Messages
import Binisaya.Proofs.WellFormed

/-! Chains of `&` in print statements. The operands of a chain are printed one by one, but what is written is the text
of the whole chain: `&` never fails, joins the printed forms of its operands, and the printed form of a text is that
text. Hence it does not matter either how a chain is grouped. -/

namespace Binisaya

open Exec Machine Stepwise

/-- The operands of a chain of `&` with all groups opened that stand in it. -/
def Node.operands : Node → List Node
  | .binary "&" left right => left.operands ++ right.operands
  | .group e => e.operands
  | e => [e]

/-- The printed form of the value of an expression. -/
def textOf (cfg : Settings) (e : Node) : Exec String := do
  let v ← eval cfg e
  return v.print

/-- The printed forms of the values of expressions, put together. -/
def textsOf (cfg : Settings) (es : List Node) : Exec String := do
  let vs ← evalAll cfg es
  return String.join (vs.map Value.print)

section

variable {cfg : Settings}

theorem textsOf_nil : textsOf cfg [] = Pure.pure "" := rfl

theorem textsOf_cons (e : Node) (es : List Node) :
    textsOf cfg (e :: es) = do
      let text ← textOf cfg e
      let more ← textsOf cfg es
      return text ++ more := by
  simp [textsOf, textOf, evalAll]

theorem textsOf_singleton (e : Node) : textsOf cfg [e] = textOf cfg e := by
  rw [textsOf_cons, textsOf_nil]
  simp

theorem textsOf_append (es more : List Node) :
    textsOf cfg (es ++ more) = do
      let text ← textsOf cfg es
      let rest ← textsOf cfg more
      return text ++ rest := by
  induction es with
  | nil => simp only [List.nil_append, textsOf_nil, pure_bind, String.empty_append, bind_pure]
  | cons e es ih => simp only [List.cons_append, textsOf_cons, ih, bind_assoc, pure_bind, String.append_assoc]

/-- The text of a chain is put together from those of its two parts, unless there are messages between them. -/
theorem textOf_concat (hlevel : cfg.level = 0) (left right : Node) :
    textOf cfg (.binary "&" left right) = do
      let text ← textOf cfg left
      let more ← textOf cfg right
      return text ++ more := by
  have hconcat (a b : Value) : ofExcept (evalBinary "&" a b) = Pure.pure (.text (a.print ++ b.print)) := rfl
  simp only [textOf, eval, note_of_level_zero hlevel, hconcat, bind_assoc, pure_bind]
  rfl

theorem textsOf_concatItems (hlevel : cfg.level = 0) (e : Node) : textsOf cfg e.concatItems = textOf cfg e := by
  fun_induction Node.concatItems e with
  | case1 left right ihleft ihright => rw [textsOf_append, ihleft, ihright, textOf_concat hlevel]
  | case2 e => exact textsOf_singleton e

theorem textsOf_operands (hlevel : cfg.level = 0) (e : Node) : textsOf cfg e.operands = textOf cfg e := by
  fun_induction Node.operands e with
  | case1 left right ihleft ihright => rw [textsOf_append, ihleft, ihright, textOf_concat hlevel]
  | case2 e ih => exact ih
  | case3 e => exact textsOf_singleton e

end

def Machine.writing (m : Machine) (text : String) : Machine := { m with output := m.output ++ text }

/-- Two statements that print end alike, messages aside: both have given the variables the same values and then written
the same text, or both have failed in the same way after giving the variables the same values, and written nothing. -/
inductive PrintsAlike (cfg : Settings) (m : Machine) : Outcome Unit → Outcome Unit → Prop
  | done (s : Scope) (text : String) {m₁ m₂ : Machine} (h₁ : { m with scope := s }.Notes cfg m₁)
      (h₂ : { m with scope := s }.Notes cfg m₂) :
      PrintsAlike cfg m (.done () (m₁.writing text)) (.done () (m₂.writing text))
  | failed (f : Failure) (s : Scope) {m₁ m₂ : Machine} (h₁ : { m with scope := s }.Notes cfg m₁)
      (h₂ : { m with scope := s }.Notes cfg m₂) : PrintsAlike cfg m (.failed f m₁) (.failed f m₂)

/-- Without messages the two end in the same way. -/
theorem PrintsAlike.eq_of_level_zero {cfg : Settings} {m : Machine} {o₁ o₂ : Outcome Unit} (h : PrintsAlike cfg m o₁ o₂)
    (hlevel : cfg.level = 0) : o₁ = o₂ := by
  cases h with
  | done s text h₁ h₂ => rw [h₁.eq_of_level_zero hlevel, h₂.eq_of_level_zero hlevel]
  | failed f s h₁ h₂ => rw [h₁.eq_of_level_zero hlevel, h₂.eq_of_level_zero hlevel]

/-- Without messages the text of an expression is found, or not, with no other effect than on the variables. -/
theorem exists_textOf_leaves {cfg : Settings} (hlevel : cfg.level = 0) (e : Node) (m : Machine) :
    ∃ s, (textOf cfg e m).Leaves { m with scope := s } := by
  have hself := eval_alike (expressionsAlike_scope hlevel m) (e := e) (fun _ _ => trivial) m m ⟨rfl, m.scope, rfl⟩
  rw [textOf, bind_apply]
  cases heval : eval cfg e m with
  | done v m' =>
      rw [heval] at hself
      cases hself with
      | done _ hm' =>
          obtain ⟨-, s, rfl⟩ := hm'
          exact ⟨s, .inl ⟨v.print, rfl⟩⟩
  | failed f m' =>
      rw [heval] at hself
      cases hself with
      | failed _ hm' =>
          obtain ⟨-, s, rfl⟩ := hm'
          exact ⟨s, .inr ⟨f, rfl⟩⟩
  | outOfFuel => exact absurd heval (eval_ends cfg e m)

/-- Two actions that find one text, messages aside, write it alike. -/
theorem printsAlike_of_alike {cfg : Settings} {m m₁ m₂ : Machine} {x₁ x₂ y : Exec String}
    (h₁ : x₁.Alike (fun m₁ m₂ => m₂.Notes cfg m₁) y) (h₂ : x₂.Alike (fun m₁ m₂ => m₂.Notes cfg m₁) y)
    (hy : ∃ s, (y m).Leaves { m with scope := s }) (hm₁ : m.Notes cfg m₁) (hm₂ : m.Notes cfg m₂) :
    PrintsAlike cfg m ((x₁ >>= write) m₁) ((x₂ >>= write) m₂) := by
  have halike₁ := h₁ m₁ m hm₁
  have halike₂ := h₂ m₂ m hm₂
  rw [bind_apply, bind_apply]
  generalize x₁ m₁ = o₁ at halike₁
  generalize x₂ m₂ = o₂ at halike₂
  obtain ⟨s, ⟨text, hdone⟩ | ⟨f, hfailed⟩⟩ := hy
  · rw [hdone] at halike₁ halike₂
    cases halike₁ with
    | done _ hn₁ =>
        cases halike₂ with
        | done _ hn₂ => exact .done s text hn₁ hn₂
  · rw [hfailed] at halike₁ halike₂
    cases halike₁ with
    | failed _ hn₁ =>
        cases halike₂ with
        | failed _ hn₂ => exact .failed f s hn₁ hn₂

section

variable (cfg : Settings)

theorem textOf_alike_silent (e : Node) :
    (textOf cfg e).Alike (fun m₁ m₂ => m₂.Notes cfg m₁) (textOf cfg.silent e) :=
  (eval_alike (expressionsAlike_silent cfg) fun _ _ => trivial).bind fun v => alike_pure v.print

/-- Whatever expressions have the operands of a chain together write its text. -/
theorem textsOf_alike_silent {es : List Node} {e : Node} (h : textsOf cfg.silent es = textOf cfg.silent e) :
    (textsOf cfg es).Alike (fun m₁ m₂ => m₂.Notes cfg m₁) (textOf cfg.silent e) := by
  rw [← h]
  refine (evalAll_alike (expressionsAlike_silent cfg) fun _ _ _ _ => trivial).bind fun vs => ?_
  exact alike_pure _

theorem exec_print (n : Nat) (items : List Node) (m : Machine) :
    exec cfg (n + 1) (.print items) m = (textsOf cfg items >>= write) (noted cfg (.executing "PrintStmt") m) := by
  rw [textsOf, bind_assoc]
  exact note_bind ..

end

/-- **A chain is printed as one.** A print statement with the operands of a chain of `&` does what writing the value of
the chain does: the same text is written and the variables have the same values after it; or it fails in the same way,
with the same values of the variables, and nothing is written. Nor do the text and the effects change when the operands
are grouped in another way. Debug messages, if the level asks for them, come on top. -/
theorem print_chain_as_one (cfg : Settings) (n : Nat) (e : Node) (m : Machine) :
    let printed := exec cfg (n + 1) (.print e.concatItems) m
    let whole := (eval cfg e >>= fun v => write v.print) m
    PrintsAlike cfg m printed whole ∧ (cfg.level = 0 → printed = whole) ∧
      ∀ e' : Node, e'.operands = e.operands →
        let regrouped := exec cfg (n + 1) (.print e'.concatItems) m
        PrintsAlike cfg m printed regrouped ∧ (cfg.level = 0 → printed = regrouped) := by
  have hleaves := @exists_textOf_leaves cfg.silent rfl e m
  have hitems := textsOf_alike_silent cfg (textsOf_concatItems rfl e)
  have hwhole : PrintsAlike cfg m (exec cfg (n + 1) (.print e.concatItems) m)
      ((eval cfg e >>= fun v => write v.print) m) := by
    have htext : (eval cfg e >>= fun v => write v.print) = textOf cfg e >>= write := by
      simp only [textOf, bind_assoc, pure_bind]
    rw [exec_print, htext]
    exact printsAlike_of_alike hitems (textOf_alike_silent cfg e) hleaves (Notes.noted cfg _ m) (Notes.refl cfg m)
  have hgrouped (e' : Node) (he' : e'.operands = e.operands) : PrintsAlike cfg m
      (exec cfg (n + 1) (.print e.concatItems) m) (exec cfg (n + 1) (.print e'.concatItems) m) := by
    have hsame : textOf cfg.silent e' = textOf cfg.silent e := by
      rw [← textsOf_operands rfl e', he', textsOf_operands rfl e]
    have hitems' := textsOf_alike_silent cfg ((textsOf_concatItems rfl e').trans hsame)
    rw [exec_print, exec_print]
    exact printsAlike_of_alike hitems hitems' hleaves (Notes.noted cfg _ m) (Notes.noted cfg _ m)
  exact ⟨hwhole, hwhole.eq_of_level_zero, fun e' he' => ⟨hgrouped e' he', (hgrouped e' he').eq_of_level_zero⟩⟩

/-- Assigns to `x`, and prints it twice and a `nil` behind it. -/
def leaningChain : Node :=
  .binary "&" (.assign "x" (.literal (.char "a") "Character"))
    (.group (.binary "&" (.ident "x") (.literal .nil "Empty")))

/-- The same operands, grouped in another way. -/
def levelChain : Node :=
  .binary "&" (.group (.binary "&" (.assign "x" (.literal (.char "a") "Character")) (.ident "x")))
    (.group (.literal .nil "Empty"))

theorem print_chain_as_one_leaningChain :
    levelChain.operands = leaningChain.operands ∧
    exec {} 1 (.print leaningChain.concatItems) {} = exec {} 1 (.print levelChain.concatItems) {} ∧
    exec {} 1 (.print leaningChain.concatItems) {} =
      .done () { scope := ⟨.ofList [("x", .char "a")], []⟩, output := "aanil" } := by
  have hoperands : levelChain.operands = leaningChain.operands := rfl
  have hprinted := (print_chain_as_one {} 0 leaningChain {}).2.2 levelChain hoperands
  exact ⟨hoperands, hprinted.2 rfl, by decide +kernel⟩

end Binisaya
