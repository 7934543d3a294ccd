import Mathlib.Logic.Function.Iterate
import Binisaya.Proofs.Scoping.Basic

/-! Programs to which it makes no difference whether blocks have scopes of their own. If blocks make no names, all
scopes of blocks stay empty, and a run with them is the run without them on a scope inside empty ones. -/

namespace Binisaya

open Exec

namespace Scope

variable {s : Scope} {name : String}

theorem get?_enter (s : Scope) (name : String) : s.enter.get? name = s.get? name := rfl

theorem get?_iterate_enter (s : Scope) (depth : Nat) (name : String) : (enter^[depth] s).get? name = s.get? name := by
  induction depth with
  | zero => rfl
  | succ depth ih => rw [Function.iterate_succ_apply', get?_enter, ih]

/-- Assigning to a bound name passes through an empty scope. -/
theorem assign_enter (h : (s.get? name).isSome = true) (v : Value) :
    s.enter.assign name v = (s.assign name v).enter := by
  have hbound : bound name s.frames = true := by rw [bound_frames_eq, h]
  have hassign : s.enter.assign name v = ⟨.empty, rebind name v s.frames⟩ := by
    simp [assign, enter, Table.contains, hbound]
  rw [hassign, enter, frames_assign_of_bound hbound]

theorem assign_iterate_enter (h : (s.get? name).isSome = true) (depth : Nat) (v : Value) :
    (enter^[depth] s).assign name v = enter^[depth] (s.assign name v) := by
  induction depth with
  | zero => rfl
  | succ depth ih =>
      have hbound : ((enter^[depth] s).get? name).isSome = true := by rw [get?_iterate_enter, h]
      rw [Function.iterate_succ_apply', Function.iterate_succ_apply', assign_enter hbound, ih]

theorem get?_assign_self (s : Scope) (name : String) (v : Value) : (s.assign name v).get? name = some v := by
  cases hbound : bound name s.frames with
  | false => rw [assign_of_not_bound hbound, get?_declare, if_pos rfl]
  | true =>
      rw [get?, frames_assign_of_bound hbound]
      revert hbound
      induction s.frames with
      | nil => exact fun h => by cases h
      | cons f fs ih =>
          intro hbound
          rw [rebind]
          split_ifs with hf
          · simp
          · have hnone : f.get? name = none := by simpa [Table.contains] using hf
            rw [List.findSome?_cons, hnone]
            exact ih (by simpa [bound, hf] using hbound)

theorem isSome_get?_assign {other : String} (h : (s.get? other).isSome = true) (name : String) (v : Value) :
    ((s.assign name v).get? other).isSome = true := by
  by_cases hname : other = name
  · rw [hname, get?_assign_self]
    rfl
  · rw [get?_eq_column, column_assign_of_ne hname v, ← get?_eq_column, h]

theorem isSome_get?_declare {other : String} (h : (s.get? other).isSome = true) (name : String) (v : Value) :
    ((s.declare name v).get? other).isSome = true := by
  rw [get?_declare]
  split_ifs
  · rfl
  · exact h

end Scope

section

variable (known : String → Prop)

/-- A node declares nothing and assigns to known names only. -/
def Confined (t : Node) : Prop := (∀ name init type, t ≠ .declare name init type) ∧ ∀ name ∈ t.targets, known name

/-- Outside of blocks only what is inside of blocks matters, and inside of them all does. -/
def ConfinedAt : Nat → Node → Prop
  | 0, t => ∀ body, t = .block body → t.Everywhere (Confined known)
  | _ + 1, t => Confined known t

/-- A scope lies inside empty ones, as many as the depth says, and known names are bound in it. -/
def Deepened (depth : Nat) (s₁ s₂ : Scope) : Prop :=
  s₁ = Scope.enter^[depth] s₂ ∧ ∀ name, known name → (s₂.get? name).isSome = true

end

theorem scopesAlike_deepened (cfg : Settings) (known : String → Prop) :
    ScopesAlike { cfg with blockScopes := true } { cfg with blockScopes := false } (Deepened known)
      (ConfinedAt known) where
  level := rfl
  lookup := by
    rintro depth name - _ s ⟨rfl, -⟩
    exact s.get?_iterate_enter depth name
  assign := by
    rintro depth t ht name hname v _ s ⟨rfl, hs⟩
    refine ⟨?_, fun other hother => Scope.isSome_get?_assign (hs other hother) name v⟩
    cases depth with
    | zero => rfl
    | succ depth => exact Scope.assign_iterate_enter (hs name (ht.2 name hname)) _ v
  declare := by
    rintro depth name init type ht v _ s ⟨rfl, hs⟩
    cases depth with
    | zero => exact ⟨rfl, fun other hother => Scope.isSome_get?_declare (hs other hother) name v⟩
    | succ depth => exact absurd rfl (ht.1 name init type)
  block := by
    rintro depth body hbody _ s ⟨rfl, hs⟩
    have hinside : (Node.block body).Everywhere (Confined known) := by
      cases depth with
      | zero => exact hbody.self body rfl
      | succ depth => exact hbody
    refine ⟨depth + 1, fun t ht => hinside.part ht, ⟨?_, hs⟩, ?_⟩
    · exact (Function.iterate_succ_apply' Scope.enter depth s).symm
    · rintro _ t ⟨rfl, ht⟩
      refine ⟨?_, ht⟩
      rw [Function.iterate_succ_apply']
      exact Scope.leave_enter _

/-- Blocks have no names of their own. Nothing is declared inside of a block, and a name that is assigned to or read
from the input inside of one is bound in the scope, or declared by a statement of the program before the one that the
block is in. -/
structure NoBlockNames (scope : Scope) (body : List Node) : Prop where
  declare : ∀ s ∈ body, ∀ inner, Node.block inner ∈ s.subtrees →
    ∀ name init type, Node.declare name init type ∉ (Node.block inner).subtrees
  assign : ∀ before s after, body = before ++ s :: after → ∀ inner, Node.block inner ∈ s.subtrees →
    ∀ t ∈ (Node.block inner).subtrees, ∀ name ∈ t.targets,
      (scope.get? name).isSome = true ∨ ∃ init type, Node.declare name init type ∈ before

theorem ensures_true {α : Type} {P : Scope → Prop} (x : Exec α) : x.Ensures P (fun _ => True) fun _ => True :=
  fun _ _ => ⟨fun _ _ _ => trivial, fun _ _ _ => trivial⟩

theorem exec_declare_binds (cfg : Settings) (n : Nat) (name : String) (init : Node) (type : Option VarType) :
    (exec cfg n (.declare name init type)).Ensures (fun _ => True) (fun s => (s.get? name).isSome = true)
      fun _ => True := by
  have hdeclare (v : Value) : (Exec.declare name v).Ensures (fun _ => True) (fun s => (s.get? name).isSome = true)
      fun _ => True := by
    intro m _
    refine ⟨fun w m' h => ?_, fun _ _ _ => trivial⟩
    cases h
    rw [Scope.get?_declare, if_pos rfl]
    rfl
  cases n with
  | zero => exact ensures_outOfFuel
  | succ n =>
      refine (ensures_true _).bind fun _ => (ensures_true _).bind fun _ => (ensures_true _).bind fun v => ?_
      exact (hdeclare v).bind fun w => ensures_note cfg _

/-- Outside of blocks the scopes of two alike runs are the same, and so are the machines. -/
theorem Machine.WithScopes.eq_of_deepened {known : String → Prop} {m₁ m₂ : Machine}
    (h : WithScopes (Deepened known 0) m₁ m₂) : m₁ = m₂ := by
  have hscope : m₁.scope = m₂.scope := h.1.1
  rw [h.2, hscope]

theorem inOrder_blockScopes_irrelevant (cfg : Settings) (n : Nat) {body : List Node} {m : Machine}
    (h : NoBlockNames m.scope body) :
    inOrder (exec { cfg with blockScopes := true } n) body m =
      inOrder (exec { cfg with blockScopes := false } n) body m := by
  induction body generalizing m with
  | nil => rfl
  | cons s ss ih =>
      have hok : s.Everywhere (ConfinedAt (fun name => (m.scope.get? name).isSome = true) 0) := by
        rintro t ht inner rfl u hu
        refine ⟨?_, fun name hname => ?_⟩
        · rintro name init type rfl
          exact h.declare s List.mem_cons_self inner ht name init type hu
        · rcases h.assign [] s ss rfl inner ht u hu name hname with hbound | ⟨init, type, hmem⟩
          · exact hbound
          · cases hmem
      have halike := (scopesAlike_deepened cfg _).statementsAlike.exec n hok m m ⟨⟨rfl, fun _ hname => hname⟩, rfl⟩
      rw [inOrder, inOrder, bind_apply, bind_apply]
      generalize exec { cfg with blockScopes := true } n s m = o₁ at halike
      generalize ho : exec { cfg with blockScopes := false } n s m = o₂ at halike
      cases halike with
      | @done _ m₁ m₂ hm =>
          rw [hm.eq_of_deepened]
          refine ih ⟨fun t ht => h.declare t (List.mem_cons_of_mem s ht), ?_⟩
          intro before t after hss inner hinner u hu name hname
          -- what was bound before the first statement still is, and what it declared is bound now
          rcases h.assign (s :: before) t after (by rw [hss, List.cons_append]) inner hinner u hu name hname with
            hbound | ⟨init, type, hmem⟩
          · exact .inl (hm.1.2 name hbound)
          · rcases List.mem_cons.1 hmem with rfl | hmem
            · exact .inl ((exec_declare_binds _ n name init type m trivial).1 () m₂ ho)
            · exact .inr ⟨init, type, hmem⟩
      | failed f hm => rw [hm.eq_of_deepened]
      | outOfFuel => rfl

theorem runBody_blockScopes_irrelevant (cfg : Settings) (n : Nat) {body : List Node} {m : Machine}
    (h : NoBlockNames m.scope body) :
    runBody { cfg with blockScopes := true } n body m = runBody { cfg with blockScopes := false } n body m := by
  have hnote : Exec.note { cfg with blockScopes := true } = Exec.note { cfg with blockScopes := false } := rfl
  rw [runBody, runBody, bind_apply, bind_apply, hnote]
  cases hm : Exec.note { cfg with blockScopes := false } (.starting body.length) m with
  | done a m' =>
      have hscope : m'.scope = m.scope :=
        (@ensures_note (· = m.scope) (fun _ => True) { cfg with blockScopes := false } _ m rfl).1 a m' hm
      simp only [bind_apply, inOrder_blockScopes_irrelevant cfg n (hscope ▸ h)]
  | failed f m' => rfl
  | outOfFuel => rfl

/-- A program whose blocks have no names of their own runs in the same way whether or not blocks have scopes of their
own: with the same output, the same rest of the input, the same variables and types and the same error, if any. With
fuel that is not enough for the one it is not enough for the other. -/
theorem run_blockScopes_irrelevant (cfg : Settings) {types : TypeTable} {body : List Node} {m : Machine}
    (h : NoBlockNames m.scope body) (n : Nat) :
    run { cfg with blockScopes := true } n (.program types body) m =
      run { cfg with blockScopes := false } n (.program types body) m := by
  have hbody := @runBody_blockScopes_irrelevant cfg n body { m with types := m.types.update types } h
  simp only [run, bind_apply, Exec.modify, Exec.afterwards, hbody]

/-- Declares `i` and changes it in a loop, inside of two blocks, until it has a certain value. -/
def loopBody : List Node :=
  [.declare "i" (.literal (.text "a") "Text") none,
    .loop (.binary "<>" (.ident "i") (.literal (.text "b") "Text"))
      (.block [.block [.exprStmt (.assign "i" (.literal (.text "b") "Text"))], .print [.ident "i"], .input ["i"]])]

theorem noBlockNames_loopBody (scope : Scope) : NoBlockNames scope loopBody := by
  have hblocks : ∀ s ∈ loopBody, ∀ inner, Node.block inner ∈ s.subtrees → ∀ t ∈ (Node.block inner).subtrees,
      (∀ name init type, t ≠ .declare name init type) ∧ ∀ name ∈ t.targets, name = "i" := by
    intro s hs inner hinner t ht
    rcases List.mem_pair.1 hs with rfl | rfl
    · simp [Node.subtrees] at hinner
    · simp only [Node.subtrees, Node.subtreesOf, List.cons_append, List.nil_append, List.append_nil, List.mem_cons,
        reduceCtorEq, Node.block.injEq, List.not_mem_nil, or_self, or_false, false_or] at hinner
      rcases hinner with rfl | rfl
      · simp only [Node.subtrees, Node.subtreesOf, List.append_nil, List.cons_append, List.nil_append, List.mem_cons,
          List.not_mem_nil, or_false] at ht
        rcases ht with rfl | rfl | rfl | rfl | rfl | rfl | rfl | rfl <;> simp [Node.targets]
      · simp only [Node.subtrees, Node.subtreesOf, List.append_nil, List.mem_cons, List.not_mem_nil, or_false] at ht
        rcases ht with rfl | rfl | rfl | rfl <;> simp [Node.targets]
  refine ⟨fun s hs inner hinner name init type ht => (hblocks s hs inner hinner _ ht).1 name init type rfl, ?_⟩
  intro before s after hbody inner hinner t ht name hname
  have hs : s ∈ loopBody := by
    rw [hbody]
    exact List.mem_append_right before List.mem_cons_self
  obtain rfl : name = "i" := (hblocks s hs inner hinner t ht).2 name hname
  cases before with
  | nil =>
      obtain ⟨rfl, -⟩ := List.cons.inj hbody
      simp [Node.subtrees] at hinner
  | cons b before =>
      obtain ⟨rfl, -⟩ := List.cons.inj hbody
      exact .inr ⟨_, _, List.mem_cons_self⟩

theorem run_blockScopes_irrelevant_loopBody : NoBlockNames .empty loopBody ∧
    run { blockScopes := true } 9 (.program .empty loopBody) (.fresh "c\nb\n".toList) =
      run { blockScopes := false } 9 (.program .empty loopBody) (.fresh "c\nb\n".toList) ∧
    ∃ m, run { blockScopes := false } 9 (.program .empty loopBody) (.fresh "c\nb\n".toList) = .done () m ∧
      m.output = "bb" ∧ m.scope.get? "i" = some (.text "b") ∧ m.unread = [] := by
  refine ⟨noBlockNames_loopBody .empty, run_blockScopes_irrelevant {} (noBlockNames_loopBody .empty) 9, ?_⟩
  exact ⟨{ scope := ⟨.ofList [("i", .text "b")], []⟩, output := "bb", logging := false }, by decide +kernel, rfl,
    by decide +kernel, rfl⟩

end Binisaya
