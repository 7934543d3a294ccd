import Binisaya.Proofs.Scoping.Basic

/-! Blocks with scopes of their own. However the statements of such a block end, the scopes around it bind the names
that they bound before, and a name that the block declares at its start keeps the values that it has outside. -/

namespace Binisaya

open Exec

variable {cfg : Settings}

theorem Scope.names_outer_leave {s : Scope} {names : List String} {rest : List (List String)}
    (h : s.outer.map Table.names = names :: rest) : s.leave.frames.map Table.names = names :: rest := by
  obtain ⟨own, outer⟩ := s
  cases outer with
  | nil => cases h
  | cons f fs => exact h

/-- Statements leave the names of the scopes around theirs alone. -/
theorem scopesKept_names (hcfg : cfg.blockScopes = true) :
    ScopesKept cfg (fun (names : List (List String)) s => s.outer.map Table.names = names) fun _ _ => True where
  assign := by
    intro names t _ name _ v s hs
    rw [Scope.names_outer_assign, hs]
  declare := by
    intro names name init type _ v s hs
    exact hs
  block := by
    intro names body _ s hs
    refine ⟨s.own.names :: names, fun _ _ _ _ => trivial, ?_, fun t ht => ?_⟩
    · rw [Settings.enter, if_pos hcfg, ← hs]
      rfl
    · rw [Settings.leave, if_pos hcfg]
      exact (List.cons.inj (Scope.names_outer_leave ht)).2

theorem column_rebind {x : String} {v w : Value} {fs : List Frame} {inner outside : List (Option Value)}
    (h : fs.map (·.get? x) = inner ++ some w :: outside) :
    ∃ inner' w', (rebind x v fs).map (·.get? x) = inner' ++ some w' :: outside ∧ inner'.length = inner.length := by
  induction fs generalizing inner with
  | nil => simp at h
  | cons f fs ih =>
      rw [rebind]
      cases inner with
      | nil =>
          obtain ⟨hf, hfs⟩ := List.cons.inj h
          have hcontains : f.contains x = true := by simp [Table.contains, hf]
          refine ⟨[], v, ?_, rfl⟩
          simp [hcontains, hfs]
      | cons o inner =>
          obtain ⟨hf, hfs⟩ := List.cons.inj h
          split_ifs with hcontains
          · refine ⟨some v :: inner, w, ?_, rfl⟩
            simp [hfs]
          · obtain ⟨inner', w', hcolumn, hlength⟩ := ih hfs
            refine ⟨f.get? x :: inner', w', ?_, ?_⟩
            · simp [hcolumn]
            · simp [hlength]

/-- A name has a value in the scope at this depth, and these values in the scopes around that one. -/
def Scope.Shadows (x : String) (outside : List (Option Value)) (depth : Nat) (s : Scope) : Prop :=
  ∃ inner w, s.column x = inner ++ some w :: outside ∧ inner.length = depth

namespace Scope.Shadows

variable {x : String} {outside : List (Option Value)} {depth : Nat} {s : Scope}

theorem assign (hs : s.Shadows x outside depth) (name : String) (v : Value) :
    (s.assign name v).Shadows x outside depth := by
  obtain ⟨inner, w, hcolumn, hdepth⟩ := hs
  by_cases hname : x = name
  · subst hname
    have hbound : bound x s.frames = true := by
      rw [bound_frames_eq, get?_eq_column, hcolumn, List.findSome?_append]
      cases inner.findSome? id <;> rfl
    obtain ⟨inner', w', hcolumn', hlength⟩ := column_rebind (v := v) hcolumn
    refine ⟨inner', w', ?_, hlength.trans hdepth⟩
    rw [column, frames_assign_of_bound hbound, hcolumn']
  · exact ⟨inner, w, (column_assign_of_ne hname v).trans hcolumn, hdepth⟩

theorem declare (hs : s.Shadows x outside depth) (name : String) (v : Value) :
    (s.declare name v).Shadows x outside depth := by
  obtain ⟨inner, w, hcolumn, hdepth⟩ := hs
  by_cases hname : x = name
  · subst hname
    rw [Shadows, column_declare_self, hcolumn]
    cases inner with
    | nil => exact ⟨[], v, rfl, hdepth⟩
    | cons o inner => exact ⟨some v :: inner, w, rfl, hdepth⟩
  · exact ⟨inner, w, (column_declare_of_ne hname v).trans hcolumn, hdepth⟩

theorem enter (hs : s.Shadows x outside depth) : s.enter.Shadows x outside (depth + 1) := by
  obtain ⟨inner, w, hcolumn, hdepth⟩ := hs
  refine ⟨none :: inner, w, ?_, ?_⟩
  · rw [column_enter, hcolumn, List.cons_append]
  · rw [List.length_cons, hdepth]

theorem leave (hs : s.Shadows x outside (depth + 1)) : s.leave.Shadows x outside depth := by
  obtain ⟨inner, w, hcolumn, hdepth⟩ := hs
  cases inner with
  | nil => cases hdepth
  | cons o inner => exact ⟨inner, w, column_leave hcolumn (by simp), Nat.succ.inj hdepth⟩

theorem column_eq_cons (hs : s.Shadows x outside 0) : ∃ o, s.column x = o :: outside := by
  obtain ⟨inner, w, hcolumn, hdepth⟩ := hs
  obtain rfl := List.length_eq_zero_iff.1 hdepth
  exact ⟨some w, hcolumn⟩

end Scope.Shadows

/-- Once a name is bound in a scope, statements in it do not change the values that the name has outside. -/
theorem scopesKept_shadows (hcfg : cfg.blockScopes = true) (x : String) (outside : List (Option Value)) :
    ScopesKept cfg (fun depth s => s.Shadows x outside depth) fun _ _ => True where
  assign _ name _ v _ hs := hs.assign name v
  declare _ v _ hs := hs.declare _ v
  block := by
    intro depth body _ s hs
    refine ⟨depth + 1, fun _ _ _ _ => trivial, ?_, fun t ht => ?_⟩
    · rw [Settings.enter, if_pos hcfg]
      exact hs.enter
    · rw [Settings.leave, if_pos hcfg]
      exact ht.leave

/-- An initial value without an assignment to a name leaves all values of the name alone. -/
theorem evalInit_column {x : String} {init : Node} (hinit : ∀ e, Node.assign x e ∉ init.subtrees)
    (values : List (Option Value)) :
    (evalInit cfg init).Ensures (·.column x = values) (·.column x = values) (·.column x = values) := by
  have hexpressions : ExpressionsAlike cfg cfg (Machine.WithScopes fun s₁ s₂ => s₁ = s₂ ∧ s₁.column x = values)
      fun t => ∀ e, t ≠ .assign x e :=
    { note := Machine.WithScopes.note rfl
      lookup := fun _ => Machine.WithScopes.lookup fun s₁ s₂ hs => by rw [hs.1]
      assign := by
        intro name e hname v
        refine Machine.WithScopes.assign ?_
        rintro s _ ⟨rfl, hs⟩
        refine ⟨rfl, ?_⟩
        rw [Scope.column_assign_of_ne _ v, hs]
        rintro rfl
        exact hname e rfl }
  refine ensures_of_alike (evalInit_alike hexpressions ?_)
  rintro t ht e rfl
  exact hinit e ht

/-- A declaration binds its name in the scope itself, and does so only after the initial value is known. -/
theorem exec_declare_column {x : String} {init : Node} {type : Option VarType}
    (hinit : ∀ e, Node.assign x e ∉ init.subtrees) (n : Nat) (o : Option Value) (outside : List (Option Value)) :
    (exec cfg n (.declare x init type)).Ensures (·.column x = o :: outside) (·.Shadows x outside 0)
      (·.column x = o :: outside) := by
  have hdeclare (v : Value) : (Exec.declare x v).Ensures (·.column x = o :: outside) (·.Shadows x outside 0)
      (·.column x = o :: outside) := by
    intro m hm
    refine ⟨fun w m' h => ?_, fun _ _ h => (by cases h)⟩
    cases h
    refine ⟨[], if v = .absent then initialValue (m.typeOf x) else v, ?_, rfl⟩
    rw [Scope.column_declare_self, hm]
    rfl
  have htype : (Exec.declareType x type).Ensures (·.column x = o :: outside) (·.column x = o :: outside)
      (·.column x = o :: outside) := by
    cases type with
    | none => exact ensures_pure ()
    | some t => exact ensures_modify fun _ => rfl
  cases n with
  | zero => exact ensures_outOfFuel
  | succ n =>
      refine (ensures_note cfg _).bind fun _ => htype.bind fun _ => (evalInit_column hinit _).bind fun v => ?_
      exact (hdeclare v).bind fun w => ensures_note cfg _

theorem exec_block_ensures (hcfg : cfg.blockScopes = true) {body : List Node} {P Q E T : Scope → Prop}
    (hbody : ∀ n, (inOrder (exec cfg n) body).Ensures P Q E) (hQ : ∀ s, Q s → T s.leave) (hE : ∀ s, E s → T s.leave)
    (n : Nat) : (exec cfg n (.block body)).Ensures (fun s => P s.enter) T T := by
  cases n with
  | zero => exact ensures_outOfFuel
  | succ n =>
      refine (ensures_note cfg _).bind fun _ => ?_
      have hinside := (ensures_note (P := P) (E := E) cfg (.enteredBlock body.length)).bind fun _ => hbody n
      intro m hm
      obtain ⟨hdone, hfailed⟩ := hinside { m with scope := m.scope.enter } hm
      simp only [inBlock, if_pos hcfg, inNewScope, afterwards]
      generalize (note cfg (.enteredBlock body.length) >>= fun _ => inOrder (exec cfg n) body)
        { m with scope := m.scope.enter } = o at hdone hfailed
      refine ⟨fun a m' h => ?_, fun f m' h => ?_⟩
      · cases o with
        | done b m₁ =>
            cases h
            exact hQ _ (hdone _ _ rfl)
        | failed e m₁ => cases h
        | outOfFuel => cases h
      · cases o with
        | done b m₁ => cases h
        | failed e m₁ =>
            cases h
            exact hE _ (hfailed _ _ rfl)
        | outOfFuel => cases h

/-- A block with a scope of its own, whether it ends well or fails, leaves each scope around it with the names that it
had. If its first statement declares a name, and does not assign to it for the initial value, then that name also has
its old values in all these scopes. -/
theorem exec_block_keeps_scopes (hcfg : cfg.blockScopes = true) {n : Nat} {body : List Node} {m m' : Machine}
    (h : (exec cfg n (.block body) m).Leaves m') :
    m'.scope.frames.map Table.names = m.scope.frames.map Table.names ∧
    ∀ x init type rest, body = .declare x init type :: rest → (∀ e, Node.assign x e ∉ init.subtrees) →
      m'.scope.frames.map (·.get? x) = m.scope.frames.map (·.get? x) := by
  refine ⟨?_, ?_⟩
  · have hbody (n : Nat) : (inOrder (exec cfg n) body).Ensures
        (·.outer.map Table.names = m.scope.frames.map Table.names)
        (·.outer.map Table.names = m.scope.frames.map Table.names)
        (·.outer.map Table.names = m.scope.frames.map Table.names) :=
      (scopesKept_names hcfg).inOrder n fun _ _ _ _ => trivial
    have hleave (s : Scope) (hs : s.outer.map Table.names = m.scope.frames.map Table.names) :
        s.leave.frames.map Table.names = m.scope.frames.map Table.names := Scope.names_outer_leave hs
    have hblock : (exec cfg n (.block body)).Ensures (·.enter.outer.map Table.names = m.scope.frames.map Table.names)
        (·.frames.map Table.names = m.scope.frames.map Table.names)
        (·.frames.map Table.names = m.scope.frames.map Table.names) :=
      exec_block_ensures hcfg hbody hleave hleave n
    exact hblock.leaves rfl h
  · rintro x init type rest rfl hinit
    have hbody (n : Nat) : (inOrder (exec cfg n) (.declare x init type :: rest)).Ensures
        (·.column x = none :: m.scope.column x) (·.Shadows x (m.scope.column x) 0)
        fun s => ∃ o, s.column x = o :: m.scope.column x := by
      have hdeclare : (exec cfg n (.declare x init type)).Ensures (·.column x = none :: m.scope.column x)
          (·.Shadows x (m.scope.column x) 0) (·.column x = none :: m.scope.column x) :=
        exec_declare_column hinit n none (m.scope.column x)
      have hrest : (inOrder (exec cfg n) rest).Ensures (·.Shadows x (m.scope.column x) 0)
          (·.Shadows x (m.scope.column x) 0) (·.Shadows x (m.scope.column x) 0) :=
        (scopesKept_shadows hcfg x (m.scope.column x)).inOrder n fun _ _ _ _ => trivial
      refine (hdeclare.weaken (fun _ hs => hs) fun _ hs => ⟨none, hs⟩).bind fun _ => ?_
      exact hrest.weaken (fun _ hs => hs) fun s hs => hs.column_eq_cons
    have hleave (s : Scope) (hs : ∃ o, s.column x = o :: m.scope.column x) :
        s.leave.column x = m.scope.column x := by
      obtain ⟨o, ho⟩ := hs
      exact Scope.column_leave ho (List.cons_ne_nil _ _)
    have hblock : (exec cfg n (.block (.declare x init type :: rest))).Ensures
        (·.enter.column x = none :: m.scope.column x) (·.column x = m.scope.column x)
        (·.column x = m.scope.column x) :=
      exec_block_ensures hcfg hbody (fun s hs => hleave s hs.column_eq_cons) hleave n
    exact hblock.leaves rfl h

/-- Statements that declare `x`, change it inside a further block and read it from the input, change `y`, and make
a new name `z`. -/
def roomBody : List Node :=
  [.declare "x" (.ident "y") none, .block [.exprStmt (.assign "x" (.literal (.text "inner") "Text"))], .input ["x"],
    .exprStmt (.assign "y" (.literal (.text "changed") "Text")), .exprStmt (.assign "z" (.ident "x"))]

/-- A machine with a variable `x` around the present scope and a variable `y` in it. -/
def roomMachine : Machine :=
  { scope := ⟨.ofList [("y", .text "old")], [.ofList [("x", .text "outside")]]⟩, unread := "typed\n".toList }

theorem exec_block_keeps_scopes_roomBody : ∃ m',
    (exec { blockScopes := true } 3 (.block roomBody) roomMachine).Leaves m' ∧
    m'.unread = [] ∧ m'.scope.get? "y" = some (.text "changed") ∧
    m'.scope.frames.map Table.names = [["y"], ["x"]] ∧
    m'.scope.frames.map (·.get? "x") = [none, some (.text "outside")] := by
  have hleaves : (exec { blockScopes := true } 3 (.block roomBody) roomMachine).Leaves
      { scope := ⟨.ofList [("y", .text "changed")], [.ofList [("x", .text "outside")]]⟩ } :=
    .inl ⟨(), by decide +kernel⟩
  obtain ⟨hnames, hvalues⟩ := exec_block_keeps_scopes rfl hleaves
  refine ⟨_, hleaves, rfl, by decide +kernel, hnames, hvalues "x" _ _ _ rfl fun e he => ?_⟩
  simp [Node.subtrees] at he

end Binisaya
