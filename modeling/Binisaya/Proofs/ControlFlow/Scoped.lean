import Binisaya.Proofs.ControlFlow.Lowering
import Binisaya.Proofs.Scoping.Blocks
import Binisaya.Proofs.Scoping.Flat
import Binisaya.Proofs.Tables

/-! Counting loops where blocks have scopes of their own. As a loop is written, its update stands outside of its body
and is about the variables of the loop; in the tree it is the last statement of the body's block, where a name that
the body makes hides the loop's. The tree does what lexical scoping says for the loops of which no variable of the
update can be hidden: the body declares none of them, and all of them are bound before it runs. -/

namespace Binisaya

open Exec Machine

/-- A round of a counting loop. The body runs in a new scope, and the update in the scope of the loop. -/
def lexicalRound (cfg : Settings) (update : Expr) (body : Exec Unit) : Exec Unit := do
  body.inNewScope
  let _ ← eval cfg update.toNode
  return ()

/-- A counting loop from a test of its condition on. -/
def lexicalRounds (cfg : Settings) (condition update : Expr) (body : Exec Unit) : Nat → Exec Unit
  | 0 => .outOfFuel
  | n + 1 => do
    let v ← eval cfg condition.toNode
    if v.truthy then
      lexicalRound cfg update body
      lexicalRounds cfg condition update body n

/-- A counting loop with a scope of its own, in which its three expressions are evaluated. -/
def lexicalLoop (cfg : Settings) (init condition update : Expr) (body : Exec Unit) (rounds : Nat) : Exec Unit :=
  Exec.inNewScope do
    let _ ← eval cfg init.toNode
    lexicalRounds cfg condition update body rounds

/-- A counting loop as lexical scoping has it. -/
def lexicalCount (cfg : Settings) (init condition update : Expr) (body : List Stmt) (n : Nat) : Exec Unit :=
  lexicalLoop cfg init condition update (inOrder (exec cfg n) (bodyNodes body)) n

/-- The names that an expression assigns to. -/
def Expr.assigned : Expr → List String
  | .number _ | .text _ | .char _ | .var _ => []
  | .group e | .unary _ e => e.assigned
  | .binary _ left right => left.assigned ++ right.assigned
  | .assign name e => name :: e.assigned

/-- The names that an expression mentions. -/
def Expr.names : Expr → List String
  | .number _ | .text _ | .char _ => []
  | .var name => [name]
  | .group e | .unary _ e => e.names
  | .binary _ left right => left.names ++ right.names
  | .assign name e => name :: e.names

/-- The names that a statement declares in the scope it stands in. Blocks have scopes of their own. -/
def Stmt.declaredHere : Stmt → List String
  | .declare _ items => items.map Prod.fst
  | _ => []

/-- All of these names are bound. -/
def Scope.Knows (names : List String) (s : Scope) : Prop := ∀ x ∈ names, (s.get? x).isSome = true

theorem Scope.Knows.subset {names others : List String} {s : Scope} (h : s.Knows names) (hsub : others ⊆ names) :
    s.Knows others :=
  fun x hx => h x (hsub hx)

theorem Scope.Knows.assign {names : List String} {s : Scope} (h : s.Knows names) (name : String) (v : Value) :
    (s.assign name v).Knows (name :: names) := by
  intro x hx
  rcases List.mem_cons.1 hx with rfl | hx
  · rw [get?_assign_self]
    rfl
  · exact isSome_get?_assign (h x hx) name v

theorem ensures_ofExcept {α : Type} {P : Scope → Prop} (r : Except Failure α) :
    (ofExcept r).Ensures P P fun _ => True := by
  cases r with
  | ok v => exact ensures_pure v
  | error f => exact fun m _ => ⟨fun _ _ h => (by cases h), fun _ _ _ => trivial⟩

/-- An expression leaves bound names bound, and binds those that it assigns to. -/
theorem eval_knows (cfg : Settings) (e : Expr) (names : List String) :
    (eval cfg e.toNode).Ensures (·.Knows names) (·.Knows (e.assigned ++ names)) fun _ => True := by
  induction e generalizing names with
  | number x => exact ensures_pure _
  | text s => exact ensures_pure _
  | char c => exact ensures_pure _
  | var name =>
      intro m hm
      refine ⟨fun v m' h => ?_, fun _ _ _ => trivial⟩
      rw [Expr.toNode, eval, Exec.lookup] at h
      split at h
      · cases h
        exact hm
      · cases h
  | group e ih => exact ih names
  | unary op e ih => exact (ih names).bind fun a => ensures_ofExcept _
  | binary op left right ihleft ihright =>
      have hboth := (ihleft names).bind fun a => (ihright _).bind fun b =>
        (ensures_note cfg (.applied op.symbol a b)).bind fun _ => ensures_ofExcept (evalBinary op.symbol a b)
      refine hboth.weaken (fun s hs => hs.subset ?_) fun _ hs => hs
      intro x hx
      simp only [Expr.assigned, List.mem_append] at hx ⊢
      tauto
  | assign name e ih =>
      have hassign (v : Value) : (Exec.assign name v).Ensures (·.Knows (e.assigned ++ names))
          (·.Knows (name :: (e.assigned ++ names))) fun _ => True := by
        intro m hm
        refine ⟨fun _ m' h => ?_, fun _ _ _ => trivial⟩
        cases h
        exact hm.assign name v
      exact (ih names).bind fun v => (hassign v).bind fun _ => (ensures_note cfg _).bind fun _ => ensures_pure v

theorem bound_iff {x : String} {fs : List Frame} : bound x fs = true ↔ ∃ names ∈ fs.map Table.names, x ∈ names := by
  simp [bound, Table.contains_iff]

/-- A scope binds none of these names itself, and those around it bind all of them. -/
def Scope.Clear (names : List String) (s : Scope) : Prop :=
  ∀ x ∈ names, s.own.contains x = false ∧ bound x s.outer = true

namespace Scope

variable {names : List String} {s t : Scope}

theorem Clear.bound_frames (h : s.Clear names) {x : String} (hx : x ∈ names) : bound x s.frames = true := by
  rw [frames, bound, List.any_cons, ← bound, (h x hx).2, Bool.or_true]

theorem Clear.of_names (h : s.Clear names) (hnames : t.frames.map Table.names = s.frames.map Table.names) :
    t.Clear names := by
  obtain ⟨hown, houter⟩ := List.cons.inj hnames
  intro x hx
  obtain ⟨hfree, hbound⟩ := h x hx
  refine ⟨?_, ?_⟩
  · rw [Bool.eq_false_iff, ne_eq, Table.contains_iff] at hfree ⊢
    rwa [hown]
  · rw [bound_iff] at hbound ⊢
    rwa [houter]

theorem Clear.declare (h : s.Clear names) {name : String} (hname : name ∉ names) (v : Value) :
    (s.declare name v).Clear names := by
  intro x hx
  obtain ⟨hfree, hbound⟩ := h x hx
  refine ⟨?_, hbound⟩
  have hne : x ≠ name := fun heq => hname (heq ▸ hx)
  simp [Scope.declare, hne, hfree]

theorem Clear.assign (h : s.Clear names) (name : String) (v : Value) : (s.assign name v).Clear names := by
  cases hbound : bound name s.frames with
  | true =>
      refine h.of_names ?_
      rw [frames_assign_of_bound hbound, names_rebind]
  | false =>
      rw [assign_of_not_bound hbound]
      refine h.declare (fun hmem => ?_) v
      rw [h.bound_frames hmem] at hbound
      cases hbound

theorem Knows.enter (h : s.Knows names) : s.enter.Clear names := by
  intro x hx
  refine ⟨rfl, ?_⟩
  rw [← h x hx, ← bound_frames_eq]
  rfl

theorem Clear.leave (h : s.Clear names) : s.leave.Knows names := by
  intro x hx
  obtain ⟨-, hbound⟩ := h x hx
  obtain ⟨own, outer⟩ := s
  cases outer with
  | nil => cases hbound
  | cons f fs =>
      rw [← bound_frames_eq]
      exact hbound

/-- What stands in a scope that binds none of the names is the same from the scope around it. -/
theorem Clear.get?_leave (h : s.Clear names) {x : String} (hx : x ∈ names) : s.get? x = s.leave.get? x := by
  obtain ⟨hfree, hbound⟩ := h x hx
  obtain ⟨own, outer⟩ := s
  have hnone : own.get? x = none := by simpa [Table.contains] using hfree
  cases outer with
  | nil => cases hbound
  | cons f fs => simp [get?, frames, Scope.leave, List.findSome?_cons, hnone]

theorem Clear.leave_assign (h : s.Clear names) {x : String} (hx : x ∈ names) (v : Value) :
    (s.assign x v).leave = s.leave.assign x v := by
  have hknown : bound x s.leave.frames = true := by rw [bound_frames_eq, h.leave x hx]
  obtain ⟨hfree, hbound⟩ := h x hx
  obtain ⟨own, outer⟩ := s
  cases outer with
  | nil => cases hbound
  | cons f fs =>
      have hassign : Scope.assign ⟨own, f :: fs⟩ x v = ⟨own, rebind x v (f :: fs)⟩ := by
        rw [Scope.assign, if_neg]
        simp [hfree, hbound]
      have hframes : (Scope.assign ⟨f, fs⟩ x v).frames = rebind x v (f :: fs) := frames_assign_of_bound hknown v
      rw [hassign, ← hframes]
      rfl

end Scope

section

variable {cfg : Settings} {P E : Scope → Prop}

/-- What assignments keep is kept by all expressions. -/
theorem expressionsAlike_kept (h : ∀ name v s, P s → P (s.assign name v)) :
    ExpressionsAlike cfg cfg (WithScopes fun s₁ s₂ => s₁ = s₂ ∧ P s₁) fun _ => True where
  note := WithScopes.note rfl
  lookup _ := WithScopes.lookup fun s₁ s₂ hs => by rw [hs.1]
  assign _ v := by
    refine WithScopes.assign ?_
    rintro s _ ⟨rfl, hs⟩
    exact ⟨rfl, h _ v s hs⟩

theorem inOrder_ensures {x : Node → Exec Unit} {body : List Node} (h : ∀ s ∈ body, (x s).Ensures P P E) :
    (inOrder x body).Ensures P P E := by
  induction body with
  | nil => exact ensures_pure ()
  | cons s ss ih =>
      obtain ⟨hs, hss⟩ := List.forall_mem_cons.1 h
      exact hs.bind fun _ => ih hss

theorem repeatWhile_ensures {condition : Node} {x : Exec Unit} (hcondition : (eval cfg condition).Ensures P P P)
    (hx : x.Ensures P P P) (n : Nat) : (repeatWhile cfg condition x n).Ensures P P P := by
  induction n with
  | zero => exact ensures_outOfFuel
  | succ n ih =>
      refine hcondition.bind fun v => (ensures_note cfg _).bind fun _ => ?_
      cases v.truthy with
      | true => exact hx.bind fun _ => ih
      | false => exact ensures_pure ()

theorem assignFields_ensures (h : ∀ name v s, P s → P (s.assign name v)) (pairs : List (String × Value)) :
    (assignFields cfg pairs).Ensures P P P := by
  induction pairs with
  | nil => exact ensures_pure ()
  | cons q rest ih =>
      have hassign : (Exec.assign q.1 q.2).Ensures P P P := by
        intro m hm
        refine ⟨fun _ _ h' => ?_, fun _ _ h' => (by cases h')⟩
        cases h'
        exact h q.1 q.2 _ hm
      exact hassign.bind fun _ => (ensures_note cfg _).bind fun _ => ih

end

/-- The names that a node declares in the scope it stands in. -/
def Node.declaredHere : Node → List String
  | .declare name _ _ => [name]
  | .branch _ yes no => yes.declaredHere ++ no.declaredHere
  | .loop _ body => body.declaredHere
  | _ => []

section

variable {cfg : Settings} {names : List String}

/-- A block with a scope of its own leaves the names outside alone. -/
theorem exec_block_names (hcfg : cfg.blockScopes = true) (n : Nat) (body : List Node)
    (outside : List (List String)) : (exec cfg n (.block body)).Ensures (·.frames.map Table.names = outside)
      (·.frames.map Table.names = outside) (·.frames.map Table.names = outside) := by
  intro m hm
  have hbody (n : Nat) : (inOrder (exec cfg n) body).Ensures (·.outer.map Table.names = outside)
      (·.outer.map Table.names = outside) (·.outer.map Table.names = outside) :=
    (scopesKept_names hcfg).inOrder n fun _ _ _ _ => trivial
  have hleave (s : Scope) (hs : s.outer.map Table.names = outside) : s.leave.frames.map Table.names = outside := by
    rw [← hm] at hs ⊢
    exact Scope.names_outer_leave hs
  have hblock : (exec cfg n (.block body)).Ensures (·.enter.outer.map Table.names = outside)
      (·.frames.map Table.names = outside) (·.frames.map Table.names = outside) :=
    exec_block_ensures hcfg hbody hleave hleave n
  exact hblock m hm

/-- Statements that declare none of the names keep the scope clear of them. -/
theorem exec_clear (hcfg : cfg.blockScopes = true) (n : Nat) {s : Node} (hs : ∀ x ∈ names, x ∉ s.declaredHere) :
    (exec cfg n s).Ensures (·.Clear names) (·.Clear names) (·.Clear names) := by
  have hassign (name : String) (v : Value) (s : Scope) (hs : s.Clear names) : (s.assign name v).Clear names :=
    hs.assign name v
  have heval (e : Node) : (eval cfg e).Ensures (·.Clear names) (·.Clear names) (·.Clear names) :=
    ensures_of_alike (eval_alike (expressionsAlike_kept hassign) fun _ _ => trivial)
  induction n generalizing s with
  | zero => exact ensures_outOfFuel
  | succ n ih =>
      by_cases hblock : ∃ body, s = .block body
      · obtain ⟨body, rfl⟩ := hblock
        intro m hm
        obtain ⟨hdone, hfailed⟩ := exec_block_names hcfg (n + 1) body (m.scope.frames.map Table.names) m rfl
        exact ⟨fun a m' h => hm.of_names (hdone a m' h), fun f m' h => hm.of_names (hfailed f m' h)⟩
      refine (ensures_note cfg _).bind fun _ => ?_
      cases s with
      | exprStmt e => exact (heval e).bind fun _ => ensures_pure ()
      | print items =>
          have hitems : (evalAll cfg items).Ensures (·.Clear names) (·.Clear names) (·.Clear names) :=
            ensures_of_alike (evalAll_alike (expressionsAlike_kept hassign) fun _ _ _ _ => trivial)
          exact hitems.bind fun vs => ensures_modify fun _ => rfl
      | declare name init type =>
          have htype : (Exec.declareType name type).Ensures (·.Clear names) (·.Clear names) (·.Clear names) := by
            cases type with
            | none => exact ensures_pure ()
            | some t => exact ensures_modify fun _ => rfl
          have hinit : (evalInit cfg init).Ensures (·.Clear names) (·.Clear names) (·.Clear names) :=
            ensures_of_alike (evalInit_alike (expressionsAlike_kept hassign) fun _ _ => trivial)
          have hdeclare (v : Value) :
              (Exec.declare name v).Ensures (·.Clear names) (·.Clear names) (·.Clear names) := by
            intro m hm
            refine ⟨fun _ _ h => ?_, fun _ _ h => (by cases h)⟩
            cases h
            exact hm.declare (fun hmem => hs name hmem List.mem_cons_self) _
          exact htype.bind fun _ => hinit.bind fun v => (hdeclare v).bind fun w => ensures_note cfg _
      | block body => exact absurd ⟨body, rfl⟩ hblock
      | branch condition yes no =>
          refine (heval condition).bind fun v => (ensures_note cfg _).bind fun _ => ?_
          have hyes : ∀ x ∈ names, x ∉ yes.declaredHere := fun x hx hmem => hs x hx (List.mem_append_left _ hmem)
          have hno : ∀ x ∈ names, x ∉ no.declaredHere := fun x hx hmem => hs x hx (List.mem_append_right _ hmem)
          cases v.truthy with
          | true => exact ih hyes
          | false =>
              cases no with
              | null => exact ensures_pure ()
              | _ => exact ih hno
      | loop condition body => exact repeatWhile_ensures (heval condition) (ih (s := body) hs) n
      | input fields =>
          have hread : (readInput fields).Ensures (·.Clear names) (·.Clear names) (·.Clear names) :=
            ensures_of_alike (WithScopes.readInput fields)
          exact hread.bind fun pairs => assignFields_ensures hassign pairs
      | _ => exact fun m hm => ⟨fun _ _ h => (by cases h), fun _ _ h => (by cases h; exact hm)⟩

theorem Otherwise.declaredHere_toNode : ∀ o : Otherwise, o.toNode.declaredHere = []
  | .nothing => rfl
  | .block _ => rfl
  | .branch _ _ otherwise => otherwise.declaredHere_toNode

theorem Stmt.declaredHere_toNodes {s : Stmt} {node : Node} (h : node ∈ s.toNodes) {x : String}
    (hx : x ∈ node.declaredHere) : x ∈ s.declaredHere := by
  cases s with
  | declare type items =>
      obtain ⟨item, hitem, rfl⟩ := List.mem_map.1 h
      rw [List.mem_singleton.1 hx]
      exact List.mem_map_of_mem hitem
  | branch condition body otherwise =>
      rw [List.mem_singleton.1 h, Node.declaredHere, otherwise.declaredHere_toNode] at hx
      cases hx
  | _ =>
      rw [List.mem_singleton.1 h] at hx
      cases hx

theorem mem_bodyNodes {node : Node} {body : List Stmt} (h : node ∈ bodyNodes body) : ∃ s ∈ body, node ∈ s.toNodes := by
  induction body with
  | nil => cases h
  | cons s ss ih =>
      rcases List.mem_append.1 h with hs | hss
      · exact ⟨s, List.mem_cons_self, hs⟩
      · obtain ⟨t, ht, hnode⟩ := ih hss
        exact ⟨t, List.mem_cons_of_mem s ht, hnode⟩

theorem body_clear (hcfg : cfg.blockScopes = true) (n : Nat) {body : List Stmt}
    (hbody : ∀ s ∈ body, ∀ x ∈ names, x ∉ s.declaredHere) :
    (inOrder (exec cfg n) (bodyNodes body)).Ensures (·.Clear names) (·.Clear names) (·.Clear names) := by
  refine inOrder_ensures fun node hnode => exec_clear hcfg n fun x hx hmem => ?_
  obtain ⟨s, hs, hnode⟩ := mem_bodyNodes hnode
  exact hbody s hs x hx (s.declaredHere_toNodes hnode hmem)

/-! ### An update past the end of a scope -/

/-- A node looks up and assigns to none but these names. -/
def Node.Names (names : List String) (t : Node) : Prop :=
  (∀ x, t = .ident x → x ∈ names) ∧ ∀ x e, t = .assign x e → x ∈ names

theorem Node.everywhere_of_parts {p : Node → Prop} {s : Node} (hs : p s) (hparts : ∀ t ∈ s.parts, t.Everywhere p) :
    s.Everywhere p := by
  intro t ht
  rw [subtrees_eq] at ht
  rcases List.mem_cons.1 ht with rfl | ht
  · exact hs
  · obtain ⟨u, hu, ht⟩ := mem_subtreesOf.1 ht
    exact hparts u hu t ht

theorem Expr.everywhere_names {e : Expr} (he : e.names ⊆ names) : e.toNode.Everywhere (Node.Names names) := by
  have hliteral (v : Value) (label : String) : (Node.literal v label).Everywhere (Node.Names names) :=
    Node.everywhere_of_parts ⟨by simp, by simp⟩ (List.forall_mem_nil _)
  induction e with
  | number x => exact hliteral _ _
  | text s => exact hliteral _ _
  | char c => exact hliteral _ _
  | var x =>
      refine Node.everywhere_of_parts ⟨?_, by simp [toNode]⟩ (List.forall_mem_nil _)
      rintro y ⟨⟩
      exact he List.mem_cons_self
  | group e ih =>
      exact Node.everywhere_of_parts ⟨by simp [toNode], by simp [toNode]⟩ (List.forall_mem_singleton.2 (ih he))
  | unary op e ih =>
      exact Node.everywhere_of_parts ⟨by simp [toNode], by simp [toNode]⟩ (List.forall_mem_singleton.2 (ih he))
  | binary op left right ihleft ihright =>
      refine Node.everywhere_of_parts ⟨by simp [toNode], by simp [toNode]⟩ (List.forall_mem_cons.2 ⟨?_, ?_⟩)
      · exact ihleft fun x hx => he (List.mem_append_left _ hx)
      · exact List.forall_mem_singleton.2 (ihright fun x hx => he (List.mem_append_right _ hx))
  | assign x e ih =>
      refine Node.everywhere_of_parts ⟨by simp [toNode], ?_⟩ (List.forall_mem_singleton.2 (ih fun y hy => ?_))
      · rintro y value ⟨⟩
        exact he List.mem_cons_self
      · exact he (List.mem_cons_of_mem x hy)

/-- An expression whose names are clear of a scope has the same effect before and after the scope is left. -/
theorem eval_leave (cfg : Settings) (e : Expr) {m : Machine} (hm : m.scope.Clear e.names) :
    (eval cfg e.toNode).afterwards (fun m => { m with scope := m.scope.leave }) m =
      eval cfg e.toNode { m with scope := m.scope.leave } := by
  have hexpressions : ExpressionsAlike cfg cfg (WithScopes fun s₁ s₂ => s₁.leave = s₂ ∧ s₁.Clear e.names)
      (Node.Names e.names) :=
    { note := WithScopes.note rfl
      lookup := by
        intro name hname
        refine WithScopes.lookup ?_
        rintro s _ ⟨rfl, hs⟩
        exact hs.get?_leave (hname.1 name rfl)
      assign := by
        intro name value hname v
        refine WithScopes.assign ?_
        rintro s _ ⟨rfl, hs⟩
        exact ⟨hs.leave_assign (hname.2 name value rfl) v, hs.assign name v⟩ }
  have halike := eval_alike hexpressions (Expr.everywhere_names (List.Subset.refl _)) m
    { m with scope := m.scope.leave } ⟨⟨rfl, hm⟩, rfl⟩
  have hleave {m₁ m₂ : Machine} (h : WithScopes (fun s₁ s₂ => s₁.leave = s₂ ∧ s₁.Clear e.names) m₁ m₂) :
      { m₁ with scope := m₁.scope.leave } = m₂ := by
    rw [h.1.1, h.2]
  rw [afterwards]
  generalize eval cfg e.toNode m = o₁ at halike
  generalize eval cfg e.toNode { m with scope := m.scope.leave } = o₂ at halike
  cases halike with
  | done v h => simp only [hleave h]
  | failed f h => simp only [hleave h]
  | outOfFuel => rfl

end

section

variable {cfg : Settings} {n : Nat}

theorem exec_exprStmt_eq (hlevel : cfg.level = 0) (e : Node) :
    exec cfg (n + 1) (.exprStmt e) = eval cfg e >>= fun _ => Pure.pure () := by
  rw [exec, note_of_level_zero hlevel, pure_bind]

theorem exec_loop_eq (hlevel : cfg.level = 0) (condition body : Node) :
    exec cfg (n + 1) (.loop condition body) = repeatWhile cfg condition (exec cfg n body) n := by
  rw [exec, note_of_level_zero hlevel, pure_bind]

theorem exec_block_eq (hlevel : cfg.level = 0) (hcfg : cfg.blockScopes = true) (body : List Node) :
    exec cfg (n + 1) (.block body) = (inOrder (exec cfg n) body).inNewScope := by
  rw [exec, note_of_level_zero hlevel, pure_bind, inBlock, if_pos hcfg, note_of_level_zero hlevel, pure_bind]

/-- One round of the tree is one round of the loop, if the update's names are bound outside of the body and the body
keeps its scope clear of them. -/
theorem exec_round_eq (hlevel : cfg.level = 0) (hcfg : cfg.blockScopes = true) (update : Expr) {body : List Node}
    (hbody : (inOrder (exec cfg (n + 1)) body).Ensures (·.Clear update.names) (·.Clear update.names)
      (·.Clear update.names)) {m : Machine} (hm : m.scope.Knows update.names) :
    exec cfg (n + 2) (.block (body ++ [.exprStmt update.toNode])) m =
      lexicalRound cfg update (inOrder (exec cfg (n + 1)) body) m := by
  have hinside := (hbody { m with scope := m.scope.enter } hm.enter).1
  have hlast : inOrder (exec cfg (n + 1)) [.exprStmt update.toNode] =
      eval cfg update.toNode >>= fun _ => Pure.pure () := by
    rw [inOrder, exec_exprStmt_eq hlevel, bind_assoc]
    rfl
  rw [exec_block_eq hlevel hcfg, inOrder_append, hlast, lexicalRound]
  simp only [inNewScope, afterwards, bind_apply]
  cases hrun : inOrder (exec cfg (n + 1)) body { m with scope := m.scope.enter } with
  | failed f m' => rfl
  | outOfFuel => rfl
  | done a m' =>
      have hleave := eval_leave cfg update (hinside a m' hrun)
      simp only [← hleave, afterwards, pure_apply]
      cases eval cfg update.toNode m' with
      | done v m' => rfl
      | failed f m' => rfl
      | outOfFuel => rfl

/-- The names of an update that have to be bound before its loop is tested. -/
def neededNames (condition update : Expr) : List String := update.names.filter (· ∉ condition.assigned)

theorem subset_neededNames (condition update : Expr) :
    update.names ⊆ condition.assigned ++ neededNames condition update := by
  intro x hx
  by_cases hassigned : x ∈ condition.assigned
  · exact List.mem_append_left _ hassigned
  · exact List.mem_append_right _ (List.mem_filter.2 ⟨hx, decide_eq_true hassigned⟩)

theorem neededNames_subset (condition update : Expr) : neededNames condition update ⊆ update.names :=
  List.filter_subset_self _

/-- After a round the names of the update are still bound. -/
theorem round_knows (cfg : Settings) {x : Exec Unit} {update : Expr}
    (hx : x.Ensures (·.Clear update.names) (·.Clear update.names) (·.Clear update.names)) :
    (lexicalRound cfg update x).Ensures (·.Knows update.names) (·.Knows update.names) fun _ => True := by
  have hscope : x.inNewScope.Ensures (·.Knows update.names) (·.Knows update.names) fun _ => True := by
    intro m hm
    have hinside := (hx { m with scope := m.scope.enter } hm.enter).1
    refine ⟨fun a m' h => ?_, fun _ _ _ => trivial⟩
    rw [inNewScope, afterwards] at h
    split at h
    · rename_i hrun
      cases h
      exact (hinside _ _ hrun).leave
    · cases h
    · cases h
  refine hscope.bind fun _ => (eval_knows cfg update update.names).bind fun _ => ?_
  exact (ensures_pure ()).weaken (fun s hs => hs.subset (List.subset_append_right _ _)) fun _ hs => hs

theorem repeatWhile_eq_lexicalRounds (hlevel : cfg.level = 0) (hcfg : cfg.blockScopes = true)
    (condition update : Expr) {body : List Node}
    (hbody : (inOrder (exec cfg (n + 1)) body).Ensures (·.Clear update.names) (·.Clear update.names)
      (·.Clear update.names)) (rounds : Nat) {m : Machine} (hm : m.scope.Knows (neededNames condition update)) :
    repeatWhile cfg condition.toNode (exec cfg (n + 2) (.block (body ++ [.exprStmt update.toNode]))) rounds m =
      lexicalRounds cfg condition update (inOrder (exec cfg (n + 1)) body) rounds m := by
  induction rounds generalizing m with
  | zero => rfl
  | succ rounds ih =>
      have hknown := (eval_knows cfg condition (neededNames condition update) m hm).1
      rw [repeatWhile, lexicalRounds, bind_apply, bind_apply]
      cases hcondition : eval cfg condition.toNode m with
      | failed f m' => rfl
      | outOfFuel => rfl
      | done v m' =>
          have hm' : m'.scope.Knows update.names :=
            (hknown v m' hcondition).subset (subset_neededNames condition update)
          simp only [note_of_level_zero hlevel, pure_bind]
          cases v.truthy with
          | false => rfl
          | true =>
              have hround := exec_round_eq hlevel hcfg update hbody hm'
              have hafter := (round_knows cfg hbody m' hm').1
              rw [if_pos rfl, if_pos rfl, bind_apply, bind_apply, hround]
              cases hrun : lexicalRound cfg update (inOrder (exec cfg (n + 1)) body) m' with
              | failed f m'' => rfl
              | outOfFuel => rfl
              | done a m'' => exact ih ((hafter a m'' hrun).subset (neededNames_subset condition update))

/-- The tree of a loop is the loop with lexical scopes, but for messages. -/
theorem exec_count_eq (hlevel : cfg.level = 0) (hcfg : cfg.blockScopes = true) (init condition update : Expr)
    {body : List Node}
    (hbody : (inOrder (exec cfg (n + 1)) body).Ensures (·.Clear update.names) (·.Clear update.names)
      (·.Clear update.names)) {m : Machine}
    (hm : ∀ x ∈ update.names, (m.scope.get? x).isSome = true ∨ x ∈ init.assigned ∨ x ∈ condition.assigned) :
    exec cfg (n + 4) (.block [.exprStmt init.toNode,
        .loop condition.toNode (.block (body ++ [.exprStmt update.toNode]))]) m =
      lexicalLoop cfg init condition update (inOrder (exec cfg (n + 1)) body) (n + 2) m := by
  let known := update.names.filter fun x => (m.scope.get? x).isSome
  have hstart : m.scope.enter.Knows known := fun x hx => (List.mem_filter.1 hx).2
  have hneeded : neededNames condition update ⊆ init.assigned ++ known := by
    intro x hx
    obtain ⟨hx, hcondition⟩ := List.mem_filter.1 hx
    rcases hm x hx with hbound | hinit | hassigned
    · exact List.mem_append_right _ (List.mem_filter.2 ⟨hx, hbound⟩)
    · exact List.mem_append_left _ hinit
    · exact absurd hassigned (of_decide_eq_true hcondition)
  have hstatements : inOrder (exec cfg (n + 3)) [.exprStmt init.toNode,
      .loop condition.toNode (.block (body ++ [.exprStmt update.toNode]))] =
      eval cfg init.toNode >>= fun _ => repeatWhile cfg condition.toNode
        (exec cfg (n + 2) (.block (body ++ [.exprStmt update.toNode]))) (n + 2) := by
    rw [inOrder, inOrder, inOrder, exec_exprStmt_eq hlevel, exec_loop_eq hlevel, bind_assoc]
    simp only [pure_bind, bind_pure_unit]
  have hinside : (eval cfg init.toNode >>= fun _ => repeatWhile cfg condition.toNode
      (exec cfg (n + 2) (.block (body ++ [.exprStmt update.toNode]))) (n + 2)) { m with scope := m.scope.enter } =
      (eval cfg init.toNode >>= fun _ => lexicalRounds cfg condition update (inOrder (exec cfg (n + 1)) body) (n + 2))
        { m with scope := m.scope.enter } := by
    rw [bind_apply, bind_apply]
    have hknown := (eval_knows cfg init known { m with scope := m.scope.enter } hstart).1
    cases hinit : eval cfg init.toNode { m with scope := m.scope.enter } with
    | failed f m' => rfl
    | outOfFuel => rfl
    | done v m' =>
        exact repeatWhile_eq_lexicalRounds hlevel hcfg condition update hbody _ ((hknown v m' hinit).subset hneeded)
  rw [exec_block_eq hlevel hcfg, hstatements, lexicalLoop, inNewScope, inNewScope, afterwards, afterwards, hinside]

end

section

variable (cfg : Settings) (init condition update : Expr)

theorem lexicalRounds_extends {x y : Exec Unit} (h : x.Extends y) (r k : Nat) :
    (lexicalRounds cfg condition update x r).Extends (lexicalRounds cfg condition update y (r + k)) := by
  induction r with
  | zero => exact outOfFuel_extends _
  | succ r ih =>
      rw [Nat.succ_add]
      refine (Extends.refl _).bind fun v => ?_
      cases v.truthy with
      | true =>
          have hbody : x.inNewScope.Extends y.inNewScope := fun m => h.afterwards _ { m with scope := m.scope.enter }
          have hround := hbody.bind fun _ => (Extends.refl (eval cfg update.toNode)).bind fun _ => .refl (Pure.pure ())
          exact hround.bind fun _ => ih
      | false => exact .refl _

theorem lexicalLoop_extends {x y : Exec Unit} (h : x.Extends y) {r k : Nat} (hr : r ≤ k) :
    (lexicalLoop cfg init condition update x r).Extends (lexicalLoop cfg init condition update y k) := by
  obtain ⟨d, rfl⟩ := Nat.exists_eq_add_of_le hr
  have hrounds := (Extends.refl (eval cfg init.toNode)).bind fun _ =>
    lexicalRounds_extends cfg condition update h r d
  exact fun m => hrounds.afterwards _ { m with scope := m.scope.enter }

theorem lexicalCount_extends (body : List Stmt) {n k : Nat} (h : n ≤ k) :
    (lexicalCount cfg init condition update body n).Extends (lexicalCount cfg init condition update body k) :=
  lexicalLoop_extends cfg init condition update (inOrder_extends (exec_extends cfg h) _) h

theorem lexicalLoop_alike {cfg₁ cfg₂ : Settings} (hcfg₁ : cfg₁.blockScopes = true) (hcfg₂ : cfg₂.blockScopes = true)
    {x y : Exec Unit} (hxy : x.Alike (LogAside cfg₁ cfg₂) y) (r : Nat) :
    (lexicalLoop cfg₁ init condition update x r).Alike (LogAside cfg₁ cfg₂)
      (lexicalLoop cfg₂ init condition update y r) := by
  have hscopes : cfg₁.blockScopes = cfg₂.blockScopes := hcfg₁.trans hcfg₂.symm
  have hscope {x y : Exec Unit} (h : x.Alike (LogAside cfg₁ cfg₂) y) :
      x.inNewScope.Alike (LogAside cfg₁ cfg₂) y.inNewScope := by
    have hblock := (LogAside.sharesBindings cfg₁ cfg₂).inBlock hscopes h
    rwa [inBlock, inBlock, if_pos hcfg₁, if_pos hcfg₂] at hblock
  have hrounds : (lexicalRounds cfg₁ condition update x r).Alike (LogAside cfg₁ cfg₂)
      (lexicalRounds cfg₂ condition update y r) := by
    induction r with
    | zero => exact alike_outOfFuel
    | succ r ih =>
        refine (eval_alike_logAside hscopes _).bind fun v => ?_
        cases v.truthy with
        | true =>
            have hround := (hscope hxy).bind fun _ =>
              (eval_alike_logAside hscopes update.toNode).bind fun _ => alike_pure ()
            exact hround.bind fun _ => ih
        | false => exact alike_pure ()
  exact hscope ((eval_alike_logAside hscopes _).bind fun _ => hrounds)

end

section

variable {cfg : Settings} {init condition update : Expr} {body : List Stmt} {m : Machine}

theorem quiet_eq_of_logAside {cfg₁ cfg₂ : Settings} {o₁ o₂ : Outcome Unit} (h : o₁.Alike (LogAside cfg₁ cfg₂) o₂) :
    o₁.quiet = o₂.quiet := by
  cases h with
  | done a hm => exact Outcome.Alike.quiet_eq (.done a hm.same)
  | failed f hm => exact Outcome.Alike.quiet_eq (.failed f hm.same)
  | outOfFuel => rfl

/-- The tree of a counting loop with enough fuel ends like the loop with lexical scopes. -/
theorem exec_count_quiet_eq (hcfg : cfg.blockScopes = true) (hm : m.KeepsOutput cfg)
    (hbound : ∀ x ∈ update.names, (m.scope.get? x).isSome = true ∨ x ∈ init.assigned ∨ x ∈ condition.assigned)
    (hbody : ∀ s ∈ body, ∀ x ∈ update.names, x ∉ s.declaredHere) (n : Nat) :
    (inOrder (exec cfg (n + 4)) (Stmt.count init condition update body).toNodes m).quiet =
      (lexicalLoop cfg init condition update (inOrder (exec cfg (n + 1)) (bodyNodes body)) (n + 2) m).quiet := by
  -- without messages the two are the same, and with messages each differs in its log only
  let silent : Settings := { cfg with level := 0 }
  have hlog : LogAside cfg silent m m := ⟨rfl, hm, .inl rfl⟩
  have hstatements (k : Nat) (nodes : List Node) :
      (inOrder (exec cfg k) nodes).Alike (LogAside cfg silent) (inOrder (exec silent k) nodes) :=
    inOrder_alike fun s _ => @exec_alike_logAside cfg silent rfl k s
  have htree := hstatements (n + 4) (Stmt.count init condition update body).toNodes m m hlog
  have hsilent : silent.blockScopes = true := hcfg
  have hloop := lexicalLoop_alike init condition update hcfg hsilent (hstatements (n + 1) (bodyNodes body)) (n + 2) m m
    hlog
  have hclear : (inOrder (exec silent (n + 1)) (bodyNodes body)).Ensures (·.Clear update.names) (·.Clear update.names)
      (·.Clear update.names) := body_clear hsilent (n + 1) hbody
  have hsame := exec_count_eq rfl hsilent init condition update hclear hbound
  rw [quiet_eq_of_logAside htree, quiet_eq_of_logAside hloop, ← hsame, Stmt.toNodes, inOrder, inOrder, bind_pure_unit]

end

/-- A counting loop with scopes for blocks. If the body declares no variable of the update in its own scope, and each of
them is bound before the loop or assigned to by the initial expression or the condition, then the tree does what
lexical scoping says: it ends in the same way on the same machine but for the log, or neither ends. -/
theorem count_scopes_lexical {cfg : Settings} {m : Machine} (hcfg : cfg.blockScopes = true) (hm : m.KeepsOutput cfg)
    {init condition update : Expr} {body : List Stmt}
    (hbound : ∀ x ∈ update.names, (m.scope.get? x).isSome = true ∨ x ∈ init.assigned ∨ x ∈ condition.assigned)
    (hbody : ∀ s ∈ body, ∀ x ∈ update.names, x ∉ s.declaredHere) (o : Outcome Unit) :
    Settles (fun n => inOrder (exec cfg n) (Stmt.count init condition update body).toNodes) m o ↔
      Settles (lexicalCount cfg init condition update body) m o := by
  have htree {n k : Nat} (h : n ≤ k) : (inOrder (exec cfg n) (Stmt.count init condition update body).toNodes).Extends
      (inOrder (exec cfg k) (Stmt.count init condition update body).toNodes) := inOrder_extends (exec_extends cfg h) _
  have hloop {n k r l : Nat} (h : n ≤ k) (hr : r ≤ l) :
      (lexicalLoop cfg init condition update (inOrder (exec cfg n) (bodyNodes body)) r).Extends
        (lexicalLoop cfg init condition update (inOrder (exec cfg k) (bodyNodes body)) l) :=
    lexicalLoop_extends cfg init condition update (inOrder_extends (exec_extends cfg h) _) hr
  have hquiet := exec_count_quiet_eq hcfg hm hbound hbody
  apply settles_congr htree (lexicalCount_extends cfg init condition update body)
  · intro k hk
    refine ⟨k + 4, ?_⟩
    rw [hquiet k, hloop (Nat.le_succ k) (Nat.le_add_right k 2) m hk]
    rfl
  · intro n hn
    refine ⟨n + 2, ?_⟩
    have hends : lexicalLoop cfg init condition update (inOrder (exec cfg (n + 1)) (bodyNodes body)) (n + 2) m ≠
        .outOfFuel := by
      rw [ne_eq, ← Outcome.quiet_eq_outOfFuel, ← hquiet n, Outcome.quiet_eq_outOfFuel,
        htree (Nat.le_add_right n 4) m hn]
      exact hn
    change lexicalLoop cfg init condition update (inOrder (exec cfg (n + 2)) (bodyNodes body)) (n + 2) m ≠ .outOfFuel
    rw [hloop (Nat.le_succ (n + 1)) (Nat.le_refl (n + 2)) m hends]
    exact hends

/-- A text is put after that of a variable. -/
def appendTo (name suffix : String) : Expr := .assign name (.binary .concat (.var name) (.text suffix))

/-- A body that prints letters through a name of its own. -/
def echoBody : List Stmt := [.expr (.assign "t" (.var "i")), .print (.var "t")]

theorem count_scopes_lexical_echoBody : ∃ m,
    Settles (fun n => inOrder (exec { blockScopes := true, level := 3 } n) (Stmt.count (.assign "i" (.text "a"))
      (.binary .ne (.var "i") (.text "aaa")) (appendTo "i" "a") echoBody).toNodes) (.fresh []) (.done () m) ∧
      m.output = "aaa" ∧ m.scope.get? "i" = none ∧ m.scope.get? "t" = none := by
  have hlexical : Settles (lexicalCount { blockScopes := true, level := 3 } (.assign "i" (.text "a"))
      (.binary .ne (.var "i") (.text "aaa")) (appendTo "i" "a") echoBody) (.fresh [])
      (.done () { output := "aaa" }) := by
    rw [settles_iff (lexicalCount_extends _ _ _ _ _)]
    exact .inl ⟨4, by decide +kernel, by decide +kernel⟩
  refine ⟨_, (count_scopes_lexical rfl (.inr rfl) ?_ ?_ _).2 hlexical, rfl, rfl, rfl⟩
  · decide
  · decide

/-- A body that declares a name which the update of its loop is about. -/
def hidingBody : List Stmt := [.declare .letra [("k", some (.text "b"))], .expr (appendTo "i" "a")]

/-- The two differ where the body hides a name of the update. The tree changes the name of the body, which each round
forgets, and lexical scoping that of the loop. -/
theorem count_scopes_differ_hidingBody : ∃ m₁ m₂,
    Settles (fun n => inOrder (exec { blockScopes := true } n) (Stmt.count (.assign "i" (.text "a"))
      (.binary .ne (.var "i") (.text "aaa")) (appendTo "k" "x") hidingBody).toNodes)
      { scope := ⟨.ofList [("k", .text "a")], []⟩ } (.done () m₁) ∧
    Settles (lexicalCount { blockScopes := true } (.assign "i" (.text "a")) (.binary .ne (.var "i") (.text "aaa"))
      (appendTo "k" "x") hidingBody) { scope := ⟨.ofList [("k", .text "a")], []⟩ } (.done () m₂) ∧
    m₁.scope.get? "k" = some (.text "a") ∧ m₂.scope.get? "k" = some (.text "axx") := by
  let after (text : String) : Machine :=
    { scope := ⟨.ofList [("k", .text text)], []⟩, types := .ofList [("k", some .character)] }
  refine ⟨after "a", after "axx", ?_, ?_, rfl, rfl⟩
  · rw [settles_iff fun h => inOrder_extends (exec_extends _ h) _]
    exact .inl ⟨8, by decide +kernel, by decide +kernel⟩
  · rw [settles_iff (lexicalCount_extends _ _ _ _ _)]
    exact .inl ⟨4, by decide +kernel, by decide +kernel⟩

end Binisaya
