import Binisaya.Proofs.Scoping.Basic
import Binisaya.Proofs.Tables

/-! The names that matter to a run. A run changes no binding of a name that its program neither assigns to, declares
nor reads, wherever around it the name is bound. And it takes no notice of a name that does not occur in its program:
two runs that start with the same values and types for all other names go alike. -/

namespace Binisaya

open Exec

namespace Node

/-- The names to which a node itself gives types before anything is done; only a program does so. -/
def typed : Node → List String
  | .program types _ => types.names
  | _ => []

/-- The names that stand in a node itself. -/
def ownNames : Node → List String
  | .ident name => [name]
  | t => t.typed ++ t.binds

/-- The names that a tree binds at any depth. -/
def allBinds (p : Node) : List String := p.subtrees.flatMap binds

/-- The names that occur in a tree at any depth. -/
def allNames (p : Node) : List String := p.subtrees.flatMap ownNames

theorem everywhere_notMem_binds {p : Node} {name : String} (h : name ∉ p.allBinds) :
    p.Everywhere fun t => name ∉ t.binds :=
  fun t ht hname => h (List.mem_flatMap.2 ⟨t, ht, hname⟩)

theorem everywhere_mem_allNames (p : Node) : p.Everywhere fun t => ∀ name ∈ t.ownNames, name ∈ p.allNames :=
  fun t ht _ hname => List.mem_flatMap.2 ⟨t, ht, hname⟩

theorem binds_of_mem_targets {t : Node} {name : String} (h : name ∈ t.targets) : name ∈ t.binds := by
  cases t with
  | declare => cases h
  | _ => exact h

theorem ownNames_of_mem_binds {t : Node} {name : String} (h : name ∈ t.binds) : name ∈ t.ownNames := by
  cases t with
  | ident => cases h
  | _ => exact List.mem_append_right _ h

end Node

section

variable {name : String}

/-- In every scope around, a name that is not bound by the statements keeps its value or stays unbound. -/
theorem scopesKept_column (cfg : Settings) (name : String) :
    ScopesKept cfg (fun values s => s.column name = values) fun _ t => name ∉ t.binds where
  assign := by
    intro values t ht other hother v s hs
    rw [Scope.column_assign_of_ne _ v, hs]
    rintro rfl
    exact ht (Node.binds_of_mem_targets hother)
  declare := by
    intro values other init type ht v s hs
    rw [Scope.column_declare_of_ne _ v, hs]
    rintro rfl
    exact ht List.mem_cons_self
  block := by
    intro values body hbody s hs
    have hparts : ∀ t ∈ body, t.Everywhere fun t => name ∉ t.binds := fun t ht => hbody.part ht
    cases hcfg : cfg.blockScopes with
    | true =>
        refine ⟨none :: values, hparts, ?_, fun t ht => ?_⟩
        · rw [Settings.enter, if_pos hcfg, Scope.column_enter, hs]
        · rw [Settings.leave, if_pos hcfg]
          exact Scope.column_leave ht (hs ▸ List.cons_ne_nil _ _)
    | false =>
        refine ⟨values, hparts, ?_, fun t ht => ?_⟩
        · rwa [Settings.enter, hcfg]
        · rwa [Settings.leave, hcfg]

theorem typesAlike_entry {ι : Type} (name : String) (entry : Option (Option VarType)) :
    TypesAlike (fun t₁ t₂ => t₁ = t₂ ∧ t₁.get? name = entry) fun (_ : ι) t => name ∉ t.binds where
  insert := by
    rintro i other init type ht t _ ⟨rfl, hentry⟩
    refine ⟨rfl, ?_⟩
    rw [Table.get?_insert, if_neg, hentry]
    rintro rfl
    exact ht List.mem_cons_self
  typeOf := by
    rintro i t - other - t₁ _ ⟨rfl, -⟩
    rfl

/-- What two endings have in common that are one. -/
theorem Outcome.Alike.of_leaves {α : Type} {R : Machine → Machine → Prop} {o : Outcome α} {m : Machine}
    (h : o.Alike R o) (hm : o.Leaves m) : R m m := by
  rcases hm with ⟨a, rfl⟩ | ⟨f, rfl⟩
  · cases h with
    | done _ h => exact h
  · cases h with
    | failed _ h => exact h

/-- **A run touches only what its program binds.** However a run ends, a name that the program nowhere assigns to,
declares or reads is bound in the same scopes around as before, to the same values, and its declared type is as before
unless the program lists one for it. -/
theorem run_keeps_unbound_name {cfg : Settings} {n : Nat} {p : Node} {m m' : Machine}
    (h : (run cfg n p m).Leaves m') (hname : name ∉ p.allBinds) :
    m'.scope.frames.map (·.get? name) = m.scope.frames.map (·.get? name) ∧
    (name ∉ p.typed → m'.types.get? name = m.types.get? name) := by
  cases p with
  | program types body =>
      have hbody : ∀ s ∈ body, s.Everywhere fun t => name ∉ t.binds := fun s hs =>
        (Node.everywhere_notMem_binds hname).part hs
      have hstatements := (scopesKept_column cfg name).scopesAlike.withBindings
        (typesAlike_entry name ((m.types.update types).get? name))
      have halike : (run cfg n (.program types body) m).Alike _ (run cfg n (.program types body) m) :=
        hstatements.run rfl n (i := m.scope.column name) hbody ⟨⟨rfl, rfl⟩, ⟨rfl, rfl⟩, rfl⟩
          fun _ _ hm => hm.update (f := fun m => { m with logging := false }) fun _ _ _ => rfl
      have hm' := halike.of_leaves h
      refine ⟨hm'.scope.2, fun htyped => ?_⟩
      have hnone : types.get? name = none := lookup_eq_none_of_notMem htyped
      rw [hm'.types.2, Table.get?_update, hnone, Option.none_or]
  | _ =>
      rcases h with ⟨a, h⟩ | ⟨f, h⟩
      · cases h
      · cases h
        exact ⟨rfl, fun _ => rfl⟩

/-- Declares `x`, and in a block assigns to `y` while it prints, reads `x`, and asks for a variable that there is
not. -/
def strewnProgram : Node :=
  .program (.ofList [("x", some .character)])
    [.declare "x" .null none,
      .block [.print [.assign "y" (.ident "k")], .input ["x"], .exprStmt (.assign "z" (.ident "w"))]]

/-- A machine in a scope inside another one, with `k` bound in both. -/
def nestedMachine : Machine :=
  { scope := ⟨.ofList [("k", .text "near")], [.ofList [("y", .nil), ("k", .text "far")]]⟩
    types := .ofList [("k", some .number)]
    unread := "c\n".toList }

theorem run_keeps_unbound_name_strewnProgram : ∃ m',
    (run { blockScopes := true } 3 strewnProgram nestedMachine).Leaves m' ∧
    "k" ∉ strewnProgram.allBinds ∧ "k" ∉ strewnProgram.typed ∧
    m'.scope.frames.map Table.names = [["k", "x"], ["y", "k"]] ∧
    m'.scope.frames.map (·.get? "k") = [some (.text "near"), some (.text "far")] ∧
    m'.types.get? "k" = some (some .number) := by
  have hleaves : (run { blockScopes := true } 3 strewnProgram nestedMachine).Leaves
      { scope := ⟨.ofList [("k", .text "near"), ("x", .char "c")], [.ofList [("y", .text "near"), ("k", .text "far")]]⟩
        types := .ofList [("k", some .number), ("x", some .character)]
        output := "near"
        logging := false } := .inr ⟨.fault (.undefinedVariable "w"), by decide +kernel⟩
  have hbinds : "k" ∉ strewnProgram.allBinds := by decide
  have htyped : "k" ∉ strewnProgram.typed := by decide
  obtain ⟨hvalues, htypes⟩ := run_keeps_unbound_name hleaves hbinds
  exact ⟨_, hleaves, hbinds, htyped, by decide, hvalues, htypes htyped⟩

end

section

variable {known : String → Prop}

/-- Two scopes lie inside as many others, and all these have the same values for known names. -/
structure Scope.AgreeOn (known : String → Prop) (depth : Nat) (s₁ s₂ : Scope) : Prop where
  left : s₁.outer.length = depth
  right : s₂.outer.length = depth
  column : ∀ name, known name → s₁.column name = s₂.column name

/-- Two tables have the same types for known names; a name that is not listed has none. -/
def TypesAgreeOn (known : String → Prop) (t₁ t₂ : TypeTable) : Prop :=
  ∀ name, known name → (t₁.get? name).join = (t₂.get? name).join

theorem column_rebind_congr {name : String} {fs₁ fs₂ : List Frame} (v : Value)
    (h : fs₁.map (·.get? name) = fs₂.map (·.get? name)) :
    (rebind name v fs₁).map (·.get? name) = (rebind name v fs₂).map (·.get? name) := by
  induction fs₁ generalizing fs₂ with
  | nil =>
      cases fs₂ with
      | nil => rfl
      | cons f fs => cases h
  | cons f₁ fs₁ ih =>
      cases fs₂ with
      | nil => cases h
      | cons f₂ fs₂ =>
          obtain ⟨hf, hfs⟩ := List.cons.inj h
          have hcontains : f₁.contains name = f₂.contains name := congrArg Option.isSome hf
          rw [rebind, rebind, hcontains]
          split_ifs
          · simp [hfs]
          · simp [hf, ih hfs]

namespace Scope

variable {name : String} {s₁ s₂ : Scope} {depth : Nat}

/-- An assignment changes the values of its name by what they are. -/
theorem column_assign_congr (h : s₁.column name = s₂.column name) (v : Value) :
    (s₁.assign name v).column name = (s₂.assign name v).column name := by
  have hbound : bound name s₁.frames = bound name s₂.frames := by
    rw [bound_frames_eq, bound_frames_eq, get?_eq_column, get?_eq_column, h]
  cases hb : bound name s₁.frames with
  | true =>
      rw [column, column, frames_assign_of_bound hb, frames_assign_of_bound (hbound ▸ hb)]
      exact column_rebind_congr v h
  | false =>
      rw [assign_of_not_bound hb, assign_of_not_bound (hbound ▸ hb), column_declare_self, column_declare_self, h]

theorem length_outer_assign (s : Scope) (name : String) (v : Value) :
    (s.assign name v).outer.length = s.outer.length := by
  have hnames := congrArg List.length (s.names_outer_assign name v)
  rwa [List.length_map, List.length_map] at hnames

namespace AgreeOn

theorem assign (h : AgreeOn known depth s₁ s₂) (name : String) (v : Value) :
    AgreeOn known depth (s₁.assign name v) (s₂.assign name v) := by
  refine ⟨(s₁.length_outer_assign name v).trans h.left, (s₂.length_outer_assign name v).trans h.right, ?_⟩
  intro other hother
  by_cases heq : other = name
  · subst heq
    exact column_assign_congr (h.column other hother) v
  · rw [column_assign_of_ne heq, column_assign_of_ne heq, h.column other hother]

theorem declare (h : AgreeOn known depth s₁ s₂) (name : String) (v : Value) :
    AgreeOn known depth (s₁.declare name v) (s₂.declare name v) := by
  refine ⟨h.left, h.right, fun other hother => ?_⟩
  by_cases heq : other = name
  · subst heq
    rw [column_declare_self, column_declare_self, h.column other hother]
  · rw [column_declare_of_ne heq, column_declare_of_ne heq, h.column other hother]

theorem enter (h : AgreeOn known depth s₁ s₂) : AgreeOn known (depth + 1) s₁.enter s₂.enter := by
  refine ⟨congrArg Nat.succ h.left, congrArg Nat.succ h.right, fun name hname => ?_⟩
  rw [column_enter, column_enter, h.column name hname]

theorem leave (h : AgreeOn known (depth + 1) s₁ s₂) : AgreeOn known depth s₁.leave s₂.leave := by
  obtain ⟨own₁, outer₁⟩ := s₁
  obtain ⟨own₂, outer₂⟩ := s₂
  obtain ⟨hleft, hright, hcolumn⟩ := h
  cases outer₁ with
  | nil => cases hleft
  | cons f₁ fs₁ =>
      cases outer₂ with
      | nil => cases hright
      | cons f₂ fs₂ =>
          exact ⟨Nat.succ.inj hleft, Nat.succ.inj hright, fun name hname => (List.cons.inj (hcolumn name hname)).2⟩

end AgreeOn

end Scope

/-- Scopes that agree on the names of a program go on to do so. -/
theorem scopesAlike_agreeOn (cfg : Settings) (known : String → Prop) :
    ScopesAlike cfg cfg (Scope.AgreeOn known) fun _ t => ∀ name ∈ t.ownNames, known name where
  level := rfl
  lookup := by
    intro depth name hok s₁ s₂ hs
    rw [Scope.get?_eq_column, Scope.get?_eq_column, hs.column name (hok name List.mem_cons_self)]
  assign _ name _ v _ _ hs := hs.assign name v
  declare _ v _ _ hs := hs.declare _ v
  block := by
    intro depth body hbody s₁ s₂ hs
    have hparts : ∀ t ∈ body, t.Everywhere fun t => ∀ name ∈ t.ownNames, known name := fun t ht => hbody.part ht
    cases hcfg : cfg.blockScopes with
    | true =>
        refine ⟨depth + 1, hparts, ?_, fun t₁ t₂ ht => ?_⟩
        · rw [Settings.enter, Settings.enter, if_pos hcfg, if_pos hcfg]
          exact hs.enter
        · rw [Settings.leave, Settings.leave, if_pos hcfg, if_pos hcfg]
          exact ht.leave
    | false =>
        refine ⟨depth, hparts, ?_, fun t₁ t₂ ht => ?_⟩
        · rwa [Settings.enter, Settings.enter, hcfg]
        · rwa [Settings.leave, Settings.leave, hcfg]

theorem typesAlike_agreeOn {ι : Type} (known : String → Prop) :
    TypesAlike (TypesAgreeOn known) fun (_ : ι) t => ∀ name ∈ t.ownNames, known name where
  insert := by
    intro i name init type _ t₁ t₂ ht other hother
    rw [Table.get?_insert, Table.get?_insert]
    split_ifs
    · rfl
    · exact ht other hother
  typeOf := by
    intro i t hok name hname t₁ t₂ ht
    exact ht name (hok name (Node.ownNames_of_mem_binds (Node.binds_of_mem_typeUses hname)))

theorem TypesAgreeOn.update {t₁ t₂ : TypeTable} (h : TypesAgreeOn known t₁ t₂) (u : TypeTable) :
    TypesAgreeOn known (t₁.update u) (t₂.update u) := by
  intro name hname
  rw [Table.get?_update, Table.get?_update]
  cases u.get? name with
  | some type => rfl
  | none => exact h name hname

/-- Two machines outside of all blocks have the same values and types for known names, and are the same in all but
variables and types. -/
structure Machine.SameOn (known : String → Prop) (m₁ m₂ : Machine) : Prop where
  outermost : m₁.scope.outer = [] ∧ m₂.scope.outer = []
  values : ∀ name, known name → m₁.scope.get? name = m₂.scope.get? name
  types : ∀ name, known name → m₁.typeOf name = m₂.typeOf name
  rest : m₁ = { m₂ with scope := m₁.scope, types := m₁.types }

theorem Scope.column_of_outermost {s : Scope} (h : s.outer = []) (name : String) : s.column name = [s.get? name] := by
  rw [column, get?, frames, h, List.findSome?_singleton]
  rfl

theorem Machine.sameOn_iff {m₁ m₂ : Machine} :
    SameOn known m₁ m₂ ↔ WithBindings (Scope.AgreeOn known 0) (TypesAgreeOn known) m₁ m₂ := by
  constructor
  · rintro ⟨⟨h₁, h₂⟩, hvalues, htypes, hrest⟩
    refine ⟨⟨List.length_eq_zero_iff.2 h₁, List.length_eq_zero_iff.2 h₂, fun name hname => ?_⟩, htypes, hrest⟩
    rw [Scope.column_of_outermost h₁, Scope.column_of_outermost h₂, hvalues name hname]
  · rintro ⟨⟨h₁, h₂, hcolumn⟩, htypes, hrest⟩
    refine ⟨⟨List.length_eq_zero_iff.1 h₁, List.length_eq_zero_iff.1 h₂⟩, fun name hname => ?_, htypes, hrest⟩
    rw [Scope.get?_eq_column, Scope.get?_eq_column, hcolumn name hname]

/-- **A run depends on the names that it mentions and on no others.** From two machines outside of all blocks that have
the same input and the same values and types for the names of the program, the runs end alike: with the same output, the
same rest of the input and the same error, if any, and again with the same values and types for these names. With fuel
that is not enough for the one it is not enough for the other. -/
theorem run_depends_on_own_names (cfg : Settings) (n : Nat) (p : Node) {m₁ m₂ : Machine}
    (h : Machine.SameOn (· ∈ p.allNames) m₁ m₂) :
    (run cfg n p m₁).Alike (Machine.SameOn (· ∈ p.allNames)) (run cfg n p m₂) := by
  cases p with
  | program types body =>
      have hm := Machine.sameOn_iff.1 h
      have hbody : ∀ s ∈ body, s.Everywhere fun t => ∀ name ∈ t.ownNames, name ∈ (Node.program types body).allNames :=
        fun s hs => (Node.everywhere_mem_allNames _).part hs
      refine ((scopesAlike_agreeOn cfg _).withBindings (typesAlike_agreeOn _)).run rfl n (i := 0) hbody
        (hm.mapTypes (·.update types) (hm.types.update types)) fun m₁ m₂ hm => ?_
      exact Machine.sameOn_iff.2 (hm.update (f := fun m => { m with logging := false }) fun _ _ _ => rfl)
  | _ => exact .failed _ h

/-- A machine with a value for `k`. -/
def bareMachine : Machine := { scope := ⟨.ofList [("k", .text "a")], []⟩, unread := "c\n".toList }

/-- The same machine with a variable and a type that do not matter to `strewnProgram`. -/
def crowdedMachine : Machine :=
  { bareMachine with
    scope := ⟨.ofList [("other", .nil), ("k", .text "a")], []⟩
    types := .ofList [("other", some .number), ("y", none)] }

theorem run_depends_on_own_names_strewnProgram :
    Machine.SameOn (· ∈ strewnProgram.allNames) bareMachine crowdedMachine ∧
    ∃ m₁ m₂, run {} 3 strewnProgram bareMachine = .failed (.fault (.undefinedVariable "w")) m₁ ∧ m₁.output = "a" ∧
      run {} 3 strewnProgram crowdedMachine = .failed (.fault (.undefinedVariable "w")) m₂ ∧
      Machine.SameOn (· ∈ strewnProgram.allNames) m₁ m₂ := by
  have hvalues : ∀ name ∈ strewnProgram.allNames,
      bareMachine.scope.get? name = crowdedMachine.scope.get? name := by decide +kernel
  have htypes : ∀ name ∈ strewnProgram.allNames, bareMachine.typeOf name = crowdedMachine.typeOf name := by
    decide +kernel
  have hsame : Machine.SameOn (· ∈ strewnProgram.allNames) bareMachine crowdedMachine :=
    ⟨⟨rfl, rfl⟩, hvalues, htypes, rfl⟩
  refine ⟨hsame, ?_⟩
  have halike := run_depends_on_own_names {} 3 strewnProgram hsame
  have hrun : run {} 3 strewnProgram bareMachine = .failed (.fault (.undefinedVariable "w"))
      { scope := ⟨.ofList [("k", .text "a"), ("x", .char "c"), ("y", .text "a")], []⟩
        types := .ofList [("x", some .character)]
        output := "a"
        logging := false } := by decide +kernel
  rw [hrun] at halike ⊢
  generalize run {} 3 strewnProgram crowdedMachine = o at halike ⊢
  cases halike with
  | failed _ h => exact ⟨_, _, rfl, rfl, rfl, h⟩

end

end Binisaya
