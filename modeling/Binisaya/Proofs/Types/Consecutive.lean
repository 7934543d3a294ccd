import Binisaya.Proofs.DebugLevel
import Binisaya.Proofs.Scoping.Names

/-! Runs one after the other. A program enters its declared types when it starts, so in one program made of two the
types of the second are there while the statements of the first run. These take no notice of them as long as they
neither declare nor read a variable that the second program lists, and nothing else tells the one run from the two. -/

namespace Binisaya

open Exec

/-- The names whose declared types a tree asks for at any depth. -/
def Node.allTypeUses (p : Node) : List String := p.subtrees.flatMap typeUses

/-- The second table has the entries of the first one and those of `new`, which count more. -/
def Overlays (new t₁ t₂ : TypeTable) : Prop := ∀ name, t₂.get? name = (new.get? name).or (t₁.get? name)

/-- A tree asks for no type of a name that a table lists. -/
def Node.Ignores (new : TypeTable) (s : Node) : Prop := s.Everywhere fun t => ∀ name ∈ new.names, name ∉ t.typeUses

theorem Node.ignores_empty (s : Node) : s.Ignores .empty := fun _ _ _ hname => absurd hname List.not_mem_nil

theorem get?_eq_none_of_typeUses {new : TypeTable} {t : Node} (ht : ∀ name ∈ new.names, name ∉ t.typeUses)
    {name : String} (hname : name ∈ t.typeUses) : new.get? name = none :=
  lookup_eq_none_of_notMem fun hmem => ht name hmem hname

theorem typesAlike_overlays {ι : Type} (new : TypeTable) :
    TypesAlike (Overlays new) fun (_ : ι) t => ∀ name ∈ new.names, name ∉ t.typeUses where
  insert := by
    intro i name init type ht t₁ t₂ h other
    rw [Table.get?_insert, Table.get?_insert, h other]
    split_ifs with hother
    · subst hother
      rw [get?_eq_none_of_typeUses ht List.mem_cons_self, Option.none_or]
    · rfl
  typeOf := by
    intro i t ht name hname t₁ t₂ h
    rw [h name, get?_eq_none_of_typeUses ht hname, Option.none_or]

theorem inOrder_overlays (cfg : Settings) (n : Nat) {new : TypeTable} {body : List Node}
    (hbody : ∀ s ∈ body, s.Ignores new) :
    (inOrder (exec cfg n) body).Alike (Machine.WithBindings (· = ·) (Overlays new)) (inOrder (exec cfg n) body) :=
  inOrder_alike fun s hs =>
    ((scopesAlike_eq cfg _).withBindings (typesAlike_overlays new)).exec n (i := ()) (hbody s hs)

theorem sharesBindings_logging : SharesBindings fun m₁ m₂ => ∃ b, m₁ = { m₂ with logging := b } where
  scope := by
    rintro m₁ m₂ ⟨b, rfl⟩
    rfl
  types := by
    rintro m₁ m₂ ⟨b, rfl⟩
    rfl
  withScope := by
    rintro m₁ m₂ ⟨b, rfl⟩ s
    exact ⟨b, rfl⟩
  withTypes := by
    rintro m₁ m₂ ⟨b, rfl⟩ t
    exact ⟨b, rfl⟩
  write := by
    rintro m₁ m₂ ⟨b, rfl⟩ text
    exact ⟨b, rfl⟩

theorem Outcome.Alike.eq {α : Type} {o₁ o₂ : Outcome α} (h : o₁.Alike (· = ·) o₂) : o₁ = o₂ := by
  cases h with
  | done a h => rw [h]
  | failed f h => rw [h]
  | outOfFuel => rfl

section

variable {cfg : Settings}

/-- Without messages it makes no difference to a run whether the log is open. -/
theorem run_logging_irrelevant (hlevel : cfg.level = 0) (n : Nat) (types : TypeTable) (body : List Node) (m : Machine)
    (b : Bool) : run cfg n (.program types body) { m with logging := b } = run cfg n (.program types body) m := by
  have hnote (msg : Message) :
      (note cfg msg).Alike (fun m₁ m₂ => ∃ b, m₁ = { m₂ with logging := b }) (note cfg msg) := by
    rw [note_of_level_zero hlevel]
    exact alike_pure ()
  have hread (names : List String) :
      (readInput names).Alike (fun m₁ m₂ => ∃ b, m₁ = { m₂ with logging := b }) (readInput names) := by
    refine alike_readInput ?_ ?_ ?_
    · rintro m₁ m₂ ⟨b, rfl⟩
      rfl
    · rintro m₁ m₂ ⟨b, rfl⟩ line
      rfl
    · rintro rest m₁ m₂ ⟨b, rfl⟩
      exact ⟨b, rfl⟩
  have hstatements := sharesBindings_logging.statementsAlike rfl hnote hread
  refine (hstatements.run rfl n (i := ()) (fun _ _ _ _ => trivial) ⟨b, rfl⟩ (E := (· = ·)) ?_).eq
  rintro m₁ m₂ ⟨b, rfl⟩
  rfl

/-- The machine with its log closed. -/
def Machine.closed (m : Machine) : Machine := { m with logging := false }

/-- Without messages and notice a run is its statements in order. -/
theorem run_eq_inOrder (hbanner : cfg.banner = false) (hlevel : cfg.level = 0) (n : Nat) (types : TypeTable)
    (body : List Node) (m : Machine) : run cfg n (.program types body) m =
      (inOrder (exec cfg n) body).afterwards Machine.closed { m with types := m.types.update types } := by
  have hbody : runBody cfg n body = inOrder (exec cfg n) body := by
    simp only [runBody, note_of_level_zero hlevel, pure_bind, hbanner, Bool.false_eq_true, if_false, bind_pure_unit]
  rw [← hbody]
  rfl

end

/-- Two machines list the same types, perhaps in another order, and are the same in all else. -/
structure Machine.SameButOrder (m₁ m₂ : Machine) : Prop where
  types : m₁.types.entries.Perm m₂.types.entries
  rest : m₁ = { m₂ with types := m₁.types }

theorem Machine.WithBindings.sameButOrder {m₁ m₂ : Machine}
    (h : WithBindings (· = ·) (Overlays .empty) m₁ m₂) : m₁.SameButOrder m₂ := by
  refine ⟨Table.perm_iff.2 fun name => ?_, ?_⟩
  · rw [h.types name, Table.get?_empty, Option.none_or]
  · have hrest := h.rest
    rwa [h.scope] at hrest

/-- Entering the new types takes away the difference. -/
theorem Machine.WithBindings.update_overlays {new : TypeTable} {m₁ m₂ : Machine}
    (h : WithBindings (· = ·) (Overlays new) m₁ m₂) :
    WithBindings (· = ·) (Overlays .empty) { m₁ with types := m₁.types.update new } m₂ := by
  refine ⟨h.scope, fun name => ?_, ?_⟩
  · rw [h.types name, Table.get?_update, Table.get?_empty, Option.none_or]
  · rw [h.rest]

section

variable {cfg : Settings} {types₁ types₂ : TypeTable} {body₁ body₂ : List Node}

/-- The statements of the first program go alike with the types of the second and without them. -/
theorem inOrder_first_alike (n : Nat) (hnew : ∀ name ∈ types₂.names, name ∉ (Node.program types₁ body₁).allTypeUses)
    (m : Machine) :
    (inOrder (exec cfg n) body₁ { m with types := m.types.update types₁ }).Alike
      (Machine.WithBindings (· = ·) (Overlays types₂))
      (inOrder (exec cfg n) body₁ { m with types := m.types.update (types₁.update types₂) }) := by
  have hbody : ∀ s ∈ body₁, s.Ignores types₂ := by
    have hprogram : (Node.program types₁ body₁).Ignores types₂ := fun t ht name hname huse =>
      hnew name hname (List.mem_flatMap.2 ⟨t, ht, huse⟩)
    exact fun s hs => hprogram.part hs
  refine inOrder_overlays cfg n hbody _ _ ⟨rfl, fun name => ?_, rfl⟩
  rw [Table.get?_update, Table.get?_update, Table.get?_update, Option.or_assoc]

/-- The statements of the second program go alike after the first one and in one program with it. -/
theorem run_second_alike (hbanner : cfg.banner = false) (hlevel : cfg.level = 0) (n : Nat) {k₁ k₂ : Machine}
    (h : Machine.WithBindings (· = ·) (Overlays types₂) k₁ k₂) :
    (run cfg n (.program types₂ body₂) k₁.closed).Alike Machine.SameButOrder
      ((inOrder (exec cfg n) body₂).afterwards Machine.closed k₂) := by
  rw [Machine.closed, run_logging_irrelevant hlevel, run_eq_inOrder hbanner hlevel]
  have hbody : (inOrder (exec cfg n) body₂).Alike (Machine.WithBindings (· = ·) (Overlays .empty))
      (inOrder (exec cfg n) body₂) := inOrder_overlays cfg n fun s _ => s.ignores_empty
  refine hbody.afterwards (fun m₁ m₂ hm => ?_) h.update_overlays
  exact (hm.update (f := Machine.closed) fun _ _ _ => rfl).sameButOrder

/-- **Two runs are one.** Without messages and notice, let no variable that a second program lists be declared or read
in a first one. If the first ends well, then running the second on the machine that it leaves ends like one run of the
statements of both, with the types of both: with the same output, rest of the input, variables, types and failure. If
the first fails, then the one run fails with the same failure, output, rest of the input and variables, and its table
has the types of the second in it. If the first does not end, neither does the one run. -/
theorem consecutive_runs_are_one (hbanner : cfg.banner = false) (hlevel : cfg.level = 0) (n : Nat)
    (hnew : ∀ name ∈ types₂.names, name ∉ (Node.program types₁ body₁).allTypeUses) (m : Machine) :
    (∀ m₁, run cfg n (.program types₁ body₁) m = .done () m₁ →
      (run cfg n (.program types₂ body₂) m₁).Alike Machine.SameButOrder
        (run cfg n (.program (types₁.update types₂) (body₁ ++ body₂)) m)) ∧
    (∀ f m₁, run cfg n (.program types₁ body₁) m = .failed f m₁ →
      ∃ m', run cfg n (.program (types₁.update types₂) (body₁ ++ body₂)) m = .failed f m' ∧
        Machine.SameButOrder { m₁ with types := m₁.types.update types₂ } m') ∧
    (run cfg n (.program types₁ body₁) m = .outOfFuel →
      run cfg n (.program (types₁.update types₂) (body₁ ++ body₂)) m = .outOfFuel) := by
  have hfirst := @inOrder_first_alike cfg types₁ types₂ body₁ n hnew m
  rw [run_eq_inOrder hbanner hlevel n types₁, run_eq_inOrder hbanner hlevel n (types₁.update types₂), inOrder_append]
  simp only [afterwards, bind_apply]
  -- both runs of the first statements end alike, and the rest is told by how
  generalize inOrder (exec cfg n) body₁ { m with types := m.types.update types₁ } = o₁ at hfirst
  generalize inOrder (exec cfg n) body₁ { m with types := m.types.update (types₁.update types₂) } = o₂ at hfirst
  cases hfirst with
  | done a h =>
      refine ⟨fun m₁ hm₁ => ?_, fun f m₁ hm₁ => ?_, fun hout => ?_⟩
      · cases hm₁
        exact run_second_alike hbanner hlevel n h
      · cases hm₁
      · cases hout
  | failed f h =>
      refine ⟨fun m₁ hm₁ => ?_, fun f m₁ hm₁ => ?_, fun hout => ?_⟩
      · cases hm₁
      · cases hm₁
        exact ⟨_, rfl, (h.update_overlays.update (f := Machine.closed) fun _ _ _ => rfl).sameButOrder⟩
      · cases hout
  | outOfFuel =>
      refine ⟨fun m₁ hm₁ => ?_, fun f m₁ hm₁ => ?_, fun _ => rfl⟩
      · cases hm₁
      · cases hm₁

end

/-- Reads `a`, declares `s` and prints both in a block. -/
def openingBody : List Node :=
  [.input ["a"], .declare "s" .null (some .boolean), .block [.print [.ident "a", .ident "s"]]]

/-- Declares `b` by the type that the program lists, prints it and asks for a variable that there is not. -/
def closingBody : List Node := [.declare "b" .null none, .print [.ident "b", .ident "s"], .exprStmt (.ident "z")]

def openingTypes : TypeTable := .ofList [("a", some .character)]

def closingTypes : TypeTable := .ofList [("b", some .boolean)]

/-- What `openingBody` leaves on the input `c` and `d`. -/
def openedMachine : Machine :=
  { scope := ⟨.ofList [("a", .char "c"), ("s", .text "DILI")], []⟩
    types := .ofList [("a", some .character), ("s", some .boolean)]
    unread := "d\n".toList
    output := "cDILI"
    logging := false }

theorem consecutive_runs_are_one_openingBody :
    (∀ name ∈ closingTypes.names, name ∉ (Node.program openingTypes openingBody).allTypeUses) ∧
    run { blockScopes := true } 3 (.program openingTypes openingBody) (.fresh "c\nd\n".toList) =
      .done () openedMachine ∧
    ∃ m₂ m', run { blockScopes := true } 3 (.program closingTypes closingBody) openedMachine =
        .failed (.fault (.undefinedVariable "z")) m₂ ∧
      run { blockScopes := true } 3 (.program (openingTypes.update closingTypes) (openingBody ++ closingBody))
        (.fresh "c\nd\n".toList) = .failed (.fault (.undefinedVariable "z")) m' ∧
      m₂.output = "cDILIDILIDILI" ∧ m₂.types.names = ["a", "s", "b"] ∧ m₂.SameButOrder m' := by
  have hnew : ∀ name ∈ closingTypes.names, name ∉ (Node.program openingTypes openingBody).allTypeUses := by decide
  have hfirst : run { blockScopes := true } 3 (.program openingTypes openingBody) (.fresh "c\nd\n".toList) =
      .done () openedMachine := by decide +kernel
  have hsecond : run { blockScopes := true } 3 (.program closingTypes closingBody) openedMachine =
      .failed (.fault (.undefinedVariable "z"))
        { openedMachine with
          scope := ⟨.ofList [("a", .char "c"), ("s", .text "DILI"), ("b", .text "DILI")], []⟩
          types := .ofList [("a", some .character), ("s", some .boolean), ("b", some .boolean)]
          output := "cDILIDILIDILI" } := by decide +kernel
  have halike : (run { blockScopes := true } 3 (.program closingTypes closingBody) openedMachine).Alike
      Machine.SameButOrder _ := (consecutive_runs_are_one rfl rfl 3 hnew _).1 _ hfirst
  refine ⟨hnew, hfirst, ?_⟩
  rw [hsecond] at halike ⊢
  generalize run { blockScopes := true } 3 (.program (openingTypes.update closingTypes) (openingBody ++ closingBody))
    (.fresh "c\nd\n".toList) = o at halike ⊢
  cases halike with
  | failed _ h => exact ⟨_, _, rfl, rfl, rfl, rfl, h⟩

end Binisaya
