import Binisaya.Proofs.Scoping.Forest

/-! Tables of types in a forest of scopes. A scope uses the table of its owner, which is settled when the scope is made:
with a new table, be it empty, a scope is its own owner, and so is one with neither table nor parent; with the table of
another scope it has that scope's owner, and without a table its parent's. A history lists what was done to a forest; it
tells the owner of each scope, and what was last entered for a name through any of the scopes of one owner. That is what
each of these scopes finds for the name, and what is declared there without a value goes by it. -/

namespace Binisaya

/-- The scope whose table is used. -/
def TypeSource.scope? : TypeSource → Option Nat
  | own _ => none
  | of i => some i

namespace Forest

/-- What can be done to a forest. -/
inductive Change where
  | add (parent : Option Nat) (types : Option TypeSource)
  | assign (i : Nat) (name : String) (v : Value)
  | declare (i : Nat) (name : String) (v : Value)
  | setType (i : Nat) (name : String) (type : Option VarType)

/-- The forest after a history, which lists the latest change first. -/
def made : List Change → Forest
  | [] => []
  | .add parent types :: earlier => (made earlier).add parent types
  | .assign i name v :: earlier => (made earlier).assign i name v
  | .declare i name v :: earlier => (made earlier).declare i name v
  | .setType i name type :: earlier => (made earlier).setType i name type

/-- How a scope was made. -/
structure Origin where
  parent : Option Nat
  types : Option TypeSource

/-- The table that a scope brought, or else an empty one. -/
def Origin.table (o : Origin) : TypeTable := (o.types.bind TypeSource.table?).getD .empty

/-- How the scopes were made, in the order of their numbers. -/
def origins : List Change → List Origin
  | [] => []
  | .add parent types :: earlier => origins earlier ++ [⟨parent, types⟩]
  | _ :: earlier => origins earlier

/-- The scopes that a change speaks of. -/
def Change.scopes : Change → List Nat
  | .add parent types => parent.toList ++ (types.bind TypeSource.scope?).toList
  | .assign i _ _ | .declare i _ _ | .setType i _ _ => [i]

/-- Each change of a history speaks of scopes that there were. -/
def Possible : List Change → Prop
  | [] => True
  | c :: earlier => (∀ i ∈ c.scopes, i < (origins earlier).length) ∧ Possible earlier

instance decidablePossible : (history : List Change) → Decidable (Possible history)
  | [] => .isTrue trivial
  | _ :: earlier => @instDecidableAnd _ _ _ (decidablePossible earlier)

/-- The first scope uses the table that came with the second. -/
inductive Owner (os : List Origin) : Nat → Nat → Prop
  | own {i : Nat} {o : Origin} {table : TypeTable} (ho : os[i]? = some o) (htypes : o.types = some (.own table)) :
      Owner os i i
  | root {i : Nat} {o : Origin} (ho : os[i]? = some o) (hnone : o.types = none) (hparent : o.parent = none) :
      Owner os i i
  | outer {i p j : Nat} {o : Origin} (ho : os[i]? = some o) (hnone : o.types = none) (hparent : o.parent = some p)
      (hj : Owner os p j) : Owner os i j
  | given {i k j : Nat} {o : Origin} (ho : os[i]? = some o) (htypes : o.types = some (.of k)) (hj : Owner os k j) :
      Owner os i j

/-- Outwards from the first scope, the second is the first that was made with a table or without a parent. -/
inductive NearestTable (os : List Origin) : Nat → Nat → Prop
  | self {i : Nat} {o : Origin} (ho : os[i]? = some o) (hself : o.parent = none ∨ o.types ≠ none) : NearestTable os i i
  | outer {i p j : Nat} {o : Origin} (ho : os[i]? = some o) (hnone : o.types = none) (hparent : o.parent = some p)
      (hj : NearestTable os p j) : NearestTable os i j

/-- The last entry for a name in the table of an owner: the last one that was written through a scope of this owner, or
else the one in the table with which the owner was made. -/
inductive LastEntry (history : List Change) (owner : Nat → Nat → Prop) (j : Nat) (name : String) :
    Option (Option VarType) → Prop
  | written {later earlier : List Change} {i : Nat} {type : Option VarType}
      (h : history = later ++ .setType i name type :: earlier) (hi : owner i j)
      (hlater : ∀ k type', .setType k name type' ∈ later → ¬ owner k j) : LastEntry history owner j name (some type)
  | initial {o : Origin} (ho : (origins history)[j]? = some o)
      (hnone : ∀ k type, .setType k name type ∈ history → ¬ owner k j) :
      LastEntry history owner j name (o.table.get? name)

/-- The table that a new scope uses. -/
def Origin.source (o : Origin) : TypeSource := o.types.getD (o.parent.elim (.own .empty) .of)

section

variable {os : List Origin} {i j k : Nat} {o : Origin} {table : TypeTable}

theorem Origin.table_of_own (h : o.source = .own table) : o.table = table := by
  obtain ⟨parent, types⟩ := o
  cases types with
  | some source =>
      cases h
      rfl
  | none =>
      cases parent with
      | none =>
          cases h
          rfl
      | some p => cases h

/-- Each scope is its own owner or has the owner of the scope whose table it uses. -/
theorem owner_iff_source (ho : os[i]? = some o) :
    Owner os i j ↔ (∃ table, o.source = .own table) ∧ j = i ∨ ∃ k, o.source = .of k ∧ Owner os k j := by
  constructor
  · intro howner
    cases howner with
    | own ho' htypes =>
        cases ho.symm.trans ho'
        exact .inl ⟨⟨_, congrArg (Option.getD · _) htypes⟩, rfl⟩
    | root ho' hnone hparent =>
        cases ho.symm.trans ho'
        exact .inl ⟨⟨.empty, by rw [Origin.source, hnone, hparent]; rfl⟩, rfl⟩
    | @outer _ p _ _ ho' hnone hparent hj =>
        cases ho.symm.trans ho'
        exact .inr ⟨p, by rw [Origin.source, hnone, hparent]; rfl, hj⟩
    | given ho' htypes hj =>
        cases ho.symm.trans ho'
        exact .inr ⟨_, congrArg (Option.getD · _) htypes, hj⟩
  · rw [Origin.source]
    cases htypes : o.types with
    | some source =>
        rintro (⟨⟨table, rfl⟩, rfl⟩ | ⟨k, rfl, hj⟩)
        · exact .own ho htypes
        · exact .given ho htypes hj
    | none =>
        cases hparent : o.parent with
        | none =>
            rintro (⟨-, rfl⟩ | ⟨k, hk, -⟩)
            · exact .root ho htypes hparent
            · cases hk
        | some p =>
            rintro (⟨⟨table, htable⟩, -⟩ | ⟨k, hk, hj⟩)
            · cases htable
            · cases hk
              exact .outer ho htypes hparent hj

theorem owner_iff_of_own (ho : os[i]? = some o) (h : o.source = .own table) : Owner os i j ↔ j = i := by
  simp [owner_iff_source ho, h]

theorem owner_iff_of_shared (ho : os[i]? = some o) (h : o.source = .of k) : Owner os i j ↔ Owner os k j := by
  simp [owner_iff_source ho, h]

theorem Owner.exists_own (h : Owner os i j) : ∃ o table, os[j]? = some o ∧ o.source = .own table := by
  induction h with
  | @own _ o table ho htypes => exact ⟨o, table, ho, by rw [Origin.source, htypes, Option.getD_some]⟩
  | @root _ o ho hnone hparent => exact ⟨o, .empty, ho, by rw [Origin.source, hnone, hparent]; rfl⟩
  | outer _ _ _ _ ih | given _ _ _ ih => exact ih

theorem Owner.lt_length (h : Owner os i j) : j < os.length := by
  obtain ⟨o, -, ho, -⟩ := h.exists_own
  exact (List.getElem?_eq_some_iff.1 ho).1

/-- As long as no scope is given the table of another, owners are found outwards. -/
theorem owner_iff_nearestTable (h : ∀ o ∈ os, ∀ k, o.types ≠ some (.of k)) : Owner os i j ↔ NearestTable os i j := by
  constructor
  · intro howner
    induction howner with
    | own ho htypes => exact .self ho (.inr (by simp [htypes]))
    | root ho _ hparent => exact .self ho (.inl hparent)
    | outer ho hnone hparent _ ih => exact .outer ho hnone hparent ih
    | given ho htypes => exact absurd htypes (h _ (List.mem_of_getElem? ho) _)
  · intro hnearest
    induction hnearest with
    | outer ho hnone hparent _ ih => exact .outer ho hnone hparent ih
    | @self i o ho hself =>
        cases htypes : o.types with
        | none => exact .root ho htypes (hself.resolve_right (absurd htypes))
        | some source =>
            cases source with
            | own table => exact .own ho htypes
            | of k => exact absurd htypes (h o (List.mem_of_getElem? ho) k)

end

section

variable (forest : Forest) (i k : Nat) (name : String)

theorem table?_add (parent : Option Nat) (types : Option TypeSource) : (forest.add parent types).table? k =
    if k = forest.length then (Origin.source ⟨parent, types⟩).table? else forest.table? k := by
  rw [table?, add, scope?]
  split_ifs <;> rfl

theorem table?_bindAt (v : Value) : (forest.bindAt i name v).table? k = forest.table? k := by
  rw [table?, table?, bindAt, scope?_modifyScope]
  split_ifs with hk
  · cases forest.scope? k <;> rfl
  · rfl

theorem table?_setType (type : Option VarType) : (forest.setType i name type).table? k =
    if k = forest.owner i then (forest.table? k).map (·.insert name type) else forest.table? k := by
  rw [table?, table?, setType, scope?_modifyScope]
  split_ifs with hk
  · cases forest.scope? k with
    | none => rfl
    | some s =>
        obtain ⟨parent, types, values⟩ := s
        cases types <;> rfl
  · rfl

theorem owner_add_of_own {parent : Option Nat} {types : Option TypeSource} {table : TypeTable}
    (h : Origin.source ⟨parent, types⟩ = .own table) : (forest.add parent types).owner forest.length = forest.length := by
  rw [Origin.source] at h
  rw [add, owner, if_pos rfl, h]

theorem owner_add_of_shared {parent : Option Nat} {types : Option TypeSource} {k : Nat}
    (h : Origin.source ⟨parent, types⟩ = .of k) : (forest.add parent types).owner forest.length = forest.owner k := by
  rw [Origin.source] at h
  rw [add, owner, if_pos rfl, h]

theorem owner_add_of_ne (parent : Option Nat) (types : Option TypeSource) (hk : k ≠ forest.length) :
    (forest.add parent types).owner k = forest.owner k := by
  rw [add, owner, if_neg hk]

theorem owner_modifyScope {f : ScopeNode → ScopeNode} (hf : ∀ s m, (f s).types = .of m ↔ s.types = .of m) :
    (forest.modifyScope f i).owner k = forest.owner k := by
  induction forest generalizing k with
  | nil => rfl
  | cons s older ih =>
      rw [modifyScope]
      by_cases hi : i = older.length
      · rw [if_pos hi, owner, owner]
        cases hs : s.types with
        | of m => rw [(hf s m).2 hs]
        | own table =>
            cases hfs : (f s).types with
            | own => rfl
            | of m => cases hs.symm.trans ((hf s m).1 hfs)
      · rw [if_neg hi, owner, owner, length_modifyScope, ih]
        cases s.types with
        | own => rfl
        | of m => simp only [ih]

theorem owner_bindAt (v : Value) : (forest.bindAt i name v).owner k = forest.owner k :=
  owner_modifyScope (f := fun s => { s with values := s.values.insert name v }) forest i k fun _ _ => .rfl

theorem owner_setType (type : Option VarType) : (forest.setType i name type).owner k = forest.owner k := by
  refine owner_modifyScope (f := fun s => { s with types := s.types.insert name type }) forest _ k fun s m => ?_
  cases s.types <;> simp [TypeSource.insert]

/-- Binding a name leaves every scope its table. -/
theorem types_bindAt (v : Value) : (forest.bindAt i name v).types k = forest.types k := by
  rw [types, types, owner_bindAt, table?_bindAt]

end

section

variable {history : List Change} {i j k : Nat} {name : String} {o : Origin}

theorem getElem?_origins_add {parent : Option Nat} {types : Option TypeSource} :
    (origins (.add parent types :: history))[k]? = some o ↔
      (origins history)[k]? = some o ∨ k = (origins history).length ∧ o = ⟨parent, types⟩ := by
  rw [origins, List.getElem?_append]
  split_ifs with hk
  · constructor
    · exact .inl
    · rintro (ho | ⟨rfl, -⟩)
      · exact ho
      · omega
  · rw [List.getElem?_singleton, List.getElem?_eq_none (Nat.le_of_not_lt hk)]
    split_ifs with hzero
    · have hlength : k = (origins history).length := by omega
      simp [hlength, eq_comm]
    · have hlength : k ≠ (origins history).length := by omega
      simp [hlength]

theorem add_mem_of_mem_origins (h : o ∈ origins history) : .add o.parent o.types ∈ history := by
  induction history with
  | nil => cases h
  | cons c earlier ih =>
      cases c with
      | add parent types =>
          rw [origins, List.mem_append, List.mem_singleton] at h
          rcases h with h | rfl
          · exact List.mem_cons_of_mem _ (ih h)
          · exact List.mem_cons_self
      | assign | declare | setType => exact List.mem_cons_of_mem _ (ih h)

theorem length_made (history : List Change) : (made history).length = (origins history).length := by
  induction history with
  | nil => rfl
  | cons c earlier ih =>
      cases c with
      | add parent types =>
          rw [made, add, origins, List.length_cons, List.length_append, ih]
          rfl
      | assign | declare | setType => exact (length_modifyScope _ _).trans ih

theorem mem_scopes_of_source {parent : Option Nat} {types : Option TypeSource}
    (hk : Origin.source ⟨parent, types⟩ = .of k) : k ∈ (Change.add parent types).scopes := by
  cases types with
  | some source =>
      cases hk
      exact List.mem_append_right _ List.mem_cons_self
  | none =>
      cases parent with
      | none => cases hk
      | some p =>
          cases hk
          exact List.mem_cons_self

/-- Scopes use the tables of earlier ones only. -/
theorem Possible.source_lt (h : Possible history) (ho : (origins history)[i]? = some o) (hk : o.source = .of k) :
    k < i := by
  induction history with
  | nil => cases ho
  | cons c earlier ih =>
      obtain ⟨hc, hearlier⟩ := h
      cases c with
      | add parent types =>
          rcases getElem?_origins_add.1 ho with ho | ⟨rfl, rfl⟩
          · exact ih hearlier ho
          · exact hc k (mem_scopes_of_source hk)
      | assign | declare | setType => exact ih hearlier ho

theorem Possible.lt_length_of_mem (h : Possible history) {type : Option VarType}
    (hmem : .setType i name type ∈ history) : i < (origins history).length := by
  induction history with
  | nil => cases hmem
  | cons c earlier ih =>
      obtain ⟨hc, hearlier⟩ := h
      rcases List.mem_cons.1 hmem with rfl | hmem
      · exact hc i List.mem_cons_self
      · have hlt := ih hearlier hmem
        cases c with
        | add parent types =>
            rw [origins, List.length_append]
            omega
        | assign | declare | setType => exact hlt

/-- Making a scope leaves the others their owners. -/
theorem Possible.owner_add_iff (h : Possible history) (hi : i < (origins history).length) (parent : Option Nat)
    (types : Option TypeSource) :
    Owner (origins (.add parent types :: history)) i j ↔ Owner (origins history) i j := by
  induction i using Nat.strongRecOn with
  | ind i ih =>
      have ho := List.getElem?_eq_getElem hi
      generalize (origins history)[i] = o at ho
      have ho' : (origins (.add parent types :: history))[i]? = some o := getElem?_origins_add.2 (.inl ho)
      cases hsource : o.source with
      | own table => rw [owner_iff_of_own ho hsource, owner_iff_of_own ho' hsource]
      | of k =>
          have hlt := h.source_lt ho hsource
          rw [owner_iff_of_shared ho hsource, owner_iff_of_shared ho' hsource]
          exact ih k hlt (Nat.lt_trans hlt hi)

/-- Each scope of a history has the owner that its forest tells. -/
theorem Possible.owner_iff (h : Possible history) (hi : i < (origins history).length) :
    Owner (origins history) i j ↔ (made history).owner i = j := by
  induction history generalizing i with
  | nil => cases hi
  | cons c earlier ih =>
      obtain ⟨hc, hearlier⟩ := h
      cases c with
      | assign m name v =>
          rw [made, assign, owner_bindAt]
          exact ih hearlier hi
      | declare m name v =>
          rw [made, declare, owner_bindAt]
          exact ih hearlier hi
      | setType m name type =>
          rw [made, owner_setType]
          exact ih hearlier hi
      | add parent types =>
          by_cases hnew : i = (made earlier).length
          · have ho : (origins (.add parent types :: earlier))[i]? = some ⟨parent, types⟩ :=
              getElem?_origins_add.2 (.inr ⟨hnew.trans (length_made earlier), rfl⟩)
            rw [made]
            cases hsource : Origin.source ⟨parent, types⟩ with
            | own table => rw [owner_iff_of_own ho hsource, hnew, owner_add_of_own _ hsource, eq_comm]
            | of k =>
                have hk := hc k (mem_scopes_of_source hsource)
                rw [owner_iff_of_shared ho hsource, hnew, owner_add_of_shared _ hsource, ← ih hearlier hk,
                  hearlier.owner_add_iff hk]
          · have hold : i < (origins earlier).length := by
              rw [← length_made] at hi ⊢
              exact Nat.lt_of_le_of_ne (Nat.le_of_lt_succ hi) hnew
            rw [made, owner_add_of_ne _ _ _ _ hnew, ← ih hearlier hold, hearlier.owner_add_iff hold]

/-- A scope has a table of its own if it was made with one. -/
theorem isSome_table?_made (ho : (origins history)[k]? = some o) :
    ((made history).table? k).isSome = o.source.table?.isSome := by
  induction history with
  | nil => cases ho
  | cons c earlier ih =>
      cases c with
      | add parent types =>
          rw [made, table?_add, length_made]
          rcases getElem?_origins_add.1 ho with ho | ⟨rfl, rfl⟩
          · have hlt := (List.getElem?_eq_some_iff.1 ho).1
            rw [if_neg (Nat.ne_of_lt hlt), ih ho]
          · rw [if_pos rfl]
      | assign i name v => rw [made, assign, table?_bindAt, ih ho]
      | declare i name v => rw [made, declare, table?_bindAt, ih ho]
      | setType i name type =>
          rw [made, table?_setType, ← ih ho]
          split_ifs
          · rw [Option.isSome_map]
          · rfl

theorem Owner.exists_table (h : Owner (origins history) i j) : ∃ table, (made history).table? j = some table := by
  obtain ⟨o, table, ho, hsource⟩ := h.exists_own
  have hsome := isSome_table?_made ho
  rw [hsource] at hsome
  exact Option.isSome_iff_exists.1 hsome

variable {c : Change} {owner owner' : Nat → Nat → Prop} {entry : Option (Option VarType)}

/-- A change that is no entry of the name for the owner leaves the last entry as it was. -/
theorem lastEntry_cons_iff (hc : ∀ k type, c = .setType k name type → ¬ owner k j)
    (horigin : (origins (c :: history))[j]? = (origins history)[j]?)
    (howner : ∀ k type, .setType k name type ∈ history → (owner k j ↔ owner' k j)) :
    LastEntry (c :: history) owner j name entry ↔ LastEntry history owner' j name entry := by
  constructor
  · intro hlast
    cases hlast with
    | @written later earlier i type h hi hlater =>
        cases later with
        | nil =>
            obtain ⟨rfl, -⟩ := List.cons.inj h
            exact absurd hi (hc i type rfl)
        | cons c' later =>
            obtain ⟨rfl, rfl⟩ := List.cons.inj h
            refine .written rfl ((howner i type (List.mem_append_right _ List.mem_cons_self)).1 hi) ?_
            intro k type' hk hk'
            exact hlater k type' (List.mem_cons_of_mem _ hk) ((howner k type' (List.mem_append_left _ hk)).2 hk')
    | initial ho hnone =>
        refine .initial (horigin ▸ ho) fun k type hk hk' => ?_
        exact hnone k type (List.mem_cons_of_mem _ hk) ((howner k type hk).2 hk')
  · intro hlast
    cases hlast with
    | @written later earlier i type h hi hlater =>
        subst h
        have hsplit : c :: (later ++ .setType i name type :: earlier) =
            (c :: later) ++ .setType i name type :: earlier := rfl
        refine .written hsplit ((howner i type (List.mem_append_right _ List.mem_cons_self)).2 hi) ?_
        intro k type' hk hk'
        rcases List.mem_cons.1 hk with rfl | hk
        · exact hc k type' rfl hk'
        · exact hlater k type' hk ((howner k type' (List.mem_append_left _ hk)).1 hk')
    | initial ho hnone =>
        refine .initial (horigin.trans ho) fun k type hk hk' => ?_
        rcases List.mem_cons.1 hk with rfl | hk
        · exact hc k type rfl hk'
        · exact hnone k type hk ((howner k type hk).1 hk')

/-- Writing an entry makes it the last one. -/
theorem lastEntry_setType_iff {type : Option VarType} (hi : owner i j) :
    LastEntry (.setType i name type :: history) owner j name entry ↔ entry = some type := by
  constructor
  · intro hlast
    cases hlast with
    | @written later earlier k type' h hk hlater =>
        cases later with
        | nil =>
            cases h
            rfl
        | cons c' later =>
            obtain ⟨rfl, -⟩ := List.cons.inj h
            exact absurd hi (hlater i type List.mem_cons_self)
    | initial ho hnone => exact absurd hi (hnone i type List.mem_cons_self)
  · rintro rfl
    have hsplit : Change.setType i name type :: history = [] ++ .setType i name type :: history := rfl
    exact .written hsplit hi fun _ _ hmem => by cases hmem

/-- A new table has the entries that it is made with. -/
theorem Possible.lastEntry_add_iff (h : Possible history) {parent : Option Nat} {types : Option TypeSource} :
    LastEntry (.add parent types :: history) (Owner (origins (.add parent types :: history)))
      (origins history).length name entry ↔ entry = (Origin.table ⟨parent, types⟩).get? name := by
  -- the scopes that were written through have older owners
  have hnone : ∀ k type, .setType k name type ∈ Change.add parent types :: history →
      ¬ Owner (origins (.add parent types :: history)) k (origins history).length := by
    intro k type hmem howner
    rcases List.mem_cons.1 hmem with heq | hmem
    · cases heq
    · have holder := (h.owner_add_iff (h.lt_length_of_mem hmem) parent types).1 howner
      exact Nat.lt_irrefl _ holder.lt_length
  have ho : (origins (.add parent types :: history))[(origins history).length]? = some ⟨parent, types⟩ :=
    getElem?_origins_add.2 (.inr ⟨rfl, rfl⟩)
  constructor
  · intro hlast
    cases hlast with
    | @written later earlier i type hsplit hi _ =>
        have hmem : .setType i name type ∈ Change.add parent types :: history := by
          rw [hsplit]
          exact List.mem_append_right later List.mem_cons_self
        exact absurd hi (hnone i type hmem)
    | initial ho' _ =>
        cases ho.symm.trans ho'
        rfl
  · rintro rfl
    exact .initial ho hnone

/-- The table of an owner has the last entry of every name. -/
theorem Possible.lastEntry_iff (h : Possible history) {table : TypeTable}
    (htable : (made history).table? j = some table) :
    LastEntry history (Owner (origins history)) j name entry ↔ entry = table.get? name := by
  induction history generalizing table with
  | nil => cases htable
  | cons c earlier ih =>
      obtain ⟨hc, hearlier⟩ := h
      cases c with
      | add parent types =>
          rw [made, table?_add, length_made] at htable
          by_cases hj : j = (origins earlier).length
          · rw [if_pos hj] at htable
            have hown : Origin.source ⟨parent, types⟩ = .own table := by
              cases hsource : Origin.source ⟨parent, types⟩ with
              | own =>
                  rw [hsource] at htable
                  exact congrArg _ (Option.some.inj htable)
              | of =>
                  rw [hsource] at htable
                  cases htable
            rw [hj, hearlier.lastEntry_add_iff, Origin.table_of_own hown]
          · rw [if_neg hj] at htable
            have horigin : (origins (.add parent types :: earlier))[j]? = (origins earlier)[j]? := by
              apply Option.ext
              intro o
              simp only [getElem?_origins_add, hj, false_and, or_false]
            rw [lastEntry_cons_iff (fun _ _ heq => by cases heq) horigin, ih hearlier htable]
            intro k type hmem
            exact hearlier.owner_add_iff (hearlier.lt_length_of_mem hmem) parent types
      | assign i m v =>
          rw [made, assign, table?_bindAt] at htable
          rw [lastEntry_cons_iff (fun _ _ heq => by cases heq) rfl fun _ _ _ => .rfl]
          exact ih hearlier htable
      | declare i m v =>
          rw [made, declare, table?_bindAt] at htable
          rw [lastEntry_cons_iff (fun _ _ heq => by cases heq) rfl fun _ _ _ => .rfl]
          exact ih hearlier htable
      | setType i m type =>
          rw [made, table?_setType] at htable
          have hi : i < (origins earlier).length := hc i List.mem_cons_self
          -- the entry goes to the table of the owner of `i`, which need not be `j`
          by_cases hj : j = (made earlier).owner i
          · rw [if_pos hj] at htable
            obtain ⟨old, hold, rfl⟩ := Option.map_eq_some_iff.1 htable
            have howner : Owner (origins earlier) i j := (hearlier.owner_iff hi).2 hj.symm
            rw [Table.get?_insert]
            by_cases hm : name = m
            · subst hm
              rw [if_pos rfl]
              exact lastEntry_setType_iff howner
            · have hother : ∀ k type', Change.setType i m type = .setType k name type' →
                  ¬ Owner (origins earlier) k j := by
                rintro k type' heq
                cases heq
                exact absurd rfl hm
              rw [if_neg hm, ← ih hearlier hold]
              exact lastEntry_cons_iff hother rfl fun _ _ _ => .rfl
          · have hother : ∀ k type', Change.setType i m type = .setType k name type' →
                ¬ Owner (origins earlier) k j := by
              rintro k type' heq howner
              cases heq
              exact hj ((hearlier.owner_iff hi).1 howner).symm
            rw [if_neg hj] at htable
            rw [← ih hearlier htable]
            exact lastEntry_cons_iff hother rfl fun _ _ _ => .rfl

end

/-- **Tables are shared by owners.** In every forest that can be made each scope has one owner: itself if it was made
with a new table or with neither table nor parent, the owner of another scope if it was given the table that the other
uses, and the owner of its parent otherwise. Its types are the last ones written through any scope of that owner, or
else those that the owner's table had at first. As long as every table is given to one scope only, the owner is the
nearest scope outwards that was made with a table or without a parent. Assigning and declaring change no table, and what
is declared without a value gets the one that its type in that table chooses. -/
theorem types_shared_by_owner {history : List Change} (h : Possible history) {i : Nat}
    (hi : i < (made history).length) :
    (∃ j, Owner (origins history) i j ∧ (∀ k, Owner (origins history) i k → k = j) ∧
      ∀ name, ∃ entry, LastEntry history (Owner (origins history)) j name entry ∧
        (∀ other, LastEntry history (Owner (origins history)) j name other → other = entry) ∧
        ((made history).types i).get? name = entry ∧ (made history).typeOf i name = entry.join) ∧
    ((∀ parent k, .add parent (some (.of k)) ∉ history) →
      ∀ k j, Owner (origins history) k j ↔ NearestTable (origins history) k j) ∧
    (∀ name v k, ((made history).assign i name v).types k = (made history).types k ∧
      ((made history).declare i name v).types k = (made history).types k) ∧
    ∀ name, (((made history).declare i name .absent).values i).get? name =
      some (initialValue ((made history).typeOf i name)) := by
  refine ⟨?_, fun hgiven k j => ?_, fun name v k => ⟨?_, ?_⟩, fun name => ?_⟩
  · rw [length_made] at hi
    have hj : Owner (origins history) i ((made history).owner i) := (h.owner_iff hi).2 rfl
    refine ⟨(made history).owner i, hj, fun k hk => ((h.owner_iff hi).1 hk).symm, fun name => ?_⟩
    obtain ⟨table, htable⟩ := hj.exists_table
    have htypes : (made history).types i = table := by
      rw [types, htable, Option.getD_some]
    refine ⟨table.get? name, (h.lastEntry_iff htable).2 rfl, fun other => (h.lastEntry_iff htable).1, ?_, ?_⟩
    · rw [htypes]
    · rw [typeOf, htypes]
  · refine owner_iff_nearestTable fun o ho m htypes => ?_
    have hmem := add_mem_of_mem_origins ho
    rw [htypes] at hmem
    exact hgiven _ m hmem
  · exact types_bindAt _ _ k name v
  · exact types_bindAt _ i k name _
  · rw [declare, get?_values_bindAt hi, if_pos ⟨rfl, rfl⟩, declaredValue, if_pos rfl]

/-- A scope that lists `x` as a number, one inside it, and inside that one scope more, through which `x` becomes a
character; inside the first scope also one with an empty table of its own, and apart from them one that is given the
table of the second. -/
def branching : List Change :=
  [.setType 2 "x" (some .character), .add none (some (.of 1)), .add (some 0) (some (.own .empty)), .add (some 1) none,
    .add (some 0) none, .add none (some (.own (Table.empty.insert "x" (some .number))))]

theorem types_shared_by_owner_branching : Possible branching ∧ 4 < (made branching).length ∧
    Owner (origins branching) 4 0 ∧ LastEntry branching (Owner (origins branching)) 0 "x" (some (some .character)) ∧
    (made branching).typeOf 4 "x" = some .character ∧
    Owner (origins branching) 3 3 ∧ LastEntry branching (Owner (origins branching)) 3 "x" none ∧
    (made branching).typeOf 3 "x" = none := by
  have hpossible : Possible branching := by decide
  have hlength : 4 < (made branching).length := by decide
  have hroot : Owner (origins branching) 0 0 := .own rfl rfl
  have hchild : Owner (origins branching) 1 0 := .outer rfl rfl rfl hroot
  have hgrandchild : Owner (origins branching) 2 0 := .outer rfl rfl rfl hchild
  have hown : Owner (origins branching) 3 3 := .own rfl rfl
  have hgiven : Owner (origins branching) 4 0 := .given rfl rfl hchild
  obtain ⟨⟨j, -, hj, hroots⟩, -⟩ := types_shared_by_owner hpossible hlength
  obtain ⟨⟨k, -, hk, hothers⟩, -⟩ := types_shared_by_owner hpossible (show 3 < (made branching).length by decide)
  obtain rfl := hj 0 hgiven
  obtain rfl := hk 3 hown
  obtain ⟨entry, -, hentry, -, htype⟩ := hroots "x"
  obtain ⟨other, -, hother, -, htype'⟩ := hothers "x"
  have hwritten : LastEntry branching (Owner (origins branching)) 0 "x" (some (some .character)) := by
    refine @LastEntry.written branching _ 0 "x" [] _ 2 _ rfl hgrandchild fun _ _ hmem => ?_
    cases hmem
  have hinitial : LastEntry branching (Owner (origins branching)) 3 "x" none := by
    refine @LastEntry.initial branching _ 3 "x" ⟨some 0, some (.own .empty)⟩ rfl fun m type hmem howner => ?_
    obtain ⟨rfl, -⟩ : m = 2 ∧ type = some .character := by simpa [branching] using hmem
    have hsame := ((hpossible.owner_iff (by decide)).1 howner).symm.trans
      ((hpossible.owner_iff (by decide)).1 hgrandchild)
    cases hsame
  rw [← hentry _ hwritten] at htype
  rw [← hother _ hinitial] at htype'
  exact ⟨hpossible, hlength, hgiven, hwritten, htype, hown, hinitial, htype'⟩

/-- Two scopes that lie apart, of which the second is given the empty table of the first and enters `x`. -/
def handedOn : List Change :=
  [.setType 1 "x" (some .number), .add none (some (.of 0)), .add none (some (.own .empty))]

/-- When a table is given to two scopes, the nearest scope with a table does not tell what is shared: an entry that was
written through the second scope is found through the first, although the two have no scope in common. -/
theorem nearestTable_of_handedOn : Possible handedOn ∧ NearestTable (origins handedOn) 0 0 ∧
    LastEntry handedOn (NearestTable (origins handedOn)) 0 "x" none ∧
    (made handedOn).typeOf 0 "x" = some .number := by
  refine ⟨by decide, .self rfl (.inl rfl), ?_, by decide⟩
  refine @LastEntry.initial handedOn _ 0 "x" ⟨none, some (.own .empty)⟩ rfl fun k type hmem hnearest => ?_
  obtain ⟨rfl, -⟩ : k = 1 ∧ type = some .number := by simpa [handedOn] using hmem
  cases hnearest with
  | outer ho _ hparent =>
      cases ho
      cases hparent

end Forest

end Binisaya
