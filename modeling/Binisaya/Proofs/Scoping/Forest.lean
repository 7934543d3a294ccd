import Binisaya.Proofs.Scoping.Basic
import Binisaya.Scope.Forest

/-! Names in a forest of scopes. Looking a name up, asking whether it is bound and assigning to it all go outwards from
a scope through its parents, and they agree on the scope in which the name lives. Binding a name changes one variable
of one scope, and that is seen from exactly the scopes whose nearest binding it is. -/

namespace Binisaya.Forest

/-- The scope right around a scope. -/
def parent? (forest : Forest) (i : Nat) : Option Nat := (forest.scope? i).bind ScopeNode.parent

/-- A scope is another one or lies inside it. -/
inductive Inside (forest : Forest) : Nat → Nat → Prop
  | self (i : Nat) : Inside forest i i
  | outer {i p j : Nat} (h : forest.parent? i = some p) (hj : Inside forest p j) : Inside forest i j

/-- Outwards from a scope, the first one that binds a name is the second. -/
inductive Nearest (forest : Forest) (name : String) : Nat → Nat → Prop
  | self {i : Nat} (h : forest.binds name i = true) : Nearest forest name i i
  | outer {i p j : Nat} (hfree : forest.binds name i = false) (h : forest.parent? i = some p)
      (hj : Nearest forest name p j) : Nearest forest name i j

/-- The forests that come of adding scopes, each inside one that there is or inside none, and of assigning and
declaring names in them. -/
inductive Reachable : Forest → Prop
  | empty : Reachable []
  | add {forest : Forest} (h : Reachable forest) (parent : Option Nat) (types : Option TypeSource)
      (hparent : ∀ p, parent = some p → p < forest.length) : Reachable (forest.add parent types)
  | assign {forest : Forest} (h : Reachable forest) {i : Nat} (hi : i < forest.length) (name : String) (v : Value) :
      Reachable (forest.assign i name v)
  | declare {forest : Forest} (h : Reachable forest) {i : Nat} (hi : i < forest.length) (name : String) (v : Value) :
      Reachable (forest.declare i name v)

/-- The parent of each scope is an earlier one. -/
def Grounded : Forest → Prop
  | [] => True
  | s :: older => (∀ p, s.parent = some p → p < older.length) ∧ Grounded older

section

variable {f : ScopeNode → ScopeNode}

theorem length_modifyScope (forest : Forest) (i : Nat) : (forest.modifyScope f i).length = forest.length := by
  induction forest with
  | nil => rfl
  | cons s older ih =>
      rw [modifyScope]
      split_ifs with hi
      · rfl
      · exact congrArg (· + 1) ih

theorem scope?_modifyScope (forest : Forest) (i k : Nat) :
    (forest.modifyScope f i).scope? k = if k = i then (forest.scope? k).map f else forest.scope? k := by
  induction forest with
  | nil => simp [modifyScope, scope?]
  | cons s older ih =>
      rw [modifyScope]
      by_cases hi : i = older.length
      · rw [if_pos hi, scope?, scope?]
        by_cases hk : k = older.length
        · simp [hk, hi]
        · have hne : ¬ k = i := fun h => hk (h.trans hi)
          simp [hk, hne]
      · rw [if_neg hi, scope?, scope?, length_modifyScope, ih]
        by_cases hk : k = older.length
        · have hne : ¬ k = i := fun h => hi (h.symm.trans hk)
          rw [if_pos hk, if_pos hk, if_neg hne]
        · rw [if_neg hk, if_neg hk]

theorem ancestors_modifyScope (hf : ∀ s, (f s).parent = s.parent) (forest : Forest) (i k : Nat) :
    (forest.modifyScope f i).ancestors k = forest.ancestors k := by
  induction forest generalizing k with
  | nil => rfl
  | cons s older ih =>
      rw [modifyScope]
      by_cases hi : i = older.length
      · rw [if_pos hi, ancestors, ancestors, hf]
      · rw [if_neg hi, ancestors, ancestors, length_modifyScope, ih]
        cases s.parent with
        | none => rfl
        | some p => simp only [ih]

theorem parent?_modifyScope (hf : ∀ s, (f s).parent = s.parent) (forest : Forest) (i k : Nat) :
    (forest.modifyScope f i).parent? k = forest.parent? k := by
  rw [parent?, parent?, scope?_modifyScope]
  split_ifs with hk
  · cases forest.scope? k with
    | none => rfl
    | some s => exact hf s
  · rfl

theorem grounded_modifyScope (hf : ∀ s, (f s).parent = s.parent) {forest : Forest} (h : forest.Grounded) (i : Nat) :
    (forest.modifyScope f i).Grounded := by
  induction forest with
  | nil => exact h
  | cons s older ih =>
      obtain ⟨hs, holder⟩ := h
      rw [modifyScope]
      split_ifs with hi
      · exact ⟨fun p hp => hs p ((hf s).symm.trans hp), holder⟩
      · refine ⟨fun p hp => ?_, ih holder⟩
        rw [length_modifyScope]
        exact hs p hp

end

theorem grounded_bindAt {forest : Forest} (h : forest.Grounded) (i : Nat) (name : String) (v : Value) :
    (forest.bindAt i name v).Grounded :=
  grounded_modifyScope (f := fun s => { s with values := s.values.insert name v }) (fun _ => rfl) h i

theorem Reachable.grounded {forest : Forest} (h : forest.Reachable) : forest.Grounded := by
  induction h with
  | empty => exact trivial
  | add _ parent types hparent ih => exact ⟨hparent, ih⟩
  | assign _ _ name v ih => exact grounded_bindAt ih _ name v
  | declare _ _ name v ih => exact grounded_bindAt ih _ name _

theorem scope?_eq_none {forest : Forest} {i : Nat} (hi : forest.length ≤ i) : forest.scope? i = none := by
  induction forest with
  | nil => rfl
  | cons s older ih =>
      rw [List.length_cons] at hi
      rw [scope?, if_neg (by omega)]
      exact ih (by omega)

theorem isSome_scope? {forest : Forest} {i : Nat} (hi : i < forest.length) : (forest.scope? i).isSome = true := by
  induction forest with
  | nil => cases hi
  | cons s older ih =>
      rw [List.length_cons] at hi
      rw [scope?]
      split_ifs with htop
      · rfl
      · exact ih (by omega)

theorem ancestors_eq_nil {forest : Forest} {i : Nat} (hi : forest.length ≤ i) : forest.ancestors i = [] := by
  induction forest with
  | nil => rfl
  | cons s older ih =>
      rw [List.length_cons] at hi
      rw [ancestors, if_neg (by omega)]
      exact ih (by omega)

theorem lt_length_of_mem_ancestors {forest : Forest} {i j : Nat} (h : j ∈ forest.ancestors i) : j < forest.length := by
  induction forest generalizing i with
  | nil => cases h
  | cons s older ih =>
      rw [ancestors] at h
      rw [List.length_cons]
      split_ifs at h with hi
      · rcases List.mem_cons.1 h with rfl | h
        · omega
        · cases hp : s.parent with
          | none =>
              rw [hp] at h
              cases h
          | some p =>
              rw [hp] at h
              exact Nat.lt_succ_of_lt (ih h)
      · exact Nat.lt_succ_of_lt (ih h)

theorem nodup_ancestors (forest : Forest) (i : Nat) : (forest.ancestors i).Nodup := by
  induction forest generalizing i with
  | nil => exact .nil
  | cons s older ih =>
      rw [ancestors]
      split_ifs with hi
      · cases s.parent with
        | none => simp
        | some p =>
            refine List.nodup_cons.2 ⟨fun hmem => ?_, ih p⟩
            have hlt := lt_length_of_mem_ancestors hmem
            omega
      · exact ih i

section

variable {forest : Forest}

theorem Grounded.parent_lt (h : forest.Grounded) {i p : Nat} (hp : forest.parent? i = some p) : p < i := by
  induction forest with
  | nil => cases hp
  | cons s older ih =>
      rw [parent?, scope?] at hp
      split_ifs at hp with htop
      · rw [htop]
        exact h.1 p hp
      · exact ih h.2 hp

/-- A scope comes first, and then its parent and those around it. -/
theorem Grounded.ancestors_eq (h : forest.Grounded) {i : Nat} (hi : i < forest.length) :
    forest.ancestors i = i :: ((forest.parent? i).map forest.ancestors).getD [] := by
  induction forest with
  | nil => cases hi
  | cons s older ih =>
      -- the scopes around an older scope are older
      have hskip {p : Nat} (hp : p < older.length) : ancestors (s :: older) p = ancestors older p := by
        rw [ancestors, if_neg (Nat.ne_of_lt hp)]
      by_cases htop : i = older.length
      · have hparent : parent? (s :: older) i = s.parent := by simp [parent?, scope?, htop]
        rw [hparent, ancestors, if_pos htop]
        cases hp : s.parent with
        | none => rfl
        | some p => rw [Option.map_some, Option.getD_some, hskip (h.1 p hp)]
      · have hi : i < older.length := Nat.lt_of_le_of_ne (Nat.le_of_lt_succ hi) htop
        have hparent : parent? (s :: older) i = parent? older i := by simp [parent?, scope?, htop]
        rw [hskip hi, hparent, ih h.2 hi]
        cases hp : parent? older i with
        | none => rfl
        | some p =>
            have hlt : p < older.length := Nat.lt_trans (h.2.parent_lt hp) hi
            rw [Option.map_some, Option.map_some, hskip hlt]

theorem lt_length_of_parent {i p : Nat} (hp : forest.parent? i = some p) : i < forest.length := by
  by_contra hi
  rw [parent?, scope?_eq_none (Nat.le_of_not_lt hi)] at hp
  cases hp

theorem lt_length_of_binds {name : String} {i : Nat} (h : forest.binds name i = true) : i < forest.length := by
  by_contra hi
  rw [binds, values, scope?_eq_none (Nat.le_of_not_lt hi)] at h
  cases h

theorem Grounded.mem_ancestors_iff (h : forest.Grounded) {i j : Nat} (hi : i < forest.length) :
    j ∈ forest.ancestors i ↔ forest.Inside i j := by
  induction i using Nat.strongRecOn with
  | ind i ih =>
      rw [h.ancestors_eq hi, List.mem_cons]
      constructor
      · rintro (rfl | hmem)
        · exact .self j
        · cases hp : forest.parent? i with
          | none =>
              rw [hp] at hmem
              cases hmem
          | some p =>
              rw [hp] at hmem
              have hlt := h.parent_lt hp
              exact .outer hp ((ih p hlt (Nat.lt_trans hlt hi)).1 hmem)
      · intro hinside
        cases hinside with
        | self => exact .inl rfl
        | outer hp hj =>
            have hlt := h.parent_lt hp
            rw [hp]
            exact .inr ((ih _ hlt (Nat.lt_trans hlt hi)).2 hj)

theorem Grounded.find?_eq_some_iff (h : forest.Grounded) {name : String} {i j : Nat} :
    (forest.ancestors i).find? (forest.binds name) = some j ↔ forest.Nearest name i j := by
  constructor
  · intro hfind
    induction i using Nat.strongRecOn with
    | ind i ih =>
        have hi : i < forest.length := by
          by_contra hi
          rw [ancestors_eq_nil (Nat.le_of_not_lt hi)] at hfind
          cases hfind
        rw [h.ancestors_eq hi, List.find?_cons] at hfind
        cases hbinds : forest.binds name i with
        | true =>
            rw [hbinds] at hfind
            cases hfind
            exact .self hbinds
        | false =>
            rw [hbinds] at hfind
            cases hp : forest.parent? i with
            | none =>
                rw [hp] at hfind
                cases hfind
            | some p =>
                rw [hp] at hfind
                exact .outer hbinds hp (ih p (h.parent_lt hp) hfind)
  · intro hnearest
    induction hnearest with
    | self hbinds => rw [h.ancestors_eq (lt_length_of_binds hbinds), List.find?_cons, hbinds]
    | outer hfree hp _ ih =>
        rw [h.ancestors_eq (lt_length_of_parent hp), List.find?_cons, hfree, hp]
        exact ih

end

section

variable {forest : Forest} {i k : Nat} {name m : String} {v : Value}

/-- The first result that a list gives is that of the first element that gives one. -/
theorem findSome?_eq_find?_bind {α β : Type} (f : α → Option β) (l : List α) :
    l.findSome? f = (l.find? fun a => (f a).isSome).bind f := by
  induction l with
  | nil => rfl
  | cons a l ih =>
      cases h : f a with
      | none => simp [h, ih]
      | some b => simp [h]

theorem get?_eq_find?_bind (forest : Forest) (i : Nat) (name : String) :
    forest.get? i name = ((forest.ancestors i).find? (forest.binds name)).bind fun j => (forest.values j).get? name :=
  findSome?_eq_find?_bind _ _

theorem sees_eq_isSome (forest : Forest) (i : Nat) (name : String) :
    forest.sees i name = ((forest.ancestors i).find? (forest.binds name)).isSome := by
  rw [Bool.eq_iff_iff, sees, List.find?_isSome, List.any_eq_true]

theorem isSome_get?_eq_sees (forest : Forest) (i : Nat) (name : String) :
    (forest.get? i name).isSome = forest.sees i name := by
  rw [get?_eq_find?_bind, sees_eq_isSome]
  cases h : (forest.ancestors i).find? (forest.binds name) with
  | none => rfl
  | some j =>
      have hbinds : forest.binds name j = true := List.find?_some h
      exact hbinds

theorem Grounded.sees_iff (h : forest.Grounded) (hi : i < forest.length) :
    forest.sees i name = true ↔ ∃ j, forest.Inside i j ∧ forest.binds name j = true := by
  rw [sees, List.any_eq_true]
  simp only [h.mem_ancestors_iff hi]

theorem Grounded.get?_eq_some_iff (h : forest.Grounded) {w : Value} :
    forest.get? i name = some w ↔ ∃ j, forest.Nearest name i j ∧ (forest.values j).get? name = some w := by
  rw [get?_eq_find?_bind, Option.bind_eq_some_iff]
  simp only [h.find?_eq_some_iff]

/-- An assignment goes to the nearest scope that binds the name, or to the scope itself if none does. -/
theorem Grounded.slot_spec (h : forest.Grounded) (hi : i < forest.length) (name : String) :
    forest.Nearest name i (forest.slot i name) ∨
      forest.slot i name = i ∧ ∀ j, forest.Inside i j → forest.binds name j = false := by
  cases hfind : (forest.ancestors i).find? (forest.binds name) with
  | some j =>
      rw [slot, hfind]
      exact .inl (h.find?_eq_some_iff.1 hfind)
  | none =>
      rw [slot, hfind]
      refine .inr ⟨rfl, fun j hj => ?_⟩
      have hfree := List.find?_eq_none.1 hfind j ((h.mem_ancestors_iff hi).2 hj)
      simpa using hfree

theorem slot_lt (hi : i < forest.length) (name : String) :
    forest.slot i name < forest.length := by
  cases hfind : (forest.ancestors i).find? (forest.binds name) with
  | some j =>
      rw [slot, hfind]
      exact lt_length_of_mem_ancestors (List.mem_of_find?_eq_some hfind)
  | none =>
      rw [slot, hfind]
      exact hi

/-! ### What a binding changes -/

theorem values_bindAt (hi : i < forest.length) (k : Nat) (name : String) (v : Value) :
    (forest.bindAt i name v).values k = if k = i then (forest.values k).insert name v else forest.values k := by
  rw [values, values, bindAt, scope?_modifyScope]
  split_ifs with hk
  · obtain ⟨s, hs⟩ := Option.isSome_iff_exists.1 (isSome_scope? hi)
    rw [hk, hs]
    rfl
  · rfl

theorem get?_values_bindAt (hi : i < forest.length) (k : Nat) (name m : String) (v : Value) :
    ((forest.bindAt i name v).values k).get? m =
      if k = i ∧ m = name then some v else (forest.values k).get? m := by
  rw [values_bindAt hi]
  by_cases hk : k = i
  · simp [hk]
  · simp [hk]

theorem parent?_bindAt (forest : Forest) (i : Nat) (name : String) (v : Value) (k : Nat) :
    (forest.bindAt i name v).parent? k = forest.parent? k :=
  parent?_modifyScope (f := fun s => { s with values := s.values.insert name v }) (fun _ => rfl) forest i k

theorem ancestors_bindAt (forest : Forest) (i : Nat) (name : String) (v : Value) (k : Nat) :
    (forest.bindAt i name v).ancestors k = forest.ancestors k :=
  ancestors_modifyScope (f := fun s => { s with values := s.values.insert name v }) (fun _ => rfl) forest i k

/-- One forest differs from another in the value of one name in one scope, and from elsewhere this is seen as far as
that is the nearest binding of the name. -/
structure ChangesSlot (before after : Forest) (slot : Nat) (name : String) (v : Value) : Prop where
  parents : ∀ k, after.parent? k = before.parent? k
  values : ∀ k m, (after.values k).get? m = if k = slot ∧ m = name then some v else (before.values k).get? m
  seen : ∀ k, after.Nearest name k slot → after.get? k name = some v
  unseen : ∀ k m, ¬ (m = name ∧ after.Nearest name k slot) → after.get? k m = before.get? k m

theorem Grounded.bindAt_changesSlot (h : forest.Grounded) (hi : i < forest.length) (name : String) (v : Value) :
    ChangesSlot forest (forest.bindAt i name v) i name v where
  parents := parent?_bindAt forest i name v
  values k m := get?_values_bindAt hi k name m v
  seen k hk := by
    refine (grounded_bindAt h i name v).get?_eq_some_iff.2 ⟨i, hk, ?_⟩
    rw [get?_values_bindAt hi, if_pos ⟨rfl, rfl⟩]
  unseen k m hk := by
    rw [get?, get?, ancestors_bindAt]
    by_cases hm : m = name
    · subst hm
      have hfind : (forest.ancestors k).find? ((forest.bindAt i m v).binds m) ≠ some i := by
        rw [← ancestors_bindAt forest i m v k]
        intro hsome
        exact hk ⟨rfl, (grounded_bindAt h i m v).find?_eq_some_iff.1 hsome⟩
      -- the scopes before the nearest binding are not the changed one
      revert hfind
      induction forest.ancestors k with
      | nil => exact fun _ => rfl
      | cons j rest ih =>
          intro hfind
          rw [List.find?_cons] at hfind
          by_cases hj : j = i
          · have hbinds : (forest.bindAt i m v).binds m j = true := by
              rw [binds, Table.contains, get?_values_bindAt hi, if_pos ⟨hj, rfl⟩]
              rfl
            rw [hbinds, hj] at hfind
            exact absurd rfl hfind
          · have hsame : ((forest.bindAt i m v).values j).get? m = (forest.values j).get? m := by
              rw [get?_values_bindAt hi, if_neg fun hand => hj hand.1]
            rw [List.findSome?_cons, List.findSome?_cons, hsame]
            cases hvalue : (forest.values j).get? m with
            | some w => rfl
            | none =>
                have hbinds : (forest.bindAt i m v).binds m j = false := by
                  rw [binds, Table.contains, hsame, hvalue]
                  rfl
                rw [hbinds] at hfind
                exact ih hfind
    · simp only [get?_values_bindAt hi, hm, and_false, if_false]

/-- A scope of the forest, with those around it, as a scope that statements run in. -/
def chain (forest : Forest) (i : Nat) : Scope := ⟨forest.values i, (forest.ancestors i).tail.map forest.values⟩

theorem Grounded.frames_chain (h : forest.Grounded) (hi : i < forest.length) :
    (forest.chain i).frames = (forest.ancestors i).map forest.values := by
  rw [chain, Scope.frames, h.ancestors_eq hi]
  rfl

theorem Grounded.get?_chain (h : forest.Grounded) (hi : i < forest.length) (name : String) :
    (forest.chain i).get? name = forest.get? i name := by
  rw [Scope.get?, h.frames_chain hi, List.findSome?_map]
  rfl

/-- Rebinding a name in a list of frames is changing the first scope that binds it. -/
theorem map_values_bindAt {s : Nat} (hs : s < forest.length) {scopes : List Nat} (hnodup : scopes.Nodup)
    (hfind : scopes.find? (forest.binds name) = some s) (v : Value) :
    scopes.map (forest.bindAt s name v).values = rebind name v (scopes.map forest.values) := by
  induction scopes with
  | nil => cases hfind
  | cons j rest ih =>
      obtain ⟨hj, hrest⟩ := List.nodup_cons.1 hnodup
      rw [List.find?_cons] at hfind
      rw [List.map_cons, List.map_cons, rebind, values_bindAt hs]
      cases hbinds : forest.binds name j with
      | true =>
          rw [hbinds] at hfind
          cases hfind
          have hsame : rest.map (forest.bindAt s name v).values = rest.map forest.values := by
            refine List.map_congr_left fun k hk => ?_
            rw [values_bindAt hs, if_neg]
            rintro rfl
            exact hj hk
          have hcontains : (forest.values s).contains name = true := hbinds
          rw [if_pos rfl, if_pos hcontains, hsame]
      | false =>
          rw [hbinds] at hfind
          have hne : ¬ j = s := by
            rintro rfl
            exact hj (List.mem_of_find?_eq_some hfind)
          have hcontains : (forest.values j).contains name = false := hbinds
          rw [if_neg hne, hcontains, ih hrest hfind]
          rfl

theorem Grounded.chain_declare (h : forest.Grounded) (hi : i < forest.length) (name : String) (v : Value) :
    (forest.bindAt i name v).chain i = (forest.chain i).declare name v := by
  have htail : (forest.ancestors i).tail.map (forest.bindAt i name v).values =
      (forest.ancestors i).tail.map forest.values := by
    refine List.map_congr_left fun k hk => ?_
    have hnodup := nodup_ancestors forest i
    rw [h.ancestors_eq hi] at hk hnodup
    rw [values_bindAt hi, if_neg]
    rintro rfl
    exact (List.nodup_cons.1 hnodup).1 hk
  rw [chain, ancestors_bindAt, htail, values_bindAt hi, if_pos rfl]
  rfl

theorem Grounded.chain_assign (h : forest.Grounded) (hi : i < forest.length) (name : String) (v : Value) :
    (forest.assign i name v).chain i = (forest.chain i).assign name v := by
  have hbound : bound name (forest.chain i).frames = forest.sees i name := by
    rw [Scope.bound_frames_eq, h.get?_chain hi, isSome_get?_eq_sees]
  rw [sees_eq_isSome] at hbound
  cases hfind : (forest.ancestors i).find? (forest.binds name) with
  | none =>
      rw [hfind] at hbound
      rw [assign, slot, hfind, Scope.assign_of_not_bound hbound]
      exact h.chain_declare hi name v
  | some s =>
      rw [hfind] at hbound
      have hs : s < forest.length := lt_length_of_mem_ancestors (List.mem_of_find?_eq_some hfind)
      have hframes : ((forest.bindAt s name v).chain i).frames = ((forest.chain i).assign name v).frames := by
        rw [Scope.frames_assign_of_bound hbound, h.frames_chain hi, (grounded_bindAt h s name v).frames_chain,
          ancestors_bindAt, map_values_bindAt hs (nodup_ancestors forest i) hfind]
        rwa [bindAt, length_modifyScope]
      obtain ⟨hown, houter⟩ := List.cons.inj hframes
      rw [assign, slot, hfind]
      exact congrArg₂ Scope.mk hown houter

end

/-- In every forest that can be made, what the operations do in a scope is told by the nearest binding of a name. The
name is bound for the scope if and only if it has a value there, if and only if the scope or one around it binds it,
and its value is the nearest one. An assignment changes the name in the scope of the nearest binding, or in the scope
itself if there is none, and a declaration always in the scope itself; nothing else changes, and the change is seen
from exactly the scopes that have it as their nearest binding. Statements that run in the scope see the same. -/
theorem names_live_nearest {forest : Forest} (h : forest.Reachable) {i : Nat} (hi : i < forest.length) (name : String)
    (v : Value) :
    (forest.sees i name = true ↔ (forest.get? i name).isSome = true) ∧
    (forest.sees i name = true ↔ ∃ j, forest.Inside i j ∧ forest.binds name j = true) ∧
    (∀ w, forest.get? i name = some w ↔ ∃ j, forest.Nearest name i j ∧ (forest.values j).get? name = some w) ∧
    (∃ s, (forest.Nearest name i s ∨ s = i ∧ ∀ j, forest.Inside i j → forest.binds name j = false) ∧
      ChangesSlot forest (forest.assign i name v) s name v) ∧
    ChangesSlot forest (forest.declare i name v) i name (forest.declaredValue i name v) ∧
    (forest.chain i).get? name = forest.get? i name ∧
    (forest.assign i name v).chain i = (forest.chain i).assign name v ∧
    (forest.declare i name v).chain i = (forest.chain i).declare name (forest.declaredValue i name v) := by
  have hg := h.grounded
  refine ⟨?_, hg.sees_iff hi, fun w => hg.get?_eq_some_iff, ?_, ?_, ?_, ?_, ?_⟩
  · rw [isSome_get?_eq_sees]
  · exact ⟨forest.slot i name, hg.slot_spec hi name, hg.bindAt_changesSlot (slot_lt hi name) name v⟩
  · exact hg.bindAt_changesSlot hi name _
  · exact hg.get?_chain hi name
  · exact hg.chain_assign hi name v
  · exact hg.chain_declare hi name _

/-- A scope that binds `x`, two scopes inside it, and inside the first of these one that binds `x` again. -/
def cousins : Forest :=
  let family := (((Forest.add [] none none).add (some 0) none).add (some 0) none).add (some 1) none
  (family.assign 0 "x" (.text "outer")).declare 3 "x" (.text "inner")

theorem names_live_nearest_cousins : cousins.Reachable ∧ 2 < cousins.length ∧
    (cousins.sees 2 "x" = true ↔ ∃ j, cousins.Inside 2 j ∧ cousins.binds "x" j = true) ∧
    ChangesSlot cousins (cousins.assign 2 "x" (.text "new")) 0 "x" (.text "new") ∧
    (cousins.assign 2 "x" (.text "new")).get? 1 "x" = some (.text "new") ∧
    (cousins.assign 2 "x" (.text "new")).get? 3 "x" = some (.text "inner") := by
  have hreachable : cousins.Reachable := by
    refine .declare (.assign (.add (.add (.add (.add .empty _ _ ?_) _ _ ?_) _ _ ?_) _ _ ?_) ?_ _ _) ?_ _ _
    all_goals decide
  have htwo : 2 < cousins.length := by decide
  obtain ⟨-, hsees, -, ⟨s, hs, hchange⟩, -⟩ := names_live_nearest hreachable htwo "x" (.text "new")
  have hzero : s = 0 := by
    have hparent : cousins.parent? 2 = some 0 := by decide
    have hbinds : cousins.binds "x" 0 = true := by decide
    rcases hs with hnearest | ⟨-, hfree⟩
    · have hfind := hreachable.grounded.find?_eq_some_iff.2 hnearest
      have hzero : (cousins.ancestors 2).find? (cousins.binds "x") = some 0 := by decide
      exact Option.some.inj (hfind.symm.trans hzero)
    · have hbound := hfree 0 (.outer hparent (.self 0))
      rw [hbinds] at hbound
      cases hbound
  subst hzero
  exact ⟨hreachable, htwo, hsees, hchange, by decide, by decide⟩

end Binisaya.Forest
