import Mathlib.Data.List.Basic
import Mathlib.Tactic.SplitIfs
import Binisaya.Proofs.Alike

/-! Scopes frame by frame. Assigning to a bound name leaves the names of all frames alone and changes one of its
values; declaring a name changes the innermost frame only. What is known of the scopes and of the types of two runs at
their nodes is known after whole statements, as long as entering and leaving blocks keeps it. -/

namespace Binisaya

open Exec

theorem names_setEntry_of_mem {α : Type} {name : String} {a : α} {l : List (String × α)}
    (h : name ∈ l.map Prod.fst) : (setEntry name a l).map Prod.fst = l.map Prod.fst := by
  induction l with
  | nil => cases h
  | cons p rest ih =>
      obtain ⟨n, b⟩ := p
      by_cases hn : n = name
      · simp [setEntry, hn]
      · have hrest : name ∈ rest.map Prod.fst := by
          rcases List.mem_cons.1 h with heq | hmem
          · exact absurd heq.symm hn
          · exact hmem
        simp [setEntry, hn, ih hrest]

theorem Table.names_insert_of_contains {α : Type} {t : Table α} {name : String} (h : t.contains name = true) (a : α) :
    (t.insert name a).names = t.names := by
  obtain ⟨b, hb⟩ := Option.isSome_iff_exists.1 h
  obtain ⟨l₁, l₂, hentries, -⟩ := List.lookup_eq_some_iff.1 hb
  apply names_setEntry_of_mem
  rw [hentries]
  simp

theorem names_rebind (name : String) (v : Value) (fs : List Frame) :
    (rebind name v fs).map Table.names = fs.map Table.names := by
  induction fs with
  | nil => rfl
  | cons f fs ih =>
      rw [rebind]
      split_ifs with hf
      · simp [Table.names_insert_of_contains hf]
      · simp [ih]

namespace Scope

variable {s : Scope} {name other : String}

theorem frames_assign_of_bound (h : bound name s.frames = true) (v : Value) :
    (s.assign name v).frames = rebind name v s.frames := by
  by_cases hown : s.own.contains name = true
  · simp [assign, frames, declare, rebind, hown]
  · have houter : bound name s.outer = true := by simpa [frames, bound, hown] using h
    simp [assign, frames, rebind, hown, houter]

theorem assign_of_not_bound (h : bound name s.frames = false) (v : Value) : s.assign name v = s.declare name v := by
  have houter : bound name s.outer = false := by
    rw [frames, bound, List.any_cons] at h
    exact (Bool.or_eq_false_iff.1 h).2
  simp [assign, houter]

/-- Assignments make no new names but in the scope itself. -/
theorem names_outer_assign (s : Scope) (name : String) (v : Value) :
    (s.assign name v).outer.map Table.names = s.outer.map Table.names := by
  unfold assign
  split_ifs with h
  · rfl
  · exact names_rebind name v s.outer

theorem bound_frames_eq (s : Scope) (name : String) : bound name s.frames = (s.get? name).isSome := by
  unfold get? bound
  induction s.frames with
  | nil => rfl
  | cons f fs ih =>
      rw [List.any_cons, List.findSome?_cons, ih]
      cases h : f.get? name with
      | none => simp [Table.contains, h]
      | some v => simp [Table.contains, h]

/-- The values of a name in a scope and in those around it, frame by frame. -/
def column (s : Scope) (name : String) : List (Option Value) := s.frames.map (·.get? name)

theorem get?_eq_column (s : Scope) (name : String) : s.get? name = (s.column name).findSome? id := by
  unfold get? column
  rw [List.findSome?_map]
  rfl

theorem column_declare_self (s : Scope) (name : String) (v : Value) :
    (s.declare name v).column name = some v :: (s.column name).tail := by
  simp [column, frames, declare]

theorem column_declare_of_ne (h : other ≠ name) (v : Value) : (s.declare name v).column other = s.column other := by
  simp [column, frames, declare, h]

theorem column_rebind_of_ne (h : other ≠ name) (v : Value) (fs : List Frame) :
    (rebind name v fs).map (·.get? other) = fs.map (·.get? other) := by
  induction fs with
  | nil => rfl
  | cons f fs ih =>
      rw [rebind]
      split_ifs with hf
      · simp [h]
      · simp [ih]

theorem column_assign_of_ne (h : other ≠ name) (v : Value) : (s.assign name v).column other = s.column other := by
  cases hbound : bound name s.frames with
  | true => rw [column, frames_assign_of_bound hbound, column_rebind_of_ne h, column]
  | false => rw [assign_of_not_bound hbound, column_declare_of_ne h]

theorem column_enter (s : Scope) (name : String) : s.enter.column name = none :: s.column name := rfl

theorem column_leave {o : Option Value} {rest : List (Option Value)} (h : s.column name = o :: rest)
    (hrest : rest ≠ []) : s.leave.column name = rest := by
  obtain ⟨own, outer⟩ := s
  obtain ⟨-, houter⟩ := List.cons.inj h
  cases outer with
  | nil => exact absurd houter.symm hrest
  | cons f fs => exact houter

end Scope

/-! ### Runs that differ in their scopes and types -/

/-- Two machines have related scopes and related types and are the same in all else. -/
structure Machine.WithBindings (S : Scope → Scope → Prop) (T : TypeTable → TypeTable → Prop) (m₁ m₂ : Machine) :
    Prop where
  scope : S m₁.scope m₂.scope
  types : T m₁.types m₂.types
  rest : m₁ = { m₂ with scope := m₁.scope, types := m₁.types }

namespace Machine.WithBindings

variable {S S' : Scope → Scope → Prop} {T : TypeTable → TypeTable → Prop} {m₁ m₂ : Machine}

/-- The scopes are changed and the rest is not. -/
theorem mapScope (h : WithBindings S T m₁ m₂) (f g : Scope → Scope) (hfg : S' (f m₁.scope) (g m₂.scope)) :
    WithBindings S' T { m₁ with scope := f m₁.scope } { m₂ with scope := g m₂.scope } := by
  refine ⟨hfg, h.types, ?_⟩
  rw [h.rest]

/-- The types are changed and the rest is not. -/
theorem mapTypes (h : WithBindings S T m₁ m₂) (f : TypeTable → TypeTable) (hf : T (f m₁.types) (f m₂.types)) :
    WithBindings S T { m₁ with types := f m₁.types } { m₂ with types := f m₂.types } := by
  refine ⟨h.scope, hf, ?_⟩
  rw [h.rest]

/-- The rest is changed and the scopes and the types are not. -/
theorem update (h : WithBindings S T m₁ m₂) {f : Machine → Machine}
    (hf : ∀ m s t, f { m with scope := s, types := t } = { f m with scope := s, types := t }) :
    WithBindings S T (f m₁) (f m₂) := by
  have hsame (m : Machine) : (f m).scope = m.scope ∧ (f m).types = m.types := by
    have hm : f m = { f m with scope := m.scope, types := m.types } := hf m m.scope m.types
    rw [hm]
    exact ⟨rfl, rfl⟩
  refine ⟨?_, ?_, ?_⟩
  · rw [(hsame m₁).1, (hsame m₂).1]
    exact h.scope
  · rw [(hsame m₁).2, (hsame m₂).2]
    exact h.types
  · rw [(hsame m₁).1, (hsame m₁).2, ← hf, ← h.rest]

theorem modify {f : Machine → Machine}
    (hf : ∀ m s t, f { m with scope := s, types := t } = { f m with scope := s, types := t }) :
    (Exec.modify f).Alike (WithBindings S T) (Exec.modify f) :=
  alike_modify fun _ _ hm => hm.update hf

theorem note {cfg₁ cfg₂ : Settings} (hlevel : cfg₁.level = cfg₂.level) (msg : Message) :
    (Exec.note cfg₁ msg).Alike (WithBindings S T) (Exec.note cfg₂ msg) := by
  unfold Exec.note
  rw [hlevel]
  split
  · refine modify fun m s t => ?_
    by_cases hlogging : m.logging = true
    · simp [hlogging]
    · simp [hlogging]
  · exact alike_pure ()

theorem lookup {name : String} (h : ∀ s₁ s₂, S s₁ s₂ → s₁.get? name = s₂.get? name) :
    (Exec.lookup name).Alike (WithBindings S T) (Exec.lookup name) :=
  alike_lookup fun m₁ m₂ hm => h m₁.scope m₂.scope hm.scope

theorem assign {name : String} {v : Value} (h : ∀ s₁ s₂, S s₁ s₂ → S (s₁.assign name v) (s₂.assign name v)) :
    (Exec.assign name v).Alike (WithBindings S T) (Exec.assign name v) :=
  alike_modify fun _ _ hm => hm.mapScope (·.assign name v) (·.assign name v) (h _ _ hm.scope)

theorem declare {name : String} (htype : ∀ t₁ t₂, T t₁ t₂ → (t₁.get? name).join = (t₂.get? name).join)
    (h : ∀ v s₁ s₂, S s₁ s₂ → S (s₁.declare name v) (s₂.declare name v)) (v : Value) :
    (Exec.declare name v).Alike (WithBindings S T) (Exec.declare name v) := by
  refine alike_declare (fun m₁ m₂ hm => htype _ _ hm.types) (fun v m₁ m₂ hm => ?_) v
  exact hm.mapScope (·.declare name v) (·.declare name v) (h v _ _ hm.scope)

theorem declareType {name : String} {type : Option VarType}
    (h : ∀ t, type = some t → ∀ t₁ t₂, T t₁ t₂ → T (t₁.insert name type) (t₂.insert name type)) :
    (Exec.declareType name type).Alike (WithBindings S T) (Exec.declareType name type) := by
  cases type with
  | none => exact alike_pure ()
  | some t => exact alike_modify fun _ _ hm => hm.mapTypes (·.insert name (some t)) (h t rfl _ _ hm.types)

theorem readInput {names : List String}
    (htype : ∀ name ∈ names, ∀ t₁ t₂, T t₁ t₂ → (t₁.get? name).join = (t₂.get? name).join) :
    (readInput names).Alike (WithBindings S T) (readInput names) := by
  refine alike_readInput (fun m₁ m₂ hm => ?_) (fun m₁ m₂ hm line => ?_) (fun rest m₁ m₂ hm => ?_)
  · rw [hm.rest]
  · exact lineValues_congr (fun name hname => htype name hname _ _ hm.types) line
  · exact hm.update (f := fun m => { m with unread := rest }) fun _ _ _ => rfl

end Machine.WithBindings

/-- The scope in which the statements of a block run. -/
def Settings.enter (cfg : Settings) (s : Scope) : Scope := if cfg.blockScopes then s.enter else s

/-- The scope after a block. -/
def Settings.leave (cfg : Settings) (s : Scope) : Scope := if cfg.blockScopes then s.leave else s

theorem inBlock_apply (cfg : Settings) (x : Exec Unit) (m : Machine) :
    inBlock cfg x m =
      x.afterwards (fun m => { m with scope := cfg.leave m.scope }) { m with scope := cfg.enter m.scope } := by
  unfold inBlock Settings.leave Settings.enter
  cases cfg.blockScopes with
  | true => rfl
  | false =>
      simp only [Bool.false_eq_true, if_false, Exec.afterwards]
      cases x m with
      | done a m' => rfl
      | failed f m' => rfl
      | outOfFuel => rfl

/-- What statements do to scopes goes alike. -/
structure ScopesAlike {ι : Type} (cfg₁ cfg₂ : Settings) (S : ι → Scope → Scope → Prop) (Ok : ι → Node → Prop) :
    Prop where
  level : cfg₁.level = cfg₂.level
  lookup : ∀ {i name}, Ok i (.ident name) → ∀ s₁ s₂, S i s₁ s₂ → s₁.get? name = s₂.get? name
  assign : ∀ {i t}, Ok i t → ∀ name ∈ t.targets, ∀ v s₁ s₂, S i s₁ s₂ → S i (s₁.assign name v) (s₂.assign name v)
  declare : ∀ {i name init type}, Ok i (.declare name init type) → ∀ v s₁ s₂, S i s₁ s₂ →
    S i (s₁.declare name v) (s₂.declare name v)
  block : ∀ {i body}, (Node.block body).Everywhere (Ok i) → ∀ s₁ s₂, S i s₁ s₂ →
    ∃ j, (∀ s ∈ body, s.Everywhere (Ok j)) ∧ S j (cfg₁.enter s₁) (cfg₂.enter s₂) ∧
      ∀ t₁ t₂, S j t₁ t₂ → S i (cfg₁.leave t₁) (cfg₂.leave t₂)

/-- What statements do to types goes alike, and so does what they take from them. -/
structure TypesAlike {ι : Type} (T : TypeTable → TypeTable → Prop) (Ok : ι → Node → Prop) : Prop where
  insert : ∀ {i name init type}, Ok i (.declare name init (some type)) → ∀ t₁ t₂, T t₁ t₂ →
    T (t₁.insert name (some type)) (t₂.insert name (some type))
  typeOf : ∀ {i t}, Ok i t → ∀ name ∈ t.typeUses, ∀ t₁ t₂, T t₁ t₂ → (t₁.get? name).join = (t₂.get? name).join

theorem scopesAlike_eq (cfg : Settings) (Ok : Node → Prop) :
    ScopesAlike cfg cfg (fun _ : Unit => (· = ·)) fun _ => Ok where
  level := rfl
  lookup := by
    rintro i name - s _ rfl
    rfl
  assign := by
    rintro i t - name - v s _ rfl
    rfl
  declare := by
    rintro i name init type - v s _ rfl
    rfl
  block := by
    rintro i body hbody s _ rfl
    refine ⟨(), fun t ht => hbody.part ht, rfl, ?_⟩
    rintro t _ rfl
    rfl

theorem typesAlike_eq {ι : Type} (Ok : ι → Node → Prop) : TypesAlike (· = ·) Ok where
  insert := by
    rintro i name init type - t _ rfl
    rfl
  typeOf := by
    rintro i t - name - t₁ _ rfl
    rfl

/-- Runs go alike if what they do to scopes and types does. -/
theorem ScopesAlike.withBindings {ι : Type} {cfg₁ cfg₂ : Settings} {S : ι → Scope → Scope → Prop}
    {T : TypeTable → TypeTable → Prop} {Ok : ι → Node → Prop} (h : ScopesAlike cfg₁ cfg₂ S Ok)
    (htypes : TypesAlike T Ok) : StatementsAlike cfg₁ cfg₂ (fun i => Machine.WithBindings (S i) T) Ok where
  expressions i :=
    { note := Machine.WithBindings.note h.level
      lookup := fun hok => Machine.WithBindings.lookup (h.lookup hok)
      assign := fun hok v => Machine.WithBindings.assign (h.assign hok _ List.mem_cons_self v) }
  write i text := Machine.WithBindings.modify fun _ _ _ => rfl
  declareType := by
    intro i name init type hok
    refine Machine.WithBindings.declareType fun t ht => ?_
    subst ht
    exact htypes.insert hok
  declare hok := Machine.WithBindings.declare (htypes.typeOf hok _ List.mem_cons_self) (h.declare hok)
  readInput hok := Machine.WithBindings.readInput (htypes.typeOf hok)
  assignField hok name hname v := Machine.WithBindings.assign (h.assign hok name hname v)
  block := by
    intro i body hbody x y hxy m₁ m₂ hm
    obtain ⟨j, hj, henter, hleave⟩ := h.block hbody _ _ hm.scope
    rw [inBlock_apply, inBlock_apply]
    refine (hxy j hj).afterwards (fun n₁ n₂ hn => ?_) (hm.mapScope cfg₁.enter cfg₂.enter henter)
    exact hn.mapScope cfg₁.leave cfg₂.leave (hleave _ _ hn.scope)

/-- Two machines have related scopes and are the same in all else. -/
def Machine.WithScopes (S : Scope → Scope → Prop) (m₁ m₂ : Machine) : Prop :=
  S m₁.scope m₂.scope ∧ m₁ = { m₂ with scope := m₁.scope }

namespace Machine.WithScopes

variable {S : Scope → Scope → Prop}

theorem eq_withBindings (S : Scope → Scope → Prop) : WithScopes S = WithBindings S (· = ·) := by
  funext m₁ m₂
  refine propext ⟨fun h => ?_, fun h => ?_⟩
  · have htypes : m₁.types = m₂.types := by rw [h.2]
    refine ⟨h.1, htypes, ?_⟩
    rw [htypes]
    exact h.2
  · refine ⟨h.scope, ?_⟩
    have hrest := h.rest
    rwa [h.types] at hrest

theorem note {cfg₁ cfg₂ : Settings} (hlevel : cfg₁.level = cfg₂.level) (msg : Message) :
    (Exec.note cfg₁ msg).Alike (WithScopes S) (Exec.note cfg₂ msg) := by
  rw [eq_withBindings]
  exact WithBindings.note hlevel msg

theorem lookup {name : String} (h : ∀ s₁ s₂, S s₁ s₂ → s₁.get? name = s₂.get? name) :
    (Exec.lookup name).Alike (WithScopes S) (Exec.lookup name) := by
  rw [eq_withBindings]
  exact WithBindings.lookup h

theorem assign {name : String} {v : Value} (h : ∀ s₁ s₂, S s₁ s₂ → S (s₁.assign name v) (s₂.assign name v)) :
    (Exec.assign name v).Alike (WithScopes S) (Exec.assign name v) := by
  rw [eq_withBindings]
  exact WithBindings.assign h

theorem readInput (names : List String) : (readInput names).Alike (WithScopes S) (readInput names) := by
  rw [eq_withBindings]
  refine WithBindings.readInput ?_
  rintro name - t _ rfl
  rfl

end Machine.WithScopes

/-- Runs go alike if what they do to scopes does. -/
theorem ScopesAlike.statementsAlike {ι : Type} {cfg₁ cfg₂ : Settings} {S : ι → Scope → Scope → Prop}
    {Ok : ι → Node → Prop} (h : ScopesAlike cfg₁ cfg₂ S Ok) :
    StatementsAlike cfg₁ cfg₂ (fun i => Machine.WithScopes (S i)) Ok := by
  simp only [Machine.WithScopes.eq_withBindings]
  exact h.withBindings (typesAlike_eq Ok)

/-- Related machines have the same variables and types, and they stay related when these change alike or something is
written. -/
structure SharesBindings (R : Machine → Machine → Prop) : Prop where
  scope : ∀ {m₁ m₂}, R m₁ m₂ → m₁.scope = m₂.scope
  types : ∀ {m₁ m₂}, R m₁ m₂ → m₁.types = m₂.types
  withScope : ∀ {m₁ m₂}, R m₁ m₂ → ∀ s, R { m₁ with scope := s } { m₂ with scope := s }
  withTypes : ∀ {m₁ m₂}, R m₁ m₂ → ∀ t, R { m₁ with types := t } { m₂ with types := t }
  write : ∀ {m₁ m₂}, R m₁ m₂ → ∀ text,
    R { m₁ with output := m₁.output ++ text } { m₂ with output := m₂.output ++ text }

namespace SharesBindings

variable {R : Machine → Machine → Prop} {m₁ m₂ : Machine}

theorem mapScope (h : SharesBindings R) (hm : R m₁ m₂) (f : Scope → Scope) :
    R { m₁ with scope := f m₁.scope } { m₂ with scope := f m₂.scope } := by
  rw [h.scope hm]
  exact h.withScope hm (f m₂.scope)

theorem mapTypes (h : SharesBindings R) (hm : R m₁ m₂) (f : TypeTable → TypeTable) :
    R { m₁ with types := f m₁.types } { m₂ with types := f m₂.types } := by
  rw [h.types hm]
  exact h.withTypes hm (f m₂.types)

theorem typeOf_eq (h : SharesBindings R) (hm : R m₁ m₂) : m₁.typeOf = m₂.typeOf := by
  funext name
  rw [Machine.typeOf, h.types hm, Machine.typeOf]

theorem inBlock (h : SharesBindings R) {cfg₁ cfg₂ : Settings} (hcfg : cfg₁.blockScopes = cfg₂.blockScopes)
    {x y : Exec Unit} (hxy : x.Alike R y) : (inBlock cfg₁ x).Alike R (inBlock cfg₂ y) := by
  have henter : cfg₁.enter = cfg₂.enter := by
    funext s
    rw [Settings.enter, Settings.enter, hcfg]
  have hleave : cfg₁.leave = cfg₂.leave := by
    funext s
    rw [Settings.leave, Settings.leave, hcfg]
  intro m₁ m₂ hm
  rw [inBlock_apply, inBlock_apply, henter, hleave]
  exact hxy.afterwards (fun _ _ hm => h.mapScope hm cfg₂.leave) (h.mapScope hm cfg₂.enter)

/-- Runs that share their scopes and types go alike if messages and the input do. -/
theorem statementsAlike (h : SharesBindings R) {cfg₁ cfg₂ : Settings} (hcfg : cfg₁.blockScopes = cfg₂.blockScopes)
    (hnote : ∀ msg, (note cfg₁ msg).Alike R (note cfg₂ msg))
    (hread : ∀ names, (readInput names).Alike R (readInput names)) :
    StatementsAlike cfg₁ cfg₂ (fun _ : Unit => R) fun _ _ => True where
  expressions _ :=
    { note := hnote
      lookup := fun _ => alike_lookup fun m₁ m₂ hm => by rw [h.scope hm]
      assign := fun _ v => alike_modify fun _ _ hm => h.mapScope hm (·.assign _ v) }
  write _ text := alike_modify fun _ _ hm => h.write hm text
  declareType := by
    intro _ name init type _
    cases type with
    | none => exact alike_pure ()
    | some t => exact alike_modify fun _ _ hm => h.mapTypes hm (·.insert name (some t))
  declare := by
    intro _ name init type _ v
    refine alike_declare (fun m₁ m₂ hm => ?_) (fun v m₁ m₂ hm => h.mapScope hm (·.declare name v)) v
    rw [h.typeOf_eq hm]
  readInput _ := hread _
  assignField _ name _ v := alike_modify fun _ _ hm => h.mapScope hm (·.assign name v)
  block := fun _ _ _ hxy => h.inBlock hcfg (hxy () fun _ _ _ _ => trivial)

end SharesBindings

/-- An action on scopes of which `P` holds leaves a scope of which `Q` holds if it ends well, and one of which `E`
holds if it fails. -/
def Exec.Ensures {α : Type} (P Q E : Scope → Prop) (x : Exec α) : Prop :=
  ∀ m, P m.scope → (∀ a m', x m = .done a m' → Q m'.scope) ∧ ∀ f m', x m = .failed f m' → E m'.scope

section

variable {α β : Type} {P Q T E : Scope → Prop}

theorem Exec.Ensures.bind {x : Exec α} {f : α → Exec β} (hx : x.Ensures P Q E) (hf : ∀ a, (f a).Ensures Q T E) :
    (x >>= f).Ensures P T E := by
  intro m hm
  obtain ⟨hdone, hfailed⟩ := hx m hm
  rw [bind_apply]
  cases h : x m with
  | done a m' => exact hf a m' (hdone a m' h)
  | failed e m' =>
      refine ⟨fun _ _ h' => (by cases h'), fun _ _ h' => ?_⟩
      cases h'
      exact hfailed e m' h
  | outOfFuel => exact ⟨fun _ _ h' => (by cases h'), fun _ _ h' => (by cases h')⟩

theorem Exec.Ensures.leaves {x : Exec α} (hx : x.Ensures P Q Q) {m m' : Machine} (hm : P m.scope)
    (h : (x m).Leaves m') : Q m'.scope := by
  rcases h with ⟨a, h⟩ | ⟨f, h⟩
  · exact (hx m hm).1 a m' h
  · exact (hx m hm).2 f m' h

theorem Exec.Ensures.weaken {x : Exec α} {Q' E' : Scope → Prop} (hx : x.Ensures P Q E) (hQ : ∀ s, Q s → Q' s)
    (hE : ∀ s, E s → E' s) : x.Ensures P Q' E' := by
  intro m hm
  obtain ⟨hdone, hfailed⟩ := hx m hm
  exact ⟨fun a m' h => hQ _ (hdone a m' h), fun f m' h => hE _ (hfailed f m' h)⟩

theorem ensures_pure (a : α) : (Pure.pure a : Exec α).Ensures P P E := by
  intro m hm
  refine ⟨fun _ _ h => ?_, fun _ _ h => (by cases h)⟩
  cases h
  exact hm

theorem ensures_outOfFuel : (outOfFuel : Exec α).Ensures P Q E :=
  fun _ _ => ⟨fun _ _ h => (by cases h), fun _ _ h => (by cases h)⟩

theorem ensures_modify {f : Machine → Machine} (h : ∀ m, (f m).scope = m.scope) : (modify f).Ensures P P E := by
  intro m hm
  refine ⟨fun _ _ h' => ?_, fun _ _ h' => (by cases h')⟩
  cases h'
  rwa [h]

theorem ensures_note (cfg : Settings) (msg : Message) : (note cfg msg).Ensures P P E := by
  unfold note
  split_ifs with hlevel
  · refine ensures_modify fun m => ?_
    split_ifs <;> rfl
  · exact ensures_pure ()

/-- What a run keeps if it goes like itself. -/
theorem ensures_of_alike {x : Exec α} (hx : x.Alike (Machine.WithScopes fun s₁ s₂ => s₁ = s₂ ∧ P s₁) x) :
    x.Ensures P P P := by
  intro m hm
  have h := hx m m ⟨⟨rfl, hm⟩, rfl⟩
  refine ⟨fun a m' ho => ?_, fun f m' ho => ?_⟩
  · rw [ho] at h
    cases h with
    | done _ h => exact h.1.2
  · rw [ho] at h
    cases h with
    | failed _ h => exact h.1.2

end

/-- Something that is known of a scope stays true. -/
structure ScopesKept {ι : Type} (cfg : Settings) (Q : ι → Scope → Prop) (Ok : ι → Node → Prop) : Prop where
  assign : ∀ {i t}, Ok i t → ∀ name ∈ t.targets, ∀ v s, Q i s → Q i (s.assign name v)
  declare : ∀ {i name init type}, Ok i (.declare name init type) → ∀ v s, Q i s → Q i (s.declare name v)
  block : ∀ {i body}, (Node.block body).Everywhere (Ok i) → ∀ s, Q i s →
    ∃ j, (∀ t ∈ body, t.Everywhere (Ok j)) ∧ Q j (cfg.enter s) ∧ ∀ t, Q j t → Q i (cfg.leave t)

namespace ScopesKept

variable {ι : Type} {cfg : Settings} {Q : ι → Scope → Prop} {Ok : ι → Node → Prop}

/-- A run goes like itself. -/
theorem scopesAlike (h : ScopesKept cfg Q Ok) : ScopesAlike cfg cfg (fun i s₁ s₂ => s₁ = s₂ ∧ Q i s₁) Ok where
  level := rfl
  lookup := by
    rintro i name - s _ ⟨rfl, -⟩
    rfl
  assign := by
    rintro i t hok name hname v s _ ⟨rfl, hs⟩
    exact ⟨rfl, h.assign hok name hname v s hs⟩
  declare := by
    rintro i name init type hok v s _ ⟨rfl, hs⟩
    exact ⟨rfl, h.declare hok v s hs⟩
  block := by
    rintro i body hbody s _ ⟨rfl, hs⟩
    obtain ⟨j, hj, henter, hleave⟩ := h.block hbody s hs
    refine ⟨j, hj, ⟨rfl, henter⟩, ?_⟩
    rintro t _ ⟨rfl, ht⟩
    exact ⟨rfl, hleave t ht⟩

theorem inOrder (h : ScopesKept cfg Q Ok) (n : Nat) {i : ι} {body : List Node}
    (hbody : ∀ s ∈ body, s.Everywhere (Ok i)) :
    (inOrder (exec cfg n) body).Ensures (Q i) (Q i) (Q i) :=
  ensures_of_alike (inOrder_alike fun s hs => h.scopesAlike.statementsAlike.exec n (hbody s hs))

end ScopesKept

end Binisaya
