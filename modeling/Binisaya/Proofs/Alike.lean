import Binisaya.Proofs.Fuel
import Binisaya.Proofs.Subtree

/-! Runs that go alike. Two runs of one tree may differ in their settings and in the machines that they stand on. If
all that touches a machine takes related machines to related machines, then the runs end alike: with the same value
or the same failure, and on related machines, or both not at all. -/

namespace Binisaya

/-- Two actions end alike: with one value, with one failure or without fuel, and on related machines. -/
inductive Outcome.Alike {α : Type} (R : Machine → Machine → Prop) : Outcome α → Outcome α → Prop
  | done (a : α) {m₁ m₂ : Machine} (h : R m₁ m₂) : Alike R (.done a m₁) (.done a m₂)
  | failed (f : Failure) {m₁ m₂ : Machine} (h : R m₁ m₂) : Alike R (.failed f m₁) (.failed f m₂)
  | outOfFuel : Alike R .outOfFuel .outOfFuel

/-- An action ends, well or with a failure, and leaves this machine. -/
def Outcome.Leaves {α : Type} (o : Outcome α) (m : Machine) : Prop := (∃ a, o = .done a m) ∨ ∃ f, o = .failed f m

namespace Exec

variable {α β : Type} {R : Machine → Machine → Prop}

/-- From related machines two actions end alike. -/
def Alike (R : Machine → Machine → Prop) (x y : Exec α) : Prop := ∀ m₁ m₂, R m₁ m₂ → (x m₁).Alike R (y m₂)

theorem Alike.bind_of_done {x y : Exec α} {f g : α → Exec β} (hxy : x.Alike R y)
    (hfg : ∀ a m m', x m = .done a m' → (f a).Alike R (g a)) : (x >>= f).Alike R (y >>= g) := by
  intro m₁ m₂ hm
  have h := hxy m₁ m₂ hm
  rw [bind_apply, bind_apply]
  generalize hx : x m₁ = o₁ at h
  generalize y m₂ = o₂ at h
  cases h with
  | done a h => exact hfg a m₁ _ hx _ _ h
  | failed f h => exact .failed f h
  | outOfFuel => exact .outOfFuel

theorem Alike.bind {x y : Exec α} {f g : α → Exec β} (hxy : x.Alike R y) (hfg : ∀ a, (f a).Alike R (g a)) :
    (x >>= f).Alike R (y >>= g) :=
  hxy.bind_of_done fun a _ _ _ => hfg a

theorem Alike.afterwards {S : Machine → Machine → Prop} {x y : Exec α} {f g : Machine → Machine} (hxy : x.Alike R y)
    (hfg : ∀ m₁ m₂, R m₁ m₂ → S (f m₁) (g m₂)) {m₁ m₂ : Machine} (hm : R m₁ m₂) :
    (x.afterwards f m₁).Alike S (y.afterwards g m₂) := by
  have h := hxy m₁ m₂ hm
  unfold Exec.afterwards
  generalize x m₁ = o₁ at h
  generalize y m₂ = o₂ at h
  cases h with
  | done a h => exact .done a (hfg _ _ h)
  | failed e h => exact .failed e (hfg _ _ h)
  | outOfFuel => exact .outOfFuel

theorem alike_pure (a : α) : (Pure.pure a : Exec α).Alike R (Pure.pure a) := fun _ _ hm => .done a hm

theorem alike_fail (f : Failure) : (fail f : Exec α).Alike R (fail f) := fun _ _ hm => .failed f hm

theorem alike_outOfFuel : (outOfFuel : Exec α).Alike R outOfFuel := fun _ _ _ => .outOfFuel

theorem alike_modify {f g : Machine → Machine} (h : ∀ m₁ m₂, R m₁ m₂ → R (f m₁) (g m₂)) :
    (modify f).Alike R (modify g) :=
  fun m₁ m₂ hm => .done () (h m₁ m₂ hm)

theorem alike_ofExcept (r : Except Failure α) : (ofExcept r).Alike R (ofExcept r) := by
  cases r with
  | ok a => exact alike_pure a
  | error f => exact alike_fail f

theorem alike_lookup {name : String} (h : ∀ m₁ m₂, R m₁ m₂ → m₁.scope.get? name = m₂.scope.get? name) :
    (lookup name).Alike R (lookup name) := by
  intro m₁ m₂ hm
  unfold lookup
  rw [h m₁ m₂ hm]
  cases m₂.scope.get? name with
  | some v => exact .done v hm
  | none => exact .failed _ hm

theorem alike_declare {name : String} (htype : ∀ m₁ m₂, R m₁ m₂ → m₁.typeOf name = m₂.typeOf name)
    (h : ∀ v m₁ m₂, R m₁ m₂ →
      R { m₁ with scope := m₁.scope.declare name v } { m₂ with scope := m₂.scope.declare name v }) (v : Value) :
    (declare name v).Alike R (declare name v) := by
  intro m₁ m₂ hm
  simp only [declare, htype m₁ m₂ hm]
  exact .done _ (h _ m₁ m₂ hm)

end Exec

open Exec

/-- What expressions do to machines goes alike. Names are looked up and assigned to only by the nodes of which the
condition `Ok` holds. -/
structure ExpressionsAlike (cfg₁ cfg₂ : Settings) (R : Machine → Machine → Prop) (Ok : Node → Prop) : Prop where
  note : ∀ msg, (Exec.note cfg₁ msg).Alike R (Exec.note cfg₂ msg)
  lookup : ∀ {name}, Ok (.ident name) → (Exec.lookup name).Alike R (Exec.lookup name)
  assign : ∀ {name e}, Ok (.assign name e) → ∀ v, (Exec.assign name v).Alike R (Exec.assign name v)

section

variable {cfg₁ cfg₂ : Settings} {R : Machine → Machine → Prop} {Ok : Node → Prop}

theorem eval_alike (h : ExpressionsAlike cfg₁ cfg₂ R Ok) {e : Node} (he : e.Everywhere Ok) :
    (eval cfg₁ e).Alike R (eval cfg₂ e) := by
  fun_induction eval cfg₁ e with
  | case1 v => exact alike_pure v
  | case2 e ih => exact ih (he.part List.mem_cons_self)
  | case3 name => exact h.lookup he.self
  | case4 symbol e ih =>
      have hoperand := ih (he.part List.mem_cons_self)
      exact hoperand.bind fun a => alike_ofExcept _
  | case5 symbol left right ihleft ihright =>
      have hleft := ihleft (he.part List.mem_cons_self)
      have hright := ihright (he.part (List.mem_cons_of_mem _ List.mem_cons_self))
      exact hleft.bind fun a => hright.bind fun b => (h.note _).bind fun _ => alike_ofExcept _
  | case6 name e ih =>
      have hvalue := ih (he.part List.mem_cons_self)
      exact hvalue.bind fun v => (h.assign he.self v).bind fun _ => (h.note _).bind fun _ => alike_pure v
  | case7 other hother =>
      rw [eval]
      · exact alike_fail _
      all_goals assumption

theorem evalAll_alike (h : ExpressionsAlike cfg₁ cfg₂ R Ok) {es : List Node} (hes : ∀ e ∈ es, e.Everywhere Ok) :
    (evalAll cfg₁ es).Alike R (evalAll cfg₂ es) := by
  induction es with
  | nil => exact alike_pure []
  | cons e es ih =>
      obtain ⟨he, hrest⟩ := List.forall_mem_cons.1 hes
      exact (eval_alike h he).bind fun v => (ih hrest).bind fun vs => alike_pure (v :: vs)

theorem evalInit_alike (h : ExpressionsAlike cfg₁ cfg₂ R Ok) {init : Node} (hinit : init.Everywhere Ok) :
    (evalInit cfg₁ init).Alike R (evalInit cfg₂ init) := by
  cases init with
  | null => exact alike_pure Value.absent
  | _ => exact eval_alike h hinit

end

theorem inOrder_alike {R : Machine → Machine → Prop} {x y : Node → Exec Unit} {body : List Node}
    (h : ∀ s ∈ body, (x s).Alike R (y s)) : (inOrder x body).Alike R (inOrder y body) := by
  induction body with
  | nil => exact alike_pure ()
  | cons s ss ih =>
      obtain ⟨hs, hss⟩ := List.forall_mem_cons.1 h
      exact hs.bind fun _ => ih hss

theorem fieldValues_names {typeOf : String → Option VarType} {names : List String} {fields : List (List Char)}
    {pairs : List (String × Value)} (h : fieldValues typeOf names fields = .ok pairs) : ∀ q ∈ pairs, q.1 ∈ names := by
  induction names generalizing fields pairs with
  | nil =>
      cases h
      exact List.forall_mem_nil _
  | cons name names ih =>
      cases fields with
      | nil =>
          cases h
          exact List.forall_mem_nil _
      | cons field fields =>
          rw [fieldValues] at h
          cases hv : fieldValue name field (typeOf name) with
          | error f =>
              rw [hv] at h
              cases h
          | ok v =>
              rw [hv] at h
              cases hrest : fieldValues typeOf names fields with
              | error f =>
                  rw [hrest] at h
                  cases h
              | ok rest =>
                  rw [hrest] at h
                  cases h
                  intro q hq
                  rcases List.mem_cons.1 hq with rfl | hq
                  · exact List.mem_cons_self
                  · exact List.mem_cons_of_mem name (ih hrest q hq)

theorem fieldValues_congr {typeOf₁ typeOf₂ : String → Option VarType} {names : List String}
    (h : ∀ name ∈ names, typeOf₁ name = typeOf₂ name) (fields : List (List Char)) :
    fieldValues typeOf₁ names fields = fieldValues typeOf₂ names fields := by
  induction names generalizing fields with
  | nil => rfl
  | cons name names ih =>
      obtain ⟨hname, hnames⟩ := List.forall_mem_cons.1 h
      cases fields with
      | nil => rfl
      | cons field fields => rw [fieldValues, fieldValues, hname, ih hnames]

/-- A line is read by the types of the variables that it is read for. -/
theorem lineValues_congr {typeOf₁ typeOf₂ : String → Option VarType} {names : List String}
    (h : ∀ name ∈ names, typeOf₁ name = typeOf₂ name) (line : List Char) :
    lineValues typeOf₁ names line = lineValues typeOf₂ names line := by
  simp only [lineValues, fieldValues_congr h]

section

variable {names : List String} {m m' : Machine} {line rest : List Char} {pairs : List (String × Value)}

theorem readInput_of_none (h : takeLine? m.unread = none) : readInput names m = .failed (.fault .noInput) m := by
  change Exec.bind Exec.readLine _ m = _
  simp only [Exec.bind, Exec.readLine, h]

theorem readInput_of_ok (h : takeLine? m.unread = some (line, rest))
    (hpairs : lineValues m.typeOf names line = .ok pairs) :
    readInput names m = .done pairs { m with unread := rest } := by
  have htypes : Machine.typeOf { m with unread := rest } = m.typeOf := rfl
  change Exec.bind Exec.readLine _ m = _
  simp only [Exec.bind, Exec.readLine, h, htypes, hpairs]

theorem readInput_of_error {f : Fault} (h : takeLine? m.unread = some (line, rest))
    (hf : lineValues m.typeOf names line = .error f) :
    readInput names m = .failed (.fault f) { m with unread := rest } := by
  have htypes : Machine.typeOf { m with unread := rest } = m.typeOf := rfl
  change Exec.bind Exec.readLine _ m = _
  simp only [Exec.bind, Exec.readLine, h, htypes, hf]

theorem lineValues_names {typeOf : String → Option VarType} (h : lineValues typeOf names line = .ok pairs) :
    ∀ q ∈ pairs, q.1 ∈ names := by
  simp only [lineValues] at h
  split at h
  · exact fieldValues_names h
  · cases h

/-- The values that are read are for names that were asked for. -/
theorem readInput_names (h : readInput names m = .done pairs m') : ∀ q ∈ pairs, q.1 ∈ names := by
  cases hline : takeLine? m.unread with
  | none =>
      rw [readInput_of_none hline] at h
      cases h
  | some p =>
      cases hpairs : lineValues m.typeOf names p.1 with
      | error f =>
          rw [readInput_of_error hline hpairs] at h
          cases h
      | ok ps =>
          rw [readInput_of_ok hline hpairs] at h
          cases h
          exact lineValues_names hpairs

end

/-- Input is read alike if the same line is found, or none, and what is left of the input does not matter. -/
theorem alike_readInput_of_rel {R : Machine → Machine → Prop} {names : List String}
    (htake : ∀ m₁ m₂, R m₁ m₂ →
      Option.Rel (fun p q => p.1 = q.1 ∧ R { m₁ with unread := p.2 } { m₂ with unread := q.2 })
        (takeLine? m₁.unread) (takeLine? m₂.unread))
    (hvalues : ∀ m₁ m₂, R m₁ m₂ → ∀ line, lineValues m₁.typeOf names line = lineValues m₂.typeOf names line) :
    (readInput names).Alike R (readInput names) := by
  intro m₁ m₂ hm
  have hrel := htake m₁ m₂ hm
  generalize hline₁ : takeLine? m₁.unread = l₁ at hrel
  generalize hline₂ : takeLine? m₂.unread = l₂ at hrel
  cases hrel with
  | none =>
      rw [readInput_of_none hline₁, readInput_of_none hline₂]
      exact .failed _ hm
  | @some p q h =>
      obtain ⟨hline, hrest⟩ := h
      have hsame := hvalues m₁ m₂ hm p.1
      cases hpairs : lineValues m₁.typeOf names p.1 with
      | ok pairs =>
          rw [hpairs, hline] at hsame
          rw [readInput_of_ok hline₁ hpairs, readInput_of_ok hline₂ hsame.symm]
          exact .done pairs hrest
      | error f =>
          rw [hpairs, hline] at hsame
          rw [readInput_of_error hline₁ hpairs, readInput_of_error hline₂ hsame.symm]
          exact .failed _ hrest

theorem alike_readInput {R : Machine → Machine → Prop} {names : List String}
    (hunread : ∀ m₁ m₂, R m₁ m₂ → m₁.unread = m₂.unread)
    (hvalues : ∀ m₁ m₂, R m₁ m₂ → ∀ line, lineValues m₁.typeOf names line = lineValues m₂.typeOf names line)
    (hrest : ∀ rest m₁ m₂, R m₁ m₂ → R { m₁ with unread := rest } { m₂ with unread := rest }) :
    (readInput names).Alike R (readInput names) := by
  refine alike_readInput_of_rel (fun m₁ m₂ hm => ?_) hvalues
  rw [hunread m₁ m₂ hm]
  cases takeLine? m₂.unread with
  | none => exact .none
  | some p => exact .some ⟨rfl, hrest p.2 m₁ m₂ hm⟩

/-- What statements do to machines goes alike. The runs may stand at different places of a tree, and the place `i`
tells how the machines are related there and at which nodes the runs may be; it changes where a block begins. -/
structure StatementsAlike {ι : Type} (cfg₁ cfg₂ : Settings) (R : ι → Machine → Machine → Prop)
    (Ok : ι → Node → Prop) : Prop where
  expressions : ∀ i, ExpressionsAlike cfg₁ cfg₂ (R i) (Ok i)
  write : ∀ i text, (Exec.write text).Alike (R i) (Exec.write text)
  declareType : ∀ {i name init type}, Ok i (.declare name init type) →
    (Exec.declareType name type).Alike (R i) (Exec.declareType name type)
  declare : ∀ {i name init type}, Ok i (.declare name init type) → ∀ v,
    (Exec.declare name v).Alike (R i) (Exec.declare name v)
  readInput : ∀ {i names}, Ok i (.input names) → (readInput names).Alike (R i) (readInput names)
  assignField : ∀ {i names}, Ok i (.input names) → ∀ name ∈ names, ∀ v,
    (Exec.assign name v).Alike (R i) (Exec.assign name v)
  block : ∀ {i body}, (Node.block body).Everywhere (Ok i) → ∀ {x y : Exec Unit},
    (∀ j, (∀ s ∈ body, s.Everywhere (Ok j)) → x.Alike (R j) y) → (inBlock cfg₁ x).Alike (R i) (inBlock cfg₂ y)

namespace StatementsAlike

variable {ι : Type} {cfg₁ cfg₂ : Settings} {R : ι → Machine → Machine → Prop} {Ok : ι → Node → Prop}

theorem assignFields (h : StatementsAlike cfg₁ cfg₂ R Ok) {i : ι} {names : List String} (hnames : Ok i (.input names))
    {pairs : List (String × Value)} (hpairs : ∀ q ∈ pairs, q.1 ∈ names) :
    (assignFields cfg₁ pairs).Alike (R i) (assignFields cfg₂ pairs) := by
  induction pairs with
  | nil => exact alike_pure ()
  | cons q rest ih =>
      obtain ⟨hq, hrest⟩ := List.forall_mem_cons.1 hpairs
      have hassign := h.assignField hnames q.1 hq q.2
      have hnote := (h.expressions i).note (.readField q.1 q.2)
      exact hassign.bind fun _ => hnote.bind fun _ => ih hrest

theorem repeatWhile (h : StatementsAlike cfg₁ cfg₂ R Ok) {i : ι} {condition : Node}
    (hcondition : condition.Everywhere (Ok i)) {x y : Exec Unit} (hxy : x.Alike (R i) y) (n : Nat) :
    (repeatWhile cfg₁ condition x n).Alike (R i) (repeatWhile cfg₂ condition y n) := by
  induction n with
  | zero => exact alike_outOfFuel
  | succ n ih =>
      have hnote (v : Value) := (h.expressions i).note (.testedLoop v)
      refine (eval_alike (h.expressions i) hcondition).bind fun v => (hnote v).bind fun _ => ?_
      cases v.truthy with
      | true => exact hxy.bind fun _ => ih
      | false => exact alike_pure ()

theorem exec (h : StatementsAlike cfg₁ cfg₂ R Ok) (n : Nat) {i : ι} {s : Node} (hs : s.Everywhere (Ok i)) :
    (exec cfg₁ n s).Alike (R i) (exec cfg₂ n s) := by
  induction n generalizing i s with
  | zero => exact alike_outOfFuel
  | succ n ih =>
      have hexpressions := h.expressions i
      refine (hexpressions.note _).bind fun _ => ?_
      cases s with
      | exprStmt e =>
          have he := hs.part (t := e) List.mem_cons_self
          exact (eval_alike hexpressions he).bind fun _ => alike_pure ()
      | print items =>
          have hitems : ∀ e ∈ items, e.Everywhere (Ok i) := fun e he => hs.part he
          exact (evalAll_alike hexpressions hitems).bind fun vs => h.write i _
      | declare name init type =>
          have hinit := hs.part (t := init) List.mem_cons_self
          refine (h.declareType hs.self).bind fun _ => (evalInit_alike hexpressions hinit).bind fun v => ?_
          exact (h.declare hs.self v).bind fun w => hexpressions.note _
      | block body =>
          refine h.block hs fun j hbody => ((h.expressions j).note _).bind fun _ => ?_
          exact inOrder_alike fun s hs => ih (hbody s hs)
      | branch condition yes no =>
          have hcondition := hs.part (t := condition) List.mem_cons_self
          have hyes := hs.part (t := yes) (List.mem_cons_of_mem _ List.mem_cons_self)
          have hno := hs.part (t := no) (List.mem_cons_of_mem _ (List.mem_cons_of_mem _ List.mem_cons_self))
          refine (eval_alike hexpressions hcondition).bind fun v => (hexpressions.note _).bind fun _ => ?_
          cases v.truthy with
          | true => exact ih hyes
          | false =>
              cases no with
              | null => exact alike_pure ()
              | _ => exact ih hno
      | loop condition body =>
          have hcondition := hs.part (t := condition) List.mem_cons_self
          have hbody := hs.part (t := body) (List.mem_cons_of_mem _ List.mem_cons_self)
          exact h.repeatWhile hcondition (ih hbody) n
      | input names =>
          refine (h.readInput hs.self).bind_of_done fun pairs m m' hpairs => ?_
          exact h.assignFields hs.self (readInput_names hpairs)
      | _ => exact alike_fail _

theorem runBody (h : StatementsAlike cfg₁ cfg₂ R Ok) (hbanner : cfg₁.banner = cfg₂.banner) (n : Nat) {i : ι}
    {body : List Node} (hbody : ∀ s ∈ body, s.Everywhere (Ok i)) :
    (runBody cfg₁ n body).Alike (R i) (runBody cfg₂ n body) := by
  refine ((h.expressions i).note _).bind fun _ => ?_
  refine (inOrder_alike fun s hs => h.exec n (hbody s hs)).bind fun _ => ?_
  rw [hbanner]
  cases cfg₂.banner with
  | true => exact h.write i closingNotice
  | false => exact alike_pure ()

/-- A program goes alike if its statements do, from where its types have been entered to where the log is closed. -/
theorem run (h : StatementsAlike cfg₁ cfg₂ R Ok) (hbanner : cfg₁.banner = cfg₂.banner) (n : Nat) {i : ι}
    {types : TypeTable} {body : List Node} (hbody : ∀ s ∈ body, s.Everywhere (Ok i)) {m₁ m₂ : Machine}
    (hstart : R i { m₁ with types := m₁.types.update types } { m₂ with types := m₂.types.update types })
    {E : Machine → Machine → Prop}
    (hclose : ∀ m₁ m₂, R i m₁ m₂ → E { m₁ with logging := false } { m₂ with logging := false }) :
    (run cfg₁ n (.program types body) m₁).Alike E (run cfg₂ n (.program types body) m₂) :=
  (h.runBody hbanner n hbody).afterwards hclose hstart

end StatementsAlike

end Binisaya
