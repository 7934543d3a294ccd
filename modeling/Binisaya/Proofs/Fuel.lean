import Binisaya.Run

/-! How much fuel a run is given matters only for whether it ends. Expressions, declarations and input end with any
fuel, and a statement or a program that ends with some fuel ends in the same way with more. -/

namespace Binisaya

theorem Outcome.done_ne_outOfFuel {α : Type} (a : α) (m : Machine) : Outcome.done a m ≠ .outOfFuel := by simp

theorem Outcome.failed_ne_outOfFuel {α : Type} (f : Failure) (m : Machine) :
    (Outcome.failed f m : Outcome α) ≠ .outOfFuel := by simp

namespace Exec

variable {α β : Type}

/-- The action ends on every machine. -/
def Ends (x : Exec α) : Prop := ∀ m, x m ≠ .outOfFuel

/-- Where the first action ends, the second ends in the same way. -/
def Extends (x y : Exec α) : Prop := ∀ m, x m ≠ .outOfFuel → y m = x m

theorem Ends.bind {x : Exec α} {f : α → Exec β} (hx : x.Ends) (hf : ∀ a, (f a).Ends) : (x >>= f).Ends := by
  intro m
  rw [bind_apply]
  cases h : x m with
  | done a m' => exact hf a m'
  | failed e m' => simp
  | outOfFuel => exact absurd h (hx m)

theorem bind_ne_outOfFuel {x : Exec α} {f : α → Exec β} {m m' : Machine} {a : α} (hx : x m = .done a m')
    (hf : f a m' ≠ .outOfFuel) : (x >>= f) m ≠ .outOfFuel := by
  rwa [bind_apply, hx]

theorem bind_ne_outOfFuel_of_failed {x : Exec α} {f : α → Exec β} {m m' : Machine} {e : Failure}
    (hx : x m = .failed e m') : (x >>= f) m ≠ .outOfFuel := by
  rw [bind_apply, hx]
  exact Outcome.failed_ne_outOfFuel e m'

theorem afterwards_ne_outOfFuel {x : Exec α} {f : Machine → Machine} {m : Machine} (hx : x m ≠ .outOfFuel) :
    x.afterwards f m ≠ .outOfFuel := by
  unfold afterwards
  cases h : x m with
  | done a m' => exact Outcome.done_ne_outOfFuel a (f m')
  | failed e m' => exact Outcome.failed_ne_outOfFuel e (f m')
  | outOfFuel => exact absurd h hx

theorem ends_pure (a : α) : (Pure.pure a : Exec α).Ends := Outcome.done_ne_outOfFuel a

theorem ends_fail (f : Failure) : (fail f : Exec α).Ends := Outcome.failed_ne_outOfFuel f

theorem ends_modify (f : Machine → Machine) : (modify f).Ends := fun m => Outcome.done_ne_outOfFuel () (f m)

theorem ends_ofExcept (r : Except Failure α) : (ofExcept r).Ends := by
  cases r with
  | ok a => exact ends_pure a
  | error f => exact ends_fail f

theorem ends_note (cfg : Settings) (msg : Message) : (note cfg msg).Ends := by
  unfold note
  split
  · exact ends_modify _
  · exact ends_pure ()

theorem ends_lookup (name : String) : (lookup name).Ends := by
  intro m
  unfold lookup
  cases m.scope.get? name with
  | some v => exact Outcome.done_ne_outOfFuel v m
  | none => exact Outcome.failed_ne_outOfFuel _ m

theorem Extends.refl (x : Exec α) : x.Extends x := fun _ _ => rfl

theorem Extends.trans {x y z : Exec α} (hxy : x.Extends y) (hyz : y.Extends z) : x.Extends z := by
  intro m h
  have hy := hxy m h
  rw [hyz m (hy ▸ h), hy]

theorem outOfFuel_extends (x : Exec α) : outOfFuel.Extends x := fun _ h => absurd rfl h

theorem Extends.bind {x y : Exec α} {f g : α → Exec β} (hxy : x.Extends y) (hfg : ∀ a, (f a).Extends (g a)) :
    (x >>= f).Extends (y >>= g) := by
  intro m h
  rw [bind_apply] at h ⊢
  rw [bind_apply]
  cases hx : x m with
  | done a m' =>
      rw [hx] at h
      rw [hxy m (by simp [hx]), hx]
      exact hfg a m' h
  | failed e m' => rw [hxy m (by simp [hx]), hx]
  | outOfFuel => exact absurd (by rw [hx]) h

theorem Extends.afterwards {x y : Exec α} (hxy : x.Extends y) (f : Machine → Machine) :
    (x.afterwards f).Extends (y.afterwards f) := by
  intro m h
  have hx : x m ≠ .outOfFuel := fun hx => h (by simp [Exec.afterwards, hx])
  simp only [Exec.afterwards, hxy m hx]

end Exec

open Exec

theorem inOrder_append (x : Node → Exec Unit) (body rest : List Node) :
    inOrder x (body ++ rest) = inOrder x body >>= fun _ => inOrder x rest := by
  induction body with
  | nil => rfl
  | cons s ss ih => rw [List.cons_append, inOrder, inOrder, ih, bind_assoc]

theorem eval_ends (cfg : Settings) (e : Node) : (eval cfg e).Ends := by
  fun_induction eval cfg e with
  | case1 v => exact ends_pure v
  | case2 e ih => exact ih
  | case3 name => exact ends_lookup name
  | case4 symbol e ih => exact ih.bind fun a => ends_ofExcept _
  | case5 symbol left right ihl ihr =>
      exact ihl.bind fun a => ihr.bind fun b => (ends_note cfg _).bind fun _ => ends_ofExcept _
  | case6 name e ih => exact ih.bind fun v => (ends_modify _).bind fun _ => (ends_note cfg _).bind fun _ => ends_pure v
  | case7 other => exact ends_fail _

theorem evalAll_ends (cfg : Settings) (es : List Node) : (evalAll cfg es).Ends := by
  induction es with
  | nil => exact ends_pure []
  | cons e es ih => exact (eval_ends cfg e).bind fun v => ih.bind fun vs => ends_pure (v :: vs)

theorem evalInit_ends (cfg : Settings) (init : Node) : (evalInit cfg init).Ends := by
  unfold evalInit
  split
  · exact ends_pure _
  · exact eval_ends cfg _

theorem readInput_ends (names : List String) : (readInput names).Ends := by
  refine Ends.bind ?_ fun line m => ?_
  · intro m
    unfold readLine
    split
    · exact Outcome.done_ne_outOfFuel _ _
    · exact Outcome.failed_ne_outOfFuel _ m
  · cases lineValues m.typeOf names line with
    | ok pairs => exact Outcome.done_ne_outOfFuel pairs m
    | error f => exact Outcome.failed_ne_outOfFuel _ m

theorem assignFields_ends (cfg : Settings) (pairs : List (String × Value)) : (assignFields cfg pairs).Ends := by
  induction pairs with
  | nil => exact ends_pure ()
  | cons p rest ih => exact (ends_modify _).bind fun _ => (ends_note cfg _).bind fun _ => ih

/-- Whether a statement holds statements. -/
def Node.holdsStatements : Node → Bool
  | .block _ | .branch .. | .loop .. => true
  | _ => false

theorem exec_one_ends (cfg : Settings) {s : Node} (h : s.holdsStatements = false) : (exec cfg 1 s).Ends := by
  refine (ends_note cfg _).bind fun _ => ?_
  cases s with
  | block body => cases h
  | branch condition yes no => cases h
  | loop condition body => cases h
  | exprStmt e => exact (eval_ends cfg e).bind fun _ => ends_pure ()
  | print items => exact (evalAll_ends cfg items).bind fun _ => ends_modify _
  | input names => exact (readInput_ends names).bind (assignFields_ends cfg)
  | declare name init type =>
      have htype : (declareType name type).Ends := by
        cases type with
        | none => exact ends_pure ()
        | some t => exact ends_modify _
      have hdeclare (v : Value) : (Exec.declare name v).Ends := fun m => Outcome.done_ne_outOfFuel _ _
      exact htype.bind fun _ => (evalInit_ends cfg init).bind fun v => (hdeclare v).bind fun w => ends_note cfg _
  | _ => exact ends_fail _

theorem inOrder_ends_of_forall {x : Node → Exec Unit} {body : List Node} (h : ∀ s ∈ body, (x s).Ends) :
    (inOrder x body).Ends := by
  induction body with
  | nil => exact ends_pure ()
  | cons s ss ih =>
      obtain ⟨hs, hss⟩ := List.forall_mem_cons.1 h
      exact hs.bind fun _ => ih hss

theorem inOrder_extends {x y : Node → Exec Unit} (h : ∀ s, (x s).Extends (y s)) (body : List Node) :
    (inOrder x body).Extends (inOrder y body) := by
  induction body with
  | nil => exact .refl _
  | cons s ss ih => exact (h s).bind fun _ => ih

theorem repeatWhile_extends (cfg : Settings) (condition : Node) {x y : Exec Unit} (h : x.Extends y) (n k : Nat) :
    (repeatWhile cfg condition x n).Extends (repeatWhile cfg condition y (n + k)) := by
  induction n with
  | zero => exact outOfFuel_extends _
  | succ n ih =>
      rw [Nat.succ_add]
      refine (Extends.refl _).bind fun v => (Extends.refl _).bind fun _ => ?_
      cases v.truthy with
      | true => exact h.bind fun _ => ih
      | false => exact .refl _

theorem inBlock_extends (cfg : Settings) {x y : Exec Unit} (h : x.Extends y) :
    (inBlock cfg x).Extends (inBlock cfg y) := by
  unfold inBlock
  split
  · exact fun m => h.afterwards _ { m with scope := m.scope.enter }
  · exact h

theorem exec_extends_succ (cfg : Settings) (n : Nat) (s : Node) : (exec cfg n s).Extends (exec cfg (n + 1) s) := by
  induction n generalizing s with
  | zero => exact outOfFuel_extends _
  | succ n ih =>
      refine (Extends.refl _).bind fun _ => ?_
      cases s with
      | block body => exact inBlock_extends cfg ((Extends.refl _).bind fun _ => inOrder_extends ih body)
      | branch condition yes no =>
          refine (Extends.refl _).bind fun v => (Extends.refl _).bind fun _ => ?_
          cases v.truthy with
          | true => exact ih yes
          | false =>
              cases no with
              | null => exact .refl _
              | _ => exact ih _
      | loop condition body => exact repeatWhile_extends cfg condition (ih body) n 1
      | _ => exact .refl _

theorem exec_extends (cfg : Settings) {n k : Nat} (h : n ≤ k) (s : Node) : (exec cfg n s).Extends (exec cfg k s) := by
  induction h with
  | refl => exact .refl _
  | step _ ih => exact ih.trans (exec_extends_succ cfg _ s)

theorem runBody_extends (cfg : Settings) {n k : Nat} (h : n ≤ k) (body : List Node) :
    (runBody cfg n body).Extends (runBody cfg k body) :=
  (Extends.refl _).bind fun _ => (inOrder_extends (exec_extends cfg h) body).bind fun _ => .refl _

theorem run_extends (cfg : Settings) {n k : Nat} (h : n ≤ k) (p : Node) : (run cfg n p).Extends (run cfg k p) := by
  cases p with
  | program types body => exact (Extends.refl _).bind fun _ => (runBody_extends cfg h body).afterwards _
  | _ => exact .refl _

/-- A run ends in a certain way, with any fuel that is enough. -/
def EndsAs (cfg : Settings) (p : Node) (m : Machine) (o : Outcome Unit) : Prop :=
  ∃ n, ∀ k, n ≤ k → run cfg k p m = o

theorem endsAs_of_run {cfg : Settings} {n : Nat} {p : Node} {m : Machine} {o : Outcome Unit} (h : run cfg n p m = o)
    (ho : o ≠ .outOfFuel) : EndsAs cfg p m o := by
  refine ⟨n, fun k hk => ?_⟩
  rw [run_extends cfg hk p m (h ▸ ho), h]

end Binisaya
