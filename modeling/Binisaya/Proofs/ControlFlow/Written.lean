import Binisaya.Proofs.Fuel
import Binisaya.Surface

/-! Control flow as it is written. A chain of branches tests its conditions in order until one is true; a counting
loop evaluates its initial expression once, and then, as long as its condition is true, runs its body and its update.
A run of a program as it is written goes from one such test or evaluation to the next. -/

namespace Binisaya

/-- The conditions of a chain of branches after the first, with their blocks. -/
def Otherwise.clauses : Otherwise → List (Expr × List Stmt)
  | .nothing => []
  | .block _ => []
  | .branch condition body otherwise => (condition, body) :: otherwise.clauses

/-- The block of a chain that runs when no condition is true, if there is one. -/
def Otherwise.last : Otherwise → Option (List Stmt)
  | .nothing => none
  | .block body => some body
  | .branch _ _ otherwise => otherwise.last

/-- What is left of a program that runs as it is written. -/
inductive Part where
  /-- An expression whose value is not used. -/
  | value (e : Expr)
  | statement (s : Stmt)
  /-- The clauses of a chain that are to be tested, and the block that runs when none is true. -/
  | clauses (cs : List (Expr × List Stmt)) (last : Option (List Stmt))
  /-- The rounds of a loop. A round runs the body, and then evaluates the update of a loop that counts. -/
  | rounds (condition : Expr) (body : List Stmt) (update : Option Expr)

/-- Does one step of a part and tells what takes its place. -/
def Part.next (cfg : Settings) : Part → Exec (List Part)
  | .value e => do
    let _ ← eval cfg e.toNode
    return []
  | .statement (.branch condition body otherwise) =>
    return [.clauses ((condition, body) :: otherwise.clauses) otherwise.last]
  | .statement (.loop condition body) => return [.rounds condition body none]
  | .statement (.count init condition update body) => return [.value init, .rounds condition body (some update)]
  -- the other statements hold no statements
  | .statement s => do
    inOrder (exec cfg 1) s.toNodes
    return []
  | .clauses [] last => return (last.getD []).map .statement
  | .clauses ((condition, body) :: rest) last => do
    let v ← eval cfg condition.toNode
    return if v.truthy then body.map .statement else [.clauses rest last]
  | .rounds condition body update => do
    let v ← eval cfg condition.toNode
    return if v.truthy then body.map .statement ++ update.toList.map .value ++ [.rounds condition body update] else []

/-- Does one step of the first part that is left. -/
def advance (cfg : Settings) : List Part → Exec (List Part)
  | [] => pure []
  | p :: ps => do
    let qs ← p.next cfg
    return qs ++ ps

/-- What is left after some number of steps. -/
def partsAfter (cfg : Settings) (ps : List Part) : Nat → Exec (List Part)
  | 0 => pure ps
  | k + 1 => do
    let qs ← partsAfter cfg ps k
    advance cfg qs

/-- Runs parts to their end, in at most so many steps. -/
def runParts (cfg : Settings) (ps : List Part) (k : Nat) : Exec Unit := do
  let qs ← partsAfter cfg ps k
  if qs.isEmpty then pure () else .outOfFuel

open Exec

theorem next_ends (cfg : Settings) (p : Part) : (p.next cfg).Ends := by
  cases p with
  | value e => exact (eval_ends cfg _).bind fun _ => ends_pure []
  | rounds condition body update => exact (eval_ends cfg _).bind fun _ => ends_pure _
  | clauses cs last =>
      cases cs with
      | nil => exact ends_pure _
      | cons c rest => exact (eval_ends cfg _).bind fun _ => ends_pure _
  | statement s =>
      have hsimple (h : ∀ node ∈ s.toNodes, node.holdsStatements = false) :
          (inOrder (exec cfg 1) s.toNodes >>= fun _ => Pure.pure ([] : List Part)).Ends :=
        (inOrder_ends_of_forall fun node hnode => exec_one_ends cfg (h node hnode)).bind fun _ => ends_pure []
      cases s with
      | branch condition body otherwise => exact ends_pure _
      | loop condition body => exact ends_pure _
      | count init condition update body => exact ends_pure _
      | declare type items =>
          refine hsimple fun node hnode => ?_
          obtain ⟨item, -, rfl⟩ := List.mem_map.1 hnode
          rfl
      | print e => exact hsimple (List.forall_mem_singleton.2 rfl)
      | input names => exact hsimple (List.forall_mem_singleton.2 rfl)
      | expr e => exact hsimple (List.forall_mem_singleton.2 rfl)

theorem partsAfter_ends (cfg : Settings) (ps : List Part) (k : Nat) : (partsAfter cfg ps k).Ends := by
  induction k with
  | zero => exact ends_pure ps
  | succ k ih =>
      refine ih.bind fun qs => ?_
      cases qs with
      | nil => exact ends_pure []
      | cons q qs => exact (next_ends cfg q).bind fun _ => ends_pure _

theorem partsAfter_succ (cfg : Settings) (ps : List Part) (k : Nat) :
    partsAfter cfg ps (k + 1) = advance cfg ps >>= fun qs => partsAfter cfg qs k := by
  induction k with
  | zero => exact (pure_bind ps (advance cfg)).trans (bind_pure (advance cfg ps)).symm
  | succ k ih =>
      rw [partsAfter, ih, bind_assoc]
      rfl

theorem runParts_succ (cfg : Settings) (ps : List Part) (k : Nat) :
    runParts cfg ps (k + 1) = advance cfg ps >>= fun qs => runParts cfg qs k := by
  rw [runParts, partsAfter_succ, bind_assoc]
  rfl

section

variable {cfg : Settings} {p : Part} {ps qs : List Part} {m m' : Machine}

theorem runParts_cons_of_done {k : Nat} (hp : p.next cfg m = .done qs m')
    (hk : runParts cfg (qs ++ ps) k m' ≠ .outOfFuel) : runParts cfg (p :: ps) (k + 1) m ≠ .outOfFuel := by
  rw [runParts_succ, advance, bind_assoc]
  exact bind_ne_outOfFuel hp hk

theorem runParts_cons_of_failed {f : Failure} (hp : p.next cfg m = .failed f m') :
    runParts cfg (p :: ps) 1 m ≠ .outOfFuel := by
  rw [runParts_succ, advance, bind_assoc]
  exact bind_ne_outOfFuel_of_failed hp

end

theorem runParts_ne_outOfFuel {cfg : Settings} {ps : List Part} {k : Nat} {m : Machine}
    (h : runParts cfg ps k m ≠ .outOfFuel) :
    (∃ m', partsAfter cfg ps k m = .done [] m' ∧ runParts cfg ps k m = .done () m') ∨
      ∃ f m', partsAfter cfg ps k m = .failed f m' ∧ runParts cfg ps k m = .failed f m' := by
  rw [runParts, bind_apply] at h ⊢
  cases hafter : partsAfter cfg ps k m with
  | outOfFuel => exact absurd hafter (partsAfter_ends cfg ps k m)
  | failed f m' => exact .inr ⟨f, m', rfl, rfl⟩
  | done qs m' =>
      rw [hafter] at h
      cases qs with
      | nil => exact .inl ⟨m', rfl, rfl⟩
      | cons q qs => exact absurd rfl h

theorem runParts_extends (cfg : Settings) (ps : List Part) {n k : Nat} (h : n ≤ k) :
    (runParts cfg ps n).Extends (runParts cfg ps k) := by
  have hsucc (n : Nat) : (runParts cfg ps n).Extends (runParts cfg ps (n + 1)) := by
    intro m hn
    rcases runParts_ne_outOfFuel hn with ⟨m', hafter, hrun⟩ | ⟨f, m', hafter, hrun⟩
    · rw [hrun, runParts, partsAfter, bind_assoc, bind_apply, hafter]
      rfl
    · rw [hrun, runParts, partsAfter, bind_assoc, bind_apply, hafter]
  induction h with
  | refl => exact .refl _
  | step _ ih => exact ih.trans (hsucc _)

end Binisaya
