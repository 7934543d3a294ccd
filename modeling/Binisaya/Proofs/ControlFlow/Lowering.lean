import Mathlib.Tactic.Choose
import Binisaya.Proofs.ControlFlow.Written
import Binisaya.Proofs.DebugLevel
import Binisaya.Proofs.Stepwise.Adequacy

/-! Trees have neither chains nor counting loops. Where blocks have no scopes of their own, the tree of a program still
does what the program says as it is written: its steps come by the machines that the program runs through, in the same
order, and it ends in the same way. -/

namespace Binisaya

open Exec Machine Stepwise

/-- The node of the clauses of a chain that are left. -/
def chainNode : List (Expr × List Stmt) → Option (List Stmt) → Node
  | [], none => .null
  | [], some body => .block (bodyNodes body)
  | (condition, body) :: rest, last => .branch condition.toNode (.block (bodyNodes body)) (chainNode rest last)

theorem Otherwise.toNode_eq : ∀ o : Otherwise, o.toNode = chainNode o.clauses o.last
  | .nothing => rfl
  | .block _ => rfl
  | .branch condition body otherwise => by rw [toNode, otherwise.toNode_eq, clauses, last, chainNode]

/-- The nodes of one round of a loop. -/
def roundNodes (body : List Stmt) (update : Option Expr) : List Node :=
  bodyNodes body ++ update.toList.map fun e => .exprStmt e.toNode

def Part.nodes : Part → List Node
  | .value e => [.exprStmt e.toNode]
  | .statement s => s.toNodes
  | .clauses [] none => []
  | .clauses cs last => [chainNode cs last]
  | .rounds condition body update => [.loop condition.toNode (.block (roundNodes body update))]

/-- The tasks that may stand for a part: its nodes, or the next round of a loop that is under way. -/
inductive Part.Stands : Part → List Task → Prop
  | nodes (p : Part) : Stands p (p.nodes.map .statement)
  | round (condition : Expr) (body : List Stmt) (update : Option Expr) :
      Stands (.rounds condition body update) [.round condition.toNode (.block (roundNodes body update))]

inductive StandFor : List Part → List Task → Prop
  | nil : StandFor [] []
  | cons {p : Part} {ps : List Part} {ts₁ ts : List Task} (h : p.Stands ts₁) (hs : StandFor ps ts) :
      StandFor (p :: ps) (ts₁ ++ ts)

theorem StandFor.append {ps qs : List Part} {ts us : List Task} (hps : StandFor ps ts) (hqs : StandFor qs us) :
    StandFor (ps ++ qs) (ts ++ us) := by
  induction hps with
  | nil => exact hqs
  | cons h _ ih =>
      rw [List.append_assoc]
      exact .cons h ih

theorem standFor_one {p : Part} {ts : List Task} (h : p.Stands ts) : StandFor [p] ts := by
  have hone := StandFor.cons h .nil
  rwa [List.append_nil] at hone

theorem standFor_statements (body : List Stmt) :
    StandFor (body.map .statement) ((bodyNodes body).map .statement) := by
  induction body with
  | nil => exact .nil
  | cons s ss ih =>
      rw [bodyNodes, List.map_append]
      exact .cons (.nodes (.statement s)) ih

theorem standFor_round (body : List Stmt) (update : Option Expr) :
    StandFor (body.map .statement ++ update.toList.map .value) ((roundNodes body update).map .statement) := by
  rw [roundNodes, List.map_append]
  refine (standFor_statements body).append ?_
  cases update with
  | none => exact .nil
  | some e => exact standFor_one (.nodes (.value e))

/-- A failure passes the tasks that stand for parts and undoes nothing. -/
theorem StandFor.pass {cfg : Settings} {ps : List Part} {ts : List Task} (h : StandFor ps ts) (f : Failure)
    (m : Machine) : Steps cfg (.failing f ts m) (.failing f [] m) := by
  induction h with
  | nil => exact .refl _
  | @cons p _ _ ts hp _ ih =>
      cases hp with
      | round condition body update => exact .head rfl ih
      | nodes =>
          have hpass : Leads cfg (.failing f (p.nodes.map .statement ++ ts) m) (p.nodes.map .statement ++ ts)
              (fun _ : Unit => State.executing []) (.failed f m) := Steps.refl _
          exact Steps.trans hpass.passStatements ih

/-! ### The tree follows the program -/

section

variable {cfg : Settings} {m₁ m₂ : Machine}

theorem Machine.LogAside.noted (h : LogAside cfg cfg m₁ m₂) (msg : Message) :
    LogAside cfg cfg (noted cfg msg m₁) m₂ := by
  obtain ⟨log, hlog⟩ := h.left.note msg
  rw [note_apply] at hlog
  rw [(Outcome.done.inj hlog).2]
  refine ⟨?_, h.left, h.right⟩
  rw [SameButLog, h.same]

theorem Machine.KeepsOutput.logAside {m : Machine} (h : m.KeepsOutput cfg) : LogAside cfg cfg m m := ⟨rfl, h, h⟩

/-- What gets less where a step of the written program is no step of the tree. -/
def Part.weight : Part → Nat
  | .statement _ => 2
  | _ => 1

def totalWeight : List Part → Nat
  | [] => 0
  | p :: ps => p.weight + totalWeight ps

theorem totalWeight_append (ps qs : List Part) : totalWeight (ps ++ qs) = totalWeight ps + totalWeight qs := by
  induction ps with
  | nil => exact (Nat.zero_add _).symm
  | cons p ps ih => rw [List.cons_append, totalWeight, totalWeight, ih, Nat.add_assoc]

/-- From a state in which tasks stand for a part, the steps come to tasks that stand for what takes its place. Where
there are no steps, what takes its place weighs less. -/
def Follows (cfg : Settings) (p : Part) (s : State) (ts : List Task) : Outcome (List Part) → Prop
  | .done qs m => ∃ us m', StandFor qs us ∧ LogAside cfg cfg m' m ∧ (Later cfg (.executing (us ++ ts) m') s ∨
      s = .executing (us ++ ts) m' ∧ totalWeight qs < p.weight)
  | .failed f m => ∃ m', LogAside cfg cfg m' m ∧ Steps cfg s (.failing f ts m')
  | .outOfFuel => False

/-- A value is evaluated and delivered. -/
theorem follows_eval {p : Part} {s : State} {ts : List Task} {e : Node} {purpose : Purpose} {g : Value → List Part}
    (hm : LogAside cfg cfg m₁ m₂) (hs : Steps cfg s (.evaluating e [] purpose ts m₁))
    (hg : ∀ v m₁ m₂, LogAside cfg cfg m₁ m₂ → ∃ us m', StandFor (g v) us ∧ LogAside cfg cfg m' m₂ ∧
      Steps cfg (deliver cfg v ts m₁ purpose) (.executing (us ++ ts) m')) :
    Follows cfg p s ts ((eval cfg e >>= fun v => Pure.pure (g v)) m₂) := by
  have hlead := @eval_leads cfg e [] purpose ts m₁
  have halike := eval_alike_logAside rfl e m₁ m₂ hm
  have hends := eval_ends cfg e m₂
  rw [bind_apply]
  generalize eval cfg e m₁ = o₁ at hlead halike
  generalize eval cfg e m₂ = o₂ at halike hends
  cases halike with
  | outOfFuel => exact absurd rfl hends
  | failed f h => exact ⟨_, h, hs.trans hlead⟩
  | done v h =>
      obtain ⟨us, m', hus, hm', hsteps⟩ := hg v _ _ h
      exact ⟨us, m', hus, hm', .inl (((hs.trans hlead).later rfl).steps hsteps)⟩

/-- Without a scope of its own, a block puts its statements in its place. -/
theorem step_block (hflat : cfg.blockScopes = false) (body : List Node) (ts : List Task)
    (hm : LogAside cfg cfg m₁ m₂) : ∃ m', LogAside cfg cfg m' m₂ ∧
      step cfg (.executing (.statement (.block body) :: ts) m₁) = some (.executing (body.map .statement ++ ts) m') := by
  refine ⟨_, (hm.noted (.executing (Node.block body).kind)).noted (.enteredBlock body.length), ?_⟩
  simp only [step, perform, begin, hflat, Bool.false_eq_true, if_false]

theorem clauses_follow (hflat : cfg.blockScopes = false) (cs : List (Expr × List Stmt)) (last : Option (List Stmt))
    (ts : List Task) (hm : LogAside cfg cfg m₁ m₂) :
    Follows cfg (.clauses cs last) (.executing ((Part.clauses cs last).nodes.map .statement ++ ts) m₁) ts
      ((Part.clauses cs last).next cfg m₂) := by
  cases cs with
  | nil =>
      cases last with
      | none => exact ⟨[], m₁, .nil, hm, .inr ⟨rfl, Nat.one_pos⟩⟩
      | some body =>
          obtain ⟨m', hm', hstep⟩ := step_block hflat (bodyNodes body) ts hm
          exact ⟨_, m', standFor_statements body, hm', .inl ((Steps.refl _).later hstep)⟩
  | cons c rest =>
      obtain ⟨condition, body⟩ := c
      refine follows_eval (hm.noted _) (.one rfl) fun v m₁ m₂ hm => ?_
      simp only [deliver]
      by_cases hv : v.truthy
      · rw [if_pos hv, if_pos hv]
        obtain ⟨m', hm', hstep⟩ := step_block hflat (bodyNodes body) ts (hm.noted (.testedBranch v))
        exact ⟨_, m', standFor_statements body, hm', .one hstep⟩
      · rw [if_neg hv, if_neg hv]
        refine ⟨_, _, standFor_one (.nodes (.clauses rest last)), hm.noted (.testedBranch v), ?_⟩
        cases rest with
        | cons c rest => exact .refl _
        | nil =>
            cases last with
            | none => exact .refl _
            | some body => exact .refl _

theorem rounds_follow (hflat : cfg.blockScopes = false) (condition : Expr) (body : List Stmt) (update : Option Expr)
    {s : State} (ts : List Task) (hm : LogAside cfg cfg m₁ m₂)
    (hs : Steps cfg s (.evaluating condition.toNode []
      (.test condition.toNode (.block (roundNodes body update))) ts m₁)) :
    Follows cfg (.rounds condition body update) s ts ((Part.rounds condition body update).next cfg m₂) := by
  refine follows_eval hm hs fun v m₁ m₂ hm => ?_
  simp only [deliver]
  by_cases hv : v.truthy
  · rw [if_pos hv, if_pos hv]
    obtain ⟨m', hm', hstep⟩ := step_block hflat (roundNodes body update)
      (.round condition.toNode (.block (roundNodes body update)) :: ts) (hm.noted (.testedLoop v))
    refine ⟨_, m', (standFor_round body update).append (standFor_one (.round condition body update)), hm', ?_⟩
    rw [List.append_assoc]
    exact .one hstep
  · rw [if_neg hv, if_neg hv]
    exact ⟨[], _, .nil, hm.noted (.testedLoop v), .refl _⟩

/-- A statement that holds no statements may have no nodes, and then there are no steps. -/
theorem simple_follow {s : Stmt} (ts : List Task) (hm : LogAside cfg cfg m₁ m₂)
    (hends : (inOrder (exec cfg 1) s.toNodes >>= fun _ => Pure.pure ([] : List Part)).Ends) :
    Follows cfg (.statement s) (.executing (s.toNodes.map .statement ++ ts) m₁) ts
      ((inOrder (exec cfg 1) s.toNodes >>= fun _ => Pure.pure []) m₂) := by
  have hlead := inOrder_leads (exec_followed cfg 1) s.toNodes ts m₁
  have hnodes : (inOrder (exec cfg 1) s.toNodes).Alike (LogAside cfg cfg) (inOrder (exec cfg 1) s.toNodes) :=
    inOrder_alike fun node _ => exec_alike_logAside rfl 1 node
  have halike := hnodes m₁ m₂ hm
  have hends₂ := hends m₂
  rw [bind_apply] at hends₂ ⊢
  generalize inOrder (exec cfg 1) s.toNodes m₁ = o₁ at hlead halike
  generalize inOrder (exec cfg 1) s.toNodes m₂ = o₂ at halike hends₂
  cases halike with
  | outOfFuel => exact absurd rfl hends₂
  | failed f h => exact ⟨_, h, hlead⟩
  | done a h =>
      refine ⟨[], _, .nil, h, ?_⟩
      rcases Relation.reflTransGen_iff_eq_or_transGen.1 hlead with heq | hlater
      · exact .inr ⟨heq.symm, Nat.two_pos⟩
      · exact .inl hlater

theorem statement_follows (hflat : cfg.blockScopes = false) (s : Stmt) (ts : List Task)
    (hm : LogAside cfg cfg m₁ m₂) :
    Follows cfg (.statement s) (.executing (s.toNodes.map .statement ++ ts) m₁) ts
      ((Part.statement s).next cfg m₂) := by
  cases s with
  | branch condition body otherwise =>
      rw [Stmt.toNodes, otherwise.toNode_eq]
      have hstands := standFor_one (.nodes (.clauses ((condition, body) :: otherwise.clauses) otherwise.last))
      exact ⟨_, m₁, hstands, hm, .inr ⟨rfl, Nat.one_lt_two⟩⟩
  | loop condition body =>
      have hround : roundNodes body none = bodyNodes body := List.append_nil _
      rw [Stmt.toNodes, ← hround]
      exact ⟨_, m₁, standFor_one (.nodes (.rounds condition body none)), hm, .inr ⟨rfl, Nat.one_lt_two⟩⟩
  | count init condition update body =>
      obtain ⟨m', hm', hstep⟩ := step_block hflat [.exprStmt init.toNode,
        .loop condition.toNode (.block (bodyNodes body ++ [.exprStmt update.toNode]))] ts hm
      have hrounds := standFor_one (.nodes (.rounds condition body (some update)))
      have hstands := StandFor.cons (.nodes (.value init)) hrounds
      exact ⟨_, m', hstands, hm', .inl ((Steps.refl _).later hstep)⟩
  | declare type items => exact simple_follow ts hm (next_ends cfg (.statement (.declare type items)))
  | print e => exact simple_follow ts hm (next_ends cfg (.statement (.print e)))
  | input names => exact simple_follow ts hm (next_ends cfg (.statement (.input names)))
  | expr e => exact simple_follow ts hm (next_ends cfg (.statement (.expr e)))

theorem next_follows (hflat : cfg.blockScopes = false) {p : Part} {ts₁ : List Task} (hp : p.Stands ts₁)
    (ts : List Task) (hm : LogAside cfg cfg m₁ m₂) :
    Follows cfg p (.executing (ts₁ ++ ts) m₁) ts (p.next cfg m₂) := by
  cases hp with
  | round condition body update => exact rounds_follow hflat condition body update ts hm (.one rfl)
  | nodes =>
      cases p with
      | value e =>
          refine follows_eval (hm.noted _) (.one rfl) fun v m₁ m₂ hm => ?_
          exact ⟨[], m₁, .nil, hm, .refl _⟩
      | statement s => exact statement_follows hflat s ts hm
      | clauses cs last => exact clauses_follow hflat cs last ts hm
      | rounds condition body update => exact rounds_follow hflat condition body update ts (hm.noted _) (.one rfl)

/-- A state of the tree is where the written program is. -/
def Matches (cfg : Settings) (s : State) : Outcome (List Part) → Prop
  | .done ps m => ∃ ts m', s = .executing ts m' ∧ StandFor ps ts ∧ LogAside cfg cfg m' m
  | .failed f m => ∃ m', s = .failing f [] m' ∧ LogAside cfg cfg m' m
  | .outOfFuel => False

theorem advance_matches (hflat : cfg.blockScopes = false) {ps : List Part} {ts : List Task} (hps : StandFor ps ts)
    (hm : LogAside cfg cfg m₁ m₂) :
    ∃ t, Steps cfg (.executing ts m₁) t ∧ Matches cfg t (advance cfg ps m₂) := by
  cases hps with
  | nil => exact ⟨_, .refl _, [], m₁, rfl, .nil, hm⟩
  | @cons p ps ts₁ ts hp hrest =>
      have hfollow := next_follows hflat hp ts hm
      rw [advance, bind_apply]
      generalize p.next cfg m₂ = o at hfollow
      cases o with
      | outOfFuel => cases hfollow
      | failed f m =>
          obtain ⟨m', hm', hsteps⟩ := hfollow
          exact ⟨_, hsteps.trans (hrest.pass f m'), m', rfl, hm'⟩
      | done qs m =>
          obtain ⟨us, m', hqs, hm', hmove⟩ := hfollow
          have hsteps : Steps cfg (.executing (ts₁ ++ ts) m₁) (.executing (us ++ ts) m') := by
            rcases hmove with hlater | ⟨hstay, -⟩
            · exact hlater.to_reflTransGen
            · rw [hstay]
              exact .refl _
          exact ⟨_, hsteps, us ++ ts, m', rfl, hqs.append hrest, hm'⟩

theorem steps_of_forall {t : Nat → State} (h : ∀ k, Steps cfg (t k) (t (k + 1))) (k : Nat) : Steps cfg (t 0) (t k) := by
  induction k with
  | zero => exact .refl _
  | succ k ih => exact ih.trans (h k)

/-- The tree comes by where the written program is after any number of steps. -/
theorem exists_matches (hflat : cfg.blockScopes = false) {ps : List Part} {ts : List Task} (hps : StandFor ps ts)
    (hm : LogAside cfg cfg m₁ m₂) : ∃ t : Nat → State, t 0 = .executing ts m₁ ∧ (∀ k, Steps cfg (t k) (t (k + 1))) ∧
      ∀ k, Matches cfg (t k) (partsAfter cfg ps k m₂) := by
  have hnext : ∀ k s, Matches cfg s (partsAfter cfg ps k m₂) →
      ∃ t, Steps cfg s t ∧ Matches cfg t (partsAfter cfg ps (k + 1) m₂) := by
    intro k s hs
    rw [partsAfter, bind_apply]
    generalize partsAfter cfg ps k m₂ = o at hs
    cases o with
    | outOfFuel => cases hs
    | failed f m => exact ⟨s, .refl s, hs⟩
    | done qs m =>
        obtain ⟨us, m', rfl, hqs, hm'⟩ := hs
        exact advance_matches hflat hqs hm'
  have hstart : Matches cfg (.executing ts m₁) (partsAfter cfg ps 0 m₂) := ⟨ts, m₁, rfl, hps, hm⟩
  have : Nonempty State := ⟨.executing ts m₁⟩
  choose! next hsteps hmatches using hnext
  let t : Nat → State := fun k => Nat.rec (.executing ts m₁) next k
  have ht : ∀ k, Matches cfg (t k) (partsAfter cfg ps k m₂) := by
    intro k
    induction k with
    | zero => exact hstart
    | succ k ih => exact hmatches k (t k) ih
  exact ⟨t, rfl, fun k => hsteps k (t k) (ht k), ht⟩

/-- If the steps of the tree come to an end, so does the written program. -/
theorem runParts_ends (hflat : cfg.blockScopes = false) {s : State} (hs : Acc (Later cfg) s) {w : Nat}
    {ps : List Part} {ts : List Task} (hw : totalWeight ps = w) (hps : StandFor ps ts)
    (heq : s = .executing ts m₁) (hm : LogAside cfg cfg m₁ m₂) : ∃ k, runParts cfg ps k m₂ ≠ .outOfFuel := by
  -- a step of the written program moves the tree on, or the parts get lighter
  induction hs generalizing w ps ts m₁ m₂ with
  | intro s _ ih =>
      induction w using Nat.strongRecOn generalizing ps ts m₁ m₂ with
      | ind w ihw =>
          cases hps with
          | nil => exact ⟨0, Outcome.done_ne_outOfFuel () m₂⟩
          | @cons p ps ts₁ ts hp hrest =>
              have hfollow := next_follows hflat hp ts hm
              cases ho : p.next cfg m₂ with
              | outOfFuel => exact absurd ho (next_ends cfg p m₂)
              | failed f m => exact ⟨1, runParts_cons_of_failed ho⟩
              | done qs m =>
                  rw [ho] at hfollow
                  obtain ⟨us, m', hqs, hm', hlater | ⟨hstay, hless⟩⟩ := hfollow
                  · obtain ⟨k, hk⟩ := ih _ (heq ▸ hlater) rfl (hqs.append hrest) rfl hm'
                    exact ⟨k + 1, runParts_cons_of_done ho hk⟩
                  · have hlighter : totalWeight (qs ++ ps) < w := by
                      rw [← hw, totalWeight_append, totalWeight]
                      exact Nat.add_lt_add_right hless _
                    obtain ⟨k, hk⟩ := ihw _ hlighter rfl (hqs.append hrest) (heq.trans hstay) hm'
                    exact ⟨k + 1, runParts_cons_of_done ho hk⟩

end

/-- With any fuel that is enough an action ends in a certain way, its log aside. It runs out of fuel in this sense if
no fuel is enough. -/
def Settles (x : Nat → Exec Unit) (m : Machine) (o : Outcome Unit) : Prop := ∃ n, ∀ k, n ≤ k → (x k m).quiet = o

theorem Outcome.quiet_eq_outOfFuel {α : Type} {o : Outcome α} : o.quiet = .outOfFuel ↔ o = .outOfFuel := by
  cases o <;> simp [quiet]

theorem settles_iff {x : Nat → Exec Unit} (hx : ∀ {n k}, n ≤ k → (x n).Extends (x k)) {m : Machine}
    {o : Outcome Unit} : Settles x m o ↔
      (∃ n, x n m ≠ .outOfFuel ∧ (x n m).quiet = o) ∨ (∀ n, x n m = .outOfFuel) ∧ o = .outOfFuel := by
  constructor
  · rintro ⟨n, hn⟩
    by_cases hends : ∃ k, x k m ≠ .outOfFuel
    · obtain ⟨k, hk⟩ := hends
      refine .inl ⟨k, hk, ?_⟩
      rw [← hx (Nat.le_max_left k n) m hk]
      exact hn _ (Nat.le_max_right k n)
    · have hnever : ∀ k, x k m = .outOfFuel := by simpa using hends
      refine .inr ⟨hnever, ?_⟩
      rw [← hn n (Nat.le_refl n), hnever n]
      rfl
  · rintro (⟨n, hn, rfl⟩ | ⟨hnever, rfl⟩)
    · exact ⟨n, fun k hk => by rw [hx hk m hn]⟩
    · exact ⟨0, fun k _ => by rw [hnever k]; rfl⟩

/-- Two actions settle in the same way if an ending of the second is one of the first, and the second ends where the
first does. -/
theorem settles_congr {x y : Nat → Exec Unit} (hx : ∀ {n k}, n ≤ k → (x n).Extends (x k))
    (hy : ∀ {n k}, n ≤ k → (y n).Extends (y k)) {m : Machine}
    (hyx : ∀ k, y k m ≠ .outOfFuel → ∃ n, (x n m).quiet = (y k m).quiet)
    (hxy : ∀ n, x n m ≠ .outOfFuel → ∃ k, y k m ≠ .outOfFuel) {o : Outcome Unit} :
    Settles x m o ↔ Settles y m o := by
  have hends (k : Nat) (hk : y k m ≠ .outOfFuel) : ∃ n, x n m ≠ .outOfFuel ∧ (x n m).quiet = (y k m).quiet := by
    obtain ⟨n, hn⟩ := hyx k hk
    refine ⟨n, fun hfuel => hk ?_, hn⟩
    rw [← Outcome.quiet_eq_outOfFuel, ← hn, hfuel]
    rfl
  rw [settles_iff hx, settles_iff hy]
  constructor
  · rintro (⟨n, hn, rfl⟩ | ⟨hnever, rfl⟩)
    · obtain ⟨k, hk⟩ := hxy n hn
      obtain ⟨j, hj, hquiet⟩ := hends k hk
      have hsame : x n m = x j m := by
        rw [← hx (Nat.le_max_left n j) m hn, hx (Nat.le_max_right n j) m hj]
      exact .inl ⟨k, hk, by rw [hsame, hquiet]⟩
    · refine .inr ⟨fun k => ?_, rfl⟩
      by_contra hk
      obtain ⟨n, hn, -⟩ := hends k hk
      exact hn (hnever n)
  · rintro (⟨k, hk, rfl⟩ | ⟨hnever, rfl⟩)
    · exact .inl (hends k hk)
    · refine .inr ⟨fun n => ?_, rfl⟩
      by_contra hn
      obtain ⟨k, hk⟩ := hxy n hn
      exact hk (hnever k)

section

variable {cfg : Settings} {m : Machine} {ps : List Part} {nodes : List Node}

theorem exists_inOrder_quiet_eq (hflat : cfg.blockScopes = false) (hm : m.KeepsOutput cfg)
    (hps : StandFor ps (nodes.map .statement)) {k : Nat} (hk : runParts cfg ps k m ≠ .outOfFuel) :
    ∃ n, (inOrder (exec cfg n) nodes m).quiet = (runParts cfg ps k m).quiet := by
  obtain ⟨t, ht, hsteps, hmatches⟩ := exists_matches hflat hps hm.logAside
  have hreach : Steps cfg (.executing (nodes.map .statement) m) (t k) := ht ▸ steps_of_forall hsteps k
  have hmatch := hmatches k
  rcases runParts_ne_outOfFuel hk with ⟨m', hafter, hrun⟩ | ⟨f, m', hafter, hrun⟩
  · rw [hafter] at hmatch
    obtain ⟨ts, m'', hstate, hts, hm''⟩ := hmatch
    cases hts
    rw [hstate] at hreach
    obtain ⟨n, ⟨m₁, hn, heq⟩ | ⟨f, m₁, hn, heq⟩⟩ := inOrder_of_final hreach rfl
    · cases heq
      refine ⟨n, ?_⟩
      rw [hn, hrun, Outcome.quiet, Outcome.quiet, hm''.same.quiet_eq]
    · cases heq
  · rw [hafter] at hmatch
    obtain ⟨m'', hstate, hm''⟩ := hmatch
    rw [hstate] at hreach
    obtain ⟨n, ⟨m₁, hn, heq⟩ | ⟨f, m₁, hn, heq⟩⟩ := inOrder_of_final hreach rfl
    · cases heq
    · cases heq
      refine ⟨n, ?_⟩
      rw [hn, hrun, Outcome.quiet, Outcome.quiet, hm''.same.quiet_eq]

theorem exists_runParts_ends (hflat : cfg.blockScopes = false) (hm : m.KeepsOutput cfg)
    (hps : StandFor ps (nodes.map .statement)) {n : Nat} (hn : inOrder (exec cfg n) nodes m ≠ .outOfFuel) :
    ∃ k, runParts cfg ps k m ≠ .outOfFuel := by
  have hlead := inOrder_leads (exec_followed cfg n) nodes [] m
  rw [List.append_nil] at hlead
  have hacc : Acc (Later cfg) (.executing (nodes.map .statement) m) := by
    cases h : inOrder (exec cfg n) nodes m with
    | outOfFuel => exact absurd h hn
    | done a m' =>
        rw [h] at hlead
        exact acc_of_final hlead rfl
    | failed f m' =>
        rw [h] at hlead
        exact acc_of_final hlead rfl
  exact runParts_ends hflat hacc rfl hps rfl hm.logAside

end

/-- Where blocks have no scopes of their own, and messages go to the debug log if there are any, the tree of a program
does what the program says as it is written. Both end in the same way on the same machine but for the log, or both do
not end; and the tree comes by the machine of the written program after each of its steps, in their order. -/
theorem bodyNodes_run_as_written {cfg : Settings} {m : Machine} (hflat : cfg.blockScopes = false)
    (hm : m.KeepsOutput cfg) (body : List Stmt) :
    (∀ o, Settles (fun n => inOrder (exec cfg n) (bodyNodes body)) m o ↔
      Settles (runParts cfg (body.map .statement)) m o) ∧
    ∃ t : Nat → State, t 0 = .executing ((bodyNodes body).map .statement) m ∧ (∀ k, Steps cfg (t k) (t (k + 1))) ∧
      ∀ k ps m', partsAfter cfg (body.map .statement) k m = .done ps m' → (t k).machine.quiet = m'.quiet := by
  have hps := standFor_statements body
  have htree {n k : Nat} (h : n ≤ k) :
      (inOrder (exec cfg n) (bodyNodes body)).Extends (inOrder (exec cfg k) (bodyNodes body)) :=
    inOrder_extends (exec_extends cfg h) _
  constructor
  · intro o
    apply settles_congr htree (runParts_extends cfg _)
    · exact fun k hk => exists_inOrder_quiet_eq hflat hm hps hk
    · exact fun n hn => exists_runParts_ends hflat hm hps hn
  · obtain ⟨t, ht, hsteps, hmatches⟩ := exists_matches hflat hps hm.logAside
    refine ⟨t, ht, hsteps, fun k ps m' hafter => ?_⟩
    have hmatch := hmatches k
    rw [hafter] at hmatch
    obtain ⟨ts, m'', hstate, -, hm''⟩ := hmatch
    rw [hstate]
    exact hm''.same.quiet_eq

/-- A loop that counts in letters. In each of its rounds a chain with three ends chooses what to print. -/
def letterLoop : List Stmt :=
  [.count (.assign "i" (.text "a")) (.binary .ne (.var "i") (.text "aaa"))
    (.assign "i" (.binary .concat (.var "i") (.text "a")))
    [.branch (.binary .eq (.var "i") (.text "b")) [.print (.text "none")]
      (.branch (.binary .eq (.var "i") (.text "aa")) [.print (.text "two")] (.block [.print (.text "one")]))]]

theorem bodyNodes_run_as_written_letterLoop : ∃ m,
    Settles (fun n => inOrder (exec { level := 3 } n) (bodyNodes letterLoop)) (.fresh []) (.done () m) ∧
      m.output = "onetwo" ∧ m.scope.get? "i" = some (.text "aaa") := by
  have hwritten : Settles (runParts { level := 3 } (letterLoop.map .statement)) (.fresh [])
      (.done () { scope := ⟨.ofList [("i", .text "aaa")], []⟩, output := "onetwo" }) := by
    rw [settles_iff (runParts_extends _ _)]
    exact .inl ⟨17, by decide +kernel, by decide +kernel⟩
  have hkeeps : (Machine.fresh []).KeepsOutput { level := 3 } := .inr rfl
  have hboth := (bodyNodes_run_as_written rfl hkeeps letterLoop).1
  exact ⟨_, (hboth _).2 hwritten, rfl, by decide +kernel⟩

end Binisaya
