import Mathlib.Logic.Function.Iterate
import Binisaya.Proofs.Stepwise.Follow

/-! The steps of a run tell how it ends. A program ends well with some fuel exactly if its steps come to a state
with nothing left to do, and fails exactly if they come to a failure that has passed all tasks. No fuel is enough
exactly if there is no end to the steps. -/

namespace Binisaya.Stepwise

variable {cfg : Settings}

/-- The first state comes after the second, at least one step later. -/
def Later (cfg : Settings) (t s : State) : Prop := Relation.TransGen (fun s t => step cfg s = some t) s t

theorem Steps.later {s t u : State} (hst : Steps cfg s t) (h : step cfg t = some u) : Later cfg u s :=
  Relation.TransGen.tail' hst h

theorem Later.steps {s t u : State} (h : Later cfg t s) (htu : Steps cfg t u) : Later cfg u s :=
  Relation.TransGen.trans_left h htu

theorem Later.next {s t u : State} (h : Later cfg t s) (htu : step cfg t = some u) : Later cfg u s :=
  Relation.TransGen.tail h htu

/-- Steps are determined, so what comes after a state comes after the state that follows it. -/
theorem Later.of_step {s t u : State} (h : Later cfg u s) (hst : step cfg s = some t) : Steps cfg t u := by
  obtain ⟨t', ht', hu⟩ := Relation.TransGen.head'_iff.1 h
  obtain rfl : t = t' := Option.some.inj (hst.symm.trans ht')
  exact hu

theorem acc_of_final {s t : State} (hst : Steps cfg s t) (ht : step cfg t = none) : Acc (Later cfg) s := by
  induction hst using Relation.ReflTransGen.head_induction_on with
  | refl =>
      refine ⟨_, fun u hu => ?_⟩
      obtain ⟨t', ht', -⟩ := Relation.TransGen.head'_iff.1 hu
      rw [ht] at ht'
      cases ht'
  | head h _ ih =>
      refine ⟨_, fun u hu => ?_⟩
      rcases Relation.reflTransGen_iff_eq_or_transGen.1 (hu.of_step h) with heq | hlater
      · rwa [heq]
      · exact ih.inv hlater

section

variable {α β : Type}

theorem noted_ne_outOfFuel {msg : Message} {x : Exec α} {m : Machine} (h : x (noted cfg msg m) ≠ .outOfFuel) :
    (Exec.note cfg msg >>= fun _ => x) m ≠ .outOfFuel := by
  rwa [note_bind]

/-- Two actions in sequence end with some fuel if each does on its own. -/
theorem exists_bind_ends {x : Nat → Exec α} {f : Nat → α → Exec β} {m : Machine}
    (hx : ∀ {n k}, n ≤ k → (x n).Extends (x k)) (hf : ∀ {n k} a, n ≤ k → (f n a).Extends (f k a))
    (hends : ∃ n, x n m ≠ .outOfFuel) (hnext : ∀ n a m', x n m = .done a m' → ∃ k, f k a m' ≠ .outOfFuel) :
    ∃ n, (x n >>= f n) m ≠ .outOfFuel := by
  obtain ⟨n, hn⟩ := hends
  cases h : x n m with
  | done a m' =>
      obtain ⟨k, hk⟩ := hnext n a m' h
      have hmore : x (max n k) m = .done a m' := by rw [hx (Nat.le_max_left n k) m hn, h]
      exact ⟨max n k, Exec.bind_ne_outOfFuel hmore (by rwa [hf a (Nat.le_max_right n k) m' hk])⟩
  | failed e m' => exact ⟨n, Exec.bind_ne_outOfFuel_of_failed h⟩
  | outOfFuel => exact absurd h hn

end

/-- What is to be shown of a state from which the steps come to an end: the statement or the loop at hand ends. -/
structure Ending (cfg : Settings) (s : State) : Prop where
  statement : ∀ {a ts m}, s = .executing (.statement a :: ts) m → ∃ n, exec cfg n a m ≠ .outOfFuel
  loop : ∀ {condition body ts m}, s = .evaluating condition [] (.test condition body) ts m →
    ∃ n, repeatWhile cfg condition (exec cfg n body) n m ≠ .outOfFuel

theorem inOrder_ends {s : State} (ih : ∀ t, Later cfg t s → Ending cfg t) (body : List Node) {ts : List Task}
    {m : Machine} (hs : Later cfg (.executing (body.map .statement ++ ts) m) s) :
    ∃ n, inOrder (exec cfg n) body m ≠ .outOfFuel := by
  induction body generalizing m with
  | nil => exact ⟨0, Outcome.done_ne_outOfFuel () m⟩
  | cons b rest ihrest =>
      refine exists_bind_ends (fun h => exec_extends cfg h b) (fun _ h => inOrder_extends (exec_extends cfg h) rest)
        ((ih _ hs).statement rfl) fun n a m' ha => ihrest ?_
      have hlead := exec_followed cfg n b (rest.map .statement ++ ts) m
      rw [ha] at hlead
      exact hs.steps hlead

theorem repeatWhile_ends {condition body : Node} {ts : List Task} {m : Machine}
    (ih : ∀ t, Later cfg t (.evaluating condition [] (.test condition body) ts m) → Ending cfg t) :
    ∃ n, repeatWhile cfg condition (exec cfg n body) n m ≠ .outOfFuel := by
  have hlead := @eval_leads cfg condition [] (.test condition body) ts m
  cases hv : eval cfg condition m with
  | outOfFuel => exact absurd hv (eval_ends cfg condition m)
  | failed f m' => exact ⟨1, Exec.bind_ne_outOfFuel_of_failed hv⟩
  | done v m' =>
      rw [hv] at hlead
      have hdeliver := hlead.later rfl
      simp only [deliver] at hdeliver
      by_cases ht : v.truthy
      · rw [if_pos ht] at hdeliver
        -- a round of the body and the loop after it, each with some fuel
        obtain ⟨n, hn⟩ := exists_bind_ends (f := fun n _ => repeatWhile cfg condition (exec cfg n body) n)
          (fun h => exec_extends cfg h body)
          (fun {n k} _ h => by
            obtain ⟨d, rfl⟩ := Nat.exists_eq_add_of_le h
            exact repeatWhile_extends cfg condition (exec_extends cfg h body) n d)
          ((ih _ hdeliver).statement rfl) fun n _ m₁ h₁ => by
            have hround := exec_followed cfg n body (.round condition body :: ts) (noted cfg (.testedLoop v) m')
            rw [h₁] at hround
            exact (ih _ ((hdeliver.steps hround).next rfl)).loop rfl
        have hmore : (exec cfg n body >>= fun _ => repeatWhile cfg condition (exec cfg n body) n).Extends
            (exec cfg (n + 1) body >>= fun _ => repeatWhile cfg condition (exec cfg (n + 1) body) n) :=
          (exec_extends_succ cfg n body).bind fun _ => repeatWhile_extends cfg condition (exec_extends_succ cfg n body) n 0
        refine ⟨n + 1, Exec.bind_ne_outOfFuel hv (noted_ne_outOfFuel ?_)⟩
        rw [if_pos ht, hmore _ hn]
        exact hn
      · refine ⟨1, Exec.bind_ne_outOfFuel hv (noted_ne_outOfFuel ?_)⟩
        rw [if_neg ht]
        exact Outcome.done_ne_outOfFuel () _

theorem block_ends {body : List Node} {ts : List Task} {m : Machine}
    (ih : ∀ t, Later cfg t (.executing (.statement (.block body) :: ts) m) → Ending cfg t) :
    ∃ n, exec cfg n (.block body) m ≠ .outOfFuel := by
  have hbegin : Later cfg (begin cfg ts (noted cfg (.executing (Node.block body).kind) m) (.block body))
      (.executing (.statement (.block body) :: ts) m) := (Steps.refl _).later rfl
  simp only [begin] at hbegin
  by_cases hb : cfg.blockScopes
  · rw [if_pos hb] at hbegin
    obtain ⟨n, hn⟩ := inOrder_ends ih body hbegin
    refine ⟨n + 1, noted_ne_outOfFuel ?_⟩
    simp only [inBlock, if_pos hb]
    exact Exec.afterwards_ne_outOfFuel (noted_ne_outOfFuel hn)
  · rw [if_neg hb] at hbegin
    obtain ⟨n, hn⟩ := inOrder_ends ih body hbegin
    refine ⟨n + 1, noted_ne_outOfFuel ?_⟩
    simp only [inBlock, if_neg hb]
    exact noted_ne_outOfFuel hn

theorem branch_ends {condition yes no : Node} {ts : List Task} {m : Machine}
    (ih : ∀ t, Later cfg t (.executing (.statement (.branch condition yes no) :: ts) m) → Ending cfg t) :
    ∃ n, exec cfg n (.branch condition yes no) m ≠ .outOfFuel := by
  have hlead := @eval_leads cfg condition [] (.choose yes no) ts
    (noted cfg (.executing (Node.branch condition yes no).kind) m)
  have hbegin : step cfg (.executing (.statement (.branch condition yes no) :: ts) m) = some (.evaluating condition []
    (.choose yes no) ts (noted cfg (.executing (Node.branch condition yes no).kind) m)) := rfl
  cases hv : eval cfg condition (noted cfg (.executing (Node.branch condition yes no).kind) m) with
  | outOfFuel => exact absurd hv (eval_ends cfg condition _)
  | failed f m' => exact ⟨1, noted_ne_outOfFuel (Exec.bind_ne_outOfFuel_of_failed hv)⟩
  | done v m' =>
      rw [hv] at hlead
      have hdeliver := (Steps.head hbegin hlead).later rfl
      simp only [deliver] at hdeliver
      by_cases ht : v.truthy
      · rw [if_pos ht] at hdeliver
        obtain ⟨n, hn⟩ := (ih _ hdeliver).statement rfl
        refine ⟨n + 1, noted_ne_outOfFuel (Exec.bind_ne_outOfFuel hv (noted_ne_outOfFuel ?_))⟩
        rwa [if_pos ht]
      · rw [if_neg ht] at hdeliver
        cases no with
        | null =>
            refine ⟨1, noted_ne_outOfFuel (Exec.bind_ne_outOfFuel hv (noted_ne_outOfFuel ?_))⟩
            rw [if_neg ht]
            exact Outcome.done_ne_outOfFuel () _
        | _ =>
            obtain ⟨n, hn⟩ := (ih _ hdeliver).statement rfl
            refine ⟨n + 1, noted_ne_outOfFuel (Exec.bind_ne_outOfFuel hv (noted_ne_outOfFuel ?_))⟩
            rwa [if_neg ht]

theorem ending_of_acc {s : State} (h : Acc (Later cfg) s) : Ending cfg s := by
  induction h with
  | intro s _ ih =>
      refine ⟨?_, ?_⟩
      · rintro a ts m rfl
        cases a with
        | block body => exact block_ends ih
        | branch condition yes no => exact branch_ends ih
        | loop condition body =>
            obtain ⟨n, hn⟩ := (ih _ ((Steps.refl _).later rfl)).loop rfl
            exact ⟨n + 1, noted_ne_outOfFuel hn⟩
        | _ => exact ⟨1, exec_one_ends cfg rfl m⟩
      · rintro condition body ts m rfl
        exact repeatWhile_ends ih

theorem run_ends {p : Node} {m : Machine} {t : State} (hst : Steps cfg (.start p m) t) (ht : step cfg t = none) :
    ∃ n, run cfg n p m ≠ .outOfFuel := by
  cases p with
  | program types body =>
      have ih : ∀ u, Later cfg u (.start (.program types body) m) → Ending cfg u := fun u hu =>
        ending_of_acc ((acc_of_final hst ht).inv hu)
      obtain ⟨n, hn⟩ := inOrder_ends ih body ((Steps.refl _).later rfl)
      refine ⟨n, Exec.afterwards_ne_outOfFuel (noted_ne_outOfFuel ?_)⟩
      cases h : inOrder (exec cfg n) body _ with
      | outOfFuel => exact absurd h hn
      | failed f m' => exact Exec.bind_ne_outOfFuel_of_failed h
      | done a m' =>
          refine Exec.bind_ne_outOfFuel h ?_
          cases cfg.banner with
          | true => exact Outcome.done_ne_outOfFuel () _
          | false => exact Outcome.done_ne_outOfFuel () m'
  | _ => exact ⟨0, Outcome.failed_ne_outOfFuel _ m⟩

/-- Steps that end at two final states end at one. -/
theorem Steps.final_unique {s t u : State} (ht : Steps cfg s t) (hu : Steps cfg s u) (htf : step cfg t = none)
    (huf : step cfg u = none) : t = u := by
  induction ht using Relation.ReflTransGen.head_induction_on with
  | refl =>
      rcases Relation.ReflTransGen.cases_head hu with rfl | ⟨v, hv, -⟩
      · rfl
      · rw [htf] at hv
        cases hv
  | head h _ ih =>
      rcases Relation.ReflTransGen.cases_head hu with rfl | ⟨v, hv, hvu⟩
      · rw [huf] at h
        cases h
      · obtain rfl := Option.some.inj (h.symm.trans hv)
        exact ih hvu

/-- Steps from a state end at a final state, or there is no end to them. -/
theorem final_or_endless (cfg : Settings) (s : State) : (∃ t, Steps cfg s t ∧ step cfg t = none) ∨ Endless cfg s := by
  by_cases h : ∃ t, Steps cfg s t ∧ step cfg t = none
  · exact .inl h
  · let next := fun t => (step cfg t).getD t
    have hnext : ∀ t, Steps cfg s t → step cfg t = some (next t) := by
      intro t ht
      cases hstep : step cfg t with
      | none => exact absurd ⟨t, ht, hstep⟩ h
      | some u => simp only [next, hstep, Option.getD_some]
    have hreach : ∀ i, Steps cfg s (next^[i] s) := by
      intro i
      induction i with
      | zero => exact .refl s
      | succ i ih =>
          rw [Function.iterate_succ_apply']
          exact ih.trans (.one (hnext _ ih))
    refine .inr ⟨fun i => next^[i] s, rfl, fun i => ?_⟩
    rw [hnext _ (hreach i), ← Function.iterate_succ_apply' next i s]

/-- A final state that the steps of a program come to is how the program ends with some fuel. -/
theorem run_of_final {p : Node} {m : Machine} {t : State} (hst : Steps cfg (.start p m) t) (ht : step cfg t = none) :
    ∃ n, (∃ m', run cfg n p m = .done () m' ∧ t = .executing [] m') ∨
      ∃ f m', run cfg n p m = .failed f m' ∧ t = .failing f [] m' := by
  obtain ⟨n, hn⟩ := run_ends hst ht
  have hlead := @run_leads cfg n p [] m
  cases h : run cfg n p m with
  | done a m' =>
      rw [h] at hlead
      exact ⟨n, .inl ⟨m', h, hst.final_unique hlead ht rfl⟩⟩
  | failed f m' =>
      rw [h] at hlead
      exact ⟨n, .inr ⟨f, m', h, hst.final_unique hlead ht rfl⟩⟩
  | outOfFuel => exact absurd h hn

/-- A final state that the steps of statements come to is how the statements end with some fuel. -/
theorem inOrder_of_final {body : List Node} {m : Machine} {t : State}
    (hst : Steps cfg (.executing (body.map .statement) m) t) (ht : step cfg t = none) :
    ∃ n, (∃ m', inOrder (exec cfg n) body m = .done () m' ∧ t = .executing [] m') ∨
      ∃ f m', inOrder (exec cfg n) body m = .failed f m' ∧ t = .failing f [] m' := by
  -- a task that does nothing makes the first state one that comes after another
  have hbefore : Steps cfg (.executing (.fields [] :: (body.map .statement ++ [])) m) t := by
    refine Steps.head rfl ?_
    rwa [perform, List.append_nil]
  have ih : ∀ u, Later cfg u (.executing (.fields [] :: (body.map .statement ++ [])) m) → Ending cfg u := fun u hu =>
    ending_of_acc ((acc_of_final hbefore ht).inv hu)
  obtain ⟨n, hn⟩ := inOrder_ends ih body ((Steps.refl _).later rfl)
  have hlead := inOrder_leads (exec_followed cfg n) body [] m
  rw [List.append_nil] at hlead
  cases h : inOrder (exec cfg n) body m with
  | done a m' =>
      rw [h] at hlead
      exact ⟨n, .inl ⟨m', h, hst.final_unique hlead ht rfl⟩⟩
  | failed f m' =>
      rw [h] at hlead
      exact ⟨n, .inr ⟨f, m', h, hst.final_unique hlead ht rfl⟩⟩
  | outOfFuel => exact absurd h hn

theorem run_done_iff {p : Node} {m m' : Machine} :
    (∃ n, run cfg n p m = .done () m') ↔ Steps cfg (.start p m) (.executing [] m') := by
  constructor
  · rintro ⟨n, hn⟩
    have hlead := @run_leads cfg n p [] m
    rwa [hn] at hlead
  · intro h
    obtain ⟨n, ⟨m'', hn, heq⟩ | ⟨f, m'', hn, heq⟩⟩ := run_of_final h rfl
    · cases heq
      exact ⟨n, hn⟩
    · cases heq

theorem run_failed_iff {p : Node} {m m' : Machine} {f : Failure} :
    (∃ n, run cfg n p m = .failed f m') ↔ Steps cfg (.start p m) (.failing f [] m') := by
  constructor
  · rintro ⟨n, hn⟩
    have hlead := @run_leads cfg n p [] m
    rwa [hn] at hlead
  · intro h
    obtain ⟨n, ⟨m'', hn, heq⟩ | ⟨f', m'', hn, heq⟩⟩ := run_of_final h rfl
    · cases heq
    · cases heq
      exact ⟨n, hn⟩

/-- Steps without end do not come to a final state. -/
theorem Endless.not_final {s t : State} (h : Endless cfg s) (hst : Steps cfg s t) : step cfg t ≠ none := by
  induction hst using Relation.ReflTransGen.head_induction_on with
  | refl =>
      obtain ⟨c, rfl, hc⟩ := h
      rw [hc 0]
      exact Option.some_ne_none _
  | head hstep _ ih =>
      obtain ⟨c, rfl, hc⟩ := h
      obtain rfl := Option.some.inj (hstep.symm.trans (hc 0))
      exact ih ⟨fun i => c (i + 1), rfl, fun i => hc (i + 1)⟩

theorem run_outOfFuel_iff {p : Node} {m : Machine} :
    (∀ n, run cfg n p m = .outOfFuel) ↔ Endless cfg (.start p m) := by
  constructor
  · intro h
    rcases final_or_endless cfg (.start p m) with ⟨t, hst, ht⟩ | hendless
    · obtain ⟨n, hn⟩ := run_ends hst ht
      exact absurd (h n) hn
    · exact hendless
  · intro h n
    have hlead := @run_leads cfg n p [] m
    cases ho : run cfg n p m with
    | outOfFuel => rfl
    | done a m' =>
        rw [ho] at hlead
        exact absurd rfl (h.not_final hlead)
    | failed f m' =>
        rw [ho] at hlead
        exact absurd rfl (h.not_final hlead)

end Binisaya.Stepwise
