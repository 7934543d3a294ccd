import Binisaya.Proofs.Scoping.Basic

/-! The level of the debug log. As long as the log is open, messages go to it and to nothing else, so two runs at
different levels go alike: they leave machines that differ in their logs only. At level 0 there are no messages, and
the log may be closed. -/

namespace Binisaya

open Exec

theorem note_of_level_zero {cfg : Settings} (hlevel : cfg.level = 0) (msg : Message) :
    note cfg msg = Pure.pure () := by
  have hquiet : ¬ msg.threshold ≤ cfg.level := by cases msg <;> simp [Message.threshold, hlevel]
  rw [note, if_neg hquiet]
  rfl

/-- The machine without its debug log. -/
def Machine.quiet (m : Machine) : Machine := { m with log := #[] }

/-- An ending without the debug log. -/
def Outcome.quiet {α : Type} : Outcome α → Outcome α
  | .done a m => .done a m.quiet
  | .failed f m => .failed f m.quiet
  | .outOfFuel => .outOfFuel

/-- Two machines differ in their logs at most. -/
def Machine.SameButLog (m₁ m₂ : Machine) : Prop := m₁ = { m₂ with log := m₁.log }

/-- Messages at a machine go to its log, if there are any. -/
def Machine.KeepsOutput (cfg : Settings) (m : Machine) : Prop := cfg.level = 0 ∨ m.logging = true

/-- Two machines differ in their logs at most, and messages go to nothing but these logs. -/
structure Machine.LogAside (cfg₁ cfg₂ : Settings) (m₁ m₂ : Machine) : Prop where
  same : m₁.SameButLog m₂
  left : m₁.KeepsOutput cfg₁
  right : m₂.KeepsOutput cfg₂

namespace Machine

variable {m₁ m₂ : Machine}

theorem SameButLog.update (h : m₁.SameButLog m₂) {f : Machine → Machine}
    (hf : ∀ m log, f { m with log := log } = { f m with log := log }) : (f m₁).SameButLog (f m₂) := by
  have hlog : (f m₁).log = m₁.log := by
    have hm : f m₁ = { f m₁ with log := m₁.log } := hf m₁ m₁.log
    rw [hm]
  rw [SameButLog, hlog, ← hf, ← h]

theorem SameButLog.quiet_eq (h : m₁.SameButLog m₂) : m₁.quiet = m₂.quiet := by
  rw [h]
  rfl

/-- A message changes nothing but the log. -/
theorem KeepsOutput.note {cfg : Settings} {m : Machine} (h : m.KeepsOutput cfg) (msg : Message) :
    ∃ log, note cfg msg m = .done () { m with log := log } := by
  rcases h with hlevel | hlogging
  · rw [note_of_level_zero hlevel]
    exact ⟨m.log, rfl⟩
  · unfold Exec.note
    split_ifs with hlevel
    · refine ⟨m.log.push msg, ?_⟩
      simp only [Exec.modify, hlogging, if_true]
    · exact ⟨m.log, rfl⟩

namespace LogAside

variable {cfg₁ cfg₂ : Settings}

theorem update (h : LogAside cfg₁ cfg₂ m₁ m₂) {f : Machine → Machine}
    (hf : ∀ m log, f { m with log := log } = { f m with log := log }) (hlogging : ∀ m, (f m).logging = m.logging) :
    LogAside cfg₁ cfg₂ (f m₁) (f m₂) := by
  refine ⟨h.same.update hf, ?_, ?_⟩
  · rw [KeepsOutput, hlogging]
    exact h.left
  · rw [KeepsOutput, hlogging]
    exact h.right

/-- Only the logs of the two machines differ. -/
theorem sharesBindings (cfg₁ cfg₂ : Settings) : SharesBindings (LogAside cfg₁ cfg₂) where
  scope hm := by rw [hm.same]
  types hm := by rw [hm.same]
  withScope hm s := hm.update (f := fun m => { m with scope := s }) (fun _ _ => rfl) fun _ => rfl
  withTypes hm t := hm.update (f := fun m => { m with types := t }) (fun _ _ => rfl) fun _ => rfl
  write hm text := hm.update (f := fun m => { m with output := m.output ++ text }) (fun _ _ => rfl) fun _ => rfl

theorem note (msg : Message) : (note cfg₁ msg).Alike (LogAside cfg₁ cfg₂) (note cfg₂ msg) := by
  intro m₁ m₂ hm
  obtain ⟨log₁, h₁⟩ := hm.left.note msg
  obtain ⟨log₂, h₂⟩ := hm.right.note msg
  rw [h₁, h₂]
  refine .done () ⟨?_, hm.left, hm.right⟩
  rw [SameButLog, hm.same]

theorem readInput (names : List String) : (readInput names).Alike (LogAside cfg₁ cfg₂) (readInput names) := by
  refine alike_readInput (fun m₁ m₂ hm => ?_) (fun m₁ m₂ hm line => ?_) (fun rest m₁ m₂ hm => ?_)
  · rw [hm.same]
  · rw [(sharesBindings cfg₁ cfg₂).typeOf_eq hm]
  · exact hm.update (f := fun m => { m with unread := rest }) (fun _ _ => rfl) fun _ => rfl

end LogAside

end Machine

open Machine

theorem Outcome.Alike.quiet_eq {α : Type} {o₁ o₂ : Outcome α} (h : o₁.Alike SameButLog o₂) : o₁.quiet = o₂.quiet := by
  cases h with
  | done a hm => rw [quiet, quiet, hm.quiet_eq]
  | failed f hm => rw [quiet, quiet, hm.quiet_eq]
  | outOfFuel => rfl

section

variable {cfg₁ cfg₂ : Settings}

/-- Two runs whose messages go to their logs go alike whatever their levels. -/
theorem statementsAlike_logAside (hcfg : cfg₁.blockScopes = cfg₂.blockScopes) :
    StatementsAlike cfg₁ cfg₂ (fun _ : Unit => LogAside cfg₁ cfg₂) fun _ _ => True :=
  (LogAside.sharesBindings cfg₁ cfg₂).statementsAlike hcfg LogAside.note LogAside.readInput

theorem eval_alike_logAside (hcfg : cfg₁.blockScopes = cfg₂.blockScopes) (e : Node) :
    (eval cfg₁ e).Alike (LogAside cfg₁ cfg₂) (eval cfg₂ e) :=
  eval_alike ((statementsAlike_logAside hcfg).expressions ()) fun _ _ => trivial

theorem exec_alike_logAside (hcfg : cfg₁.blockScopes = cfg₂.blockScopes) (n : Nat) (s : Node) :
    (exec cfg₁ n s).Alike (LogAside cfg₁ cfg₂) (exec cfg₂ n s) :=
  (statementsAlike_logAside hcfg).exec n (i := ()) fun _ _ => trivial

theorem runBody_alike_logAside (hcfg : cfg₁.blockScopes = cfg₂.blockScopes) (hbanner : cfg₁.banner = cfg₂.banner)
    (n : Nat) (body : List Node) : (runBody cfg₁ n body).Alike (LogAside cfg₁ cfg₂) (runBody cfg₂ n body) :=
  (statementsAlike_logAside hcfg).runBody hbanner n (i := ()) fun _ _ _ _ => trivial

end

/-- A run with an open debug log ends in the same way at any level of the log, but for what is in the log: with the
same output, variables, types, rest of the input and failure, or not at all. -/
theorem run_level_irrelevant (cfg : Settings) (level n : Nat) (p : Node) {m : Machine} (hm : m.logging = true) :
    (run { cfg with level := level } n p m).quiet = (run { cfg with level := 0 } n p m).quiet := by
  apply Outcome.Alike.quiet_eq
  cases p with
  | program types body =>
      have hbody := @runBody_alike_logAside { cfg with level := level } { cfg with level := 0 } rfl rfl n body
      refine hbody.afterwards (fun m₁ m₂ h => ?_) ⟨rfl, .inr hm, .inr hm⟩
      exact h.same.update (f := fun m => { m with logging := false }) fun _ _ => rfl
  | _ => exact .failed _ rfl

/-- A program that reads `x`, prints it in a branch, and then asks for a variable that there is not. -/
def strayProgram : Node :=
  .program .empty [.input ["x"], .branch (.binary "<>" (.ident "x") (.literal (.text "b") "Text"))
    (.block [.print [.ident "x"], .exprStmt (.assign "y" (.ident "z"))]) .null]

theorem run_level_irrelevant_strayProgram :
    (run { level := 3 } 9 strayProgram (.fresh "a\nrest".toList)).quiet =
      (run { level := 0 } 9 strayProgram (.fresh "a\nrest".toList)).quiet ∧
    ∃ m, run { level := 3 } 9 strayProgram (.fresh "a\nrest".toList) = .failed (.fault (.undefinedVariable "z")) m ∧
      m.log.size = 10 ∧ m.output = "a" ∧ m.unread = "rest".toList := by
  refine ⟨run_level_irrelevant {} 3 9 strayProgram rfl, ?_⟩
  have hlog : run { level := 3 } 9 strayProgram (.fresh "a\nrest".toList) = .failed (.fault (.undefinedVariable "z"))
      { scope := ⟨.ofList [("x", .text "a")], []⟩
        unread := "rest".toList
        output := "a"
        log := #[.starting 2, .executing "InputStmt", .readField "x" (.text "a"), .executing "IfStmt",
          .applied "<>" (.text "a") (.text "b"), .testedBranch (.text "OO"), .executing "Block", .enteredBlock 2,
          .executing "PrintStmt", .executing "ExprStmt"]
        logging := false } := by decide +kernel
  exact ⟨_, hlog, rfl, rfl, rfl⟩

end Binisaya
