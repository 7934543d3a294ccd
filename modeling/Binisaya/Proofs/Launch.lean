import Binisaya.Launch
import Binisaya.Proofs.Command.Stored
import Binisaya.Proofs.Scoping.Basic
import Binisaya.Proofs.Source.Scanning
import Binisaya.Proofs.SourceRuns
import Binisaya.Proofs.Stepwise.Reading

/-! All ways to run a source agree. A source is cut into the same lines whether or not its line ends were unified
before, so a file holds the program that its text holds. The lines of an input in memory are those that a console
gives, as long as no carriage return in it stands alone; runs on the two then stay together to the end. -/

namespace Binisaya

open Exec

/-- A line break ends a line, and a carriage return does unless the newline behind it will. -/
theorem splitLines_break {c : Char} (hc : isLineBreak c = true) {cs : List Char}
    (hpair : ∀ rest, c = '\r' → cs = '\n' :: rest → False) : splitLines (c :: cs) = [] :: splitLines cs := by
  rw [splitLines, if_pos hc]
  exact hpair

theorem splitLines_unifyNewlines (cs : List Char) : splitLines (unifyNewlines cs) = splitLines cs := by
  fun_induction unifyNewlines cs with
  | case1 => rfl
  | case2 cs ih =>
      rw [splitLines_break (by decide) (by simp), ih, splitLines]
  | case3 cs hnewline ih =>
      rw [splitLines_break (by decide) (by simp), ih, splitLines_break (by decide) fun rest _ => hnewline rest]
  | case4 c cs hpair hreturn ih =>
      by_cases hbreak : isLineBreak c = true
      · rw [splitLines_break hbreak fun rest hc _ => hreturn hc, ih, splitLines_break hbreak hpair]
      · rw [splitLines_cons (Bool.eq_false_iff.2 hbreak), splitLines_cons (Bool.eq_false_iff.2 hbreak), ih]

/-- A source holds the same program with any line ends. -/
theorem readProgram_unifyNewlines (source : List Char) : readProgram (unifyNewlines source) = readProgram source := by
  rw [readProgram, readProgram, readStatements, readStatements, normalize, normalize, codeLines, codeLines,
    splitLines_unifyNewlines]

theorem unifyNewlines_ne_nil {cs : List Char} (h : cs ≠ []) : unifyNewlines cs ≠ [] := by
  fun_cases unifyNewlines cs with
  | case1 => exact absurd rfl h
  | _ => exact List.cons_ne_nil _ _

/-- Every carriage return has a newline right behind it. -/
def ReturnsPaired (cs : List Char) : Prop := ∀ i < cs.length, cs[i]? = some '\r' → cs[i + 1]? = some '\n'

instance (cs : List Char) : Decidable (ReturnsPaired cs) :=
  inferInstanceAs (Decidable (∀ i < cs.length, cs[i]? = some '\r' → cs[i + 1]? = some '\n'))

namespace ReturnsPaired

variable {cs : List Char}

theorem tail {c : Char} (h : ReturnsPaired (c :: cs)) : ReturnsPaired cs := fun i hi hreturn =>
  h (i + 1) (Nat.succ_lt_succ hi) hreturn

theorem of_suffix {rest : List Char} (h : ReturnsPaired cs) (hrest : rest <:+ cs) : ReturnsPaired rest := by
  obtain ⟨before, rfl⟩ := hrest
  induction before with
  | nil => exact h
  | cons c before ih => exact ih h.tail

theorem next_newline (h : ReturnsPaired ('\r' :: cs)) : ∃ rest, cs = '\n' :: rest := by
  have hnext : cs.head? = some '\n' := by
    rw [List.head?_eq_getElem?]
    exact h 0 (Nat.succ_pos _) rfl
  exact List.head?_eq_some_iff.1 hnext

/-- The first line ends where it ended before, but for a carriage return in front of the newline, and the same is left
after it. -/
theorem firstLine_unifyNewlines (h : ReturnsPaired cs) :
    (∃ returns, (∀ c ∈ returns, c = '\r') ∧
      cs.takeWhile (· != '\n') = (unifyNewlines cs).takeWhile (· != '\n') ++ returns) ∧
    ((unifyNewlines cs).dropWhile (· != '\n')).drop 1 = unifyNewlines ((cs.dropWhile (· != '\n')).drop 1) := by
  fun_induction unifyNewlines cs with
  | case1 => exact ⟨⟨[], List.forall_mem_nil _, rfl⟩, rfl⟩
  | case2 cs ih => exact ⟨⟨['\r'], fun c hc => List.mem_singleton.1 hc, rfl⟩, rfl⟩
  | case3 cs hnewline ih =>
      -- A carriage return without a newline behind it is what the hypothesis rules out.
      obtain ⟨rest, rfl⟩ := h.next_newline
      exact absurd rfl (hnewline rest)
  | case4 c cs hpair hreturn ih =>
      obtain ⟨⟨returns, hreturns, hline⟩, hrest⟩ := ih h.tail
      by_cases hc : c = '\n'
      · subst hc
        exact ⟨⟨[], List.forall_mem_nil _, rfl⟩, rfl⟩
      · have hbool : (c != '\n') = true := bne_iff_ne.2 hc
        refine ⟨⟨returns, hreturns, ?_⟩, ?_⟩
        · rw [List.takeWhile_cons, List.takeWhile_cons, if_pos hbool, if_pos hbool, hline, List.cons_append]
        · rw [List.dropWhile_cons, List.dropWhile_cons, if_pos hbool, if_pos hbool, hrest]

/-- The same line is taken from a text and from the text with unified line ends. -/
theorem takeLine?_unifyNewlines (h : ReturnsPaired cs) :
    takeLine? (unifyNewlines cs) = (takeLine? cs).map fun p => (p.1, unifyNewlines p.2) := by
  by_cases hcs : cs = []
  · subst hcs
    rfl
  · obtain ⟨⟨returns, hreturns, hline⟩, hrest⟩ := h.firstLine_unifyNewlines
    have hend : ∀ c ∈ returns, (c == '\r' || c == '\n') = true := fun c hc => by
      rw [hreturns c hc]
      rfl
    rw [takeLine?_of_ne_nil (unifyNewlines_ne_nil hcs), takeLine?_of_ne_nil hcs, Option.map_some, hrest, hline, bareLine,
      bareLine, dropTrailing_append hend]

theorem takeLine?_rest (h : ReturnsPaired cs) {line rest : List Char} (hline : takeLine? cs = some (line, rest)) :
    ReturnsPaired rest := by
  have hcs : cs ≠ [] := by
    rintro rfl
    cases hline
  rw [takeLine?_of_ne_nil hcs] at hline
  cases hline
  exact h.of_suffix ((List.drop_suffix 1 _).trans (List.dropWhile_suffix _))

end ReturnsPaired

namespace Machine

/-- The machine with its input as a console gives it. -/
def unified (m : Machine) : Machine := { m with unread := unifyNewlines m.unread }

/-- The second machine is at a console and the first one has the same input in memory. -/
structure AtConsole (m₁ m₂ : Machine) : Prop where
  same : m₂ = m₁.unified
  paired : ReturnsPaired m₁.unread

namespace AtConsole

variable {m₁ m₂ : Machine}

theorem update (h : AtConsole m₁ m₂) {f : Machine → Machine} (hf : ∀ m, f m.unified = (f m).unified)
    (hunread : ∀ m, (f m).unread = m.unread) : AtConsole (f m₁) (f m₂) := by
  refine ⟨?_, ?_⟩
  · rw [h.same, hf]
  · rw [hunread]
    exact h.paired

/-- Only the inputs of the two machines differ. -/
theorem sharesBindings : SharesBindings AtConsole where
  scope hm := by rw [hm.same, unified]
  types hm := by rw [hm.same, unified]
  withScope hm s := hm.update (f := fun m => { m with scope := s }) (fun _ => rfl) fun _ => rfl
  withTypes hm t := hm.update (f := fun m => { m with types := t }) (fun _ => rfl) fun _ => rfl
  write hm text := hm.update (f := fun m => { m with output := m.output ++ text }) (fun _ => rfl) fun _ => rfl

theorem note (cfg : Settings) (msg : Message) : (note cfg msg).Alike AtConsole (note cfg msg) := by
  unfold Exec.note
  split
  · refine alike_modify fun m₁ m₂ hm => ?_
    have hsame : m₂.logging = m₁.logging := by rw [hm.same, unified]
    by_cases hlogging : m₁.logging = true
    · rw [if_pos hlogging, if_pos (hsame.trans hlogging)]
      exact hm.update (f := fun m => { m with log := m.log.push msg }) (fun _ => rfl) fun _ => rfl
    · rw [if_neg hlogging, if_neg (hsame ▸ hlogging)]
      exact sharesBindings.write hm msg.line
  · exact alike_pure ()

theorem readInput (names : List String) : (readInput names).Alike AtConsole (readInput names) := by
  refine alike_readInput_of_rel (fun m₁ m₂ hm => ?_) fun m₁ m₂ hm line => ?_
  · have hunread : m₂.unread = unifyNewlines m₁.unread := by rw [hm.same, unified]
    rw [hunread, hm.paired.takeLine?_unifyNewlines]
    cases hline : takeLine? m₁.unread with
    | none => exact .none
    | some p =>
        refine .some ⟨rfl, ?_, hm.paired.takeLine?_rest hline⟩
        rw [hm.same, unified, unified]
  · rw [sharesBindings.typeOf_eq hm]

end AtConsole

end Machine

open Machine

/-- The ending with what is left of the input as a console gives it. -/
def Outcome.unified {α : Type} : Outcome α → Outcome α
  | .done a m => .done a m.unified
  | .failed f m => .failed f m.unified
  | .outOfFuel => .outOfFuel

theorem Outcome.Alike.eq_unified {α : Type} {o₁ o₂ : Outcome α} (h : o₁.Alike AtConsole o₂) : o₂ = o₁.unified := by
  cases h with
  | done a hm => rw [Outcome.unified, hm.same]
  | failed f hm => rw [Outcome.unified, hm.same]
  | outOfFuel => rfl

/-- At a console a program runs as in memory. -/
theorem run_unified (cfg : Settings) (n : Nat) (p : Node) {m : Machine} (h : ReturnsPaired m.unread) :
    run cfg n p m.unified = (run cfg n p m).unified := by
  cases p with
  | program types body =>
      have hstatements := AtConsole.sharesBindings.statementsAlike rfl (AtConsole.note cfg) AtConsole.readInput
      have hstart : AtConsole m m.unified := ⟨rfl, h⟩
      have halike : (run cfg n (.program types body) m).Alike AtConsole (run cfg n (.program types body) m.unified) :=
        hstatements.run rfl n (i := ()) (fun _ _ _ _ => trivial)
          (AtConsole.sharesBindings.mapTypes hstart (·.update types))
          fun _ _ hm => hm.update (f := fun m => { m with logging := false }) (fun _ => rfl) fun _ => rfl
      exact halike.eq_unified
  | _ => rfl

theorem runAtConsole_eq (cfg : Settings) (fuel : Nat) (source : List Char) {input : List Char}
    (h : ReturnsPaired input) :
    runAtConsole cfg fuel source input = (runSource cfg fuel source input).map Outcome.unified := by
  rw [runAtConsole, runSource, runSource]
  cases readProgram source with
  | error f => rfl
  | ok tree => exact congrArg Except.ok (run_unified cfg fuel tree (m := .fresh input) h)

/-- A file is run as its text is. -/
theorem runFile_eq (cfg : Settings) (fuel : Nat) (contents typed : List Char) :
    runFile cfg fuel contents typed = runAtConsole cfg fuel contents typed := by
  rw [runFile, runAtConsole, runAtConsole, runSource, runSource, readProgram_unifyNewlines]

namespace Command

/-- What a call comes to that writes no debug log, by how its source is read and run. -/
def transcript? : Except Fault (Outcome Unit) → Option Transcript
  | .error f => some { ending := .ok 1, errors := "Syntax error: " ++ f.message ++ "\n" }
  | .ok (.done _ m) => some { ending := .ok 0, output := m.output }
  | .ok (.failed (.fault f) m) =>
    some { ending := .ok 1, output := m.output, errors := "Runtime error: " ++ f.report.line ++ "\n" }
  | .ok (.failed (.defect d) m) => some { ending := .error (.defect d), output := m.output }
  | .ok .outOfFuel => none

theorem transcript?_unified (r : Except Fault (Outcome Unit)) :
    transcript? (r.map Outcome.unified) = transcript? r := by
  cases r with
  | error f => rfl
  | ok o =>
      cases o with
      | done a m => rfl
      | failed f m => cases f <;> rfl
      | outOfFuel => rfl

variable {files : FileTree} {args : List String} {o : Options} {p : Path} {source : List Char}

/-- A call on a source file without a debug log writes no file, and comes to what running the file comes to. -/
theorem call_file (hplan : plan args = .ok (o, .source p)) (hlevel : o.verbosity = 0)
    (hfile : files.find p = .text (.ofList source)) (input : List Char) :
    (call files args input).written = [] ∧
    ∀ t ∈ transcript? (runFile o.settings ampleFuel source input), call files args input = t := by
  have htarget : o.target? (.source p) = none := by rw [Options.target?, hlevel, if_neg (Nat.lt_irrefl 0)]
  have hcall : call files args input = performOn o (.source p) (unifyNewlines source) .missing input := by
    simp only [call, hplan, Job.path, hfile, htarget, perform, String.toList_ofList]
    rfl
  rw [hcall, runFile, runAtConsole, runSource, performOn]
  cases readProgram (unifyNewlines source) with
  | error f => exact ⟨rfl, fun t ht => Option.some.inj ht⟩
  | ok tree =>
      simp only [runTree, Contents.obstacle?, hlevel, Nat.lt_irrefl, if_false, Except.map]
      cases run o.settings ampleFuel tree (.fresh (unifyNewlines input)) with
      | done a m => exact ⟨rfl, fun t ht => Option.some.inj ht⟩
      | failed f m => cases f <;> exact ⟨rfl, fun t ht => Option.some.inj ht⟩
      | outOfFuel => exact ⟨rfl, fun t ht => absurd ht (Option.not_mem_none t)⟩

end Command

open Command

/-- **All ways of running a source agree.** If no carriage return of the input stands alone, then a run at a console
and a run of a file with the source in it end as the run in memory does, but for the line ends of what is left of the
input: with the same variables, types, output and log, with the same failure, or with the same complaint about the
source. A call of the command on such a file, when no debug log is asked for, shows the output of the run in memory and
reports its failure or the complaint, and it creates and changes no file. -/
theorem ways_of_running_agree (cfg : Settings) (source : List Char) {input : List Char} (hinput : ReturnsPaired input) :
    (∀ fuel, runAtConsole cfg fuel source input = (runSource cfg fuel source input).map Outcome.unified) ∧
    (∀ fuel, runFile cfg fuel source input = (runSource cfg fuel source input).map Outcome.unified) ∧
    ∀ (files : FileTree) (args : List String) (o : Options) (p : Path), plan args = .ok (o, .source p) →
      o.settings = cfg → cfg.level = 0 → files.find p = .text (.ofList source) →
      changes files (call files args input) = [] ∧
      ∀ t ∈ transcript? (runSource cfg ampleFuel source input), call files args input = t := by
  have hconsole := fun fuel => runAtConsole_eq cfg fuel source hinput
  have hfile := fun fuel => (runFile_eq cfg fuel source input).trans (hconsole fuel)
  refine ⟨hconsole, hfile, fun files args o p hplan hcfg hlevel hsource => ?_⟩
  subst hcfg
  obtain ⟨hwritten, hcall⟩ := call_file hplan hlevel hsource input
  refine ⟨?_, fun t ht => hcall t ?_⟩
  · rw [changes, hwritten]
    rfl
  · rwa [hfile, transcript?_unified]

/-- Prints two letters that it reads and fails then; its lines end in all three ways. -/
def mixedSource : List Char :=
  "SUGOD\r\nMUGNA LETRA x, y\rDAWAT: x\nDAWAT: y\r\nIPAKITA: x & y\rIPAKITA: z\r\nKATAPUSAN".toList

def mixedInput : List Char := "a\r\nb".toList

def mixedFiles : FileTree := [(["mixed.bpp"], .ofList mixedSource)]

/-- How the program of `mixedSource` fails. -/
def mixedEnd : Outcome Unit :=
  .failed (.fault (.undefinedVariable "z"))
    { scope := ⟨.ofList [("x", .char "a"), ("y", .char "b")], []⟩
      types := .ofList [("x", some .character), ("y", some .character)], output := "ab", logging := false }

theorem ways_of_running_agree_mixedSource :
    ReturnsPaired mixedInput ∧
    (∀ way ∈ [runSource, runAtConsole, runFile], way ⟨true, false, 0⟩ ampleFuel mixedSource mixedInput = .ok mixedEnd) ∧
    call mixedFiles ["--no-banner", "--scoped-blocks", "mixed.bpp"] mixedInput =
      { ending := .ok 1, output := "ab", errors := "Runtime error: BisayaError: NameError: undefined variable 'z'\n" } ∧
    changes mixedFiles (call mixedFiles ["--no-banner", "--scoped-blocks", "mixed.bpp"] mixedInput) = [] := by
  have hpaired : ReturnsPaired mixedInput := by decide
  have hrun : runSource ⟨true, false, 0⟩ ampleFuel mixedSource mixedInput = .ok mixedEnd := by
    obtain ⟨p, hp, htest⟩ := @exists_of_test mixedSource mixedInput ⟨true, false, 0⟩ ampleFuel (· = mixedEnd)
      (by decide +kernel)
    rw [runSource, hp]
    exact congrArg Except.ok (of_decide_eq_true htest)
  obtain ⟨hconsole, hfile, hcall⟩ := ways_of_running_agree ⟨true, false, 0⟩ mixedSource hpaired
  have hplan := @plan_source "mixed.bpp" (by decide) (by decide) ["--no-banner", "--scoped-blocks"] (by decide)
  obtain ⟨hchanges, hshown⟩ := hcall mixedFiles _ _ _ hplan rfl rfl rfl
  refine ⟨hpaired, List.forall_mem_cons.2 ⟨hrun, List.forall_mem_cons.2 ⟨?_, List.forall_mem_singleton.2 ?_⟩⟩, ?_,
    hchanges⟩
  · rw [hconsole, hrun]
    rfl
  · rw [hfile, hrun]
    rfl
  · refine hshown _ ?_
    rw [hrun]
    rfl

end Binisaya
