import Binisaya.Proofs.Messages
import Binisaya.Proofs.Stepwise.LaterInput
import Binisaya.Proofs.Stepwise.Moments

/-! The debug log, level by level. What a step has to say does not depend on the level, which only decides what of it
is written. Runs of one program at several levels therefore take their steps side by side, in states that differ in
their logs at most, and each of the logs is a selection from one sequence of messages. This is so up to the end of the
run, and at every moment of a run that does not end. -/

namespace Binisaya

/-- Those of some messages that are written at a level. -/
def heard (level : Nat) (msgs : List Message) : List Message := msgs.filter fun msg => msg.threshold ≤ level

theorem heard_append (level : Nat) (msgs more : List Message) :
    heard level (msgs ++ more) = heard level msgs ++ heard level more :=
  List.filter_append ..

/-- What is written at a level is what is written at the next one, without the messages that are for that one. -/
theorem filter_heard_succ (level : Nat) (msgs : List Message) :
    (heard (level + 1) msgs).filter (fun msg => msg.threshold != level + 1) = heard level msgs := by
  rw [heard, List.filter_filter]
  refine List.filter_congr fun msg _ => ?_
  rw [Bool.eq_iff_iff]
  simp only [Bool.and_eq_true, bne_iff_ne, decide_eq_true_eq]
  omega

theorem Message.threshold_le_three (msg : Message) : msg.threshold ≤ 3 := by
  cases msg <;> simp [threshold]

/-- From level 3 on everything is written. -/
theorem heard_of_three_le {level : Nat} (h : 3 ≤ level) (msgs : List Message) : heard level msgs = msgs :=
  List.filter_eq_self.2 fun msg _ => decide_eq_true (msg.threshold_le_three.trans h)

theorem Machine.logText_eq (m : Machine) : m.logText = String.join (m.log.toList.map Message.line) := by
  rw [Machine.logText, String.join, List.foldl_map, Array.foldl_toList]

/-- The machine with these messages in its log. -/
def Machine.withLog (msgs : List Message) (m : Machine) : Machine := { m with log := msgs.toArray }

namespace Stepwise

variable {cfg : Settings} {msgs : List Message} {m : Machine}

/-- What a deed says, at whatever level. -/
def Deed.said : Deed → List Message
  | .note msg => [msg]
  | _ => []

/-- All that is said in some deeds. -/
def said (deeds : List Deed) : List Message := deeds.flatMap Deed.said

def State.withLog (msgs : List Message) (s : State) : State := s.control.on (s.machine.withLog msgs)

@[simp]
theorem noted_silent (cfg : Settings) (msg : Message) (m : Machine) : noted cfg.silent msg m = m := by
  have hquiet : ¬msg.threshold ≤ cfg.silent.level := Nat.not_le.2 msg.threshold_pos
  rw [noted, if_neg hquiet]

theorem noted_withLog (hm : m.logging = true) (cfg : Settings) (msg : Message) (msgs : List Message) :
    noted cfg msg (m.withLog msgs) = m.withLog (msgs ++ heard cfg.level [msg]) := by
  have hopen : (m.withLog msgs).logging = true := hm
  by_cases hlevel : msg.threshold ≤ cfg.level
  · have hheard : heard cfg.level [msg] = [msg] := List.filter_cons_of_pos (decide_eq_true hlevel)
    rw [noted, if_pos hlevel, if_pos hopen, hheard]
    simp only [Machine.withLog, List.push_toArray]
  · have hheard : heard cfg.level [msg] = [] := List.filter_cons_of_neg (by simpa using hlevel)
    rw [noted, if_neg hlevel, hheard, List.append_nil]

theorem Deed.apply_withLog (hm : m.logging = true) (d : Deed) (msgs : List Message) :
    d.apply cfg (m.withLog msgs) = (d.apply cfg.silent m).withLog (msgs ++ heard cfg.level d.said) := by
  have hnothing : msgs ++ heard cfg.level [] = msgs := List.append_nil msgs
  cases d with
  | note msg =>
      rw [Deed.apply, Deed.apply, noted_silent]
      exact noted_withLog hm cfg msg msgs
  | setType name type =>
      simp only [Deed.said, hnothing]
      cases type <;> rfl
  | _ =>
      simp only [Deed.said, hnothing]
      rfl

theorem Deed.apply_logging {d : Deed} (hd : d ≠ .closeLog) (m : Machine) : (d.apply cfg m).logging = m.logging := by
  cases d with
  | note msg => exact noted_logging msg m
  | setType name type => cases type <;> rfl
  | closeLog => exact absurd rfl hd
  | _ => rfl

/-- While the log is open, deeds do what they do without messages, and write those of their messages that the level asks
for. -/
theorem after_withLog {deeds : List Deed} (hm : m.logging = true) (hdeeds : Orderly deeds) (msgs : List Message) :
    after cfg deeds (m.withLog msgs) = (after cfg.silent deeds m).withLog (msgs ++ heard cfg.level (said deeds)) := by
  fun_induction Orderly deeds generalizing m msgs with
  | case1 => exact congrArg (Machine.withLog · m) (List.append_nil msgs).symm
  | case2 d =>
      rw [said, List.flatMap_singleton]
      exact d.apply_withLog hm msgs
  | case3 d deeds _ ih =>
      obtain ⟨-, hd, hrest⟩ := hdeeds
      have hopen : (d.apply cfg.silent m).logging = true := (Deed.apply_logging hd m).trans hm
      rw [after_cons, after_cons, d.apply_withLog hm, ih hopen hrest, said, said, List.flatMap_cons, heard_append,
        List.append_assoc]

/-- The same rule holds at every level, and what it says does not depend on the level. -/
theorem Move.step_withLog {c c' : Control} {deeds : List Deed} (h : Move cfg.silent m c c' deeds)
    (hm : m.logging = true) (level : Nat) (msgs : List Message) :
    step { cfg with level := level } ((c.on m).withLog msgs) =
      some ((c'.on (after cfg.silent deeds m)).withLog (msgs ++ heard level (said deeds))) := by
  have hmove : Move { cfg with level := level } (m.withLog msgs) c c' deeds := h.congr ⟨rfl, rfl⟩ (fun _ => rfl) rfl rfl
  have hafter := @after_withLog { cfg with level := level } m deeds hm h.orderly msgs
  rw [State.withLog, State.withLog, Control.control_on, Control.control_on, Control.machine_on, Control.machine_on,
    hmove.step_eq, hafter]
  rfl

/-- Within a run, what is said at level 1 is that a statement is executed. -/
theorem Move.heard_one {c c' : Control} {deeds : List Deed} (h : Move cfg m c c' deeds)
    (hc : ∀ p ts, c ≠ .executing (.program p :: ts)) :
    heard 1 (said deeds) = (c.on m).statement?.toList.map fun s => .executing s.kind := by
  cases h with
  | statement h => cases h <;> rfl
  | program types body ts => exact absurd rfl (hc _ ts)
  | unwind f t ts => cases t <;> rfl
  | _ => rfl

def Control.tasks : Control → List Task
  | .evaluating _ _ _ ts | .returning _ _ _ ts | .executing ts | .failing _ ts => ts

/-- The task that is next to be done or given up. -/
def Control.task? : Control → Option Task
  | .executing ts | .failing _ ts => ts.head?
  | _ => none

/-- The tasks behind what is at hand. -/
def Control.rest : Control → List Task
  | .evaluating _ _ _ ts | .returning _ _ _ ts => ts
  | .executing ts | .failing _ ts => ts.tail

/-- Tells that a task is one within a run, and neither a run nor the end of one. -/
def Task.isInner : Task → Bool
  | .program _ | .close => false
  | .statement _ | .round .. | .fields _ | .leave => true

theorem statements_inner (body : List Node) : ∀ t ∈ body.map Task.statement, t.isInner = true :=
  List.forall_mem_map.2 fun _ _ => rfl

/-- A step within a run leaves the log open, and what was to be done behind it is still to be done, if after some new
tasks. -/
theorem Move.goesOn {c c' : Control} {deeds : List Deed} (h : Move cfg m c c' deeds)
    (hc : ∀ t ∈ c.task?, t.isInner = true) :
    .closeLog ∉ deeds ∧ ∃ new, c'.tasks = new ++ c.rest ∧ ∀ t ∈ new, t.isInner = true := by
  cases h with
  | chosen hv yes no ts => exact ⟨by simp, [.statement yes], rfl, List.forall_mem_singleton.2 rfl⟩
  | otherwise hv yes hno ts => exact ⟨by simp, [.statement _], rfl, List.forall_mem_singleton.2 rfl⟩
  | again hv condition body ts =>
      exact ⟨by simp, [.statement body, .round condition body], rfl, by simp [Task.isInner]⟩
  | program | notProgram | close => cases hc _ rfl
  | field name v rest ts => exact ⟨by simp, [.fields rest], rfl, List.forall_mem_singleton.2 rfl⟩
  | statement h =>
      cases h with
      | scopedBlock hscopes body =>
          refine ⟨by simp, body.map .statement ++ [.leave], by simp [Control.tasks, Control.rest], ?_⟩
          exact List.forall_mem_append.2 ⟨statements_inner body, List.forall_mem_singleton.2 rfl⟩
      | flatBlock hscopes body => exact ⟨by simp, body.map .statement, rfl, statements_inner body⟩
      | @line names line pairs => exact ⟨by simp, [.fields pairs], rfl, List.forall_mem_singleton.2 rfl⟩
      | _ => exact ⟨by simp, [], rfl, List.forall_mem_nil _⟩
  | unwind f t ts =>
      refine ⟨?_, [], rfl, List.forall_mem_nil _⟩
      cases t with
      | close => cases hc _ rfl
      | _ => simp [Task.undoing]
  | _ => exact ⟨by simp, [], rfl, List.forall_mem_nil _⟩

/-- A run is under way: its log is open, and the last thing to be done is to close it. -/
structure State.UnderWay (s : State) : Prop where
  logging : s.machine.logging = true
  tasks : ∃ ts, s.control.tasks = ts ++ [.close] ∧ ∀ t ∈ ts, t.isInner = true

/-- The next of the tasks up to the end of a run is the end or one within the run. -/
theorem tasks_cases {ts : List Task} (hts : ∀ t ∈ ts, t.isInner = true) :
    ts ++ [.close] = [.close] ∨ (∀ t ∈ (ts ++ [Task.close]).head?, t.isInner = true) ∧
      ∃ rest, (ts ++ [Task.close]).tail = rest ++ [.close] ∧ ∀ t ∈ rest, t.isInner = true := by
  cases ts with
  | nil => exact .inl rfl
  | cons t ts =>
      obtain ⟨ht, hrest⟩ := List.forall_mem_cons.1 hts
      exact .inr ⟨by simpa using ht, ts, rfl, hrest⟩

theorem State.UnderWay.cases {s : State} (hs : s.UnderWay) :
    s.control = .executing [.close] ∨ (∃ f, s.control = .failing f [.close]) ∨
      (∀ t ∈ s.control.task?, t.isInner = true) ∧
        ∃ ts, s.control.rest = ts ++ [.close] ∧ ∀ t ∈ ts, t.isInner = true := by
  obtain ⟨-, ts, hts, hinner⟩ := hs
  cases s with
  | evaluating | returning => exact .inr (.inr ⟨by simp [State.control, Control.task?], ts, hts, hinner⟩)
  | executing ts' m =>
      cases hts
      exact (tasks_cases hinner).imp (congrArg Control.executing) .inr
  | failing f ts' m =>
      cases hts
      exact .inr ((tasks_cases hinner).imp_left fun h => ⟨f, congrArg (Control.failing f) h⟩)

/-- A run that is under way is so after the next step as well, or has come to its end. -/
theorem step_underWay {s t : State} (hs : s.UnderWay) (h : step cfg s = some t) :
    t.UnderWay ∨ step cfg t = none := by
  obtain ⟨c, deeds, hmove, rfl⟩ := step_eq_some_iff.1 h
  obtain hclose | ⟨f, hclose⟩ | ⟨htask, ts, hts, hinner⟩ := hs.cases
  · rw [hclose] at hmove
    cases hmove
    exact .inr rfl
  · rw [hclose] at hmove
    cases hmove
    exact .inr rfl
  · obtain ⟨hopen, new, htasks, hnew⟩ := hmove.goesOn htask
    refine .inl ⟨?_, new ++ ts, ?_, List.forall_mem_append.2 ⟨hnew, hinner⟩⟩
    · rw [Control.machine_on]
      exact after_induction (P := fun m => m.logging = true) hs.logging fun d hd m hm =>
        (Deed.apply_logging (fun heq => hopen (heq ▸ hd)) m).trans hm
    · rw [Control.control_on, htasks, hts, List.append_assoc]

theorem State.UnderWay.ne_program {s : State} (hs : s.UnderWay) (p : Node) (ts : List Task) :
    s.control ≠ .executing (.program p :: ts) := by
  intro hc
  obtain hclose | ⟨f, hclose⟩ | ⟨htask, -⟩ := hs.cases
  · cases hc.symm.trans hclose
  · cases hc.symm.trans hclose
  · rw [hc] at htask
    cases htask _ rfl

/-! ### Runs side by side -/

/-- From its first step on a run is under way or has come to its end. -/
theorem stateAt_underWay (cfg : Settings) (types : TypeTable) (body : List Node) (hm : m.logging = true) (i : Nat) :
    (stateAt cfg (.program types body) m (i + 1)).UnderWay ∨
      step cfg (stateAt cfg (.program types body) m (i + 1)) = none := by
  induction i with
  | zero => exact .inl ⟨(noted_logging ..).trans hm, body.map .statement, rfl, statements_inner body⟩
  | succ i ih =>
      rw [stateAt_succ, State.next]
      cases hstep : step cfg (stateAt cfg (.program types body) m (i + 1)) with
      | none => exact .inr hstep
      | some t => exact step_underWay (ih.resolve_right (by rw [hstep]; exact Option.some_ne_none t)) hstep

/-- Runs at all levels go side by side: after the first step they are in the same state but for the log, which has those
of the messages that the level asks for. At level 1 these are the start and the statements. -/
theorem exists_said (cfg : Settings) (types : TypeTable) (body : List Node) (hlog : m.log = #[])
    (hm : m.logging = true) (i : Nat) : ∃ msgs,
    (∀ level, stateAt { cfg with level := level } (.program types body) m (i + 1) =
      (stateAt cfg.silent (.program types body) m (i + 1)).withLog (heard level msgs)) ∧
    heard 1 msgs = .starting body.length ::
      (executedBy cfg.silent (.program types body) m (i + 1)).map fun s => .executing s.kind := by
  induction i with
  | zero =>
      have hempty : m.withLog [] = m := by
        cases m
        cases hlog
        rfl
      refine ⟨[.starting body.length], fun level => ?_, rfl⟩
      have hstep := (@Move.program cfg.silent m types body []).step_withLog hm level []
      rw [State.withLog, Control.control_on, Control.machine_on, hempty] at hstep
      rw [stateAt_succ, State.next]
      exact congrArg (fun next => next.getD (.start (.program types body) m)) hstep
  | succ i ih =>
      obtain ⟨msgs, hstates, hfirst⟩ := ih
      rw [executedBy_succ cfg.silent _ m (i + 1), List.map_append, ← List.cons_append, ← hfirst]
      simp only [stateAt_succ _ _ m (i + 1), hstates]
      generalize hs : stateAt cfg.silent (.program types body) m (i + 1) = s
      have hunderWay := stateAt_underWay cfg.silent types body hm i
      rw [hs] at hunderWay
      cases hstep : step cfg.silent s with
      | none =>
          -- nothing is left to be done or said
          refine ⟨msgs, fun level => ?_, ?_⟩
          · rw [State.next, State.next, hstep]
            obtain ⟨m', rfl⟩ | ⟨f, m', rfl⟩ := eq_of_final hstep <;> rfl
          · obtain ⟨m', rfl⟩ | ⟨f, m', rfl⟩ := eq_of_final hstep <;> exact (List.append_nil _).symm
      | some t =>
          have hway := hunderWay.resolve_right (by rw [hstep]; exact Option.some_ne_none t)
          obtain ⟨c, deeds, hmove, rfl⟩ := step_eq_some_iff.1 hstep
          refine ⟨msgs ++ said deeds, fun level => ?_, ?_⟩
          · have hnext := hmove.step_withLog hway.logging level (heard level msgs)
            rw [s.on_control] at hnext
            rw [State.next, State.next, hnext, hstep, heard_append]
            rfl
          · rw [heard_append, hmove.heard_one hway.ne_program, s.on_control]

theorem statement?_withLog (s : State) : (s.withLog msgs).statement? = s.statement? := by
  cases s with
  | executing ts m =>
      cases ts with
      | nil => rfl
      | cons t ts => cases t <;> rfl
  | _ => rfl

theorem withLog_log (s : State) : (s.withLog msgs).machine.log.toList = msgs := by
  cases s <;> rfl

theorem run_level_outOfFuel_iff (cfg : Settings) (level n : Nat) (types : TypeTable) (body : List Node)
    (hm : m.logging = true) : run { cfg with level := level } n (.program types body) m = .outOfFuel ↔
      run cfg.silent n (.program types body) m = .outOfFuel := by
  have hstart : Machine.LogAside { cfg with level := level } cfg.silent { m with types := m.types.update types }
      { m with types := m.types.update types } := ⟨rfl, .inr hm, .inr hm⟩
  have halike : (run { cfg with level := level } n (.program types body) m).Alike (fun _ _ => True)
      (run cfg.silent n (.program types body) m) := by
    have hstatements := @statementsAlike_logAside { cfg with level := level } cfg.silent rfl
    exact hstatements.run rfl n (i := ()) (fun _ _ _ _ => trivial) hstart fun _ _ _ => trivial
  generalize run { cfg with level := level } n (.program types body) m = o₁ at halike
  generalize run cfg.silent n (.program types body) m = o₂ at halike
  cases halike with
  | done a _ => simp
  | failed f _ => simp
  | outOfFuel => simp

/-- With some fuel a run ends at all levels or at none, and at all levels after the same number of steps. -/
theorem run_levels_end (cfg : Settings) (types : TypeTable) (body : List Node) (hlog : m.log = #[])
    (hm : m.logging = true) (n : Nat) :
    (∀ level, run { cfg with level := level } n (.program types body) m = .outOfFuel) ∨
      ∃ i, ∀ level,
        step { cfg with level := level } (stateAt { cfg with level := level } (.program types body) m (i + 1)) = none ∧
        lastState? (run { cfg with level := level } n (.program types body) m) =
          some (stateAt { cfg with level := level } (.program types body) m (i + 1)) := by
  by_cases hfuel : run cfg.silent n (.program types body) m = .outOfFuel
  · exact .inl fun level => (run_level_outOfFuel_iff cfg level n types body hm).2 hfuel
  · obtain ⟨i, hi, -⟩ := exists_stateAt_of_run hfuel
    cases i with
    | zero => cases hi
    | succ i =>
        refine .inr ⟨i, fun level => ?_⟩
        have hends := mt (run_level_outOfFuel_iff cfg level n types body hm).1 hfuel
        obtain ⟨j, hj, hlast⟩ := exists_stateAt_of_run hends
        have hfinal : step { cfg with level := level }
            (stateAt { cfg with level := level } (.program types body) m (i + 1)) = none := by
          obtain ⟨msgs, hstates, -⟩ := exists_said cfg types body hlog hm i
          rw [hstates level]
          obtain ⟨m', hm'⟩ | ⟨f, m', hm'⟩ := eq_of_final hi
          · exact congrArg (fun s => step { cfg with level := level } (State.withLog _ s)) hm'
          · exact congrArg (fun s => step { cfg with level := level } (State.withLog _ s)) hm'
        exact ⟨hfinal, hlast.trans (congrArg some (stateAt_final_unique hj hfinal))⟩

/-- The logs of one run at the various levels fit together, where `count` is the number of statements that stand in the
program and `executed` are those that have been executed. At level 1 the start is logged, and then each statement that
is executed. Levels 2 and 3 have the log of the level below, and in between the messages that need this level. Higher
levels add nothing. -/
structure LogsRefine (count : Nat) (executed : List Node) (machine : Nat → Machine) : Prop where
  first : (machine 1).log.toList = .starting count :: executed.map fun s => .executing s.kind
  firstText : (machine 1).logText = String.join
    ((("starting interpretation of " ++ toString count ++ " statements") ::
      executed.map fun s => "execute " ++ s.kind).map (· ++ "\n"))
  second : (machine 2).log.toList.filter (fun msg => msg.threshold != 2) = (machine 1).log.toList
  third : (machine 3).log.toList.filter (fun msg => msg.threshold != 3) = (machine 2).log.toList
  above : ∀ level, 3 ≤ level → (machine level).log = (machine 3).log

theorem LogsRefine.of_heard {count : Nat} {executed : List Node} {machine : Nat → Machine} {said : List Message}
    (hlog : ∀ level, (machine level).log.toList = heard level said)
    (hfirst : heard 1 said = .starting count :: executed.map fun s => .executing s.kind) :
    LogsRefine count executed machine where
  first := (hlog 1).trans hfirst
  firstText := by
    rw [Machine.logText_eq, hlog, hfirst, List.map_cons, List.map_map, List.map_cons, List.map_map]
    rfl
  second := by rw [hlog, hlog, filter_heard_succ]
  third := by rw [hlog, hlog, filter_heard_succ]
  above level hlevel := by
    apply Array.toList_inj.1
    rw [hlog, hlog, heard_of_three_le hlevel, heard_of_three_le (Nat.le_refl 3)]

theorem executedBy_level (cfg : Settings) (types : TypeTable) (body : List Node) (hlog : m.log = #[])
    (hm : m.logging = true) (i : Nat) :
    executedBy cfg (.program types body) m i = executedBy cfg.silent (.program types body) m i := by
  unfold executedBy
  congr 1
  funext j
  cases j with
  | zero => rfl
  | succ j =>
      obtain ⟨msgs, hstates, -⟩ := exists_said cfg types body hlog hm j
      rw [hstates cfg.level, statement?_withLog]

/-- **Each level of the debug log refines the one below it.** In the first run on a machine, with the log open and
empty, the logs at the various levels fit together after every number of steps, also if there is no end to them. The
statements that have been executed, each with a line at level 1, are the same at every level. If the run ends, then it
ends at every level and after the same number of steps; and if it fails, then one of the statements executed until then
is one that fails so. -/
theorem debug_levels_refine (cfg : Settings) (types : TypeTable) (body : List Node) {m : Machine} (hlog : m.log = #[])
    (hm : m.logging = true) :
    (∀ i level, LogsRefine body.length (executedBy { cfg with level := level } (.program types body) m (i + 1))
      fun k => (stateAt { cfg with level := k } (.program types body) m (i + 1)).machine) ∧
    ∀ n, (∀ level, run { cfg with level := level } n (.program types body) m = .outOfFuel) ∨
      ∃ i, ∀ level,
        lastState? (run { cfg with level := level } n (.program types body) m) =
          some (stateAt { cfg with level := level } (.program types body) m (i + 1)) ∧
        ∀ f m', run { cfg with level := level } n (.program types body) m = .failed f m' →
          ∃ j ≤ i, (stateAt { cfg with level := level } (.program types body) m j).AboutToFail
            { cfg with level := level } n f := by
  refine ⟨fun i level => ?_, fun n => ?_⟩
  · obtain ⟨msgs, hstates, hfirst⟩ := exists_said cfg types body hlog hm i
    refine @LogsRefine.of_heard _ _ _ msgs (fun k => ?_) ?_
    · rw [hstates k]
      exact withLog_log _
    · rw [executedBy_level _ types body hlog hm]
      exact hfirst
  · refine (run_levels_end cfg types body hlog hm n).imp_right ?_
    rintro ⟨i, hi⟩
    refine ⟨i, fun level => ⟨(hi level).2, fun f m' hfailed => ?_⟩⟩
    obtain ⟨j, hj⟩ := run_fails hfailed
    refine ⟨j, Nat.lt_succ_iff.1 (Nat.lt_of_not_le fun hij => ?_), hj⟩
    -- a statement to be executed is not the end of a run
    obtain ⟨a, ts, m₁, m₂, hstate, -⟩ := hj
    have hfinal := (hi level).1
    rw [← stateAt_of_final hfinal hij, hstate] at hfinal
    cases hfinal

/-- A run with a loop in it that fails at its last statement. -/
theorem debug_levels_refine_untilProgram : ∃ i,
    LogsRefine 3 (executedBy {} untilProgram (.fresh "a\nb\n".toList) (i + 1))
      (fun k => (stateAt { level := k } untilProgram (.fresh "a\nb\n".toList) (i + 1)).machine) ∧
    (stateAt { level := 1 } untilProgram (.fresh "a\nb\n".toList) (i + 1)).machine.log =
      #[.starting 3, .executing "InputStmt", .executing "WhileStmt", .executing "Block", .executing "PrintStmt",
        .executing "InputStmt", .executing "PrintStmt"] ∧
    (stateAt { level := 7 } untilProgram (.fresh "a\nb\n".toList) (i + 1)).machine.log =
      #[.starting 3, .executing "InputStmt", .readField "x" (.text "a"), .executing "WhileStmt",
        .applied "<>" (.text "a") (.text "b"), .testedLoop (.text "OO"), .executing "Block", .enteredBlock 2,
        .executing "PrintStmt", .executing "InputStmt", .readField "x" (.text "b"),
        .applied "<>" (.text "b") (.text "b"), .testedLoop (.text "DILI"), .executing "PrintStmt"] ∧
    ∃ j ≤ i, (stateAt { level := 1 } untilProgram (.fresh "a\nb\n".toList) j).AboutToFail { level := 1 } 9
      (.fault (.undefinedVariable "y")) := by
  have hfirst : run { level := 1 } 9 untilProgram (.fresh "a\nb\n".toList) = .failed (.fault (.undefinedVariable "y"))
      { scope := ⟨.ofList [("x", .text "b")], []⟩
        output := "a"
        log := #[.starting 3, .executing "InputStmt", .executing "WhileStmt", .executing "Block",
          .executing "PrintStmt", .executing "InputStmt", .executing "PrintStmt"]
        logging := false } := by decide +kernel
  have hhigh : run { level := 7 } 9 untilProgram (.fresh "a\nb\n".toList) = .failed (.fault (.undefinedVariable "y"))
      { scope := ⟨.ofList [("x", .text "b")], []⟩
        output := "a"
        log := #[.starting 3, .executing "InputStmt", .readField "x" (.text "a"), .executing "WhileStmt",
          .applied "<>" (.text "a") (.text "b"), .testedLoop (.text "OO"), .executing "Block", .enteredBlock 2,
          .executing "PrintStmt", .executing "InputStmt", .readField "x" (.text "b"),
          .applied "<>" (.text "b") (.text "b"), .testedLoop (.text "DILI"), .executing "PrintStmt"]
        logging := false } := by decide +kernel
  obtain ⟨hmoments, hends⟩ := @debug_levels_refine {} .empty _ (.fresh "a\nb\n".toList) rfl rfl
  rcases hends 9 with hfuel | ⟨i, hi⟩
  · cases hfirst.symm.trans (hfuel 1)
  · have hlast := Option.some.inj ((hi 1).1.symm.trans (congrArg lastState? hfirst))
    have hlastHigh := Option.some.inj ((hi 7).1.symm.trans (congrArg lastState? hhigh))
    refine ⟨i, hmoments i 0, ?_, ?_, (hi 1).2 _ _ hfirst⟩
    · exact congrArg (fun s => s.machine.log) hlast
    · exact congrArg (fun s => s.machine.log) hlastHigh

end Stepwise

end Binisaya
