import Binisaya.Proofs.Command.Files
import Binisaya.Proofs.Json.RoundTrip

/-! Stored programs run like their sources. The text that the command stores for a program is read back as exactly
its tree. A call on the stored program therefore ends like a call on the source, with the same flags and the same
input. -/

namespace Binisaya

namespace Document

open Json

theorem storable_ofType (t : Option VarType) : (ofType t).Storable := by
  cases t with
  | none => exact .null
  | some t => exact .string t.kind

theorem storable_ofValue (v : Value) : (ofValue v).Storable := by
  cases v with
  | number x => exact .float x
  | text s => exact .string s
  | char s => exact .object (by simp) (by simp [Storable.string])
  | nil => exact .object (by simp) (by simp [Storable.string])
  | absent => exact .null
  | flag b => exact .bool b

theorem storable_ofTypes (types : TypeTable) : (ofTypes types).Storable := by
  refine .object ?_ ?_
  · rw [List.map_map]
    exact types.nodup
  · intro f hf
    obtain ⟨entry, _, rfl⟩ := List.mem_map.1 hf
    exact storable_ofType entry.2

theorem storable_strings (names : List String) : Storable (.array (names.map .string)) := by
  refine .array fun j hj => ?_
  obtain ⟨name, _, rfl⟩ := List.mem_map.1 hj
  exact .string name

mutual

/-- The text of every stored program is read back. -/
theorem storable_ofNode (n : Node) : (ofNode n).Storable := by
  cases n with
  | null =>
      rw [ofNode]
      exact .null
  | program types body =>
      rw [ofNode]
      exact .object (by simp)
        (by simp [Storable.string, Storable.array (storable_ofNodes body), storable_ofTypes types])
  | exprStmt e | group e =>
      rw [ofNode]
      exact .object (by simp) (by simp [Storable.string, storable_ofNode e])
  | print body | block body =>
      rw [ofNode]
      exact .object (by simp) (by simp [Storable.string, Storable.array (storable_ofNodes body)])
  | declare name init type =>
      rw [ofNode]
      exact .object (by simp) (by simp [Storable.string, storable_ofNode init, storable_ofType type])
  | branch condition yes no =>
      rw [ofNode]
      exact .object (by simp)
        (by simp [Storable.string, storable_ofNode condition, storable_ofNode yes, storable_ofNode no])
  | loop condition body =>
      rw [ofNode]
      exact .object (by simp) (by simp [Storable.string, storable_ofNode condition, storable_ofNode body])
  | input names =>
      rw [ofNode]
      exact .object (by simp) (by simp [Storable.string, storable_strings names])
  | literal v label =>
      rw [ofNode]
      exact .object (by simp) (by simp [Storable.string, storable_ofValue v])
  | unary symbol e | assign symbol e =>
      rw [ofNode]
      exact .object (by simp) (by simp [Storable.string, storable_ofNode e])
  | binary symbol left right =>
      rw [ofNode]
      exact .object (by simp) (by simp [Storable.string, storable_ofNode left, storable_ofNode right])
  | ident name =>
      rw [ofNode]
      exact .object (by simp) (by simp [Storable.string])

theorem storable_ofNodes (ns : List Node) : ∀ j ∈ ofNodes ns, j.Storable := by
  cases ns with
  | nil => simp [ofNodes]
  | cons n ns =>
      rw [ofNodes]
      exact List.forall_mem_cons.2 ⟨storable_ofNode n, storable_ofNodes ns⟩

end

/-- A stored program has no line end that reading a file would change. -/
theorem parse_write_ofNode (n : Node) :
    parse (unifyNewlines (String.ofList (write (ofNode n))).toList) = .ok (ofNode n) := by
  have hreturn : '\r' ∉ write (ofNode n) := return_notMem_writeAt (storable_ofNode n) 0
  rw [String.toList_ofList, unifyNewlines_eq_self hreturn, parse_write (storable_ofNode n)]

end Document

/-- The flags that say how a program is run. -/
def runFlags : List String := ["--scoped-blocks", "--no-banner"]

namespace Options

/-- Options with flags that say how a program is run. -/
def withFlags (o : Options) (flags : List String) : Options :=
  { o with
    scopedBlocks := o.scopedBlocks || flags.contains "--scoped-blocks"
    noBanner := o.noBanner || flags.contains "--no-banner" }

theorem given_some {name : String} (hempty : name ≠ "") : given (some name) = some name := by
  simp [given, Option.filter, hempty]

theorem classify_hyphens :
    classify "--" = .ambiguous ["--help", "--scoped-blocks", "--no-banner", "--emit-ast", "--ast"] := by
  decide

/-- An argument that can be taken in one way only. -/
def Clear (arg : String) : Prop := ∀ several, classify arg ≠ .ambiguous several

theorem Clear.ne_hyphens {arg : String} (h : Clear arg) : arg ≠ "--" := by
  rintro rfl
  exact h _ classify_hyphens

/-- An option that takes no value is set before the other arguments are taken. -/
theorem takeAll_flag {arg spelling : String} {flag : Flag} (hclass : classify arg = .option spelling flag none)
    (hvalue : flag.takesValue = false) (o : Options) (rest : List String) :
    takeAll o (arg :: rest) = o.setFlag flag >>= fun o' => o'.takeAll rest := by
  -- two hyphens, for which there is a case of its own, are not clear
  have harg : arg ≠ "--" := Clear.ne_hyphens (by simp [Clear, hclass])
  rw [takeAll.eq_def]
  simp [hclass, hvalue, setJoined]

/-- An option with its value as the next argument. -/
theorem takeAll_value {arg spelling v : String} {flag : Flag} (hclass : classify arg = .option spelling flag none)
    (hvalue : flag.takesValue = true) (hv : classify v = .plain) (o : Options) (rest : List String) :
    takeAll o (arg :: v :: rest) = o.setValue flag v >>= fun o' => o'.takeAll rest := by
  have harg : arg ≠ "--" := Clear.ne_hyphens (by simp [Clear, hclass])
  have hv' : v ≠ "--" := Clear.ne_hyphens (by simp [Clear, hv])
  rw [takeAll.eq_def]
  simp [hclass, hvalue, hv, hv']

theorem takeAll_program {name : String} (hclass : classify name = .plain) {o : Options} (ho : o.program = none) :
    takeAll o [name] = .ok { o with program := some name } := by
  have harg : name ≠ "--" := Clear.ne_hyphens (by simp [Clear, hclass])
  rw [takeAll.eq_def]
  simp [hclass, ho, takeAll]

theorem classify_scopedBlocks : classify "--scoped-blocks" = .option "--scoped-blocks" .scopedBlocks none := by
  decide

theorem classify_noBanner : classify "--no-banner" = .option "--no-banner" .noBanner none := by
  decide

theorem mem_runFlags {f : String} : f ∈ runFlags ↔ f = "--scoped-blocks" ∨ f = "--no-banner" := by
  simp [runFlags]

theorem takeAll_flags {flags : List String} (hflags : ∀ f ∈ flags, f ∈ runFlags) (o : Options) (rest : List String) :
    takeAll o (flags ++ rest) = takeAll (withFlags o flags) rest := by
  induction flags generalizing o with
  | nil => simp [withFlags]
  | cons f flags ih =>
      obtain ⟨hf, hrest⟩ := List.forall_mem_cons.1 hflags
      rcases mem_runFlags.1 hf with rfl | rfl
      · rw [List.cons_append, takeAll_flag classify_scopedBlocks rfl]
        change takeAll { o with scopedBlocks := true } (flags ++ rest) = _
        rw [ih hrest]
        simp [withFlags]
      · rw [List.cons_append, takeAll_flag classify_noBanner rfl]
        change takeAll { o with noBanner := true } (flags ++ rest) = _
        rw [ih hrest]
        simp [withFlags]

theorem clear_of_mem_runFlags {f : String} (hf : f ∈ runFlags) : Clear f := by
  rcases mem_runFlags.1 hf with rfl | rfl
  · simp [Clear, classify_scopedBlocks]
  · simp [Clear, classify_noBanner]

theorem checkAmbiguous_eq_ok {args : List String} (h : ∀ arg ∈ args, Clear arg) : checkAmbiguous args = .ok () := by
  have hall : ∀ arg ∈ args.takeWhile (· != "--"), Clear arg :=
    fun arg harg => h arg ((List.takeWhile_sublist _).subset harg)
  rw [checkAmbiguous]
  generalize args.takeWhile (· != "--") = front at hall
  induction front with
  | nil => rfl
  | cons arg rest ih =>
      obtain ⟨harg, hrest⟩ := List.forall_mem_cons.1 hall
      have ih := ih hrest
      cases hclass : classify arg with
      | ambiguous several => exact absurd hclass (harg several)
      | plain | unknown | option spelling flag value =>
          rw [List.forM, hclass]
          exact ih

end Options

namespace Command

/-- A path with parts, and that of what is stored beside it. -/
theorem exists_storedPath_eq {p : Path} (hp : p.parts ≠ []) : ∃ start last,
    p = ⟨p.root, start ++ [last]⟩ ∧ storedPath p = ⟨p.root, start ++ [last ++ ".ast.json"]⟩ := by
  obtain ⟨root, parts⟩ := p
  obtain rfl | ⟨start, last, rfl⟩ := List.eq_nil_or_concat' parts
  · exact absurd rfl hp
  · exact ⟨start, last, rfl, Path.withSuffix_append root last ".ast.json" start⟩

/-- What is stored beside a file is found there afterwards. -/
theorem find_stored {files : FileTree} {p : Path} {s text : String} {t : Transcript} (hp : p.parts ≠ [])
    (hfile : files.find p = .text s) (hfree : (files.find (storedPath p)).obstacle? = none)
    (hwritten : t.written = [(storedPath p, text)]) :
    FileTree.find (changes files t ++ files) (storedPath p) = .text text := by
  obtain ⟨start, last, hsource, hstored⟩ := exists_storedPath_eq hp
  have hup : last ++ ".ast.json" ≠ ".." := by
    intro h
    have hlength := congrArg String.length h
    rw [String.length_append] at hlength
    change last.length + 9 = 2 at hlength
    omega
  rw [hsource] at hfile
  rw [hstored] at hfree hwritten ⊢
  obtain ⟨hroot, dir, hleads⟩ := FileTree.exists_leads hfile hfree (by decide) hup
  rw [hroot] at hwritten ⊢
  exact find_changes hleads hwritten

theorem plan_eq_ok {args : List String} {o : Options} {job : Job} (hclear : ∀ arg ∈ args, Options.Clear arg)
    (htake : Options.takeAll {} args = .ok o) (hextras : o.extras = []) (hjob : o.job? = some job) :
    plan args = .ok (o, job) := by
  have hparse : Options.parse args = .ok o := by
    rw [Options.parse, Options.checkAmbiguous_eq_ok hclear, htake]
    change (if o.extras.isEmpty then _ else _) = _
    rw [hextras]
    rfl
  simp only [plan, hparse, hjob]

section

variable {name : String} (hname : classify name = .plain) (hempty : name ≠ "") {flags : List String}
  (hflags : ∀ f ∈ flags, f ∈ runFlags) {files : FileTree} {tree : Node}

include hname hempty

theorem plan_emit : plan ["--emit-ast", name] = .ok ({ emitAst := some name }, .emit (.parse name)) := by
  have hclass : classify "--emit-ast" = .option "--emit-ast" .emitAst none := by decide
  refine plan_eq_ok ?_ ?_ rfl ?_
  · simp [Options.Clear, hclass, hname]
  · rw [Options.takeAll_value hclass rfl hname]
    rfl
  · rw [Options.job?, Options.given_some hempty]

/-- A program is stored beside its source, and the path of the new file is shown. -/
theorem call_emit {source : String} (hfile : files.find (.parse name) = .text source)
    (hread : readProgram (unifyNewlines source.toList) = .ok tree)
    (hfree : (files.find (storedPath (.parse name))).obstacle? = none) (input : List Char) :
    call files ["--emit-ast", name] input =
      { ending := .ok 0, output := (storedPath (.parse name)).text ++ "\n",
        written := [(storedPath (.parse name), .ofList (Json.write (Document.ofNode tree)))] } := by
  simp only [call, plan_emit hname hempty, Job.path, hfile, perform, Options.target?, Option.map_some, Option.getD_some,
    performOn, hread, hfree]

include hflags

theorem plan_stored :
    plan (flags ++ ["--ast", name]) =
      .ok ({ Options.withFlags {} flags with ast := some name }, .stored (.parse name)) := by
  have hclass : classify "--ast" = .option "--ast" .ast none := by decide
  refine plan_eq_ok ?_ ?_ rfl ?_
  · refine List.forall_mem_append.2 ⟨fun f hf => Options.clear_of_mem_runFlags (hflags f hf), ?_⟩
    simp [Options.Clear, hclass, hname]
  · rw [Options.takeAll_flags hflags, Options.takeAll_value hclass rfl hname]
    rfl
  · simp only [Options.job?, Options.given_some hempty]
    rfl

/-- A call on a stored program runs its tree. -/
theorem call_stored (hfile : files.find (.parse name) = .text (.ofList (Json.write (Document.ofNode tree))))
    (input : List Char) :
    call files (flags ++ ["--ast", name]) input = runTree (Options.withFlags {} flags) tree .missing input := by
  simp only [call, plan_stored hname hempty hflags, Job.path, hfile, perform, performOn, Document.parse_write_ofNode,
    Document.toNode_ofNode]
  rfl

theorem plan_source :
    plan (flags ++ [name]) =
      .ok ({ Options.withFlags {} flags with program := some name }, .source (.parse name)) := by
  refine plan_eq_ok ?_ ?_ rfl ?_
  · refine List.forall_mem_append.2 ⟨fun f hf => Options.clear_of_mem_runFlags (hflags f hf), ?_⟩
    simp [Options.Clear, hname]
  · rw [Options.takeAll_flags hflags, Options.takeAll_program hname rfl]
  · simp only [Options.job?, Options.given_some hempty]
    rfl

/-- A call on a source runs the tree of its program. -/
theorem call_source {source : String} (hfile : files.find (.parse name) = .text source)
    (hread : readProgram (unifyNewlines source.toList) = .ok tree) (input : List Char) :
    call files (flags ++ [name]) input = runTree (Options.withFlags {} flags) tree .missing input := by
  simp only [call, plan_source hname hempty hflags, Job.path, hfile, perform, performOn, hread]
  rfl

end

/-- **Storing a program does not change it.** When a file holds a program and nothing stands in the way of the file
beside it, storing the program ends well and shows where it was stored: at the path that the name of the source gives
with `.ast.json` behind it. What was written is read back as exactly the tree of the source. Afterwards a call on the
stored program comes to all that a call on the source came to before, whatever flags say how it is run and whatever
its input is. -/
theorem stored_program_runs_as_source {files : FileTree} {name source : String} {tree : Node}
    (hname : classify name = .plain) (hparts : (Path.parse name).parts ≠ [])
    (hfile : files.find (.parse name) = .text source) (hread : readProgram (unifyNewlines source.toList) = .ok tree)
    (hfree : (files.find (storedPath (.parse name))).obstacle? = none) (input : List Char) :
    (Path.NamesFile name → Path.parse (name ++ ".ast.json") = storedPath (.parse name)) ∧
    ∃ (text : String) (j : Json),
      call files ["--emit-ast", name] input =
        { ending := .ok 0, output := (storedPath (.parse name)).text ++ "\n",
          written := [(storedPath (.parse name), text)] } ∧
      Json.parse (unifyNewlines text.toList) = .ok j ∧ Document.toNode j = .ok tree ∧
      ∀ stored : String, classify stored = .plain → Path.parse stored = storedPath (.parse name) →
        ∀ flags : List String, (∀ f ∈ flags, f ∈ runFlags) → ∀ input' : List Char,
          call (changes files (call files ["--emit-ast", name] input) ++ files) (flags ++ ["--ast", stored]) input' =
            call files (flags ++ [name]) input' := by
  have hempty {arg : String} (h : (Path.parse arg).parts ≠ []) : arg ≠ "" := by
    rintro rfl
    exact h rfl
  have hemit := call_emit hname (hempty hparts) hfile hread hfree input
  refine ⟨fun hnames => Path.parse_append hnames (by decide), _, _, hemit, Document.parse_write_ofNode tree,
    Document.toNode_ofNode tree, fun stored hstored hpath flags hflags input' => ?_⟩
  have hlater : FileTree.find (changes files (call files ["--emit-ast", name] input) ++ files) (.parse stored) =
      .text (.ofList (Json.write (Document.ofNode tree))) := by
    rw [hpath]
    exact find_stored hparts hfile hfree (by rw [hemit])
  have hstoredParts : (Path.parse stored).parts ≠ [] := by
    obtain ⟨start, last, -, hstored⟩ := exists_storedPath_eq hparts
    rw [hpath, hstored]
    exact List.append_ne_nil_of_right_ne_nil _ (List.cons_ne_nil _ _)
  rw [call_stored hstored (hempty hstoredParts) hflags hlater,
    call_source hname (hempty hparts) hflags hfile hread]

/-- A source with declared types, a number, an input, and texts with a backslash, a quote and a letter beyond ASCII. -/
def exampleSource : String :=
  "SUGOD\r\nMUGNA NUMERO x = 0.1, y\r\nDAWAT: y\r\nIPAKITA: x & \"\\ ñ / \" & [\"] & y\r\nKATAPUSAN\r\n"

def exampleFiles : FileTree := [(["jobs", "a b.bpp"], exampleSource)]

theorem stored_program_runs_as_source_exampleFiles : ∃ (text : String) (tree : Node) (j : Json),
    readProgram (unifyNewlines exampleSource.toList) = .ok tree ∧
    call exampleFiles ["--emit-ast", "./jobs//a b.bpp"] [] =
      { ending := .ok 0, output := "jobs/a b.bpp.ast.json\n",
        written := [(⟨"", ["jobs", "a b.bpp.ast.json"]⟩, text)] } ∧
    Json.parse (unifyNewlines text.toList) = .ok j ∧ Document.toNode j = .ok tree ∧
    ∀ input, call (changes exampleFiles (call exampleFiles ["--emit-ast", "./jobs//a b.bpp"] []) ++ exampleFiles)
        ["--no-banner", "--scoped-blocks", "--ast", "./jobs//a b.bpp.ast.json"] input =
      call exampleFiles ["--no-banner", "--scoped-blocks", "./jobs//a b.bpp"] input := by
  obtain ⟨tree, hread⟩ : ∃ tree, readProgram (unifyNewlines exampleSource.toList) = .ok tree := by
    have hok : (readProgram (unifyNewlines exampleSource.toList)).isOk = true := by decide +kernel
    cases hread : readProgram (unifyNewlines exampleSource.toList) with
    | ok tree => exact ⟨tree, rfl⟩
    | error f => simp [hread, Except.isOk, Except.toBool] at hok
  obtain ⟨hpath, text, j, hemit, hparse, htree, hruns⟩ := @stored_program_runs_as_source exampleFiles
    "./jobs//a b.bpp" _ _ (by decide) (by decide) rfl hread (by decide) []
  exact ⟨text, tree, j, hread, hemit, hparse, htree,
    hruns "./jobs//a b.bpp.ast.json" (by decide) (hpath (by decide)) ["--no-banner", "--scoped-blocks"] (by decide)⟩

end Command

end Binisaya
