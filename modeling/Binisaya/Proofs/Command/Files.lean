import Mathlib.Data.List.Basic
import Binisaya.Command

/-! Files beside others. When a file is found at a path, a second one can be written beside it under another name,
and then it is what the second path leads to: the files that a call leaves behind still have all the directories
that there were. -/

namespace Binisaya

/-- What is added behind a text belongs to its last piece. -/
theorem exists_pieces_append (sep : Char) (cs : List Char) :
    ∃ start last, pieces sep cs = start ++ [last] ∧
      ∀ more, sep ∉ more → pieces sep (cs ++ more) = start ++ [last ++ more] := by
  induction cs with
  | nil => exact ⟨[], [], rfl, fun more hmore => pieces_of_not_mem hmore⟩
  | cons c cs ih =>
      obtain ⟨start, last, hpieces, happend⟩ := ih
      by_cases hc : c = sep
      · refine ⟨[] :: start, last, ?_, fun more hmore => ?_⟩
        · rw [pieces, if_pos hc, hpieces, List.cons_append]
        · rw [List.cons_append, pieces, if_pos hc, happend more hmore, List.cons_append]
      · cases start with
        | nil =>
            refine ⟨[], c :: last, ?_, fun more hmore => ?_⟩
            · rw [pieces, if_neg hc, hpieces]
              rfl
            · rw [List.cons_append, pieces, if_neg hc, happend more hmore]
              rfl
        | cons first start =>
            refine ⟨(c :: first) :: start, last, ?_, fun more hmore => ?_⟩
            · rw [pieces, if_neg hc, hpieces]
              rfl
            · rw [List.cons_append, pieces, if_neg hc, happend more hmore]
              rfl

namespace Path

/-- The last part of a path as it is written is the name of a file: it is not empty and does not stay where it is. -/
def NamesFile (name : String) : Prop := ∀ part ∈ (pieces '/' name.toList).getLast?, part ≠ [] ∧ part ≠ ['.']

instance (name : String) : Decidable (NamesFile name) :=
  inferInstanceAs (Decidable (∀ part ∈ (pieces '/' name.toList).getLast?, part ≠ [] ∧ part ≠ ['.']))

@[simp]
theorem withSuffix_append (root last suffix : String) (start : List String) :
    withSuffix ⟨root, start ++ [last]⟩ suffix = ⟨root, start ++ [last ++ suffix]⟩ := by
  simp [withSuffix]

theorem text_append (root last : String) (start : List String) :
    text ⟨root, start ++ [last]⟩ = root ++ "/".intercalate (start ++ [last]) := by
  simp [text]

/-- A suffix of the path is one of its text. -/
theorem text_withSuffix (root last suffix : String) (start : List String) :
    text ⟨root, start ++ [last ++ suffix]⟩ = text ⟨root, start ++ [last]⟩ ++ suffix := by
  rw [text_append, text_append, String.append_assoc]
  by_cases hstart : start = []
  · simp [hstart]
  · simp [String.intercalate_append_of_ne_nil hstart, String.append_assoc]

theorem rootOf_append {cs more : List Char} (hslash : '/' ∉ more) : rootOf (cs ++ more) = rootOf cs := by
  have hmore : more.takeWhile (· == '/') = [] := by
    cases more with
    | nil => rfl
    | cons c more => exact List.takeWhile_cons_of_neg fun hc => hslash (by simp [beq_iff_eq.1 hc])
  have hsame : (cs ++ more).takeWhile (· == '/') = cs.takeWhile (· == '/') := by
    rw [List.takeWhile_append, hmore, List.append_nil]
    split
    · next hall => exact ((List.takeWhile_prefix _).eq_of_length hall).symm
    · rfl
  rw [rootOf, rootOf, hsame]

theorem filter_parts_append {last : List Char} (hempty : last ≠ []) (hdot : last ≠ ['.']) (start : List (List Char)) :
    ((start ++ [last]).map String.ofList).filter (fun part => part != "" && part != ".") =
      (start.map String.ofList).filter (fun part => part != "" && part != ".") ++ [.ofList last] := by
  simp [hempty, ← String.toList_inj, hdot]

/-- A suffix on the text of a path that names a file is one of the path. -/
theorem parse_append {name suffix : String} (hname : NamesFile name) (hslash : '/' ∉ suffix.toList) :
    parse (name ++ suffix) = (parse name).withSuffix suffix := by
  obtain ⟨start, last, hpieces, happend⟩ := exists_pieces_append '/' name.toList
  obtain ⟨hempty, hdot⟩ : last ≠ [] ∧ last ≠ ['.'] := hname last (by rw [hpieces, List.getLast?_concat]; rfl)
  have hempty' : last ++ suffix.toList ≠ [] := by simp [hempty]
  have hdot' : last ++ suffix.toList ≠ ['.'] := by
    intro h
    rcases List.append_eq_singleton_iff.1 h with ⟨hlast, _⟩ | ⟨hlast, _⟩
    · exact hempty hlast
    · exact hdot hlast
  rw [parse, parse, String.toList_append, happend _ hslash, hpieces, rootOf_append hslash,
    filter_parts_append hempty hdot, filter_parts_append hempty' hdot', withSuffix_append, String.ofList_append,
    String.ofList_toList]

end Path

namespace FileTree

variable {files : FileTree}

theorem isDirectory_append (more : FileTree) {parts : List String} (h : files.isDirectory parts = true) :
    isDirectory (more ++ files) parts = true := by
  rw [isDirectory, Bool.or_eq_true] at h ⊢
  rw [List.any_append, Bool.or_eq_true]
  exact h.imp_right .inr

theorem contents_append_ne_missing (more : FileTree) {parts : List String} (h : files.contents parts ≠ .missing) :
    contents (more ++ files) parts ≠ .missing := by
  rw [contents] at h ⊢
  rw [List.lookup_append]
  cases more.lookup parts with
  | some s => simp
  | none =>
      rw [Option.none_or]
      cases hlookup : files.lookup parts with
      | some s => simp
      | none =>
          have hdirectory : files.isDirectory parts = true := by
            by_contra hmissing
            simp [hlookup, hmissing] at h
          simp [isDirectory_append more hdirectory]

/-- Only from a directory does a step lead to a place in the working directory. -/
theorem isDirectory_of_follow {place : Location} {part : String} {parts : List String}
    (h : files.follow place part = .inside parts) : ∃ dir, place = .inside dir ∧ files.isDirectory dir = true := by
  cases place with
  | inside dir =>
      refine ⟨dir, rfl, ?_⟩
      by_contra hdir
      simp [follow, Bool.eq_false_iff.2 hdir] at h
  | outside =>
      simp only [follow] at h
      split_ifs at h
  | nowhere => cases h
  | overlong => cases h

theorem follow_overlong {dir : List String} {name : String} (hdir : files.isDirectory dir = true) (hup : name ≠ "..")
    (hlong : longestName < name.utf8ByteSize) : files.follow (.inside dir) name = .overlong := by
  simp [follow, hdir, hup, hlong]

/-- In a directory a name that is not too long leads to what is there. -/
theorem follow_name {dir : List String} {name : String} (hdir : files.isDirectory dir = true) (hup : name ≠ "..")
    (hshort : name.utf8ByteSize ≤ longestName) :
    files.follow (.inside dir) name =
      if files.contents (dir ++ [name]) = .missing then .nowhere else .inside (dir ++ [name]) := by
  simp [follow, hdir, hup, Nat.not_lt.2 hshort]

/-- A step that leads to a place leads there also when there are more files. -/
theorem follow_append (more : FileTree) {place : Location} {part : String} {parts : List String}
    (h : files.follow place part = .inside parts) : follow (more ++ files) place part = .inside parts := by
  obtain ⟨dir, rfl, hdir⟩ := isDirectory_of_follow h
  have hdir' := isDirectory_append more hdir
  by_cases hup : part = ".."
  · simpa [follow, hdir, hdir', hup] using h
  have hshort : part.utf8ByteSize ≤ longestName := by
    by_contra hlong
    rw [follow_overlong hdir hup (Nat.not_le.1 hlong)] at h
    cases h
  rw [follow_name hdir hup hshort] at h
  rw [follow_name hdir' hup hshort]
  split_ifs at h with hmissing
  rw [if_neg (contents_append_ne_missing more hmissing), h]

/-- Steps that end at a place start at one. -/
theorem exists_of_foldl_follow {start : List String} {place : Location} {parts : List String}
    (h : start.foldl files.follow place = .inside parts) : ∃ dir, place = .inside dir := by
  induction start generalizing place with
  | nil => exact ⟨parts, h⟩
  | cons part start ih =>
      obtain ⟨dir, hfollow⟩ := ih h
      obtain ⟨up, hplace, _⟩ := isDirectory_of_follow hfollow
      exact ⟨up, hplace⟩

theorem foldl_follow_append (more : FileTree) {start : List String} {place : Location} {parts : List String}
    (h : start.foldl files.follow place = .inside parts) :
    start.foldl (follow (more ++ files)) place = .inside parts := by
  induction start generalizing place with
  | nil => exact h
  | cons part start ih =>
      rw [List.foldl_cons] at h ⊢
      obtain ⟨dir, hfollow⟩ := exists_of_foldl_follow h
      rw [follow_append more hfollow]
      rw [hfollow] at h
      exact ih h

theorem locate_eq_foldl {parts : List String} (hpossible : Path.isImpossible ⟨"", parts⟩ = false)
    (hshort : (Path.text ⟨"", parts⟩).utf8ByteSize ≤ longestPath) :
    files.locate ⟨"", parts⟩ = parts.foldl files.follow (.inside []) := by
  simp [locate, hpossible, Nat.not_lt.2 hshort]

/-- A path, given by its parts before the last and its last, leads to a name in a directory: a file with this name
can be read or written there. -/
structure Leads (files : FileTree) (start : List String) (name : String) (dir : List String) : Prop where
  possible : Path.isImpossible ⟨"", start ++ [name]⟩ = false
  short : (Path.text ⟨"", start ++ [name]⟩).utf8ByteSize ≤ longestPath
  steps : start.foldl files.follow (.inside []) = .inside dir
  isDirectory : files.isDirectory dir = true
  notUp : name ≠ ".."
  shortName : name.utf8ByteSize ≤ longestName

namespace Leads

variable {start dir : List String} {name : String}

theorem append (h : Leads files start name dir) (more : FileTree) : Leads (more ++ files) start name dir :=
  { h with steps := foldl_follow_append more h.steps, isDirectory := isDirectory_append more h.isDirectory }

/-- What is found at the path is what stands in the directory. -/
theorem find_eq (h : Leads files start name dir) :
    files.find ⟨"", start ++ [name]⟩ = files.contents (dir ++ [name]) := by
  have hlocate : files.locate ⟨"", start ++ [name]⟩ =
      if files.contents (dir ++ [name]) = .missing then .nowhere else .inside (dir ++ [name]) := by
    rw [locate_eq_foldl h.possible h.short, List.foldl_append, h.steps]
    exact follow_name h.isDirectory h.notUp h.shortName
  rw [find, hlocate]
  by_cases hmissing : files.contents (dir ++ [name]) = .missing
  · simp [hmissing]
  · simp [hmissing]

theorem resolve_eq (h : Leads files start name dir) : files.resolve ⟨"", start ++ [name]⟩ = dir ++ [name] := by
  -- The path of the directory is looked up on its own, but it is a part of the whole path and no longer.
  have hlocate : files.locate ⟨"", start⟩ = .inside dir := by
    by_cases hstart : start = []
    · have hsteps := h.steps
      subst hstart
      rw [locate_eq_foldl (by decide) (by decide), hsteps]
    · have htext : Path.text ⟨"", start ++ [name]⟩ = Path.text ⟨"", start⟩ ++ "/" ++ name := by
        simp [Path.text, hstart, String.intercalate_append_of_ne_nil hstart]
      have hpossible : Path.isImpossible ⟨"", start⟩ = false := by
        have hpossible := h.possible
        simp only [Path.isImpossible, htext, String.toList_append, List.contains_append, Bool.or_eq_false_iff]
          at hpossible ⊢
        exact hpossible.1.1
      have hshort : (Path.text ⟨"", start⟩).utf8ByteSize ≤ longestPath := by
        have hlength := h.short
        rw [htext, String.utf8ByteSize_append, String.utf8ByteSize_append] at hlength
        omega
      rw [locate_eq_foldl hpossible hshort, h.steps]
  simp [resolve, hlocate]

end Leads

/-- A place in the working directory is reached by steps from there. -/
theorem steps_of_locate {p : Path} {parts : List String} (h : files.locate p = .inside parts) :
    p.isImpossible = false ∧ p.root = "" ∧ p.parts.foldl files.follow (.inside []) = .inside parts := by
  rw [locate] at h
  split_ifs at h with himpossible hlong hroot
  · exact ⟨Bool.eq_false_iff.2 himpossible, hroot, h⟩
  · obtain ⟨dir, hdir⟩ := exists_of_foldl_follow h
    cases hdir

/-- Beside a file that is found, a path leads to any name that adds to its own, unless something hinders to write
there. -/
theorem exists_leads {root last suffix s : String} {start : List String}
    (hfile : files.find ⟨root, start ++ [last]⟩ = .text s)
    (hfree : (files.find ⟨root, start ++ [last ++ suffix]⟩).obstacle? = none)
    (hzero : suffix.toList.contains '\x00' = false) (hup : last ++ suffix ≠ "..") :
    root = "" ∧ ∃ dir, Leads files start (last ++ suffix) dir := by
  obtain ⟨parts, hparts⟩ : ∃ parts, files.locate ⟨root, start ++ [last]⟩ = .inside parts := by
    cases hlocate : files.locate ⟨root, start ++ [last]⟩ with
    | inside parts => exact ⟨parts, rfl⟩
    | outside | nowhere | overlong => simp [find, hlocate] at hfile
  obtain ⟨hpossible, rfl, hsteps⟩ := steps_of_locate hparts
  rw [List.foldl_append, List.foldl_cons, List.foldl_nil] at hsteps
  obtain ⟨dir, hdir, hisDirectory⟩ := isDirectory_of_follow hsteps
  have hpossible' : Path.isImpossible ⟨"", start ++ [last ++ suffix]⟩ = false := by
    rw [Path.isImpossible, Path.text_withSuffix, String.toList_append, List.contains_append, hzero, Bool.or_false]
    exact hpossible
  have hshort : (Path.text ⟨"", start ++ [last ++ suffix]⟩).utf8ByteSize ≤ longestPath := by
    by_contra hlong
    simp [find, locate, hpossible', Nat.not_le.1 hlong, Contents.obstacle?] at hfree
  have hshortName : (last ++ suffix).utf8ByteSize ≤ longestName := by
    by_contra hlong
    rw [find, locate_eq_foldl hpossible' hshort, List.foldl_append, hdir, List.foldl_cons, List.foldl_nil,
      follow_overlong hisDirectory hup (Nat.not_le.1 hlong)] at hfree
    cases hfree
  exact ⟨rfl, dir, hpossible', hshort, hdir, hisDirectory, hup, hshortName⟩

end FileTree

/-- A file that a call writes is found at its path afterwards. -/
theorem Command.find_changes {files : FileTree} {t : Transcript} {start dir : List String} {name text : String}
    (h : files.Leads start name dir) (hwritten : t.written = [(⟨"", start ++ [name]⟩, text)]) :
    FileTree.find (changes files t ++ files) ⟨"", start ++ [name]⟩ = .text text := by
  have hlookup : (changes files t ++ files).lookup (dir ++ [name]) = some text := by
    simp only [changes, hwritten, List.map_cons, List.map_nil, h.resolve_eq, List.lookup_append]
    by_cases hsame : files.lookup (dir ++ [name]) = some text
    · simp [hsame]
    · simp [hsame]
  rw [(h.append (changes files t)).find_eq, FileTree.contents, hlookup]

end Binisaya
