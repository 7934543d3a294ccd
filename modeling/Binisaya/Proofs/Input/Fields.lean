import Mathlib.Data.List.DropRight
import Binisaya.Field
import Binisaya.Proofs.Source.Layout

/-! The fields of a line. Fields without commas that are joined by commas are found again, trimmed, except that empty
ones at the end are lost; a single field is never lost. What is dropped is told before the fields are trimmed, so that
a field of white space stays a field. -/

namespace Binisaya

section Pieces

variable {sep : Char}

theorem pieces_cons_self (cs : List Char) : pieces sep (sep :: cs) = [] :: pieces sep cs := by
  rw [pieces, if_pos rfl]

theorem pieces_append {piece : List Char} (h : sep ∉ piece) (rest : List Char) :
    pieces sep (piece ++ sep :: rest) = piece :: pieces sep rest := by
  induction piece with
  | nil => exact pieces_cons_self rest
  | cons c piece ih =>
      obtain ⟨hc, hpiece⟩ := not_or.1 (mt List.mem_cons.2 h)
      rw [List.cons_append, pieces, if_neg (Ne.symm hc), ih hpiece]

/-- A text is divided into the pieces that it was joined from. -/
theorem pieces_flatMap {piece : List Char} {more : List (List Char)} (hfree : ∀ p ∈ piece :: more, sep ∉ p) :
    pieces sep (piece ++ more.flatMap (sep :: ·)) = piece :: more := by
  induction more generalizing piece with
  | nil =>
      rw [List.flatMap_nil, List.append_nil]
      exact pieces_of_not_mem (hfree piece (List.mem_singleton_self piece))
  | cons next more ih =>
      obtain ⟨hpiece, hmore⟩ := List.forall_mem_cons.1 hfree
      rw [List.flatMap_cons, List.cons_append, pieces_append hpiece, ih hmore]

/-- The pieces of a text are free of what divides it, and joined they are the text again. -/
theorem exists_pieces_eq (sep : Char) (cs : List Char) : ∃ piece more, pieces sep cs = piece :: more ∧
    (∀ p ∈ piece :: more, sep ∉ p) ∧ piece ++ more.flatMap (sep :: ·) = cs := by
  induction cs with
  | nil => exact ⟨[], [], rfl, List.forall_mem_singleton.2 List.not_mem_nil, rfl⟩
  | cons c cs ih =>
      obtain ⟨piece, more, hpieces, hfree, hjoin⟩ := ih
      by_cases hc : c = sep
      · subst hc
        refine ⟨[], piece :: more, by rw [pieces_cons_self, hpieces], ?_, congrArg (c :: ·) hjoin⟩
        exact List.forall_mem_cons.2 ⟨List.not_mem_nil, hfree⟩
      · obtain ⟨hpiece, hmore⟩ := List.forall_mem_cons.1 hfree
        refine ⟨c :: piece, more, by rw [pieces, if_neg hc, hpieces], ?_, congrArg (c :: ·) hjoin⟩
        exact List.forall_mem_cons.2 ⟨List.not_mem_cons_of_ne_of_not_mem (Ne.symm hc) hpiece, hmore⟩

end Pieces

/-- The line that fields are joined to by commas. -/
def joinFields (fields : List (List Char)) : List Char := List.intercalate [','] fields

theorem joinFields_cons (f : List Char) (fields : List (List Char)) :
    joinFields (f :: fields) = f ++ fields.flatMap (',' :: ·) := by
  induction fields generalizing f with
  | nil => rw [joinFields, List.intercalate_singleton, List.flatMap_nil, List.append_nil]
  | cons g fields ih =>
      rw [joinFields, List.intercalate_cons_cons, List.append_assoc, List.singleton_append, ← joinFields, ih,
        List.flatMap_cons]
      rfl

theorem dropTrailing_isEmpty {fields : List (List Char)} (hlast : fields.getLast? ≠ some []) :
    dropTrailing List.isEmpty fields = fields := by
  refine dropTrailing_of_getLast? fun f hf => ?_
  rw [List.isEmpty_eq_false_iff]
  rintro rfl
  exact hlast hf

/-- Fields that can be told apart once they are joined: there is one, and none has a comma in it. -/
structure Joinable (fields : List (List Char)) : Prop where
  ne_nil : fields ≠ []
  comma_free : ∀ f ∈ fields, ',' ∉ f

/-- Every line is joined from fields. -/
theorem exists_joinFields_eq (line : List Char) : ∃ fields, Joinable fields ∧ joinFields fields = line := by
  obtain ⟨piece, more, -, hfree, hjoin⟩ := exists_pieces_eq ',' line
  exact ⟨piece :: more, ⟨List.cons_ne_nil _ _, hfree⟩, (joinFields_cons piece more).trans hjoin⟩

namespace Joinable

variable {fields : List (List Char)}

/-- The fields of a line are those that it was joined from, trimmed; where there are more than one, the empty ones at
the end are lost. -/
theorem lineFields_eq (h : Joinable fields) : lineFields (joinFields fields) =
    (if fields.length = 1 then fields else dropTrailing List.isEmpty fields).map trim := by
  rcases fields with _ | ⟨f, _ | ⟨g, more⟩⟩
  · exact absurd rfl h.ne_nil
  · have hcomma : ¬ f.contains ',' = true := by
      rw [List.contains_iff_mem]
      exact h.comma_free f (List.mem_singleton_self f)
    rw [joinFields, List.intercalate_singleton, lineFields, if_neg hcomma]
    rfl
  · have hcomma : (joinFields (f :: g :: more)).contains ',' = true := by
      rw [List.contains_iff_mem, joinFields_cons, List.flatMap_cons]
      exact List.mem_append_right f (List.mem_cons_self ..)
    rw [lineFields, if_pos hcomma, joinFields_cons, pieces_flatMap h.comma_free, if_neg (by simp)]

theorem lineFields_of_getLast? (h : Joinable fields) (hlast : fields.length = 1 ∨ fields.getLast? ≠ some []) :
    lineFields (joinFields fields) = fields.map trim := by
  rw [h.lineFields_eq]
  split_ifs with hsingle
  · rfl
  · rw [dropTrailing_isEmpty (hlast.resolve_left hsingle)]

theorem append_empties (h : Joinable fields) (n : Nat) : Joinable (fields ++ List.replicate n []) where
  ne_nil := List.append_ne_nil_of_left_ne_nil h.ne_nil _
  comma_free := by
    refine List.forall_mem_append.2 ⟨h.comma_free, fun f hf => ?_⟩
    rw [List.eq_of_mem_replicate hf]
    exact List.not_mem_nil

/-- Commas at the end of a line are empty fields at its end. -/
theorem joinFields_append_empties (h : Joinable fields) (n : Nat) :
    joinFields (fields ++ List.replicate n []) = joinFields fields ++ List.replicate n ',' := by
  obtain ⟨f, more, rfl⟩ := List.exists_cons_of_ne_nil h.ne_nil
  have hcommas : (List.replicate n ([] : List Char)).flatMap (',' :: ·) = List.replicate n ',' := by
    induction n with
    | zero => rfl
    | succ n ih => rw [List.replicate_succ, List.flatMap_cons, ih]; rfl
  rw [List.cons_append, joinFields_cons, joinFields_cons, List.flatMap_append, hcommas, List.append_assoc]

/-- Commas at the end of a line lead to the loss of all empty fields there. -/
theorem lineFields_append_commas (h : Joinable fields) (n : Nat) :
    lineFields (joinFields fields ++ List.replicate (n + 1) ',') = (dropTrailing List.isEmpty fields).map trim := by
  have hempties : ∀ f ∈ List.replicate (n + 1) ([] : List Char), f.isEmpty = true := by
    intro f hf
    rw [List.eq_of_mem_replicate hf]
    rfl
  have hlength : (fields ++ List.replicate (n + 1) []).length ≠ 1 := by
    have := List.length_pos_iff.2 h.ne_nil
    rw [List.length_append, List.length_replicate]
    omega
  rw [← h.joinFields_append_empties, (h.append_empties _).lineFields_eq, if_neg hlength, dropTrailing_append hempties]

/-- A field that is not empty keeps its place. -/
theorem getElem?_lineFields (h : Joinable fields) {i : Nat} {f : List Char} (hf : fields[i]? = some f) (hne : f ≠ []) :
    (lineFields (joinFields fields))[i]? = some (trim f) := by
  rw [h.lineFields_eq, List.getElem?_map]
  split_ifs with hsingle
  · rw [hf]
    rfl
  · have hsplit : dropTrailing List.isEmpty fields ++ fields.rtakeWhile List.isEmpty = fields :=
      List.rdropWhile_append_rtakeWhile
    rw [← hsplit, List.getElem?_append] at hf
    split_ifs at hf with hkept
    · rw [hf]
      rfl
    · have hempty := List.mem_rtakeWhile_imp (List.mem_of_getElem? hf)
      exact absurd (List.isEmpty_iff.1 hempty) hne

end Joinable

/-- **Fields are found as they were joined.** The fields of a line that was joined from fields are these fields trimmed,
in their order, if there is one or if the last is not empty. Then any commas may follow the last one. A line of commas
has no fields. A field of white space is an empty field at the same place, whatever stands before and behind it. -/
theorem joined_fields_found :
    (∀ line, ∃ fields, Joinable fields ∧ joinFields fields = line) ∧
      (∀ {fields}, Joinable fields → fields.length = 1 ∨ fields.getLast? ≠ some [] →
        lineFields (joinFields fields) = fields.map trim) ∧
      (∀ {fields}, Joinable fields → fields.getLast? ≠ some [] → ∀ n,
        lineFields (joinFields fields ++ List.replicate n ',') = lineFields (joinFields fields)) ∧
      (∀ n, lineFields (List.replicate (n + 1) ',') = []) ∧
      ∀ {fields}, Joinable fields → ∀ {i : Nat} {f : List Char}, fields[i]? = some f → f ≠ [] → Space f →
        (lineFields (joinFields fields))[i]? = some [] := by
  refine ⟨exists_joinFields_eq, fun h hlast => h.lineFields_of_getLast? hlast, ?_, ?_, ?_⟩
  · intro fields h hlast n
    cases n with
    | zero => rw [List.replicate_zero, List.append_nil]
    | succ n => rw [h.lineFields_append_commas, dropTrailing_isEmpty hlast, h.lineFields_of_getLast? (.inr hlast)]
  · intro n
    have hempty : Joinable [[]] := ⟨List.cons_ne_nil _ _, List.forall_mem_singleton.2 List.not_mem_nil⟩
    exact hempty.lineFields_append_commas n
  · intro fields h i f hf hne hspace
    rw [h.getElem?_lineFields hf hne, trim_eq_nil hspace]

/-- Fields with white space around them, with nothing and with nothing but white space in them. -/
def spacedFields : List (List Char) := [" a".toList, [], " \t".toList, "b ".toList, "  ".toList]

theorem joined_fields_found_spacedFields :
    lineFields " a,, \t,b ,  ,,,".toList = ["a".toList, [], [], "b".toList, []] ∧
      (lineFields (joinFields spacedFields))[4]? = some [] := by
  have h : Joinable spacedFields := ⟨List.cons_ne_nil _ _, by decide⟩
  obtain ⟨-, hfound, hcommas, -, hspace⟩ := joined_fields_found
  refine ⟨(hcommas h (by decide) 3).trans ((hfound h (.inr (by decide))).trans (by decide)), ?_⟩
  exact hspace h (i := 4) rfl (by decide) (forall_mem_of_all (by decide))

end Binisaya
