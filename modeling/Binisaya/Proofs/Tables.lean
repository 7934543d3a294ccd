import Mathlib.Data.List.Nodup
import Binisaya.Table

/-! What a table answers. A name has at most one entry, so a table answers by the entries that it lists in whatever
order they stand, and after entering pairs one after the other a name has the last entry that it was given. -/

namespace Binisaya

theorem lookup_eq_none_of_notMem {α : Type} {l : List (String × α)} {name : String} (h : name ∉ l.map Prod.fst) :
    l.lookup name = none := by
  rw [List.lookup_eq_none_iff]
  intro p hp
  rw [bne_iff_ne]
  rintro rfl
  exact h (List.mem_map_of_mem hp)

/-- Looked for from the end, a name has the last of its entries. -/
theorem lookup_reverse_eq_some_iff {α : Type} {l : List (String × α)} {name : String} {a : α} :
    l.reverse.lookup name = some a ↔ ∃ before after, l = before ++ (name, a) :: after ∧ ∀ b, (name, b) ∉ after := by
  rw [List.lookup_eq_some_iff]
  constructor
  · rintro ⟨after, before, hsplit, hafter⟩
    refine ⟨before.reverse, after.reverse, ?_, fun b hb => ?_⟩
    · rw [← List.reverse_reverse l, hsplit, List.reverse_append, List.reverse_cons, List.append_assoc]
      rfl
    · exact bne_iff_ne.1 (hafter _ (List.mem_reverse.1 hb)) rfl
  · rintro ⟨before, after, rfl, hafter⟩
    refine ⟨after.reverse, before.reverse, ?_, fun p hp => ?_⟩
    · rw [List.reverse_append, List.reverse_cons, List.append_assoc]
      rfl
    · rw [bne_iff_ne]
      rintro rfl
      exact hafter p.2 (List.mem_reverse.1 hp)

namespace Table

variable {α : Type} {t u : Table α}

theorem contains_iff {x : String} : t.contains x = true ↔ x ∈ t.names := by
  rw [contains, get?, List.lookup_isSome_iff, names, List.mem_map]
  refine exists_congr fun p => and_congr_right fun _ => ?_
  rw [beq_iff_eq, eq_comm]

theorem mem_entries_iff {p : String × α} : p ∈ t.entries ↔ t.get? p.1 = some p.2 := by
  constructor
  · intro hp
    obtain ⟨before, after, hsplit⟩ := List.append_of_mem hp
    have hnodup := t.nodup
    rw [hsplit, List.map_append, List.map_cons] at hnodup
    have hbefore : p.1 ∉ before.map Prod.fst := fun hmem =>
      (List.nodup_append.1 hnodup).2.2 p.1 hmem p.1 List.mem_cons_self rfl
    rw [get?, hsplit, List.lookup_append, lookup_eq_none_of_notMem hbefore, Option.none_or]
    exact List.lookup_cons_self
  · intro hp
    obtain ⟨before, after, hsplit, -⟩ := List.lookup_eq_some_iff.1 hp
    rw [hsplit]
    exact List.mem_append_right before List.mem_cons_self

/-- Tables list the same entries, perhaps in another order, if and only if they answer alike. -/
theorem perm_iff : t.entries.Perm u.entries ↔ ∀ name, t.get? name = u.get? name := by
  rw [List.perm_ext_iff_of_nodup t.nodup.of_map u.nodup.of_map]
  constructor
  · intro h name
    apply Option.ext
    intro a
    exact (mem_entries_iff.symm.trans (h (name, a))).trans mem_entries_iff
  · intro h p
    rw [mem_entries_iff, mem_entries_iff, h]

theorem insertAll_append (t : Table α) (l l' : List (String × α)) :
    t.insertAll (l ++ l') = (t.insertAll l).insertAll l' := by
  rw [insertAll, List.foldl_append]
  rfl

/-- Of several entries of one name the last one counts. -/
theorem get?_insertAll (t : Table α) (pairs : List (String × α)) (name : String) :
    (t.insertAll pairs).get? name = (pairs.reverse.lookup name).or (t.get? name) := by
  induction pairs generalizing t with
  | nil => rfl
  | cons p rest ih =>
      change ((t.insert p.1 p.2).insertAll rest).get? name = _
      rw [ih, get?_insert, List.reverse_cons, List.lookup_append, Option.or_assoc]
      by_cases hname : name = p.1
      · rw [if_pos hname, hname, List.lookup_cons_self, Option.some_or]
      · rw [if_neg hname, List.lookup_cons, beq_eq_false_iff_ne.2 hname]
        rfl

/-- The entries of the second table count more than those of the first. -/
theorem get?_update (t u : Table α) (name : String) : (t.update u).get? name = (u.get? name).or (t.get? name) := by
  have hnodup : (u.entries.reverse.map Prod.fst).Nodup := by
    rw [List.map_reverse]
    exact List.nodup_reverse.2 u.nodup
  have hreverse : u.entries.reverse.lookup name = u.get? name :=
    perm_iff.1 (show (Table.mk _ hnodup).entries.Perm u.entries from u.entries.reverse_perm) name
  rw [update, get?_insertAll, hreverse]

end Table

end Binisaya
