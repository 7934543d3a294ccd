/-! White space and line breaks of all scripts. Every line break is also white space. -/

namespace Binisaya

/-- Tells that a character is white space. Zero-width characters are not. -/
def isBlank (c : Char) : Bool :=
  let n := c.toNat
  (0x09 ≤ n && n ≤ 0x0D) || (0x1C ≤ n && n ≤ 0x20) || n == 0x85 || n == 0xA0 || n == 0x1680 ||
    (0x2000 ≤ n && n ≤ 0x200A) || n == 0x2028 || n == 0x2029 || n == 0x202F || n == 0x205F || n == 0x3000

/-- Tells that a character ends a line. -/
def isLineBreak (c : Char) : Bool :=
  let n := c.toNat
  (0x0A ≤ n && n ≤ 0x0D) || (0x1C ≤ n && n ≤ 0x1E) || n == 0x85 || n == 0x2028 || n == 0x2029

/-- The list without the elements of a class at its end. -/
def dropTrailing {α : Type} (p : α → Bool) (l : List α) : List α := (l.reverse.dropWhile p).reverse

theorem dropTrailing_append {α : Type} {p : α → Bool} {tail : List α} (h : ∀ a ∈ tail, p a = true) (l : List α) :
    dropTrailing p (l ++ tail) = dropTrailing p l := by
  have hreverse : ∀ a ∈ tail.reverse, p a = true := fun a ha => h a (List.mem_reverse.1 ha)
  rw [dropTrailing, dropTrailing, List.reverse_append, List.dropWhile_append_of_pos hreverse]

theorem dropTrailing_of_getLast? {α : Type} {p : α → Bool} {l : List α} (h : ∀ a ∈ l.getLast?, p a = false) :
    dropTrailing p l = l := by
  rw [← List.head?_reverse] at h
  rw [dropTrailing]
  cases hreverse : l.reverse with
  | nil => exact (List.reverse_eq_nil_iff.1 hreverse).symm
  | cons a rest =>
      rw [hreverse] at h
      rw [List.dropWhile_cons, h a rfl, if_neg Bool.false_ne_true, ← hreverse, List.reverse_reverse]

theorem dropTrailing_eq_self {α : Type} {p : α → Bool} {l : List α} (h : ∀ a ∈ l, p a = false) : dropTrailing p l = l :=
  dropTrailing_of_getLast? fun a ha => h a (List.mem_of_getLast? ha)

/-- The text without white space at either end. -/
def trim (cs : List Char) : List Char := dropTrailing isBlank (cs.dropWhile isBlank)

end Binisaya
