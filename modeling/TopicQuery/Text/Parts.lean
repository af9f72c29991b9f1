/-!
Texts between separators, and tables that keep in one text what belongs to
several code points.
-/

namespace TopicQuery.Text

/-- The parts of a text between the given separators. -/
def parts (separator : Char) : List Char → List (List Char)
  | [] => [[]]
  | c :: cs =>
    if c = separator then [] :: parts separator cs
    else
      match parts separator cs with
      | [] => [[c]]
      | p :: ps => (c :: p) :: ps

theorem parts_of_not_mem {separator : Char} {cs : List Char} (h : separator ∉ cs) :
    parts separator cs = [cs] := by
  induction cs with
  | nil => rfl
  | cons c cs ih =>
      have ⟨hc, hcs⟩ : separator ≠ c ∧ separator ∉ cs := by simpa [not_or] using h
      simp [parts, Ne.symm hc, ih hcs]

/-- The first part ends at the first separator. -/
theorem parts_append {separator : Char} {p : List Char} (rest : List Char) (h : separator ∉ p) :
    parts separator (p ++ separator :: rest) = p :: parts separator rest := by
  induction p with
  | nil => simp [parts]
  | cons c p ih =>
      have ⟨hc, hp⟩ : separator ≠ c ∧ separator ∉ p := by simpa [not_or] using h
      simp [parts, Ne.symm hc, ih hp]

/--
A table of texts for code points. Each row begins at a code point and holds, with
blanks between them, the texts of that one and of those that follow it; the rows
are in order.
-/
abbrev Series := List (Nat × String)

/-- The text that a table has for a code point. -/
def Series.text? (series : Series) (n : Nat) : Option (List Char) := do
  let (first, row) ← (series.takeWhile (·.1 ≤ n)).getLast?
  (parts ' ' row.toList)[n - first]?

/-- The characters that a table has texts for, with their texts. -/
def Series.entries (series : Series) : List (Char × List Char) :=
  series.flatMap fun (first, row) =>
    (parts ' ' row.toList).mapIdx fun i text => (Char.ofNat (first + i), text)

end TopicQuery.Text
