import Mathlib.Data.List.DropRight
import TopicQuery.Proofs.Displayed

/-!
The variables of topic map content. The scan of the content resumes behind each name that it
finds; since no name holds a dollar sign it passes over no name by that, and finds those at all
places. A name is a longest run of name characters without the dots at its end, and so is what
is left when the scanner reads it behind a dollar sign again.
-/

namespace TopicQuery

open Text

/-! ## First occurrences -/

/-- Of two members of a list without its repetitions the first one stands in front of the second
one wherever that stands in the list. -/
theorem pairwise_distinctFrom {α : Type} [DecidableEq α] (seen xs : List α) :
    (distinctFrom seen xs).Pairwise fun a b =>
      ∀ front behind, xs = front ++ b :: behind → a ∈ front := by
  induction xs generalizing seen with
  | nil => exact .nil
  | cons x xs ih =>
      have hrest : ∀ seen, x ∈ seen → (distinctFrom seen xs).Pairwise fun a b =>
          ∀ front behind, x :: xs = front ++ b :: behind → a ∈ front := fun seen hx => by
        refine (ih seen).imp_of_mem fun {a b} _ hb h front behind heq => ?_
        obtain ⟨rfl, hbehind⟩ | ⟨front, rfl, hfront⟩ := List.cons_eq_append_iff.mp heq
        · obtain ⟨rfl, -⟩ := List.cons.inj hbehind
          exact absurd hx (mem_distinctFrom.mp hb).2
        · exact List.mem_cons_of_mem x (h front behind hfront)
      rw [distinctFrom]
      split
      · next hx => exact hrest seen hx
      · refine .cons (fun b hb front behind heq => ?_) (hrest _ List.mem_cons_self)
        obtain ⟨rfl, hbehind⟩ | ⟨front, rfl, -⟩ := List.cons_eq_append_iff.mp heq
        · obtain ⟨rfl, -⟩ := List.cons.inj hbehind
          exact absurd List.mem_cons_self (mem_distinctFrom.mp hb).2
        · exact List.mem_cons_self

namespace Fragment

/-- A variable is named at a place: a dollar sign stands there, and the longest run of name
characters behind it begins with an ASCII letter or an underscore. The name is the run without
the dots at its end. -/
inductive NamedAt : List Char → Nat → List Char → Prop
  | intro {front tail dots behind : List Char} {c : Char} (start : isNameStart c = true)
      (parts : ∀ d ∈ tail ++ dots, isNamePart d = true)
      (longest : ∀ d ∈ behind.head?, isNamePart d = false)
      (last : tail.getLast? ≠ some '.') (trimmed : ∀ d ∈ dots, d = '.') :
      NamedAt (front ++ '$' :: c :: (tail ++ dots ++ behind)) front.length (c :: tail)

variable {cs rest name : List Char} {c : Char} {n : Nat}

/-! ## One name -/

/-- The name behind the dollar sign that a text begins with. -/
def nameAhead? : List Char → Option (List Char)
  | '$' :: c :: rest => if isNameStart c then some (c :: variableTail rest) else none
  | _ => none

theorem nameAhead?_of_ne (h : c ≠ '$') : nameAhead? (c :: rest) = none := by
  unfold nameAhead?
  split
  · next heq => exact absurd (List.cons.inj heq).1 h
  · rfl

theorem exists_of_nameAhead? (h : nameAhead? cs = some name) : ∃ c rest,
    cs = '$' :: c :: rest ∧ isNameStart c = true ∧ name = c :: variableTail rest := by
  unfold nameAhead? at h
  split at h
  · next c rest =>
    split at h
    · next hc => exact ⟨c, rest, rfl, hc, (Option.some.inj h).symm⟩
    · cases h
  · cases h

theorem withoutFinalDots_append {dots : List Char} (hlast : cs.getLast? ≠ some '.')
    (hdots : ∀ c ∈ dots, c = '.') : withoutFinalDots (cs ++ dots) = cs := by
  have hall : ∀ c ∈ dots.reverse, (c == '.') = true := fun c hc => by
    simp [hdots c (List.mem_reverse.mp hc)]
  have hstop : cs.rdropWhile (· == '.') = cs := List.rdropWhile_eq_self_iff.mpr fun hne hdot => by
    rw [List.getLast?_eq_some_getLast hne] at hlast
    exact hlast (congrArg some (beq_iff_eq.mp hdot))
  rw [withoutFinalDots, List.reverse_append, List.dropWhile_append_of_pos hall]
  exact hstop

/-- The part of a name behind its first character, the dots behind it, and the rest of the text. -/
theorem variableTail_append (rest : List Char) : ∃ dots behind,
    rest = variableTail rest ++ dots ++ behind ∧
      (∀ c ∈ variableTail rest ++ dots, isNamePart c = true) ∧
      (∀ c ∈ behind.head?, isNamePart c = false) ∧
      (variableTail rest).getLast? ≠ some '.' ∧ ∀ c ∈ dots, c = '.' := by
  have hrun : variableTail rest ++ (nameRun rest).rtakeWhile (· == '.') = nameRun rest :=
    List.rdropWhile_append_rtakeWhile
  refine ⟨(nameRun rest).rtakeWhile (· == '.'), rest.dropWhile isNamePart, ?_, ?_, ?_, ?_, ?_⟩
  · rw [hrun]
    exact List.takeWhile_append_dropWhile.symm
  · rw [hrun]
    exact Lexeme.isNamePart_nameRun rest
  · intro c hc
    have := List.head?_dropWhile_not isNamePart rest
    rw [Option.mem_def.mp hc] at this
    simpa using this
  · intro hdot
    have hne : variableTail rest ≠ [] := fun hnil => by simp [hnil] at hdot
    rw [List.getLast?_eq_some_getLast hne] at hdot
    exact List.rdropWhile_last_not (· == '.') (nameRun rest) hne (beq_iff_eq.mpr (Option.some.inj hdot))
  · intro c hc
    have hdot : (c == '.') = true := List.mem_rtakeWhile_imp (p := (· == '.')) hc
    exact beq_iff_eq.mp hdot

theorem namedAt_iff : NamedAt cs n name ↔ nameAhead? (cs.drop n) = some name := by
  constructor
  · rintro @⟨_, tail, dots, behind, c, start, parts, longest, last, trimmed⟩
    have hrun : nameRun (tail ++ dots ++ behind) = tail ++ dots :=
      Lexeme.takeWhile_append_of_all parts longest
    rw [List.drop_left, nameAhead?, if_pos start, variableTail, hrun,
      withoutFinalDots_append last trimmed]
  · intro h
    obtain ⟨c, rest, hdrop, hstart, rfl⟩ := exists_of_nameAhead? h
    obtain ⟨dots, behind, hrest, hparts, hlongest, hlast, hdots⟩ := variableTail_append rest
    have hsplit : cs.take n ++ '$' :: c :: (variableTail rest ++ dots ++ behind) = cs := by
      rw [← hrest, ← hdrop, List.take_append_drop]
    have hlength : (cs.take n).length = n := by
      have := congrArg List.length hdrop
      rw [List.length_drop, List.length_cons] at this
      rw [List.length_take]
      omega
    have hnamed : NamedAt (cs.take n ++ '$' :: c :: (variableTail rest ++ dots ++ behind))
        (cs.take n).length (c :: variableTail rest) := .intro hstart hparts hlongest hlast hdots
    rwa [hsplit, hlength] at hnamed

/-! ## The names of a text -/

/-- The names at all places of a text, from left to right. -/
def names (cs : List Char) : List (List Char) :=
  (List.range cs.length).filterMap fun n => nameAhead? (cs.drop n)

theorem names_cons (c : Char) (cs : List Char) :
    names (c :: cs) = (nameAhead? (c :: cs)).toList ++ names cs := by
  unfold names
  rw [List.length_cons, List.range_succ_eq_map, List.filterMap_cons, List.filterMap_map,
    List.drop_zero]
  cases nameAhead? (c :: cs) <;> rfl

/-- Where there is no dollar sign no name is passed over. -/
theorem names_append {piece : List Char} (h : '$' ∉ piece) : names (piece ++ rest) = names rest := by
  induction piece with
  | nil => rfl
  | cons c piece ih =>
      obtain ⟨hc, hpiece⟩ := List.ne_and_not_mem_of_not_mem_cons h
      rw [List.cons_append, names_cons, nameAhead?_of_ne (Ne.symm hc), ih hpiece]
      rfl

/-- The scan finds the names at all places. -/
theorem occurrences_eq (cs : List Char) : occurrences cs = names cs := by
  induction cs using occurrences.induct with
  | case1 => simp [occurrences, names]
  | case2 c rest hstart ih =>
      obtain ⟨dots, behind, hrest, hparts, -⟩ := variableTail_append rest
      have hpiece : '$' ∉ variableTail rest := fun hmem => by
        have := hparts '$' (List.mem_append_left _ hmem)
        exact absurd this (by decide)
      have hdrop : variableTail rest ++ rest.drop (variableTail rest).length = rest := by
        rw [List.append_assoc] at hrest
        exact List.prefix_iff_eq_append.mp ⟨_, hrest.symm⟩
      have hc : c ≠ '$' := by
        rintro rfl
        exact absurd hstart (by decide)
      have hfirst : nameAhead? ('$' :: c :: rest) = some (c :: variableTail rest) := if_pos hstart
      rw [occurrences, if_pos hstart, ih, names_cons, names_cons, hfirst, nameAhead?_of_ne hc,
        ← names_append hpiece, hdrop]
      rfl
  | case3 c rest hstart ih =>
      have hfirst : nameAhead? ('$' :: c :: rest) = none := if_neg hstart
      rw [occurrences, if_neg hstart, ih, names_cons '$', hfirst]
      rfl
  | case4 c rest hpattern ih =>
      have hfirst : nameAhead? (c :: rest) = none := by
        unfold nameAhead?
        split
        · next d more heq => exact absurd heq (by simpa using hpattern d more)
        · rfl
      rw [occurrences, ih, names_cons, hfirst]
      · rfl
      · exact hpattern

theorem mem_names_iff : name ∈ names cs ↔ ∃ n, NamedAt cs n name := by
  simp only [namedAt_iff, names, List.mem_filterMap, List.mem_range]
  refine ⟨fun ⟨n, _, h⟩ => ⟨n, h⟩, fun ⟨n, h⟩ => ⟨n, Nat.lt_of_not_le fun hle => ?_, h⟩⟩
  rw [List.drop_eq_nil_of_le hle] at h
  cases h

/-- In front of the name at a place stand only names at the places before it. -/
theorem names_split (h : NamedAt cs n name) : ∃ front behind,
    names cs = front ++ name :: behind ∧ ∀ a ∈ front, ∃ m < n, NamedAt cs m a := by
  let ahead := fun m => nameAhead? (cs.drop m)
  have hn : n < cs.length := Nat.lt_of_not_le fun hle => by
    rw [namedAt_iff, List.drop_eq_nil_of_le hle] at h
    cases h
  obtain ⟨k, hk⟩ : ∃ k, cs.length = n + (k + 1) := ⟨cs.length - n - 1, by omega⟩
  have hahead : ahead n = some name := namedAt_iff.mp h
  have hnames : names cs = (List.range n).filterMap ahead ++
      name :: (((List.range k).map Nat.succ).map (n + ·)).filterMap ahead := by
    rw [← List.filterMap_cons_some hahead, ← List.filterMap_append, names, hk, List.range_add,
      List.range_succ_eq_map, List.map_cons, Nat.add_zero]
  refine ⟨_, _, hnames, fun a ha => ?_⟩
  obtain ⟨m, hm, hname⟩ := List.mem_filterMap.mp ha
  exact ⟨m, List.mem_range.mp hm, namedAt_iff.mpr hname⟩

/-! ## The variables of topic map content -/

variable {content : String} {v : String}

theorem mem_mentioned_iff :
    v ∈ mentioned content ↔ ∃ n, NamedAt content.toList n v.toList := by
  rw [mentioned, mem_distinct, List.mem_map, occurrences_eq, ← mem_names_iff]
  constructor
  · rintro ⟨name, hname, rfl⟩
    rwa [String.toList_ofList]
  · exact fun h => ⟨v.toList, h, String.ofList_toList⟩

theorem pairwise_mentioned (content : String) : (mentioned content).Pairwise fun v w =>
    ∀ n, NamedAt content.toList n w.toList → ∃ m < n, NamedAt content.toList m v.toList := by
  refine (pairwise_distinctFrom [] _).imp fun {v w} h n hw => ?_
  obtain ⟨front, behind, hnames, hfront⟩ := names_split hw
  have hsplit : (occurrences content.toList).map String.ofList =
      front.map String.ofList ++ w :: behind.map String.ofList := by
    rw [occurrences_eq, hnames, List.map_append, List.map_cons, String.ofList_toList]
  obtain ⟨name, hname, rfl⟩ := List.mem_map.mp (h _ _ hsplit)
  rw [String.toList_ofList]
  exact hfront name hname

/-- A name of a variable is scanned behind a dollar sign. -/
theorem scan_named (h : NamedAt cs n v.toList) :
    (scan ("$" ++ v)).fault = none ∧ (scan ("$" ++ v)).plain = [.atom .var v] := by
  have hproper : (Token.atom .var v).Proper := by
    generalize hname : v.toList = name at h
    cases h with
    | intro start parts _ _ _ =>
        exact ⟨_, _, hname, start, fun d hd => parts d (List.mem_append_left _ hd)⟩
  have hdisplayable : Displayable [.atom .var v] := .cons hproper nofun nofun nofun .nil
  have htext : displayed [.atom .var v] = "$" ++ v := by
    simp [displayed, Token.text, AtomKind.write]
  obtain ⟨htokens, hdone⟩ := Scan.finishes_displayed hdisplayable .start
  rw [htext] at htokens hdone
  exact ⟨hdone, htokens⟩

/-- The variables of topic map content are the names that stand in it behind dollar signs, at
whatever places, each once; where one variable comes before another it is named first, and each
is a variable of the query language. -/
theorem mentioned_named (content : String) :
    (∀ v, v ∈ mentioned content ↔ ∃ n, NamedAt content.toList n v.toList) ∧
      (mentioned content).Nodup ∧
      ((mentioned content).Pairwise fun v w =>
        ∀ n, NamedAt content.toList n w.toList → ∃ m < n, NamedAt content.toList m v.toList) ∧
      ∀ v ∈ mentioned content,
        (scan ("$" ++ v)).fault = none ∧ (scan ("$" ++ v)).plain = [.atom .var v] := by
  refine ⟨fun v => mem_mentioned_iff, nodup_distinct _, pairwise_mentioned content, fun v hv => ?_⟩
  obtain ⟨n, hn⟩ := mem_mentioned_iff.mp hv
  exact scan_named hn

example : mentioned "$a.b-c... $1 $$_x, $a.b-c and $ä" = ["a.b-c", "_x"] := by decide +kernel

end Fragment

end TopicQuery
