import TopicQuery.Proofs.Defined
import TopicQuery.Proofs.Inserted.Split
import TopicQuery.Proofs.Reparsed
import TopicQuery.Proofs.RoundTrip
import TopicQuery.Proofs.Unconditional

/-!
Inserted content. In front of a condition topic map content is written on a line
that ends with `from`, and what is scanned of that is the content and the word,
however much in the content looks like the word. What stands in front of the statement is
scanned on its own, and neither the lines of its bindings nor those of its rules hold the
word `insert`.
-/

namespace TopicQuery.Phrase

open Grammar Style

/-! ## Words in clauses -/

/-- Among the words in a phrase there is none but `not`. -/
def OnlyNot (ts : List Token) : Prop := ∀ k, .keyword k ∈ ts → k = .not

theorem OnlyNot.append {ts us : List Token} (h : OnlyNot ts) (h' : OnlyNot us) :
    OnlyNot (ts ++ us) := fun k hk => (List.mem_append.mp hk).elim (h k) (h' k)

theorem OnlyNot.cons {u : Token} {ts : List Token} (hu : ∀ k, u = .keyword k → k = .not)
    (h : OnlyNot ts) : OnlyNot (u :: ts) := fun k hk =>
  (List.mem_cons.mp hk).elim (fun heq => hu k heq.symm) (h k)

theorem onlyNot_symbol (m : Symbol) : OnlyNot [.symbol m] := by simp [OnlyNot]

theorem OnlyNot.symbol {ts : List Token} (h : OnlyNot ts) (m : Symbol) :
    OnlyNot (.symbol m :: ts) := h.cons (by simp)

theorem onlyNot_listed {α : Type} {tokens : α → List Token}
    (h : ∀ x, OnlyNot (tokens x)) (xs : List α) : OnlyNot (listed tokens xs) := by
  intro k hk
  obtain heq | ⟨x, -, hx⟩ := mem_listed hk
  · cases heq
  · exact h x k hx

theorem onlyNot_term (t : Term) : OnlyNot t.tokens := fun k hk =>
  absurd (List.mem_append_left _ hk) (not_mem_term t false (.inl (rfl : Token.keyword k = _)))

theorem onlyNot_call (call : Call) : OnlyNot call.tokens := by
  cases call with
  | plain name arguments =>
      exact (onlyNot_term name).append (((onlyNot_listed onlyNot_term _).append
        (onlyNot_symbol _)).symbol _)
  | association name roles =>
      have hrole : ∀ r : Role, OnlyNot r.tokens := fun r =>
        (onlyNot_term _).append ((onlyNot_term _).symbol _)
      exact (onlyNot_term name).append (((onlyNot_listed hrole _).append
        (onlyNot_symbol _)).symbol _)

mutual

theorem Clause.onlyNot (x : Clause) : OnlyNot x.tokens := by
  match x with
  | .negation inner =>
      exact ((inner.onlyNot.append (onlyNot_symbol _)).symbol _).cons (by simp)
  | .alternatives branches =>
      exact (branches.onlyNot.append (onlyNot_symbol _)).symbol _
  | .comparison operator left right =>
      exact (onlyNot_term left).append ((onlyNot_term right).symbol _)
  | .call call => exact onlyNot_call call

theorem Clauses.onlyNot (xs : Clauses) : OnlyNot xs.tokens := by
  match xs with
  | .last x => exact x.onlyNot
  | .cons x xs => exact x.onlyNot.append (xs.onlyNot.symbol _)

theorem Branches.onlyNot (bs : Branches) : OnlyNot bs.tokens := by
  match bs with
  | .last xs => exact xs.onlyNot
  | .cons xs _ bs => exact xs.onlyNot.append (bs.onlyNot.symbol _)

end

theorem onlyNot_rule (r : Rule) : OnlyNot (Category.rule.tokens r) := by
  have hparameters : OnlyNot (Category.parameter.list.tokens r.parameters) :=
    onlyNot_listed (by simp [OnlyNot, Category.parameter]) _
  have hbody := (r.body.onlyNot.append (onlyNot_symbol .dot)).symbol .implies
  exact ((hparameters.append (hbody.symbol .rparen)).symbol .lparen).cons (by simp)

/-! ## What stands in front of a statement -/

/-- The text is scanned on its own, and there is no `insert` in it. -/
def Preamble (text : String) : Prop := ∃ ts, Sealed ts text ∧ .keyword .insert ∉ ts

theorem Preamble.append {text text' : String} (h : Preamble text) (h' : Preamble text') :
    Preamble (text ++ text') := by
  obtain ⟨ts, hsealed, hnone⟩ := h
  obtain ⟨us, hsealed', hnone'⟩ := h'
  exact ⟨ts ++ us, hsealed.append hsealed', by simp [hnone, hnone']⟩

theorem preamble_join {lines : List String} (h : ∀ line ∈ lines, Preamble line) :
    Preamble (String.join lines) := by
  induction lines with
  | nil => exact ⟨[], sealed_nil, List.not_mem_nil⟩
  | cons line lines ih =>
      rw [String.join_cons]
      exact (h line List.mem_cons_self).append
        (ih fun other hother => h other (List.mem_cons_of_mem _ hother))

/-- A module without a location is imported from between brackets that are read as signs. -/
theorem sealed_emptyImport {identifier : String} (h : (Token.atom .identifier identifier).Proper) :
    Sealed [.directive "import", .atom .identifier identifier, .symbol .lt, .symbol .gt]
      (bindingLine .plus ⟨identifier, "", .module⟩) := by
  have hempty : Sealed [.symbol .lt, .symbol .gt] "<>\n" := by
    intro rest
    have hlt : Scan.Spells [.symbol .lt] (Token.symbol .lt).written (">\n".toList ++ rest) :=
      Scan.spells_token ⟨_, _, rfl, rfl⟩ (by simp) (by simp)
    have hgt : Sealed [.symbol .gt] ">\n" := by
      have hmark := spelled_mark (by decide : Symbol.gt ∈ Lexeme.softMarks)
      simpa [Symbol.text] using hmark.append_sealed sealed_newline (by decide) (by decide)
    exact hlt.append (hgt rest)
  have hall := ((sealed_prefix_word "import" (proper_directive (by simp))).append
    (spelled_identifier h).blank).append hempty
  have hline : bindingLine .plus ⟨identifier, "", .module⟩ =
      "%" ++ "import" ++ " " ++ (identifier ++ " ") ++ "<>\n" := by
    simp [bindingLine, Style.directive, String.append_assoc]
  rwa [hline]

theorem insert_not_mem_binding (dialect : Dialect) (b : Prefixed) :
    .keyword .insert ∉ (canonicalBinding dialect b).tokens := by
  obtain ⟨identifier, iri, kind⟩ := b
  cases dialect <;> cases kind <;> simp [canonicalBinding, canonicalBinder, Directive.tokens]

namespace Document

variable {d : Document} {setting : Setting} {dialect : Dialect}

/-- A binding is a line of the preamble if nothing in its IRI ends the brackets of tolog+. -/
theorem preamble_bindingLine (hfits : d.Fits setting) (hfresh : Fresh setting)
    (hproper : ∀ t ∈ d.tokens, t.Proper) {b : Prefixed} (hb : b ∈ d.prefixes setting)
    (hiri : ∀ ch ∈ b.iri.toList, Lexeme.isIriPart ch = true) :
    Preamble (bindingLine dialect b) := by
  obtain ⟨binder, hmem, hdeclares⟩ := exists_binder hfits hfresh hb
  by_cases hempty : dialect = .plus ∧ b.kind = .module ∧ b.iri = ""
  · obtain ⟨identifier, iri, kind⟩ := b
    obtain ⟨rfl, rfl, rfl⟩ := hempty
    exact ⟨_, sealed_emptyImport (binder_proper hproper hmem).1, by simp⟩
  · refine ⟨_, sealed_bindingLine (canonicalBinding_proper hfits hfresh hproper hb
      fun hdialect hkind => ⟨fun hnil => ?_, hiri⟩), insert_not_mem_binding dialect b⟩
    simp only [List.mem_cons, List.not_mem_nil, or_false] at hkind
    obtain hkind | hkind := hkind
    · have hreference : (Token.atom .subjectIdentifier b.iri).Proper :=
        reference_proper hproper hmem hdeclares (by rw [hkind]; rfl)
      exact hreference.1 hnil
    · exact hempty ⟨hdialect, hkind, String.toList_inj.mp hnil⟩

end Document

end TopicQuery.Phrase

namespace TopicQuery

/-! ## Content in front of a condition -/

namespace Fragment

/-- Topic map content that stood in front of a gap. -/
def Continued (content : List Char) : Prop :=
  ∃ cs, (∀ c ∈ cs.head?, Text.isBlank c = false) ∧ (split cs).2 ≠ 0 ∧
    content = cs.take (split cs).1

/-- Content is not empty, because what it was split from does not begin with a blank. -/
theorem Continued.exists_cons {content : List Char} (h : Continued content) :
    ∃ c rest, content = c :: rest ∧ Text.isBlank c = false := by
  obtain ⟨cs, hbegins, hgap, rfl⟩ := h
  have hfirst := (beginsGap_of_split hgap).1
  cases cs with
  | nil => exact absurd rfl hgap
  | cons c cs =>
      have hc := hbegins c rfl
      cases hsize : (split (c :: cs)).1 with
      | zero =>
          rw [hsize] at hfirst
          exact absurd (blankRun_cons_ne_nil.mp hfirst.1) (by simp [hc])
      | succ n => exact ⟨c, cs.take n, rfl, hc⟩

/-- Content that stood in front of a gap is split off in front of another `from`. -/
theorem Continued.split {content : List Char} (h : Continued content) (rest : List Char) :
    Fragment.split (content ++ " from \n".toList ++ rest) = (content.length, 1) := by
  obtain ⟨cs, -, hgap, rfl⟩ := h
  rw [split_replace hgap, List.length_take_of_le]
  exact (lt_length_of_beginsGap (beginsGap_of_split hgap).1).le

end Fragment

namespace Scan

/-- What is scanned as content with a word behind it stood in front of a gap. -/
theorem HoldsContent.continued {content : String} {word : Token} {post : List Token}
    (h : HoldsContent content (word :: post)) : Fragment.Continued content.toList := by
  obtain ⟨cs, place, hbegins, hcontent, hpost⟩ := h
  refine ⟨cs, hbegins, fun hgap => ?_, hcontent⟩
  have hnothing : ∀ ds, ds = [] ∨ ds = ['\n'] → (ofText .query place ds).plain = [] := by
    rintro ds (rfl | rfl)
    · exact (finishes_nil place).1
    · exact ((spells_blank (by decide)).finishes finishes_nil place).1
  rw [hgap, Nat.add_zero, hnothing _ (Fragment.drop_split hgap)] at hpost
  cases hpost

/-- Content that stood in front of a gap is scanned again in front of another `from`. -/
theorem spells_insertion {content : String} (h : Fragment.Continued content.toList)
    (rest : List Char) :
    Spells [.keyword .insert, .fragment content] ("insert ".toList ++ (content.toList ++ [' ']))
      ("from \n".toList ++ rest) := by
  have hhead : ∀ c ∈ (content.toList ++ " from \n".toList ++ rest).head?,
      Text.isBlank c = false := by
    obtain ⟨c, cs, hchars, hc⟩ := h.exists_cons
    simp [hchars, hc]
  intro place
  obtain ⟨start, hinsert⟩ := ofText_insert place (content.toList ++ " from \n".toList ++ rest)
  obtain ⟨place', place'', hfragment⟩ := ofText_split hhead start
  refine ⟨[⟨.keyword .insert, place⟩, ⟨.fragment content, place'⟩], place'', rfl, ?_⟩
  have htext : "insert ".toList ++ (content.toList ++ [' ']) ++ ("from \n".toList ++ rest) =
      "insert".toList ++ ' ' :: (content.toList ++ " from \n".toList ++ rest) := by
    simp
  have htake : (content.toList ++ " from \n".toList ++ rest).take content.toList.length =
      content.toList := by
    rw [List.append_assoc, List.take_left]
  have hdrop : (content.toList ++ " from \n".toList ++ rest).drop (content.toList.length + 1) =
      "from \n".toList ++ rest := by
    rw [List.append_assoc, ← List.drop_drop, List.drop_left]
    rfl
  rw [htext, hinsert, hfragment, h.split, htake, hdrop, String.ofList_toList]
  rfl

end Scan

namespace Phrase

open Grammar Style

variable {s : Style} {c : Scope} {content : String} {isWhere : Bool} {x : Condition}

theorem sealed_insertion (h : Fragment.Continued content.toList) :
    Sealed [.keyword .insert, .fragment content, .keyword .fromWord]
      ("insert " ++ content ++ " from \n") := by
  intro rest
  have hfrom : Sealed [.keyword .fromWord] "from \n" := by
    simpa [Keyword.text] using (sealed_keyword_blank .fromWord (by simp)).append sealed_newline
  have hall := (Scan.spells_insertion h rest).append (hfrom rest)
  have htext : ("insert " ++ content ++ " from \n").toList =
      "insert ".toList ++ (content.toList ++ [' ']) ++ "from \n".toList := by
    simp [String.toList_append]
  rwa [htext]

theorem head_insert :
    s.head (statementElement c (.change (.insert content) (some (isWhere, x)))) =
      .ok ("insert " ++ content ++ " from \n") := by
  have hname : (statementElement c (.change (.insert content) (some (isWhere, x)))).name =
      "insert" := rfl
  have hwhere : Element.child? (statementElement c (.change (.insert content) (some (isWhere, x))))
      "where" = some (conditionElement c x) :=
    child?_where (isTail_changeElements (.insert content)) rfl
  rw [Style.head, hname]
  simp only [content_insert, hwhere]
  rfl

/-- Content with a condition is written as it stands, and the condition in canonical form. -/
theorem insertion_gives (hs : s.Suits c) (h : Fragment.Continued content.toList)
    (hrefers : Category.condition.Refers c x)
    (hproper : ∀ u ∈ Category.condition.tokens x, u.Proper) :
    Gives (s.statement (statementElement c (.change (.insert content) (some (isWhere, x)))))
      (s.Allows (Category.condition.IsPlain (x.canonical c)))
      fun text => Scan.Finishes (.keyword .insert :: .fragment content :: .keyword .fromWord ::
        Category.condition.tokens (x.canonical c)) text.toList := by
  have hhead : Gives (s.head (statementElement c (.change (.insert content) (some (isWhere, x)))))
      (s.Allows True) (Sealed [.keyword .insert, .fragment content, .keyword .fromWord]) := by
    rw [head_insert]
    exact (gives_ok (sealed_insertion h)).of_iff allows_true.symm
  have hall := conditional_gives hs (isTail_changeElements (.insert content)) rfl hrefers hproper
    hhead
  have hname : ((statementElement c (.change (.insert content) (some (isWhere, x)))).name ==
      "select") = false := rfl
  rw [hname] at hall
  refine (hall.of_iff (by simp)).imp fun {text} htext => ?_
  simpa [Document.questionTokens] using htext

/-! ## Texts with inserted content -/

namespace Document

variable {d : Document} {setting : Setting}

/-- A text that reports content and a condition inserts the content where the condition says. -/
theorem exists_insertion (hcontent : .leaf (.content content) ∈ (d.outline setting).events)
    (hwhere : .enter .condition ∈ (d.outline setting).events) :
    ∃ isWhere x, d.statement = some (.change (.insert content) (some (isWhere, x))) := by
  obtain ⟨y, hy, hfound⟩ := (content_mem_iff d).mp hcontent
  have hcondition : y.HasCondition := by
    obtain ⟨z, hz, hcondition⟩ := (condition_mem_iff d).mp hwhere
    obtain rfl := Option.some.inj (hz.symm.trans hy)
    exact hcondition
  cases y with
  | change x condition =>
      cases x with
      | insert found =>
          obtain rfl := Option.some.inj hfound
          obtain ⟨⟨isWhere, x⟩, rfl⟩ := Option.isSome_iff_exists.mp hcondition
          exact ⟨isWhere, x, hy⟩
      | _ => cases hfound
  | _ => cases hfound

end Document

namespace IsDocument

variable {plus : Bool} {text written : String} {d : Document} {dialect : Dialect}

/-- Content in front of a condition stood in front of a gap. -/
theorem continued (h : IsDocument plus text d)
    (hx : d.statement = some (.change (.insert content) (some (isWhere, x)))) :
    Fragment.Continued content.toList := by
  have hplain : (Scan.ofText .query .start text.toList).plain =
      (d.directives.flatMap Directive.tokens ++ d.rules.flatMap Category.rule.tokens) ++
        .keyword .insert :: .fragment content :: .keyword (conditionWord isWhere) ::
          (Category.condition.tokens x ++ Document.questionTokens d.question) := by
    refine h.tokens.trans ?_
    rw [Document.tokens, hx]
    simp [Category.statement, Category.optionalCondition, Change.tokens]
  exact (Scan.holdsContent_of_insert hplain).continued

/-- What is written for content with a condition. -/
theorem finishes_insertion (h : IsDocument plus text d)
    (hx : d.statement = some (.change (.insert content) (some (isWhere, x))))
    (hiris : ∀ b ∈ d.prefixes (settingOf plus text), ∀ ch ∈ b.iri.toList,
      Lexeme.isIriPart ch = true)
    (hrender : render dialect false (d.outline (settingOf plus text)).element = .ok written) :
    ∃ front, .keyword .insert ∉ front ∧ Scan.Finishes (front ++ .keyword .insert ::
      .fragment content :: .keyword .fromWord :: Category.condition.tokens
        (x.canonical (d.settled (settingOf plus text)).scope)) written.toList := by
  set setting := settingOf plus text with hsetting
  have hfresh := fresh_settingOf plus text
  have hcondition : ∀ u ∈ Category.condition.tokens x, u.Proper := fun u hu =>
    Document.statement_proper h.proper hx u
      (List.mem_append_right _ (List.mem_cons_of_mem _ hu))
  have hstatement : ∀ y ∈ d.statement,
      Gives ((d.style dialect setting).statement (statementElement (d.settled setting).scope y))
        ((d.style dialect setting).Allows
          (Category.condition.IsPlain (x.canonical (d.settled setting).scope)))
        fun text => Scan.Finishes (.keyword .insert :: .fragment content :: .keyword .fromWord ::
          Category.condition.tokens (x.canonical (d.settled setting).scope)) text.toList := by
    intro y hy
    obtain rfl := Option.some.inj (hx.symm.trans hy)
    exact insertion_gives (Document.style_suits dialect setting d) (h.continued hx)
      ((h.fits.statement _ hx).2 (isWhere, x) rfl) hcondition
  obtain ⟨-, front, rules, tail, rfl, hfront, hrules, -, htail⟩ :=
    (Document.render_lines h.fits hfresh h.proper hstatement).holds hrender
  have hbindings : Preamble (d.bindingLines dialect setting) := by
    refine preamble_join fun line hline => ?_
    obtain ⟨b, hb, rfl⟩ := List.mem_map.mp hline
    exact Document.preamble_bindingLine h.fits hfresh h.proper hb (hiris b hb)
  have hhead : Preamble front := by
    refine ⟨_, hfront, ?_⟩
    cases d.base? <;> cases dialect <;> simp [canonicalVersion, Directive.tokens]
  have hbehind : Preamble rules := by
    refine ⟨_, hrules, fun hmem => ?_⟩
    obtain ⟨r, -, hr⟩ := List.mem_flatMap.mp hmem
    cases onlyNot_rule r _ hr
  obtain ⟨ts, hsealed, hnone⟩ := (hhead.append hbindings).append hbehind
  refine ⟨ts, hnone, ?_⟩
  have hall := hsealed.finishes (htail _ hx)
  rwa [← String.toList_append] at hall

end IsDocument

end Phrase

open Phrase Grammar

/--
Topic map content with a condition behind it is rendered so that behind `insert` it is scanned
as it was, and behind it `from` and the condition.
-/
theorem insertion_rescanned {dialect : Dialect} {plus : Bool} {text content written : String}
    {tree : Element} (hparses : (parse text plus).fault = none)
    (hiris : ∀ iri ∈ boundIris (parse text plus).events, ∀ ch ∈ iri.toList,
      Lexeme.isIriPart ch = true)
    (hcontent : .leaf (.content content) ∈ (parse text plus).events)
    (hwhere : .enter .condition ∈ (parse text plus).events)
    (htree : Element.ofText plus text = .ok tree)
    (hwritten : tree.toText dialect false = .ok written) :
    ∃ d isWhere x front, IsDocument plus text d ∧
      d.statement = some (.change (.insert content) (some (isWhere, x))) ∧
      (scan written).fault = none ∧ .keyword .insert ∉ front ∧
      (scan written).tokens.map (·.token) = front ++ .keyword .insert :: .fragment content ::
        .keyword .fromWord ::
          Category.condition.tokens (x.canonical (d.settled (settingOf plus text)).scope) := by
  obtain ⟨d, h⟩ := exists_document hparses
  have hfresh := fresh_settingOf plus text
  rw [h.events] at hiris hcontent hwhere
  obtain ⟨isWhere, x, hx⟩ := Document.exists_insertion hcontent hwhere
  have hprefixes : ∀ b ∈ d.prefixes (settingOf plus text), ∀ ch ∈ b.iri.toList,
      Lexeme.isIriPart ch = true := fun b hb => hiris b.iri
    (List.mem_filterMap.mpr ⟨_, (Document.binding_mem_iff h.fits hfresh).mpr hb, rfl⟩)
  obtain rfl := Except.ok.inj (h.tree.symm.trans htree)
  obtain ⟨front, hnone, hscan⟩ := h.finishes_insertion hx hprefixes (toText_of_render.mp hwritten)
  obtain ⟨htokens, hfault⟩ := hscan .start
  exact ⟨d, isWhere, x, front, h, hx, hfault, hnone, htokens⟩

/-- An insertion whose content has `from` in front of a quote, a dot and a hash sign. -/
def insertionOfWords : String :=
  "import \"\" as m insert x - \"a from b\" . from #c\nfrom-d from p($x), q($x, 1)"

theorem insertion_rescanned_words :
    ∃ tree written d isWhere x front, Element.ofText false insertionOfWords = .ok tree ∧
      tree.toText .plus false = .ok written ∧ IsDocument false insertionOfWords d ∧
      d.statement = some (.change (.insert "x - \"a from b\" . from #c\nfrom-d")
        (some (isWhere, x))) ∧
      (scan written).fault = none ∧ .keyword .insert ∉ front ∧
      (scan written).tokens.map (·.token) = front ++ .keyword .insert ::
        .fragment "x - \"a from b\" . from #c\nfrom-d" :: .keyword .fromWord ::
          Category.condition.tokens
            (x.canonical (d.settled (settingOf false insertionOfWords)).scope) := by
  suffices h : _ ∧ (∀ iri ∈ boundIris (parse insertionOfWords false).events,
      iri.toList.all Lexeme.isIriPart = true) ∧ _ ∧ _ ∧ _ by
    obtain ⟨hparses, hiris, hcontent, hwhere, hwrites⟩ := h
    obtain ⟨tree, written, htree, hwritten⟩ := exists_written hwrites
    obtain ⟨d, isWhere, x, front, hrescanned⟩ := insertion_rescanned hparses
      (fun iri hiri => List.all_eq_true.mp (hiris iri hiri)) hcontent hwhere htree hwritten
    exact ⟨tree, written, d, isWhere, x, front, htree, hwritten, hrescanned⟩
  decide +kernel

end TopicQuery
