import TopicQuery.Proofs.Canonical.Document
import TopicQuery.Proofs.Rendered.Statement

/-!
Rendered texts. Every directive and every rule is written on a line of its own,
so what is written behind one line is scanned as if it stood alone.
-/

namespace TopicQuery.Phrase

open Grammar Style

variable {s : Style} {c : Scope}

/-! ## Lines -/

/-- Lines behind each other are scanned one by one. -/
theorem sealed_join {α : Type} {tokens : α → List Token} {xs : List α} {lines : List String}
    (h : List.Forall₂ (fun x line => Sealed (tokens x) line) xs lines) :
    Sealed (xs.flatMap tokens) (String.join lines) := by
  induction h with
  | nil => exact sealed_nil
  | cons hfirst _ ih =>
      rw [List.flatMap_cons, String.join_cons]
      exact hfirst.append ih

theorem spelled_identifier {name : String} (h : (Token.atom .identifier name).Proper) :
    Spelled [.atom .identifier name] name := spelled_atom h

/-- The words of the directives that are written. -/
theorem proper_directive {word : String} (h : word ∈ ["prefix", "import", "base", "version"]) :
    (Token.directive word).Proper := by
  have hnames : ∀ word ∈ ["prefix", "import", "base", "version"],
      Lexeme.IsName Text.isNameStart word.toList := by decide
  exact hnames word h

theorem sealed_prefix_word (word : String) (h : (Token.directive word).Proper) :
    Sealed [.directive word] ("%" ++ word ++ " ") := by
  have hword := spelled_token (fun _ => Lexeme.reads_directive h) (by simp) (by simp)
  rw [show (Token.directive word).written = ("%" ++ word).toList from rfl,
    String.ofList_toList] at hword
  exact hword.blank

/-! ## Directives -/

/-- The binding of a prefix as it is written in a dialect. -/
def canonicalBinding (dialect : Dialect) (b : Prefixed) : Directive :=
  .binding (canonicalBinder dialect b.kind) b

/-- The line that binds a prefix. -/
def bindingLine (dialect : Dialect) (b : Prefixed) : String :=
  (⟨dialect, false, []⟩ : Style).directive b.identifier b.iri b.kind ++ "\n"

/-- A binding is written on a line. -/
theorem sealed_bindingLine {dialect : Dialect} {b : Prefixed}
    (hproper : ∀ u ∈ (canonicalBinding dialect b).tokens, u.Proper) :
    Sealed (canonicalBinding dialect b).tokens (bindingLine dialect b) := by
  obtain ⟨identifier, iri, kind⟩ := b
  have hangle : ∀ {word : String}, (Token.directive word).Proper →
      (Token.atom .identifier identifier).Proper → (Token.atom .iri iri).Proper →
      Sealed [.directive word, .atom .identifier identifier, .atom .iri iri]
        ("%" ++ word ++ " " ++ identifier ++ " <" ++ iri ++ ">" ++ "\n") := by
    intro word hword hidentifier hiri
    have hall := ((sealed_prefix_word word hword).append (spelled_identifier hidentifier).blank
      |>.append_spelled (spelled_atom hiri)).append_sealed sealed_newline (by decide) (by decide)
    rw [show (" <" : String) = " " ++ "<" from rfl]
    simpa [-String.reduceAppend, Style.atom, AtomKind.write, String.append_assoc] using hall
  have husing : ∀ {atomKind : AtomKind} {letter : String},
      Style.atom atomKind iri = letter ++ quoted iri →
      (Token.atom .identifier identifier).Proper → (Token.atom atomKind iri).Proper →
      Sealed [.keyword .usingWord, .atom .identifier identifier, .keyword .forWord,
        .atom atomKind iri] ("using " ++ identifier ++ " for " ++ letter ++ quoted iri ++ "\n") := by
    intro atomKind letter hletter hidentifier hiri
    have hfor : Sealed [.keyword .forWord] " for " :=
      (sealed_keyword_blank .forWord (by simp)).behind_blank
    have hall := (((sealed_keyword_blank .usingWord (by simp)).append
      ((spelled_identifier hidentifier).append_sealed hfor (by decide) (by decide))).append_spelled
        (spelled_atom hiri)).append_sealed sealed_newline (by decide) (by decide)
    simpa [hletter, Keyword.text, String.append_assoc] using hall
  have hparts : ∀ {t : Token}, t ∈ (canonicalBinding dialect ⟨identifier, iri, kind⟩).tokens →
      t.Proper := hproper _
  cases kind with
  | subjectIdentifier =>
      cases dialect with
      | legacy =>
          exact husing rfl (hparts (by simp [canonicalBinding, canonicalBinder, Directive.tokens]))
            (hparts (by simp [canonicalBinding, canonicalBinder, Directive.tokens]))
      | plus =>
          exact hangle (proper_directive (by simp))
            (hparts (by simp [canonicalBinding, canonicalBinder, Directive.tokens]))
            (hparts (by simp [canonicalBinding, canonicalBinder, Directive.tokens]))
  | subjectLocator =>
      cases dialect <;>
        exact husing rfl (hparts (by simp [canonicalBinding, canonicalBinder, Directive.tokens]))
          (hparts (by simp [canonicalBinding, canonicalBinder, Directive.tokens]))
  | itemIdentifier =>
      cases dialect <;>
        exact husing rfl (hparts (by simp [canonicalBinding, canonicalBinder, Directive.tokens]))
          (hparts (by simp [canonicalBinding, canonicalBinder, Directive.tokens]))
  | module =>
      cases dialect with
      | legacy =>
          have hidentifier : (Token.atom .identifier identifier).Proper :=
            hparts (by simp [canonicalBinding, canonicalBinder, Directive.tokens])
          have has : Sealed [.keyword .asWord] " as " :=
            (sealed_keyword_blank .asWord (by simp)).behind_blank
          have hiri : Spelled [.atom .string iri] (quoted iri) :=
            @spelled_atom .string iri trivial
          have hall := (((sealed_keyword_blank .importWord (by simp)).append
            (hiri.append_sealed has (by decide) (by decide))).append_spelled
              (spelled_identifier hidentifier)).append_sealed sealed_newline (by decide) (by decide)
          simpa [canonicalBinding, canonicalBinder, Directive.tokens, bindingLine, Style.directive,
            Keyword.text, String.append_assoc] using hall
      | plus =>
          exact hangle (proper_directive (by simp))
            (hparts (by simp [canonicalBinding, canonicalBinder, Directive.tokens]))
            (hparts (by simp [canonicalBinding, canonicalBinder, Directive.tokens]))

/-- What is written for a binding, and what it binds. -/
theorem binding_eq (s : Style) (b : Prefixed) :
    s.binding (Directive.bindingLeaf b).element =
      .ok (bindingLine s.dialect b, b.identifier, b.kind) := by
  obtain ⟨identifier, iri, kind⟩ := b
  obtain ⟨dialect, hints, kinds⟩ := s
  cases kind <;> cases dialect <;> rfl

theorem base_gives {tree : Element} {base : Option String}
    (htree : tree.child? "base" = base.map fun iri => (Leaf.base iri).element)
    (hproper : ∀ iri ∈ base, (Token.atom .iri iri).Proper) :
    Gives (s.baseDirective tree) (s.Allows (base = none))
      (Sealed ((base.toList.map Directive.base).flatMap Directive.tokens)) := by
  unfold Style.baseDirective
  rw [htree]
  cases base with
  | none => exact (gives_ok sealed_nil).of_iff (by simp [Allows])
  | some iri =>
      refine ((gives_requirePlus .base).map (f := fun _ => "%base <" ++ iri ++ ">\n")
        fun _ => ?_).of_iff (by simp)
      have hall := ((sealed_prefix_word "base" (proper_directive (by simp)))
        |>.append_spelled (spelled_atom (hproper iri rfl))).append_sealed sealed_newline (by decide)
          (by decide)
      rw [show ("%base <" : String) = "%" ++ "base" ++ " " ++ "<" from rfl,
        show (">\n" : String) = ">" ++ "\n" from rfl]
      simpa [-String.reduceAppend, Style.atom, AtomKind.write, Directive.tokens,
        String.append_assoc] using hall

theorem sealed_version (dialect : Dialect) :
    Sealed ((canonicalVersion dialect).flatMap Directive.tokens)
      (if dialect = .plus then "%version 1.2\n" else "") := by
  cases dialect with
  | legacy => exact sealed_nil
  | plus =>
      have hnumber : (Token.atom .decimal "1.2").Proper :=
        ⟨'1', ['.', '2'], rfl, by decide, by decide⟩
      have hline := ((sealed_prefix_word "version" (proper_directive (by simp)))
        |>.append_spelled (spelled_atom hnumber)).append_sealed sealed_newline (by decide) (by decide)
      simpa [canonicalVersion, Directive.tokens, Style.atom, AtomKind.write] using hline

/-! ## Rules -/

/-- The element of a rule. -/
def ruleElement (c : Scope) (r : Rule) : Element :=
  ⟨"rule", [("name", r.name)], none,
    (r.parameters.map fun v => (Leaf.atom .var v).element) ++
      [⟨"body", [], none, Outline.elements (r.body.outlines c)⟩]⟩

theorem elements_rule (r : Rule) :
    Outline.elements (Category.rule.outlines c r) = [ruleElement c r] := by
  have hwithin : Outline.elements (Category.rule.outlines c r) =
      [⟨"rule", [("name", r.name)], none, Outline.elements
        (Category.parameter.list.outlines c r.parameters ++
          [Outline.within .body (r.body.outlines c)])⟩] := rfl
  have hparameters : Outline.elements (Category.parameter.list.outlines c r.parameters) =
      r.parameters.map fun v => (Leaf.atom .var v).element := by
    simp [Category.list, Category.parameter, Outline.elements_eq_map, Outline.element,
      ← List.map_eq_flatMap, Function.comp_def]
  rw [hwithin, elements_append, hparameters]
  rfl

/-- A rule ends its line. -/
theorem sealed_ruleLine {ts us : List Token} {head clauses : String} (hhead : Spelled ts head)
    (hclauses : Spelled us clauses) :
    Sealed (ts ++ [Token.symbol .implies] ++ us ++ [Token.symbol .dot])
      (head ++ " :- " ++ clauses ++ " .\n") := by
  have himplies : Sealed [.symbol .implies] " :- " := by
    have hmark := spelled_mark (by decide : Symbol.implies ∈ Lexeme.softMarks)
    simpa [Symbol.text] using hmark.blank.behind_blank
  have hdot : Sealed [.symbol .dot] " .\n" := by
    have hmark := spelled_mark (by decide : Symbol.dot ∈ Lexeme.softMarks)
    simpa [Symbol.text] using hmark.behind_blank.append_sealed sealed_newline (by decide) (by decide)
  exact ((hhead.append_sealed himplies (by decide) (by decide)).append_spelled hclauses).append_sealed
    hdot (by decide) (by decide)

theorem parameter_proper {r : Rule} (hproper : ∀ u ∈ Category.rule.tokens r, u.Proper) :
    ∀ v ∈ r.parameters, (Token.atom .var v).Proper := by
  intro v hv
  refine hproper _ (List.mem_cons_of_mem _ (List.mem_cons_of_mem _ (List.mem_append_left _ ?_)))
  exact mem_listed_of_mem hv List.mem_cons_self

/-- A rule is written on a line, in canonical form. -/
theorem rule_gives (hs : s.Suits c) {r : Rule} (hrefers : Category.rule.Refers c r)
    (hproper : ∀ u ∈ Category.rule.tokens r, u.Proper) :
    Gives (s.rule (ruleElement c r)) (s.Allows (Category.rule.IsPlain (r.canonical c)))
      (Sealed (Category.rule.tokens (r.canonical c))) := by
  obtain ⟨name, parameters, body⟩ := r
  have hname : (Token.atom .identifier name).Proper := hproper _ (by simp [Category.rule])
  have hparameter : ∀ v ∈ parameters, (Token.atom .var v).Proper := parameter_proper hproper
  have hbody : ∀ u ∈ body.tokens, u.Proper := fun u hu => hproper u (by simp [Category.rule, hu])
  have hvariables : Gives
      ((parameters.map fun v => (Leaf.atom .var v).element).mapM Style.variableText) True
      fun texts => Spelled (Category.parameter.list.tokens parameters) (commaList texts) := by
    rw [List.mapM_map]
    refine ((gives_mapM (P := fun _ => True) (Q := fun v => Spelled [.atom .var v])
      fun v hv => gives_ok (spelled_variable (hparameter v hv))).of_iff (by simp)).imp ?_
    exact fun htexts => spelled_commaList htexts
  have hclauses : Gives (s.clauseList ⟨"body", [], none, Outline.elements (body.outlines c)⟩)
      (s.Allows (body.canonical c).IsPlain) (Spelled (body.canonical c).tokens) :=
    (body.writes hs hrefers hbody).map fun {texts} htexts => by simpa [hs.comment] using htexts.2
  have hfilter : (ruleElement c ⟨name, parameters, body⟩).children.filter (·.name == "variable") =
      parameters.map fun v => (Leaf.atom .var v).element := by
    rw [ruleElement, List.filter_append]
    simp [Leaf.element, Leaf.name, AtomKind.name]
  have hchild : (ruleElement c ⟨name, parameters, body⟩).child? "body" =
      some ⟨"body", [], none, Outline.elements (body.outlines c)⟩ := by
    have hnone : (parameters.map fun v => (Leaf.atom .var v).element).find? (·.name == "body") =
        none := by
      simp [Leaf.element, Leaf.name, AtomKind.name]
    rw [ruleElement, Element.child?, List.find?_append, hnone]
    rfl
  have hrule : s.rule (ruleElement c ⟨name, parameters, body⟩) =
      ((parameters.map fun v => (Leaf.atom .var v).element).mapM Style.variableText >>= fun texts =>
        s.clauseList ⟨"body", [], none, Outline.elements (body.outlines c)⟩ >>= fun clauses =>
          .ok (application name texts ++ " :- " ++ clauses ++ " .\n")) := by
    unfold Style.rule
    rw [hfilter, hchild]
    simp only [hs.comment, String.empty_append]
    rfl
  rw [hrule]
  refine (hvariables.bind fun texts htexts => hclauses.map fun {clauses} hclauses => ?_).of_iff
    (by simp [Category.rule, Rule.canonical])
  have hall := sealed_ruleLine (spelled_application (spelled_identifier hname) htexts) hclauses
  simpa [Category.rule, Rule.canonical] using hall

/-! ## Texts -/

/-- The header of a rendered text, and the kinds of the prefixes that it binds. -/
def header (dialect : Dialect) (tree : Element) :
    Except RenderFault (String × List (String × ReferenceKind)) := do
  let style : Style := ⟨dialect, false, []⟩
  let base ← style.baseDirective tree
  let bindings ← (tree.children.filter (·.name == "namespace")).mapM style.binding
  return (base ++ (if dialect = .plus then "%version 1.2\n" else "") ++
    String.join (bindings.map Prod.fst), (bindings.map Prod.snd).reverse)

namespace Document

variable {d : Document} {dialect : Dialect}

/-- The style in which a text is rendered. -/
def style (dialect : Dialect) (c : Setting) (d : Document) : Style :=
  ⟨dialect, false, (d.settled c).bindings.map fun b => (b.identifier, b.kind)⟩

theorem style_suits (dialect : Dialect) (c : Setting) (d : Document) :
    (d.style dialect c).Suits (d.settled c).scope where
  hints := rfl
  kinds qualifier := by
    simp [Style.kind?, style, Scope.kind?, List.find?_map, Function.comp_def]

/-- The tokens of a rendered text in front of its statement. -/
def headTokens (dialect : Dialect) (c : Setting) (d : Document) : List Token :=
  (d.canonical dialect c).directives.flatMap Directive.tokens ++
    (d.canonical dialect c).rules.flatMap Category.rule.tokens

/-- The element of the base, if there is one. -/
def baseElements (d : Document) : List Element :=
  d.base?.toList.map fun iri => (Leaf.base iri).element

/-- The elements of the prefixes. -/
def bindingElements (c : Setting) (d : Document) : List Element :=
  (d.prefixes c).map fun b => (Directive.bindingLeaf b).element

/-- The elements of the rules. -/
def ruleElements (c : Setting) (d : Document) : List Element :=
  d.rules.map (ruleElement (d.settled c).scope)

/-- The element of the statement, if there is one. -/
def statementElements (c : Setting) (d : Document) : List Element :=
  d.statement.toList.map (statementElement (d.settled c).scope)

theorem element_outline {c : Setting} (hfits : d.Fits c) (hc : Fresh c) :
    (d.outline c).element = ⟨"tolog", [], none, d.baseElements ++ (d.bindingElements c ++
      (d.ruleElements c ++ d.statementElements c))⟩ := by
  have hleaves : Outline.elements ((Directive.leavesAll c d.directives).map .leaf) =
      d.baseElements ++ d.bindingElements c := by
    rw [leavesAll_eq hfits hc, baseElements, bindingElements]
    simp [Outline.elements_eq_map, Outline.element, Function.comp_def]
  have hrules : Outline.elements (d.rules.flatMap
      (Category.rule.outlines (d.settled c).scope)) = d.ruleElements c := by
    rw [ruleElements]
    induction d.rules with
    | nil => rfl
    | cons r rs ih => rw [List.flatMap_cons, elements_append, elements_rule, ih]; rfl
  have hstatement : Outline.elements (d.statement.toList.flatMap
      (Category.statement.outlines (d.settled c).scope)) = d.statementElements c := by
    rw [statementElements]
    cases d.statement with
    | none => rfl
    | some x => simp [elements_statement]
  rw [outline, Outline.element, elements_append, elements_append, hleaves, hrules, hstatement,
    List.append_assoc]
  rfl

/-- The names of the elements of statements. -/
def statementNames : List String :=
  ["select", "insert", "update", "delete", "merge", "load", "drop", "create"]

theorem statementElement_name {scope : Scope} (x : Statement) :
    (statementElement scope x).name ∈ statementNames := by
  cases x with
  | change x y =>
      cases x <;>
        simp [statementElement, statementNames, Change.container, Container.tag, Tag.name]
  | _ => simp [statementElement, statementNames]

theorem part_statement {scope : Scope} (x : Statement) :
    s.part (statementElement scope x) = s.statement (statementElement scope x) := by
  cases x with
  | change x y => cases x <;> rfl
  | _ => rfl

/-- The parts of a text do not stand in its header. -/
theorem parts_names {c : Setting} : ∀ e ∈ d.ruleElements c ++ d.statementElements c,
    e.name ≠ "base" ∧ e.name ≠ "namespace" := by
  refine List.forall_mem_append.mpr ⟨List.forall_mem_map.mpr fun r _ => ?_,
    List.forall_mem_map.mpr fun x _ => ?_⟩
  · exact ⟨by simp [ruleElement], by simp [ruleElement]⟩
  · have hnames : ∀ n ∈ statementNames, n ≠ "base" ∧ n ≠ "namespace" := by decide
    exact hnames _ (statementElement_name x)

section Header

variable {c : Setting} {parts : List Element}
  (hparts : ∀ e ∈ parts, e.name ≠ "base" ∧ e.name ≠ "namespace")

include hparts

theorem child?_base :
    Element.child? ⟨"tolog", [], none, d.baseElements ++ (d.bindingElements c ++ parts)⟩ "base" =
      d.base?.map fun iri => (Leaf.base iri).element := by
  rw [Element.child?, baseElements]
  cases d.base? with
  | some iri => rfl
  | none =>
      rw [Option.toList_none, List.map_nil, List.nil_append]
      refine List.find?_eq_none.mpr fun e he => ?_
      obtain he | he := List.mem_append.mp he
      · obtain ⟨b, -, rfl⟩ := List.mem_map.mp he
        simp [Directive.bindingLeaf, Leaf.element, Leaf.name]
      · simp [(hparts e he).1]

theorem filter_namespace :
    (d.baseElements ++ (d.bindingElements c ++ parts)).filter (·.name == "namespace") =
      d.bindingElements c := by
  have hbase : d.baseElements.filter (·.name == "namespace") = [] := by
    simp [baseElements, Leaf.element, Leaf.name]
  have hbindings : (d.bindingElements c).filter (·.name == "namespace") = d.bindingElements c := by
    simp [bindingElements, Directive.bindingLeaf, Leaf.element, Leaf.name]
  have hrest : parts.filter (·.name == "namespace") = [] :=
    List.filter_eq_nil_iff.mpr fun e he => by simp [(hparts e he).2]
  rw [List.filter_append, List.filter_append, hbase, hbindings, hrest]
  simp

end Header

/-- The tokens in which a text is written are those that a scanner could make. -/
structure Written (dialect : Dialect) (c : Setting) (d : Document) : Prop where
  proper : ∀ t ∈ d.tokens, t.Proper
  bindings : ∀ b ∈ d.prefixes c, ∀ t ∈ (canonicalBinding dialect b).tokens, t.Proper

variable {c : Setting}

section Proper

variable (hproper : ∀ t ∈ d.tokens, t.Proper)

include hproper

theorem base_proper : ∀ iri ∈ d.base?, (Token.atom .iri iri).Proper := by
  intro iri hiri
  obtain ⟨directive, hhead, hbase⟩ := Option.bind_eq_some_iff.mp hiri
  have hmem : directive ∈ d.directives := List.mem_of_head? hhead
  cases directive with
  | base found =>
      cases hbase
      refine hproper _ (List.mem_append_left _ (List.mem_flatMap.mpr ⟨_, hmem, ?_⟩))
      exact List.mem_cons_of_mem _ List.mem_cons_self
  | _ => simp [Directive.base?] at hbase

theorem rule_proper {r : Rule} (hr : r ∈ d.rules) : ∀ t ∈ Category.rule.tokens r, t.Proper :=
  fun t ht => hproper t (List.mem_append_right _ (List.mem_append_left _
    (List.mem_flatMap.mpr ⟨r, hr, ht⟩)))

theorem statement_proper {x : Statement} (hx : x ∈ d.statement) :
    ∀ t ∈ Category.statement.tokens x, t.Proper := fun t ht =>
  hproper t (List.mem_append_right _ (List.mem_append_right _ (List.mem_append_left _
    (List.mem_flatMap.mpr ⟨x, by simpa using hx, ht⟩))))

end Proper

theorem Written.statement (h : d.Written dialect c) {x : Statement} (hx : x ∈ d.statement) :
    ∀ t ∈ Category.statement.tokens x, t.Proper := statement_proper h.proper hx

/-- The bindings of a text are written one by one. -/
theorem bindings_eq (s : Style) (d : Document) (c : Setting) :
    (d.bindingElements c).mapM s.binding =
      .ok ((d.prefixes c).map fun b => (bindingLine s.dialect b, b.identifier, b.kind)) := by
  rw [bindingElements]
  induction d.prefixes c with
  | nil => rfl
  | cons b bs ih => rw [List.map_cons, List.mapM_cons, binding_eq, ih]; rfl

/-- The lines of the bindings of a text. -/
def bindingLines (dialect : Dialect) (c : Setting) (d : Document) : String :=
  String.join ((d.prefixes c).map (bindingLine dialect))

theorem sealed_bindingLines (h : d.Written dialect c) :
    Sealed ((canonicalBindings dialect (d.prefixes c)).flatMap Directive.tokens)
      (d.bindingLines dialect c) := by
  rw [canonicalBindings, List.flatMap_map]
  refine sealed_join (List.forall₂_map_right_iff.mpr (List.forall₂_same.mpr fun b hb => ?_))
  exact sealed_bindingLine (h.bindings b hb)

/-- The header adds nothing to the lines behind it. -/
theorem header_parts (s : Style) :
    d.baseElements.mapM s.part = .ok (d.baseElements.map fun _ => "") ∧
      (d.bindingElements c).mapM s.part = .ok ((d.bindingElements c).map fun _ => "") := by
  have hall : ∀ es : List Element, (∀ e ∈ es, s.part e = .ok "") →
      es.mapM s.part = .ok (es.map fun _ => "") := by
    intro es hes
    induction es with
    | nil => rfl
    | cons e es ih =>
        rw [List.mapM_cons, hes e (by simp), ih fun e he => hes e (by simp [he])]
        rfl
  refine ⟨hall _ fun e he => ?_, hall _ fun e he => ?_⟩
  · obtain ⟨iri, -, rfl⟩ := List.mem_map.mp he
    rfl
  · obtain ⟨b, -, rfl⟩ := List.mem_map.mp he
    rfl

theorem join_replicate_empty (n : Nat) : String.join (List.replicate n "") = "" := by
  induction n with
  | zero => rfl
  | succ n ih => rw [List.replicate_succ, String.join_cons, ih]; rfl

/-- The lines behind the header: one for each rule, and the statement. -/
theorem parts_gives (hs : s = d.style dialect c) (hfits : d.Fits c)
    (hproper : ∀ t ∈ d.tokens, t.Proper) {plain : Statement → Prop} {Q : Statement → String → Prop}
    (hstatement : ∀ x ∈ d.statement,
      Gives ((d.style dialect c).statement (statementElement (d.settled c).scope x))
        ((d.style dialect c).Allows (plain x)) (Q x)) :
    Gives ((d.ruleElements c ++ d.statementElements c).mapM s.part)
      ((d.style dialect c).Allows
        ((∀ r ∈ d.rules, Category.rule.IsPlain (r.canonical (d.settled c).scope)) ∧
          ∀ x ∈ d.statement, plain x))
      fun parts => ∃ head tail, String.join parts = head ++ tail ∧
        Sealed ((d.canonical dialect c).rules.flatMap Category.rule.tokens) head ∧
        (d.statement = none → tail = "") ∧ ∀ x ∈ d.statement, Q x tail := by
  subst hs
  have hrules : Gives ((d.ruleElements c).mapM (d.style dialect c).part)
      ((d.style dialect c).Allows
        (∀ r ∈ d.rules, Category.rule.IsPlain (r.canonical (d.settled c).scope)))
      fun lines => Sealed ((d.canonical dialect c).rules.flatMap Category.rule.tokens)
        (String.join lines) := by
    rw [ruleElements, List.mapM_map, canonical, List.flatMap_map]
    exact ((gives_mapM fun r hr => rule_gives (style_suits dialect c d) (hfits.rules r hr)
      (rule_proper hproper hr)).of_iff allows_forall.symm).imp sealed_join
  have hlast : Gives ((d.statementElements c).mapM (d.style dialect c).part)
      ((d.style dialect c).Allows (∀ x ∈ d.statement, plain x))
      fun lines => (d.statement = none → String.join lines = "") ∧
        ∀ x ∈ d.statement, Q x (String.join lines) := by
    rw [statementElements]
    cases hx : d.statement with
    | none => exact (gives_ok (by simp)).of_iff (by simp [Allows])
    | some x =>
        rw [Option.toList_some, List.map_singleton, List.mapM_cons, part_statement]
        refine ((hstatement x hx).map (f := fun line => [line]) fun {line} hline => ?_).of_iff
          (by simp)
        simpa using hline
  rw [List.mapM_append]
  refine (hrules.bind fun lines hlines => hlast.map (f := fun last => lines ++ last)
    fun {last} hlast => ?_).of_iff allows_and.symm
  exact ⟨String.join lines, String.join last, String.join_append, hlines, hlast.1, hlast.2⟩

/-- A text is rendered as its header and its parts behind it. -/
theorem render_eq {hints : Bool} {tree : Element} (hname : tree.name = "tolog") :
    render dialect hints tree = (header dialect tree >>= fun front =>
      tree.children.mapM (⟨dialect, hints, front.2⟩ : Style).part >>= fun parts =>
        .ok (front.1 ++ String.join parts)) := by
  unfold render header
  rw [if_neg (by simp [hname])]
  simp only [bind_assoc]
  rfl

/-- Nothing is written for the elements of the header among the parts. -/
theorem render_parts (hints : Bool) (parts : List Element) :
    render dialect hints ⟨"tolog", [], none, d.baseElements ++ (d.bindingElements c ++ parts)⟩ =
      (header dialect ⟨"tolog", [], none, d.baseElements ++ (d.bindingElements c ++ parts)⟩ >>=
        fun front => parts.mapM (⟨dialect, hints, front.2⟩ : Style).part >>= fun lines =>
          .ok (front.1 ++ String.join lines)) := by
  rw [render_eq rfl]
  refine bind_congr fun front => ?_
  rw [List.mapM_append, List.mapM_append, (header_parts (c := c) _).1, (header_parts _).2]
  simp only [ok_bind, bind_assoc]
  refine bind_congr fun lines => ?_
  exact congrArg Except.ok (by simp [String.join_append, join_replicate_empty])

/-- The header is the base, the version and a line for each prefix, whatever stands behind it. -/
theorem front_gives (hproper : ∀ t ∈ d.tokens, t.Proper) {parts : List Element}
    (hparts : ∀ e ∈ parts, e.name ≠ "base" ∧ e.name ≠ "namespace") :
    Gives (header dialect ⟨"tolog", [], none, d.baseElements ++ (d.bindingElements c ++ parts)⟩)
      (dialect = .plus ∨ d.base? = none)
      fun text => ∃ front, text = (front ++ d.bindingLines dialect c, (d.style dialect c).kinds) ∧
        Sealed ((d.base?.toList.map Directive.base ++ canonicalVersion dialect).flatMap
          Directive.tokens) front := by
  have hbase := base_gives (s := ⟨dialect, false, []⟩) (child?_base (d := d) (c := c) hparts)
    (base_proper hproper)
  unfold header
  simp only [filter_namespace hparts, bindings_eq, ok_bind]
  refine (hbase.map fun {base} hbase => ?_).of_iff (by simp [Allows])
  refine ⟨base ++ (if dialect = .plus then "%version 1.2\n" else ""), ?_, ?_⟩
  · rw [List.map_map, List.map_map, style, prefixes, ← List.map_reverse, List.reverse_reverse]
    rfl
  · rw [List.flatMap_append]
    exact hbase.append (sealed_version dialect)

/-- The header of a text is its base, its version and a line for each prefix. -/
theorem header_gives (hfits : d.Fits c) (hc : Fresh c) (hproper : ∀ t ∈ d.tokens, t.Proper) :
    Gives (header dialect (d.outline c).element) (dialect = .plus ∨ d.base? = none)
      fun text => ∃ front, text = (front ++ d.bindingLines dialect c, (d.style dialect c).kinds) ∧
        Sealed ((d.base?.toList.map Directive.base ++ canonicalVersion dialect).flatMap
          Directive.tokens) front := by
  rw [element_outline hfits hc]
  exact front_gives hproper parts_names

/-- What a text is rendered as if its dialect allows it, given how its statement is. -/
theorem render_lines (hfits : d.Fits c) (hc : Fresh c) (hproper : ∀ t ∈ d.tokens, t.Proper)
    {plain : Statement → Prop} {Q : Statement → String → Prop}
    (hstatement : ∀ x ∈ d.statement,
      Gives ((d.style dialect c).statement (statementElement (d.settled c).scope x))
        ((d.style dialect c).Allows (plain x)) (Q x)) :
    Gives (render dialect false (d.outline c).element)
      (dialect = .plus ∨ d.base? = none ∧
        (∀ r ∈ d.rules, Category.rule.IsPlain (r.canonical (d.settled c).scope)) ∧
          ∀ x ∈ d.statement, plain x)
      fun text => ∃ front rules tail, text = front ++ d.bindingLines dialect c ++ rules ++ tail ∧
        Sealed ((d.base?.toList.map Directive.base ++ canonicalVersion dialect).flatMap
          Directive.tokens) front ∧
        Sealed ((d.canonical dialect c).rules.flatMap Category.rule.tokens) rules ∧
        (d.statement = none → tail = "") ∧ ∀ x ∈ d.statement, Q x tail := by
  have hheader : Gives (header dialect (d.outline c).element) _ _ := header_gives hfits hc hproper
  rw [element_outline hfits hc] at hheader ⊢
  rw [render_parts]
  refine (hheader.bind fun text htext => (parts_gives ?_ hfits hproper hstatement).map
    fun {parts} hparts => ?_).of_iff ?_
  · obtain ⟨front, rfl, -⟩ := htext
    rfl
  · obtain ⟨front, rfl, hfront⟩ := htext
    obtain ⟨rules, tail, hjoin, hrules, hnone, hsome⟩ := hparts
    exact ⟨front, rules, tail, by rw [hjoin, ← String.append_assoc], hfront, hrules, hnone, hsome⟩
  · simp only [Allows, style]
    grind

/-- The lines in front of the statement are scanned as their canonical form. -/
theorem render_gives (hfits : d.Fits c) (hc : Fresh c) (h : d.Written dialect c)
    {plain : Statement → Prop} {Q : Statement → String → Prop}
    (hstatement : ∀ x ∈ d.statement,
      Gives ((d.style dialect c).statement (statementElement (d.settled c).scope x))
        ((d.style dialect c).Allows (plain x)) (Q x)) :
    Gives (render dialect false (d.outline c).element)
      (dialect = .plus ∨ d.base? = none ∧
        (∀ r ∈ d.rules, Category.rule.IsPlain (r.canonical (d.settled c).scope)) ∧
          ∀ x ∈ d.statement, plain x)
      fun text => ∃ head tail, text = head ++ tail ∧ Sealed (d.headTokens dialect c) head ∧
        (d.statement = none → tail = "") ∧ ∀ x ∈ d.statement, Q x tail := by
  refine (render_lines hfits hc h.proper hstatement).imp fun {text} htext => ?_
  obtain ⟨front, rules, tail, rfl, hfront, hrules, hnone, hsome⟩ := htext
  refine ⟨_, tail, rfl, ?_, hnone, hsome⟩
  have hall := (hfront.append (sealed_bindingLines h)).append hrules
  simpa [headTokens, canonical, canonicalDirectives] using hall

end Document

end TopicQuery.Phrase
