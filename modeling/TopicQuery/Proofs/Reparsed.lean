import TopicQuery.Proofs.Accepted.Document
import TopicQuery.Proofs.Canonical.Repeated
import TopicQuery.Proofs.Lexeme.Scanned
import TopicQuery.Proofs.Recognized.Document
import TopicQuery.Proofs.Rendered.Document

/-!
Reparsed texts. What is written for a text is scanned as its canonical form, and
the canonical form is parsed as the text was, unless a call lost its mark.
-/

namespace TopicQuery.Phrase

open Grammar

/-! ## The phrase of a text -/

/-- What is settled before a text is parsed. -/
def settingOf (plus : Bool) (text : String) : Setting := (initial (scan text) plus).setting

theorem fresh_settingOf (plus : Bool) (text : String) : Fresh (settingOf plus text) := ⟨rfl, rfl⟩

/-- The text is parsed as the phrase. -/
structure IsDocument (plus : Bool) (text : String) (d : Document) : Prop where
  tokens : (scan text).tokens.map (·.token) = d.tokens
  fits : d.Fits (settingOf plus text)
  parses : parse text plus = ⟨(d.outline (settingOf plus text)).events, none⟩

theorem exists_document {text : String} {plus : Bool} (h : (parse text plus).fault = none) :
    ∃ d, IsDocument plus text d := by
  obtain ⟨d, htokens, -, hevents, hfits⟩ := parse_document h
  refine ⟨d, htokens, hfits, ?_⟩
  rw [← h, settingOf, ← hevents]

namespace IsDocument

variable {plus : Bool} {text : String} {d : Document}

theorem tree (h : IsDocument plus text d) :
    Element.ofText plus text = .ok (d.outline (settingOf plus text)).element :=
  Element.ofText_document h.parses

theorem events (h : IsDocument plus text d) :
    (parse text plus).events = (d.outline (settingOf plus text)).events := by rw [h.parses]

theorem proper (h : IsDocument plus text d) : ∀ t ∈ d.tokens, t.Proper := by
  intro t ht
  rw [← h.tokens] at ht
  obtain ⟨placed, hplaced, rfl⟩ := List.mem_map.mp ht
  exact proper_of_mem_scan hplaced

theorem rules (h : IsDocument plus text d) :
    (settingOf plus text).rules = d.rules.map Rule.name := by
  rw [← definedRules_document, ← h.tokens]
  rfl

end IsDocument

/-! ## What can be written -/

namespace Document

variable {c : Setting} {d : Document} {dialect : Dialect}

/-- What binds a prefix names it and its IRI by tokens of the text. -/
theorem binder_proper (hproper : ∀ t ∈ d.tokens, t.Proper) {binder : Binder} {b : Prefixed}
    (hmem : .binding binder b ∈ d.directives) :
    (Token.atom .identifier b.identifier).Proper ∧
      ∀ kind, .atom kind b.iri ∈ (Directive.binding binder b).tokens →
        (Token.atom kind b.iri).Proper := by
  have hparts : ∀ u ∈ (Directive.binding binder b).tokens, u.Proper := fun u hu =>
    hproper u (List.mem_append_left _ (List.mem_flatMap.mpr ⟨_, hmem, hu⟩))
  refine ⟨hparts _ ?_, fun kind => hparts _⟩
  cases binder <;> simp [Directive.tokens]

/-- An IRI that may stand between angle brackets may stand behind a letter, between quotes. -/
theorem quoted_proper {iri : String} (h : (Token.atom .iri iri).Proper) :
    (Token.atom .subjectIdentifier iri).Proper :=
  ⟨h.1, fun hmem => absurd (h.2 _ hmem) (by decide)⟩

/-- The IRI of a prefix that is no module can be quoted. -/
theorem reference_proper (hproper : ∀ t ∈ d.tokens, t.Proper) {binder : Binder} {b : Prefixed}
    (hmem : .binding binder b ∈ d.directives) (hdeclares : Directive.Declares binder b.kind)
    {kind : AtomKind} (hkind : declaredKind? kind = some b.kind) :
    (Token.atom kind b.iri).Proper := by
  have hiri := (binder_proper hproper hmem).2
  obtain ⟨identifier, iri, bound⟩ := b
  cases binder with
  | percentPrefix =>
      obtain rfl : bound = .subjectIdentifier := hdeclares
      obtain rfl : kind = .subjectIdentifier := by cases kind <;> simp_all [declaredKind?]
      exact quoted_proper (hiri .iri (by simp [Directive.tokens]))
  | quoted other =>
      obtain rfl : kind = other := by
        have hother : declaredKind? other = declaredKind? kind := hdeclares.trans hkind.symm
        cases kind <;> cases other <;> first | rfl | (cases hkind; done) | cases hother
      exact hiri kind (by simp [Directive.tokens])
  | percentImport =>
      obtain rfl : bound = .module := hdeclares
      cases kind <;> simp [declaredKind?] at hkind
  | imported isIri =>
      obtain rfl : bound = .module := hdeclares
      cases kind <;> simp [declaredKind?] at hkind

/-- The binding of a prefix can be written if its IRI may stand between the brackets of tolog+. -/
theorem canonicalBinding_proper (hfits : d.Fits c) (hc : Fresh c)
    (hproper : ∀ t ∈ d.tokens, t.Proper) {b : Prefixed} (hb : b ∈ d.prefixes c)
    (hiri : dialect = .plus → b.kind ∈ [.subjectIdentifier, .module] →
      (Token.atom .iri b.iri).Proper) :
    ∀ t ∈ (canonicalBinding dialect b).tokens, t.Proper := by
  intro t ht
  obtain ⟨binder, hmem, hdeclares⟩ := exists_binder hfits hc hb
  have hidentifier := (binder_proper hproper hmem).1
  have hreference : ∀ kind, declaredKind? kind = some b.kind → (Token.atom kind b.iri).Proper :=
    fun kind hkind => reference_proper hproper hmem hdeclares hkind
  obtain ⟨identifier, iri, kind⟩ := b
  cases dialect <;> cases kind <;>
    simp only [canonicalBinding, canonicalBinder, Directive.tokens, List.mem_cons,
      List.not_mem_nil, or_false] at ht <;>
    rcases ht with rfl | rfl | rfl | rfl <;>
    first
      | trivial
      | exact hidentifier
      | exact hreference _ rfl
      | exact hiri rfl (by simp)
      | exact proper_directive (by simp)

/-- The bindings of a text can be written if tolog+ has nothing against their IRIs. -/
theorem written (hfits : d.Fits c) (hc : Fresh c) (hproper : ∀ t ∈ d.tokens, t.Proper)
    (hiris : dialect = .plus → ∀ b ∈ d.prefixes c, (Token.atom .iri b.iri).Proper) :
    d.Written dialect c where
  proper := hproper
  bindings _ hb := canonicalBinding_proper hfits hc hproper hb
    fun hdialect _ => hiris hdialect _ hb

/-- Every change in the text says to what it applies. -/
def Complete (d : Document) : Prop := ∀ x ∈ d.statement, x.Complete

/-- A text is rendered as its canonical form if its statement is. -/
theorem render_finishes (hfits : d.Fits c) (hc : Fresh c) (h : d.Written dialect c)
    (hstatement : ∀ x ∈ d.statement,
      Gives ((d.style dialect c).statement (statementElement (d.settled c).scope x))
        ((d.style dialect c).Allows (Category.statement.IsPlain (x.canonical (d.settled c).scope)))
        fun text => Scan.Finishes (Category.statement.tokens (x.canonical (d.settled c).scope) ++
          questionTokens x.asks) text.toList) :
    Gives (render dialect false (d.outline c).element)
      ((dialect = .plus ∨ d.base? = none) ∧ d.Expressible c dialect)
      fun written => Scan.Finishes (d.canonical dialect c).tokens written.toList := by
  refine ((render_gives hfits hc h hstatement).of_iff ?_).imp ?_
  · simp only [Expressible]
    grind
  · rintro written ⟨head, tail, rfl, hhead, hnone, hsome⟩
    have htail : Scan.Finishes ((d.canonical dialect c).statement.toList.flatMap
        Category.statement.tokens ++ questionTokens (d.canonical dialect c).question)
          tail.toList := by
      cases hx : d.statement with
      | none =>
          rw [hnone hx]
          simpa [canonical, hx, questionTokens] using Scan.finishes_nil
      | some x => simpa [canonical, hx] using hsome x hx
    have hall := hhead.finishes htail
    rw [String.toList_append]
    simpa [headTokens, tokens] using hall

/-- A text that is complete is rendered as its canonical form, if its dialect has what that needs. -/
theorem render_complete (hfits : d.Fits c) (hc : Fresh c) (h : d.Written dialect c)
    (hcomplete : d.Complete) :
    Gives (render dialect false (d.outline c).element)
      ((dialect = .plus ∨ d.base? = none) ∧ d.Expressible c dialect)
      fun written => Scan.Finishes (d.canonical dialect c).tokens written.toList :=
  render_finishes hfits hc h fun x hx => statement_gives (style_suits dialect c d)
    (hcomplete x hx) (hfits.statement x hx) (h.statement hx)

end Document

namespace IsDocument

variable {plus : Bool} {text written : String} {d : Document} {dialect : Dialect}

/-- What is scanned as the canonical form of a text is parsed as the canonical form. -/
theorem canonical (h : IsDocument plus text d)
    (hplain : d.Expressible (settingOf plus text) dialect)
    (hscan : Scan.Finishes (d.canonical dialect (settingOf plus text)).tokens written.toList)
    (plus' : Bool) :
    IsDocument plus' written (d.canonical dialect (settingOf plus text)) ∧
      (settingOf plus' written).rules = (settingOf plus text).rules := by
  obtain ⟨htokens, hfault⟩ := hscan .start
  have hrules : (settingOf plus' written).rules = (settingOf plus text).rules := by
    have hdefined := definedRules_document (d.canonical dialect (settingOf plus text))
    rw [← htokens] at hdefined
    rw [h.rules]
    refine hdefined.trans ?_
    rw [Document.canonical, List.map_map]
    rfl
  have hfits := Document.fits_canonical h.fits (fresh_settingOf plus text)
    (fresh_settingOf plus' written) hrules hplain
  exact ⟨⟨htokens, hfits, parse_of_document htokens hfault hfits⟩, hrules⟩

/-- The canonical form of a text is parsed as the text was unless a call lost its mark. -/
theorem parse_eq_iff (h : IsDocument plus text d)
    (hplain : d.Expressible (settingOf plus text) dialect)
    (hscan : Scan.Finishes (d.canonical dialect (settingOf plus text)).tokens written.toList)
    (plus' : Bool) :
    parse written plus' = parse text plus ↔ ¬RepeatsMark (parse text plus).events := by
  obtain ⟨hcanonical, hrules⟩ := h.canonical hplain hscan plus'
  rw [h.events, ← Document.losesMark_iff h.fits (fresh_settingOf plus text),
    ← Document.outline_canonical_iff h.fits (fresh_settingOf plus text)
      (fresh_settingOf plus' written) hrules dialect, hcanonical.parses, h.parses]
  exact ⟨fun heq => Outline.events_injective (congrArg Parsed.events heq), fun heq => by rw [heq]⟩

end IsDocument

end TopicQuery.Phrase
