import TopicQuery.Element.OfEvents
import TopicQuery.Proofs.Agree
import TopicQuery.Proofs.Canonical.Clause
import TopicQuery.Proofs.Spelled

/-!
Rendered terms. A term is written as what spells its canonical form, and that
exactly if the dialect has everything the canonical form needs.
-/

namespace TopicQuery

open Phrase

/-- The step succeeds exactly under the condition, and then its value has the property. -/
structure Gives {α : Type} (r : Except RenderFault α) (P : Prop) (Q : α → Prop) : Prop where
  succeeds : P → ∃ a, r = .ok a
  holds : ∀ {a}, r = .ok a → P ∧ Q a

section Steps

variable {α β : Type} {r : Except RenderFault α} {P P' : Prop} {Q : α → Prop} {Q' : β → Prop}

theorem gives_ok {a : α} (h : Q a) : Gives (.ok a) True Q where
  succeeds _ := ⟨a, rfl⟩
  holds ha := by
    cases ha
    exact ⟨trivial, h⟩

theorem Gives.exists_ok (h : Gives r P Q) (hP : P) : ∃ a, r = .ok a ∧ Q a := by
  obtain ⟨a, ha⟩ := h.succeeds hP
  exact ⟨a, ha, (h.holds ha).2⟩

theorem Gives.imp (h : Gives r P Q) {R : α → Prop} (hR : ∀ {a}, Q a → R a) : Gives r P R where
  succeeds := h.succeeds
  holds ha := ⟨(h.holds ha).1, hR (h.holds ha).2⟩

theorem Gives.of_iff (h : Gives r P Q) (hP : P ↔ P') : Gives r P' Q where
  succeeds hP' := h.succeeds (hP.mpr hP')
  holds ha := ⟨hP.mp (h.holds ha).1, (h.holds ha).2⟩

theorem Gives.bind (h : Gives r P Q) {f : α → Except RenderFault β}
    (hf : ∀ a, Q a → Gives (f a) P' Q') : Gives (r >>= f) (P ∧ P') Q' where
  succeeds hboth := by
    obtain ⟨a, ha, hQ⟩ := h.exists_ok hboth.1
    obtain ⟨b, hb⟩ := (hf a hQ).succeeds hboth.2
    exact ⟨b, by rw [ha]; exact hb⟩
  holds {b} hb := by
    cases hr : r with
    | error fault => rw [hr] at hb; cases hb
    | ok a =>
        rw [hr] at hb
        obtain ⟨hP, hQ⟩ := h.holds hr
        obtain ⟨hP', hQ'⟩ := (hf a hQ).holds hb
        exact ⟨⟨hP, hP'⟩, hQ'⟩

/-- A step whose value is turned into another one. -/
theorem Gives.map (h : Gives r P Q) {f : α → β} (hf : ∀ {a}, Q a → Q' (f a)) :
    Gives (r >>= fun a => .ok (f a)) P Q' :=
  (h.bind fun _ ha => gives_ok (hf ha)).of_iff (Iff.of_eq (and_true P))

theorem gives_mapM {f : β → Except RenderFault α} {P : β → Prop} {Q : β → α → Prop} {xs : List β}
    (h : ∀ x ∈ xs, Gives (f x) (P x) (Q x)) :
    Gives (xs.mapM f) (∀ x ∈ xs, P x) (List.Forall₂ Q xs) := by
  induction xs with
  | nil => exact (gives_ok List.Forall₂.nil).of_iff (by simp)
  | cons x xs ih =>
      rw [List.mapM_cons]
      have hrest := ih fun y hy => h y (by simp [hy])
      refine ((h x (by simp)).bind fun a ha => hrest.map fun has => .cons ha has).of_iff ?_
      simp

end Steps

/-! ## Styles -/

namespace Style

/-- The style is the one that a text with the names of the scope is rendered in. -/
structure Suits (s : Style) (c : Scope) : Prop where
  hints : s.hints = false
  kinds : ∀ qualifier, s.kind? qualifier = c.kind? qualifier

/-- The dialect has everything that a phrase needs. -/
def Allows (s : Style) (plain : Prop) : Prop := s.dialect = .plus ∨ plain

variable {s : Style} {c : Scope}

theorem allows_true : s.Allows True ↔ True := by simp [Allows]

theorem allows_congr {p q : Prop} (h : p ↔ q) : s.Allows p ↔ s.Allows q := by
  rw [Allows, Allows, h]

theorem allows_and {p q : Prop} : s.Allows (p ∧ q) ↔ s.Allows p ∧ s.Allows q := by
  simp only [Allows]
  grind

theorem allows_forall {α : Type} {xs : List α} {p : α → Prop} :
    s.Allows (∀ x ∈ xs, p x) ↔ ∀ x ∈ xs, s.Allows (p x) := by
  simp only [Allows]
  grind

/-- A style without comments writes none. -/
theorem comment_of_hints (hs : s.hints = false) (e : Element) : s.comment e = "" := by
  simp [Style.comment, hs]

theorem Suits.comment (hs : s.Suits c) (e : Element) : s.comment e = "" := comment_of_hints hs.hints e

theorem gives_requirePlus (construct : PlusConstruct) :
    Gives (s.requirePlus construct) (s.Allows False) fun _ => True := by
  unfold requirePlus
  by_cases h : s.dialect = .plus
  · rw [if_pos h]
    exact (gives_ok trivial).of_iff (by simp [Allows, h])
  · rw [if_neg h]
    exact ⟨fun hallows => absurd hallows (by simp [Allows, h]), fun ha => by cases ha⟩

/-- The step writes what spells the tokens, if the dialect has what they need. -/
def Writes (s : Style) (r : Except RenderFault String) (plain : Prop) (ts : List Token) : Prop :=
  Gives r (s.Allows plain) (Spelled ts)

theorem writes_ok {ts : List Token} {text : String} (h : Spelled ts text) :
    s.Writes (.ok text) True ts := (gives_ok h).of_iff allows_true.symm

end Style

/-! ## Tokens of terms -/

theorem spelled_atom {kind : AtomKind} {value : String} (h : (Token.atom kind value).Proper) :
    Spelled [.atom kind value] (Style.atom kind value) := by
  have hreads : ∀ rest, Soft rest → Lexeme.Reads (.atom kind value) rest := by
    intro rest hrest
    cases kind with
    | var => exact Lexeme.reads_var h hrest
    | parameter => exact Lexeme.reads_parameter h
    | identifier => exact Lexeme.reads_identifier h hrest
    | objectId => exact Lexeme.reads_objectId h hrest
    | subjectIdentifier => exact Lexeme.reads_reference rfl h
    | subjectLocator => exact Lexeme.reads_reference rfl h
    | itemIdentifier => exact Lexeme.reads_reference rfl h
    | iri => exact Lexeme.reads_iri h
    | string => exact Lexeme.reads_string value (hrest.head?_ne (by decide))
    | integer => exact Lexeme.reads_number (by decide) h hrest
    | decimal => exact Lexeme.reads_number (by decide) h hrest
    | date => exact Lexeme.reads_number (by decide) h hrest
    | dateTime => exact Lexeme.reads_number (by decide) h hrest
  have := spelled_token hreads (by simp) (by simp)
  rwa [show (Token.atom kind value).written = (Style.atom kind value).toList from rfl,
    String.ofList_toList] at this

theorem spelled_qname {name : QualifiedName} (h : (Token.qname name).Proper) :
    Spelled [.qname name] name.text := by
  have := spelled_token (fun _ => Lexeme.reads_qname h) (by simp) (by simp)
  rwa [show (Token.qname name).written = name.text.toList from rfl, String.ofList_toList] at this

theorem spelled_curie {name : QualifiedName} (h : (Token.curie name).Proper) :
    Spelled [.curie name] ("[" ++ name.text ++ "]") := by
  have := spelled_token (fun _ _ => Lexeme.reads_curie h) (by simp) (by simp)
  rwa [show (Token.curie name).written = ("[" ++ name.text ++ "]").toList from rfl,
    String.ofList_toList] at this

/-- A circumflex, unless another one follows. -/
theorem spelled_hat {ts : List Token} {text : String} (h : Spelled ts text) {d : Char}
    {ds : List Char} (htext : text.toList = d :: ds) (hd : d ≠ '^') :
    Spelled (.symbol .hat :: ts) ("^" ++ text) := by
  intro rest hrest
  have hreads : Lexeme.Reads (.symbol .hat) (text.toList ++ rest) := by
    refine ⟨'^', [], rfl, ?_⟩
    rw [htext]
    have hfound : (Lexeme.marks.find? fun m => m.text.toList.isPrefixOf ('^' :: d :: (ds ++ rest))) =
        some .hat := by
      simp [Lexeme.marks, Symbol.text, List.isPrefixOf, Ne.symm hd]
    have hmark : Lexeme.mark? ('^' :: d :: (ds ++ rest)) = some ⟨.symbol .hat, 0⟩ := by
      rw [Lexeme.mark?, hfound]
      rfl
    have hread : Lexeme.read '^' (d :: (ds ++ rest)) = .ok ⟨.symbol .hat, 0⟩ := by
      rw [Lexeme.read, hmark]
      rfl
    rw [List.nil_append, List.cons_append, hread]
    rfl
  rw [String.toList_append]
  exact (Scan.spells_token hreads (by simp) (by simp)).append (h rest hrest)

/-- The text that a mark is written as. -/
theorem spelled_marker {m : Marker} {ts : List Token} {text : String} (h : Spelled ts text)
    {d : Char} {ds : List Char} (htext : text.toList = d :: ds) (hd : d ≠ '^') :
    Spelled (.symbol m.symbol :: ts) (m.kind.marker ++ text) := by
  cases m with
  | locator => exact (sealed_mark (by decide : Symbol.eq ∈ freeMarks)).append_spelled h
  | item => exact spelled_hat h htext hd

/-! ## Terms -/

namespace Phrase.Term

/-- The prefix of the term is bound, if it has one. -/
def Binds (c : Scope) : Term → Prop
  | qname _ name => c.Binds name.qualifier
  | curie _ name => c.Binds name.qualifier
  | _ => True

variable {c : Scope} {t : Term}

theorem binds_of_refers (h : t.Refers c) : t.Binds c := by
  cases t with
  | qname marker name => exact h.1
  | curie marker name => exact h
  | _ => trivial

theorem binds_of_names (h : t.Names c) : t.Binds c := by
  cases t with
  | qname marker name => exact h.1
  | curie marker name => exact h
  | _ => trivial

end Phrase.Term

namespace Phrase

open Style

variable {s : Style} {c : Scope}

/-- The text of a prefixed name in front of which no mark stands. -/
def prefixedText (bracket : Bool) (name : QualifiedName) : String :=
  if bracket then "[" ++ name.text ++ "]" else name.text

/-- The token of a prefixed name, between brackets or not. -/
def prefixedToken (bracket : Bool) (name : QualifiedName) : Token :=
  if bracket then .curie name else .qname name

theorem spelled_prefixed {bracket : Bool} {name : QualifiedName}
    (h : (prefixedToken bracket name).Proper) (m : Option Marker) :
    Spelled (Marker.tokens m ++ [prefixedToken bracket name])
      (((m.map Marker.kind).map ReferenceKind.marker).getD "" ++ prefixedText bracket name) := by
  have hname : Spelled [prefixedToken bracket name] (prefixedText bracket name) := by
    cases bracket with
    | true => exact spelled_curie h
    | false => exact spelled_qname h
  cases m with
  | none => simpa [Marker.tokens] using hname
  | some m =>
      have hfirst : ∃ d ds, (prefixedText bracket name).toList = d :: ds ∧ d ≠ '^' := by
        cases bracket with
        | true => exact ⟨'[', name.text.toList ++ [']'], by simp [prefixedText], by decide⟩
        | false =>
            obtain ⟨⟨d, w, hw, hd, -⟩, -⟩ := h
            refine ⟨d, w ++ ':' :: name.localPart.toList, ?_, ?_⟩
            · simp [prefixedText, QualifiedName.text, hw]
            rintro rfl
            exact absurd hd (by decide)
      obtain ⟨d, ds, htext, hd⟩ := hfirst
      exact spelled_marker hname htext hd

/-- What an unmarked name refers to, between brackets or not. -/
def boundKind (c : Scope) (bracket : Bool) (name : QualifiedName) : ReferenceKind :=
  if bracket then bracketKind (c.kind name.qualifier) else c.kind name.qualifier

theorem prefixed_writes (hs : s.Suits c) (bracket : Bool) (marker : Option Marker)
    {name : QualifiedName} (hbinds : c.Binds name.qualifier)
    (hproper : (prefixedToken bracket name).Proper) (elementName : String) :
    s.Writes
      (s.prefixed bracket
        ⟨elementName, referenceAttributes (Marker.kindOr marker (boundKind c bracket name)) name,
          none, []⟩)
      (Marker.kept marker (boundKind c bracket name) = none)
      (Marker.tokens (Marker.kept marker (boundKind c bracket name)) ++
        [prefixedToken bracket name]) := by
  have hkind : s.kind? name.qualifier = some (c.kind name.qualifier) := by
    rw [hs.kinds]
    obtain ⟨kind, hkind⟩ := Option.isSome_iff_exists.mp hbinds
    rw [Scope.kind, hkind]
    rfl
  have hbound : (if c.kind name.qualifier = .module ∧ bracket = true then .subjectIdentifier
      else c.kind name.qualifier) = boundKind c bracket name := by
    cases bracket <;> simp [boundKind, bracketKind]
  have htext := spelled_prefixed hproper (Marker.kept marker (boundKind c bracket name))
  simp only [Style.prefixed, Element.writtenAttr, Element.attr?, referenceAttributes, Attributes.get?,
    ok_bind, String.reduceEq, if_true, if_false, ReferenceKind.ofText?_text, hkind, hbound]
  by_cases hsame : Marker.kindOr marker (boundKind c bracket name) = boundKind c bracket name
  · have hkept : Marker.kept marker (boundKind c bracket name) = none := by
      cases marker with
      | none => rfl
      | some m => exact if_pos (congrArg some hsame)
    rw [hkept] at htext ⊢
    simp only [hsame, if_true, ne_eq, not_true_eq_false, if_false]
    exact (gives_ok htext).of_iff (by simp [Allows])
  · obtain ⟨m, rfl⟩ : ∃ m, marker = some m := by
      cases marker with
      | none => exact absurd rfl hsame
      | some m => exact ⟨m, rfl⟩
    have hkept : Marker.kept (some m) (boundKind c bracket name) = some m :=
      if_neg fun h => hsame (Option.some.inj h)
    have hmark : (Marker.kindOr (some m) (boundKind c bracket name)).marker ≠ "" := by
      cases m <;> simp [Marker.kindOr, Marker.kind, ReferenceKind.marker]
    rw [hkept] at htext ⊢
    simp only [hsame, if_false]
    rw [if_pos hmark]
    exact ((gives_requirePlus .marker).map fun _ => htext).of_iff (by simp)

theorem literal_writes {value : String} {datatype : Datatype}
    (hproper : (datatypeToken datatype).Proper) :
    s.Writes (Style.literal (Leaf.literal value datatype).element) True
      [.atom .string value, .symbol .hatHat, datatypeToken datatype] := by
  have hvalue : Spelled [.atom .string value] (quoted value) :=
    @spelled_atom .string value trivial
  have hhats : Sealed [.symbol .hatHat] "^^" := sealed_mark (by decide : Symbol.hatHat ∈ freeMarks)
  have hfront := hvalue.append_sealed hhats (by decide) (by decide)
  cases datatype with
  | iri text => exact writes_ok (hfront.append_spelled (@spelled_atom .iri text hproper))
  | qname name => exact writes_ok (hfront.append_spelled (spelled_qname hproper))

/-- A term is written as its canonical form. -/
theorem term_writes (hs : s.Suits c) {t : Term} (hbinds : t.Binds c)
    (hproper : ∀ u ∈ t.tokens, u.Proper) :
    s.Writes (s.term (t.leaf c).element) (t.canonical c).IsPlain (t.canonical c).tokens := by
  cases t with
  | atom kind value =>
      have hterm : s.term (Leaf.atom kind value).element = .ok (Style.atom kind value) := by
        simp only [Style.term, Leaf.element, Leaf.name, AtomKind.ofName?_name]
        rfl
      rw [Term.leaf, hterm]
      exact writes_ok (spelled_atom (hproper _ (by simp [Term.tokens])))
  | literal value datatype =>
      exact literal_writes (hproper (datatypeToken datatype) (by simp [Term.tokens]))
  | qname marker name =>
      exact prefixed_writes hs false marker hbinds
        (hproper (.qname name) (by simp [Term.tokens])) "qname"
  | curie marker name =>
      have hwrites := prefixed_writes hs true marker hbinds
        (hproper (.curie name) (by simp [Term.tokens])) "curie"
      refine ((gives_requirePlus .curie).bind fun _ _ => hwrites).of_iff ?_
      simp only [Allows, Term.canonical, Term.IsPlain]
      grind
  | iri marker value =>
      obtain ⟨hne, hparts⟩ := hproper (.atom .iri value) (by simp [Term.tokens])
      have hquote : '"' ∉ value.toList := fun hmem => absurd (hparts _ hmem) (by decide)
      have hatom : (Token.atom marker.atomKind value).Proper := by
        cases marker <;> exact ⟨hne, hquote⟩
      have hterm : s.term (Leaf.atom marker.atomKind value).element =
          .ok (Style.atom marker.atomKind value) := by
        simp only [Style.term, Leaf.element, Leaf.name, AtomKind.ofName?_name]
        rfl
      rw [Term.leaf, hterm]
      exact writes_ok (spelled_atom hatom)

end Phrase

end TopicQuery
