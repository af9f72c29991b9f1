import TopicQuery.Conversion
import TopicQuery.Proofs.Reparsed

/-!
Round trips. A text whose statement says to what it applies is rendered, and
parsed again as what it was: in plain tolog always, and in tolog+ unless a mark
repeats what its prefix says.
-/

namespace TopicQuery

/-- The text is rendered in the dialect, and what is written is parsed as the text was. -/
def RoundTrips (dialect : Dialect) (plus plus' : Bool) (text : String) : Prop :=
  ∃ tree written, Element.ofText plus text = .ok tree ∧ tree.toText dialect false = .ok written ∧
    parse written plus' = parse text plus

/-- Nothing is inserted, and what is updated, deleted or merged has a condition. -/
structure SaysWhere (events : List Event) : Prop where
  inserts : .enter .insert ∉ events
  changes : ∀ k ∈ [.update, .delete, .merge], .enter k ∈ events → .enter .condition ∈ events

instance (events : List Event) : Decidable (SaysWhere events) :=
  decidable_of_iff (.enter .insert ∉ events ∧ ∀ k ∈ [Container.update, .delete, .merge],
    .enter k ∈ events → .enter .condition ∈ events) ⟨fun h => ⟨h.1, h.2⟩, fun h => ⟨h.1, h.2⟩⟩

/-- No base is named, and no version but the first. -/
structure IsFirstVersion (tokens : List Token) : Prop where
  base : .directive "base" ∉ tokens
  version : ∀ kind number, [.directive "version", .atom kind number] <:+: tokens → number = "1.0"

/-- The IRIs that prefixes are bound to. -/
def boundIris (events : List Event) : List String :=
  events.filterMap fun
    | .leaf (.binding _ iri _) => some iri
    | _ => none

/-- The IRI may stand between angle brackets. -/
def IsBracketable (iri : String) : Prop := iri ≠ "" ∧ ∀ c ∈ iri.toList, Lexeme.isIriPart c = true

instance (iri : String) : Decidable (IsBracketable iri) :=
  decidable_of_iff (iri ≠ "" ∧ iri.toList.all Lexeme.isIriPart = true)
    (by simp only [IsBracketable, List.all_eq_true])

theorem proper_iri_iff {iri : String} : (Token.atom .iri iri).Proper ↔ IsBracketable iri :=
  and_congr_left' (not_congr ⟨fun hnil => String.toList_inj.mp hnil, fun h => h ▸ rfl⟩)

namespace Phrase.Document

open Grammar

variable {c : Setting} {d : Document}

theorem complete_of_saysWhere (h : SaysWhere (d.outline c).events) : d.Complete := by
  intro x hx
  cases x with
  | change x y =>
      have hbegins : .enter x.container ∈ (d.outline c).events := by
        have hne : x.container ≠ .document ∧ x.container ≠ .condition := by
          cases x <;> simp [Change.container]
        exact (container_mem_iff (by cases x <;> rfl) hne.1 hne.2 d).mpr ⟨_, hx, rfl⟩
      have hinsert : ∀ content, x ≠ .insert content := by
        rintro content rfl
        exact h.inserts hbegins
      have hchanging : x.container ∈ [Container.update, .delete, .merge] := by
        cases x with
        | insert content => exact absurd rfl (hinsert content)
        | _ => simp [Change.container]
      obtain ⟨x', hx', hcondition⟩ := (condition_mem_iff d).mp (h.changes _ hchanging hbegins)
      obtain rfl := Option.some.inj (hx'.symm.trans hx)
      exact ⟨hinsert, hcondition⟩
  | _ => trivial

/-- What prefixes are bound to can be written as IRIs if the events say so. -/
theorem bracketable_prefixes (hfits : d.Fits c) (hc : Fresh c)
    (hiris : ∀ iri ∈ boundIris (d.outline c).events, IsBracketable iri) :
    ∀ b ∈ d.prefixes c, (Token.atom .iri b.iri).Proper := by
  intro b hb
  have hmem := (binding_mem_iff hfits hc).mpr hb
  exact proper_iri_iff.mpr (hiris b.iri (List.mem_filterMap.mpr ⟨_, hmem, rfl⟩))

theorem infix_tokens {x : Directive} (hx : x ∈ d.directives) : x.tokens <:+: d.tokens := by
  obtain ⟨before, behind, hsplit⟩ := List.append_of_mem hx
  refine List.IsInfix.trans ?_ (List.prefix_append _ _).isInfix
  exact ⟨before.flatMap Directive.tokens, behind.flatMap Directive.tokens, by simp [hsplit]⟩

theorem base?_eq_none (h : IsFirstVersion d.tokens) : d.base? = none := by
  refine Option.eq_none_iff_forall_ne_some.mpr fun iri hiri => h.base ?_
  obtain ⟨x, hhead, hbase⟩ := Option.bind_eq_some_iff.mp hiri
  cases x with
  | base found => exact (infix_tokens (List.mem_of_head? hhead)).subset (by simp [Directive.tokens])
  | _ => cases hbase

theorem plus_settled (h : IsFirstVersion d.tokens) (hc : c.plus = false) :
    (d.settled c).plus = false := by
  have hall : ∀ ds : List Directive, (∀ x ∈ ds, x ∈ d.directives) → ∀ c : Setting,
      c.plus = false → (Directive.settleAll c ds).plus = false := by
    intro ds
    induction ds with
    | nil => exact fun _ c hc => hc
    | cons x ds ih =>
        intro hds c hc
        refine ih (fun y hy => hds y (List.mem_cons_of_mem _ hy)) _ ?_
        cases x with
        | version kind number =>
            obtain rfl := h.version kind number (infix_tokens (hds _ List.mem_cons_self))
            simpa [Directive.settle] using hc
        | _ => exact hc
  exact hall d.directives (fun x hx => hx) c hc

end Phrase.Document

open Phrase

/-- A text that is rendered as its canonical form is parsed as it was, unless it repeats a mark. -/
theorem roundTrips_iff_of_finishes {dialect : Dialect} {plus : Bool} {text written : String}
    {d : Document} (h : IsDocument plus text d)
    (hplain : d.Expressible (settingOf plus text) dialect)
    (htext : (Outline.element (d.outline (settingOf plus text))).toText dialect false = .ok written)
    (hscan : Scan.Finishes (d.canonical dialect (settingOf plus text)).tokens written.toList)
    (plus' : Bool) :
    RoundTrips dialect plus plus' text ↔ ¬RepeatsMark (parse text plus).events := by
  constructor
  · rintro ⟨tree, written', htree, hwritten', hparse⟩
    obtain rfl := Except.ok.inj (h.tree.symm.trans htree)
    obtain rfl := Except.ok.inj (htext.symm.trans hwritten')
    exact (h.parse_eq_iff hplain hscan plus').mp hparse
  · exact fun hrepeats =>
      ⟨_, written, h.tree, htext, (h.parse_eq_iff hplain hscan plus').mpr hrepeats⟩

theorem toText_of_render {dialect : Dialect} {hints : Bool} {tree : Element} {written : String} :
    tree.toText dialect hints = .ok written ↔ render dialect hints tree = .ok written := by
  rw [Element.toText]
  cases render dialect hints tree <;> simp [Except.orFailure]

theorem exists_written {dialect : Dialect} {plus hints : Bool} {text : String}
    (h : ((Element.ofText plus text).toOption.bind fun tree =>
      (tree.toText dialect hints).toOption).isSome = true) :
    ∃ tree written, Element.ofText plus text = .ok tree ∧ tree.toText dialect hints = .ok written := by
  cases htree : Element.ofText plus text with
  | error fault => simp [htree, Except.toOption] at h
  | ok tree =>
      cases hwritten : tree.toText dialect hints with
      | error fault => simp [htree, hwritten, Except.toOption] at h
      | ok written => exact ⟨tree, written, rfl, hwritten⟩

/-- A text does not round trip if what is written reports other events. -/
theorem not_roundTrips_of_events {dialect : Dialect} {plus plus' : Bool} {text : String}
    (h : (((Element.ofText plus text).toOption.bind fun tree =>
      (tree.toText dialect false).toOption).map fun written => (parse written plus').events) ≠
        some (parse text plus).events) : ¬RoundTrips dialect plus plus' text := by
  rintro ⟨tree, written, htree, hwritten, hparse⟩
  refine h ?_
  rw [htree]
  simp only [Except.toOption, Option.bind_some, hwritten, Option.map_some, hparse]

/-- A text whose statement says where is rendered as its canonical form. -/
theorem roundTrips_iff_of_complete {dialect : Dialect} {plus : Bool} {text : String} {d : Document}
    (h : IsDocument plus text d) (hwritten : d.Written dialect (settingOf plus text))
    (hcomplete : d.Complete) (hbase : dialect = .plus ∨ d.base? = none)
    (hplain : d.Expressible (settingOf plus text) dialect) (plus' : Bool) :
    RoundTrips dialect plus plus' text ↔ ¬RepeatsMark (parse text plus).events := by
  obtain ⟨written, hrender, hscan⟩ := (Document.render_complete h.fits (fresh_settingOf plus text)
    hwritten hcomplete).exists_ok ⟨hbase, hplain⟩
  exact roundTrips_iff_of_finishes h hplain (toText_of_render.mpr hrender) hscan plus'

/-- In plain tolog every text of the first version whose statement says where round trips. -/
theorem legacy_roundTrips {text : String} (hparses : (parse text false).fault = none)
    (hfirst : IsFirstVersion ((scan text).tokens.map (·.token)))
    (hwhere : SaysWhere (parse text false).events) : RoundTrips .legacy false false text := by
  obtain ⟨d, h⟩ := exists_document hparses
  have hfresh := fresh_settingOf false text
  rw [h.tokens] at hfirst
  rw [h.events] at hwhere
  have hoff := Document.plus_settled hfirst (rfl : (settingOf false text).plus = false)
  obtain ⟨hplain, hmarks⟩ := Document.expressible_of_plain h.fits hoff .legacy
  have hwritten : d.Written .legacy (settingOf false text) :=
    Document.written h.fits hfresh h.proper (by simp)
  rw [roundTrips_iff_of_complete h hwritten (Document.complete_of_saysWhere hwhere)
    (.inr (Document.base?_eq_none hfirst)) hplain false, h.events,
    ← Document.losesMark_iff h.fits hfresh]
  exact hmarks

theorem legacy_roundTrips_rule : RoundTrips .legacy false false
    "using p for i\"http://x/\" r($a) :- p:q($a, 1), not(s($a : t, $b : u)). select $a from r($a)?" := by
  -- what is asked of the text is decided in one, so that it is parsed once
  suffices h : _ ∧ _ ∧ _ ∧ _ from
    legacy_roundTrips h.1
      ⟨h.2.1, fun _ _ hblock => absurd (hblock.subset List.mem_cons_self) h.2.2.1⟩ h.2.2.2
  decide +kernel

/-- In tolog+ a text whose statement says where round trips exactly if it repeats no mark. -/
theorem plus_roundTrips_iff {text : String} {plus : Bool} (plus' : Bool)
    (hparses : (parse text plus).fault = none)
    (hiris : ∀ iri ∈ boundIris (parse text plus).events, IsBracketable iri)
    (hwhere : SaysWhere (parse text plus).events) :
    RoundTrips .plus plus plus' text ↔ ¬RepeatsMark (parse text plus).events := by
  obtain ⟨d, h⟩ := exists_document hparses
  have hfresh := fresh_settingOf plus text
  rw [h.events] at hiris hwhere
  exact roundTrips_iff_of_complete h
    (Document.written h.fits hfresh h.proper fun _ =>
      Document.bracketable_prefixes h.fits hfresh hiris)
    (Document.complete_of_saysWhere hwhere) (.inl rfl) (.inl rfl) plus'

theorem plus_roundTrips_iff_marked :
    RoundTrips .plus true false "%prefix p <http://x/> =p:q($a, [p:r]), $a >= ^<http://y/>?" ↔
      ¬RepeatsMark
        (parse "%prefix p <http://x/> =p:q($a, [p:r]), $a >= ^<http://y/>?" true).events := by
  suffices h : _ ∧ _ ∧ _ from plus_roundTrips_iff false h.1 h.2.1 h.2.2
  decide +kernel

/-- A call with one argument by a marked name that repeats its prefix does not round trip. -/
theorem not_roundTrips_repeated :
    (parse "using p for a\"http://x/\" =p:x($a)?" true).fault = none ∧
      (∀ iri ∈ boundIris (parse "using p for a\"http://x/\" =p:x($a)?" true).events,
        IsBracketable iri) ∧
      SaysWhere (parse "using p for a\"http://x/\" =p:x($a)?" true).events ∧
      ¬RoundTrips .plus true true "using p for a\"http://x/\" =p:x($a)?" := by
  suffices h : _ ∧ _ ∧ _ ∧ _ from ⟨h.1, h.2.1, h.2.2.1, not_roundTrips_of_events h.2.2.2⟩
  decide +kernel

end TopicQuery
