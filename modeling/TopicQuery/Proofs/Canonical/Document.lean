import Mathlib.Data.List.Nodup
import TopicQuery.Proofs.Canonical.Statement
import TopicQuery.Rendering.Style

/-!
Canonical texts. The header says what the text settled: its base, in tolog+ the
version, and every prefix once, in the order in which they were bound.
-/

namespace TopicQuery.Phrase

open Grammar

/-! ## What directives settle -/

namespace Directive

/-- The leaf that a binding is reported as. -/
def bindingLeaf (b : Prefixed) : Leaf := .binding b.identifier b.iri b.kind

/-- The base that a directive names. -/
def base? : Directive → Option String
  | base iri => some iri
  | _ => none

/-- A prefix is bound once at most. -/
def Distinct (bs : List Prefixed) : Prop := (bs.map Prefixed.identifier).Nodup

theorem bound?_eq_none {c : Setting} {identifier : String} :
    bound? c identifier = none ↔ identifier ∉ c.bindings.map Prefixed.identifier := by
  simp only [bound?, List.find?_eq_none, beq_iff_eq, List.mem_map, not_exists, not_and]

/-- A prefix that is bound once is new in front of its binding. -/
theorem bound?_of_distinct {c : Setting} {b : Prefixed} {bs : List Prefixed}
    (h : Distinct (bs ++ b :: c.bindings)) : bound? c b.identifier = none := by
  rw [Distinct, List.map_append] at h
  exact bound?_eq_none.mpr (List.nodup_cons.mp (List.nodup_append.mp h).2.1).1

/-- A prefix that is bound once is found under its identifier. -/
theorem find?_eq_some_iff {bs : List Prefixed} (h : Distinct bs) {b : Prefixed}
    {identifier : String} :
    bs.find? (·.identifier == identifier) = some b ↔ b ∈ bs ∧ b.identifier = identifier := by
  constructor
  · intro hfound
    exact ⟨List.mem_of_find?_eq_some hfound, by simpa using List.find?_some hfound⟩
  · rintro ⟨hmem, rfl⟩
    cases hfound : bs.find? (·.identifier == b.identifier) with
    | none => exact absurd (List.find?_eq_none.mp hfound b hmem) (by simp)
    | some other =>
        have hidentifier : other.identifier = b.identifier := by simpa using List.find?_some hfound
        rw [List.inj_on_of_nodup_map h (List.mem_of_find?_eq_some hfound) hmem hidentifier]

/-- A prefix that is bound once is found in both directions. -/
theorem find?_reverse {bs : List Prefixed} (h : Distinct bs) (identifier : String) :
    bs.reverse.find? (·.identifier == identifier) = bs.find? (·.identifier == identifier) := by
  have hreverse : Distinct bs.reverse := by
    rw [Distinct, List.map_reverse]
    exact List.nodup_reverse.mpr h
  ext b
  rw [find?_eq_some_iff hreverse, find?_eq_some_iff h, List.mem_reverse]

theorem directives_settle (d : Directive) (c : Setting) : 0 < (d.settle c).directives := by
  cases d <;> exact Nat.succ_pos _

/-- Only the first directive names a base. -/
theorem base_not_mem {ds : List Directive} {c : Setting} (hfits : FitsAll c ds)
    (hcount : 0 < c.directives) (iri : String) : .base iri ∉ ds := by
  induction ds generalizing c with
  | nil => simp
  | cons d ds ih =>
      intro hmem
      obtain rfl | hmem := List.mem_cons.mp hmem
      · exact Nat.ne_of_gt hcount hfits.1
      · exact ih hfits.2 (directives_settle d c) hmem

/-- What directives settle that name no base. -/
theorem settleAll_bindings {ds : List Directive} {c : Setting} (hfits : FitsAll c ds)
    (hbase : ∀ iri, .base iri ∉ ds) (hdistinct : Distinct c.bindings) :
    ∃ bs : List Prefixed, leavesAll c ds = bs.map bindingLeaf ∧
      (settleAll c ds).bindings = bs.reverse ++ c.bindings ∧
      Distinct (settleAll c ds).bindings ∧
      ∀ b ∈ bs, ∃ binder, .binding binder b ∈ ds ∧ Declares binder b.kind := by
  induction ds generalizing c with
  | nil => exact ⟨[], rfl, rfl, hdistinct, by simp⟩
  | cons d ds ih =>
      obtain ⟨hd, hds⟩ := hfits
      have hbase' : ∀ iri, .base iri ∉ ds := fun iri hmem => hbase iri (List.mem_cons_of_mem _ hmem)
      cases d with
      | base iri => exact absurd List.mem_cons_self (hbase iri)
      | version kind text =>
          obtain ⟨bs, hleaves, hbindings, hnodup, hfrom⟩ := ih hds hbase' hdistinct
          exact ⟨bs, hleaves, hbindings, hnodup, fun b hb =>
            (hfrom b hb).imp fun binder h => ⟨List.mem_cons_of_mem _ h.1, h.2⟩⟩
      | binding binder b =>
          cases hbound : bound? c b.identifier with
          | some old =>
              have hsettle : ((Directive.binding binder b).settle c).bindings = c.bindings := by
                simp [settle, hbound]
              obtain ⟨bs, hleaves, hbindings, hnodup, hfrom⟩ := ih hds hbase' (by rwa [hsettle])
              rw [hsettle] at hbindings
              refine ⟨bs, ?_, hbindings, hnodup, fun b hb =>
                (hfrom b hb).imp fun binder h => ⟨List.mem_cons_of_mem _ h.1, h.2⟩⟩
              rw [leavesAll, hleaves]
              simp [leaves, hbound]
          | none =>
              have hsettle : ((Directive.binding binder b).settle c).bindings = b :: c.bindings := by
                simp [settle, hbound]
              have hnew : Distinct (b :: c.bindings) :=
                List.nodup_cons.mpr ⟨bound?_eq_none.mp hbound, hdistinct⟩
              obtain ⟨bs, hleaves, hbindings, hnodup, hfrom⟩ := ih hds hbase' (by rwa [hsettle])
              refine ⟨b :: bs, ?_, ?_, hnodup, ?_⟩
              · rw [leavesAll, hleaves]
                simp [leaves, hbound, bindingLeaf]
              · rw [settleAll, hbindings, hsettle]
                simp
              · intro b' hb'
                obtain rfl | hb' := List.mem_cons.mp hb'
                · exact ⟨binder, by simp, hd.1⟩
                · exact (hfrom b' hb').imp fun binder h => ⟨List.mem_cons_of_mem _ h.1, h.2⟩

/-- What the directives of a text settle. -/
theorem settleAll_start {ds : List Directive} {c : Setting} (hfits : FitsAll c ds)
    (hbindings : c.bindings = []) :
    leavesAll c ds = (ds.head?.bind base?).toList.map .base ++
        (settleAll c ds).bindings.reverse.map bindingLeaf ∧
      Distinct (settleAll c ds).bindings ∧
      ∀ b ∈ (settleAll c ds).bindings, ∃ binder, .binding binder b ∈ ds ∧ Declares binder b.kind := by
  have hdistinct : Distinct c.bindings := by simp [Distinct, hbindings]
  cases ds with
  | nil => simp [leavesAll, settleAll, hbindings, Distinct]
  | cons d ds =>
      have hbehind := base_not_mem hfits.2 (directives_settle d c)
      by_cases hfirst : ∃ iri, d = .base iri
      · obtain ⟨iri, rfl⟩ := hfirst
        have hdistinct' : Distinct ((Directive.base iri).settle c).bindings := hdistinct
        obtain ⟨bs, hleaves, hsettled, hnodup, hfrom⟩ :=
          settleAll_bindings hfits.2 hbehind hdistinct'
        have hall : (settleAll c (.base iri :: ds)).bindings = bs.reverse := by
          rw [settleAll, hsettled]
          simp [settle, hbindings]
        rw [leavesAll, hleaves, hall]
        refine ⟨by simp [leaves, base?], by rwa [← hall], fun b hb => ?_⟩
        exact (hfrom b (by simpa using hb)).imp fun binder h => ⟨List.mem_cons_of_mem _ h.1, h.2⟩
      · have hbase : ∀ iri, Directive.base iri ∉ d :: ds := fun iri hmem => by
          obtain rfl | hmem := List.mem_cons.mp hmem
          · exact hfirst ⟨iri, rfl⟩
          · exact hbehind iri hmem
        have hnone : d.base? = none := by
          cases d with
          | base iri => exact absurd ⟨iri, rfl⟩ hfirst
          | _ => rfl
        obtain ⟨bs, hleaves, hsettled, hnodup, hfrom⟩ := settleAll_bindings hfits hbase hdistinct
        rw [hbindings, List.append_nil] at hsettled
        rw [hleaves, hsettled]
        exact ⟨by simp [hnone], by rwa [← hsettled], fun b hb => hfrom b (by simpa using hb)⟩

end Directive

/-! ## Headers -/

/-- How the binding of a prefix is written in a dialect. -/
def canonicalBinder : Dialect → ReferenceKind → Binder
  | .plus, .subjectIdentifier => .percentPrefix
  | .plus, .module => .percentImport
  | .legacy, .module => .imported false
  | .legacy, .subjectIdentifier => .quoted .subjectIdentifier
  | _, .subjectLocator => .quoted .subjectLocator
  | _, .itemIdentifier => .quoted .itemIdentifier

theorem declares_canonicalBinder (dialect : Dialect) (kind : ReferenceKind) :
    Directive.Declares (canonicalBinder dialect kind) kind := by
  cases dialect <;> cases kind <;> rfl

/-- The directives that bind prefixes. -/
def canonicalBindings (dialect : Dialect) (bs : List Prefixed) : List Directive :=
  bs.map fun b => .binding (canonicalBinder dialect b.kind) b

/-- The version that a rendered text announces. -/
def canonicalVersion : Dialect → List Directive
  | .plus => [.version .decimal "1.2"]
  | .legacy => []

/-- The directives of a rendered text. -/
def canonicalDirectives (dialect : Dialect) (base : Option String) (bs : List Prefixed) :
    List Directive :=
  base.toList.map .base ++ (canonicalVersion dialect ++ canonicalBindings dialect bs)

namespace Directive

/-- Prefixes that are all new are bound one after the other. -/
theorem settleAll_canonicalBindings (dialect : Dialect) (bs : List Prefixed) {c : Setting}
    (hdistinct : Distinct (bs.reverse ++ c.bindings)) :
    FitsAll c (canonicalBindings dialect bs) ∧
      leavesAll c (canonicalBindings dialect bs) = bs.map bindingLeaf ∧
      (settleAll c (canonicalBindings dialect bs)).scope = ⟨c.rules, bs.reverse ++ c.bindings⟩ ∧
      (settleAll c (canonicalBindings dialect bs)).plus = c.plus := by
  induction bs generalizing c with
  | nil => exact ⟨trivial, rfl, rfl, rfl⟩
  | cons b bs ih =>
      have hdistinct' : Distinct (bs.reverse ++ b :: c.bindings) := by simpa using hdistinct
      have hnew : bound? c b.identifier = none := bound?_of_distinct hdistinct'
      have hsettle : (Directive.binding (canonicalBinder dialect b.kind) b).settle c =
          { c with bindings := b :: c.bindings, directives := c.directives + 1 } := by
        simp [settle, hnew]
      obtain ⟨hfits, hleaves, hscope, hplus⟩ :=
        ih (c := { c with bindings := b :: c.bindings, directives := c.directives + 1 }) hdistinct'
      refine ⟨⟨⟨declares_canonicalBinder dialect b.kind, by simp [hnew]⟩, ?_⟩, ?_, ?_, ?_⟩
      · rw [hsettle]
        exact hfits
      · rw [canonicalBindings, List.map_cons, leavesAll, hsettle]
        simp only [leaves, hnew]
        rw [show (bs.map fun b => .binding (canonicalBinder dialect b.kind) b) =
          canonicalBindings dialect bs from rfl, hleaves]
        rfl
      · rw [canonicalBindings, List.map_cons, settleAll, hsettle]
        simpa [canonicalBindings] using hscope
      · rw [canonicalBindings, List.map_cons, settleAll, hsettle]
        exact hplus

theorem settleAll_rules (ds : List Directive) (c : Setting) : (settleAll c ds).rules = c.rules := by
  induction ds generalizing c with
  | nil => rfl
  | cons d ds ih =>
      rw [settleAll, ih]
      cases d <;> rfl

end Directive

/-- Nothing is settled yet. -/
structure Fresh (c : Setting) : Prop where
  bindings : c.bindings = []
  directives : c.directives = 0

/-- What a canonical header settles. -/
theorem settleAll_canonicalDirectives (dialect : Dialect) (base : Option String)
    {bs : List Prefixed} {c : Setting} (hc : Fresh c) (hdistinct : Directive.Distinct bs.reverse) :
    Directive.FitsAll c (canonicalDirectives dialect base bs) ∧
      Directive.leavesAll c (canonicalDirectives dialect base bs) =
        base.toList.map .base ++ bs.map Directive.bindingLeaf ∧
      (Directive.settleAll c (canonicalDirectives dialect base bs)).scope =
        ⟨c.rules, bs.reverse⟩ ∧
      (Directive.settleAll c (canonicalDirectives dialect base bs)).plus =
        (c.plus || dialect = .plus) := by
  have hversion : ∀ c : Setting, c.bindings = [] →
      Directive.FitsAll c (canonicalVersion dialect ++ canonicalBindings dialect bs) ∧
        Directive.leavesAll c (canonicalVersion dialect ++ canonicalBindings dialect bs) =
          bs.map Directive.bindingLeaf ∧
        (Directive.settleAll c (canonicalVersion dialect ++ canonicalBindings dialect bs)).scope =
          ⟨c.rules, bs.reverse⟩ ∧
        (Directive.settleAll c (canonicalVersion dialect ++ canonicalBindings dialect bs)).plus =
          (c.plus || dialect = .plus) := by
    intro c hbindings
    cases dialect with
    | legacy =>
        obtain ⟨hfits, hleaves, hscope, hplus⟩ :=
          Directive.settleAll_canonicalBindings .legacy bs (c := c)
            (by rwa [hbindings, List.append_nil])
        rw [hbindings, List.append_nil] at hscope
        exact ⟨hfits, hleaves, hscope, hplus.trans (by simp)⟩
    | plus =>
        obtain ⟨hfits, hleaves, hscope, hplus⟩ :=
          Directive.settleAll_canonicalBindings .plus bs
            (c := (Directive.version .decimal "1.2").settle c)
            (by rwa [Directive.settle, hbindings, List.append_nil])
        refine ⟨⟨⟨.inl rfl, by decide⟩, hfits⟩, hleaves,
          hscope.trans (by simp [Directive.settle, hbindings]), ?_⟩
        rw [canonicalVersion, List.singleton_append, Directive.settleAll, hplus]
        simp [Directive.settle]
  cases base with
  | none => exact hversion c hc.bindings
  | some iri =>
      obtain ⟨hfits, hleaves, hscope, hplus⟩ :=
        hversion ((Directive.base iri).settle c) hc.bindings
      refine ⟨⟨hc.directives, hfits⟩, ?_, hscope, hplus⟩
      rw [canonicalDirectives, Option.toList_some, List.map_singleton, List.singleton_append,
        Directive.leavesAll, hleaves]
      rfl

/-! ## Texts -/

namespace Document

/-- The base that a text names. -/
def base? (d : Document) : Option String := d.directives.head?.bind Directive.base?

/-- The prefixes of a text in the order in which they were bound. -/
def prefixes (c : Setting) (d : Document) : List Prefixed := (d.settled c).bindings.reverse

/-- The canonical form of a text in a dialect. -/
def canonical (dialect : Dialect) (c : Setting) (d : Document) : Document where
  directives := canonicalDirectives dialect d.base? (d.prefixes c)
  rules := d.rules.map (Rule.canonical (d.settled c).scope)
  statement := d.statement.map (Statement.canonical (d.settled c).scope)
  question := d.statement.any Statement.asks

/-- A call in the text loses its mark. -/
def LosesMark (c : Setting) (d : Document) : Prop :=
  (∃ r ∈ d.rules, r.LosesMark (d.settled c).scope) ∨
    ∃ x ∈ d.statement, x.LosesMark (d.settled c).scope

variable {c c' : Setting} {d : Document}

theorem leavesAll_eq (hfits : d.Fits c) (hc : Fresh c) :
    Directive.leavesAll c d.directives =
      d.base?.toList.map .base ++ (d.prefixes c).map Directive.bindingLeaf :=
  (Directive.settleAll_start hfits.directives hc.bindings).1

theorem distinct_prefixes (hfits : d.Fits c) (hc : Fresh c) :
    Directive.Distinct (d.prefixes c).reverse := by
  rw [prefixes, List.reverse_reverse]
  exact (Directive.settleAll_start hfits.directives hc.bindings).2.1

theorem exists_binder (hfits : d.Fits c) (hc : Fresh c) {b : Prefixed} (hb : b ∈ d.prefixes c) :
    ∃ binder, .binding binder b ∈ d.directives ∧ Directive.Declares binder b.kind :=
  (Directive.settleAll_start hfits.directives hc.bindings).2.2 b (List.mem_reverse.mp hb)

/-- A canonical text settles the same for its rules and its statement. -/
theorem scope_canonical (hfits : d.Fits c) (hc : Fresh c) (hc' : Fresh c')
    (hrules : c'.rules = c.rules) (dialect : Dialect) :
    ((d.canonical dialect c).settled c').scope = (d.settled c).scope := by
  have hscope := (settleAll_canonicalDirectives dialect d.base? hc'
    (distinct_prefixes hfits hc)).2.2.1
  rw [settled, canonical, hscope, prefixes, List.reverse_reverse, hrules]
  rw [Grammar.Setting.scope, settled, Directive.settleAll_rules]

/-- Lists of the same lengths in a row agree if they agree one by one. -/
theorem flatMap_eq_iff {α β : Type} {f g : α → List β} {xs : List α}
    (h : ∀ x ∈ xs, (f x).length = (g x).length) :
    xs.flatMap f = xs.flatMap g ↔ ∀ x ∈ xs, f x = g x := by
  induction xs with
  | nil => simp
  | cons x xs ih =>
      have hcons : f x ++ xs.flatMap f = g x ++ xs.flatMap g ↔
          f x = g x ∧ xs.flatMap f = xs.flatMap g :=
        ⟨fun heq => List.append_inj heq (h x (by simp)), fun ⟨h₁, h₂⟩ => by rw [h₁, h₂]⟩
      simp only [List.flatMap_cons, hcons, ih fun y hy => h y (by simp [hy]), List.forall_mem_cons]

/-- A text keeps its outline in canonical form unless a call in it loses its mark. -/
theorem outline_canonical_iff (hfits : d.Fits c) (hc : Fresh c) (hc' : Fresh c')
    (hrules : c'.rules = c.rules) (dialect : Dialect) :
    (d.canonical dialect c).outline c' = d.outline c ↔ ¬d.LosesMark c := by
  have hleaves := (settleAll_canonicalDirectives dialect d.base? hc'
    (distinct_prefixes hfits hc)).2.1
  have hrulesOutlines : (d.rules.map (Rule.canonical (d.settled c).scope)).flatMap
      (Category.rule.outlines (d.settled c).scope) =
        d.rules.flatMap (Category.rule.outlines (d.settled c).scope) ↔
          ∀ r ∈ d.rules, ¬r.LosesMark (d.settled c).scope := by
    rw [List.flatMap_map]
    refine (flatMap_eq_iff ?_).trans ?_
    · exact fun _ _ => rfl
    · simp only [Rule.outlines_canonical_iff]
  have hstatement : (d.statement.map (Statement.canonical (d.settled c).scope)).toList.flatMap
      (Category.statement.outlines (d.settled c).scope) =
        d.statement.toList.flatMap (Category.statement.outlines (d.settled c).scope) ↔
          ∀ x ∈ d.statement, ¬x.LosesMark (d.settled c).scope := by
    cases hx : d.statement with
    | none => simp
    | some x =>
        simpa using Statement.outlines_canonical_iff (hfits.statement x (by simp [hx]))
  have hlength : ((d.rules.map (Rule.canonical (d.settled c).scope)).flatMap
      (Category.rule.outlines (d.settled c).scope)).length =
        (d.rules.flatMap (Category.rule.outlines (d.settled c).scope)).length := by
    simp [Category.rule, Function.comp_def]
  rw [outline, outline, scope_canonical hfits hc hc' hrules, leavesAll_eq hfits hc]
  simp only [canonical, hleaves, Outline.within.injEq, true_and, List.append_cancel_left_eq]
  have happend : ∀ {xs xs' ys ys' : List Outline}, xs.length = xs'.length →
      (xs ++ ys = xs' ++ ys' ↔ xs = xs' ∧ ys = ys') := fun hlen =>
    ⟨fun h => List.append_inj h hlen, fun h => by rw [h.1, h.2]⟩
  rw [happend hlength, hrulesOutlines, hstatement, LosesMark]
  simp only [not_or, not_exists, not_and]

/-- The dialect has everything that the rules and the statement need in canonical form. -/
def Expressible (c : Setting) (dialect : Dialect) (d : Document) : Prop :=
  dialect = .plus ∨
    (∀ r ∈ d.rules, Category.rule.IsPlain (r.canonical (d.settled c).scope)) ∧
      ∀ x ∈ d.statement, Category.statement.IsPlain (x.canonical (d.settled c).scope)

/-- A text in plain tolog can be written in any dialect, and no call in it loses a mark. -/
theorem expressible_of_plain (hfits : d.Fits c) (hoff : (d.settled c).plus = false)
    (dialect : Dialect) : d.Expressible c dialect ∧ ¬d.LosesMark c := by
  refine ⟨.inr ⟨fun r hr => r.body.isPlain_canonical (hfits.rulesPlain hoff r hr), fun x hx =>
    Statement.isPlain_canonical (hfits.statementPlain hoff x hx)⟩, ?_⟩
  rintro (⟨r, hr, hloses⟩ | ⟨x, hx, hloses⟩)
  · exact r.body.not_losesMark (hfits.rulesPlain hoff r hr) hloses
  · exact Statement.not_losesMark (hfits.statementPlain hoff x hx) hloses

/-- A canonical text is accepted where the text was. -/
theorem fits_canonical (hfits : d.Fits c) (hc : Fresh c) (hc' : Fresh c')
    (hrules : c'.rules = c.rules) {dialect : Dialect} (hplain : d.Expressible c dialect) :
    (d.canonical dialect c).Fits c' := by
  obtain ⟨hdirectives, -, -, hplus⟩ := settleAll_canonicalDirectives dialect
    d.base? hc' (distinct_prefixes hfits hc)
  have hlegacy : ((d.canonical dialect c).settled c').plus = false →
      (∀ r ∈ d.rules, Category.rule.IsPlain (r.canonical (d.settled c).scope)) ∧
        ∀ x ∈ d.statement, Category.statement.IsPlain (x.canonical (d.settled c).scope) := by
    intro hoff
    refine hplain.resolve_left ?_
    rintro rfl
    have hon := hplus.symm.trans hoff
    simp at hon
  refine ⟨hdirectives, fun r' hr' => ?_, fun x' hx' => ?_, fun hoff r' hr' => ?_,
    fun hoff x' hx' => ?_⟩
  · obtain ⟨r, hr, rfl⟩ := List.mem_map.mp hr'
    rw [scope_canonical hfits hc hc' hrules]
    exact r.body.refers_canonical (hfits.rules r hr)
  · obtain ⟨x, hx, rfl⟩ := Option.map_eq_some_iff.mp hx'
    rw [scope_canonical hfits hc hc' hrules]
    exact Statement.refers_canonical (hfits.statement x hx)
  · obtain ⟨r, hr, rfl⟩ := List.mem_map.mp hr'
    exact (hlegacy hoff).1 r hr
  · obtain ⟨x, hx, rfl⟩ := Option.map_eq_some_iff.mp hx'
    exact (hlegacy hoff).2 x hx

end Document

end TopicQuery.Phrase
