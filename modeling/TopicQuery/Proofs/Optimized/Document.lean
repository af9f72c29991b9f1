import TopicQuery.Proofs.Optimized.Scope
import TopicQuery.Proofs.Optimized.Taken

/-!
Whole documents. The directives of a document stay, and its rules and statement
are changed one by one; the builder then goes through the same steps before and
after, up to what is left of the clauses.
-/

namespace TopicQuery

open Element

variable {one : List String → Clause → Clause → Prop} {f : Factory}

/-! ## Rules and statements of a document -/

/-- A query with what is left of the clauses of its rules and its statement. -/
structure Query.Reduces (one : List String → Clause → Clause → Prop) (q q' : Query) : Prop where
  base : q.base = q'.base
  bindings : q.bindings = q'.bindings
  imported : q.imported = q'.imported
  rules : List.Forall₂ (Rule.Reduces one) q.rules q'.rules
  statement : Option.Rel (Statement.Reduces (one [])) q.statement q'.statement

theorem Rule.Reduces.refl (r : Rule) : r.Reduces one r := ⟨rfl, rfl, .refl _⟩

theorem Query.Reduces.refl (q : Query) : q.Reduces one q := by
  refine ⟨rfl, rfl, rfl, List.forall₂_same.mpr fun r _ => .refl r, ?_⟩
  cases q.statement with
  | none => exact .none
  | some s => exact .some (.refl s)

theorem Query.Reduces.trans {q q' q'' : Query} (h : q.Reduces one q') (h' : q'.Reduces one q'') :
    q.Reduces one q'' where
  base := h.base.trans h'.base
  bindings := h.bindings.trans h'.bindings
  imported := h.imported.trans h'.imported
  rules := forall₂_trans h.rules h'.rules fun hr hr' => hr.trans hr'
  statement := by
    have hstatement := h.statement
    have hstatement' := h'.statement
    generalize q.statement = s, q'.statement = s', q''.statement = s'' at hstatement hstatement'
    cases hstatement with
    | none =>
        cases hstatement'
        exact .none
    | some hs =>
        cases hstatement' with
        | some hs' => exact .some (hs.trans hs')

theorem Operands.documentFrom_agree {rs rs' : List Rule} {s s' : Option Statement}
    {os os' : List Operand} (hrules : List.Forall₂ (Rule.Reduces one) rs rs')
    (hstatement : Option.Rel (Statement.Reduces (one [])) s s')
    (h : List.Forall₂ (Operand.ReducesScope one) os os') :
    Agree (fun r r' => List.Forall₂ (Rule.Reduces one) r.1 r'.1 ∧
        Option.Rel (Statement.Reduces (one [])) r.2 r'.2)
      (documentFrom rs s os) (documentFrom rs' s' os') := by
  induction h generalizing rs rs' s s' with
  | nil => exact ⟨hrules, hstatement⟩
  | cons hfirst _ ih =>
      cases hfirst with
      | rule hr => exact ih (List.rel_append hrules (.cons hr .nil)) hstatement
      | statement hs =>
          cases hstatement with
          | none => exact ih hrules (.some hs)
          | some _ => trivial

/-! ## Settled trees -/

namespace Element

/-- The element of a directive. -/
def IsHeader (e : Element) : Prop := (e.name = "base" ∨ e.name = "namespace") ∧ e.children = []

/-- The tree of a document: directives, rules and statements. -/
structure Settled (tree : Element) : Prop where
  name : tree.name = "tolog"
  children : ∀ c ∈ tree.children, c.IsHeader ∨ c.Scoped

/-- The change of a tree keeps directives, and what is left of rules and statements. -/
structure Sound (f : Factory) (one : List String → Clause → Clause → Prop)
    (change : Element → Element) : Prop where
  header : ∀ {e : Element}, e.IsHeader → change e = e
  settled : ∀ {e : Element}, e.Scoped → (change e).Scoped
  agree : ∀ {e : Element}, e.Scoped → ∀ {read}, Reads read →
    Agree (Operand.ReducesScope one) (e.meaning f read) ((change e).meaning f read)

theorem Settled.map {tree : Element} {change : Element → Element} (h : tree.Settled)
    (hchange : Sound f one change) : Settled { tree with children := tree.children.map change } := by
  refine ⟨h.name, fun _ hmem => ?_⟩
  obtain ⟨c, hc, rfl⟩ := List.mem_map.mp hmem
  exact (h.children c hc).imp (fun hheader => by rwa [hchange.header hheader]) hchange.settled

theorem Flat.inside {e : Element} (h : e.Flat) : e.Inside := by
  induction h with
  | intro hbase hbinding _ _ _ ih => exact ⟨hbase, hbinding, ih⟩

theorem Layered.inside {e : Element} (h : e.Layered) : e.Inside := by
  induction h with
  | flat h => exact h.inside
  | @list e hlist _ ih =>
      rw [isClauseList_iff] at hlist
      refine ⟨fun hname => ?_, fun hname => ?_, ih⟩ <;> simp [hname] at hlist

theorem Scoped.inside {e : Element} (h : e.Scoped) : e.Inside := by
  have hnames : ∀ name ∈ "rule" :: statementTags.map Tag.name, name ≠ "base" ∧ name ≠ "namespace" := by
    decide
  have hname := hnames e.name (List.mem_cons.mpr h.name)
  exact ⟨hname.1, hname.2, fun c hc => (h.children c hc).elim Flat.inside fun h => h.2.inside⟩

end Element

/-! ## The builder -/

namespace Builder

theorem reads_operand (b : Builder) : Reads (b.operand f) where
  var v := rfl
  term item hitem o ho := by
    obtain ⟨operand, hoperand, hrest⟩ := ok_of_bind ho
    have hmap : ∀ {α : Type} {r : Except Failure α} {g : α → Term},
        (r >>= fun a => .ok (some (Operand.term (g a)))) = .ok operand → ∃ t, o = .term t := by
      intro α r g h
      obtain ⟨a, -, ha⟩ := ok_of_bind h
      cases ha
      cases hrest
      exact ⟨g a, rfl⟩
    cases item with
    | atom kind value => exact hmap hoperand
    | curie kind name => exact hmap hoperand
    | qname kind name => cases kind <;> exact hmap hoperand
    | literal value datatype => cases datatype <;> exact hmap hoperand
    | _ => exact absurd hitem id

/-- Both builders are in the document, one with what is left of the clauses of the other. -/
structure Matches (one : List String → Clause → Clause → Prop) (b b' : Builder) : Prop where
  document : b.document = b'.document
  base : b.base = b'.base
  prefixes : b.prefixes = b'.prefixes
  bindings : b.bindings = b'.bindings
  query : b.query = none ∧ b'.query = none
  frames : ∃ os os', b.frames = [⟨.document, os⟩] ∧ b'.frames = [⟨.document, os'⟩] ∧
    List.Forall₂ (Operand.ReducesScope one) os os'

variable {b b' : Builder}

theorem leaf_base (hb : b.Matches one b') (iri : String) :
    Agree (Matches one) (b.leaf f (.base iri)) (b'.leaf f (.base iri)) := by
  rw [leaf, leaf, hb.document]
  refine .bind_same _ fun resolved => ?_
  exact ⟨rfl, rfl, hb.prefixes, hb.bindings, hb.query, hb.frames⟩

theorem leaf_binding (hb : b.Matches one b') (identifier iri : String) (kind : ReferenceKind) :
    Agree (Matches one) (b.leaf f (.binding identifier iri kind))
      (b'.leaf f (.binding identifier iri kind)) := by
  rw [leaf, leaf, hb.base]
  refine .bind_same _ fun resolved => ?_
  exact ⟨hb.document, rfl, congrArg (_ :: ·) hb.prefixes, congrArg (· ++ _) hb.bindings,
    hb.query, hb.frames⟩

/-- A directive is replayed as what it declares, if it tells. -/
theorem replay_header {e : Element} (he : e.IsHeader) :
    (∃ fault, e.replay = .broken fault) ∨ (∃ iri, e.replay = ⟨[.leaf (.base iri)], none⟩) ∨
      ∃ identifier iri kind, e.replay = ⟨[.leaf (.binding identifier iri kind)], none⟩ := by
  have hleaf : ∀ {item : Leaf}, e.leaf = .ok item →
      (∃ iri, item = .base iri) ∨ ∃ identifier iri kind, item = .binding identifier iri kind := by
    intro item hitem
    obtain hname | hname := he.1
    · rw [Element.leaf, hname, show AtomKind.ofName? "base" = none from rfl, Element.otherLeaf,
        hname] at hitem
      obtain ⟨iri, -, hiri⟩ := ok_of_bind hitem
      exact .inl ⟨iri, (Except.ok.inj hiri).symm⟩
    · rw [Element.leaf, hname, show AtomKind.ofName? "namespace" = none from rfl, Element.otherLeaf,
        hname] at hitem
      obtain ⟨identifier, -, hitem⟩ := ok_of_bind hitem
      obtain ⟨iri, -, hitem⟩ := ok_of_bind hitem
      obtain ⟨kind, -, hkind⟩ := ok_of_bind hitem
      exact .inr ⟨identifier, iri, kind, (Except.ok.inj hkind).symm⟩
  have htag : Tag.ofName? e.name = none := by
    obtain hname | hname := he.1 <;> rw [hname] <;> rfl
  obtain ⟨name, attributes, text, children⟩ := e
  obtain rfl : children = [] := he.2
  have htag : Tag.ofName? name = none := htag
  rw [replay]
  simp only [htag]
  cases hitem : Element.leaf ⟨name, attributes, text, []⟩ with
  | error fault => exact .inl ⟨fault, rfl⟩
  | ok item =>
      obtain ⟨iri, rfl⟩ | ⟨identifier, iri, kind, rfl⟩ := hleaf hitem
      · exact .inr (.inl ⟨iri, rfl⟩)
      · exact .inr (.inr ⟨identifier, iri, kind, rfl⟩)

/-- A directive changes both builders alike. -/
theorem take_header {e : Element} (he : e.IsHeader) (hb : b.Matches one b') :
    Agree (Matches one) (b.take f e.replay) (b'.take f e.replay) := by
  obtain ⟨fault, hreplay⟩ | ⟨iri, hreplay⟩ | ⟨identifier, iri, kind, hreplay⟩ := replay_header he
  · rw [hreplay]
    trivial
  · rw [hreplay, take_leaf, take_leaf]
    exact leaf_base hb iri
  · rw [hreplay, take_leaf, take_leaf]
    exact leaf_binding hb identifier iri kind

/-- The operands of a rule or statement and of what is left of it are taken in alike. -/
theorem push_agree {o o' : Operand} (h : o.ReducesScope one o') (hb : b.Matches one b') :
    Agree (Matches one) (b.push o) (b'.push o') := by
  obtain ⟨os, os', hos, hos', hall⟩ := hb.frames
  rw [push, push, hos, hos']
  exact ⟨hb.document, hb.base, hb.prefixes, hb.bindings, hb.query,
    _, _, rfl, rfl, List.rel_append hall (.cons h .nil)⟩

theorem Matches.frames_ne_nil (hb : b.Matches one b') : b.frames ≠ [] ∧ b'.frames ≠ [] := by
  obtain ⟨os, os', hos, hos', -⟩ := hb.frames
  simp [hos, hos']

/-- The builders match behind the same directives, and behind rules and statements that are left. -/
theorem take_agree {change : Element → Element} (hchange : Sound f one change)
    {es : List Element} (h : ∀ e ∈ es, e.IsHeader ∨ e.Scoped) (hb : b.Matches one b') :
    Agree (Matches one) (b.take f (replayAll es)) (b'.take f (replayAll (es.map change))) := by
  induction es generalizing b b' with
  | nil => exact hb
  | cons e es ih =>
      rw [List.map_cons, replayAll, replayAll, take_andThen, take_andThen]
      have hfirst : Agree (Matches one) (b.take f e.replay) (b'.take f (change e).replay) := by
        obtain he | he := h e (by simp)
        · rw [hchange.header he]
          exact take_header he hb
        · rw [take_replay e he.inside hb.query.1 hb.frames_ne_nil.1,
            take_replay _ (hchange.settled he).inside hb.query.2 hb.frames_ne_nil.2,
            operand_congr hb.base hb.prefixes]
          exact (hchange.agree he b'.reads_operand).bind fun o o' ho => push_agree ho hb
      exact hfirst.bind fun c c' hc => ih (fun e he => h e (by simp [he])) hc

theorem result_document {os : List Operand} (hb : b.frames = [⟨.document, os⟩]) :
    (b.run f [.leave .document] >>= result) =
      (Operands.document os >>= fun r => .ok ⟨b.base, b.bindings, r.1, r.2, []⟩) := by
  rw [run_leave hb, finish]
  simp only [Container.tag]
  cases Operands.document os <;> rfl

/-- A document is finished into a query and into what is left of it. -/
theorem result_agree (hb : b.Matches one b') :
    Agree (Query.Reduces one) (b.run f [.leave .document] >>= result)
      (b'.run f [.leave .document] >>= result) := by
  obtain ⟨os, os', hos, hos', hall⟩ := hb.frames
  rw [result_document hos, result_document hos', hb.base, hb.bindings]
  exact (Operands.documentFrom_agree .nil .none hall).map fun r r' hr =>
    ⟨rfl, rfl, rfl, hr.1, hr.2⟩

end Builder

namespace Element

variable {tree : Element}

theorem toQuery_eq (document : Iri) :
    tree.toQuery f document = ((Builder.new document).take f tree.replay >>= Builder.result) := by
  rw [toQuery, Query.ofEvents, Builder.take]
  cases (Builder.new document).run f tree.replay.events with
  | error failure => rfl
  | ok b => cases tree.replay.fault <;> rfl

/-- The builder that has seen the start of a document. -/
def started (document : Iri) : Builder := ⟨document, document, [], [], [⟨.document, []⟩], none⟩

theorem toQuery_document (hname : tree.name = "tolog") (document : Iri) :
    tree.toQuery f document = ((started document).take f (replayAll tree.children) >>= fun b =>
      b.run f [.leave .document] >>= Builder.result) := by
  have hstarted : (Builder.new document).enter .document = .ok (started document) := by
    simp [Builder.enter, Builder.new, started]
  obtain ⟨name, attributes, text, children⟩ := tree
  obtain rfl : name = "tolog" := hname
  rw [toQuery_eq, show replay ⟨"tolog", attributes, text, children⟩ =
    (replayAll children).within .document by rw [replay]; rfl, Builder.take_within, hstarted, ok_bind]
  cases (started document).take f (replayAll children) <;> rfl

/-- A settled tree and what is left of it stand for queries alike. -/
theorem toQuery_agree (htree : tree.Settled) {change : Element → Element}
    (hchange : Sound f one change) (document : Iri) :
    Agree (Query.Reduces one) (tree.toQuery f document)
      (({ tree with children := tree.children.map change } : Element).toQuery f document) := by
  have hstarted : (started document).Matches one (started document) :=
    ⟨rfl, rfl, rfl, rfl, ⟨rfl, rfl⟩, [], [], rfl, rfl, .nil⟩
  rw [toQuery_document htree.name,
    @toQuery_document f { tree with children := tree.children.map change } htree.name]
  exact (Builder.take_agree hchange htree.children hstarted).bind fun b b' hb =>
    Builder.result_agree hb

end Element

end TopicQuery
