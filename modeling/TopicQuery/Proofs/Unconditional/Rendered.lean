import TopicQuery.Proofs.Rendered.Statement
import TopicQuery.Proofs.Unconditional.Scanned

/-!
Rendered statements without a condition. What a statement lists is written as if
a condition followed, and then trimmed: unless the last item ends with `from` this
leaves the canonical form.
-/

namespace TopicQuery

open Text

/-- What ends with the word `from`. -/
def EndsWithFrom (cs : List Char) : Prop := "from".toList <:+ cs

namespace Phrase

open Grammar Style

variable {s : Style} {c : Scope}

/-! ## Lists in front of their last item -/

/-- The tokens of phrases with a comma behind each. -/
def leading {α : Type} (tokens : α → List Token) (xs : List α) : List Token :=
  xs.flatMap fun x => tokens x ++ [.symbol .comma]

theorem listed_concat {α : Type} (tokens : α → List Token) (xs : List α) (x : α) :
    listed tokens (xs ++ [x]) = leading tokens xs ++ tokens x := by
  match xs with
  | [] => rfl
  | [y] => simp [listed, leading]
  | y :: z :: xs =>
      have hrest := listed_concat tokens (z :: xs) x
      simp only [List.cons_append, listed] at hrest ⊢
      rw [hrest]
      simp [leading]

/-- Items with a comma and a blank behind each. -/
def leadText (texts : List String) : String := String.join (texts.map (· ++ ", "))

theorem commaList_concat (texts : List String) (last : String) :
    commaList (texts ++ [last]) = leadText texts ++ last := by
  match texts with
  | [] => simp [commaList, leadText, String.join]
  | [text] => simp [commaList, leadText, String.join_cons, String.intercalate_cons_cons]
  | text :: text' :: texts =>
      have hrest := commaList_concat (text' :: texts) last
      rw [List.cons_append, commaList_cons_of_ne_nil (by simp), hrest]
      simp [leadText, String.append_assoc]

theorem sealed_leadText {α : Type} {tokens : α → List Token} {xs : List α} {texts : List String}
    (h : List.Forall₂ (fun x text => Spelled (tokens x) text) xs texts) :
    Sealed (leading tokens xs) (leadText texts) := by
  have hcomma : Sealed [.symbol .comma] ", " := (sealed_mark (by decide)).append sealed_blank
  induction h with
  | nil => exact sealed_nil
  | @cons x text xs texts hfirst _ ih =>
      have hall := (hfirst.append_sealed hcomma (by decide) (by decide)).append ih
      simpa [leading, leadText, String.join_cons, String.append_assoc] using hall

/-! ## What is written for a list -/

/-- The step gives the value that it gives. -/
theorem gives_self {α : Type} {r : Except RenderFault α} {P : Prop} {Q : α → Prop}
    (h : Gives r P Q) : Gives r P fun a => r = .ok a ∧ Q a where
  succeeds := h.succeeds
  holds ha := ⟨(h.holds ha).1, ha, (h.holds ha).2⟩

/-- The texts of a list of changes up to the last item, and of the last item. -/
structure ListedAs (s : Style) (c : Scope) (x : Change) (init : List Target) (final : Target)
    (lead last : String) : Prop where
  targets : x.targets = init ++ [final]
  stops : Stops lead.toList
  lead : Sealed (.keyword x.word :: leading Category.target.tokens (init.map (Target.canonical c)))
    lead
  item : item s (targetElement c final) = .ok last
  last : Spelled (Category.target.tokens (final.canonical c)) last

/-- What is written for a list of changes ends with a blank in front of the last item. -/
theorem stops_lead (k : Keyword) (hk : k ∈ [.update, .delete, .merge]) (texts : List String) :
    Stops (k.text ++ " " ++ leadText texts).toList := by
  cases texts using List.reverseRecOn with
  | nil =>
      simp only [List.mem_cons, List.not_mem_nil, or_false] at hk
      rcases hk with rfl | rfl | rfl
      · exact stops_of_end "updat".toList (by decide : 'e' ≠ 'm')
      · exact stops_of_end "delet".toList (by decide : 'e' ≠ 'm')
      · exact stops_of_end "merg".toList (by decide : 'e' ≠ 'm')
  | append_singleton texts text =>
      have hend : (k.text ++ " " ++ leadText (texts ++ [text])).toList =
          (k.text ++ " " ++ leadText texts ++ text).toList ++ [',', ' '] := by
        simp [leadText, String.join_append]
      rw [hend]
      exact stops_of_end _ (by decide)

/-- A statement without a condition is its head without what would lead to a condition. -/
theorem statement_unconditional (hs : s.Suits c) (x : Change) :
    s.statement (statementElement c (.change x none)) =
      (s.head (statementElement c (.change x none)) >>= fun head =>
        .ok (String.ofList (withoutFinalFrom head.toList) ++ "\n")) := by
  have hchildren : (statementElement c (.change x none)).children = changeElements c x :=
    List.append_nil _
  have hnone : ∀ name ∈ ["where", "orderby", "pagination"],
      (statementElement c (.change x none)).child? name = none := by
    intro name hname
    rw [Element.child?, hchildren]
    refine List.find?_eq_none.mpr fun y hy hfound => ?_
    have htail := isTail_changeElements x y hy
    rw [isTail, beq_iff_eq.mp hfound] at htail
    simp [hname] at htail
  have hconditional : s.statement (statementElement c (.change x none)) =
      s.conditional (statementElement c (.change x none)) := by
    cases x <;> rfl
  have hselect : ((statementElement c (.change x none)).name == "select") = false := by
    cases x <;> rfl
  rw [hconditional]
  unfold Style.conditional Style.tail
  simp only [hnone "where" (by simp), hnone "orderby" (by simp), hnone "pagination" (by simp),
    hs.comment, hselect]
  cases s.head (statementElement c (.change x none)) <;> simp <;> rfl

/-- What is written for a list without a condition. -/
theorem unconditional_gives (hs : s.Suits c) {x : Change} (hlists : x.Lists)
    (hrefers : x.Refers c) (hproper : ∀ u ∈ x.tokens, u.Proper) :
    Gives (s.statement (statementElement c (.change x none))) (s.Allows (x.canonical c).IsPlain)
      fun text => ∃ init final lead last, ListedAs s c x init final lead last ∧
        text = String.ofList (withoutFinalFrom (lead ++ last ++ " from ").toList) ++ "\n" := by
  have hword : x.word ∈ [.update, .delete, .merge] := by
    cases x with
    | insert content => exact absurd rfl (hlists content)
    | _ => simp [Change.word]
  have hinsert : x.word ≠ .insert := by
    rintro heq
    simp [heq] at hword
  obtain ⟨init, final, htargets⟩ : ∃ init final, x.targets = init ++ [final] :=
    ⟨_, _, (List.dropLast_append_getLast (Change.targets_ne_nil hlists hrefers)).symm⟩
  have hgives : ∀ y ∈ x.targets, s.Writes (item s (targetElement c y))
      (Category.target.IsPlain (y.canonical c)) (Category.target.tokens (y.canonical c)) :=
    fun y hy => target_gives hs (Change.refers_targets hrefers y hy) fun u hu => hproper u (by
      rw [Change.tokens_targets hlists]
      exact List.mem_cons_of_mem _ (mem_listed_of_mem hy hu))
  rw [htargets] at hgives
  have hinit : Gives (init.mapM fun y => item s (targetElement c y))
      (∀ y ∈ init, s.Allows (Category.target.IsPlain (y.canonical c)))
      (List.Forall₂ (fun y => Spelled (Category.target.tokens (y.canonical c))) init) :=
    gives_mapM fun y hy => hgives y (by simp [hy])
  have hfinal := gives_self (hgives final (by simp))
  have hhead : s.head (statementElement c (.change x none)) =
      (init.mapM (fun y => item s (targetElement c y)) >>= fun texts =>
        item s (targetElement c final) >>= fun last =>
          .ok (x.word.text ++ " " ++ leadText texts ++ last ++ " from ")) := by
    rw [head_change hlists rfl (fun y (hy : y ∈ []) => by simp at hy) rfl, htargets, List.mapM_map]
    simp only [List.mapM_append, List.mapM_cons, List.mapM_nil, bind_assoc, pure_bind,
      commaList_concat, String.append_assoc, Function.comp_def]
  rw [statement_unconditional hs, hhead]
  simp only [bind_assoc, ok_bind]
  refine (hinit.bind fun texts htexts => hfinal.map fun {last} hlast => ?_).of_iff ?_
  · refine ⟨init, final, x.word.text ++ " " ++ leadText texts, last,
      ⟨htargets, stops_lead x.word hword texts, ?_, hlast.1, hlast.2⟩, rfl⟩
    exact (sealed_keyword_blank x.word hinsert).append
      (sealed_leadText (List.forall₂_map_left_iff.mpr htexts))
  · rw [Change.isPlain_targets (Change.lists_canonical hlists), Change.targets_canonical, htargets,
      allows_forall]
    simp [or_imp, forall_and]

/-! ## Trimmed and untrimmed lists -/

section

variable {x : Change} {init : List Target} {final : Target} {lead last : String}

theorem ListedAs.trimmed (h : ListedAs s c x init final lead last) :
    ∃ kept, withoutFinalFrom (lead ++ last ++ " from ").toList = lead.toList ++ kept ∧
      kept <+: last.toList ++ [' '] ∧
        (kept = last.toList ++ [' '] ↔ ¬EndsWithFrom last.toList) := by
  obtain ⟨kept, hkept, hprefix, hiff⟩ := withoutFinalFrom_lead h.stops (last.toList ++ [' '])
  refine ⟨kept, ?_, hprefix, hiff.trans (not_congr ?_)⟩
  · have hall : (lead ++ last ++ " from ").toList =
        lead.toList ++ (last.toList ++ [' ']) ++ finalFrom := by
      simp [finalFrom]
    rw [hall, withoutFinalFrom_append, hkept]
  · have hblank : finalFrom = "from".toList ++ [' '] := rfl
    rw [hblank, EndsWithFrom]
    constructor
    · rintro ⟨front, hfront⟩
      rw [← List.append_assoc] at hfront
      exact ⟨front, (List.append_inj' hfront rfl).1⟩
    · rintro ⟨front, hfront⟩
      exact ⟨front, by rw [← List.append_assoc, hfront]⟩

/-- A list whose last item does not end with `from` is written in canonical form. -/
theorem ListedAs.finishes (h : ListedAs s c x init final lead last) (hlists : x.Lists)
    (hlast : ¬EndsWithFrom last.toList) :
    Scan.Finishes (x.canonical c).tokens
      (String.ofList (withoutFinalFrom (lead ++ last ++ " from ").toList) ++ "\n").toList := by
  have hword : (x.canonical c).word = x.word := by cases x <;> rfl
  have htokens : (x.canonical c).tokens =
      (.keyword x.word :: leading Category.target.tokens (init.map (Target.canonical c))) ++
        Category.target.tokens (final.canonical c) := by
    rw [Change.tokens_targets (Change.lists_canonical hlists), Change.targets_canonical, h.targets,
      List.map_append, List.map_singleton, listed_concat, hword]
    rfl
  obtain ⟨kept, hkept, -, hiff⟩ := h.trimmed
  have hall := (h.lead.append_spelled h.last).blank.finishes (finishes_ending false)
  rw [hkept, hiff.mpr hlast, htokens]
  simpa [Document.questionTokens, List.append_assoc] using hall

/-- A list whose last item ends with `from` loses the end of it. -/
theorem ListedAs.loses (h : ListedAs s c x init final lead last)
    (hlast : EndsWithFrom last.toList) :
    ∃ kept, withoutFinalFrom (lead ++ last ++ " from ").toList = lead.toList ++ kept ∧
      kept.length + 4 ≤ last.toList.length := by
  obtain ⟨front, hfront⟩ := hlast
  obtain ⟨kept, hkept, hprefix, -⟩ := withoutFinalFrom_lead h.stops front
  refine ⟨kept, ?_, ?_⟩
  · have hall : (lead ++ last ++ " from ").toList =
        lead.toList ++ front ++ finalFrom ++ finalFrom := by
      simp [finalFrom, ← hfront]
    rw [hall, withoutFinalFrom_append, withoutFinalFrom_append, hkept]
  · have hlength := hprefix.length_le
    simp [← hfront]
    omega

end

end Phrase

end TopicQuery
