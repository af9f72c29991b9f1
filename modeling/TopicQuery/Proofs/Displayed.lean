import TopicQuery.Proofs.Lexeme.Exact
import TopicQuery.Proofs.Unconditional.Scanned

/-!
Displayed tokens. The tokens of a text without topic map content, displayed one
after the other with blanks between them, are scanned again as themselves.
-/

namespace TopicQuery

open Text

/-- The tokens as they are displayed, with single blanks between them. -/
def displayed (ts : List Token) : String := " ".intercalate (ts.map Token.text)

/-! ## Single tokens -/

namespace Lexeme

variable {rest : List Char}

/-- What is displayed is what is written; a reference is quoted, but holds no quotes. -/
theorem text_of_proper {t : Token} (h : t.Proper) (hfragment : ∀ content, t ≠ .fragment content) :
    t.text.toList = t.written := by
  cases t with
  | atom kind value =>
      cases kind with
      | subjectIdentifier | subjectLocator | itemIdentifier =>
          have hquote : '"' ∉ value.toList := h.2
          simp [Token.text, Token.written, AtomKind.write, Style.atom, quoted_of_not_mem hquote]
      | _ => rfl
  | fragment content => exact absurd rfl (hfragment content)
  | _ => rfl

theorem reads_symbol (m : Symbol) (hrest : ∀ c ∈ rest.head?, c = ' ') :
    Reads (.symbol m) rest := by
  cases rest with
  | nil => cases m <;> exact ⟨_, _, rfl, rfl⟩
  | cons c rest =>
      obtain rfl : c = ' ' := hrest c rfl
      cases m <;> exact ⟨_, _, rfl, rfl⟩

/-- A token of its form is read in front of a blank and at the end of a text. -/
theorem reads_of_proper {t : Token} (h : t.Proper) (hfragment : ∀ content, t ≠ .fragment content)
    (hrest : ∀ c ∈ rest.head?, c = ' ') : Reads t rest := by
  have hsoft : Soft rest := fun c hc => by simp [hrest c hc, boundaries]
  cases t with
  | keyword word => exact reads_keyword word hsoft
  | symbol m => exact reads_symbol m hrest
  | atom kind value =>
      cases kind with
      | var => exact reads_var h hsoft
      | parameter => exact reads_parameter h
      | identifier => exact reads_identifier h hsoft
      | objectId => exact reads_objectId h hsoft
      | subjectIdentifier | subjectLocator | itemIdentifier => exact reads_reference rfl h
      | iri => exact reads_iri h
      | string => exact reads_string value (hsoft.head?_ne (by decide))
      | date | dateTime | integer | decimal => exact reads_number (by decide) h hsoft
  | qname name => exact reads_qname h hsoft
  | curie name => exact reads_curie h
  | directive name => exact reads_directive h hsoft
  | fragment content => exact absurd rfl (hfragment content)

end Lexeme

/-! ## The tokens of a text -/

/-- Tokens of their form without topic map content; only the last one can be a question mark. -/
inductive Displayable : List Token → Prop
  | nil : Displayable []
  | question : Displayable [.symbol .question]
  | cons {t : Token} {ts : List Token} (proper : t.Proper)
      (fragment : ∀ content, t ≠ .fragment content) (question : t ≠ .symbol .question)
      (insert : t ≠ .keyword .insert) (rest : Displayable ts) : Displayable (t :: ts)

namespace Scan

theorem displayable_fromToken {place : Position} {cs : List Char}
    (ih : ∀ place (ds : List Char), ds.length < cs.length →
      .keyword .insert ∉ (ofText .query place ds).plain →
      Displayable (ofText .query place ds).plain)
    (h : .keyword .insert ∉ (fromToken place cs).plain) :
    Displayable (fromToken place cs).plain := by
  unfold fromToken at h ⊢
  split
  · exact .nil
  · exact .nil
  · next c rest hcomment =>
    cases hread : Lexeme.read c rest with
    | error fault => exact .nil
    | ok l =>
        simp only [hread] at h ⊢
        split
        · next hquestion =>
          simp only [plain, cons, done, hquestion, List.map_cons, List.map_nil]
          exact .question
        · next hquestion =>
          rw [if_neg hquestion] at h
          simp only [plain, cons, List.map_cons, List.mem_cons, not_or] at h ⊢
          obtain ⟨hinsert, hrest⟩ := h
          have hmode : ScanMode.behind l.token = .query := if_neg fun heq => hinsert heq.symm
          rw [hmode] at hrest ⊢
          refine .cons (Lexeme.taken_read hread).proper (Lexeme.exact_read hread).whole hquestion
            (fun heq => hinsert heq.symm) (ih _ _ ?_ hrest)
          simp only [List.length_drop, List.length_cons]
          omega

/-- Without `insert` no topic map content is scanned, and a question mark ends the scan. -/
theorem displayable_ofText (place : Position) (cs : List Char)
    (h : .keyword .insert ∉ (ofText .query place cs).plain) :
    Displayable (ofText .query place cs).plain := by
  induction hn : cs.length using Nat.strong_induction_on generalizing place cs with
  | _ n ih =>
  subst hn
  rw [ofText_query] at h ⊢
  have hle : (cs.drop (ignorableSize cs)).length ≤ cs.length := by simp
  exact displayable_fromToken (fun place ds hlt h => ih _ (hlt.trans_le hle) place ds h rfl) h

/-- Tokens with blanks between them are scanned one after the other. -/
theorem finishes_displayed {ts : List Token} (h : Displayable ts) :
    Finishes ts (displayed ts).toList := by
  induction h with
  | nil => exact finishes_nil
  | question => exact finishes_question
  | @cons t ts hproper hfragment hquestion hinsert hts ih =>
      have htext := Lexeme.text_of_proper hproper hfragment
      cases ts with
      | nil =>
          have hread : Lexeme.Reads t [] := Lexeme.reads_of_proper hproper hfragment nofun
          have hspells := spells_token hread hquestion hinsert
          rw [← htext] at hspells
          simpa [displayed] using hspells.finishes finishes_nil
      | cons u us =>
          have hread : Lexeme.Reads t (' ' :: (displayed (u :: us)).toList) :=
            Lexeme.reads_of_proper hproper hfragment (by simp)
          have hspells := spells_token hread hquestion hinsert
          rw [← htext] at hspells
          have hbehind : Finishes (u :: us) (' ' :: (displayed (u :: us)).toList) :=
            (spells_blank (by decide : Text.isBlank ' ' = true)).finishes ih
          have hjoined : (displayed (t :: u :: us)).toList =
              t.text.toList ++ ' ' :: (displayed (u :: us)).toList := by
            simp [displayed, String.intercalate_cons_cons]
          rw [hjoined]
          exact hspells.finishes hbehind

end Scan

/--
The display of tokens is faithful: the tokens of a text without topic map content
are displayed as a text that is scanned to its end as the same tokens. Of a text
with a fault the same holds for the tokens in front of the fault.
-/
theorem scan_displayed (text : String) (hinsert : .keyword .insert ∉ (scan text).plain) :
    (scan (displayed (scan text).plain)).fault = none ∧
      (scan (displayed (scan text).plain)).plain = (scan text).plain := by
  obtain ⟨htokens, hdone⟩ :=
    Scan.finishes_displayed (Scan.displayable_ofText .start text.toList hinsert) .start
  exact ⟨hdone, htokens⟩

theorem scan_displayed_call :
    (scan "P(/*x*/i\"a b\",\"1\"\"2\",-.5)FROM<?rest").fault = none ∧
      (scan (displayed (scan "P(/*x*/i\"a b\",\"1\"\"2\",-.5)FROM<?rest").plain)).fault = none ∧
      (scan (displayed (scan "P(/*x*/i\"a b\",\"1\"\"2\",-.5)FROM<?rest").plain)).plain =
        (scan "P(/*x*/i\"a b\",\"1\"\"2\",-.5)FROM<?rest").plain := by
  suffices h : _ ∧ _ from ⟨h.1, scan_displayed _ h.2⟩
  decide +kernel

end TopicQuery
