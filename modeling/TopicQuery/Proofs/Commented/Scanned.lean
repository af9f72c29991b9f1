import TopicQuery.Proofs.Every
import TopicQuery.Proofs.Inserted
import TopicQuery.Proofs.Spelled
import TopicQuery.Proofs.Unconditional.Scanned

/-!
Scans of texts with comments. What is scanned of a text does not depend on where the text
stands, and behind texts that are scanned as the same tokens the scans of two texts go on as
they would have begun. The comment on an optimized element holds the names of passes, none
of which ends a comment, so the scan goes on behind it whatever stands there.
-/

namespace TopicQuery

open Text

namespace Scan

/-- The scans have the same tokens, and both end with the same mistake or with none. -/
def Alike (scan scan' : Scan) : Prop :=
  scan.plain = scan'.plain ∧ scan.fault.map Prod.fst = scan'.fault.map Prod.fst

theorem Alike.append {scan scan' : Scan} (h : Alike scan scan') {placed placed' : List PlacedToken}
    (hplaced : placed.map PlacedToken.token = placed'.map PlacedToken.token) :
    Alike (append placed scan) (append placed' scan') := by
  refine ⟨?_, h.2⟩
  have hplain := h.1
  simp only [plain] at hplain ⊢
  simp [Scan.append, hplaced, hplain]

theorem Alike.cons {scan scan' : Scan} (h : Alike scan scan') (t : Token) (place place' : Position) :
    Alike (cons ⟨t, place⟩ scan) (cons ⟨t, place'⟩ scan') :=
  @Alike.append scan scan' h [⟨t, place⟩] [⟨t, place'⟩] rfl

/-- What is scanned of a text does not depend on where the text stands. -/
theorem ofText_alike (mode : ScanMode) (cs : List Char) (place place' : Position) :
    Alike (ofText mode place cs) (ofText mode place' cs) := by
  induction hn : cs.length using Nat.strong_induction_on generalizing mode place place' cs with
  | _ n ih =>
  subst hn
  cases mode with
  | query =>
      rw [ofText_query, ofText_query]
      have hle : (cs.drop (ignorableSize cs)).length ≤ cs.length := by simp
      generalize cs.drop (ignorableSize cs) = ds at hle ⊢
      generalize place.advance (cs.take (ignorableSize cs)) = front
      generalize place'.advance (cs.take (ignorableSize cs)) = front'
      cases ds with
      | nil => exact ⟨rfl, rfl⟩
      | cons c rest =>
          by_cases hcomment : ∃ tail, c = '/' ∧ rest = '*' :: tail
          · obtain ⟨tail, rfl, rfl⟩ := hcomment
            exact ⟨rfl, rfl⟩
          · have hnone : ∀ tail, c = '/' → rest = '*' :: tail → False :=
              fun tail hc hrest => hcomment ⟨tail, hc, hrest⟩
            rw [fromToken_cons hnone, fromToken_cons hnone]
            cases Lexeme.read c rest with
            | error fault => exact ⟨rfl, rfl⟩
            | ok l =>
                dsimp only
                split
                · exact ⟨rfl, rfl⟩
                · refine Alike.cons (ih _ ?_ _ _ _ _ rfl) _ _ _
                  simp only [List.length_drop, List.length_cons] at hle ⊢
                  omega
  | content =>
      rw [ofText.eq_def .content place, ofText.eq_def .content place']
      cases cs with
      | nil => exact ⟨rfl, rfl⟩
      | cons c rest =>
          dsimp only
          by_cases hc : isBlank c = true
          · rw [if_pos hc, if_pos hc]
            refine Alike.cons (ih _ ?_ _ _ _ _ rfl) _ _ _
            simp only [List.length_drop, List.length_cons]
            omega
          · rw [if_neg hc, if_neg hc]
            exact ⟨rfl, rfl⟩

end Scan

/-! ## Texts that are scanned alike -/

/-- Both texts spell the same tokens, whatever stands behind them. -/
def SealedAlike (text text' : String) : Prop := ∃ ts, Sealed ts text ∧ Sealed ts text'

/-- The texts are scanned as the same tokens, wherever they stand. -/
def ScannedAlike (text text' : String) : Prop :=
  ∀ place place', (Scan.ofText .query place text.toList).Alike (.ofText .query place' text'.toList)

section Texts

variable {text text' behind behind' : String}

theorem Sealed.alike {ts : List Token} (h : Sealed ts text) : SealedAlike text text := ⟨ts, h, h⟩

theorem SealedAlike.append (h : SealedAlike text text') (hbehind : SealedAlike behind behind') :
    SealedAlike (text ++ behind) (text' ++ behind') := by
  obtain ⟨ts, hts, hts'⟩ := h
  obtain ⟨us, hus, hus'⟩ := hbehind
  exact ⟨ts ++ us, hts.append hus, hts'.append hus'⟩

theorem SealedAlike.join {lines lines' : List String} (h : List.Forall₂ SealedAlike lines lines') :
    SealedAlike (String.join lines) (String.join lines') := by
  induction h with
  | nil => exact sealed_nil.alike
  | cons hfirst _ ih =>
      rw [String.join_cons, String.join_cons]
      exact hfirst.append ih

theorem scannedAlike_refl (text : String) : ScannedAlike text text :=
  Scan.ofText_alike .query text.toList

theorem scannedAlike_of_finishes {ts : List Token} (h : Scan.Finishes ts text.toList)
    (h' : Scan.Finishes ts text'.toList) : ScannedAlike text text' := by
  intro place place'
  obtain ⟨htokens, hfault⟩ := h place
  obtain ⟨htokens', hfault'⟩ := h' place'
  exact ⟨htokens.trans htokens'.symm, by rw [hfault, hfault']⟩

/-- Behind texts that spell the same tokens the scan goes on as it would have begun. -/
theorem SealedAlike.scanned (h : SealedAlike text text') (hbehind : ScannedAlike behind behind') :
    ScannedAlike (text ++ behind) (text' ++ behind') := by
  obtain ⟨ts, hts, hts'⟩ := h
  intro place place'
  obtain ⟨placed, front, hplaced, hscan⟩ := hts behind.toList place
  obtain ⟨placed', front', hplaced', hscan'⟩ := hts' behind'.toList place'
  rw [String.toList_append, String.toList_append, hscan, hscan']
  exact (hbehind front front').append (hplaced.trans hplaced'.symm)

end Texts

/-! ## Closed comments -/

/-- The characters of a word are those of the text that it stands in. -/
theorem Text.mem_of_mem_words {cs w : List Char} (h : w ∈ words cs) {c : Char} (hc : c ∈ w) :
    c ∈ cs := by
  induction cs generalizing w with
  | nil => cases h
  | cons d cs ih =>
      by_cases hd : isBlank d = true
      · rw [words_blank hd] at h
        exact List.mem_cons_of_mem _ (ih h hc)
      · rw [Bool.not_eq_true] at hd
        cases cs with
        | nil =>
            rw [words_last hd] at h
            exact List.mem_singleton.mp h ▸ hc
        | cons d' cs =>
            rw [words_cons_cons hd] at h
            split at h
            · obtain rfl | h := List.mem_cons.mp h
              · exact List.mem_cons.mpr ((List.mem_cons.mp hc).imp_right nofun)
              · exact List.mem_cons_of_mem _ (ih h hc)
            · cases hwords : words (d' :: cs) with
              | nil =>
                  rw [hwords] at h
                  obtain rfl := List.mem_singleton.mp h
                  exact List.mem_cons.mpr ((List.mem_cons.mp hc).imp_right nofun)
              | cons w' ws =>
                  rw [hwords] at h ih
                  obtain rfl | h := List.mem_cons.mp h
                  · exact List.mem_cons.mpr
                      ((List.mem_cons.mp hc).imp_right (ih List.mem_cons_self))
                  · exact List.mem_cons_of_mem _ (ih (List.mem_cons_of_mem _ h) hc)

namespace Scan

variable {body rest : List Char}

/-- A comment without stars in it ends where it is closed. -/
theorem commentSize_closed (h : '*' ∉ body) :
    commentSize (body ++ '*' :: '/' :: rest) = some (body.length + 2) := by
  induction body with
  | nil => rfl
  | cons c body ih =>
      obtain ⟨hc, hbody⟩ := not_or.mp (mt List.mem_cons.mpr h)
      rw [List.cons_append, commentSize.eq_3 _ _ fun _ hstar _ => hc hstar.symm, ih hbody]
      rfl

/-- A closed comment is skipped. -/
theorem spells_comment (h : '*' ∉ body) :
    Spells [] ('/' :: '*' :: (body ++ ['*', '/'])) rest := by
  intro place
  have hbehind : (body ++ '*' :: '/' :: rest).drop (body.length + 2) = rest := by
    rw [← List.drop_drop, List.drop_left]
    rfl
  have hsize : ignorableSize ('/' :: '*' :: (body ++ '*' :: '/' :: rest)) =
      body.length + 4 + ignorableSize rest := by
    rw [ignorableSize.eq_def]
    split
    · next heq => cases heq
    · next heq =>
      cases heq
      rw [commentSize_closed h]
      simp only [hbehind]
    · next hcomment heq =>
      cases heq
      exact (hcomment _ rfl rfl).elim
  refine ⟨[], place.advance ('/' :: '*' :: (body ++ ['*', '/'])), rfl, ?_⟩
  have hclosed : '/' :: '*' :: (body ++ ['*', '/']) ++ rest =
      '/' :: '*' :: (body ++ '*' :: '/' :: rest) := by simp
  have hlength : ('/' :: '*' :: (body ++ ['*', '/'])).length = body.length + 4 := by simp
  rw [ofText_query, ofText_query, hclosed, hsize, ← hclosed, ← hlength,
    List.take_length_add_append, List.drop_length_add_append, Position.advance_append]
  rfl

end Scan

/-! ## Comments on elements -/

namespace Element

/-- Nothing among the passes that changed the element ends a comment. -/
def NamesPasses (e : Element) : Prop :=
  ∀ passes, e.attr? optimizedByName = some passes → '*' ∉ passes.toList

theorem star_not_mem_optimizedBy {e : Element} (h : e.NamesPasses) :
    ∀ pass ∈ e.optimizedBy, '*' ∉ pass.toList := by
  intro pass hpass
  unfold optimizedBy at hpass
  cases hattr : e.attr? optimizedByName with
  | none => simp [hattr] at hpass
  | some passes =>
      rw [hattr] at hpass
      obtain ⟨w, hw, rfl⟩ := List.mem_map.mp hpass
      rw [String.toList_ofList]
      exact fun hstar => h passes hattr (mem_of_mem_words hw hstar)

theorem star_not_mem_name (pass : Pass) : '*' ∉ pass.name.toList := by
  cases pass <;> decide

theorem NamesPasses.annotate {e : Element} (h : e.NamesPasses) (pass : Pass) :
    (e.annotate pass.name).NamesPasses := by
  have hset : ∀ {value : String}, '*' ∉ value.toList →
      (e.setAttr optimizedByName value).NamesPasses := by
    intro value hvalue passes hpasses
    rw [attr?, setAttr, Attributes.get?_put_self] at hpasses
    obtain rfl := Option.some.inj hpasses
    exact hvalue
  unfold Element.annotate
  split
  · exact hset (star_not_mem_name pass)
  · next passes hpasses =>
    split
    · exact h
    · refine hset ?_
      simp [String.toList_append, h passes hpasses, star_not_mem_name pass]

end Element

theorem star_not_mem_intercalate {names : List String} (h : ∀ name ∈ names, '*' ∉ name.toList) :
    '*' ∉ (String.intercalate ", " names).toList := by
  induction names with
  | nil => simp
  | cons name names ih =>
      obtain ⟨hfirst, hrest⟩ := List.forall_mem_cons.mp h
      cases names with
      | nil => simpa using hfirst
      | cons other names =>
          rw [String.intercalate_cons_cons]
          simpa [String.toList_append, hfirst] using ih hrest

/-- The comment on an element is skipped. -/
theorem Style.sealed_comment (s : Style) {e : Element} (h : e.NamesPasses) :
    Sealed [] (s.comment e) := by
  unfold Style.comment
  split
  · have hbody : '*' ∉ (" optimized by " ++ String.intercalate ", " e.optimizedBy ++ " ").toList := by
      simpa [String.toList_append] using star_not_mem_intercalate (Element.star_not_mem_optimizedBy h)
    have htext : ("/* optimized by " ++ String.intercalate ", " e.optimizedBy ++ " */ ").toList =
        '/' :: '*' :: ((" optimized by " ++ String.intercalate ", " e.optimizedBy ++ " ").toList ++
          ['*', '/']) ++ [' '] := by
      simp [String.toList_append]
    intro rest
    rw [htext]
    exact (Scan.spells_comment hbody).append (Scan.spells_blank (by decide))
  · exact sealed_nil

end TopicQuery
