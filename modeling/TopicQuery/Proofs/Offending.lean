import TopicQuery.Proofs.Inserted.Ends
import TopicQuery.Proofs.Offending.Rule
import TopicQuery.Proofs.Tiled

/-!
A complaint about a token names the first one that is wrong. No accepted text begins
with the tokens up to the one that is said to be found in the wrong place, unless a
look past the token has settled what the text in front of it is.
-/

namespace TopicQuery

open Text

/-! ## Tokens stand apart -/

theorem Text.Position.eq_nil_of_behind {front more : List Char}
    (hline : (Position.behind (front ++ more)).line = (Position.behind front).line)
    (hcolumn : (Position.behind (front ++ more)).column = (Position.behind front).column) :
    more = [] := by
  simp only [Position.behind, List.count_append] at hline hcolumn
  have hnewline : ∀ c ∈ more, c ≠ '\n' := by
    intro c hc heq
    have hpos := List.count_pos_iff.mpr (heq ▸ hc : '\n' ∈ more)
    omega
  have hlast : lastLine (front ++ more) = lastLine front ++ more := by
    rw [lastLine, List.reverse_append, List.takeWhile_append_of_pos]
    · simp [lastLine]
    · intro c hc
      simpa using hnewline c (List.mem_reverse.mp hc)
  rw [hlast, byteSize_append] at hcolumn
  exact Fragment.byteSize_eq_zero (by omega)

namespace Tiles

variable {previous : Option Token} {front rest : List Char} {scan : Scan}

/-- A token stands behind the front, at its end only if it is no content or follows `insert`. -/
theorem place_eq (h : Tiles previous front rest scan) : ∀ u ∈ scan.tokens, ∃ more,
    u.place = .behind (front ++ more) ∧ (more ≠ [] ∨ (∀ content, u.token ≠ .fragment content) ∨
      previous = some (.keyword .insert)) := by
  induction h with
  | finish | question | fault => exact fun _ => nofun
  | @token previous front gap lexeme _ t scan _ _ hstands _ ih =>
      intro u hu
      obtain rfl | hu := List.mem_cons.mp hu
      · refine ⟨gap, rfl, .inr ?_⟩
        exact hstands.content.imp And.right And.right
      · obtain ⟨more, hplace, hkind⟩ := ih u hu
        refine ⟨gap ++ lexeme ++ more, by rw [hplace]; simp, ?_⟩
        obtain hmore | hkind | hinsert := hkind
        · exact .inl (by simp [hmore])
        · exact .inr (.inl hkind)
        · obtain ⟨hlexeme, -⟩ | ⟨⟨content, hcontent⟩, -⟩ := hstands.content
          · exact .inl (by simp [hlexeme])
          · rw [hcontent] at hinsert
            cases hinsert

/-- No token looks like one in front of it and stands in the same line and column. -/
theorem pairwise_apart (h : Tiles previous front rest scan) :
    scan.tokens.Pairwise fun t u => ¬t.Alike u := by
  induction h with
  | finish | question | fault => exact .nil
  | @token previous front gap lexeme _ t scan _ _ hstands hbehind ih =>
      refine .cons (fun u hu ⟨htoken, hline, hcolumn⟩ => ?_) ih
      obtain ⟨more, hplace, hkind⟩ := hbehind.place_eq u hu
      rw [hplace, List.append_assoc] at hline hcolumn
      obtain ⟨hlexeme, rfl⟩ := List.append_eq_nil_iff.mp
        (Position.eq_nil_of_behind hline hcolumn)
      obtain ⟨hne, -⟩ | ⟨⟨content, hcontent⟩, -⟩ := hstands.content
      · exact hne hlexeme
      · obtain hmore | hkind | hinsert := hkind
        · exact hmore rfl
        · exact hkind content (htoken.trans hcontent)
        · rw [hcontent] at hinsert
          cases hinsert

end Tiles

theorem scan_apart (text : String) : (scan text).tokens.Pairwise fun t u => ¬t.Alike u :=
  (Scan.tiles_text text).pairwise_apart

namespace Grammar

namespace Spot

variable {o : Spot} {pre : List PlacedToken} {s s' : State}

/-! ## Texts -/

theorem quits_document (hspared : ∀ g, Foreseen o.before o.token o.behind g → o.spared g) :
    o.Quits document :=
  quits_bind quits_state fun _ => quits_within (quits_bind (quits_directives _) fun _ =>
    quits_bind (quits_rules hspared _) fun _ => (steady_ending hspared).quits)

theorem lockedAt_document (hspared : ∀ g, Foreseen o.before o.token o.behind g → o.spared g)
    (h : o.Fork pre s s') : o.LockedAt pre s s' document document := by
  refine lockedAt_state (lockedAt_emit ?_)
  obtain ⟨hlt, hlt'⟩ := length_lt_tokens h
  have hrules : ∀ n, o.Quits (rules n >>= fun _ => ending) := fun n =>
    quits_bind (quits_rules hspared n) fun _ => (steady_ending hspared).quits
  refine lockedAt_bind (lockedAt_bind (lockedAt_directives h hlt hlt') (fun _ => hrules _)
    fun _ _ s₁ pre₁ s₁' _ h₁ hle => lockedAt_rules hspared h₁ (by omega) (by omega))
    (fun _ => quits_emit _) fun _ _ _ _ _ _ h₁ _ => (steady_emit _ _).locked _ _ _ h₁

end Spot

/-! ## The token that was found -/

/-- A token that stands nowhere in a text, with a parenthesis behind it. -/
def Spot.nowhere (token : Token) (line column : Nat) : Spot where
  before := []
  token := ⟨token, 0, line, column⟩
  behind := [⟨.symbol .rparen, 0, line + 1, column⟩]
  behind' := []
  spared := fun _ => False
  apart := by
    intro u hu h
    obtain rfl : u = ⟨.symbol .rparen, 0, line + 1, column⟩ := by simpa using hu
    exact absurd h.2.1 (Nat.succ_ne_self line)

theorem not_inRuleHead {t rparen : PlacedToken} (hrparen : rparen.token = .symbol .rparen) :
    ¬InRuleHead [t, rparen] := by
  have hclose : ∀ depth commas pairs, ∀ shape ∈ (shapeFrom depth commas pairs [rparen]).value,
      shape.next ≠ some (.symbol .implies) := by
    intro depth commas pairs shape hshape
    rw [shapeFrom, hrparen] at hshape
    dsimp only at hshape
    split at hshape
    · obtain rfl := Option.some.inj hshape
      simp
    · cases hshape
  rintro ⟨depth, shape, -, hshape, hnext⟩
  rw [shapeFrom] at hshape
  split at hshape
  · exact hclose _ _ _ _ hshape hnext
  · split at hshape
    · obtain rfl := Option.some.inj hshape
      simp [hrparen] at hnext
    · exact hclose _ _ _ _ hshape hnext
  · exact hclose _ _ _ _ hshape hnext
  · exact hclose _ _ _ _ hshape hnext
  · cases hshape
  · exact hclose _ _ _ _ hshape hnext

theorem not_foreseen_nowhere {t rparen : PlacedToken} {g : GrammarFault}
    (hrparen : rparen.token = .symbol .rparen) : ¬Foreseen [] t [rparen] g := by
  rintro (⟨-, hrule⟩ | ⟨-, hrule⟩ | ⟨-, hcall, -⟩ | ⟨-, hterm, -⟩ | ⟨-, hcall⟩ | ⟨hopens, hseen⟩)
  · exact not_inRuleHead hrparen hrule
  · exact not_inRuleHead hrparen hrule
  · simp at hcall
  · simp at hterm
  · simp [hrparen] at hcall
  · simp [callShape, hopens, shapeFrom, hrparen] at hseen

variable {text : String} {plus : Bool} {g : GrammarFault} {line column : Nat} {token : Token}

theorem stops_of_fault {fault : ParseFault} (h : (parse text plus).fault = some fault) :
    document.Stops (initial (scan text) plus) fault := by
  unfold parse at h
  generalize hreply : document (initial (scan text) plus) = reply at h
  obtain ⟨events, _ | ⟨u, s'⟩⟩ := reply
  · obtain rfl := Option.some.inj h
    exact ⟨events, hreply⟩
  · cases h

/-- The token that was found is one of the text, where the mistake is reported. -/
theorem exists_found (hfault : (parse text plus).fault = some (.grammar g line column))
    (hfound : g.found? = some token) :
    ∃ t ∈ (scan text).tokens, t.token = token ∧ t.place.line = line ∧ t.place.column = column := by
  by_contra hnone
  have hclear : (Spot.nowhere token line column).Clear (initial (scan text) plus) :=
    fun u hu halike => hnone ⟨u, hu, halike⟩
  have hquits := Spot.quits_document (o := Spot.nowhere token line column)
    fun _ => not_foreseen_nowhere rfl
  exact (hquits _ hclear).stops _ (stops_of_fault hfault) ⟨g, rfl, hfound, id⟩

/-- An accepted text is accepted wherever its tokens stand. -/
theorem succeeds_of_tokens {text' : String} (h : (parse text' plus).fault = none)
    (tokens : List PlacedToken)
    (htokens : tokens.map (·.token) = (scan text').tokens.map (·.token)) :
    document.Succeeds { initial (scan text') plus with tokens := tokens, fault := none } := by
  obtain ⟨d, hd, -, -, hfits⟩ := parse_document h
  obtain ⟨s', hruns, -⟩ := reads_document hfits
    { initial (scan text') plus with tokens := tokens, fault := none }
    ⟨rfl, rfl, htokens.trans hd⟩
  exact ⟨_, _, s', hruns⟩

end Grammar

open Grammar

/--
The text is refused for its token at the index, where another thing is expected, and an
accepted text has the same tokens up to that one.
-/
def RefusedEarly (text accepted : String) (plus : Bool) (n : Nat) (what : String) : Prop :=
  n < (scan text).tokens.length ∧
    (parse text plus).fault = (scan text).tokens[n]?.map (fun t =>
      .grammar (.expected what t.token) t.place.line t.place.column) ∧
    (parse accepted plus).fault = none ∧
    ((scan text).tokens.take (n + 1)).map (·.token) <+: (scan accepted).tokens.map (·.token)

instance (text accepted : String) (plus : Bool) (n : Nat) (what : String) :
    Decidable (RefusedEarly text accepted plus n what) :=
  inferInstanceAs (Decidable (_ ∧ _ ∧ _ ∧ _))

end TopicQuery
