import TopicQuery.Proofs.Phrase.Clause
import TopicQuery.Proofs.Run

/-!
What a look ahead sees of a call. The tokens of terms hold no parenthesis, comma
or colon, so an argument list is seen to be as long as it is, and to hold pairs
if and only if its items are roles.
-/

namespace TopicQuery.Grammar

open Phrase

/-- The token can be part of a term: it means nothing to a look at an argument list. -/
def Inert : Token → Prop
  | .keyword _ => False
  | .symbol mark => mark = .eq ∨ mark = .hat ∨ mark = .hatHat
  | .atom _ _ => True
  | .qname _ => True
  | .curie _ => True
  | .directive _ => False
  | .fragment _ => False

section Shape

variable {ts rest : List Token} {tokens : List PlacedToken} {depth commas : Nat} {pairs : Bool}

/-- A look at an argument list passes over the tokens of terms. -/
theorem shapeFrom_inert (hinert : ∀ t ∈ ts, Inert t)
    (h : tokens.map (·.token) = ts ++ rest) :
    shapeFrom depth commas pairs tokens =
      shapeFrom depth commas pairs (tokens.drop ts.length) := by
  induction ts generalizing tokens with
  | nil => rfl
  | cons t ts ih =>
      cases tokens with
      | nil => simp at h
      | cons first tokens =>
          simp only [List.map_cons, List.cons_append, List.cons.injEq] at h
          have ht : Inert t := hinert t (by simp)
          rw [List.length_cons, List.drop_succ_cons,
            ← ih (fun u hu => hinert u (by simp [hu])) h.2, shapeFrom, h.1]
          cases t with
          | symbol mark => obtain rfl | rfl | rfl := ht <;> rfl
          | keyword _ => exact ht.elim
          | directive _ => exact ht.elim
          | fragment _ => exact ht.elim
          | _ => rfl

theorem map_drop_of_append (h : tokens.map (·.token) = ts ++ rest) :
    (tokens.drop ts.length).map (·.token) = rest := by
  rw [List.map_drop, h, List.drop_left]

/-- Behind a token that is seen, the look goes on with the others. -/
theorem exists_cons_of_map {t : Token} (h : tokens.map (·.token) = t :: rest) :
    ∃ first more, tokens = first :: more ∧ first.token = t ∧ more.map (·.token) = rest := by
  cases tokens with
  | nil => simp at h
  | cons first more =>
      simp only [List.map_cons, List.cons.injEq] at h
      exact ⟨first, more, rfl, h.1, h.2⟩

end Shape

/-! ## Terms and roles -/

theorem inert_of_mem_marker {m : Option Marker} : ∀ t ∈ Marker.tokens m, Inert t := by
  intro t ht
  match m with
  | none => simp [Marker.tokens] at ht
  | some .locator =>
      obtain rfl : t = .symbol .eq := by simpa [Marker.tokens, Marker.symbol] using ht
      simp [Inert]
  | some .item =>
      obtain rfl : t = .symbol .hat := by simpa [Marker.tokens, Marker.symbol] using ht
      simp [Inert]

theorem inert_of_mem_term {x : Phrase.Term} : ∀ t ∈ x.tokens, Inert t := by
  intro t ht
  match x with
  | .atom kind value =>
      obtain rfl : t = .atom kind value := by simpa [Phrase.Term.tokens] using ht
      simp [Inert]
  | .literal value datatype =>
      simp only [Phrase.Term.tokens, List.mem_cons, List.not_mem_nil, or_false] at ht
      obtain rfl | rfl | rfl := ht
      · simp [Inert]
      · simp [Inert]
      · cases datatype <;> simp [Inert, datatypeToken]
  | .qname marker name =>
      obtain h | rfl : t ∈ Marker.tokens marker ∨ t = .qname name := by simpa [Phrase.Term.tokens] using ht
      · exact inert_of_mem_marker t h
      · simp [Inert]
  | .curie marker name =>
      obtain h | rfl : t ∈ Marker.tokens marker ∨ t = .curie name := by simpa [Phrase.Term.tokens] using ht
      · exact inert_of_mem_marker t h
      · simp [Inert]
  | .iri marker value =>
      obtain rfl | rfl : t = .symbol marker.symbol ∨ t = .atom .iri value := by
        simpa [Phrase.Term.tokens] using ht
      · cases marker <;> simp [Inert, Marker.symbol]
      · simp [Inert]

/-- A list of phrases begins with the first of them. -/
theorem head?_listed {α : Type} {tokens : α → List Token} {x : α} (hx : tokens x ≠ [])
    (xs : List α) (rest : List Token) :
    (listed tokens (x :: xs) ++ rest).head? = (tokens x).head? := by
  obtain ⟨t, more, htokens⟩ := List.exists_cons_of_ne_nil hx
  cases xs <;> simp [listed, htokens]

theorem inert_of_head? {x : Phrase.Term} {t : Token} (h : x.tokens.head? = some t) : Inert t :=
  inert_of_mem_term t (List.mem_of_head? h)

theorem head?_role (r : Phrase.Role) : r.tokens.head? = r.player.tokens.head? := by
  obtain ⟨t, more, htokens⟩ := List.exists_cons_of_ne_nil r.player.tokens_ne_nil
  simp [Phrase.Role.tokens, htokens]

theorem role_tokens_ne_nil (r : Phrase.Role) : r.tokens ≠ [] := by
  simp [Phrase.Role.tokens]

theorem tokens_call (call : Call) :
    ∃ behind, call.tokens = call.name.tokens ++ Token.symbol .lparen :: behind := by
  cases call <;> exact ⟨_, rfl⟩

section Arguments

variable {tokens : List PlacedToken} {rest : List Token} {commas : Nat}

/-- Between its parentheses an argument list is seen with all its commas and without pairs. -/
theorem shapeFrom_arguments {arguments : List Phrase.Term} (hne : arguments ≠ [])
    (h : tokens.map (·.token) = listed Phrase.Term.tokens arguments ++ .symbol .rparen :: rest) :
    shapeFrom 1 commas false tokens =
      ⟨some ⟨commas + arguments.length, false, rest.head?⟩, rest.isEmpty⟩ := by
  induction arguments generalizing tokens commas with
  | nil => exact absurd rfl hne
  | cons x xs ih =>
      cases xs with
      | nil =>
          rw [listed] at h
          rw [shapeFrom_inert inert_of_mem_term h]
          obtain ⟨t, more, hdrop, ht, hmore⟩ := exists_cons_of_map (map_drop_of_append h)
          rw [hdrop, shapeFrom, ht]
          simp [← hmore]
      | cons y ys =>
          rw [listed, List.append_assoc, List.cons_append] at h
          rw [shapeFrom_inert inert_of_mem_term h]
          obtain ⟨t, more, hdrop, ht, hmore⟩ := exists_cons_of_map (map_drop_of_append h)
          rw [hdrop, shapeFrom, ht]
          simp only [if_true]
          rw [ih (by simp) hmore]
          simp [Nat.add_assoc, Nat.add_comm 1]

/-- Between the parentheses of an association pairs are seen. -/
theorem shapeFrom_roles {roles : List Phrase.Role} (hne : roles ≠ []) {pairs : Bool}
    (h : tokens.map (·.token) = listed Phrase.Role.tokens roles ++ .symbol .rparen :: rest) :
    shapeFrom 1 commas pairs tokens =
      ⟨some ⟨commas + roles.length, true, rest.head?⟩, rest.isEmpty⟩ := by
  induction roles generalizing tokens commas pairs with
  | nil => exact absurd rfl hne
  | cons r rs ih =>
      have hrole : ∃ more, tokens.map (·.token) =
          r.player.tokens ++ .symbol .colon :: (r.type.tokens ++ more) ∧
          listed Phrase.Role.tokens (r :: rs) ++ .symbol .rparen :: rest = r.tokens ++ more := by
        cases rs with
        | nil =>
            exact ⟨.symbol .rparen :: rest, by simp [h, listed, Phrase.Role.tokens], by rw [listed]⟩
        | cons s ss =>
            exact ⟨.symbol .comma :: (listed Phrase.Role.tokens (s :: ss) ++ .symbol .rparen :: rest),
              by simp [h, listed, Phrase.Role.tokens], by simp [listed]⟩
      obtain ⟨more, htokens, hmore⟩ := hrole
      rw [shapeFrom_inert inert_of_mem_term htokens]
      obtain ⟨colon, afterColon, hdrop, hcolon, htype⟩ :=
        exists_cons_of_map (map_drop_of_append htokens)
      rw [hdrop, shapeFrom, hcolon]
      simp only [decide_true, Bool.or_true]
      rw [shapeFrom_inert inert_of_mem_term htype]
      have hbehind := map_drop_of_append htype
      cases rs with
      | nil =>
          have hend : more = .symbol .rparen :: rest := by
            simpa [listed] using hmore.symm
          rw [hend] at hbehind
          obtain ⟨t, last, hlast, ht, hrest⟩ := exists_cons_of_map hbehind
          rw [hlast, shapeFrom, ht]
          simp [← hrest]
      | cons s ss =>
          have hnext : more =
              .symbol .comma :: (listed Phrase.Role.tokens (s :: ss) ++ .symbol .rparen :: rest) := by
            simpa [listed] using hmore.symm
          rw [hnext] at hbehind
          obtain ⟨t, last, hlast, ht, hrest⟩ := exists_cons_of_map hbehind
          rw [hlast, shapeFrom, ht]
          simp only [if_true]
          rw [ih (by simp) hrest]
          simp [Nat.add_assoc, Nat.add_comm 1]

/-- A look at an argument list tells how many arguments there are. -/
theorem callShape_arguments {distance : Nat} {arguments : List Phrase.Term}
    (h : (tokens.drop distance).map (·.token) =
      .symbol .lparen :: (listed Phrase.Term.tokens arguments ++ .symbol .rparen :: rest)) :
    callShape distance tokens = ⟨some ⟨arguments.length, false, rest.head?⟩, rest.isEmpty⟩ := by
  obtain ⟨t, more, hdrop, ht, hmore⟩ := exists_cons_of_map h
  simp only [callShape, hdrop, ht, if_true]
  cases arguments with
  | nil =>
      have hclosed : more.map (·.token) = .symbol .rparen :: rest := by simpa [listed] using hmore
      obtain ⟨u, last, rfl, hu, hlast⟩ := exists_cons_of_map hclosed
      simp [shapeFrom, hu, ← hlast]
  | cons x xs =>
      have hfirst : more.head?.map (·.token) ≠ some (.symbol .rparen) := by
        rw [← List.head?_map, hmore, head?_listed x.tokens_ne_nil]
        exact fun hrparen => absurd (inert_of_head? hrparen) (by simp [Inert])
      rw [shapeFrom_arguments (by simp) hmore]
      simp [hfirst]

/-- A look at the roles of an association tells that they are pairs. -/
theorem callShape_roles {distance : Nat} {roles : List Phrase.Role} (hne : roles ≠ [])
    (h : (tokens.drop distance).map (·.token) =
      .symbol .lparen :: (listed Phrase.Role.tokens roles ++ .symbol .rparen :: rest)) :
    callShape distance tokens = ⟨some ⟨roles.length, true, rest.head?⟩, rest.isEmpty⟩ := by
  obtain ⟨t, more, hdrop, ht, hmore⟩ := exists_cons_of_map h
  simp only [callShape, hdrop, ht, if_true]
  have hfirst : more.head?.map (·.token) ≠ some (.symbol .rparen) := by
    obtain ⟨r, rs, rfl⟩ := List.exists_cons_of_ne_nil hne
    rw [← List.head?_map, hmore, head?_listed (role_tokens_ne_nil r), head?_role]
    exact fun hrparen => absurd (inert_of_head? hrparen) (by simp [Inert])
  rw [shapeFrom_roles hne hmore]
  simp [hfirst]

/-- A look at a term tells how many tokens it has. -/
theorem termSize_term {x : Phrase.Term} (h : tokens.map (·.token) = x.tokens ++ rest)
    (hends : x.Ends rest) : (termSize tokens).value = some x.tokens.length := by
  have hbehind : ∀ {m : Option Marker} {t : Token}, x.tokens = Marker.tokens m ++ [t] →
      (∀ first more, first.token = t → termSize (first :: more) = ⟨some 1, false⟩) →
      (termSize tokens).value = some x.tokens.length := by
    intro m t hx ht
    rw [hx] at h ⊢
    cases m with
    | none =>
        obtain ⟨first, more, rfl, hfirst, -⟩ := exists_cons_of_map h
        simp [ht first more hfirst, Marker.tokens]
    | some m =>
        obtain ⟨mark, last, rfl, hmark, hlast⟩ := exists_cons_of_map h
        obtain ⟨first, more, rfl, hfirst, -⟩ := exists_cons_of_map hlast
        have hmarked : (termSize (mark :: first :: more)).value =
            (termSize (first :: more)).value.map (· + 1) := by
          cases m <;> simp [termSize, hmark, Marker.symbol, markedKind?]
        simp [hmarked, ht first more hfirst, Marker.tokens]
  cases x with
  | atom kind value =>
      obtain ⟨first, more, rfl, hfirst, hmore⟩ := exists_cons_of_map h
      cases kind with
      | string =>
          cases more with
          | nil => simp [termSize, hfirst, Phrase.Term.tokens]
          | cons u us =>
              obtain rfl : (u :: us).map (·.token) = rest := hmore
              have hu : u.token ≠ .symbol .hatHat := by simpa [Phrase.Term.Ends] using hends
              simp [termSize, hfirst, hu, Phrase.Term.tokens]
      | _ => simp [termSize, hfirst, Phrase.Term.tokens]
  | literal value datatype =>
      obtain ⟨first, more, rfl, hfirst, hmore⟩ := exists_cons_of_map h
      obtain ⟨mark, more, rfl, hmark, -⟩ := exists_cons_of_map hmore
      simp [termSize, hfirst, hmark, Phrase.Term.tokens]
  | qname marker name =>
      exact hbehind (t := .qname name) rfl fun first more hfirst => by simp [termSize, hfirst]
  | curie marker name =>
      exact hbehind (t := .curie name) rfl fun first more hfirst => by simp [termSize, hfirst]
  | iri marker value =>
      exact hbehind (m := some marker) (t := .atom .iri value) rfl fun first more hfirst => by simp [termSize, hfirst]

end Arguments

end TopicQuery.Grammar
