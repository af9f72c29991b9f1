import TopicQuery.Proofs.Offending.Steady
import TopicQuery.Proofs.Shape

/-!
Complaints that follow from a look ahead. What a name with a parenthesis behind it
begins is settled by what stands behind the closing parenthesis, and whether a term
begins a comparison by the token behind the term. Once that is settled a token can
be in the wrong place though it could stand there if the text went on differently.
-/

namespace TopicQuery.Grammar

open Parser Phrase

/-- A term can begin with the token. -/
def BeginsTerm (t : Token) : Prop := Inert t ∧ t ≠ .symbol .hatHat

/-- The token can be a term by itself. -/
def Alone (t : Token) : Prop :=
  (∃ kind text, t = .atom kind text) ∨ (∃ name, t = .qname name) ∨ ∃ name, t = .curie name

theorem beginsTerm_symbol (m : Marker) : BeginsTerm (.symbol m.symbol) := by
  cases m <;> simp [BeginsTerm, Inert, Marker.symbol]

theorem Alone.beginsTerm {t : Token} (h : Alone t) : BeginsTerm t := by
  obtain ⟨kind, text, rfl⟩ | ⟨name, rfl⟩ | ⟨name, rfl⟩ := h <;> simp [BeginsTerm, Inert]

/-- A token that begins a term is a term of one token, a name, or a mark in front of one. -/
theorem BeginsTerm.cases {t : Token} (h : BeginsTerm t) :
    Alone t ∨ ∃ m : Marker, t = .symbol m.symbol := by
  obtain ⟨hinert, hhat⟩ := h
  cases t with
  | symbol mark =>
      obtain rfl | rfl | rfl := hinert
      · exact .inr ⟨.locator, rfl⟩
      · exact .inr ⟨.item, rfl⟩
      · exact absurd rfl hhat
  | atom kind text => exact .inl (.inl ⟨kind, text, rfl⟩)
  | qname name => exact .inl (.inr (.inl ⟨name, rfl⟩))
  | curie name => exact .inl (.inr (.inr ⟨name, rfl⟩))
  | keyword _ => exact hinert.elim
  | directive _ => exact hinert.elim
  | fragment _ => exact hinert.elim

/-- The parentheses around the tokens are closed among them, and `:-` stands behind the last one. -/
def InRuleHead (tokens : List PlacedToken) : Prop :=
  ∃ depth shape, 0 < depth ∧ (shapeFrom depth 0 false tokens).value = some shape ∧
    shape.next = some (.symbol .implies)

/--
The complaint about a token between two lists of tokens follows from a look past the
token. Inside the parentheses of a rule it begins a term that is not a variable, or
makes a pair; it is the comma behind the first argument of a call that has a pair
further on; it types a string that begins a clause without an operator; it is a
one-token term with a parenthesis behind it that cannot be the name of a predicate;
or it is a parenthesis that is not closed.
-/
inductive Foreseen (before : List PlacedToken) (t : PlacedToken) (behind : List PlacedToken) :
    GrammarFault → Prop
  | parameter (begins : BeginsTerm t.token) (rule : InRuleHead (t :: behind)) :
      Foreseen before t behind (.expected "a variable as rule parameter" t.token)
  | parameterPair (colon : t.token = .symbol .colon) (rule : InRuleHead (t :: behind)) :
      Foreseen before t behind (.expected "')'" t.token)
  | firstArgument {front argument : List PlacedToken} {lparen : PlacedToken} {shape : CallShape}
      (comma : t.token = .symbol .comma) (call : before = front ++ lparen :: argument)
      (opens : lparen.token = .symbol .lparen) (inert : ∀ u ∈ argument, Inert u.token)
      (seen : (shapeFrom 1 0 false (argument ++ t :: behind)).value = some shape)
      (pairs : shape.pairs = true) : Foreseen before t behind (.expected "':'" t.token)
  | typedString {front : List PlacedToken} {string : PlacedToken} {text : String}
      (typed : t.token = .symbol .hatHat) (term : before = front ++ [string])
      (atom : string.token = .atom .string text) :
      Foreseen before t behind (.expected "'(' after the predicate name" t.token)
  | name {kind : AtomKind} {text : String} (atom : t.token = .atom kind text)
      (call : behind.head?.map (·.token) = some (.symbol .lparen)) :
      Foreseen before t behind (.expected "a predicate name" t.token)
  | unclosed (opens : t.token = .symbol .lparen) (seen : (callShape 0 (t :: behind)).value = none) :
      Foreseen before t behind (.expected "'(' after the predicate name" t.token)

/-! ## Two looks at an argument list -/

section Shape

variable {depth commas : Nat} {pairs : Bool}

/-- Tokens that neither open, close nor part an argument list are passed over. -/
theorem shapeFrom_behind {pre rest : List PlacedToken} (hinert : ∀ u ∈ pre, Inert u.token) :
    shapeFrom depth commas pairs (pre ++ rest) = shapeFrom depth commas pairs rest := by
  have hmapped : ∀ t ∈ pre.map (·.token), Inert t := by simpa using hinert
  rw [shapeFrom_inert hmapped List.map_append, List.length_map, List.drop_left]

theorem shapeFrom_rparen {t : PlacedToken} {rest : List PlacedToken} (h : t.token = .symbol .rparen)
    (hdepth : depth ≤ 1) : shapeFrom depth commas pairs (t :: rest) =
      ⟨some ⟨commas + 1, pairs, rest.head?.map (·.token)⟩, rest.isEmpty⟩ := by
  rw [shapeFrom, h]
  simp [hdepth]

/-- What follows is seen whatever the commas and pairs in front. -/
theorem next_shapeFrom (depth commas commas' : Nat) (pairs pairs' : Bool)
    (tokens : List PlacedToken) :
    (shapeFrom depth commas pairs tokens).value.map (·.next) =
      (shapeFrom depth commas' pairs' tokens).value.map (·.next) := by
  induction tokens generalizing depth commas commas' pairs pairs' with
  | nil => rfl
  | cons t rest ih =>
      rw [shapeFrom, shapeFrom]
      split
      · exact ih ..
      · split
        · rfl
        · exact ih ..
      · exact ih ..
      · exact ih ..
      · rfl
      · exact ih ..

/-- Once there is a pair, there is one. -/
theorem pairs_shapeFrom {tokens : List PlacedToken} {shape : CallShape}
    (h : (shapeFrom depth commas true tokens).value = some shape) : shape.pairs = true := by
  induction tokens generalizing depth commas with
  | nil => simp [shapeFrom] at h
  | cons t rest ih =>
      rw [shapeFrom] at h
      split at h
      · exact ih h
      · split at h
        · obtain rfl := Option.some.inj h
          rfl
        · exact ih h
      · exact ih h
      · exact ih h
      · cases h
      · exact ih h

/-- Two looks see the same argument list, or it is still open at the token where they part. -/
theorem shapeFrom_forks (pre : List PlacedToken) (t : PlacedToken)
    (behind behind' : List PlacedToken) (hdepth : 0 < depth) :
    (shapeFrom depth commas pairs (pre ++ t :: behind)).value =
        (shapeFrom depth commas pairs (pre ++ t :: behind')).value ∨
      ∃ depth' commas' pairs', 0 < depth' ∧ ∀ rest,
        shapeFrom depth commas pairs (pre ++ t :: rest) =
          shapeFrom depth' commas' pairs' (t :: rest) := by
  induction pre generalizing depth commas pairs with
  | nil => exact .inr ⟨depth, commas, pairs, hdepth, fun _ => rfl⟩
  | cons u pre ih =>
      simp only [List.cons_append, shapeFrom]
      split
      · exact ih (Nat.succ_pos _)
      · split
        · cases pre <;> exact .inl rfl
        · exact ih (by omega)
      · exact ih hdepth
      · exact ih hdepth
      · exact .inl rfl
      · exact ih hdepth

end Shape

end TopicQuery.Grammar
