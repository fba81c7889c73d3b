import Formula.Proofs.Parser.Outcome

/-!
# The parser accepts its grammar

A source text that tokenizes parses under some limit exactly if its tokens are an expression, and
then to the tree of the grammar.  `parseWithin_eq_ok_iff` also says which limits suffice.
-/

namespace Formula

namespace Parser

/-- After its first token a parser reads one expression with all the room that is left. -/
theorem parse_eq {p p₁ : Parser} (h : advance p = .ok () p₁) :
    parse p = (do
      let whole ← expression (p₁.limit - p₁.depth) .or
      match (← get).lookahead with
      | none => return whole.tree
      | some lexeme => unexpected lexeme : Parsing Expr) p₁ := by
  rw [parse, EStateM.bind_of_ok h]
  rfl

end Parser

namespace Expr

/-- A source text parses where the limit allows both the nesting that reading it takes and the
    height of the tree. -/
theorem parseWithin_eq_ok_iff {source : String} {lexemes : List Lexeme} {limit : Nat} {tree : Expr}
    (h : (Cursor.ofSource source).Yields lexemes) :
    parseWithin limit source = .ok tree ↔
      ∃ need ≤ limit, Reads (.expression .or) need (lexemes.map Lexeme.token) tree [] ∧
        tree.depth ≤ limit := by
  -- a fresh parser has all tokens of the source to read
  have hstart : (Parser.start limit (Cursor.ofSource source)).cursor.Yields lexemes := h
  obtain ⟨p, hadvance, hp⟩ := Parser.exists_advance_of_yields hstart
  have hroom : p.limit - p.depth = limit := by rw [hp.limit, hp.depth]; rfl
  constructor
  · intro hparse
    -- a parse that answers has read all of the tokens, and every other one fails
    rcases parseWithin_cases limit (Cursor.yieldsUpTo_none_iff.mpr h) with
      ⟨tree', hparse', -, hdepth, need, hneed, hreads⟩ | ⟨e, hparse', -⟩
    · obtain rfl := Except.ok.inj (hparse.symm.trans hparse')
      exact ⟨need, hneed, hreads, hdepth⟩
    · exact nomatch hparse.symm.trans hparse'
  · intro hreads
    obtain ⟨need, hneed, hreads, hdepth⟩ := hreads
    -- a reading within the limit is followed by the parser, which then stands at the end
    obtain ⟨p', hexpression, hp'⟩ :=
      hreads.succeedsOn hneed hp.ahead (by rwa [hp.limit])
    have hend : p'.lookahead = none := hp'.ahead
    rw [← hroom] at hexpression
    simp only [parseWithin]
    rw [Parser.parse_eq hadvance, EStateM.bind_of_ok hexpression, EStateM.get_bind]
    simp only [hend]
    rfl

/-- What parses under a limit parses to the same tree under every higher one. -/
theorem parseWithin_of_le {source : String} {limit higher : Nat} {tree : Expr}
    (hle : limit ≤ higher) (h : parseWithin limit source = .ok tree) :
    parseWithin higher source = .ok tree := by
  obtain ⟨lexemes, failure?, hyields⟩ := (Cursor.ofSource source).exists_yieldsUpTo
  rcases parseWithin_cases limit hyields with ⟨tree', hparse, rfl, hdepth, need, hneed, hreads⟩ |
    ⟨e, hparse, -⟩
  · obtain rfl := Except.ok.inj (h.symm.trans hparse)
    exact (parseWithin_eq_ok_iff (Cursor.yieldsUpTo_none_iff.mp hyields)).mpr
      ⟨need, Nat.le_trans hneed hle, hreads, Nat.le_trans hdepth hle⟩
  · exact nomatch h.symm.trans hparse

/-- The parser accepts exactly the expressions of the grammar, each under some limit, and gives the
    tree of the grammar, of which there is only one. -/
theorem exists_parseWithin_iff_isExpression :
    (∀ source lexemes, tokenize source = .ok lexemes → ∀ tree,
      (∃ limit, parseWithin limit source = .ok tree) ↔
        IsExpression (lexemes.map Lexeme.token) tree) ∧
    ∀ tokens tree tree', IsExpression tokens tree → IsExpression tokens tree' → tree = tree' := by
  refine ⟨fun source lexemes h tree => ?_, fun _ _ _ h h' => h.unique h'⟩
  rw [isExpression_iff]
  constructor
  · intro h'
    obtain ⟨limit, hparse⟩ := h'
    obtain ⟨need, -, hreads, -⟩ := (parseWithin_eq_ok_iff (yields_of_tokenize h)).mp hparse
    exact ⟨need, hreads⟩
  · intro h'
    obtain ⟨need, hreads⟩ := h'
    -- the limit has to allow the nesting and the height
    refine ⟨max need tree.depth, (parseWithin_eq_ok_iff (yields_of_tokenize h)).mpr ?_⟩
    exact ⟨need, Nat.le_max_left _ _, hreads, Nat.le_max_right _ _⟩

/-- A sign reaches over a power: this is how `-2 ^ 2` is derived, and how it is parsed. -/
theorem exists_parseWithin_iff_isExpression_signed_power :
    let tree : Expr := .binary true (.arithmetic .power) (.ofValue (.integer 2))
      (.ofValue (.integer 2))
    (∃ limit, parseWithin limit "-2 ^ 2" = .ok tree) ∧
      ∀ tree', IsExpression [.mark .minus, .integer 2, .mark .caret, .integer 2] tree' →
        tree' = tree := by
  intro tree
  have htwo : Derives .primary .closed [.integer 2] (.ofValue (.integer 2)) := .operand rfl
  have hpower := Derives.power htwo (.unsigned (.primary htwo))
  have htree : IsExpression [.mark .minus, .integer 2, .mark .caret, .integer 2] tree :=
    ⟨.closed, (Derives.minus (.unsigned hpower)).weaken (by decide)⟩
  have htokens : tokenize "-2 ^ 2" = .ok [⟨.mark .minus, 0, 1⟩, ⟨.integer 2, 1, 2⟩,
    ⟨.mark .caret, 3, 4⟩, ⟨.integer 2, 5, 6⟩] := rfl
  have hboth := exists_parseWithin_iff_isExpression
  exact ⟨(hboth.1 _ _ htokens tree).mpr htree, fun tree' h => hboth.2 _ _ _ h htree⟩

end Expr

end Formula
