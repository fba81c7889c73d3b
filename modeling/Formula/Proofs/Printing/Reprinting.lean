import Formula.Proofs.Engine.Session
import Formula.Proofs.Parser.Canonicity
import Formula.Proofs.Parser.Failure
import Formula.Proofs.Printing.RoundTrip

/-!
# Canonical sources within a limit

A tree that was parsed is canonical, so its canonical source has its tokens.  Under the limit that
the tree was parsed with, that source parses back exactly if it does not nest too deep, and nothing
but the nesting stands in the way.

It may nest deeper than the source of the tree.  A sum of 256 ones is as high as the standard limit
allows and takes two levels to read, but its canonical source, with a parenthesis for every
operator, takes 257.
-/

namespace Formula

namespace Expr

variable {tree : Expr} {limit : Nat}

/-- The canonical source of a tree yields tokens that read as the tree, one level deeper than their
    nesting. -/
theorem exists_yields_print (htree : tree.isCanonical = true) :
    ∃ lexemes, (Cursor.ofSource tree.print).Yields lexemes ∧
      Reads (.expression .or) (tree.printedNeed + 1) (lexemes.map Lexeme.token) tree [] := by
  obtain ⟨lexemes, hyields, htokens⟩ := writes_print htree delimited_nil .nil 0
  simp only [List.append_nil] at hyields htokens
  have hreads : Reads (.expression .or) (tree.printedNeed + 1) (tree.tokens ++ []) tree [] :=
    (reads_tokens tree []).toExpression (stops_of_none rfl)
  rw [List.append_nil, ← htokens] at hreads
  exact ⟨lexemes, hyields, hreads⟩

/-- Under a limit that allows the height of a tree, only the nesting of its canonical source
    matters. -/
theorem parseWithin_print_iff (htree : tree.isCanonical = true) (hdepth : tree.depth ≤ limit) :
    parseWithin limit tree.print = .ok tree ↔ tree.printedNeed < limit := by
  obtain ⟨lexemes, hyields, hreads⟩ := exists_yields_print htree
  rw [parseWithin_eq_ok_iff hyields]
  constructor
  · intro h
    obtain ⟨need, hneed, hreads', -⟩ := h
    obtain ⟨rfl, -⟩ := hreads.unique hreads'
    exact hneed
  · intro hneed
    exact ⟨_, hneed, hreads, hdepth⟩

/-- A canonical source parses back, or else it nests too deep. -/
theorem parseWithin_print_cases (limit : Nat) (htree : tree.isCanonical = true) :
    parseWithin limit tree.print = .ok tree ∨
      ∃ n position, parseWithin limit tree.print = .error (.nestingTooDeep n position) := by
  obtain ⟨lexemes, hyields, hreads⟩ := exists_yields_print htree
  have hexpression : IsExpression (lexemes.map Lexeme.token) tree :=
    isExpression_iff.mpr ⟨_, hreads⟩
  rcases parseWithin_cases_of_yields limit hyields with ⟨tree', hparse, htree'⟩ |
    ⟨-, -, -, hnone⟩ | ⟨k, hk, hblocks, -⟩ | hdeep
  · obtain rfl := hexpression.unique htree'
    exact .inl hparse
  · -- the tokens are an expression, so none of them is missing and none is unexpected
    exact absurd ⟨tree, hexpression⟩ hnone
  · exact absurd hexpression.begins hblocks.not_begins
  · exact .inr hdeep

/-! ## A sum that does not come back -/

/-- The sum of ones with the given number of additions. -/
def sumOfOnes : Nat → Expr
  | 0 => .ofValue (.integer 1)
  | n + 1 => .binary false (.arithmetic .add) (sumOfOnes n) (.ofValue (.integer 1))

/-- The text of so many additions of one. -/
def plusOnes : Nat → String
  | 0 => ""
  | n + 1 => " + 1" ++ plusOnes n

/-- The tokens of so many additions of one. -/
def plusOneTokens : Nat → List Token
  | 0 => []
  | n + 1 => .mark .plus :: .integer 1 :: plusOneTokens n

theorem depth_sumOfOnes (n : Nat) : (sumOfOnes n).depth = n + 1 := by
  induction n with
  | zero => rfl
  | succ n ih =>
    simp only [sumOfOnes, depth, ofValue, ih]
    omega

/-- Every addition puts another parenthesis in front of the canonical source. -/
theorem printedNeed_sumOfOnes (n : Nat) : (sumOfOnes (n + 1)).printedNeed = n + 2 := by
  induction n with
  | zero => rfl
  | succ n ih =>
    rw [sumOfOnes, printedNeed, ih]
    simp only [ofValue, printedNeed, signedNeed]
    simp

theorem delimited_plusOnes (n : Nat) : Delimited (plusOnes n).toList := by
  cases n with
  | zero => exact delimited_nil
  | succ n =>
    simp only [plusOnes, String.toList_append]
    exact delimited_blank _

theorem scans_one {rest : List Char} {following : List Token} (hrest : Delimited rest)
    (h : Scans rest following) : Scans ('1' :: rest) (.integer 1 :: following) := by
  have hdigits : ∀ c ∈ ['1'], c.isDigit = true := List.all_eq_true.mp rfl
  have hvalue : Numeral.signedInteger? false ['1'] = some 1 := by decide +kernel
  exact (Leads.stay.integer (List.cons_ne_nil _ _) hdigits hvalue hrest).scans h

theorem scans_plusOnes (n : Nat) : Scans (plusOnes n).toList (plusOneTokens n) := by
  induction n with
  | zero => exact .nil
  | succ n ih =>
    simp only [plusOnes, String.toList_append]
    exact (Leads.stay.operator (.arithmetic .add)).blank.scans (scans_one (delimited_plusOnes n) ih)

/-- The loop joins one addition after the other, and nothing nests. -/
theorem exists_reads_plusOnes (n m : Nat) :
    ∃ need ≤ 1, Reads (.climb .or (sumOfOnes m)) need (plusOneTokens n) (sumOfOnes (m + n)) [] := by
  -- on the ones still to read; the loop has `m` of them in its left operand
  induction n generalizing m with
  | zero => exact ⟨0, Nat.zero_le _, .stop (stops_of_none rfl)⟩
  | succ n ih =>
    obtain ⟨need, hneed, hreads⟩ := ih (m + 1)
    rw [Nat.add_right_comm] at hreads
    -- the right operand of a sum leaves the next sum to the loop
    have hstops : Stops Level.additive.ofRightOperand (plusOneTokens n) := by
      cases n with
      | zero => exact stops_of_none rfl
      | succ n =>
        intro op hop
        cases hop
        decide
    have hone : Reads .operand 0 (.integer 1 :: plusOneTokens n) (.ofValue (.integer 1))
        (plusOneTokens n) := .operand rfl
    exact ⟨max 1 need, by omega, .join rfl (by decide) (hone.toExpression hstops) hreads⟩

/-- A sum parses up to the height that the limit allows. -/
theorem parseWithin_sumOfOnes {n : Nat} (hn : n < limit) (hlimit : 2 ≤ limit) :
    parseWithin limit ("1" ++ plusOnes n) = .ok (sumOfOnes n) := by
  have hscans : Scans ("1" ++ plusOnes n).toList (.integer 1 :: plusOneTokens n) := by
    rw [String.toList_append]
    exact scans_one (delimited_plusOnes n) (scans_plusOnes n)
  obtain ⟨lexemes, hyields, htokens⟩ := hscans 0
  obtain ⟨need, hneed, hreads⟩ := exists_reads_plusOnes n 0
  rw [Nat.zero_add] at hreads
  have hone : Reads .operand 0 (.integer 1 :: plusOneTokens n) (sumOfOnes 0) (plusOneTokens n) :=
    .operand rfl
  have hexpression := Reads.expression hone hreads
  rw [← htokens] at hexpression
  exact (parseWithin_eq_ok_iff hyields).mpr
    ⟨_, by omega, hexpression, by rw [depth_sumOfOnes]; omega⟩

/-- Not every tree that parses is parsed back from its canonical source. -/
theorem not_forall_parse_print :
    ¬ ∀ source tree, parse source = .ok tree → parse tree.print = .ok tree := by
  intro h
  -- 256 ones
  have hparse : parse ("1" ++ plusOnes 255) = .ok (sumOfOnes 255) :=
    parseWithin_sumOfOnes (by decide) (by decide)
  obtain ⟨htree, hdepth⟩ := isCanonical_of_parseWithin hparse
  have hneed := (parseWithin_print_iff htree hdepth).mp (h _ _ hparse)
  rw [printedNeed_sumOfOnes] at hneed
  exact absurd hneed (by decide)

end Expr

/-! ## Formatting twice -/

namespace Engine

variable {config : EngineConfig} {engine : Engine} {source : String} {tree : Expr}

/-- A source that parses is formatted to the canonical source of its tree. -/
theorem Sound.exists_format (h : Sound config engine)
    (hparse : Expr.parseWithin config.parseLimit source = .ok tree) :
    ∃ engine', format source engine = .ok tree.print engine' ∧ Sound config engine' := by
  have hgives : Gives config (format source) _ := gives_format source
  rw [uncached, hparse] at hgives
  exact hgives.exists_of_ok h

/-- A source is only formatted if it parses. -/
theorem Sound.exists_of_format (h : Sound config engine) {text : String} {engine' : Engine}
    (hformat : format source engine = .ok text engine') :
    ∃ tree, Expr.parseWithin config.parseLimit source = .ok tree ∧ text = tree.print := by
  obtain ⟨hresult, -⟩ := gives_format source h
  rw [hformat] at hresult
  simp only [uncached] at hresult
  cases hparse : Expr.parseWithin config.parseLimit source with
  | ok tree =>
    rw [hparse] at hresult
    exact ⟨tree, rfl, Except.ok.inj hresult⟩
  | error e =>
    rw [hparse] at hresult
    cases hresult

end Engine

namespace Expr

/-- What was parsed is parsed back from its canonical source exactly if that source does not nest
    too deep, and exactly then an engine formats that source to itself, whatever it was asked
    before. -/
theorem parse_print_iff {source : String} {tree : Expr} (h : parse source = .ok tree) :
    (parse tree.print = .ok tree ↔ tree.printedNeed < Parser.defaultLimit) ∧
    (¬ tree.printedNeed < Parser.defaultLimit →
      ∃ n position, parse tree.print = .error (.nestingTooDeep n position)) ∧
    ∀ requests, ∃ engine,
      Engine.format source (Engine.session requests (Engine.new .standard)).2 =
        .ok tree.print engine ∧
      ((∃ engine', Engine.format tree.print engine = .ok tree.print engine') ↔
        tree.printedNeed < Parser.defaultLimit) := by
  obtain ⟨htree, hdepth⟩ := isCanonical_of_parseWithin h
  have hiff : parse tree.print = .ok tree ↔ tree.printedNeed < Parser.defaultLimit :=
    parseWithin_print_iff htree hdepth
  have hcases := parseWithin_print_cases Parser.defaultLimit htree
  refine ⟨hiff, fun hneed => hcases.resolve_left fun hprint => hneed (hiff.mp hprint),
    fun requests => ?_⟩
  -- an engine formats what a parse gives, whatever it was asked before
  have hnew : Engine.Sound .standard (Engine.new .standard) := Engine.sound_of_empty rfl rfl
  obtain ⟨engine, hformat, hsound⟩ := (hnew.session requests).2.exists_format h
  refine ⟨engine, hformat, ?_⟩
  rw [← hiff]
  constructor
  · intro hagain
    obtain ⟨engine', hagain⟩ := hagain
    -- a text that is formatted has been parsed
    obtain ⟨tree', hparse', -⟩ := hsound.exists_of_format hagain
    -- where the text parses at all, it parses back
    rcases hcases with hprint | ⟨n, position, hprint⟩
    · exact hprint
    · exact nomatch hparse'.symm.trans hprint
  · intro hprint
    obtain ⟨engine', hagain, -⟩ := hsound.exists_format hprint
    exact ⟨engine', hagain⟩

/-- A sum with a sign, which is parsed back and formatted to itself. -/
theorem parse_print_iff_sum :
    let tree : Expr := .binary false (.arithmetic .add) (.var true "a") (.lit false (.real 1.5))
    parse "-(a) + 1.5" = .ok tree ∧ parse tree.print = .ok tree ∧
      ∃ engine engine', Engine.format "-(a) + 1.5" (Engine.new .standard) = .ok tree.print engine ∧
        Engine.format tree.print engine = .ok tree.print engine' := by
  intro tree
  have hparse : parse "-(a) + 1.5" = .ok tree := by decide +kernel
  have hneed : tree.printedNeed < Parser.defaultLimit := by decide
  obtain ⟨hprint, -, hformat⟩ := parse_print_iff hparse
  obtain ⟨engine, hformat, hagain⟩ := hformat []
  obtain ⟨engine', hagain⟩ := hagain.mpr hneed
  exact ⟨hparse, hprint.mpr hneed, engine, engine', hformat, hagain⟩

end Expr

end Formula
