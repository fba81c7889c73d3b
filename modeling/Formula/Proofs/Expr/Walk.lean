import Mathlib.Data.List.Basic
import Formula.Expr.Walk
import Formula.Proofs.Expr.Subtrees
import Formula.Proofs.Steps

/-!
# What a walk records

`Expr.visits` is the full record of a walk, as a function of the tree: the entry of a node, the
records of its children one step further down, and the closing entry if it has any.  A walk replays
this record entry by entry (`Expr.walk_eq_replay`), so that it records all of it if nothing stops
it, and otherwise what there is up to the entry that stops it.

The shape of the record is said without walks:

* `Expr.entered_visits`   the nodes in preorder
* `Expr.nested_visits`    wherever a node is entered, its own record follows
* `Expr.depth_of_mem_visits`, `Expr.exists_mem_visits_depth`   how far down it goes
-/

namespace Formula

namespace Visit

/-- How far down an entry is made. -/
def depth : Visit → Nat
  | .enter depth _ | .leave depth _ => depth

/-- The node that an entry enters. -/
def entered? : Visit → Option Expr
  | .enter _ node => some node
  | .leave .. => none

/-- The name with which an entry stops a walk. -/
def stop? (stops : String → Bool) : Visit → Option String
  | .enter _ (.var _ name) => if stops name then some name else none
  | _ => none

/-- Only the entry of a variable stops a walk. -/
theorem stop?_eq_some_iff {stops : String → Bool} {v : Visit} {name : String} :
    v.stop? stops = some name ↔
      ∃ depth negative, v = .enter depth (.var negative name) ∧ stops name = true := by
  cases v with
  | leave depth kind => simp [stop?]
  | enter depth node =>
    cases node with
    | var negative other =>
      simp only [stop?, Option.ite_none_right_eq_some, Option.some.injEq, enter.injEq,
        Expr.var.injEq]
      grind
    | lit | binary | cond => simp [stop?]

end Visit

namespace Expr

/-! ## The full record -/

/-- The record of a walk that nothing stops. -/
def visits (depth : Nat) : Expr → List Visit
  | e@(.lit ..) => [.enter depth e]
  | e@(.var ..) => [.enter depth e]
  | e@(.binary _ _ left right) =>
    .enter depth e ::
      (left.visits (depth + 1) ++ (right.visits (depth + 1) ++ [.leave depth e.kind]))
  | e@(.cond _ condition whenTrue whenFalse) =>
    .enter depth e :: (condition.visits (depth + 1) ++
      (whenTrue.visits (depth + 1) ++ (whenFalse.visits (depth + 1) ++ [.leave depth e.kind])))

/-- The closing entry of a node, if it is an inner one. -/
def closing (depth : Nat) (e : Expr) : List Visit :=
  if e.isLeaf then [] else [.leave depth e.kind]

/-- Between the two entries of a node stand the records of its children, in source order. -/
theorem visits_eq (depth : Nat) (e : Expr) :
    e.visits depth =
      .enter depth e :: (e.children.flatMap (visits (depth + 1)) ++ e.closing depth) := by
  cases e <;> simp [visits, children, closing, isLeaf]

/-- A closing entry enters nothing. -/
theorem entered_closing (depth : Nat) (e : Expr) :
    (e.closing depth).filterMap Visit.entered? = [] := by
  unfold closing
  split <;> rfl

/-- Every node is entered once, a node before its children and these in source order. -/
theorem entered_visits (depth : Nat) (e : Expr) :
    (e.visits depth).filterMap Visit.entered? = e.subtrees := by
  induction e using children_induction generalizing depth with
  | node e ih =>
    have hchildren : (e.children.flatMap (visits (depth + 1))).filterMap Visit.entered? =
        e.children.flatMap subtrees := by
      rw [List.filterMap_flatMap]
      exact List.flatMap_congr fun child hchild => ih child hchild (depth + 1)
    have hroot : (Visit.enter depth e).entered? = some e := rfl
    rw [visits_eq, subtrees_eq, List.filterMap_cons_some hroot, List.filterMap_append, hchildren,
      entered_closing, List.append_nil]

/-- A leaf has one entry and an inner node has two. -/
theorem length_visits (depth : Nat) (e : Expr) :
    (e.visits depth).length = e.size + (e.subtrees.filter (!·.isLeaf)).length := by
  -- on the tree: one entry for a leaf, and for an inner node one more to close it
  induction e generalizing depth with
  | lit negative value | var negative name => rfl
  | binary negative op left right ihl ihr =>
    simp only [visits, size, subtrees, List.length_cons, List.length_append, List.length_nil,
      ihl, ihr, List.filter_cons, List.filter_append, isLeaf, children, List.isEmpty_cons,
      Bool.not_false, if_true]
    omega
  | cond negative condition whenTrue whenFalse ihc iht ihf =>
    simp only [visits, size, subtrees, List.length_cons, List.length_append, List.length_nil,
      ihc, iht, ihf, List.filter_cons, List.filter_append, isLeaf, children, List.isEmpty_cons,
      Bool.not_false, if_true]
    omega

/-! ### Depths -/

/-- The entries of a node are made where it stands, and those of its descendants below. -/
theorem depth_of_mem_visits {depth : Nat} {e : Expr} {v : Visit} (h : v ∈ e.visits depth) :
    depth ≤ v.depth ∧ v.depth < depth + e.depth := by
  have hpos := e.depth_pos
  induction e using children_induction generalizing depth with
  | node e ih =>
    rw [visits_eq, List.mem_cons, List.mem_append, List.mem_flatMap] at h
    -- the entry of the root, an entry of an operand, or the closing one
    obtain rfl | ⟨child, hchild, h⟩ | h := h
    · exact ⟨Nat.le_refl _, by simp only [Visit.depth]; omega⟩
    · have hdepth := depth_lt_of_mem_children hchild
      have hrange := ih child hchild h child.depth_pos
      omega
    · unfold closing at h
      split at h
      · cases h
      · obtain rfl := List.mem_singleton.mp h
        exact ⟨Nat.le_refl _, by simp only [Visit.depth]; omega⟩

/-- The deepest leaf is entered as far down as the tree is deep. -/
theorem exists_mem_visits_depth (depth : Nat) (e : Expr) :
    ∃ v ∈ e.visits depth, v.depth + 1 = depth + e.depth := by
  induction e using children_induction generalizing depth with
  | node e ih =>
    rw [visits_eq]
    by_cases hleaf : e.children = []
    · -- a leaf is its own deepest node
      refine ⟨_, List.mem_cons_self, ?_⟩
      cases e with
      | lit negative value | var negative name => rfl
      | binary | cond => cases hleaf
    · -- the deepest node stands in a deepest operand
      obtain ⟨child, hchild, hdepth⟩ := exists_depth_eq hleaf
      obtain ⟨v, hv, hvdepth⟩ := ih child hchild (depth + 1)
      exact ⟨v, List.mem_cons_of_mem _ (List.mem_append_left _
        (List.mem_flatMap.mpr ⟨child, hchild, hv⟩)), by omega⟩

/-! ### Nesting -/

/-- Whether in a record the entry of a node is always followed by the rest of the record of that
    node. -/
def Nested (log : List Visit) : Prop :=
  ∀ before depth node after, log = before ++ .enter depth node :: after →
    ∃ rest, .enter depth node :: after = node.visits depth ++ rest

theorem nested_nil : Nested [] := by
  intro before depth node after h
  simp at h

theorem nested_closing (depth : Nat) (e : Expr) : Nested (e.closing depth) := by
  intro before depth' node after h
  have hentered := entered_closing depth e
  rw [h] at hentered
  simp [Visit.entered?] at hentered

/-- A node that is entered in the first of two records is also closed there. -/
theorem Nested.append {log log' : List Visit} (h : Nested log) (h' : Nested log') :
    Nested (log ++ log') := by
  intro before depth node after heq
  obtain ⟨before', rfl, hlog'⟩ | ⟨behind, hlog, hbehind⟩ := List.append_eq_append_iff.mp heq
  · exact h' _ _ _ _ hlog'
  · cases behind with
    | nil => exact h' [] _ _ _ hbehind.symm
    | cons v behind =>
      obtain ⟨rfl, rfl⟩ := List.cons.inj hbehind
      obtain ⟨rest, hrest⟩ := h _ _ _ _ hlog
      exact ⟨rest ++ log', by rw [← List.append_assoc, ← hrest]; rfl⟩

theorem nested_flatMap {es : List Expr} {record : Expr → List Visit}
    (h : ∀ e ∈ es, Nested (record e)) : Nested (es.flatMap record) := by
  induction es with
  | nil => exact nested_nil
  | cons e es ih =>
    rw [List.forall_mem_cons] at h
    exact h.1.append (ih h.2)

theorem nested_visits (depth : Nat) (e : Expr) : Nested (e.visits depth) := by
  induction e using children_induction generalizing depth with
  | node e ih =>
    -- the records of the operands are nested, and the closing entry opens nothing
    have hinside := (nested_flatMap fun child hchild => ih child hchild (depth + 1)).append
      (nested_closing depth e)
    intro before depth' node after h
    cases before with
    | nil =>
      -- the entry of the root, which is followed by all of its record
      have hhead := h
      rw [visits_eq] at hhead
      obtain ⟨hroot, -⟩ := List.cons.inj hhead
      cases hroot
      exact ⟨[], by rw [List.append_nil, h, List.nil_append]⟩
    | cons v before =>
      -- an entry behind the root is one of an operand's
      rw [visits_eq] at h
      exact hinside _ _ _ _ (List.cons.inj h).2

/-- Behind the entry of an inner node come those of its descendants, all of them further down, and
    then its closing entry. -/
theorem Nested.exists_closing {log before after : List Visit} {depth : Nat} {node : Expr}
    (h : Nested log) (hlog : log = before ++ .enter depth node :: after)
    (hinner : node.isLeaf = false) :
    ∃ inside rest, after = inside ++ .leave depth node.kind :: rest ∧
      inside.filterMap Visit.entered? = node.children.flatMap subtrees ∧
      ∀ v ∈ inside, depth < v.depth := by
  obtain ⟨rest, hrest⟩ := h _ _ _ _ hlog
  -- behind the entry stands the record of the node: its operands, and then what closes it
  rw [visits_eq, closing, hinner, if_neg Bool.false_ne_true, List.cons_append,
    List.append_assoc] at hrest
  refine ⟨_, rest, (List.cons.inj hrest).2, ?_, ?_⟩
  · rw [List.filterMap_flatMap]
    exact List.flatMap_congr fun child _ => child.entered_visits (depth + 1)
  · intro v hv
    obtain ⟨child, -, hv⟩ := List.mem_flatMap.mp hv
    exact (depth_of_mem_visits hv).1

/-! ## Walks -/

section Replay

variable {stops : String → Bool} {log : List Visit}

/-- Makes an entry, and stops there if its variable does. -/
def replayEntry (stops : String → Bool) (v : Visit) : EStateM String (Array Visit) Unit := do
  record v
  match v.stop? stops with
  | some name => throw name
  | none => return ()

/-- Makes the entries of a record up to the first one that stops. -/
def replay (stops : String → Bool) (log : List Visit) : EStateM String (Array Visit) Unit :=
  log.forM (replayEntry stops)

/-- An entry that does not stop is followed by the others. -/
theorem replay_cons_of_none {v : Visit} (h : v.stop? stops = none) (made : Array Visit) :
    replay stops (v :: log) made = replay stops log (made.push v) := by
  have hentry : replayEntry stops v made = .ok () (made.push v) := by
    rw [replayEntry, h]
    rfl
  exact EStateM.bind_of_ok hentry _

/-- Where no entry stops, all are made. -/
theorem replay_of_forall_none (h : ∀ v ∈ log, v.stop? stops = none) (made : Array Visit) :
    replay stops log made = .ok () (made ++ log.toArray) := by
  induction log generalizing made with
  | nil => simp [replay, pure, EStateM.pure]
  | cons v log ih =>
    rw [List.forall_mem_cons] at h
    rw [replay_cons_of_none h.1, ih h.2]
    simp

/-- Where an entry stops, it is the last one that is made. -/
theorem replay_of_some {before after : List Visit} {v : Visit} {name : String}
    (hbefore : ∀ u ∈ before, u.stop? stops = none) (h : v.stop? stops = some name)
    (made : Array Visit) :
    replay stops (before ++ v :: after) made = .error name (made ++ (before ++ [v]).toArray) := by
  -- on the entries before the one that stops, each of which is added
  induction before generalizing made with
  | nil =>
    have hentry : replayEntry stops v made = .error name (made.push v) := by
      rw [replayEntry, h]
      rfl
    have hstop : replay stops (v :: after) made = .error name (made.push v) :=
      EStateM.bind_eq_error_iff.mpr (.inl hentry)
    simpa using hstop
  | cons u before ih =>
    rw [List.forall_mem_cons] at hbefore
    rw [List.cons_append, replay_cons_of_none hbefore.1, ih hbefore.2]
    simp

/-- A walk makes the entries of the full record as far as it gets, and counts the nodes. -/
theorem walk_eq_replay (stops : String → Bool) (depth : Nat) (e : Expr) :
    e.walk stops depth = (do replay stops (e.visits depth); return e.size) := by
  induction e generalizing depth with
  | lit negative value => simp [walk, visits, replay, replayEntry, Visit.stop?, size]
  | var negative name =>
    cases hstops : stops name <;>
      simp [walk, visits, replay, replayEntry, Visit.stop?, size, hstops]
  | binary negative op left right ihl ihr =>
    simp [walk, visits, replay, replayEntry, Visit.stop?, size, ihl, ihr]
  | cond negative condition whenTrue whenFalse ihc iht ihf =>
    simp [walk, visits, replay, replayEntry, Visit.stop?, size, ihc, iht, ihf]

end Replay

variable {e : Expr} {stops : String → Bool}

/-- A variable occurs in a tree exactly if the full record has an entry of it. -/
theorem mentions_iff_mem_visits {name : String} (depth : Nat) :
    e.Mentions name ↔
      ∃ below negative, .enter below (.var negative name) ∈ e.visits depth := by
  simp only [Mentions, ← e.entered_visits depth, List.mem_filterMap]
  constructor
  · rintro ⟨negative, v, hv, hentered⟩
    -- only an entry into a node says which node it is
    cases v with
    | enter below node =>
      cases hentered
      exact ⟨below, negative, hv⟩
    | leave below kind => cases hentered
  · rintro ⟨below, negative, hv⟩
    exact ⟨negative, _, hv, rfl⟩

/-- A walk whose stopping names do not occur records everything. -/
theorem walk_of_forall_mentions (h : ∀ name, e.Mentions name → stops name = false) :
    e.walk stops 0 #[] = .ok e.size (e.visits 0).toArray := by
  have hclear : ∀ v ∈ e.visits 0, v.stop? stops = none := by
    intro v hv
    rw [Option.eq_none_iff_forall_ne_some]
    intro name hname
    obtain ⟨depth, negative, rfl, hstops⟩ := Visit.stop?_eq_some_iff.mp hname
    rw [h name ((mentions_iff_mem_visits 0).mpr ⟨depth, negative, hv⟩)] at hstops
    cases hstops
  have hreplay := replay_of_forall_none hclear #[]
  rw [walk_eq_replay, EStateM.bind_of_ok hreplay, Array.empty_append]
  rfl

/-- A walk with a stopping name that occurs ends with the first entry of such a variable, and its
    error is that name. -/
theorem exists_walk_eq_error (h : ∃ name, e.Mentions name ∧ stops name = true) :
    ∃ before depth negative name after,
      e.visits 0 = before ++ .enter depth (.var negative name) :: after ∧ stops name = true ∧
      (∀ depth negative other, .enter depth (.var negative other) ∈ before → stops other = false) ∧
      e.walk stops 0 #[] = .error name (before ++ [.enter depth (.var negative name)]).toArray := by
  obtain ⟨name, hmentions, hstops⟩ := h
  obtain ⟨depth, negative, hv⟩ := (mentions_iff_mem_visits 0).mp hmentions
  -- so there is an entry that stops, and with it a first one
  have hsome : ((e.visits 0).findSome? (Visit.stop? stops)).isSome := by
    rw [List.findSome?_isSome_iff]
    exact ⟨_, hv, by rw [Visit.stop?_eq_some_iff.mpr ⟨depth, negative, rfl, hstops⟩]; rfl⟩
  obtain ⟨first, hfirst⟩ := Option.isSome_iff_exists.mp hsome
  obtain ⟨before, v, after, hvisits, hstop, hbefore⟩ := List.findSome?_eq_some_iff.mp hfirst
  have hreplay : replay stops (before ++ v :: after) #[] = _ := replay_of_some hbefore hstop #[]
  obtain ⟨depth, negative, rfl, hstops⟩ := Visit.stop?_eq_some_iff.mp hstop
  refine ⟨before, depth, negative, first, after, hvisits, hstops, ?_, ?_⟩
  · -- an entry before the first one that stops does not stop
    intro depth' negative' other hmem
    have hnone := hbefore _ hmem
    by_contra hother
    rw [Bool.not_eq_false] at hother
    rw [Visit.stop?_eq_some_iff.mpr ⟨depth', negative', rfl, hother⟩] at hnone
    cases hnone
  · rw [walk_eq_replay, hvisits]
    exact EStateM.bind_eq_error_iff.mpr (.inl (by rwa [Array.empty_append] at hreplay))

/-- Whether a log is a full record of a tree. -/
structure IsFullRecord (e : Expr) (log : List Visit) : Prop where
  /-- Every node is entered once, in preorder. -/
  entered : log.filterMap Visit.entered? = e.subtrees
  /-- There are no more closing entries than inner nodes. -/
  length : log.length = e.size + (e.subtrees.filter (!·.isLeaf)).length
  /-- No entry is made further down than the deepest node. -/
  depth_le : ∀ v ∈ log, v.depth ≤ e.depth - 1
  deepest : ∃ v ∈ log, v.depth = e.depth - 1
  /-- Behind the entry of an inner node come those of its descendants, all of them further down,
      and then its closing entry. -/
  closed : ∀ before depth node after, log = before ++ .enter depth node :: after →
    node.isLeaf = false → ∃ inside rest, after = inside ++ .leave depth node.kind :: rest ∧
      inside.filterMap Visit.entered? = node.children.flatMap subtrees ∧
      ∀ v ∈ inside, depth < v.depth

theorem isFullRecord_visits (e : Expr) : IsFullRecord e (e.visits 0) where
  entered := e.entered_visits 0
  length := e.length_visits 0
  depth_le v hv := by
    have hrange := depth_of_mem_visits hv
    omega
  deepest := by
    obtain ⟨v, hv, hdepth⟩ := e.exists_mem_visits_depth 0
    exact ⟨v, hv, by omega⟩
  closed _ _ _ _ hlog hinner := (e.nested_visits 0).exists_closing hlog hinner

/-- There is a full record of every tree, which a walk makes and counts the nodes, unless a variable
    of the tree stops it.  A walk that is stopped has made the full record up to the first entry of
    such a variable, whose name is the error. -/
theorem walk_makes_record (e : Expr) :
    (∀ s : Expr, s.subtrees = s :: s.children.flatMap subtrees) ∧
    ∃ log, IsFullRecord e log ∧
      (∀ stops : String → Bool, (∀ name, e.Mentions name → stops name = false) →
        e.walk stops 0 #[] = .ok e.size log.toArray) ∧
      ∀ stops : String → Bool, (∃ name, e.Mentions name ∧ stops name = true) →
        ∃ before depth negative name after,
          log = before ++ .enter depth (.var negative name) :: after ∧ stops name = true ∧
          (∀ depth negative other, .enter depth (.var negative other) ∈ before →
            stops other = false) ∧
          e.walk stops 0 #[] =
            .error name (before ++ [.enter depth (.var negative name)]).toArray :=
  ⟨subtrees_eq, e.visits 0, isFullRecord_visits e, fun _ => walk_of_forall_mentions,
    fun _ => exists_walk_eq_error⟩

/-- In `(x + -boom) * (if boom then 1 else x)` a walk that `boom` stops has come to its first
    occurrence, inside two open nodes.  One that `y` would stop goes to the end. -/
theorem walk_makes_record_boom :
    let sum : Expr := .binary false (.arithmetic .add) (.var false "x") (.var true "boom")
    let e : Expr := .binary false (.arithmetic .multiply) sum
      (.cond false (.var false "boom") (.lit false (.integer 1)) (.var false "x"))
    let begun : List Visit :=
      [.enter 0 e, .enter 1 sum, .enter 2 (.var false "x"), .enter 2 (.var true "boom")]
    (∀ name, e.Mentions name → (name == "y") = false) ∧
    (∃ name, e.Mentions name ∧ (name == "boom") = true) ∧
    ∃ log, IsFullRecord e log ∧ e.walk (· == "y") 0 #[] = .ok 8 log.toArray ∧ begun <+: log ∧
      e.walk (· == "boom") 0 #[] = .error "boom" begun.toArray := by
  intro sum e begun
  have hclear (name : String) (h : e.Mentions name) : (name == "y") = false := by
    -- the tree has the variables `x` and `boom`
    simp only [e, sum, mentions_binary_iff, mentions_cond_iff, mentions_var_iff,
      mentions_lit_iff] at h
    obtain (rfl | rfl) | rfl | h | rfl := h
    all_goals first | rfl | cases h
  have hboom : ∃ name, e.Mentions name ∧ (name == "boom") = true := ⟨"boom", by simp [e, sum], rfl⟩
  have hrun : e.walk (· == "boom") 0 #[] = .error "boom" begun.toArray := rfl
  obtain ⟨-, log, hrecord, hfull, hstop⟩ := walk_makes_record e
  obtain ⟨before, depth, negative, name, after, hlog, -, -, herror⟩ := hstop _ hboom
  refine ⟨hclear, hboom, log, hrecord, hfull _ hclear, ?_, hrun⟩
  -- both are what the stopped walk has made
  have hbegun : begun = before ++ [.enter depth (.var negative name)] := by
    have hmade := hrun.symm.trans herror
    injection hmade with _ hmade
    simpa using hmade
  rw [hbegun, hlog]
  exact ⟨after, by simp⟩

end Expr

end Formula
