import LibAudit.Auparse.ExprParse
import LibAudit.Lib.Heap

/-!
# Installing a search: `ausearch_add_item` and so on

An application puts its search together from several calls.  Each call makes an expression and combines it
with the one that is installed, by `add_expr`.

An expression is a tree of objects in a heap, and memory may run out anywhere in a call.  What has been
allocated by then is freed again.  So it is not enough to say which expression a call stands for: the tree
that is installed must not be touched by a call that fails, and nothing that belongs to it may be freed.
`Owns` says which objects an expression consists of.

`installed_fold` is the result: there is no access to an object that is not there, the installed tree is the
left fold of the calls that succeeded, no other object is left in the heap, and a call that fails changes
nothing.  What `expr_parse` allocates and frees for a text that it refuses is left out.
-/

namespace LibAudit.Auparse

open Records List Option Heap

/-! ## Expressions in memory -/

/-- `op` of a `struct expr`, with what it uses of the union.  Strings belong to the node. -/
inductive ExprOp where
  | not (sub : Nat)
  /-- `EO_OR` if `isOr`, and else `EO_AND`. -/
  | binary (isOr : Bool) (sub₀ sub₁ : Nat)
  /-- Everything else. -/
  | leaf (x : Expr)
  deriving DecidableEq

/-- `struct expr`. -/
structure ExprNode where
  op : ExprOp
  started : Bool
  deriving DecidableEq

/-- The memory that a call gets. -/
structure Mallocs where
  /-- Where an expression is put, if there is memory for it. -/
  place : Heap ExprNode → Option Nat
  free_place : ∀ h a, place h = some a → h.cell a = none
  /-- There is memory for the strings of an expression. -/
  strings : Heap ExprNode → Bool
  /-- What is in memory that has not been written to. -/
  junk : Bool

/-- Memory that does not run out. -/
def Mallocs.plenty : Mallocs where
  place h := some h.bound
  free_place h a ha := h.free_of_le a (some.inj ha).le
  strings _ := true
  junk := false

/-- `expr_free`. -/
def exprFree : Nat → Heap ExprNode → Nat → Option (Heap ExprNode)
  | 0, _, _ => none
  | fuel + 1, h, a => do
    let n ← h.cell a
    let h ← match n.op with
      | .not b => exprFree fuel h b
      | .binary _ b c => do
        let h ← exprFree fuel h b
        exprFree fuel h c
      | .leaf _ => some h
    let _ ← h.cell a
    some (h.free a)

/-- What a function that makes an expression returns: NULL, or a pointer to it. -/
abbrev Made := Heap ExprNode × Option Nat

/-- An expression without subexpressions is allocated; if what else it needs is not there, it is freed. -/
def create (M : Mallocs) (x : Expr) (started : Bool) (ok : Heap ExprNode → Bool) (h : Heap ExprNode) :
    Made :=
  match M.place h with
  | none => (h, none)
  | some a =>
    let h := h.set a ⟨.leaf x, started⟩
    if ok h then (h, some a) else (h.free a, none)

/-- `expr_create_comparison` and `expr_create_field_exists`, which copy strings. -/
def createItem (M : Mallocs) (x : Expr) : Heap ExprNode → Made := create M x false M.strings

/-- `expr_create_timestamp_comparison_ex`. -/
def createTimestampComparisonEx (M : Mallocs) (x : Expr) : Heap ExprNode → Made :=
  create M x false fun _ => true

/-- `expr_create_regexp_expression`. -/
def createRegexpExpression (env : ParseEnv) (M : Mallocs) (re : Bytes) : Heap ExprNode → Made :=
  create M (.regexp re) false fun h => M.strings h && (env.regcomp re).isNone

/-- `parse_comparison`, for an expression that is accepted. -/
def buildLeaf (M : Mallocs) (x : Expr) (h : Heap ExprNode) : Option Made :=
  some (create M x M.junk M.strings h)

/-- `expr_create_binary`. -/
def createBinary (M : Mallocs) (isOr : Bool) (e₁ e₂ : Nat) (h : Heap ExprNode) : Made :=
  match M.place h with
  | none => (h, none)
  | some a => (h.set a ⟨.binary isOr e₁ e₂, false⟩, some a)

/-- A negation in `parse_primary`. -/
def buildNot (M : Mallocs) (sub : Heap ExprNode → Option Made) (h : Heap ExprNode) : Option Made := do
  let (h, e) ← sub h
  match e with
  | none => some (h, none)
  | some e =>
    match M.place h with
    | none => do
      let h ← exprFree h.bound h e
      some (h, none)
    | some a => some (h.set a ⟨.not e, M.junk⟩, some a)

/-- One round of `parse_and` or `parse_or`. -/
def buildBinary (M : Mallocs) (isOr : Bool) (left right : Heap ExprNode → Option Made)
    (h : Heap ExprNode) : Option Made := do
  let (h, res) ← left h
  match res with
  | none => some (h, none)
  | some res =>
    let (h, e2) ← right h
    match e2 with
    | none => do
      let h ← exprFree h.bound h res
      some (h, none)
    | some e2 =>
      match M.place h with
      | none => do
        let h ← exprFree h.bound h e2
        let h ← exprFree h.bound h res
        some (h, none)
      | some a => some (h.set a ⟨.binary isOr res e2, M.junk⟩, some a)

/-- The memory that `expr_parse` uses for an expression. -/
def build (M : Mallocs) : Expr → Heap ExprNode → Option Made
  | .not x => buildNot M (build M x)
  | .and x y => buildBinary M false (build M x) (build M y)
  | .or x y => buildBinary M true (build M x) (build M y)
  | .raw ne field value => buildLeaf M (.raw ne field value)
  | .interpreted ne field value => buildLeaf M (.interpreted ne field value)
  | .value op c => buildLeaf M (.value op c)
  | .fieldExists name => buildLeaf M (.fieldExists name)
  | .regexp re => buildLeaf M (.regexp re)

/-! ## The calls -/

/-- `AUSEARCH_RULE_CLEAR`, `AUSEARCH_RULE_OR` and `AUSEARCH_RULE_AND`. -/
inductive Rule where
  | clear | or | and
  deriving DecidableEq

/-- The rule, if it is within range. -/
def Rule.ofInt (how : Int) : Option Rule :=
  if how = 0 then some clear else if how = 1 then some or else if how = 2 then some and else none

/-- `au->expr`, and the expressions in memory. -/
structure SearchState where
  expr : Option Nat
  heap : Heap ExprNode

/-- The end of `add_expr`: the new root is installed. -/
def install (heap : Heap ExprNode) (root : Nat) : Option (SearchState × Bool) := do
  let heap ← heap.modify root fun n => { n with started := false }
  some (⟨some root, heap⟩, true)

/-- `add_expr`; the result says whether it returned 0. -/
def addExpr (M : Mallocs) (au : SearchState) (expr : Nat) (how : Rule) : Option (SearchState × Bool) :=
  match au.expr with
  | none => install au.heap expr
  | some old =>
    if how = .clear then do
      let heap ← exprFree au.heap.bound au.heap old
      install heap expr
    else
      match createBinary M (how == .or) old expr au.heap with
      | (heap, none) => do
        let heap ← exprFree heap.bound heap expr
        some ({ au with heap }, false)
      | (heap, some e) => install heap e

/-- A call.  Only pointers that are tested for NULL may be NULL. -/
inductive AddCall where
  /-- `ausearch_add_item`, or `ausearch_add_interpreted_item`. -/
  | item (interpreted : Bool) (field : Option Bytes) (op : Bytes) (value : Option Bytes) (how : Int)
  /-- `ausearch_add_timestamp_item_ex`. -/
  | timestampEx (op : Bytes) (sec : Int64) (milli serial : UInt32) (how : Int)
  /-- `ausearch_add_regex`. -/
  | regex (regexp : Option Bytes)
  /-- `ausearch_add_expression`. -/
  | expression (text : Bytes) (how : Int)

/-- `ausearch_add_timestamp_item`. -/
def AddCall.timestamp (op : Bytes) (sec : Int64) (milli : UInt32) (how : Int) : AddCall :=
  .timestampEx op sec milli 0 how

/-- The expression of an item. -/
def itemExpr (interpreted : Bool) (field op : Bytes) (value : Option Bytes) : Option Expr :=
  let comparison (ne : Bool) (value : Bytes) : Expr :=
    if interpreted then .interpreted ne (.name field) value else .raw ne (.name field) value
  if op = ascii "exists" then some (.fieldExists field)
  else if op = ascii "=" then value.map (comparison false)
  else if op = ascii "!=" then value.map (comparison true)
  else none

/-- `ts_tab`. -/
def tsTab : List (ValueOp × String) := [(.lt, "<"), (.le, "<="), (.ge, ">="), (.gt, ">"), (.eq, "=")]

/-- The expression of a time stamp. -/
def timestampExpr (op : Bytes) (sec : Int64) (milli serial : UInt32) : Option Expr :=
  match tsTab.find? fun entry => ascii entry.2 == op with
  | none => none
  | some (op, _) => if 1000 ≤ milli then none else some (.value op (.timestampEx sec milli serial))

section

variable (env : ParseEnv)

/-- The expression that a call is for and how it is to be combined, if the arguments are accepted. -/
def AddCall.asks : AddCall → Option (Rule × Expr)
  | item interpreted field op value how => do
    let field ← field
    let how ← Rule.ofInt how
    let x ← itemExpr interpreted field op value
    some (how, x)
  | timestampEx op sec milli serial how => do
    let x ← timestampExpr op sec milli serial
    let how ← Rule.ofInt how
    some (how, x)
  | regex regexp => regexp.map fun re => (.and, .regexp re)
  | expression text how => do
    let how ← Rule.ofInt how
    let x ← (exprParse env text).toOption
    some (how, x)

/-- The expression is made. -/
def AddCall.make (M : Mallocs) (call : AddCall) (x : Expr) (h : Heap ExprNode) : Option Made :=
  match call with
  | item .. => some (createItem M x h)
  | timestampEx .. => some (createTimestampComparisonEx M x h)
  | regex re => some (createRegexpExpression env M (re.getD []) h)
  | expression .. => build M x h

/-- One call, and whether it returns 0. -/
def AddCall.run (call : AddCall) (M : Mallocs) (au : SearchState) : Option (SearchState × Bool) :=
  match call.asks env with
  | none => some (au, false)
  | some (how, x) => do
    let (heap, expr) ← call.make env M x au.heap
    match expr with
    | none => some ({ au with heap }, false)
    | some expr => addExpr M { au with heap } expr how

/-- Several calls, and which of them return 0. -/
def runCalls : List (AddCall × Mallocs) → SearchState → Option (SearchState × List Bool)
  | [], au => some (au, [])
  | (call, M) :: calls, au => do
    let (au, ok) ← call.run env M au
    let (au, oks) ← runCalls calls au
    some (au, ok :: oks)

end

/-! ## The specification -/

/-- What one call makes of the expression that is installed, or of its truth value. -/
def combine {α : Type} (or and : α → α → α) (installed : Option α) (how : Rule) (x : α) : α :=
  match installed, how with
  | none, _ | some _, .clear => x
  | some y, .or => or y x
  | some y, .and => and y x

/-- Expressions, or truth values, are combined from the left. -/
def foldRules {α : Type} (or and : α → α → α) (installed : Option α) (xs : List (Rule × α)) : Option α :=
  xs.foldl (fun installed x => some (combine or and installed x.1 x.2)) installed

/-- What the calls were for that returned 0. -/
def succeeded (env : ParseEnv) (calls : List (AddCall × Mallocs)) (oks : List Bool) : List (Rule × Expr) :=
  (calls.zip oks).filterMap fun (call, ok) => if ok then call.1.asks env else none

/-- An expression without subexpressions. -/
def Expr.isLeaf : Expr → Bool
  | .not _ | .and _ _ | .or _ _ => false
  | _ => true

/-- The two kinds of binary expressions. -/
def Expr.binary : Bool → Expr → Expr → Expr
  | true => .or
  | false => .and

/-- The tree of objects that starts at an address is the expression, and these are its objects. -/
inductive Owns (h : Heap ExprNode) : Expr → Nat → List Nat → Prop where
  | not {a b : Nat} {started : Bool} {x : Expr} {l : List Nat} (cell : h.cell a = some ⟨.not b, started⟩)
      (sub : Owns h x b l) : Owns h (.not x) a (a :: l)
  | binary {a b c : Nat} {started isOr : Bool} {x y : Expr} {l m : List Nat}
      (cell : h.cell a = some ⟨.binary isOr b c, started⟩) (sub₀ : Owns h x b l) (sub₁ : Owns h y c m) :
      Owns h (.binary isOr x y) a (a :: (l ++ m))
  | leaf {a : Nat} {started : Bool} {x : Expr} (cell : h.cell a = some ⟨.leaf x, started⟩)
      (isLeaf : x.isLeaf = true) : Owns h x a [a]

/-- The expression is installed, and there is nothing else in memory. -/
inductive Installed (au : SearchState) : Option Expr → Prop where
  | none (expr : au.expr = none) (empty : ∀ b, au.heap.cell b = none) : Installed au none
  | some {x : Expr} {a : Nat} {l : List Nat} (expr : au.expr = some a) (owns : Owns au.heap x a l)
      (nodup : l.Nodup) (others : ∀ b ∉ l, au.heap.cell b = none) : Installed au (some x)

/-! ## Trees -/

namespace Owns

variable {h h' : Heap ExprNode} {x : Expr} {a : Nat} {l : List Nat}

theorem live (hx : Owns h x a l) : ∀ b ∈ l, h.cell b ≠ none := by
  induction hx with
  | not cell _ ih => exact forall_mem_cons.mpr ⟨by simp [cell], ih⟩
  | binary cell _ _ ih₀ ih₁ =>
    exact forall_mem_cons.mpr ⟨by simp [cell], forall_mem_append.mpr ⟨ih₀, ih₁⟩⟩
  | leaf cell _ => simp [cell]

theorem root_mem (hx : Owns h x a l) : a ∈ l := by
  cases hx <;> exact mem_cons_self

theorem congr (hx : Owns h x a l) (heq : ∀ b ∈ l, h'.cell b = h.cell b) : Owns h' x a l := by
  induction hx with
  | not cell _ ih =>
    obtain ⟨ha, hl⟩ := forall_mem_cons.mp heq
    exact .not (ha.trans cell) (ih hl)
  | binary cell _ _ ih₀ ih₁ =>
    obtain ⟨ha, hlm⟩ := forall_mem_cons.mp heq
    obtain ⟨hl, hm⟩ := forall_mem_append.mp hlm
    exact .binary (ha.trans cell) (ih₀ hl) (ih₁ hm)
  | leaf cell isLeaf => exact .leaf ((heq _ (mem_singleton.mpr rfl)).trans cell) isLeaf

theorem set (hx : Owns h x a l) {b : Nat} (hb : b ∉ l) (n : ExprNode) : Owns (h.set b n) x a l :=
  hx.congr fun _ hc => cell_set_of_ne fun he => hb (he ▸ hc)

/-- What `expr_free` does: the objects in `l` are gone, and nothing else. -/
def Without (l : List Nat) (h h' : Heap ExprNode) : Prop :=
  (∀ b ∈ l, h'.cell b = none) ∧ ∀ b ∉ l, h'.cell b = h.cell b

theorem Without.nil (h : Heap ExprNode) : Without [] h h := ⟨fun _ hb => (nomatch hb), fun _ _ => rfl⟩

theorem Without.free {h h₁ : Heap ExprNode} {l : List Nat} (hl : Without l h h₁) (a : Nat) :
    Without (a :: l) h (h₁.free a) := by
  refine ⟨fun b hb => ?_, fun b hb => ?_⟩
  · by_cases hba : b = a
    · rw [hba, cell_free_self]
    · rw [cell_free_of_ne hba]
      exact hl.1 b ((mem_cons.mp hb).resolve_left hba)
  · rw [mem_cons, not_or] at hb
    rw [cell_free_of_ne hb.1]
    exact hl.2 b hb.2

theorem Without.append {h h₁ h₂ : Heap ExprNode} {l m : List Nat} (hl : Without l h h₁)
    (hm : Without m h₁ h₂) : Without (l ++ m) h h₂ := by
  refine ⟨fun b hb => ?_, fun b hb => ?_⟩
  · by_cases hbm : b ∈ m
    · exact hm.1 b hbm
    · rw [hm.2 b hbm]
      exact hl.1 b ((mem_append.mp hb).resolve_right hbm)
  · rw [mem_append, not_or] at hb
    rw [hm.2 b hb.2, hl.2 b hb.1]

theorem exprFree_eq (hx : Owns h x a l) (hnodup : l.Nodup) {fuel : Nat} (hfuel : l.length ≤ fuel) :
    ∃ h', exprFree fuel h a = some h' ∧ Without l h h' := by
  -- the second subtree is freed in a heap in which the first one is gone
  suffices hgen : ∀ g : Heap ExprNode, (∀ b ∈ l, g.cell b = h.cell b) →
      ∃ g', exprFree fuel g a = some g' ∧ Without l g g' from hgen h fun _ _ => rfl
  induction hx generalizing fuel with
  | @not a b started x l cell sub ih =>
    intro g hg
    obtain ⟨fuel, rfl⟩ : ∃ k, fuel = k + 1 := ⟨fuel - 1, by rw [length_cons] at hfuel; omega⟩
    obtain ⟨hal, hnodup⟩ := nodup_cons.mp hnodup
    obtain ⟨ha, hl⟩ := forall_mem_cons.mp hg
    obtain ⟨g₁, hfree, hout⟩ := ih hnodup (Nat.le_of_succ_le_succ hfuel) g hl
    refine ⟨g₁.free a, ?_, hout.free a⟩
    simp [exprFree, ha, cell, hfree, hout.2 a hal]
  | @binary a b c started isOr x y l m cell sub₀ sub₁ ih₀ ih₁ =>
    intro g hg
    obtain ⟨fuel, rfl⟩ : ∃ k, fuel = k + 1 := ⟨fuel - 1, by rw [length_cons] at hfuel; omega⟩
    obtain ⟨halm, hnodup⟩ := nodup_cons.mp hnodup
    obtain ⟨hl, hm, hlm⟩ := nodup_append.mp hnodup
    obtain ⟨ha, hsub⟩ := forall_mem_cons.mp hg
    obtain ⟨hsub₀, hsub₁⟩ := forall_mem_append.mp hsub
    rw [length_cons, length_append] at hfuel
    have hfuel₀ : l.length ≤ fuel := by omega
    have hfuel₁ : m.length ≤ fuel := by omega
    obtain ⟨g₁, hfree₁, hout₁⟩ := ih₀ hl hfuel₀ g hsub₀
    have hkeep : ∀ e ∈ m, g₁.cell e = h.cell e := by
      intro e he
      rw [hout₁.2 e fun hel => hlm e hel e he rfl]
      exact hsub₁ e he
    obtain ⟨g₂, hfree₂, hout₂⟩ := ih₁ hm hfuel₁ g₁ hkeep
    have hout := hout₁.append hout₂
    refine ⟨g₂.free a, ?_, hout.free a⟩
    simp [exprFree, ha, cell, hfree₁, hfree₂, hout.2 a halm]
  | @leaf a started x cell isLeaf =>
    intro g hg
    obtain ⟨fuel, rfl⟩ : ∃ k, fuel = k + 1 := ⟨fuel - 1, by rw [length_singleton] at hfuel; omega⟩
    have ha := (hg a (mem_singleton.mpr rfl)).trans cell
    refine ⟨g.free a, ?_, (Without.nil g).free a⟩
    simp [exprFree, ha]

/-- The heap says how deep a tree can be. -/
theorem exprFree_bound (hx : Owns h x a l) (hnodup : l.Nodup) :
    ∃ h', exprFree h.bound h a = some h' ∧ Without l h h' :=
  hx.exprFree_eq hnodup (length_le_bound hnodup hx.live)

end Owns

/-! ## Making an expression -/

/-- A new expression: its objects were free before, and all others are as they were. -/
structure Grown (h : Heap ExprNode) (x : Expr) (h' : Heap ExprNode) (a : Nat) (l : List Nat) : Prop where
  owns : Owns h' x a l
  nodup : l.Nodup
  fresh : ∀ b ∈ l, h.cell b = none
  others : ∀ b ∉ l, h'.cell b = h.cell b

/-- A function makes an expression, or it fails and the heap is as it was. -/
def Allocates (x : Expr) (h : Heap ExprNode) : Made → Prop
  | (h', none) => h'.cell = h.cell
  | (h', some a) => ∃ l, Grown h x h' a l

namespace Grown

variable {h h' h'' : Heap ExprNode} {x : Expr} {a : Nat} {l : List Nat}

theorem congr (hx : Grown h x h' a l) (heq : h''.cell = h'.cell) : Grown h x h'' a l where
  __ := hx
  owns := hx.owns.congr fun b _ => congrFun heq b
  others b hb := (congrFun heq b).trans (hx.others b hb)

/-- When it is freed, the heap is as it was. -/
theorem exprFree (hx : Grown h x h' a l) :
    ∃ h'', exprFree h'.bound h' a = some h'' ∧ h''.cell = h.cell := by
  obtain ⟨h'', hfree, hout⟩ := hx.owns.exprFree_bound hx.nodup
  refine ⟨h'', hfree, funext fun b => ?_⟩
  by_cases hb : b ∈ l
  · rw [hout.1 b hb, hx.fresh b hb]
  · rw [hout.2 b hb, hx.others b hb]

theorem set {y : Expr} {n : ExprNode} (hgrown : ∀ b ∈ l, h.cell b = none) (hnodup : l.Nodup)
    (hothers : ∀ b ∉ l, h'.cell b = h.cell b) (hlive : ∀ b ∈ l, h'.cell b ≠ none)
    (hfree : h'.cell a = none) (howns : Owns (h'.set a n) y a (a :: l)) :
    Grown h y (h'.set a n) a (a :: l) := by
  have hal : a ∉ l := fun hmem => hlive a hmem hfree
  refine ⟨howns, nodup_cons.mpr ⟨hal, hnodup⟩, ?_, fun b hb => ?_⟩
  · exact forall_mem_cons.mpr ⟨(hothers a hal).symm.trans hfree, hgrown⟩
  · rw [mem_cons, not_or] at hb
    rw [cell_set_of_ne hb.1, hothers b hb.2]

/-- Two expressions, one after the other. -/
theorem disjoint {y : Expr} {h₂ : Heap ExprNode} {c : Nat} {m : List Nat} (hx : Grown h x h' a l)
    (hy : Grown h' y h₂ c m) : ∀ b ∈ l, b ∉ m :=
  fun b hl hm => hx.owns.live b hl (hy.fresh b hm)

theorem append {y : Expr} {h₂ : Heap ExprNode} {c : Nat} {m : List Nat} (hx : Grown h x h' a l)
    (hy : Grown h' y h₂ c m) :
    Owns h₂ x a l ∧ (l ++ m).Nodup ∧ (∀ b ∈ l ++ m, h.cell b = none) ∧
      ∀ b ∉ l ++ m, h₂.cell b = h.cell b := by
  have hdisjoint := hx.disjoint hy
  refine ⟨hx.owns.congr fun b hb => hy.others b (hdisjoint b hb), ?_, ?_, fun b hb => ?_⟩
  · exact nodup_append.mpr ⟨hx.nodup, hy.nodup, fun b hl c hm he => hdisjoint b hl (he ▸ hm)⟩
  · refine forall_mem_append.mpr ⟨hx.fresh, fun b hb => ?_⟩
    rw [← hx.others b fun hl => hdisjoint b hl hb]
    exact hy.fresh b hb
  · rw [mem_append, not_or] at hb
    rw [hy.others b hb.2, hx.others b hb.1]

/-- An operator on top of the two. -/
theorem binary {y : Expr} {h₂ : Heap ExprNode} {b c : Nat} {m : List Nat} (isOr started : Bool)
    (hx : Grown h x h' a l) (hy : Grown h' y h₂ b m) (hc : h₂.cell c = none) :
    Grown h (.binary isOr x y) (h₂.set c ⟨.binary isOr a b, started⟩) c (c :: (l ++ m)) := by
  obtain ⟨howns, hnodup, hfresh, hothers⟩ := hx.append hy
  have hlive : ∀ e ∈ l ++ m, h₂.cell e ≠ none := forall_mem_append.mpr ⟨howns.live, hy.owns.live⟩
  have hclm : c ∉ l ++ m := fun hmem => hlive c hmem hc
  rw [mem_append, not_or] at hclm
  refine Grown.set hfresh hnodup hothers hlive hc ?_
  exact .binary cell_set_self (howns.set hclm.1 _) (hy.owns.set hclm.2 _)

end Grown

section

variable {M : Mallocs} {x y : Expr}

theorem create_allocates (started : Bool) (ok : Heap ExprNode → Bool) (hx : x.isLeaf = true)
    (h : Heap ExprNode) : Allocates x h (create M x started ok h) := by
  rw [create]
  cases hplace : M.place h with
  | none => rfl
  | some a =>
    have hfree := M.free_place h a hplace
    dsimp only
    split
    · have howns : Owns (h.set a ⟨.leaf x, started⟩) x a [a] := .leaf cell_set_self hx
      refine ⟨[a], Grown.set (forall_mem_nil _) nodup_nil ?_ (forall_mem_nil _) hfree howns⟩
      exact fun _ _ => rfl
    · refine funext fun b => ?_
      by_cases hb : b = a
      · rw [hb, cell_free_self, hfree]
      · rw [cell_free_of_ne hb, cell_set_of_ne hb]

theorem buildNot_allocates {sub : Heap ExprNode → Option Made}
    (hsub : ∀ h, ∃ made, sub h = some made ∧ Allocates x h made) (h : Heap ExprNode) :
    ∃ made, buildNot M sub h = some made ∧ Allocates (.not x) h made := by
  obtain ⟨⟨h₁, e⟩, he, hmade⟩ := hsub h
  rw [buildNot, he]
  cases e with
  | none => exact ⟨_, rfl, hmade⟩
  | some e =>
    obtain ⟨l, hl⟩ := hmade
    dsimp only [bind_eq_bind, bind_some]
    cases hplace : M.place h₁ with
    | none =>
      obtain ⟨h₂, hfree, hcell⟩ := hl.exprFree
      exact ⟨(h₂, none), by simp [hfree], hcell⟩
    | some a =>
      have ha := M.free_place h₁ a hplace
      have hal : a ∉ l := fun hmem => hl.owns.live a hmem ha
      refine ⟨_, rfl, a :: l, Grown.set hl.fresh hl.nodup hl.others hl.owns.live ha ?_⟩
      exact .not cell_set_self (hl.owns.set hal _)

theorem buildBinary_allocates (isOr : Bool) {left right : Heap ExprNode → Option Made}
    (hleft : ∀ h, ∃ made, left h = some made ∧ Allocates x h made)
    (hright : ∀ h, ∃ made, right h = some made ∧ Allocates y h made) (h : Heap ExprNode) :
    ∃ made, buildBinary M isOr left right h = some made ∧ Allocates (.binary isOr x y) h made := by
  obtain ⟨⟨h₁, res⟩, hres, hmade⟩ := hleft h
  rw [buildBinary, hres]
  cases res with
  | none => exact ⟨_, rfl, hmade⟩
  | some res =>
    obtain ⟨l, hl⟩ := hmade
    obtain ⟨⟨h₂, e2⟩, he2, hmade₂⟩ := hright h₁
    dsimp only [bind_eq_bind, bind_some]
    rw [he2]
    cases e2 with
    | none =>
      obtain ⟨h₃, hfree, hcell⟩ := (hl.congr hmade₂).exprFree
      exact ⟨(h₃, none), by simp [hfree], hcell⟩
    | some e2 =>
      obtain ⟨m, hm⟩ := hmade₂
      dsimp only [bind_some]
      cases hplace : M.place h₂ with
      | none =>
        obtain ⟨h₃, hfree₃, hcell₃⟩ := hm.exprFree
        obtain ⟨h₄, hfree₄, hcell₄⟩ := (hl.congr hcell₃).exprFree
        exact ⟨(h₄, none), by simp [hfree₃, hfree₄], hcell₄⟩
      | some a =>
        exact ⟨_, rfl, _, hl.binary isOr M.junk hm (M.free_place h₂ a hplace)⟩

/-- **An expression that is parsed is made** from its leaves on, or all of it is freed again. -/
theorem build_allocates (M : Mallocs) (x : Expr) (h : Heap ExprNode) :
    ∃ made, build M x h = some made ∧ Allocates x h made := by
  induction x generalizing h with
  | not x ih => exact buildNot_allocates ih h
  | and x y ihx ihy => exact buildBinary_allocates false ihx ihy h
  | or x y ihx ihy => exact buildBinary_allocates true ihx ihy h
  | raw | interpreted | value | fieldExists | regexp => exact ⟨_, rfl, create_allocates _ _ rfl h⟩

end

/-! ## Adding it -/

section

variable {M : Mallocs} {au : SearchState} {x : Expr} {h : Heap ExprNode} {a : Nat} {l : List Nat}

theorem Owns.modify_started (hx : Owns h x a l) (hnodup : l.Nodup) (started : Bool) :
    ∃ n, h.modify a (fun n => { n with started }) = some (h.set a n) ∧ Owns (h.set a n) x a l := by
  cases hx with
  | not cell sub =>
    obtain ⟨hal, -⟩ := nodup_cons.mp hnodup
    exact ⟨_, modify_eq _ cell, .not cell_set_self (sub.set hal _)⟩
  | binary cell sub₀ sub₁ =>
    obtain ⟨hal, -⟩ := nodup_cons.mp hnodup
    rw [mem_append, not_or] at hal
    exact ⟨_, modify_eq _ cell, .binary cell_set_self (sub₀.set hal.1 _) (sub₁.set hal.2 _)⟩
  | leaf cell isLeaf => exact ⟨_, modify_eq _ cell, .leaf cell_set_self isLeaf⟩

theorem Grown.install (hx : Grown .empty x h a l) :
    ∃ au, install h a = some (au, true) ∧ Installed au (some x) := by
  obtain ⟨n, hmodify, howns⟩ := hx.owns.modify_started hx.nodup false
  refine ⟨⟨some a, h.set a n⟩, by simp [Auparse.install, hmodify], .some rfl howns hx.nodup fun b hb => ?_⟩
  have hba : b ≠ a := fun he => hb (he ▸ hx.owns.root_mem)
  rw [cell_set_of_ne hba]
  exact hx.others b hb

/-- What a call does to the installed expression: it is combined with the new one, or nothing changes. -/
def Extends (installed : Option Expr) (how : Rule) (x : Expr) (au : SearchState)
    (res : SearchState × Bool) : Prop :=
  if res.2 then Installed res.1 (some (combine .or .and installed how x))
  else res.1.expr = au.expr ∧ res.1.heap.cell = au.heap.cell

variable {installed : Option Expr}

theorem Grown.replace {y : Expr} {h₁ : Heap ExprNode} {b : Nat} {m : List Nat} (hy : Grown .empty y h b m)
    (hx : Grown h x h₁ a l) : ∃ h₂, Auparse.exprFree h₁.bound h₁ b = some h₂ ∧ Grown .empty x h₂ a l := by
  obtain ⟨howns, hnodup, -, hothers⟩ := hy.append hx
  obtain ⟨h₂, hfree, hout⟩ := howns.exprFree_bound hy.nodup
  refine ⟨h₂, hfree, ⟨hx.owns.congr fun c hc => ?_, hx.nodup, fun _ _ => rfl, fun c hc => ?_⟩⟩
  · exact hout.2 c fun hcm => hy.disjoint hx c hcm hc
  · by_cases hcm : c ∈ m
    · exact hout.1 c hcm
    · rw [hout.2 c hcm]
      exact hothers c fun hmem => (mem_append.mp hmem).elim hcm hc

/-- **`add_expr`**, with a new expression. -/
theorem addExpr_extends (hau : Installed au installed) (how : Rule) (hx : Grown au.heap x h a l) :
    ∃ res, addExpr M { au with heap := h } a how = some res ∧ Extends installed how x au res := by
  cases hau with
  | none expr empty =>
    have hgrown : Grown .empty x h a l :=
      ⟨hx.owns, hx.nodup, fun _ _ => rfl, fun b hb => (hx.others b hb).trans (empty b)⟩
    obtain ⟨au', hinstall, hau'⟩ := hgrown.install
    exact ⟨(au', true), by simpa [addExpr, expr] using hinstall, hau'⟩
  | @some y old m expr owns nodup others =>
    have hy : Grown .empty y au.heap old m := ⟨owns, nodup, fun _ _ => rfl, others⟩
    by_cases hclear : how = .clear
    · subst hclear
      obtain ⟨h₂, hfree, hgrown⟩ := hy.replace hx
      obtain ⟨au', hinstall, hau'⟩ := hgrown.install
      exact ⟨(au', true), by simp [addExpr, expr, hfree, hinstall], hau'⟩
    · cases hplace : M.place h with
      | none =>
        obtain ⟨h₂, hfree, hcell⟩ := hx.exprFree
        refine ⟨({ au with heap := h₂ }, false), ?_, rfl, hcell⟩
        simp [addExpr, expr, hclear, createBinary, hplace, hfree]
      | some c =>
        have hgrown := hy.binary (how == .or) false hx (M.free_place h c hplace)
        obtain ⟨au', hinstall, hau'⟩ := hgrown.install
        refine ⟨(au', true), ?_, ?_⟩
        · simp [addExpr, expr, hclear, createBinary, hplace, hinstall]
        · cases how with
          | clear => exact absurd rfl hclear
          | or | and => exact hau'

end

/-! ## The calls, one after the other -/

section

variable {env : ParseEnv}

theorem itemExpr_isLeaf {interpreted : Bool} {field op : Bytes} {value : Option Bytes} {x : Expr}
    (hx : itemExpr interpreted field op value = some x) : x.isLeaf = true := by
  dsimp only [itemExpr] at hx
  split at hx
  · obtain rfl := some.inj hx
    rfl
  · split at hx
    · obtain ⟨v, -, rfl⟩ := map_eq_some_iff.mp hx
      cases interpreted <;> rfl
    · split at hx
      · obtain ⟨v, -, rfl⟩ := map_eq_some_iff.mp hx
        cases interpreted <;> rfl
      · cases hx

theorem timestampExpr_isLeaf {op : Bytes} {sec : Int64} {milli serial : UInt32} {x : Expr}
    (hx : timestampExpr op sec milli serial = some x) : x.isLeaf = true := by
  unfold timestampExpr at hx
  split at hx
  · cases hx
  · split_ifs at hx
    obtain rfl := some.inj hx
    rfl

theorem AddCall.make_allocates {call : AddCall} {how : Rule} {x : Expr}
    (hasks : call.asks env = some (how, x)) (M : Mallocs) (h : Heap ExprNode) :
    ∃ made, call.make env M x h = some made ∧ Allocates x h made := by
  cases call with
  | item interpreted field op value how =>
    simp only [asks, bind_eq_bind, bind_eq_some_iff] at hasks
    obtain ⟨field, -, how, -, x, hx, hsome⟩ := hasks
    cases hsome
    exact ⟨_, rfl, create_allocates _ _ (itemExpr_isLeaf hx) h⟩
  | timestampEx op sec milli serial how =>
    simp only [asks, bind_eq_bind, bind_eq_some_iff] at hasks
    obtain ⟨x, hx, how, -, hsome⟩ := hasks
    cases hsome
    exact ⟨_, rfl, create_allocates _ _ (timestampExpr_isLeaf hx) h⟩
  | regex re =>
    obtain ⟨re, rfl, hsome⟩ := map_eq_some_iff.mp hasks
    cases hsome
    exact ⟨_, rfl, create_allocates _ _ rfl h⟩
  | expression text how => exact build_allocates M x h

theorem Installed.congr {au au' : SearchState} {installed : Option Expr} (hau : Installed au installed)
    (hexpr : au'.expr = au.expr) (hcell : au'.heap.cell = au.heap.cell) : Installed au' installed := by
  cases hau with
  | none expr empty => exact .none (hexpr.trans expr) fun b => (congrFun hcell b).trans (empty b)
  | some expr owns nodup others =>
    refine .some (hexpr.trans expr) (owns.congr fun b _ => congrFun hcell b) nodup fun b hb => ?_
    exact (congrFun hcell b).trans (others b hb)

/-- The expression that is installed after a call. -/
def AddCall.after (env : ParseEnv) (call : AddCall) (ok : Bool) (installed : Option Expr) : Option Expr :=
  foldRules .or .and installed (if ok then call.asks env else none).toList

variable {au : SearchState} {installed : Option Expr}

/-- **One call**: it is combined with what is installed, or nothing changes. -/
theorem AddCall.run_installed (env : ParseEnv) (call : AddCall) (M : Mallocs)
    (hau : Installed au installed) :
    ∃ au' ok, call.run env M au = some (au', ok) ∧ Installed au' (call.after env ok installed) ∧
      (ok = false → au'.expr = au.expr ∧ au'.heap.cell = au.heap.cell) := by
  cases hasks : call.asks env with
  | none =>
    exact ⟨au, false, by rw [run, hasks], hau, fun _ => ⟨rfl, rfl⟩⟩
  | some asked =>
    obtain ⟨how, x⟩ := asked
    obtain ⟨⟨heap, expr⟩, hmake, hmade⟩ := AddCall.make_allocates hasks M au.heap
    cases expr with
    | none =>
      refine ⟨{ au with heap }, false, by simp [run, hasks, hmake], hau.congr rfl hmade, fun _ => ?_⟩
      exact ⟨rfl, hmade⟩
    | some a =>
      obtain ⟨l, hx⟩ := hmade
      obtain ⟨⟨au', ok⟩, hadd, hext⟩ := addExpr_extends (M := M) hau how hx
      refine ⟨au', ok, by simp [run, hasks, hmake, hadd], ?_, ?_⟩
      · cases ok with
        | false => exact hau.congr hext.1 hext.2
        | true =>
          rw [AddCall.after, if_pos rfl, hasks]
          exact hext
      · rintro rfl
        exact hext

theorem foldRules_append {α : Type} (or and : α → α → α) (installed : Option α) (xs ys : List (Rule × α)) :
    foldRules or and installed (xs ++ ys) = foldRules or and (foldRules or and installed xs) ys :=
  foldl_append

theorem succeeded_cons (call : AddCall) (M : Mallocs) (calls : List (AddCall × Mallocs)) (ok : Bool)
    (oks : List Bool) :
    succeeded env ((call, M) :: calls) (ok :: oks) =
      (if ok then call.asks env else none).toList ++ succeeded env calls oks := by
  rw [succeeded, zip_cons_cons, filterMap_cons, succeeded]
  dsimp only
  cases (if ok then call.asks env else none) <;> rfl

/-- A run of calls, from any expression on. -/
theorem runCalls_installed (env : ParseEnv) (calls : List (AddCall × Mallocs))
    (hau : Installed au installed) :
    ∃ au' oks, runCalls env calls au = some (au', oks) ∧ oks.length = calls.length ∧
      Installed au' (foldRules .or .and installed (succeeded env calls oks)) := by
  induction calls generalizing au installed with
  | nil => exact ⟨au, [], rfl, rfl, hau⟩
  | cons call calls ih =>
    obtain ⟨call, M⟩ := call
    obtain ⟨au₁, ok, hrun, hau₁, -⟩ := AddCall.run_installed env call M hau
    obtain ⟨au₂, oks, hruns, hlen, hau₂⟩ := ih hau₁
    refine ⟨au₂, ok :: oks, by simp [runCalls, hrun, hruns], congrArg (· + 1) hlen, ?_⟩
    rw [succeeded_cons, foldRules_append]
    exact hau₂

theorem foldRules_holds (O : Oracle) (e : EventId) (s : Shown) (xs : List (Rule × Expr)) :
    (foldRules .or .and none xs).map (·.holds O e s) =
      foldRules (· || ·) (· && ·) none (xs.map fun x => (x.1, x.2.holds O e s)) := by
  rw [foldRules, foldRules, foldl_map]
  refine (foldl_hom (Option.map (Expr.holds O e s)) fun installed x => ?_).symm
  obtain ⟨how, x⟩ := x
  cases installed <;> cases how <;> rfl

end

/-- **The installed expression is the left fold of the calls that succeeded**, for every sequence of calls
and wherever memory runs out: the tree in memory is that expression and there is nothing else, its truth
value is the fold of theirs, and whichever call comes next leaves all of it as it was if it fails. -/
theorem installed_fold (env : ParseEnv) (calls : List (AddCall × Mallocs)) :
    ∃ au oks, runCalls env calls ⟨none, .empty⟩ = some (au, oks) ∧ oks.length = calls.length ∧
      Installed au (foldRules .or .and none (succeeded env calls oks)) ∧
      (∀ O e s, (foldRules .or .and none (succeeded env calls oks)).map (·.holds O e s) =
        foldRules (· || ·) (· && ·) none
          ((succeeded env calls oks).map fun x => (x.1, x.2.holds O e s))) ∧
      ∀ (call : AddCall) (M : Mallocs), ∃ au' ok, call.run env M au = some (au', ok) ∧
        (ok = false → au'.expr = au.expr ∧ au'.heap.cell = au.heap.cell) := by
  have hnone : Installed ⟨none, .empty⟩ none := .none rfl fun _ => rfl
  obtain ⟨au, oks, hrun, hlen, hau⟩ := runCalls_installed env calls hnone
  refine ⟨au, oks, hrun, hlen, hau, fun O e s => foldRules_holds O e s _, fun call M => ?_⟩
  obtain ⟨au', ok, hcall, -, hfail⟩ := AddCall.run_installed env call M hau
  exact ⟨au', ok, hcall, hfail⟩

/-- Two items and a time stamp are accepted, and a regular expression is missing. -/
example (env : ParseEnv) : (runCalls env
    [(.item false (some (ascii "uid")) (ascii "=") (some (ascii "0")) 0, .plenty),
      (.item true (some (ascii "key")) (ascii "exists") none 1, .plenty),
      (.timestampEx (ascii ">=") 10 0 0 2, .plenty), (.regex none, .plenty)] ⟨none, .empty⟩).map Prod.snd =
    some [true, true, true, false] := rfl

end LibAudit.Auparse
