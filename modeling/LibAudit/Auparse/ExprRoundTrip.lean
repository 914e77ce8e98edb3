import LibAudit.Auparse.ExprText

/-!
# What `expr_parse` makes of a text

It is the inverse of writing an expression, and texts without parentheses are grouped by the operators
alone.  This is shown twice: for the comparisons of a text that is put together from given ones
(`exprParse_plain`), and as the shape of whatever a text without any parenthesis is parsed as
(`exprParse_shape`).

A string of 2 ^ 31 bytes cannot be written: the lexer counts the bytes of a token in an `int`.
-/

namespace LibAudit.Auparse

open List LibAudit.Auparse.Expr

/-! ## No text has a NUL -/

variable {s : Bytes}

theorem nulFree_append {t : Bytes} : NulFree (s ++ t) ↔ NulFree s ∧ NulFree t := by
  simp [NulFree]

theorem nulFree_cons {c : UInt8} : NulFree (c :: s) ↔ c ≠ 0 ∧ NulFree s := by
  simp [NulFree, eq_comm]

theorem nulFree_delimit {d : UInt8} (hd : d ≠ 0) (hs : NulFree s) : NulFree (delimit d s) := by
  have hbody : NulFree (s.flatMap fun c => if c = 92 ∨ c = d then [92, c] else [c]) := by grind
  rw [delimit, cons_append, nulFree_cons, nulFree_append, nulFree_cons]
  exact ⟨hd, hbody, hd, not_mem_nil⟩

theorem nulFree_printNat (n : Nat) : NulFree (printNat 10 n) := fun h =>
  absurd ((isDecimal_printNat n).digits 0 h) (by decide)

theorem nulFree_field {field : FieldRef} (h : field.Denotable) : NulFree field.text := by
  cases field with
  | name name => exact nulFree_delimit (by decide) h
  | «virtual» id => cases id <;> exact (by decide)

theorem nulFree_constant (c : Constant) : NulFree c.text := by
  have htime (sec : Int64) (milli : UInt32) : NulFree (timeText sec milli) := by
    rw [timeText, nulFree_append, nulFree_append, nulFree_cons]
    exact ⟨⟨by decide, nulFree_printNat _⟩, by decide, nulFree_printNat _⟩
  cases c with
  | unsigned name val => exact nulFree_printNat _
  | recordType type => exact nulFree_printNat _
  | timestamp sec milli => exact htime sec milli
  | timestampEx sec milli serial =>
    exact nulFree_append.mpr ⟨htime sec milli, nulFree_cons.mpr ⟨by decide, nulFree_printNat _⟩⟩

theorem nulFree_comparison {field : FieldRef} {op value : Bytes} (hfield : NulFree field.text)
    (hop : NulFree op) (hvalue : NulFree value) : NulFree (comparison field op value) := by
  rw [comparison, nulFree_append, nulFree_cons, nulFree_append, nulFree_cons]
  exact ⟨hfield, by decide, hop, by decide, hvalue⟩

variable {e : Expr}

theorem nulFree_operand (h : NulFree e.text) : NulFree (e.asOperand e.text) := by
  rw [asOperand]
  split
  · rw [nulFree_cons, nulFree_append]
    exact ⟨by decide, h, by decide⟩
  · exact h

theorem nulFree_text {env : ParseEnv} {e : Expr} (he : e.Denotable env) : NulFree e.text := by
  induction e with
  | not e ih => exact nulFree_cons.mpr ⟨by decide, nulFree_operand (ih he)⟩
  | and a b iha ihb =>
    rw [text, nulFree_append, nulFree_append]
    exact ⟨⟨nulFree_operand (iha he.1), by decide⟩, nulFree_operand (ihb he.2)⟩
  | or a b iha ihb =>
    rw [text, nulFree_append, nulFree_append]
    exact ⟨⟨nulFree_operand (iha he.1), by decide⟩, nulFree_operand (ihb he.2)⟩
  | raw ne field v =>
    exact nulFree_comparison (nulFree_field he.1) (by cases ne <;> decide)
      (nulFree_delimit (by decide) he.2)
  | interpreted ne field v =>
    exact nulFree_comparison (nulFree_field he.1) (by cases ne <;> decide)
      (nulFree_delimit (by decide) he.2)
  | value op c =>
    have hfield : NulFree c.field.text := by
      cases c with
      | unsigned name val =>
        have hall : ∀ s ∈ idFields, NulFree (quote s) := by decide +kernel
        exact hall name he
      | timestamp sec milli => exact (by decide : NulFree (FieldRef.virtual .timestamp).text)
      | timestampEx sec milli n => exact (by decide : NulFree (FieldRef.virtual .timestampEx).text)
      | recordType type => exact (by decide : NulFree (FieldRef.virtual .recordType).text)
    exact nulFree_comparison hfield (by cases op <;> decide) (nulFree_constant c)
  | fieldExists name => exact he.elim
  | regexp re => exact nulFree_append.mpr ⟨by decide, nulFree_delimit (by decide) he.1⟩

/-! ## Texts without parentheses -/

/-- A comparison behind exclamation marks. -/
structure Literal where
  nots : Nat
  comparison : Expr
  simple : comparison.isCompound = false

namespace Literal

def text (l : Literal) : Bytes := List.replicate l.nots 33 ++ l.comparison.text

/-- Every `!` is for what follows it. -/
def expr (l : Literal) : Expr := (Expr.not)^[l.nots] l.comparison

end Literal

/-- Literals with `&&` between them. -/
structure Conjunction where
  first : Literal
  others : List Literal

namespace Conjunction

def operands (c : Conjunction) : List (Bytes × Expr) := c.others.map fun l => (l.text, l.expr)

def text (c : Conjunction) : Bytes := c.first.text ++ further (ascii "&&") c.operands

/-- From left to right. -/
def expr (c : Conjunction) : Expr := c.others.foldl (fun e l => .and e l.expr) c.first.expr

def literals (c : Conjunction) : List Literal := c.first :: c.others

end Conjunction

/-- Conjunctions with `||` between them: a text without parentheses. -/
structure Disjunction where
  first : Conjunction
  others : List Conjunction

namespace Disjunction

def operands (d : Disjunction) : List (Bytes × Expr) := d.others.map fun c => (c.text, c.expr)

def text (d : Disjunction) : Bytes := d.first.text ++ further (ascii "||") d.operands

/-- From left to right. -/
def expr (d : Disjunction) : Expr := d.others.foldl (fun e c => .or e c.expr) d.first.expr

def literals (d : Disjunction) : List Literal :=
  d.first.literals ++ d.others.flatMap Conjunction.literals

end Disjunction

section Plain

variable {env : ParseEnv} {n : Nat}

theorem length_operand {sep : Bytes} {ops : List (Bytes × Expr)} {o : Bytes × Expr} (h : o ∈ ops) :
    o.1.length ≤ (further sep ops).length := by
  have hpart := (sublist_flatten_of_mem (mem_map_of_mem
    (f := fun o : Bytes × Expr => 32 :: (sep ++ 32 :: o.1)) h)).length_le
  rw [further, flatMap_def]
  simp only [length_cons, length_append] at hpart
  omega

theorem nulFree_further {sep : Bytes} (hsep : NulFree sep) {ops : List (Bytes × Expr)}
    (h : ∀ o ∈ ops, NulFree o.1) : NulFree (further sep ops) := by
  intro hmem
  obtain ⟨o, ho, hmem⟩ := mem_flatMap.mp hmem
  grind

namespace Literal

theorem reads {l : Literal} (h : l.comparison.Denotable env) (hfits : l.comparison.Fits)
    (hn : l.nots < n) : Reads (parsePrimary env n) anyToken l.text l.expr := by
  obtain ⟨k, e, hsimple⟩ := l
  induction k generalizing n with
  | zero =>
    obtain ⟨m, rfl⟩ : ∃ m, n = m + 1 := ⟨n - 1, by dsimp only at hn; omega⟩
    exact reads_comparison h hfits hsimple
  | succ k ih =>
    obtain ⟨m, rfl⟩ : ∃ m, n = m + 1 := ⟨n - 1, by dsimp only at hn; omega⟩
    have hrest := ih h hfits (Nat.lt_of_succ_lt_succ hn)
    rw [expr, Function.iterate_succ_apply']
    exact reads_not hrest

theorem nots_le (l : Literal) : l.nots ≤ l.text.length := by
  simp [text, length_append, length_replicate]

theorem nulFree {l : Literal} (h : l.comparison.Denotable env) : NulFree l.text := by
  refine nulFree_append.mpr ⟨fun hmem => ?_, nulFree_text h⟩
  exact absurd (eq_of_mem_replicate hmem) (by decide)

end Literal

namespace Conjunction

theorem reads {c : Conjunction}
    (h : ∀ l ∈ c.literals, l.comparison.Denotable env ∧ l.comparison.Fits ∧ l.nots < n) :
    Reads (parseAnd (parsePrimary env n)) (· ≠ .and) c.text c.expr := by
  have hops : ∀ o ∈ (c.first.text, c.first.expr) :: c.operands,
      Reads (parsePrimary env n) anyToken o.1 o.2 :=
    (forall_mem_map (f := fun l : Literal => (l.text, l.expr)) (l := c.literals)).mpr fun l hl =>
      Literal.reads (h l hl).1 (h l hl).2.1 (h l hl).2.2
  have hand := parseAnd_reads hops
  rwa [operands, foldl_map] at hand

theorem length_literal {c : Conjunction} {l : Literal} (h : l ∈ c.literals) :
    l.text.length ≤ c.text.length := by
  rw [text, length_append]
  rcases mem_cons.mp h with rfl | h
  · exact Nat.le_add_right _ _
  · exact (length_operand (mem_map_of_mem (f := fun l : Literal => (l.text, l.expr)) h)).trans
      (Nat.le_add_left _ _)

theorem nulFree {c : Conjunction} (h : ∀ l ∈ c.literals, l.comparison.Denotable env) :
    NulFree c.text := by
  refine nulFree_append.mpr ⟨Literal.nulFree (h _ mem_cons_self), ?_⟩
  exact nulFree_further (by decide) (forall_mem_map.mpr fun l hl =>
    Literal.nulFree (h l (mem_cons_of_mem _ hl)))

end Conjunction

namespace Disjunction

theorem mem_literals {d : Disjunction} {l : Literal} :
    l ∈ d.literals ↔ ∃ c ∈ d.first :: d.others, l ∈ c.literals := by
  simp [literals]

theorem reads {d : Disjunction}
    (h : ∀ l ∈ d.literals, l.comparison.Denotable env ∧ l.comparison.Fits ∧ l.nots < n) :
    Reads (parseOr (parsePrimary env n)) (fun t => t ≠ .and ∧ t ≠ .or) d.text d.expr := by
  have hops : ∀ o ∈ (d.first.text, d.first.expr) :: d.operands,
      Reads (parseAnd (parsePrimary env n)) (· ≠ .and) o.1 o.2 :=
    (forall_mem_map (f := fun c : Conjunction => (c.text, c.expr)) (l := d.first :: d.others)).mpr
      fun c hc => Conjunction.reads fun l hl => h l (mem_literals.mpr ⟨c, hc, hl⟩)
  have hor := parseOr_reads hops
  rwa [operands, foldl_map] at hor

theorem length_conjunction {d : Disjunction} {c : Conjunction} (h : c ∈ d.first :: d.others) :
    c.text.length ≤ d.text.length := by
  rw [text, length_append]
  rcases mem_cons.mp h with rfl | h
  · exact Nat.le_add_right _ _
  · exact (length_operand (mem_map_of_mem (f := fun c : Conjunction => (c.text, c.expr)) h)).trans
      (Nat.le_add_left _ _)

theorem nulFree {d : Disjunction} (h : ∀ l ∈ d.literals, l.comparison.Denotable env) :
    NulFree d.text := by
  have hconj (c) (hc : c ∈ d.first :: d.others) : NulFree c.text :=
    Conjunction.nulFree fun l hl => h l (mem_literals.mpr ⟨c, hc, hl⟩)
  refine nulFree_append.mpr ⟨hconj _ mem_cons_self, ?_⟩
  exact nulFree_further (by decide) (forall_mem_map.mpr fun c hc => hconj c (mem_cons_of_mem _ hc))

end Disjunction

/-- Without parentheses, `&&` binds tighter than `||`, both are grouped from the left, and `!` is for
the comparison or the `!` behind it. -/
theorem exprParse_plain {d : Disjunction}
    (h : ∀ l ∈ d.literals, l.comparison.Denotable env ∧ l.comparison.Fits) :
    exprParse env d.text = .ok d.expr := by
  refine exprParse_of_reads (Disjunction.nulFree fun l hl => (h l hl).1)
    (Disjunction.reads fun l hl => ⟨(h l hl).1, (h l hl).2, ?_⟩)
  obtain ⟨c, hc, hlc⟩ := Disjunction.mem_literals.mp hl
  have hlen := l.nots_le.trans
    ((Conjunction.length_literal hlc).trans (Disjunction.length_conjunction hc))
  exact Nat.lt_succ_of_le hlen

end Plain

/-! ## The shape of what is parsed -/

namespace Expr

/-- A comparison behind exclamation marks. -/
def isLiteral : Expr → Bool
  | not e => e.isLiteral
  | and _ _ | or _ _ => false
  | _ => true

/-- Literals with `&&`, grouped from the left. -/
def isConjunction : Expr → Bool
  | and a b => a.isConjunction && b.isLiteral
  | e => e.isLiteral

/-- Conjunctions with `||`, grouped from the left. -/
def isDisjunction : Expr → Bool
  | or a b => a.isDisjunction && b.isConjunction
  | e => e.isConjunction

theorem isConjunction_of_literal (h : e.isLiteral = true) : e.isConjunction = true := by
  cases e <;> first | exact h | cases h

theorem isDisjunction_of_conjunction (h : e.isConjunction = true) : e.isDisjunction = true := by
  cases e <;> first | exact h | cases h

end Expr

theorem delimited_suffix (d : UInt8) (s : Bytes) : Ensures (fun t => t.2 <:+ s) (delimited d s) := by
  fun_induction delimited d s with
  | case1 => trivial
  | case2 src => exact suffix_cons _ _
  | case3 => trivial
  | case4 => trivial
  | case5 hc d src hd ih =>
    exact .map (ih.mono fun t ht => ht.trans ((suffix_cons _ _).trans (suffix_cons _ _)))
  | case6 c src hc hc' ih => exact .map (ih.mono fun t ht => ht.trans (suffix_cons _ _))

theorem oneOrTwo_suffix {c d : UInt8} {two one : Token} (htwo : two ≠ .leftParen)
    (hone : one ≠ .leftParen) (src : Bytes) :
    Ensures (fun t => t.2 <:+ src ∧ (t.1 = .leftParen → d = 40))
      (Except.ok (oneOrTwo c two one src) : Except Bytes (Token × Bytes)) := by
  rw [oneOrTwo]
  split
  · exact ⟨drop_suffix 1 src, fun h => absurd h htwo⟩
  · exact ⟨suffix_rfl, fun h => absurd h hone⟩

/-- One goal for every token. -/
theorem lexToken_suffix (c : UInt8) (src : Bytes) :
    Ensures (fun t => t.2 <:+ src ∧ (t.1 = .leftParen → c = 40)) (lexToken (c :: src)) := by
  have hdelimited (d : UInt8) (token : Bytes → Token) (h : ∀ s, token s ≠ .leftParen) :
      Ensures (fun t : Token × Bytes => t.2 <:+ src ∧ (t.1 = .leftParen → c = 40))
        ((delimited d src).map fun r => (token r.1, r.2)) :=
    .map ((delimited_suffix d src).mono fun t ht => ⟨ht, fun heq => absurd heq (h t.1)⟩)
  -- every other token but the parenthesis
  have hplain {token : Token} {rest : Bytes} (hrest : rest <:+ src) (h : token ≠ .leftParen) :
      Ensures (fun t : Token × Bytes => t.2 <:+ src ∧ (t.1 = .leftParen → c = 40))
        (.ok (token, rest) : Except Bytes _) :=
    ⟨hrest, fun heq => absurd heq h⟩
  rw [lexToken]
  refine .ite (fun _ => ?_) fun _ => ?_
  · split
    · exact hplain (drop_suffix 2 src) (by decide)
    · exact hplain suffix_rfl (by decide)
  refine .ite (fun _ => hdelimited 34 .string fun _ h => by cases h) fun _ => ?_
  refine .ite (fun _ => hdelimited 47 .regexp fun _ h => by cases h) fun _ => ?_
  refine .ite (fun _ => oneOrTwo_suffix (by decide) (by decide) src) fun _ => ?_
  refine .ite (fun h => ⟨suffix_rfl, fun _ => h⟩) fun _ => ?_
  refine .ite (fun _ => hplain suffix_rfl (by decide)) fun _ => ?_
  refine .ite (fun _ => oneOrTwo_suffix (by decide) (by decide) src) fun _ => ?_
  refine .ite (fun _ => oneOrTwo_suffix (by decide) (by decide) src) fun _ => ?_
  refine .ite (fun _ => oneOrTwo_suffix (by decide) (by decide) src) fun _ => ?_
  refine .ite (fun _ => hplain suffix_rfl (by decide)) fun _ => ?_
  refine .ite (fun _ => oneOrTwo_suffix (by decide) (by decide) src) fun _ => ?_
  refine .ite (fun _ => hplain (drop_suffix 1 src) (by decide)) fun _ => ?_
  refine .ite (fun _ => hplain (drop_suffix 2 src) (by decide)) fun _ => ?_
  refine .ite (fun _ => hplain (drop_suffix 1 src) (by decide)) fun _ => ?_
  refine .ite (fun _ => hplain (drop_suffix 2 src) (by decide)) fun _ => ?_
  exact .ite (fun _ => hplain (dropWhile_suffix _) fun h => by cases h) fun _ => hplain suffix_rfl (by decide)

section Shape

variable {env : ParseEnv} {p : Parsing} {P Q : Expr → Bool}

/-- A parser that is at no parenthesis, and no parenthesis follows. -/
structure NoParen (p : Parsing) : Prop where
  start : 40 ∉ p.start
  src : 40 ∉ p.src
  token : p.token ≠ .leftParen

theorem lex_noParen (hs : 40 ∉ s) : Ensures NoParen (lex s) := by
  cases h : lex s with
  | error _ => trivial
  | ok p =>
    obtain ⟨htoken, hstart, -, -⟩ := lex_eq_ok_iff.mp h
    have hp : 40 ∉ p.start := fun hmem => hs ((hstart ▸ dropWhile_suffix _).subset hmem)
    rw [← hstart] at htoken
    cases hc : p.start with
    | nil =>
      rw [hc] at htoken
      obtain ⟨heof, hsrc⟩ := Prod.mk.inj (Except.ok.inj htoken)
      exact ⟨hp, hsrc ▸ not_mem_nil, fun h => by cases heof.trans h⟩
    | cons c t =>
      rw [hc] at htoken
      obtain ⟨hsrc, hparen⟩ := (lexToken_suffix c t).of_eq htoken
      rw [hc] at hp
      exact ⟨hc ▸ hp, fun hmem => hp (mem_cons_of_mem c (hsrc.subset hmem)),
        fun h => hp (hparen h ▸ mem_cons_self)⟩

theorem expectString_ensures (p : Parsing) : Ensures (fun _ => True) p.expectString := by
  cases p.expectString <;> trivial

/-- The expression that was made satisfies `P`, and still no parenthesis follows. -/
def MadeOf (P : Expr → Bool) (r : Expr × Parsing) : Prop := P r.1 = true ∧ NoParen r.2

/-- The parser `f` makes that of any text without a parenthesis. -/
def Makes (P : Expr → Bool) (f : Parsing → Except Bytes (Expr × Parsing)) : Prop :=
  ∀ p, NoParen p → Ensures (MadeOf P) (f p)

/-- The token behind an expression. -/
theorem last_makes (he : P e = true) (hs : 40 ∉ s) : Ensures (MadeOf P) (do return (e, ← lex s)) :=
  (lex_noParen hs).bind fun _ hq => ⟨he, hq⟩

theorem parseValue_noParen {v : Bytes} (hp : NoParen p) (field : FieldRef) :
    Ensures (fun r => 40 ∉ r.2) (parseValue env v p field) := by
  have htime (ex : Bool) : Ensures (fun r => 40 ∉ r.2) (parseTimestampValue env ex p) := by
    rw [parseTimestampValue]
    split
    · trivial
    · exact fun hmem => hp.start ((dropWhile_suffix _).subset hmem)
  cases field with
  | «virtual» id =>
    cases id with
    | timestamp => exact htime false
    | timestampEx => exact htime true
    | recordType => exact .ite (fun _ => trivial) fun _ => hp.src
  | name name =>
    refine .ite (fun _ => ?_) fun _ => trivial
    rw [parseUnsignedValue]
    split
    · trivial
    · exact hp.src

theorem parseOperator_makes (field : FieldRef) : Makes isLiteral (parseOperator env field) := by
  intro p hp
  refine (lex_noParen hp.src).bind fun p₁ h₁ => ?_
  split
  · refine (lex_noParen h₁.src).bind fun p₂ h₂ => (expectString_ensures p₂).bind fun v _ => ?_
    exact last_makes rfl h₂.src
  · refine (lex_noParen h₁.src).bind fun p₂ h₂ => (expectString_ensures p₂).bind fun v _ => ?_
    exact last_makes rfl h₂.src
  · refine (lex_noParen h₁.src).bind fun p₂ h₂ => (expectString_ensures p₂).bind fun v _ => ?_
    exact (parseValue_noParen h₂ field).bind fun c hc => last_makes rfl hc
  · trivial

theorem parseComparisonRegexp_makes : Makes isLiteral (parseComparisonRegexp env) := by
  intro p hp
  refine (lex_noParen hp.src).bind fun p₁ h₁ => ?_
  obtain ⟨token, start, len, src⟩ := p₁
  cases token with
  | string re | regexp re =>
    dsimp only
    split
    · trivial
    · exact last_makes rfl h₁.src
  | _ => trivial

theorem parseComparison_makes : Makes isLiteral (parseComparison env) := by
  intro p hp
  rw [parseComparison]
  split
  · exact parseOperator_makes _ p hp
  · refine (lex_noParen hp.src).bind fun p₁ h₁ => ?_
    split
    · refine .ite (fun _ => parseComparisonRegexp_makes p₁ h₁) fun _ => ?_
      split
      · trivial
      · exact parseOperator_makes _ p₁ h₁
    · trivial

section Chain

variable {sub : Parsing → Except Bytes (Expr × Parsing)} {op : Expr → Expr → Expr} {token : Token}

/-- The operator keeps `P` if it gets another operand on its right. -/
theorem chain_makes (hsub : Makes Q sub) (hop : ∀ a b, P a = true → Q b = true → P (op a b) = true)
    (n : Nat) {res : Expr} (hres : P res = true) :
    Makes P (chain sub token op n res) := by
  induction n generalizing res with
  | zero => exact fun p hp => ⟨hres, hp⟩
  | succ n ih =>
    refine fun p hp => .ite (fun _ => ?_) fun _ => ⟨hres, hp⟩
    refine (lex_noParen hp.src).bind fun p₁ h₁ => (hsub p₁ h₁).bind fun r hr => ?_
    exact ih (hop res r.1 hres hr.1) r.2 hr.2

theorem chainl_makes (hsub : Makes Q sub) (hQ : ∀ a, Q a = true → P a = true)
    (hop : ∀ a b, P a = true → Q b = true → P (op a b) = true) :
    Makes P (fun p => do
      let (res, p) ← sub p
      chain sub token op (p.src.length + 1) res p) :=
  fun p hp => (hsub p hp).bind fun r hr => chain_makes hsub hop _ (hQ _ hr.1) r.2 hr.2

theorem parseAnd_makes (hsub : Makes isLiteral sub) : Makes isConjunction (parseAnd sub) :=
  chainl_makes hsub (fun _ => isConjunction_of_literal) fun _ _ ha hb =>
    Bool.and_eq_true_iff.mpr ⟨ha, hb⟩

theorem parseOr_makes (hsub : Makes isLiteral sub) : Makes isDisjunction (parseOr sub) :=
  chainl_makes (parseAnd_makes hsub) (fun _ => isDisjunction_of_conjunction) fun _ _ ha hb =>
    Bool.and_eq_true_iff.mpr ⟨ha, hb⟩

end Chain

theorem parsePrimary_makes (n : Nat) : Makes isLiteral (parsePrimary env n) := by
  induction n with
  | zero => exact fun _ _ => trivial
  | succ n ih =>
    intro p hp
    rw [parsePrimary]
    split
    · exact (lex_noParen hp.src).bind fun p₁ h₁ => (ih p₁ h₁).bind fun r hr => hr
    · exact absurd ‹_› hp.token
    · exact parseComparison_makes p hp
    · exact parseComparison_makes p hp
    · trivial

/-- Whatever a text without parentheses is, no operand of `!` has an operator, none of `&&` has `||`,
and an operator on the right of another one is not of the same kind. -/
theorem exprParse_shape (hs : 40 ∉ s) :
    Ensures (fun e => e.isDisjunction = true) (exprParse env s) := by
  have hsrc : 40 ∉ untilNul s := fun hmem => hs ((List.takeWhile_prefix _).subset hmem)
  refine (lex_noParen hsrc).bind fun p hp => .ite (fun _ => trivial) fun _ => ?_
  refine (parseOr_makes (parsePrimary_makes _) p hp).bind fun r hr => ?_
  exact .ite (fun _ => trivial) fun _ => hr.1

end Shape

/-! ## Writing and parsing -/

/-- **Parsing undoes writing**, unless a string is too long to be a token.  Without parentheses, `&&`
binds tighter than `||`, both are grouped from the left, and `!` is for what follows it. -/
theorem exprParse_text (env : ParseEnv) :
    (∀ e : Expr, e.Denotable env → e.Fits → exprParse env e.text = .ok e) ∧
    (∀ d : Disjunction, (∀ l ∈ d.literals, l.comparison.Denotable env ∧ l.comparison.Fits) →
      exprParse env d.text = .ok d.expr) ∧
    ∀ s e, 40 ∉ s → exprParse env s = .ok e → e.isDisjunction = true := by
  refine ⟨fun e he hfits => ?_, fun d hd => exprParse_plain hd, fun s e hs h => ?_⟩
  · exact exprParse_of_reads (nulFree_text he)
      (textRead he hfits _ (Nat.lt_succ_of_le e.depth_le_length))
  · exact (exprParse_shape hs).of_eq h

/-- All regular expressions are right. -/
def lenient : ParseEnv := ⟨fun _ => none, fun _ => 0⟩

/-- The `n`-th of some comparisons. -/
def numbered (n : UInt8) : Expr := .raw false (.name (ascii "exe")) [48 + n]

theorem exprParse_text_nested : exprParse lenient
        (or (.not (.and (numbered 1) (.regexp (ascii "a/b")))) (.not (.not (numbered 2)))).text =
      .ok (.or (.not (.and (numbered 1) (.regexp (ascii "a/b")))) (.not (.not (numbered 2)))) ∧
    exprParse lenient
        (ascii "\"exe\" r= \"1\" || !\"exe\" r= \"2\" && \"exe\" r= \"3\" && \"exe\" r= \"4\"") =
      .ok (.or (numbered 1) (.and (.and (.not (numbered 2)) (numbered 3)) (numbered 4))) := by
  refine ⟨(exprParse_text lenient).1 _ (by decide) (by decide), ?_⟩
  exact (exprParse_text lenient).2.1
    ⟨⟨⟨0, numbered 1, rfl⟩, []⟩, [⟨⟨1, numbered 2, rfl⟩, [⟨0, numbered 3, rfl⟩, ⟨0, numbered 4, rfl⟩]⟩]⟩
    (by decide)

theorem length_le_quote (s : Bytes) : s.length ≤ (quote s).length := by
  suffices h : s.length ≤ (s.flatMap fun c => if c = 92 ∨ c = 34 then [92, c] else [c]).length by
    simp only [quote, delimit, length_cons, length_append]
    omega
  induction s with
  | nil => exact le_rfl
  | cons c s ih =>
    rw [flatMap_cons, length_append, length_cons]
    split <;> simp only [length_cons, length_nil] <;> omega

theorem exprParse_raw_long {env : ParseEnv} {name v : Bytes} (hname : NulFree name) (hv : NulFree v)
    (hfits : (quote name).length ≤ intMax) (hlong : intMax < (quote v).length) :
    exprParse env (raw false (.name name) v).text = .error (ascii "Token too long") := by
  have htext : (raw false (.name name) v).text = quote name ++ 32 :: (ascii "r=" ++ 32 :: quote v) := rfl
  have hnul : NulFree (raw false (.name name) v).text := @nulFree_text lenient _ ⟨hname, hv⟩
  have hstring : lex (32 :: quote v) = .error (ascii "Token too long") := by
    have := lex_quote_long hlong []
    rwa [append_nil, ← lex_blank] at this
  have hoperator (p : Parsing) (hp : p.src = 32 :: (ascii "r=" ++ 32 :: quote v)) :
      parseOperator env (.name name) p = .error (ascii "Token too long") := by
    have hraw : lex (32 :: (ascii "r=" ++ 32 :: quote v)) = _ := lex_raw false (quote v)
    rw [parseOperator, hp, bind_of_ok hraw]
    exact bind_of_error hstring
  rw [exprParse, untilNul_of_notMem hnul]
  rw [bind_of_ok (htext ▸ lex_quote hfits _)]
  refine (if_neg fun h => by cases h).trans (bind_of_error ?_)
  rw [parseOr]
  refine bind_of_error ?_
  rw [parseAnd]
  exact bind_of_error (hoperator _ rfl)

/-- A string of 2 ^ 31 bytes has no text. -/
theorem long_string_not_parsed :
    (raw false (.name (ascii "exe")) (List.replicate (2 ^ 31) 97)).Denotable lenient ∧
      exprParse lenient
          (raw false (.name (ascii "exe")) (List.replicate (2 ^ 31) 97)).text =
        .error (ascii "Token too long") := by
  have hnul : NulFree (List.replicate (2 ^ 31) 97) := fun h => absurd (eq_of_mem_replicate h) (by decide)
  have hlong := length_le_quote (List.replicate (2 ^ 31) 97)
  rw [length_replicate] at hlong
  exact ⟨⟨by decide, hnul⟩, exprParse_raw_long (by decide) hnul (by decide)
    (Nat.lt_of_lt_of_le (by decide) hlong)⟩

end LibAudit.Auparse
