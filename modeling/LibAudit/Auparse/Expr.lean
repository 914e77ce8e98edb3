import LibAudit.Auparse.Feed

/-!
# Search expressions: `expr_eval`

An expression is evaluated on one record at a time.  To get at a field, `expr_eval` puts the cursor of
the record's list of fields on the first one and moves it on to the first with the right name; an
interpretation is kept in the list once it has been made.  So a record changes while an expression is
evaluated, and `exprEval` returns it.

`nvlist_find_name` compares the name it looks for with that of every field on the way, and a field of
an AVC message may have none (`Field`).  Then `strcmp` is called with a null pointer, and `exprEval`
has no result.

What an expression means is said without cursors: `Shown` is what there is to see in a record, and
`Expr.holds` is the meaning `ausearch-expression(5)` gives to an expression there.  The value of a user
or group is a number, which the manual does not mention.
-/

namespace LibAudit.Auparse

open Records Option Function

/-! ## Expressions -/

/-- `EF_TIMESTAMP` and so on. -/
inductive FieldId where
  | timestamp | recordType | timestampEx
  deriving DecidableEq

/-- A field of the record, or a virtual one. -/
inductive FieldRef where
  | name (s : Bytes)
  | virtual (id : FieldId)
  deriving DecidableEq

/-- `EO_VALUE_EQ` and so on. -/
inductive ValueOp where
  | eq | ne | lt | le | gt | ge
  deriving DecidableEq

/-- What the value of a field is compared with, and with it which field. -/
inductive Constant where
  /-- A user or group. -/
  | unsigned (name : Bytes) (val : UInt32)
  | timestamp (sec : Int64) (milli : UInt32)
  | timestampEx (sec : Int64) (milli serial : UInt32)
  | recordType (type : Int)
  deriving DecidableEq

/-- `struct expr`.  A regular expression is represented by its text. -/
inductive Expr where
  | not (e : Expr)
  | and (e₁ e₂ : Expr)
  | or (e₁ e₂ : Expr)
  /-- `EO_RAW_EQ`, or `EO_RAW_NE` if `ne`. -/
  | raw (ne : Bool) (field : FieldRef) (value : Bytes)
  /-- `EO_INTERPRETED_EQ`, or `EO_INTERPRETED_NE` if `ne`. -/
  | interpreted (ne : Bool) (field : FieldRef) (value : Bytes)
  | value (op : ValueOp) (c : Constant)
  | fieldExists (name : Bytes)
  | regexp (re : Bytes)
  deriving DecidableEq

/-- The operator for the sign of a comparison. -/
def ValueOp.holds : ValueOp → Ordering → Bool
  | .eq, cmp => cmp.isEq
  | .ne, cmp => cmp.isNe
  | .lt, cmp => cmp.isLT
  | .le, cmp => cmp.isLE
  | .gt, cmp => cmp.isGT
  | .ge, cmp => cmp.isGE

/-! ## Records -/

/-- `nvnode`.  The values of a record's fields are never null. -/
structure Nvnode where
  name : Option Bytes
  val : Bytes
  interpVal : Option Bytes
  deriving DecidableEq

/-- `rnode`, with its fields and the cursor in them. -/
structure ParsedRecord where
  line : Bytes
  type : Int
  nv : List Nvnode
  cur : Option Nat
  deriving DecidableEq

/-- What is not modelled: `interpret`, which depends on the line and on the field, and `regexec`. -/
structure Oracle where
  interpret : Bytes → Bytes → Bytes → Option Bytes
  regexec : Bytes → Bytes → Bool

namespace Nvnode

variable (O : Oracle) (line : Bytes)

/-- `nvlist_interp_cur_val`. -/
def interpret (n : Nvnode) : Option Bytes :=
  match n.interpVal with
  | some v => some v
  | none => n.name.bind fun name => O.interpret line name n.val

/-- The interpretation, or else the value as it is. -/
def text (n : Nvnode) : Bytes := (n.interpret O line).getD n.val

end Nvnode

/-- `nvlist_find_name` from the `i`th field on; `none` if a field without a name is met. -/
def findName (name : Bytes) : List Nvnode → Nat → Option (Option Nat)
  | [], _ => some none
  | n :: nv, i =>
    match n.name with
    | none => none
    | some s => if s = name then some (some i) else findName name nv (i + 1)

namespace ParsedRecord

/-- The record `aup_list_append` makes.  If `parse_up_record` fails the cursor stays behind. -/
def ofRnode (r : Rnode) : ParsedRecord :=
  let p := parseUpRecord r.record
  { line := r.record
    type := p.type
    nv := p.nv.map fun f => ⟨f.name, f.val, none⟩
    cur := if p.nv = [] then none else if p.failed then some (p.nv.length - 1) else some 0 }

/-- `nvlist_first`. -/
def nvlistFirst (r : ParsedRecord) : ParsedRecord :=
  { r with cur := if r.nv = [] then none else some 0 }

/-- `nvlist_find_name`. -/
def nvlistFindName (name : Bytes) (r : ParsedRecord) : Option (Bool × ParsedRecord) :=
  match r.cur with
  | none => some (false, r)
  | some c =>
    (findName name (r.nv.drop c) c).map fun
      | some i => (true, { r with cur := some i })
      | none => (false, r)

/-- `nvlist_get_cur`. -/
def getCur (r : ParsedRecord) : Option Nvnode := r.cur.bind (r.nv[·]?)

/-- `eval_raw_value`. -/
def evalRawValue (r : ParsedRecord) : FieldRef → Option (Option Bytes × ParsedRecord)
  | .virtual _ => some (none, r)
  | .name s =>
    (r.nvlistFirst.nvlistFindName s).map fun (found, r) =>
      (if found then r.getCur.map Nvnode.val else none, r)

/-- `eval_unsigned_value`. -/
def evalUnsignedValue (r : ParsedRecord) (name : Bytes) : Option (Option UInt32 × ParsedRecord) :=
  (r.nvlistFirst.nvlistFindName name).map fun (found, r) =>
    (if found then r.getCur.map fun n => ((strtoul n.val).getD (-1)).toUInt32 else none, r)

/-- The interpretation of the current field is kept. -/
def keepInterp (O : Oracle) (r : ParsedRecord) : ParsedRecord :=
  match r.cur with
  | none => r
  | some i => { r with nv := r.nv.modify i fun n => { n with interpVal := n.interpret O r.line } }

/-- `eval_interpreted_value`. -/
def evalInterpretedValue (O : Oracle) (r : ParsedRecord) :
    FieldRef → Option (Option Bytes × ParsedRecord)
  | .virtual _ => some (none, r)
  | .name s =>
    (r.nvlistFirst.nvlistFindName s).map fun (found, r) =>
      if found then (r.getCur.map (Nvnode.text O r.line), r.keepInterp O) else (none, r)

end ParsedRecord

/-! ## Evaluation -/

/-- `compare_values` for the two time stamps. -/
def compareTime (e : EventId) (sec : Int64) (milli : UInt32) : Ordering :=
  (compare e.sec sec).then (compare e.milli milli)

/-- `expr_eval` on a record of the event `e`. -/
def exprEval (O : Oracle) (e : EventId) : Expr → ParsedRecord → Option (Bool × ParsedRecord)
  | .not x, r => (exprEval O e x r).map fun (b, r) => (!b, r)
  | .and x y, r => (exprEval O e x r).bind fun (b, r) => if b then exprEval O e y r else some (false, r)
  | .or x y, r => (exprEval O e x r).bind fun (b, r) => if b then some (true, r) else exprEval O e y r
  | .raw ne field value, r =>
    (r.evalRawValue field).map fun (v, r) => (v.elim false fun v => (value == v) != ne, r)
  | .interpreted ne field value, r =>
    (r.evalInterpretedValue O field).map fun (v, r) => (v.elim false fun v => (value == v) != ne, r)
  | .value op (.unsigned name val), r =>
    (r.evalUnsignedValue name).map fun (v, r) => (v.elim false fun v => op.holds (compare v val), r)
  | .value op (.timestamp sec milli), r => some (op.holds (compareTime e sec milli), r)
  | .value op (.timestampEx sec milli serial), r =>
    some (op.holds ((compareTime e sec milli).then (compare e.serial serial.toUInt64)), r)
  | .value op (.recordType type), r => some (op.holds (compare r.type type), r)
  | .fieldExists name, r => r.nvlistFirst.nvlistFindName name
  | .regexp re, r => some (O.regexec re (rawPart r.line), r)

/-! ## The meaning of an expression -/

/-- A field as it can be seen. -/
structure ShownField where
  name : Option Bytes
  raw : Bytes
  interpreted : Bytes
  deriving DecidableEq

/-- What there is to see in a record: its text, its type, and its fields. -/
structure Shown where
  text : Bytes
  type : Int
  fields : List ShownField
  deriving DecidableEq

/-- A field without what is kept of its interpretation. -/
def Nvnode.shown (O : Oracle) (line : Bytes) (n : Nvnode) : ShownField :=
  ⟨n.name, n.val, n.text O line⟩

/-- A record without the cursor. -/
def ParsedRecord.shown (O : Oracle) (r : ParsedRecord) : Shown :=
  ⟨rawPart r.line, r.type, r.nv.map (Nvnode.shown O r.line)⟩

namespace Shown

/-- The first field with this name. -/
def field (s : Shown) (name : Bytes) : Option ShownField := s.fields.find? (·.name == some name)

/-- Where it is. -/
def index (s : Shown) (name : Bytes) : Option Nat := s.fields.findIdx? (·.name == some name)

/-- The raw string of a field, if it is present and has one. -/
def raw (s : Shown) : FieldRef → Option Bytes
  | .name name => (s.field name).map ShownField.raw
  | .virtual _ => none

/-- The interpreted string of a field, if it is present and has one. -/
def interpreted (s : Shown) : FieldRef → Option Bytes
  | .name name => (s.field name).map ShownField.interpreted
  | .virtual _ => none

/-- The value of a field against a constant, if the field is present. -/
def compare (s : Shown) (e : EventId) : Constant → Option Ordering
  | .unsigned name val =>
    (s.field name).map fun f => Ord.compare ((strtoul f.raw).getD (-1)).toUInt32 val
  | .timestamp sec milli => some (compareTime e sec milli)
  | .timestampEx sec milli serial =>
    some ((compareTime e sec milli).then (Ord.compare e.serial serial.toUInt64))
  | .recordType type => some (Ord.compare s.type type)

end Shown

namespace Expr

variable (O : Oracle) (e : EventId) (s : Shown)

/-- The expression is true of a record.  A comparison with a field that is not there is false,
whatever the operator. -/
def holds : Expr → Bool
  | not x => !holds x
  | and x y => holds x && holds y
  | or x y => holds x || holds y
  | raw ne field v => (s.raw field).elim false fun text => (v == text) != ne
  | interpreted ne field v => (s.interpreted field).elim false fun text => (v == text) != ne
  | value op c => (s.compare e c).elim false op.holds
  | fieldExists name => (s.field name).isSome
  | regexp re => O.regexec re s.text

end Expr

/-! ## Looking for a field -/

namespace Shown

/-- Every field before the first one with this name has a name. -/
def Clear (s : Shown) (name : Bytes) : Prop :=
  ∀ f ∈ s.fields.takeWhile (·.name != some name), f.name ≠ none

instance (s : Shown) (name : Bytes) : Decidable (s.Clear name) := by
  unfold Clear
  infer_instance

/-- Where the cursor is after a field was looked for. -/
def cursor (s : Shown) (name : Bytes) : Option Nat :=
  (s.index name).or (if s.fields = [] then none else some 0)

end Shown

section Find

variable (O : Oracle) (line name : Bytes)

theorem findName_eq (nv : List Nvnode) (i : Nat) : findName name nv i =
      if ∀ f ∈ (nv.map (Nvnode.shown O line)).takeWhile (·.name != some name), f.name ≠ none then
        some (((nv.map (Nvnode.shown O line)).findIdx? (·.name == some name)).map (· + i))
      else none := by
  induction nv generalizing i with
  | nil => simp [findName]
  | cons n nv ih =>
    have hshown : (n.shown O line).name = n.name := rfl
    rw [findName, List.map_cons, List.takeWhile_cons, List.findIdx?_cons, hshown]
    cases hname : n.name with
    | none => simp [hshown, hname]
    | some s =>
      by_cases hs : s = name
      · simp [hs]
      · have hne : (some s == some name) = false := by simpa using hs
        have hall : ∀ fs : List ShownField, (∀ f ∈ n.shown O line :: fs, f.name ≠ none) ↔
            ∀ f ∈ fs, f.name ≠ none := by simp_all
        simp only [bne, hne, if_neg hs, ih, Bool.not_false, if_true, hall]
        simp [map_map, comp_def, Nat.add_comm, Nat.add_left_comm]

end Find

namespace ParsedRecord

variable (O : Oracle) (r : ParsedRecord) (name : Bytes)

/-- Looking for a field from the first one on. -/
theorem nvlistFindName_nvlistFirst : r.nvlistFirst.nvlistFindName name =
      if (r.shown O).Clear name then
        some (((r.shown O).index name).isSome, { r with cur := (r.shown O).cursor name })
      else none := by
  by_cases hnil : r.nv = []
  · have hshown : (r.shown O).fields = [] := by rw [shown, hnil, List.map_nil]
    simp [Shown.Clear, hshown, nvlistFirst, nvlistFindName, hnil, Shown.index, Shown.cursor]
  · have hshown : (r.shown O).fields ≠ [] := by simpa [shown] using hnil
    have hfirst : r.nvlistFirst = { r with cur := some 0 } := by rw [nvlistFirst, if_neg hnil]
    have hclear : (∀ f ∈ (r.nv.map (Nvnode.shown O r.line)).takeWhile (·.name != some name),
        f.name ≠ none) ↔ (r.shown O).Clear name := Iff.rfl
    have hindex : (r.nv.map (Nvnode.shown O r.line)).findIdx? (·.name == some name) =
        (r.shown O).index name := rfl
    rw [hfirst]
    show (findName name (r.nv.drop 0) 0).map _ = _
    rw [List.drop_zero, findName_eq O r.line, hindex]
    simp only [hclear]
    split
    · rw [Shown.cursor, if_neg hshown]
      cases (r.shown O).index name <;> rfl
    · rfl

theorem getCur_cursor : (if ((r.shown O).index name).isSome then
        { r with cur := (r.shown O).cursor name }.getCur.map (Nvnode.shown O r.line)
      else none) = (r.shown O).field name := by
  rw [Shown.field, List.find?_eq_bind_findIdx?_getElem?]
  show _ = ((r.shown O).index name).bind _
  cases hi : (r.shown O).index name with
  | none => rfl
  | some i =>
    rw [Shown.cursor, hi]
    show (r.nv[i]?).map _ = (r.nv.map (Nvnode.shown O r.line))[i]?
    rw [List.getElem?_map]

theorem evalRawValue_name : r.evalRawValue (.name name) =
      if (r.shown O).Clear name then
        some ((r.shown O).raw (.name name), { r with cur := (r.shown O).cursor name })
      else none := by
  rw [evalRawValue, nvlistFindName_nvlistFirst O, Shown.raw, ← getCur_cursor O r name]
  split
  · split <;> simp [*, map_map, comp_def, Nvnode.shown]
  · rfl

theorem evalUnsignedValue_eq : r.evalUnsignedValue name =
      if (r.shown O).Clear name then
        some (((r.shown O).field name).map fun f => ((strtoul f.raw).getD (-1)).toUInt32,
          { r with cur := (r.shown O).cursor name })
      else none := by
  rw [evalUnsignedValue, nvlistFindName_nvlistFirst O, ← getCur_cursor O r name]
  split
  · split <;> simp [*, map_map, comp_def, Nvnode.shown]
  · rfl

theorem shown_keepInterp : (r.keepInterp O).shown O = r.shown O ∧ (r.keepInterp O).cur = r.cur := by
  unfold keepInterp
  split
  · exact ⟨rfl, rfl⟩
  · refine ⟨?_, rfl⟩
    have hnode : ∀ n : Nvnode, Nvnode.shown O r.line { n with interpVal := n.interpret O r.line } =
        n.shown O r.line := by
      intro n
      have htext : Nvnode.interpret O r.line { n with interpVal := n.interpret O r.line } =
          n.interpret O r.line := by
        cases hn : n.interpret O r.line with
        | some v => rfl
        | none =>
          unfold Nvnode.interpret at hn
          split at hn
          · cases hn
          · exact hn
      rw [Nvnode.shown, Nvnode.text, htext]
      rfl
    have hmap : ∀ i, (r.nv.modify i fun n => { n with interpVal := n.interpret O r.line }).map
        (Nvnode.shown O r.line) = r.nv.map (Nvnode.shown O r.line) := by
      intro i
      refine List.ext_getElem? fun j => ?_
      grind
    rw [shown, shown]
    exact congrArg (Shown.mk _ _) (hmap _)

theorem evalInterpretedValue_name : ∃ r', r'.shown O = r.shown O ∧ r'.cur = (r.shown O).cursor name ∧
      r.evalInterpretedValue O (.name name) =
        if (r.shown O).Clear name then some ((r.shown O).interpreted (.name name), r') else none := by
  rw [evalInterpretedValue, nvlistFindName_nvlistFirst O, Shown.interpreted, ← getCur_cursor O r name]
  cases (r.shown O).index name with
  | none =>
    refine ⟨{ r with cur := (r.shown O).cursor name }, rfl, rfl, ?_⟩
    split <;> rfl
  | some i =>
    obtain ⟨hshown, hcur⟩ := shown_keepInterp O { r with cur := (r.shown O).cursor name }
    refine ⟨_, hshown, hcur, ?_⟩
    split
    · simp [map_map, comp_def, Nvnode.shown]
    · rfl

end ParsedRecord

/-! ## Evaluation and meaning -/

namespace Expr

variable (O : Oracle) (e : EventId) (s : Shown)

/-- Whenever a field is looked for, those before it have names. -/
def Clear : Expr → Prop
  | not x => Clear x
  | and x y => Clear x ∧ (holds O e s x = true → Clear y)
  | or x y => Clear x ∧ (holds O e s x = false → Clear y)
  | raw _ (.name name) _ => s.Clear name
  | interpreted _ (.name name) _ => s.Clear name
  | value _ (.unsigned name _) => s.Clear name
  | fieldExists name => s.Clear name
  | _ => True

/-- Where the cursor is afterwards: at the field that was looked for last, or at the first one if there
is no such field. -/
def cursor : Expr → Option Nat → Option Nat
  | not x, cur => cursor x cur
  | and x y, cur => if holds O e s x then cursor y (cursor x cur) else cursor x cur
  | or x y, cur => if holds O e s x then cursor x cur else cursor y (cursor x cur)
  | raw _ (.name name) _, _ => s.cursor name
  | interpreted _ (.name name) _, _ => s.cursor name
  | value _ (.unsigned name _), _ => s.cursor name
  | fieldExists name, _ => s.cursor name
  | _, cur => cur

end Expr

/-- The outcome of an evaluation that started with the cursor at `cur`. -/
structure Evaluated (O : Oracle) (e : EventId) (s : Shown) (cur : Option Nat) (x : Expr)
    (b : Bool) (r : ParsedRecord) : Prop where
  result : b = x.holds O e s
  shown : r.shown O = s
  cur : r.cur = x.cursor O e s cur

section Spec

variable {O : Oracle} {e : EventId}

/-- An evaluation has this outcome, or none if a field without a name is met. -/
def EvalSpec (O : Oracle) (e : EventId) (x : Expr) (r : ParsedRecord) : Prop :=
  (x.Clear O e (r.shown O) ∧
      ∃ b r', exprEval O e x r = some (b, r') ∧ Evaluated O e (r.shown O) r.cur x b r') ∨
    (¬ x.Clear O e (r.shown O) ∧ exprEval O e x r = none)

variable {x y z : Expr} {r : ParsedRecord}

theorem EvalSpec.not (hx : EvalSpec O e x r) : EvalSpec O e (.not x) r := by
  rcases hx with ⟨hclear, b, r', hb, heval⟩ | ⟨hnot, hnone⟩
  · refine .inl ⟨hclear, !b, r', ?_, ?_, heval.shown, heval.cur⟩
    · rw [exprEval, hb]
      rfl
    · rw [heval.result, Expr.holds]
  · refine .inr ⟨hnot, ?_⟩
    rw [exprEval, hnone]
    rfl

/-- Both operators evaluate the second operand unless the first one has the value `stop`. -/
theorem EvalSpec.second (stop : Bool) (hx : EvalSpec O e x r) (hy : ∀ r, EvalSpec O e y r)
    (heval : exprEval O e z r = (exprEval O e x r).bind fun br =>
      if br.1 = stop then some (stop, br.2) else exprEval O e y br.2)
    (hholds : z.holds O e (r.shown O) =
      if x.holds O e (r.shown O) = stop then stop else y.holds O e (r.shown O))
    (hclear : z.Clear O e (r.shown O) ↔ x.Clear O e (r.shown O) ∧
      (x.holds O e (r.shown O) ≠ stop → y.Clear O e (r.shown O)))
    (hcursor : z.cursor O e (r.shown O) r.cur = if x.holds O e (r.shown O) = stop then
      x.cursor O e (r.shown O) r.cur else y.cursor O e (r.shown O) (x.cursor O e (r.shown O) r.cur)) :
    EvalSpec O e z r := by
  rcases hx with ⟨hx, b, r₁, hb, hdone⟩ | ⟨hnot, hnone⟩
  · rw [hb, bind_some, hdone.result] at heval
    by_cases h : x.holds O e (r.shown O) = stop
    · rw [if_pos h] at heval hholds hcursor
      exact .inl ⟨hclear.mpr ⟨hx, fun hne => absurd h hne⟩, stop, r₁, heval, hholds.symm, hdone.shown,
        hdone.cur.trans hcursor.symm⟩
    · rw [if_neg h] at heval hholds hcursor
      have hy := hy r₁
      rw [EvalSpec, hdone.shown, hdone.cur] at hy
      rcases hy with ⟨hy, b', r₂, hb', hdone'⟩ | ⟨hnot, hnone⟩
      · exact .inl ⟨hclear.mpr ⟨hx, fun _ => hy⟩, b', r₂, heval.trans hb',
          hdone'.result.trans hholds.symm, hdone'.shown, hdone'.cur.trans hcursor.symm⟩
      · exact .inr ⟨fun hz => hnot ((hclear.mp hz).2 h), heval.trans hnone⟩
  · exact .inr ⟨fun hz => hnot (hclear.mp hz).1, by rw [heval, hnone, bind_none]⟩

/-- A comparison that looks for a field. -/
theorem EvalSpec.field {name : Bytes} (r' : ParsedRecord)
    (hclear : x.Clear O e (r.shown O) ↔ (r.shown O).Clear name)
    (heval : exprEval O e x r =
      if (r.shown O).Clear name then some (x.holds O e (r.shown O), r') else none)
    (hshown : r'.shown O = r.shown O) (hcur : r'.cur = x.cursor O e (r.shown O) r.cur) :
    EvalSpec O e x r := by
  by_cases h : (r.shown O).Clear name
  · rw [if_pos h] at heval
    exact .inl ⟨hclear.mpr h, _, r', heval, rfl, hshown, hcur⟩
  · rw [if_neg h] at heval
    exact .inr ⟨h ∘ hclear.mp, heval⟩

/-- A comparison that does not. -/
theorem EvalSpec.plain (hclear : x.Clear O e (r.shown O))
    (heval : exprEval O e x r = some (x.holds O e (r.shown O), r))
    (hcur : x.cursor O e (r.shown O) r.cur = r.cur) : EvalSpec O e x r :=
  .inl ⟨hclear, _, r, heval, rfl, rfl, hcur.symm⟩

variable (O e)

theorem exprEval_spec (x : Expr) (r : ParsedRecord) : EvalSpec O e x r := by
  induction x generalizing r with
  | not x ih => exact (ih r).not
  | and x y ihx ihy =>
    refine (ihx r).second false ihy ?_ ?_ ?_ ?_
    · rw [exprEval]
      refine congrArg _ (funext fun br => ?_)
      obtain ⟨b, _⟩ := br
      cases b <;> rfl
    · rw [Expr.holds]
      cases x.holds O e (r.shown O) <;> rfl
    · rw [Expr.Clear, Bool.ne_false_iff]
    · rw [Expr.cursor]
      cases x.holds O e (r.shown O) <;> rfl
  | or x y ihx ihy =>
    refine (ihx r).second true ihy ?_ ?_ ?_ ?_
    · rw [exprEval]
    · rw [Expr.holds]
      cases x.holds O e (r.shown O) <;> rfl
    · rw [Expr.Clear, ne_eq, Bool.not_eq_true]
    · rw [Expr.cursor]
  | raw ne field v =>
    cases field with
    | «virtual» id => exact .plain trivial rfl rfl
    | name name =>
      refine .field { r with cur := (r.shown O).cursor name } .rfl ?_ rfl rfl
      rw [exprEval, r.evalRawValue_name O]
      split <;> rfl
  | interpreted ne field v =>
    cases field with
    | «virtual» id => exact .plain trivial rfl rfl
    | name name =>
      obtain ⟨r', hshown, hcur, heval⟩ := r.evalInterpretedValue_name O name
      refine .field r' .rfl ?_ hshown hcur
      rw [exprEval, heval]
      split <;> rfl
  | value op c =>
    cases c with
    | unsigned name val =>
      refine .field { r with cur := (r.shown O).cursor name } .rfl ?_ rfl rfl
      rw [exprEval, r.evalUnsignedValue_eq O, Expr.holds, Shown.compare]
      cases (r.shown O).field name <;> split <;> rfl
    | timestamp sec milli => exact .plain trivial rfl rfl
    | timestampEx sec milli serial => exact .plain trivial rfl rfl
    | recordType type => exact .plain trivial rfl rfl
  | fieldExists name =>
    refine .field { r with cur := (r.shown O).cursor name } .rfl ?_ rfl rfl
    have hfound : ((r.shown O).index name).isSome = ((r.shown O).field name).isSome := by
      rw [Shown.field, Shown.index, List.findIdx?_isSome, Bool.eq_iff_iff, List.find?_isSome,
        List.any_eq_true]
    rw [exprEval, r.nvlistFindName_nvlistFirst O, hfound, Expr.holds]
  | regexp re => exact .plain trivial rfl rfl

end Spec

/-- **`expr_eval` returns what the expression means**, wherever the cursor was, exactly if no field
without a name is met. -/
theorem exprEval_eq_holds_iff (O : Oracle) (e : EventId) (x : Expr) (r : ParsedRecord) :
    (∀ cur, (exprEval O e x { r with cur }).map Prod.fst = some (x.holds O e (r.shown O))) ↔
      x.Clear O e (r.shown O) := by
  refine ⟨fun h => ?_, fun h cur => ?_⟩
  · rcases exprEval_spec O e x r with ⟨hclear, -⟩ | ⟨-, hnone⟩
    · exact hclear
    · have := h r.cur
      rw [hnone] at this
      cases this
  · rcases exprEval_spec O e x { r with cur } with ⟨-, b, r', hb, heval⟩ | ⟨hnot, -⟩
    · rw [hb, map_some, heval.result]
      rfl
    · exact absurd h hnot

/-- An AVC message without braces has a field without a name, and the field behind it is not found. -/
theorem avc_without_braces : let O : Oracle := ⟨fun _ _ _ => none, fun _ _ => false⟩
    let r := ParsedRecord.ofRnode
      ⟨ascii "type=AVC msg=audit(7.000:1): avc: denied read for pid=1", 1⟩
    let x := Expr.raw false (.name (ascii "pid")) (ascii "1")
    x.holds O ⟨7, 0, 1, none⟩ (r.shown O) = true ∧ exprEval O ⟨7, 0, 1, none⟩ x r = none := by
  decide +kernel

end LibAudit.Auparse
