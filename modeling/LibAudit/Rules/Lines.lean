import LibAudit.Lib.Text

/-!
# The lines of a rules file

`auditctl -R` reads rules from a file.  A line is cut into tokens at its blanks; `\ ` stands for a blank
that is part of a token, and `\\` for a backslash.  `fileopt` does this in three steps.  `preprocess`
overwrites each escape with two bytes of one kind, `audit_strsplit` cuts the line at the blanks that are
left, and `postprocess` turns the pairs of bytes back into a blank or a backslash.

What the tokens of a line should be is said by `tokens`, which recognises the escapes first (`lex`).
`fileoptLine_eq_iff` compares the two.  They differ in four ways.

* There is room for one token more than a third of the bytes of the line, and the rest are dropped.
* The first token does not go through `postprocess`.
* `postprocess` takes every byte 7 or 4 for the first one of a pair.
* A line ends at a NUL.

From this follow for which lines `setopt` gets the tokens (`received_iff`), and which lists of tokens can
be written to a file and read back (`readsBack_iff`; `fileopt_writeRules` for a whole file, up to the
first rule that is refused).  Memory does not run out.
-/

namespace LibAudit.Rules

open List

/-! ## What the source does -/

/-- `LINE_SIZE`. -/
def lineSize : Nat := 6144

/-- `get_line`: the string in the buffer and what is left of the file.  `fgets` stops behind a newline or
when the buffer is full. -/
def getLine (file : Bytes) : Option (Bytes × Bytes) :=
  if file = [] then none
  else
    let line := file.takeWhile (· != 10) ++ (file.dropWhile (· != 10)).take 1
    let buf := line.take (lineSize - 1)
    some ((untilNul buf).takeWhile (· != 10), file.drop buf.length)

/-- `preprocess` in the context `esc_ctx`.  A backslash is written once it is known what follows. -/
def preprocess : Bool → Bytes → Bytes
  | false, [] => []
  | true, [] => [92]
  | false, c :: buf => if c = 92 then preprocess true buf else c :: preprocess false buf
  | true, c :: buf =>
    if c = 32 then 7 :: 7 :: preprocess false buf
    else if c = 92 then 4 :: 4 :: preprocess false buf
    else 92 :: c :: preprocess false buf

/-- `postprocess`, or nothing if it looks for the second byte of a pair behind the end of the string. -/
def postprocess : Bytes → Option Bytes
  | [] => some []
  | [c] => if c = 7 ∨ c = 4 then none else some [c]
  | c :: d :: buf =>
    if c = 7 then (postprocess buf).map (32 :: ·)
    else if c = 4 then (postprocess buf).map (92 :: ·)
    else (postprocess (d :: buf)).map (c :: ·)

/-- `audit_strsplit` at `str`: the token, and where it goes on. -/
def auditStrsplit (str : Bytes) : Option Bytes × Option Bytes :=
  let s := str.dropWhile (· == 32)
  if 32 ∈ s then (some (s.takeWhile (· != 32)), some ((s.dropWhile (· != 32)).drop 1))
  else if s = [] then (none, none)
  else (some s, none)

/-- The loop over the tokens behind the first one, with room for `room` of them. -/
def takeFields : Nat → Option Bytes → Option (List Bytes)
  | 0, _ => some []
  | _ + 1, none => some []
  | room + 1, some str =>
    match auditStrsplit str with
    | (none, _) => some []
    | (some ptr, saved) => do
      let field ← postprocess ptr
      let fields ← takeFields room saved
      some (field :: fields)

/-- What becomes of a line. -/
inductive Outcome
  /-- It is blank or a comment. -/
  | skipped
  /-- There is no token in it, and reading ends. -/
  | ended
  /-- `setopt` is called. -/
  | setopt (fields : List Bytes)
  /-- `postprocess` reads behind the end of a token. -/
  | overread
  deriving DecidableEq

/-- The body of the loop in `fileopt`. -/
def fileoptLine (buf : Bytes) : Outcome :=
  if buf.dropWhile (· == 32) = [] then .skipped
  else
    match auditStrsplit (preprocess false buf) with
    | (none, _) => .ended
    | (some ptr, saved) =>
      if ptr.head? = some 35 then .skipped
      else
        -- two of the places are taken by then, and one is for the NULL at the end
        let nf := buf.length / 3 + 3
        (takeFields (nf - 3) saved).elim .overread fun fields => .setopt (ptr :: fields)

/-- What `setopt` is called with, line by line; nothing for a call with a token that was read from behind
its end. -/
def fileoptCalls : Nat → Bytes → List (Option (List Bytes))
  | 0, _ => []
  | fuel + 1, file =>
    match getLine file with
    | none => []
    | some (buf, rest) =>
      match fileoptLine buf with
      | .skipped => fileoptCalls fuel rest
      | .ended => []
      | .setopt fields => some fields :: fileoptCalls fuel rest
      | .overread => none :: fileoptCalls fuel rest

/-- The calls of `setopt` for a file, if none of them ends the loop.  Every line takes at least one byte of
it. -/
def setoptCalls (file : Bytes) : List (Option (List Bytes)) := fileoptCalls file.length file

/-- The loop of `fileopt`.  It goes on after call `n` if `goesOn n`: the request was not refused, or errors
are ignored. -/
def fileopt (goesOn : Nat → Bool) (file : Bytes) : List (Option (List Bytes)) :=
  takeThrough goesOn (setoptCalls file)

/-! ## What is asked for -/

/-- What a line is made of: bytes that stand for themselves, and the two escapes. -/
inductive Sym
  | plain (c : UInt8)
  | space
  | backslash
  deriving DecidableEq

def Sym.value : Sym → UInt8
  | .plain c => c
  | .space => 32
  | .backslash => 92

/-- A line, with its escapes recognised. -/
def lex : Bytes → List Sym
  | [] => []
  | 92 :: 32 :: line => .space :: lex line
  | 92 :: 92 :: line => .backslash :: lex line
  | c :: line => .plain c :: lex line

/-- The parts of a line between blanks that are not escaped. -/
def parts (line : Bytes) : List (List Sym) := ((lex line).splitOn (.plain 32)).filter (· ≠ [])

/-- The tokens of a line. -/
def tokens (line : Bytes) : List Bytes := (parts line).map (·.map Sym.value)

/-- A line that is shorter than the buffer. -/
structure Line where
  bytes : Bytes
  newlineFree : 10 ∉ bytes
  fits : bytes.length < lineSize

/-- Blank, or a comment. -/
def Skipped (line : Bytes) : Prop :=
  line.dropWhile (· == 32) = [] ∨ (line.dropWhile (· == 32)).head? = some 35

instance (line : Bytes) : Decidable (Skipped line) := inferInstanceAs (Decidable (_ ∨ _))

/-- The calls of `setopt` a line asks for. -/
def wanted (line : Bytes) : List (Option (List Bytes)) :=
  if Skipped line then [] else [some (tokens line)]

/-- When the line is read, be it the last one of the file or not, `setopt` is called with its tokens, and
reading goes on behind it. -/
def Received (line : Line) : Prop :=
  ∀ rest : Bytes, rest = [] ∨ rest.head? = some 10 →
    setoptCalls (line.bytes ++ rest) = wanted line.bytes ++ setoptCalls (rest.drop 1)

/-- A token that can be written: it is not empty, and has no NUL or newline in it. -/
structure Token where
  bytes : Bytes
  ne_nil : bytes ≠ []
  nulFree : 0 ∉ bytes
  newlineFree : 10 ∉ bytes

/-- A token with its blanks and backslashes escaped. -/
def writeToken (token : Bytes) : Bytes :=
  token.flatMap fun c => if c = 32 ∨ c = 92 then [92, c] else [c]

/-- A line with these tokens. -/
def writeLine (ts : List Token) : Bytes := [32].intercalate (ts.map fun t => writeToken t.bytes)

/-- The tokens `setopt` gets; there are none if it is not called. -/
def Outcome.read : Outcome → Option (List Bytes)
  | .skipped => some []
  | .setopt fields => some fields
  | .ended | .overread => none

/-- The tokens are written on one line, the line is read, and what is read from it are these tokens. -/
def ReadsBack (ts : List Token) : Prop :=
  ∀ more, ∃ rest, getLine (writeLine ts ++ 10 :: more) = some (writeLine ts, rest) ∧
    (fileoptLine (writeLine ts)).read = some (ts.map Token.bytes)

/-! ## Escapes and their marks -/

/-- What `preprocess` makes of it. -/
def Sym.mark : Sym → Bytes
  | .plain c => [c]
  | .space => [7, 7]
  | .backslash => [4, 4]

theorem preprocess_eq (line : Bytes) : preprocess false line = (lex line).flatMap Sym.mark := by
  fun_induction lex line with
  | case1 => rfl
  | case2 line ih =>
    rw [flatMap_cons, ← ih]
    rfl
  | case3 line ih =>
    rw [flatMap_cons, ← ih]
    rfl
  | case4 c line hspace hback ih =>
    rw [flatMap_cons, ← ih, preprocess]
    split
    · rename_i hc
      subst hc
      cases line with
      | nil => rfl
      | cons d line =>
        have hd32 : d ≠ 32 := fun h => hspace line rfl (by rw [h])
        have hd92 : d ≠ 92 := fun h => hback line rfl (by rw [h])
        rw [preprocess, preprocess, if_neg hd32, if_neg hd92, if_neg hd92]
        rfl
    · rfl

theorem mark_ne_nil (s : Sym) : s.mark ≠ [] := by
  cases s <;> exact cons_ne_nil _ _

/-- Only a blank that is not escaped is a blank after `preprocess`. -/
theorem space_notMem_mark {s : Sym} (h : s ≠ .plain 32) : 32 ∉ s.mark := by
  cases s with
  | plain c =>
    rw [Sym.mark, mem_singleton]
    exact fun hc => h (by rw [hc])
  | space => decide
  | backslash => decide

theorem splitOn_marks (syms : List Sym) : (syms.flatMap Sym.mark).splitOn 32 =
    (syms.splitOn (.plain 32)).map (·.flatMap Sym.mark) := by
  induction syms with
  | nil => rfl
  | cons s syms ih =>
    by_cases hs : s = .plain 32
    · rw [hs, ← nil_append (Sym.plain 32 :: syms), splitOn_append_cons_self,
        map_append, ← ih]
      exact splitOn_append_cons_self [] _
    · have hs' : Sym.plain 32 ∉ [s] := by simpa using Ne.symm hs
      rw [flatMap_cons, splitOn_append_of_notMem (space_notMem_mark hs), ih,
        ← singleton_append, splitOn_append_of_notMem hs']
      cases syms.splitOn (.plain 32) with
      | nil => rfl
      | cons p ps => rfl

theorem words_preprocess (line : Bytes) :
    words 32 (preprocess false line) = (parts line).map (·.flatMap Sym.mark) := by
  rw [preprocess_eq, words, splitOn_marks, filter_map, parts]
  congr 1
  refine filter_congr fun p _ => ?_
  cases p with
  | nil => rfl
  | cons s p => simp [mark_ne_nil]

theorem preprocess_spaces (line : Bytes) :
    (preprocess false line).dropWhile (· == 32) = preprocess false (line.dropWhile (· == 32)) := by
  induction line with
  | nil => rfl
  | cons c line ih =>
    by_cases hc : c = 32
    · subst hc
      exact ih
    · have hc' : ¬ (c == 32) = true := fun h => hc (eq_of_beq h)
      rw [dropWhile_cons_of_neg (p := (· == 32)) hc', preprocess]
      split
      · cases line with
        | nil => rfl
        | cons d line =>
          rw [preprocess]
          split_ifs <;> rfl
      · exact dropWhile_cons_of_neg hc'

variable {line rest buf file : Bytes}

theorem preprocess_ne_nil (h : line ≠ []) : preprocess false line ≠ [] := by
  obtain ⟨c, line, rfl⟩ := exists_cons_of_ne_nil h
  rw [preprocess]
  split
  · cases line with
    | nil => decide
    | cons d line =>
      rw [preprocess]
      split_ifs <;> exact cons_ne_nil _ _
  · exact cons_ne_nil _ _

/-- A comment is still one. -/
theorem head_preprocess (line : Bytes) :
    (preprocess false line).head? = some 35 ↔ line.head? = some 35 := by
  cases line with
  | nil => rfl
  | cons c line =>
    rw [preprocess, head?_cons]
    split
    · rename_i hc
      subst hc
      cases line with
      | nil => decide
      | cons d line =>
        rw [preprocess]
        split_ifs <;> simp
    · rw [head?_cons]

/-! ## Marks and what they stand for -/

theorem postprocess_cons {c : UInt8} (h7 : c ≠ 7) (h4 : c ≠ 4) (buf : Bytes) :
    postprocess (c :: buf) = (postprocess buf).map (c :: ·) := by
  cases buf with
  | nil => exact if_neg (not_or.mpr ⟨h7, h4⟩)
  | cons d buf => rw [postprocess, if_neg h7, if_neg h4]

/-- There is no mark left after `postprocess`, and what is new is a blank or a backslash. -/
theorem mem_of_postprocess {field : Bytes} {b : UInt8} (h : postprocess buf = some field)
    (hb : b ∈ field) : b = 32 ∨ b = 92 ∨ b ∈ buf ∧ b ≠ 7 ∧ b ≠ 4 := by
  fun_induction postprocess buf generalizing field with
  | case1 =>
    cases h
    cases hb
  | case2 => cases h
  | case3 c hc =>
    cases h
    simp_all
  | case4 d buf ih =>
    obtain ⟨field, hfield, rfl⟩ := Option.map_eq_some_iff.mp h
    have hmem := ih hfield
    grind
  | case5 d buf hc ih =>
    obtain ⟨field, hfield, rfl⟩ := Option.map_eq_some_iff.mp h
    have hmem := ih hfield
    grind
  | case6 c d buf h7 h4 ih =>
    obtain ⟨field, hfield, rfl⟩ := Option.map_eq_some_iff.mp h
    grind

/-- **A part is turned into its token exactly if there are no bytes in it that look like marks.** -/
theorem postprocess_marks_iff (part : List Sym) :
    postprocess (part.flatMap Sym.mark) = some (part.map Sym.value) ↔
      7 ∉ part.map Sym.value ∧ 4 ∉ part.map Sym.value := by
  refine ⟨fun h => ⟨fun h7 => ?_, fun h4 => ?_⟩, ?_⟩
  · simpa using mem_of_postprocess h h7
  · simpa using mem_of_postprocess h h4
  induction part with
  | nil => exact fun _ => rfl
  | cons s part ih =>
    intro h
    rw [map_cons, mem_cons, mem_cons, not_or, not_or] at h
    have hpart := ih ⟨h.1.2, h.2.2⟩
    cases s with
    | plain c =>
      have h7 : c ≠ 7 := Ne.symm h.1.1
      have h4 : c ≠ 4 := Ne.symm h.2.1
      rw [flatMap_cons, Sym.mark, singleton_append, postprocess_cons h7 h4, hpart]
      rfl
    | space =>
      rw [flatMap_cons, Sym.mark, cons_append, cons_append, nil_append, postprocess, hpart]
      rfl
    | backslash =>
      rw [flatMap_cons, Sym.mark, cons_append, cons_append, nil_append, postprocess, hpart]
      rfl

/-- No escape. -/
def Plain (part : List Sym) : Prop := ∀ s ∈ part, s ≠ .space ∧ s ≠ .backslash

instance (part : List Sym) : Decidable (Plain part) := inferInstanceAs (Decidable (∀ s ∈ part, _))

/-- **Without `postprocess` a part is its token exactly if there is no escape in it.** -/
theorem marks_eq_iff (part : List Sym) : part.flatMap Sym.mark = part.map Sym.value ↔ Plain part := by
  induction part with
  | nil => exact ⟨fun _ => forall_mem_nil _, fun _ => rfl⟩
  | cons s part ih =>
    rw [Plain, forall_mem_cons, ← Plain, ← ih, flatMap_cons, map_cons]
    cases s with
    | plain c => simp [Sym.mark, Sym.value]
    | space => simp [Sym.mark, Sym.value]
    | backslash => simp [Sym.mark, Sym.value]

/-! ## Cutting a line -/

theorem auditStrsplit_spec (str : Bytes) :
    str.dropWhile (· == 32) = [] ∧ auditStrsplit str = (none, none) ∨
    ∃ (w : Bytes) (saved : Option Bytes), auditStrsplit str = (some w, saved) ∧
      words 32 str = w :: saved.elim [] (words 32) ∧ w.head? = (str.dropWhile (· == 32)).head? := by
  rw [← words_dropWhile, auditStrsplit]
  have hhead := head?_dropWhile_not (· == 32) str
  generalize str.dropWhile (· == 32) = s at hhead ⊢
  by_cases hmem : 32 ∈ s
  · obtain ⟨w, rest, rfl, hw⟩ := eq_append_cons_of_mem hmem
    have hne : w ≠ [] := by
      rintro rfl
      simp at hhead
    refine .inr ⟨w, some rest, ?_, ?_, ?_⟩
    · rw [if_pos hmem, takeWhile_append_cons hw, dropWhile_append_cons hw]
      rfl
    · rw [words_append_cons, words_of_notMem hw hne]
      rfl
    · rw [head?_append_of_ne_nil _ hne]
  · rw [if_neg hmem]
    split
    · rename_i hnil
      exact .inl ⟨hnil, rfl⟩
    · rename_i hne
      exact .inr ⟨s, none, rfl, words_of_notMem hmem hne, rfl⟩

/-- **The loop takes as many words as there is room for.** -/
theorem takeFields_eq (room : Nat) (saved : Option Bytes) :
    takeFields room saved = ((saved.elim [] (words 32)).take room).mapM postprocess := by
  induction room generalizing saved with
  | zero => rfl
  | succ room ih =>
    cases saved with
    | none => rfl
    | some str =>
      rw [takeFields, Option.elim_some]
      rcases auditStrsplit_spec str with ⟨hnil, hsplit⟩ | ⟨w, saved, hsplit, hwords, -⟩
      · rw [hsplit, ← words_dropWhile, hnil]
        rfl
      · rw [hwords, hsplit, take_succ_cons, mapM_cons, ← ih]
        rfl

theorem mapM_take_eq_some_iff {α β γ : Type} {f : β → Option γ} {g : α → β} {h : α → γ} (n : Nat)
    (l : List α) : ((l.map g).take n).mapM f = some (l.map h) ↔
      l.length ≤ n ∧ ∀ x ∈ l, f (g x) = some (h x) := by
  induction l generalizing n with
  | nil => simp
  | cons x l ih =>
    cases n with
    | zero => simp
    | succ n =>
      rw [forall_mem_cons, length_cons, Nat.add_le_add_iff_right, and_left_comm, ← ih,
        map_cons, take_succ_cons, mapM_cons]
      cases f (g x) <;> cases ((l.map g).take n).mapM f <;> simp

theorem fileoptLine_of_skipped (h : Skipped line) : fileoptLine line = .skipped := by
  by_cases hnil : line.dropWhile (· == 32) = []
  · exact if_pos hnil
  · have hcomment := h.resolve_left hnil
    rw [← head_preprocess, ← preprocess_spaces] at hcomment
    rw [fileoptLine, if_neg hnil]
    rcases auditStrsplit_spec (preprocess false line) with ⟨hblank, -⟩ | ⟨w, saved, hsplit, -, hhead⟩
    · rw [hblank] at hcomment
      cases hcomment
    · rw [hsplit]
      exact if_pos (hhead.trans hcomment)

/-- What a line that is not skipped comes to. -/
theorem fileoptLine_eq (h : ¬ Skipped line) : ∃ part rest, parts line = part :: rest ∧ fileoptLine line =
      (((rest.map (·.flatMap Sym.mark)).take (line.length / 3)).mapM postprocess).elim .overread
        fun fields => .setopt (part.flatMap Sym.mark :: fields) := by
  rw [Skipped, not_or, ← head_preprocess, ← preprocess_spaces] at h
  have hwords := words_preprocess line
  rw [fileoptLine, if_neg h.1]
  rcases auditStrsplit_spec (preprocess false line) with ⟨hblank, -⟩ | ⟨w, saved, hsplit, hcons, hhead⟩
  · rw [preprocess_spaces] at hblank
    exact absurd hblank (preprocess_ne_nil h.1)
  · rw [hcons] at hwords
    obtain ⟨part, rest, hparts, rfl, hrest⟩ := map_eq_cons_iff.mp hwords.symm
    refine ⟨part, rest, hparts, ?_⟩
    rw [hsplit]
    simp only [hhead, if_neg h.2, takeFields_eq, ← hrest, Nat.add_sub_cancel]

theorem fileoptLine_ne_ended (line : Bytes) : fileoptLine line ≠ .ended := by
  by_cases h : Skipped line
  · rw [fileoptLine_of_skipped h]
    exact fun he => by cases he
  · obtain ⟨part, rest, -, heq⟩ := fileoptLine_eq h
    rw [heq]
    cases ((rest.map (·.flatMap Sym.mark)).take (line.length / 3)).mapM postprocess with
    | none => exact fun he => by cases he
    | some fields => exact fun he => by cases he

/-- A line whose tokens come through. -/
structure Clean (line : Bytes) : Prop where
  /-- There is no escape in the first part. -/
  first : ∀ part ∈ (parts line).head?, Plain part
  /-- There are no marks in the others. -/
  later : ∀ token ∈ (tokens line).tail, 7 ∉ token ∧ 4 ∉ token
  /-- There is room for all of them. -/
  room : (tokens line).length ≤ line.length / 3 + 1

/-- **`setopt` gets the tokens of a line exactly if it is clean.** -/
theorem fileoptLine_eq_iff (h : ¬ Skipped line) :
    fileoptLine line = .setopt (tokens line) ↔ Clean line := by
  obtain ⟨part, rest, hparts, heq⟩ := fileoptLine_eq h
  have htokens : tokens line = part.map Sym.value :: rest.map (·.map Sym.value) := by
    rw [tokens, hparts, map_cons]
  have hcalls : fileoptLine line = .setopt (tokens line) ↔ part.flatMap Sym.mark = part.map Sym.value ∧
      ((rest.map (·.flatMap Sym.mark)).take (line.length / 3)).mapM postprocess =
        some (rest.map (·.map Sym.value)) := by
    rw [heq, htokens]
    cases ((rest.map (·.flatMap Sym.mark)).take (line.length / 3)).mapM postprocess with
    | none => simp
    | some fields => simp
  rw [hcalls, marks_eq_iff, mapM_take_eq_some_iff]
  simp only [postprocess_marks_iff]
  constructor
  · rintro ⟨hfirst, hroom, hlater⟩
    refine ⟨?_, ?_, ?_⟩
    · rw [hparts]
      rintro _ ⟨⟩
      exact hfirst
    · rw [htokens]
      exact forall_mem_map.mpr hlater
    · simp_all
  · rintro ⟨hfirst, hlater, hroom⟩
    grind

/-! ## Reading the file -/

theorem Line.cut (line : Line) (hrest : rest = [] ∨ rest.head? = some 10) :
    (line.bytes ++ rest).takeWhile (· != 10) = line.bytes ∧
      (line.bytes ++ rest).dropWhile (· != 10) = rest := by
  have hline : ∀ c ∈ line.bytes, (c != 10) = true := fun c hc => by
    simpa using ne_of_mem_of_not_mem hc line.newlineFree
  have hstop : ∀ c, rest.head? = some c → (c != 10) = false := fun c hc => by
    rcases hrest with rfl | hten
    · cases hc
    · rw [hten] at hc
      cases hc
      rfl
  exact ⟨takeWhile_append_stop hline hstop, dropWhile_append_stop hline hstop⟩

theorem takeWhile_untilNul (p : UInt8 → Bool) (buf : Bytes) :
    (untilNul buf).takeWhile p = untilNul (buf.takeWhile p) := by
  simp [untilNul, takeWhile_takeWhile, and_comm]

/-- The buffer holds the line.  If the newline has no place in it, that is read as a line of its own. -/
theorem getLine_append (line : Line) (hrest : rest = [] ∨ rest.head? = some 10)
    (hne : line.bytes ++ rest ≠ []) : getLine (line.bytes ++ rest) =
      some (untilNul line.bytes, if line.bytes.length + 1 < lineSize then rest.drop 1 else rest) := by
  have hfits := line.fits
  have htake : ∀ n, rest.take n = [] ∨ (rest.take n).head? = some 10 := fun n => by
    cases n with
    | zero => exact .inl rfl
    | succ n =>
      rcases hrest with rfl | hten
      · exact .inl rfl
      · obtain ⟨after, rfl⟩ := head?_eq_some_iff.mp hten
        exact .inr rfl
  have hbuf : (line.bytes ++ rest.take 1).take (lineSize - 1) =
      line.bytes ++ rest.take (if line.bytes.length + 1 < lineSize then 1 else 0) := by
    rw [take_append, take_of_length_le (by omega), take_take]
    congr 2
    split <;> omega
  rw [getLine, if_neg hne, (line.cut hrest).1, (line.cut hrest).2]
  simp only [hbuf, takeWhile_untilNul, (line.cut (htake _)).1]
  congr 2
  rw [length_append, length_take, drop_length_add_append]
  split
  · cases rest with
    | nil => rfl
    | cons c rest => rw [length_cons, Nat.min_eq_left (Nat.le_add_left 1 _)]
  · rw [Nat.zero_min, drop_zero]

theorem length_of_getLine (h : getLine file = some (buf, rest)) :
    buf.length < lineSize ∧ rest.length < file.length := by
  rw [getLine] at h
  split at h
  · cases h
  · rename_i hne
    obtain ⟨c, file, rfl⟩ := exists_cons_of_ne_nil hne
    obtain ⟨rfl, rfl⟩ := Prod.mk.inj (Option.some.inj h)
    rw [takeWhile_untilNul]
    constructor
    · refine Nat.lt_of_le_of_lt ((List.takeWhile_prefix _).length_le.trans
        ((List.takeWhile_prefix _).length_le.trans (length_take_le _ _))) (by decide)
    · rw [length_drop, length_cons, takeWhile_cons, dropWhile_cons]
      refine Nat.sub_lt (Nat.succ_pos _) ?_
      split
      · exact Nat.succ_pos _
      · exact Nat.succ_pos _

/-- The calls of `setopt` for a line. -/
def Outcome.calls : Outcome → List (Option (List Bytes))
  | .skipped | .ended => []
  | .setopt fields => [some fields]
  | .overread => [none]

theorem fileoptCalls_succ (h : getLine file = some (buf, rest)) (fuel : Nat) :
    fileoptCalls (fuel + 1) file = (fileoptLine buf).calls ++ fileoptCalls fuel rest := by
  have hended := fileoptLine_ne_ended buf
  simp only [fileoptCalls, h]
  cases hline : fileoptLine buf with
  | skipped => rfl
  | ended => exact absurd hline hended
  | setopt fields => rfl
  | overread => rfl

/-- It does not matter how much fuel there is if it is enough. -/
theorem fileoptCalls_congr {fuel fuel' : Nat} (h : file.length ≤ fuel)
    (h' : file.length ≤ fuel') : fileoptCalls fuel file = fileoptCalls fuel' file := by
  induction fuel generalizing fuel' file with
  | zero =>
    rw [length_eq_zero_iff.mp (Nat.le_zero.mp h)]
    cases fuel' <;> rfl
  | succ fuel ih =>
    cases hline : getLine file with
    | none => cases fuel' <;> simp [fileoptCalls, hline]
    | some r =>
      have hlen := (length_of_getLine hline).2
      cases fuel' with
      | zero => omega
      | succ fuel' =>
        have hfuel : r.2.length ≤ fuel := by omega
        have hfuel' : r.2.length ≤ fuel' := by omega
        rw [fileoptCalls_succ hline, fileoptCalls_succ hline, ih hfuel hfuel']

theorem setoptCalls_of_getLine (h : getLine file = some (buf, rest)) :
    setoptCalls file = (fileoptLine buf).calls ++ setoptCalls rest := by
  have hlen := (length_of_getLine h).2
  rw [setoptCalls, setoptCalls, ← fileoptCalls_congr (Nat.le_sub_one_of_lt hlen) (Nat.le_refl _),
    ← fileoptCalls_succ h, Nat.sub_add_cancel (by omega)]

/-- **A line is read by itself.** -/
theorem setoptCalls_append (line : Line) (hrest : rest = [] ∨ rest.head? = some 10) :
    setoptCalls (line.bytes ++ rest) =
      (fileoptLine (untilNul line.bytes)).calls ++ setoptCalls (rest.drop 1) := by
  by_cases hne : line.bytes ++ rest = []
  · obtain ⟨hnil, rfl⟩ := append_eq_nil_iff.mp hne
    rw [hnil]
    rfl
  · rw [setoptCalls_of_getLine (getLine_append line hrest hne)]
    congr 1
    split
    · rfl
    · rcases hrest with rfl | hten
      · rfl
      · -- the newline alone is a blank line
        obtain ⟨after, rfl⟩ := head?_eq_some_iff.mp hten
        exact setoptCalls_of_getLine
          (getLine_append ⟨[], not_mem_nil, by decide⟩ (.inr rfl) (cons_ne_nil _ _))

/-! ## Strings end at a NUL -/

theorem zero_mem_preprocess (esc_ctx : Bool) (line : Bytes) :
    0 ∈ preprocess esc_ctx line ↔ 0 ∈ line := by
  fun_induction preprocess esc_ctx line <;> simp_all

theorem exists_of_mem_mapM {α β : Type} {f : α → Option β} {l : List α} {l' : List β}
    (h : l.mapM f = some l') {y : β} (hy : y ∈ l') : ∃ x ∈ l, f x = some y := by
  induction l generalizing l' with
  | nil =>
    cases h
    cases hy
  | cons x l ih =>
    rw [mapM_cons] at h
    obtain ⟨z, hz, h⟩ := Option.bind_eq_some_iff.mp h
    obtain ⟨zs, hzs, h⟩ := Option.bind_eq_some_iff.mp h
    cases h
    rcases mem_cons.mp hy with rfl | hmem
    · exact ⟨x, mem_cons_self, hz⟩
    · simp_all

/-- What `setopt` gets are strings. -/
theorem zero_notMem_fields {fields : List Bytes} (h : fileoptLine line = .setopt fields)
    (hline : 0 ∉ line) : ∀ field ∈ fields, 0 ∉ field := by
  have hskip : ¬ Skipped line := fun hskip => by
    rw [fileoptLine_of_skipped hskip] at h
    cases h
  obtain ⟨part, rest, hparts, heq⟩ := fileoptLine_eq hskip
  have hword : ∀ w ∈ (parts line).map (·.flatMap Sym.mark), 0 ∉ w := by
    rw [← words_preprocess]
    exact fun w hw h0 => hline ((zero_mem_preprocess false line).mp ((of_mem_words hw).2 h0))
  rw [hparts, map_cons, forall_mem_cons] at hword
  rw [heq] at h
  cases hrest : ((rest.map (·.flatMap Sym.mark)).take (line.length / 3)).mapM postprocess with
  | none =>
    rw [hrest] at h
    cases h
  | some later =>
    rw [hrest] at h
    cases h
    refine forall_mem_cons.mpr ⟨hword.1, fun field hfield => ?_⟩
    obtain ⟨w, hw, hpost⟩ := exists_of_mem_mapM hrest hfield
    have hzero := hword.2 w (mem_of_mem_take hw)
    exact fun h0 => by simpa [hzero] using mem_of_postprocess hpost h0

/-- A NUL is in a token like any other byte. -/
theorem exists_zero_mem_tokens (h : 0 ∈ line) :
    ∃ token ∈ tokens line, 0 ∈ token := by
  have hmem := (zero_mem_preprocess false line).mpr h
  obtain ⟨w, hw, h0⟩ := exists_mem_words hmem (show (0 : UInt8) ≠ 32 by decide)
  rw [words_preprocess] at hw
  obtain ⟨part, hpart, rfl⟩ := mem_map.mp hw
  refine ⟨part.map Sym.value, mem_map_of_mem hpart, ?_⟩
  obtain ⟨s, hs, h0⟩ := mem_flatMap.mp h0
  refine mem_map.mpr ⟨s, hs, ?_⟩
  cases s with
  | plain c => exact (mem_singleton.mp h0).symm
  | space => exact absurd h0 (by decide)
  | backslash => exact absurd h0 (by decide)

/-- A NUL does not make a line that is skipped another one. -/
theorem Skipped.untilNul (h : Skipped line) : Skipped (untilNul line) := by
  induction line with
  | nil => exact h
  | cons c line ih =>
    by_cases hc : c = 32
    · subst hc
      exact ih h
    · rw [Skipped, dropWhile_cons_of_neg (p := (· == 32)) (fun h => hc (eq_of_beq h))] at h
      have hcomment : c = 35 := by simpa using h
      subst hcomment
      exact .inr rfl

/-! ## Writing tokens -/

/-- What a byte of a token is written as. -/
def toSym (c : UInt8) : Sym := if c = 32 then .space else if c = 92 then .backslash else .plain c

theorem value_toSym (c : UInt8) : (toSym c).value = c := by
  rw [toSym]
  split_ifs <;> simp [Sym.value, *]

theorem toSym_ne (c : UInt8) : toSym c ≠ .plain 32 := by
  rw [toSym]
  split_ifs <;> simp [*]

theorem plain_map_toSym (token : Bytes) :
    Plain (token.map toSym) ↔ 32 ∉ token ∧ 92 ∉ token := by
  have hsym : ∀ c, toSym c ≠ .space ∧ toSym c ≠ .backslash ↔ ¬ 32 = c ∧ ¬ 92 = c := fun c => by
    rw [toSym]
    split_ifs <;> simp [eq_comm, *]
  rw [Plain, forall_mem_map]
  grind

theorem lex_cons {c : UInt8} (h : c ≠ 92) (line : Bytes) : lex (c :: line) = .plain c :: lex line := by
  rw [lex]
  · exact fun _ hc => absurd hc h
  · exact fun _ hc => absurd hc h

theorem lex_writeToken (token rest : Bytes) :
    lex (writeToken token ++ rest) = token.map toSym ++ lex rest := by
  induction token with
  | nil => rfl
  | cons c token ih =>
    rw [writeToken, flatMap_cons, ← writeToken, append_assoc, map_cons, cons_append, ← ih]
    by_cases h32 : c = 32
    · subst h32
      rfl
    by_cases h92 : c = 92
    · subst h92
      rfl
    rw [if_neg (not_or.mpr ⟨h32, h92⟩), singleton_append, lex_cons h92, toSym, if_neg h32, if_neg h92]

theorem writeLine_cons_cons (t t' : Token) (ts : List Token) :
    writeLine (t :: t' :: ts) = writeToken t.bytes ++ 32 :: writeLine (t' :: ts) := by
  rw [writeLine, map_cons, map_cons, intercalate_cons_cons, append_assoc]
  rfl

theorem writeLine_cons (t : Token) (ts : List Token) :
    ∃ rest, writeLine (t :: ts) = writeToken t.bytes ++ rest := by
  cases ts with
  | nil => exact ⟨[], by simp [writeLine]⟩
  | cons t' ts => exact ⟨_, writeLine_cons_cons t t' ts⟩

theorem lex_writeLine (ts : List Token) :
    lex (writeLine ts) = [Sym.plain 32].intercalate (ts.map fun t => t.bytes.map toSym) := by
  induction ts with
  | nil => rfl
  | cons t ts ih =>
    cases ts with
    | nil =>
      have h := lex_writeToken t.bytes []
      rw [append_nil] at h
      simpa [writeLine, lex] using h
    | cons t' ts =>
      rw [writeLine_cons_cons, lex_writeToken, lex_cons (by decide), ih]
      simp only [map_cons, intercalate_cons_cons, append_assoc, singleton_append]

theorem parts_writeLine (ts : List Token) : parts (writeLine ts) = ts.map fun t => t.bytes.map toSym := by
  rw [parts, lex_writeLine]
  cases ts with
  | nil => rfl
  | cons t ts =>
    rw [splitOn_intercalate, filter_eq_self]
    · rintro part hpart
      obtain ⟨t, -, rfl⟩ := mem_map.mp hpart
      simpa using t.ne_nil
    · rintro part hpart hmem
      obtain ⟨t, -, rfl⟩ := mem_map.mp hpart
      obtain ⟨c, -, hc⟩ := mem_map.mp hmem
      exact toSym_ne c hc
    · exact cons_ne_nil _ _

/-- **A line that is written has the tokens it is written from.** -/
theorem tokens_writeLine (ts : List Token) : tokens (writeLine ts) = ts.map Token.bytes := by
  simp [tokens, parts_writeLine, map_map, Function.comp_def, value_toSym]

theorem notMem_writeToken {b : UInt8} (h92 : b ≠ 92) {token : Bytes} (h : b ∉ token) :
    b ∉ writeToken token := by
  rw [writeToken, mem_flatMap]
  rintro ⟨c, hc, hb⟩
  split at hb
  · simp_all
  · exact h (mem_singleton.mp hb ▸ hc)

theorem notMem_writeLine {b : UInt8} (h32 : b ≠ 32) (h92 : b ≠ 92) {ts : List Token}
    (h : ∀ t ∈ ts, b ∉ t.bytes) : b ∉ writeLine ts := by
  induction ts with
  | nil => exact not_mem_nil
  | cons t ts ih =>
    rw [forall_mem_cons] at h
    have ht := notMem_writeToken h92 h.1
    cases ts with
    | nil => simpa [writeLine] using ht
    | cons t' ts =>
      rw [writeLine_cons_cons, mem_append, mem_cons]
      exact not_or.mpr ⟨ht, not_or.mpr ⟨h32, ih h.2⟩⟩

/-- A blank that is part of the first token is written as an escape, so only a comment is skipped. -/
theorem skipped_writeLine_iff (t : Token) (ts : List Token) :
    Skipped (writeLine (t :: ts)) ↔ t.bytes.head? = some 35 := by
  obtain ⟨rest, hrest⟩ := writeLine_cons t ts
  obtain ⟨c, token, htoken⟩ := exists_cons_of_ne_nil t.ne_nil
  rw [hrest, htoken, writeToken, flatMap_cons, append_assoc]
  split
  · rename_i hc
    rcases hc with rfl | rfl <;> simp [Skipped]
  · rename_i hc
    rw [not_or] at hc
    simp [Skipped, hc.1]

/-- Tokens that can be written on one line and read from there. -/
structure Readable (ts : List Token) : Prop where
  /-- The line is shorter than the buffer. -/
  fits : (writeLine ts).length < lineSize
  /-- It is not a comment. -/
  noComment : ∀ t ∈ ts.head?, t.bytes.head? ≠ some 35
  /-- There is no escape in the first token. -/
  first : ∀ t ∈ ts.head?, 32 ∉ t.bytes ∧ 92 ∉ t.bytes
  /-- There are no marks in the others. -/
  later : ∀ t ∈ ts.tail, 7 ∉ t.bytes ∧ 4 ∉ t.bytes
  /-- There is room for all of them. -/
  room : ts.length ≤ (writeLine ts).length / 3 + 1

theorem clean_writeLine_iff (ts : List Token) : Clean (writeLine ts) ↔
    (∀ t ∈ ts.head?, 32 ∉ t.bytes ∧ 92 ∉ t.bytes) ∧
      (∀ t ∈ ts.tail, 7 ∉ t.bytes ∧ 4 ∉ t.bytes) ∧
      ts.length ≤ (writeLine ts).length / 3 + 1 := by
  have hclean : Clean (writeLine ts) ↔ (∀ part ∈ (parts (writeLine ts)).head?, Plain part) ∧
      (∀ token ∈ (tokens (writeLine ts)).tail, 7 ∉ token ∧ 4 ∉ token) ∧
      (tokens (writeLine ts)).length ≤ (writeLine ts).length / 3 + 1 :=
    ⟨fun h => ⟨h.first, h.later, h.room⟩, fun h => ⟨h.1, h.2.1, h.2.2⟩⟩
  simp [hclean, parts_writeLine, tokens_writeLine, length_map, ← map_tail,
    plain_map_toSym]

/-! ## The results -/

/-- **`setopt` gets the tokens of a line exactly if the line is a clean string.** -/
theorem received_iff (line : Line) :
    Received line ↔ Skipped line.bytes ∨ 0 ∉ line.bytes ∧ Clean line.bytes := by
  have hcalls : Received line ↔ (fileoptLine (untilNul line.bytes)).calls = wanted line.bytes := by
    constructor
    · intro h
      have := h [] (.inl rfl)
      rwa [setoptCalls_append line (.inl rfl), append_left_inj] at this
    · intro h rest hrest
      rw [setoptCalls_append line hrest, h]
  rw [hcalls, wanted]
  split
  · rename_i hskip
    rw [fileoptLine_of_skipped hskip.untilNul]
    exact ⟨fun _ => .inl hskip, fun _ => rfl⟩
  · rename_i hskip
    have hsome : ∀ outcome : Outcome, outcome.calls = [some (tokens line.bytes)] ↔
        outcome = .setopt (tokens line.bytes) := fun outcome => by
      cases outcome <;> simp [Outcome.calls]
    rw [hsome, or_iff_right hskip]
    constructor
    · intro h
      have hnul : 0 ∉ line.bytes := fun hmem => by
        obtain ⟨token, htoken, h0⟩ := exists_zero_mem_tokens hmem
        exact zero_notMem_fields h (zero_notMem_untilNul _) token htoken h0
      rw [untilNul_of_notMem hnul] at h
      exact ⟨hnul, (fileoptLine_eq_iff hskip).mp h⟩
    · rintro ⟨hnul, hclean⟩
      rw [untilNul_of_notMem hnul]
      exact (fileoptLine_eq_iff hskip).mpr hclean

/-- **Tokens are read back exactly if they are readable.** -/
theorem readsBack_iff (ts : List Token) : ReadsBack ts ↔ Readable ts := by
  cases ts with
  | nil =>
    refine iff_of_true (fun more => ⟨more, ?_, rfl⟩) ⟨by decide, ?_, ?_, ?_, by decide⟩
    · exact getLine_append ⟨[], not_mem_nil, by decide⟩ (.inr rfl) (cons_ne_nil _ _)
    all_goals
      intro t ht
      cases ht
  | cons t ts =>
    have hread_iff : ∀ outcome : Outcome, outcome.read = some ((t :: ts).map Token.bytes) ↔
        outcome = .setopt (tokens (writeLine (t :: ts))) := fun outcome => by
      rw [tokens_writeLine]
      cases outcome <;> simp [Outcome.read]
    constructor
    · intro h
      obtain ⟨rest, hline, hread⟩ := h []
      rw [hread_iff] at hread
      have hskip : ¬ Skipped (writeLine (t :: ts)) := fun hskip => by
        rw [fileoptLine_of_skipped hskip] at hread
        cases hread
      obtain ⟨hfirst, hlater, hroom⟩ := (clean_writeLine_iff _).mp ((fileoptLine_eq_iff hskip).mp hread)
      rw [skipped_writeLine_iff] at hskip
      exact ⟨(length_of_getLine hline).1, by simpa using hskip, hfirst, hlater, hroom⟩
    · intro h more
      have hskip : ¬ Skipped (writeLine (t :: ts)) := by
        rw [skipped_writeLine_iff]
        exact h.noComment t rfl
      have hnul : 0 ∉ writeLine (t :: ts) :=
        notMem_writeLine (by decide) (by decide) fun t _ => t.nulFree
      have hnewline : 10 ∉ writeLine (t :: ts) :=
        notMem_writeLine (by decide) (by decide) fun t _ => t.newlineFree
      have hline := getLine_append ⟨writeLine (t :: ts), hnewline, h.fits⟩ (.inr rfl)
        (append_ne_nil_of_right_ne_nil _ (cons_ne_nil 10 more))
      rw [untilNul_of_notMem hnul] at hline
      refine ⟨_, hline, ?_⟩
      rw [hread_iff, fileoptLine_eq_iff hskip, clean_writeLine_iff]
      exact ⟨h.first, h.later, h.room⟩

/-- **For the lines of a rules file, and for the tokens that are written to one.** -/
theorem rulesFile_iff (line : Line) (ts : List Token) :
    (Received line ↔ Skipped line.bytes ∨ 0 ∉ line.bytes ∧ Clean line.bytes) ∧
      (ReadsBack ts ↔ Readable ts) :=
  ⟨received_iff line, readsBack_iff ts⟩

/-- There are six tokens in these 14 bytes, and room for five: the key gets lost. -/
theorem not_received_watch : ¬ Received ⟨ascii "-w / -p r -k a", by decide, by decide⟩ := by
  rw [received_iff, not_or]
  exact ⟨by decide, fun h => absurd h.2.room (by decide)⟩

/-! ## Whole files -/

/-- The file with a line for each of these lists of tokens. -/
def writeRules (rules : List (List Token)) : Bytes := rules.flatMap fun ts => writeLine ts ++ [10]

theorem setoptCalls_writeLine {ts : List Token} (hne : ts ≠ []) (h : Readable ts) (more : Bytes) :
    setoptCalls (writeLine ts ++ 10 :: more) = some (ts.map Token.bytes) :: setoptCalls more := by
  have hskip : ¬ Skipped (writeLine ts) := by
    obtain ⟨t, ts, rfl⟩ := exists_cons_of_ne_nil hne
    rw [skipped_writeLine_iff]
    exact h.noComment t rfl
  have hnul : 0 ∉ writeLine ts := notMem_writeLine (by decide) (by decide) fun t _ => t.nulFree
  have hnewline : 10 ∉ writeLine ts :=
    notMem_writeLine (by decide) (by decide) fun t _ => t.newlineFree
  have hclean := (clean_writeLine_iff ts).mpr ⟨h.first, h.later, h.room⟩
  have hline := (received_iff ⟨writeLine ts, hnewline, h.fits⟩).mpr (.inr ⟨hnul, hclean⟩)
  rw [hline _ (.inr rfl), wanted, if_neg hskip, tokens_writeLine]
  rfl

theorem setoptCalls_writeRules {rules : List (List Token)} (hne : ∀ ts ∈ rules, ts ≠ [])
    (h : ∀ ts ∈ rules, Readable ts) :
    setoptCalls (writeRules rules) = rules.map fun ts => some (ts.map Token.bytes) := by
  induction rules with
  | nil => rfl
  | cons ts rules ih =>
    rw [forall_mem_cons] at hne h
    rw [writeRules, flatMap_cons, append_assoc, singleton_append, setoptCalls_writeLine hne.1 h.1, map_cons]
    exact congrArg _ (ih hne.2 h.2)

/-- **A rules file is read back.**  If the tokens of every line are readable, `setopt` gets them line by
line up to the first call that ends the loop, and nothing else. -/
theorem fileopt_writeRules (goesOn : Nat → Bool) {rules : List (List Token)} (hne : ∀ ts ∈ rules, ts ≠ [])
    (h : ∀ ts ∈ rules, Readable ts) : fileopt goesOn (writeRules rules) =
      takeThrough goesOn (rules.map fun ts => some (ts.map Token.bytes)) :=
  congrArg _ (setoptCalls_writeRules hne h)

/-- The tokens `-D`, `-w` and a path with a blank in it. -/
def someTokens : List Token := [⟨ascii "-D", by decide, by decide, by decide⟩,
  ⟨ascii "-w", by decide, by decide, by decide⟩, ⟨ascii "/a b", by decide, by decide, by decide⟩]

/-- All rules are deleted, a path is watched, and that fails. -/
theorem fileopt_writeRules_three : fileopt (· == 0)
    (writeRules [someTokens.take 1, someTokens.drop 1, someTokens.take 1]) =
      [some [ascii "-D"], some [ascii "-w", ascii "/a b"]] := by
  refine fileopt_writeRules _ (by decide) fun ts hts => ?_
  obtain rfl | rfl : ts = someTokens.take 1 ∨ ts = someTokens.drop 1 := by
    simp only [mem_cons, not_mem_nil, or_false] at hts
    tauto
  · exact ⟨by decide, by decide, by decide, by decide, by decide⟩
  · exact ⟨by decide, by decide, by decide, by decide, by decide⟩

end LibAudit.Rules
