import LibAudit.Lib.Text

/-!
# Splitting a string at blanks

`audit_strsplit` and `audit_strsplit_r` return the words of a string one by one and put a NUL behind each.
They differ in where the pointer to that NUL is kept.  A pointer is modelled by the bytes from it on, and
a string has its terminating NUL.
-/

namespace LibAudit.Common

open List

/-! ## The functions -/

/-- From the label `retry` on, at the pointer that is kept: the result and the pointer. -/
def retry : Bytes → Option Bytes × Option Bytes
  | [] => (none, none)
  | c :: p =>
    if c = 32 then retry p
    else if 32 ∈ untilNul (c :: p) then
      -- the blank that `strchr` has found is overwritten
      let ptr := 0 :: ((c :: p).dropWhile (· != 32)).tail
      (some ((c :: p).takeWhile (· != 32) ++ ptr), some ptr)
    else (if c = 0 then none else some (c :: p), none)

/-- What the two functions do with a string or NULL and the pointer of the last call. -/
def strsplit (s saved : Option Bytes) : Option Bytes × Option Bytes :=
  match s, saved with
  | some s, _ => retry s
  | none, none => (none, none)
  | none, some p => retry p.tail

/-- `audit_strsplit_r`: the caller keeps the pointer. -/
def auditStrsplitR (s savedpp : Option Bytes) : Option Bytes × Option Bytes := strsplit s savedpp

/-- `audit_strsplit`: the pointer is kept in `str`. -/
def auditStrsplit (s str : Option Bytes) : Option Bytes × Option Bytes := strsplit s str

/-- The strings that `n` calls return, the first one with `s` and the others with NULL. -/
def results (f : Option Bytes → Option Bytes → Option Bytes × Option Bytes) :
    Nat → Option Bytes → Option Bytes → List (Option Bytes)
  | 0, _, _ => []
  | n + 1, s, saved => (f s saved).1.map untilNul :: results f n none (f s saved).2

/-! ## The words -/

/-- The words that are left: those behind the byte that the pointer points at. -/
inductive Left : Option Bytes → List Bytes → Prop
  | ended : Left none []
  | behind (c : UInt8) {rest : Bytes} (h : 0 ∉ rest) : Left (some (c :: (rest ++ [0]))) (words 32 rest)

/-- The result is the first word, and the others are left. -/
def Splits (r : Option Bytes × Option Bytes) (ws : List Bytes) : Prop :=
  r.1.map untilNul = ws.head? ∧ Left r.2 ws.tail

theorem splits_retry {p : Bytes} (h : 0 ∉ p) : Splits (retry (p ++ [0])) (words 32 p) := by
  induction p with
  | nil => exact ⟨rfl, .ended⟩
  | cons c p ih =>
    have hnul : untilNul (c :: (p ++ [0])) = c :: p := untilNul_append_nul h []
    rw [cons_append, retry, hnul]
    split
    · rename_i hc
      rw [hc, words_cons_self]
      exact ih fun hmem => h (mem_cons_of_mem c hmem)
    · rename_i hc
      by_cases hmem : 32 ∈ c :: p
      · rw [if_pos hmem, ← cons_append]
        obtain ⟨w, rest, heq, hw⟩ := eq_append_cons_of_mem hmem
        have hne : w ≠ [] := by
          rintro rfl
          exact hc (List.cons.inj heq).1
        rw [heq] at h ⊢
        rw [mem_append, mem_cons, not_or, not_or] at h
        rw [append_assoc, cons_append, takeWhile_append_cons hw, dropWhile_append_cons hw,
          words_append_cons, words_of_notMem hw hne]
        exact ⟨congrArg some (untilNul_append_nul h.1 _), .behind 0 h.2.2⟩
      · have hzero : c ≠ 0 := fun hc => h (hc ▸ mem_cons_self)
        rw [if_neg hmem, if_neg hzero, words_of_notMem hmem (cons_ne_nil c p)]
        exact ⟨congrArg some hnul, .ended⟩

/-- One call with NULL. -/
theorem Left.splits {saved : Option Bytes} {ws : List Bytes} (h : Left saved ws) :
    Splits (strsplit none saved) ws := by
  cases h with
  | ended => exact ⟨rfl, .ended⟩
  | behind c h => exact splits_retry h

theorem map_range_succ (ws : List Bytes) (n : Nat) :
    (range (n + 1)).map (ws[·]?) = ws.head? :: (range n).map (ws.tail[·]?) := by
  rw [range_succ_eq_map, map_cons, map_map]
  cases ws <;> simp [Function.comp_def]

theorem Left.results {saved : Option Bytes} {ws : List Bytes} (h : Left saved ws) (n : Nat) :
    results strsplit n none saved = (range n).map (ws[·]?) := by
  induction n generalizing saved ws with
  | zero => rfl
  | succ n ih =>
    obtain ⟨hfirst, hleft⟩ := h.splits
    rw [Common.results, hfirst, ih hleft, map_range_succ]

theorem results_string (s : CString) (n : Nat) (saved : Option Bytes) :
    results strsplit n (some s.withNul) saved = (range n).map ((words 32 s.bytes)[·]?) := by
  cases n with
  | zero => rfl
  | succ n =>
    obtain ⟨hfirst, hleft⟩ := splits_retry s.nulFree
    rw [results, map_range_succ, ← hleft.results]
    exact congrArg (· :: _) hfirst

/-- **The results are the words of the string**, the longest runs without blanks, and NULL forever, for
both functions and whatever was kept before. -/
theorem strsplit_words (s : CString) (n : Nat) (str savedpp : Option Bytes) :
    results auditStrsplit n (some s.withNul) str = (range n).map ((words 32 s.bytes)[·]?) ∧
      results auditStrsplitR n (some s.withNul) savedpp =
        results auditStrsplit n (some s.withNul) str :=
  ⟨results_string s n str, (results_string s n savedpp).trans (results_string s n str).symm⟩

end LibAudit.Common
