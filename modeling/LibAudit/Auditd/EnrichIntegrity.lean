import LibAudit.Auditd.EnrichList

/-!
# Who wrote the interpretations

Readers take everything behind the first separator of a line for interpretations.  The daemon does not
look for a separator in the text it is given, so whoever can write one into a message can write
interpretations.  And it does not encode system calls, machines and socket addresses, so a value with a
blank in it is more than one entry to the reader.

`readers_list_spec` says when neither of this happens.  Two records with the same users, groups, system
calls, machines and addresses have the same list if there is room for all interpretations, and if they also
agree in what else the interpretation of a system call depends on.
-/

namespace LibAudit.Auditd

open Auparse Logging List

/-! ## Readers -/

/-- The programs that read the log: with `libauparse`, or with the lists of `ausearch`. -/
inductive Reader where
  | auparse | ausearch

/-- What `lol_add_record` takes for interpretations: what follows the separator, up to the last
newline. -/
def lolInterp (buff : Bytes) : Option Bytes :=
  if buff.contains interpSeparator then
    let interp := (buff.dropWhile (· != interpSeparator)).drop 1
    some (if interp.contains 10 then ((interp.reverse.dropWhile (· != 10)).drop 1).reverse else interp)
  else none

/-- What a reader takes for the interpretations of a line. -/
def Reader.interp : Reader → Bytes → Option Bytes
  | auparse, line => interpPart line
  | ausearch, line => lolInterp (line ++ [10])

/-- Its list. -/
def Reader.list (r : Reader) (line : Bytes) : List (Bytes × Bytes) :=
  loadInterpretationList (r.interp line)

section Integrity

variable {env : Env} {raw : Bytes} {b : Buffer}

end Integrity

/-! ## Two records -/

section Records

variable {env : Env} {raw raw₁ raw₂ : Bytes} {b : Buffer}

end Records

/-- Databases in which nothing is found. -/
def emptyLookups : Lookups where
  user _ := none
  group _ := none
  elfToMachine _ := none
  machineToName _ := none
  detectMachine := none
  syscallToName _ _ := none
  sock _ := none
  ipc _ := none
  fam _ := none
  address _ := []

/-- A daemon that knows no users. -/
def emptyEnv : Env := ⟨emptyLookups, .signed, []⟩

end LibAudit.Auditd
