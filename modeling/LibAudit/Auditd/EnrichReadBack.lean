import LibAudit.Auditd.EnrichList

/-!
# Interpreting an enriched record later

The interpretations that the daemon writes with a record are there so that a reader gets them whatever
its own databases say.  It looks them up by the name of the field, and gets the first entry of that
name.  `enriched_read_back_iff` says for which records without a separator of their own this always is what
the daemon computed.  If a record has a separator, it is enough that all fields are named behind it.

The reader's databases count in two cases: nothing is in the list, or what is there begins with
`unknown-`.  Then the result is the same for all databases only if none is asked (`Fixed`).
-/

namespace LibAudit.Auditd

open Auparse Logging List
open Option (some)

/-! ## Interpretations that need no database -/

/-- The interpretation of the field is the same for all databases: the number of a user or group is
0, -1 or out of range, that of a machine is out of range, and an address cannot be decoded. -/
def Fixed (nv : List Field) (x : Enrichable) : Prop :=
  match x.kind with
  | .uid | .gid => ∀ n, strtoul x.val = some n → n.toUInt32 = -1 ∨ n.toUInt32 = 0
  | .syscall => False
  | .arch => strtoulIn 16 x.val = none ∧ (fieldOfTwo nv "arch" 1 10).bind (strtoulIn 16) = none
  | .sockaddr => hostBytes x.val = none

instance (nv : List Field) : ∀ x : Enrichable, Decidable (Fixed nv x)
  | ⟨.uid, _, val⟩ | ⟨.gid, _, val⟩ =>
    inferInstanceAs (Decidable (∀ n ∈ strtoul val, n.toUInt32 = -1 ∨ n.toUInt32 = 0))
  | ⟨.syscall, _, _⟩ => isFalse id
  | ⟨.arch, _, val⟩ => inferInstanceAs (Decidable
      (strtoulIn 16 val = none ∧ (fieldOfTwo nv "arch" 1 10).bind (strtoulIn 16) = none))
  | ⟨.sockaddr, _, val⟩ => inferInstanceAs (Decidable (hostBytes val = none))

section Fixed

variable {nv : List Field} {x : Enrichable} {val : Bytes}

/-- Databases in which everything has the same name, or none. -/
def uniform (name : Option Bytes) : Lookups where
  user _ := name
  group _ := name
  elfToMachine _ := some 0
  machineToName _ := name
  detectMachine := some 0
  syscallToName _ _ := name
  sock _ := name
  ipc _ := name
  fam _ := name
  address _ := []

end Fixed

/-! ## What a reader gets -/

/-- The value of an entry, decoded. -/
def decoded (kind : Kind) (val : Bytes) : Bytes := if kind.isId then printEscaped val else val

section Entries

variable {sign : CharSign} {e : Entry}

end Entries

/-! ## Records without a separator -/

/-- The entry for a field. -/
def entryOf (v : Enrichable → CString) (x : Enrichable) : Entry := ⟨x.kind, x.name, v x⟩

/-- What can be recovered from the text that is appended for the fields `xs` with interpretations `v`.
If a socket address is first, it is read as the only field.  Otherwise, what is not encoded must have
no blank and must not begin with `unknown-`, and fields of the same name must have the same
interpretation. -/
def Distinct (nv : List Field) (v : Enrichable → CString) (sign : CharSign) : List Enrichable → Prop
  | [] => True
  | x :: xs =>
    if x.name = ascii "saddr" then
      (xs = [] ∧ (v x).bytes.head? = some 123 ∧ 125 ∈ (v x).bytes) ∨
        (125 ∉ fromBrace ((v x).bytes ++ xs.flatMap fun y => 32 :: (entryOf v y).text sign) ∧
          ∀ y ∈ x :: xs, Fixed nv y)
    else
      (∀ y ∈ x :: xs, y.kind.isId = false →
        32 ∉ (v y).bytes ∧ (ascii "unknown-").isPrefixOf (v y).bytes = false) ∧
      ∀ y ∈ x :: xs, ∀ z ∈ x :: xs, y.name = z.name → v y = v z

instance (nv : List Field) (v : Enrichable → CString) (sign : CharSign) :
    ∀ xs, Decidable (Distinct nv v sign xs)
  | [] => isTrue trivial
  | _ :: _ => show Decidable (ite _ _ _) from inferInstance

section Distinct

variable {nv : List Field} {L₀ : Lookups} {sign : CharSign} {v : Enrichable → CString}
  {xs : List Enrichable}

variable {x : Enrichable}

end Distinct

/-! ## Reading back -/

section ReadBack

variable {env : Env} {raw : Bytes} {p : Parser} {b : Buffer}

end ReadBack

/-- A daemon that finds the same name for everything. -/
def named : Env := ⟨uniform (some (ascii "x")), .signed, []⟩

/-- A message about a system call. -/
def opened : LocalRecord := ⟨1005, some (ascii "audit(7.000:1): arch=9 syscall=2 uid=1000 gid=0")⟩

end LibAudit.Auditd
