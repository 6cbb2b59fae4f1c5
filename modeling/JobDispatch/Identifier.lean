import JobDispatch.Text.Digits

/-!
# Identifiers

Jobs, projects and workers are named by 128-bit UUIDs, ordered as numbers. A UUID is read from its
hyphenated text, from 32 digits alone, from the hyphenated text in braces or after `urn:uuid:`, all
in either case, and written hyphenated in lower case.
-/

namespace JobDispatch

structure Uuid where
  bits : BitVec 128
deriving DecidableEq, Inhabited

namespace Uuid

def toNat (u : Uuid) : Nat := u.bits.toNat

def ofNat (n : Nat) : Uuid := ⟨BitVec.ofNat 128 n⟩

theorem eq_of_toNat_eq {a b : Uuid} (h : a.toNat = b.toNat) : a = b := by
  cases a; cases b
  exact congrArg Uuid.mk (BitVec.eq_of_toNat_eq h)

/-- The digits of a UUID, the highest first. -/
def digits (u : Uuid) : List Char :=
  (List.range 32).map fun i => Text.hexDigit ((u.toNat >>> (4 * (31 - i))) % 16)

/-- Numbers of digits in the groups of the hyphenated text. -/
def groups : List Nat := [8, 4, 4, 4, 12]

/-- Cuts digits into groups with hyphens between them. -/
def hyphenate : List Nat → List Char → List Char
  | [], _ => []
  | [_], cs => cs
  | n :: ns, cs => cs.take n ++ '-' :: hyphenate ns (cs.drop n)

/-- Takes the hyphens out of grouped text; `none` if one is not in its place. -/
def unhyphenate? : List Nat → List Char → Option (List Char)
  | [], _ => none
  | [n], cs => if cs.length = n then some cs else none
  | n :: ns, cs =>
    match cs.drop n with
    | '-' :: rest => (unhyphenate? ns rest).map (cs.take n ++ ·)
    | _ => none

def text (u : Uuid) : String := String.ofList (hyphenate groups u.digits)

def ofDigits? (cs : List Char) : Option Uuid :=
  (cs.mapM Text.hexValue?).map fun vs => ofNat (vs.foldl (fun n v => 16 * n + v) 0)

def ofHyphenated? (cs : List Char) : Option Uuid := (unhyphenate? groups cs).bind ofDigits?

def urnPrefix : List Char := "urn:uuid:".toList

def parse? (input : String) : Option Uuid :=
  let cs := input.toList
  if cs.length = 32 then ofDigits? cs
  else if cs.length = 36 then ofHyphenated? cs
  else if cs.length = 38 then
    if cs.head? = some '\x7b' ∧ cs.getLast? = some '\x7d' then
      ofHyphenated? (cs.drop 1).dropLast
    else none
  else if cs.length = 45 then
    if (cs.take 9).map Char.toLower = urnPrefix then ofHyphenated? (cs.drop 9) else none
  else none

end Uuid

structure JobId where
  uuid : Uuid
deriving DecidableEq, Inhabited

structure ProjectId where
  uuid : Uuid
deriving DecidableEq, Inhabited

structure WorkerId where
  uuid : Uuid
deriving DecidableEq, Inhabited

def JobId.text (id : JobId) : String := id.uuid.text

def ProjectId.text (id : ProjectId) : String := id.uuid.text

def WorkerId.text (id : WorkerId) : String := id.uuid.text

instance : LT ProjectId := ⟨fun a b => a.uuid.toNat < b.uuid.toNat⟩

instance (a b : ProjectId) : Decidable (a < b) :=
  inferInstanceAs (Decidable (a.uuid.toNat < b.uuid.toNat))

instance : Trans (fun a b : ProjectId => a < b) (fun a b : ProjectId => a < b)
    (fun a b : ProjectId => a < b) := ⟨fun h k => Nat.lt_trans h k⟩

/-- The order of identifiers as a test, for sorting. -/
def JobId.atMost (a b : JobId) : Bool := a.uuid.toNat ≤ b.uuid.toNat

def ProjectId.atMost (a b : ProjectId) : Bool := a.uuid.toNat ≤ b.uuid.toNat

def WorkerId.atMost (a b : WorkerId) : Bool := a.uuid.toNat ≤ b.uuid.toNat

end JobDispatch
