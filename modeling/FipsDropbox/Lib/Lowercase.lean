import FipsDropbox.Lib.Strings

/-!
# Lower case

`str::to_lowercase`. The tables are those of a Unicode version; a capital sigma
becomes a final one at the end of a word.
-/
namespace FipsDropbox
open Utf8

/-- What a Unicode version says of a character; ASCII is the same in all of them. -/
structure CaseTables where
  lower : Char → Text
  cased : Char → Bool
  caseIgnorable : Char → Bool
  ascii : ∀ c : Char, c.toNat < 128 → lower c = [c.toLower]

namespace CaseTables
variable (U : CaseTables)

/-- `case_ignorable_then_cased`. -/
def caseIgnorableThenCased (t : Text) : Bool :=
  match t.dropWhile U.caseIgnorable with
  | [] => false
  | c :: _ => U.cased c

/-- `map_uppercase_sigma`, between what is before it, in reverse, and what is after. -/
def mapUppercaseSigma (before after : Text) : Char :=
  if U.caseIgnorableThenCased before && !U.caseIgnorableThenCased after then 'ς' else 'σ'

def lowercaseFrom : Text → Text → Text
  | _, [] => []
  | before, c :: t =>
      (if c = 'Σ' then [U.mapUppercaseSigma before t] else U.lower c) ++ lowercaseFrom (c :: before) t

def toLowercase (t : Text) : Text := U.lowercaseFrom [] t

end CaseTables

def CaseTables.ofAscii : CaseTables where
  lower c := [c.toLower]
  cased c := c.isAlpha
  caseIgnorable c := c.toNat ∈ [0x27, 0x2E, 0x3A, 0x5E, 0x60]
  ascii _ _ := rfl

end FipsDropbox
