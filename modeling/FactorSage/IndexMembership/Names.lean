import Mathlib.Algebra.Order.Ring.Rat
import Mathlib.Data.List.Dedup
import Mathlib.Tactic.NormNum

/-!
# Issuer names

How alike two issuer names are: the better of a word-level and a character-level Dice coefficient
over their identifying words. A map of counts is the list it counts; a score is the exact fraction
the source divides.
-/

namespace FactorSage.IndexMembership

/-- Words that say what kind of entity an issuer is rather than which one it is. -/
def STOP_WORDS : List String :=
  ["a", "ag", "and", "b", "c", "cl", "class", "co", "com", "common", "companies", "company", "corp",
    "corporation", "de", "delisted", "group", "hldgs", "holding", "holdings", "inc", "incorporated",
    "int", "intl", "l", "llc", "lp", "ltd", "limited", "n", "new", "nv", "of", "old", "ordinary",
    "plc", "sa", "se", "shares", "stock", "the", "trust", "v"]

/-- `toLowerCase`, as far as Latin letters come out of it: beside the capitals those are the Kelvin
sign and the dotted capital I, which leaves its dot behind. -/
def toLowerCase (c : Char) : List Char :=
  if c.toNat = 0x212A then ['k']
  else if c.toNat = 0x130 then ['i', Char.ofNat 0x307]
  else [c.toLower]

/-- `[a-z0-9]`. -/
def isNameCharacter (c : Char) : Bool := c.isLower || c.isDigit

/-- The identifying words of an issuer name, lower-cased, without punctuation or entity words. -/
def issuerNameTokens (name : Option String) : List String :=
  let letters := (name.getD "").toList.flatMap toLowerCase
  let spelled := letters.flatMap fun c => if c = '&' then " and ".toList else [c]
  let words := (spelled.splitBy fun a b => isNameCharacter a && isNameCharacter b).filter
    fun word => word.all isNameCharacter
  (words.map String.ofList).filter fun token => token ∉ STOP_WORDS

/-- The pairs of neighbouring characters. -/
def bigrams (value : List Char) : List (Char × Char) := value.zip value.tail

section Dice

variable {T : Type} [DecidableEq T]

/-- What two counted lists share. -/
def sharedCount (left right : List T) : ℕ :=
  (left.dedup.map fun key => min (left.count key) (right.count key)).sum

def dice (left right : List T) : ℚ :=
  if left.length + right.length = 0 then 0
  else 2 * sharedCount left right / (left.length + right.length)

end Dice

/-- How alike two issuer names are, from 0 to 1. -/
def issuerNameSimilarity (left right : Option String) : ℚ :=
  let leftTokens := issuerNameTokens left
  let rightTokens := issuerNameTokens right
  if leftTokens = [] ∨ rightTokens = [] then 0
  else
    max (dice leftTokens rightTokens)
      (dice (bigrams (" ".intercalate leftTokens).toList)
        (bigrams (" ".intercalate rightTokens).toList))

end FactorSage.IndexMembership
