/-!
Blank characters, trimming, and the words of a text.

`isBlank` is the Unicode property `White_Space`. A word is a longest run of characters that are not
blank; `words` lists them in order.
-/

namespace StorageSlots.Text

/-- The ranges of the property `White_Space`, first and last code point. -/
def blankRanges : List (Nat × Nat) :=
  [(0x09, 0x0D), (0x20, 0x20), (0x85, 0x85), (0xA0, 0xA0), (0x1680, 0x1680), (0x2000, 0x200A),
    (0x2028, 0x2029), (0x202F, 0x202F), (0x205F, 0x205F), (0x3000, 0x3000)]

def isBlank (c : Char) : Bool :=
  blankRanges.any fun r => r.1 ≤ c.toNat && c.toNat ≤ r.2

def trim (cs : List Char) : List Char :=
  ((cs.dropWhile isBlank).reverse.dropWhile isBlank).reverse

/-- Splits at blanks; `word` holds the word under way, last character first. -/
def wordsFrom (word : List Char) : List Char → List (List Char)
  | [] => if word.isEmpty then [] else [word.reverse]
  | c :: cs =>
    if isBlank c then
      if word.isEmpty then wordsFrom [] cs else word.reverse :: wordsFrom [] cs
    else wordsFrom (c :: word) cs

def words (cs : List Char) : List (List Char) :=
  wordsFrom [] cs

theorem isBlank_space : isBlank ' ' = true := by decide

theorem trim_nil : trim [] = [] := rfl

theorem words_nil : words [] = [] := rfl

end StorageSlots.Text
