import MarkupGraft.Text.Blank

/-!
Tables of characters. A class of characters is a list of ranges of code points. A table of texts is
written as words: each is the code points of a text in hexadecimal, joined by plus signs. A word
belongs to the character behind that of the word before it, or to the one whose code point and an
equals sign stand in front.
-/

namespace MarkupGraft.Text

def inRanges (ranges : List (Nat × Nat)) (c : Char) : Bool :=
  ranges.any fun range => range.1 ≤ c.toNat && c.toNat ≤ range.2

/-- The number that capital hexadecimal digits write. -/
def hexadecimal (digits : List Char) : Nat :=
  digits.foldl (fun n c => 16 * n + if c.isDigit then c.toNat - 48 else c.toNat - 55) 0

/-- The text whose code points are joined by plus signs. -/
def charsOfCodes (codes : List Char) : List Char :=
  (codes.splitOnP (· = '+')).map fun digits => Char.ofNat (hexadecimal digits)

/-- Texts by code point. -/
abbrev CharTable := List (Nat × List Char)

namespace CharTable

/-- Reads one more word of a table that is read backwards. -/
def addWord (table : CharTable) (word : List Char) : CharTable :=
  match word.splitOnP (· = '='), table with
  | [code, codes], _ => (hexadecimal code, charsOfCodes codes) :: table
  | _, (code, _) :: _ => (code + 1, charsOfCodes word) :: table
  | _, [] => []

def read (text : String) : CharTable :=
  let words := (text.toList.splitOnP isMarkupBlank).filter (!·.isEmpty)
  (words.foldl addWord []).reverse

end CharTable
end MarkupGraft.Text
