/-!
White space. Markup counts four ASCII characters as blank; texts written by people are trimmed and
split at the Unicode property White_Space.
-/

namespace MarkupGraft.Text

/-- The Unicode property White_Space. -/
def isBlank (c : Char) : Bool :=
  (0x09 ≤ c.toNat && c.toNat ≤ 0x0D) || c.toNat = 0x20 || c.toNat = 0x85 || c.toNat = 0xA0 ||
  c.toNat = 0x1680 || (0x2000 ≤ c.toNat && c.toNat ≤ 0x200A) || c.toNat = 0x2028 ||
  c.toNat = 0x2029 || c.toNat = 0x202F || c.toNat = 0x205F || c.toNat = 0x3000

/-- Space, tab, carriage return and line feed. -/
def isMarkupBlank (c : Char) : Bool :=
  c = ' ' || c = '\t' || c = '\r' || c = '\n'

theorem isBlank_of_isMarkupBlank {c : Char} (h : isMarkupBlank c) : isBlank c := by
  simp only [isMarkupBlank, Bool.or_eq_true, decide_eq_true_eq] at h
  rcases h with ((rfl | rfl) | rfl) | rfl <;> rfl

/-- A byte that encodes a markup blank. -/
def isBlankByte (b : UInt8) : Bool :=
  b = 0x20 || b = 0x09 || b = 0x0D || b = 0x0A

section Trimming
variable {α : Type}

def dropEndWhile (p : α → Bool) (l : List α) : List α :=
  (l.reverse.dropWhile p).reverse

def trimWhile (p : α → Bool) (l : List α) : List α :=
  dropEndWhile p (l.dropWhile p)

end Trimming

/-- The text without leading and trailing white space. -/
def trim (text : String) : String :=
  String.ofList (trimWhile isBlank text.toList)

/-- The maximal runs of characters that are not white space. -/
def words (text : String) : List String :=
  ((text.toList.splitOnP isBlank).filter (!·.isEmpty)).map String.ofList

end MarkupGraft.Text
