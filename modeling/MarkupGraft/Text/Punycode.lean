/-!
Text in ASCII letters, digits and hyphens alone. The characters of ASCII come first; the others
follow in increasing order, each as the number of steps from the one before it, where a step goes to
the next place in the text or, behind the last place, to the next character.
-/

namespace MarkupGraft.Text.Punycode

/-- The digits are the letters and then the decimal digits. -/
def digit (n : Nat) : Char := Char.ofNat (if n < 26 then 97 + n else 22 + n)

/-- The least value of a digit that is not the last one of its number. -/
def threshold (bias position : Nat) : Nat :=
  if position ≤ bias then 1 else min 26 (position - bias)

theorem threshold_pos (bias position : Nat) : 0 < threshold bias position := by
  unfold threshold
  split <;> omega

/-- A number with its lowest digit first. -/
def number (bias position n : Nat) : List Char :=
  let t := threshold bias position
  if n < t then [digit n]
  else digit (t + (n - t) % (36 - t)) :: number bias (position + 36) ((n - t) / (36 - t))
termination_by n
decreasing_by
  have := threshold_pos bias position
  have := Nat.div_le_self (n - threshold bias position) (36 - threshold bias position)
  omega

private def scale (position delta : Nat) : Nat :=
  if 455 < delta then scale (position + 36) (delta / 35)
  else position + 36 * delta / (delta + 38)
termination_by delta

/-- The bias for the next number, fitted to the one before it. -/
def adapt (isFirst : Bool) (written delta : Nat) : Nat :=
  let delta := delta / if isFirst then 700 else 2
  scale 0 (delta + delta / written)

structure Writing where
  /-- How many characters are written. -/
  written : Nat
  delta : Nat := 0
  bias : Nat := 72
  output : List Char := []

/-- Goes past one place of the text while the occurrences of `wanted` are written. -/
def Writing.step (basic wanted : Nat) (w : Writing) (c : Char) : Writing :=
  if c.toNat < wanted then { w with delta := w.delta + 1 }
  else if c.toNat = wanted then
    { written := w.written + 1
      delta := 0
      bias := adapt (w.written = basic) (w.written + 1) w.delta
      output := w.output ++ number w.bias 36 w.delta }
  else w

/-- Writes the occurrences of the characters in `wanted`, which increase from `next` on. -/
def Writing.run (basic : Nat) (text : List Char) (w : Writing) (next : Nat) : List Nat → Writing
  | [] => w
  | c :: wanted =>
    let w := { w with delta := w.delta + (c - next) * (w.written + 1) }
    let w := text.foldl (step basic c) w
    { w with delta := w.delta + 1 }.run basic text (c + 1) wanted

def isBasic (c : Char) : Bool := c.toNat < 0x80

def encode (text : List Char) : List Char :=
  let basic := text.filter isBasic
  let wanted := ((text.filter (!isBasic ·)).map Char.toNat).mergeSort.eraseReps
  let written := Writing.run basic.length text { written := basic.length } 0x80 wanted
  (if basic.isEmpty then [] else basic ++ ['-']) ++ written.output

/-! Reading -/

/-- Numbers that are as large as this or larger are not read. -/
def tooLarge : Nat := 0x100000000

def digitValue? (c : Char) : Option Nat :=
  let c := c.toLower
  if 'a' ≤ c ∧ c ≤ 'z' then some (c.toNat - 97)
  else if c.isDigit then some (c.toNat - 22)
  else none

/-- Adds a number to `sum`, where a digit counts `weight` times. -/
def readNumber? (bias position weight sum : Nat) : List Char → Option (Nat × List Char)
  | [] => none
  | c :: rest => do
    let d ← digitValue? c
    let t := threshold bias position
    let sum := sum + d * weight
    if tooLarge ≤ sum then none
    else if d < t then some (sum, rest)
    else if tooLarge ≤ weight * (36 - t) then none
    else readNumber? bias (position + 36) (weight * (36 - t)) sum rest

theorem length_of_readNumber? {bias position weight sum total : Nat} {text rest : List Char}
    (h : readNumber? bias position weight sum text = some (total, rest)) :
    rest.length < text.length := by
  induction text generalizing position weight sum with
  | nil => simp [readNumber?] at h
  | cons c text ih =>
    simp only [readNumber?, Option.bind_eq_bind, Option.bind_eq_some_iff] at h
    obtain ⟨d, _, h⟩ := h
    split at h
    · simp at h
    · split at h
      · simp_all
      · split at h
        · simp at h
        · have := ih h
          simp only [List.length_cons]
          omega

/-- Inserts further characters into a text. The last one was `last`, and `place` is behind it. -/
def insertAll? (text : List Char) (last place bias : Nat) (code : List Char) :
    Option (List Char) :=
  if code.isEmpty then some text
  else
    match _h : readNumber? bias 36 1 place code with
    | none => none
    | some (sum, rest) =>
      let size := text.length + 1
      let n := last + sum / size
      if n.isValidChar then
        insertAll? (text.insertIdx (sum % size) (Char.ofNat n)) n (sum % size + 1)
          (adapt (place = 0) size (sum - place)) rest
      else none
termination_by code.length
decreasing_by exact length_of_readNumber? ‹_›

/-- Reads what `encode` writes. The last hyphen that has something before it ends the characters of
ASCII. -/
def decode? (code : List Char) : Option (List Char) :=
  let steps := (code.reverse.takeWhile (· ≠ '-')).reverse
  let basic := code.take (code.length - steps.length - 1)
  insertAll? basic 0x80 0 72 (if basic.isEmpty then code else steps)

end MarkupGraft.Text.Punycode
