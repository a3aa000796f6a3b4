import Mathlib.Data.List.Infix
import Mathlib.Data.List.DropRight
import Mathlib.Data.List.TakeWhile
import MarkupGraft.Query.Grammar

/-!
The words of the query language: marks, names, numerals and quotations. Each is told by what it
takes from the input and by what may not follow, so that it is the longest that can be read, and the
reader of each finds just these.
-/

namespace MarkupGraft.Query

open Reader

/-! Blanks -/

theorem skipBlank_cons {c : Char} {input : List Char} (h : ¬Text.isMarkupBlank c) :
    skipBlank (c :: input) = c :: input := by
  rw [skipBlank, List.dropWhile_cons_of_neg h]

@[simp] theorem skipBlank_skipBlank (input : List Char) :
    skipBlank (skipBlank input) = skipBlank input := List.dropWhile_idempotent _ input

theorem skipBlank_suffix (input : List Char) : skipBlank input <:+ input := List.dropWhile_suffix _

/-! What is taken -/

/-- At least `n` characters are taken from the front of the input. -/
def Takes (n : Nat) (input rest : List Char) : Prop :=
  ∃ taken, input = taken ++ rest ∧ n ≤ taken.length

namespace Takes
variable {m n : Nat} {input mid rest : List Char}

theorem refl (input : List Char) : Takes 0 input input := ⟨[], rfl, Nat.le_refl 0⟩

theorem of_eq (h : input = rest) : Takes 0 input rest := h ▸ .refl input

theorem cons (c : Char) (rest : List Char) : Takes 1 (c :: rest) rest :=
  ⟨[c], rfl, Nat.le_refl 1⟩

theorem trans (h : Takes m input mid) (k : Takes n mid rest) : Takes (m + n) input rest := by
  obtain ⟨first, rfl, hm⟩ := h
  obtain ⟨second, rfl, hn⟩ := k
  exact ⟨first ++ second, (List.append_assoc _ _ _).symm, by rw [List.length_append]; omega⟩

theorem mono (hle : m ≤ n) (h : Takes n input rest) : Takes m input rest := by
  obtain ⟨taken, he, hn⟩ := h
  exact ⟨taken, he, Nat.le_trans hle hn⟩

theorem suffix (h : Takes n input rest) : rest <:+ input := by
  obtain ⟨taken, he, -⟩ := h
  exact ⟨taken, he.symm⟩

theorem length_le (h : Takes n input rest) : rest.length + n ≤ input.length := by
  obtain ⟨taken, rfl, hn⟩ := h
  rw [List.length_append]
  omega

end Takes

theorem takes_skipBlank (input : List Char) : Takes 0 input (skipBlank input) := by
  obtain ⟨taken, he⟩ := skipBlank_suffix input
  exact ⟨taken, he.symm, Nat.zero_le _⟩

theorem takes_of_skipBlank {c : Char} {input inner : List Char} (h : skipBlank input = c :: inner) :
    Takes 1 input inner := by
  have hblank := takes_skipBlank input
  rw [h] at hblank
  exact hblank.trans (.cons c inner)

/-! Marks -/

theorem mark_eq_some_iff {text : String} {input rest : List Char} :
    mark text input = some ((), rest) ↔ input = text.toList ++ rest := by
  rw [mark, Option.map_eq_some_iff]
  constructor
  · rintro ⟨a, ha, he⟩
    cases he
    exact (List.isPrefixOf?_eq_some_iff_append_eq.mp ha).symm
  · rintro rfl
    exact ⟨rest, List.isPrefixOf?_eq_some_iff_append_eq.mpr rfl, rfl⟩

/-- One of some marks, with its meaning, begins the input, and no longer one does. -/
structure Longest {α : Type} (marks : List (String × α)) (text : String) (a : α)
    (input rest : List Char) : Prop where
  mem : (text, a) ∈ marks
  eq : input = text.toList ++ rest
  longest : ∀ m ∈ marks, m.1.toList <+: input → m.1.toList.length ≤ text.toList.length

/-- A longer mark stands before its beginnings. -/
def Ordered {α : Type} (marks : List (String × α)) : Prop :=
  marks.Pairwise fun a b => ¬a.1.toList <+: b.1.toList

instance {α : Type} (marks : List (String × α)) : Decidable (Ordered marks) :=
  inferInstanceAs (Decidable (marks.Pairwise _))

theorem oneOf_nil {α : Type} (input : List Char) : oneOf ([] : List (String × α)) input = none := rfl

theorem oneOf_cons {α : Type} (text : String) (a : α) (marks : List (String × α))
    (input : List Char) : oneOf ((text, a) :: marks) input =
      ((mark text input).map fun (_, rest) => (a, rest)).or (oneOf marks input) := by
  simp only [oneOf, List.findSome?_cons]
  cases mark text input <;> rfl

theorem mark_eq_none_iff {text : String} {input : List Char} :
    mark text input = none ↔ ¬text.toList <+: input := by
  rw [Option.eq_none_iff_forall_ne_some]
  exact ⟨fun h ⟨rest, he⟩ => h ((), rest) (mark_eq_some_iff.mpr he.symm),
    fun h (_, rest) he => h ⟨rest, (mark_eq_some_iff.mp he).symm⟩⟩

theorem oneOf_eq_none_iff {α : Type} {marks : List (String × α)} {input : List Char} :
    oneOf marks input = none ↔ ∀ m ∈ marks, ¬m.1.toList <+: input := by
  induction marks with
  | nil => simp [oneOf_nil]
  | cons m marks ih =>
    rw [oneOf_cons, Option.or_eq_none_iff, Option.map_eq_none_iff, mark_eq_none_iff, ih,
      List.forall_mem_cons]

/-- Of ordered marks the first that begins the input is the longest one. -/
theorem oneOf_eq_some_iff {α : Type} {marks : List (String × α)} (h : Ordered marks)
    {input rest : List Char} {a : α} :
    oneOf marks input = some (a, rest) ↔ ∃ text, Longest marks text a input rest := by
  induction marks with
  | nil => exact ⟨fun h => (by cases h), fun ⟨_, h⟩ => (by cases h.mem)⟩
  | cons m marks ih =>
    obtain ⟨text, b⟩ := m
    obtain ⟨hfirst, hmarks⟩ := List.pairwise_cons.mp h
    rw [oneOf_cons]
    by_cases hm : text.toList <+: input
    · obtain ⟨behind, rfl⟩ := hm
      rw [mark_eq_some_iff.mpr rfl, Option.map_some, Option.some_or, Option.some.injEq,
        Prod.mk.injEq]
      constructor
      · rintro ⟨rfl, rfl⟩
        refine ⟨text, List.mem_cons_self, rfl, List.forall_mem_cons.mpr ⟨fun _ => Nat.le_refl _,
          fun m hm hp => ?_⟩⟩
        -- A longer mark would begin with this one and so stand before it.
        by_contra hl
        exact hfirst m hm (List.prefix_of_prefix_length_le (List.prefix_append _ _) hp
          (Nat.le_of_not_le hl))
      · rintro ⟨other, hmem, heq, hlongest⟩
        rcases List.mem_cons.mp hmem with he | hmem
        · cases he
          exact ⟨rfl, List.append_cancel_left heq⟩
        · refine absurd ?_ (hfirst _ hmem)
          exact List.prefix_of_prefix_length_le (List.prefix_append _ _) ⟨rest, heq.symm⟩
            (hlongest _ List.mem_cons_self (List.prefix_append _ _))
    · rw [mark_eq_none_iff.mpr hm, Option.map_none, Option.none_or, ih hmarks]
      refine exists_congr fun other => ⟨fun ⟨hmem, heq, hlongest⟩ => ?_,
        fun ⟨hmem, heq, hlongest⟩ => ?_⟩
      · exact ⟨List.mem_cons_of_mem _ hmem, heq,
          List.forall_mem_cons.mpr ⟨fun hp => absurd hp hm, hlongest⟩⟩
      · refine ⟨(List.mem_cons.mp hmem).resolve_left ?_, heq, (List.forall_mem_cons.mp hlongest).2⟩
        rintro he
        cases he
        exact hm ⟨rest, heq.symm⟩

/-- A mark is told by itself where a character that no mark has stands behind it. -/
theorem Longest.of_mem {α : Type} {marks : List (String × α)} {c : Char}
    (hc : ∀ m ∈ marks, c ∉ m.1.toList) {text : String} {a : α} {behind : List Char}
    (h : (text, a) ∈ marks) : Longest marks text a (text.toList ++ c :: behind) (c :: behind) := by
  refine ⟨h, rfl, fun m hm hp => Nat.le_of_not_lt fun hl => hc m hm ?_⟩
  refine List.mem_iff_getElem.mpr ⟨text.toList.length, hl, ?_⟩
  rw [hp.getElem hl]
  simp

theorem exists_cons_of_head? {c : Char} {text behind : List Char} (hc : c ∈ text.head?) :
    ∃ more, text ++ behind = c :: more := by
  obtain ⟨more, rfl⟩ := List.head?_eq_some_iff.mp hc
  exact ⟨more ++ behind, rfl⟩

/-- What all marks begin with, the input begins with. -/
theorem Longest.exists_cons {α : Type} {marks : List (String × α)} {p : Char → Bool}
    (hp : ∀ m ∈ marks, m.1.toList.head?.any p) {text : String} {a : α} {input rest : List Char}
    (h : Longest marks text a input rest) : ∃ c more, input = c :: more ∧ p c := by
  obtain ⟨c, hc, hpc⟩ := (Option.any_eq_true _ _).mp (hp _ h.mem)
  obtain ⟨more, hmore⟩ := exists_cons_of_head? hc
  exact ⟨c, more, h.eq.trans hmore, hpc⟩

theorem Longest.takes {α : Type} {marks : List (String × α)} {text : String} {a : α}
    {input rest : List Char} (h : Longest marks text a input rest) :
    Takes text.toList.length input rest := ⟨_, h.eq, Nat.le_refl _⟩

theorem Longest.takes_one {α : Type} {marks : List (String × α)}
    (hfilled : ∀ m ∈ marks, 1 ≤ m.1.toList.length) {text : String} {a : α} {input rest : List Char}
    (h : Longest marks text a input rest) : Takes 1 input rest := h.takes.mono (hfilled _ h.mem)

/-! Runs -/

/-- All characters that satisfy `p` at the beginning of the input. -/
structure Run (p : Char → Bool) (taken input rest : List Char) : Prop where
  eq : input = taken ++ rest
  all : ∀ c ∈ taken, p c
  longest : ∀ c ∈ rest.head?, ¬p c

theorem Run.takeWhile_eq {p : Char → Bool} {taken input rest : List Char}
    (h : Run p taken input rest) : input.takeWhile p = taken := by
  obtain ⟨rfl, hall, hlongest⟩ := h
  rw [List.takeWhile_append_of_pos hall]
  cases rest with
  | nil => simp
  | cons c rest => simp [hlongest c rfl]

theorem Run.drop_eq {p : Char → Bool} {taken input rest : List Char}
    (h : Run p taken input rest) : input.drop taken.length = rest := by
  rw [h.eq, List.drop_left]

theorem run_takeWhile (p : Char → Bool) (input : List Char) :
    Run p (input.takeWhile p) input (input.drop (input.takeWhile p).length) := by
  have hdrop : input.drop (input.takeWhile p).length = input.dropWhile p :=
    List.append_cancel_left <| (List.prefix_iff_eq_append.mp (List.takeWhile_prefix p)).trans
      List.takeWhile_append_dropWhile.symm
  rw [hdrop]
  refine ⟨List.takeWhile_append_dropWhile.symm, fun c hc => List.mem_takeWhile_imp hc,
    fun c hc => ?_⟩
  rw [Option.mem_def] at hc
  have := List.head?_dropWhile_not p input
  rw [hc] at this
  simpa using this

/-! Names -/

/-- A name without a colon: a run of name characters, the first of which can begin a name. -/
structure Word (word input rest : List Char) : Prop where
  run : Run isNameCharacter word input rest
  start : ∃ c ∈ word.head?, isNameStart c

theorem isNameCharacter_of_isNameStart {c : Char} (h : isNameStart c) : isNameCharacter c := by
  unfold isNameStart Text.isAlphabetic at h
  unfold isNameCharacter Text.isAlphanumeric Char.isAlphanum
  grind

theorem isDigit_iff {c : Char} : c.isDigit ↔ 48 ≤ c.toNat ∧ c.toNat ≤ 57 := by
  simp [Char.isDigit, UInt32.le_iff_toNat_le, ← Char.toNat_val]

theorem isAlpha_iff {c : Char} :
    c.isAlpha ↔ 65 ≤ c.toNat ∧ c.toNat ≤ 90 ∨ 97 ≤ c.toNat ∧ c.toNat ≤ 122 := by
  have h : c.isAlpha = (decide (c.val ≥ 65 ∧ c.val ≤ 90) ||
    (decide (c.val ≥ 97) && decide (c.val ≤ 122))) := rfl
  simp [h, UInt32.le_iff_toNat_le, ← Char.toNat_val]

theorem not_isDigit_of_isNameStart {c : Char} (h : isNameStart c) : ¬c.isDigit := by
  intro hd
  obtain ⟨hlow, hhigh⟩ := isDigit_iff.mp hd
  rw [isNameStart, Text.isAlphabetic, if_pos (by omega), Bool.or_eq_true, isAlpha_iff,
    decide_eq_true_eq] at h
  rcases h with h | rfl
  · omega
  · exact absurd hd (by decide)

theorem isNameCharacter_of_isDigit {c : Char} (h : c.isDigit) : isNameCharacter c := by
  have := (isDigit_iff.mp h).2
  simp [isNameCharacter, Text.isAlphanumeric, Char.isAlphanum, h, show c.toNat < 128 by omega]

private theorem takeWhile_append_takeWhile {p q : Char → Bool} (h : ∀ c, p c → q c)
    (input : List Char) : input.takeWhile p ++ (input.drop (input.takeWhile p).length).takeWhile q =
      input.takeWhile q := by
  induction input with
  | nil => rfl
  | cons c input ih =>
    by_cases hc : p c
    · simp [hc, h c hc, ih]
    · simp [hc]

theorem word_eq (input : List Char) : word input =
    if input.head?.any isNameStart then
      some (input.takeWhile isNameCharacter, input.drop (input.takeWhile isNameCharacter).length)
    else none := by
  have happend := takeWhile_append_takeWhile (p := isNameStart) (q := isNameCharacter)
    (fun _ => isNameCharacter_of_isNameStart) input
  cases input with
  | nil => rfl
  | cons c input =>
    by_cases hc : isNameStart c
    · rw [← happend]
      simp [word, some1, hc]
    · simp [word, some1, hc]

theorem word_eq_some_iff {w input rest : List Char} :
    word input = some (w, rest) ↔ Word w input rest := by
  rw [word_eq]
  constructor
  · intro h
    split at h
    · rename_i hstart
      cases h
      refine ⟨run_takeWhile _ _, ?_⟩
      cases input with
      | nil => cases hstart
      | cons c input =>
        have hc : isNameStart c := hstart
        exact ⟨c, by simp [isNameCharacter_of_isNameStart hc], hc⟩
    · cases h
  · rintro ⟨hrun, c, hc, hstart⟩
    have hhead : input.head? = some c := by
      rw [hrun.eq, List.head?_append, hc, Option.some_or]
    rw [hhead, hrun.takeWhile_eq, hrun.drop_eq]
    exact if_pos hstart

/-- A name with its prefix, if it has one: the whole name and its last part. -/
inductive Name : List Char → List Char → List Char → List Char → Prop
  | plain {w input rest : List Char} (word : Word w input rest)
    (alone : ∀ behind, rest = ':' :: behind → ∀ c ∈ behind.head?, ¬isNameStart c) :
    Name w w input rest
  | prefixed {p w input behind rest : List Char} (first : Word p input (':' :: behind))
    (second : Word w behind rest) : Name (p ++ ':' :: w) w input rest

theorem Word.takes {w input rest : List Char} (h : Word w input rest) : Takes 1 input rest := by
  obtain ⟨c, hc, -⟩ := h.start
  obtain ⟨more, rfl⟩ := List.head?_eq_some_iff.mp hc
  exact ⟨_, h.run.eq, by simp⟩

theorem Name.takes {whole base input rest : List Char} (h : Name whole base input rest) :
    Takes 1 input rest := by
  cases h with
  | plain word => exact word.takes
  | prefixed first second =>
    exact (first.takes.trans ((Takes.cons _ _).trans second.takes)).mono (by decide)

theorem word_eq_none_iff {input : List Char} :
    word input = none ↔ ∀ c ∈ input.head?, ¬isNameStart c := by
  rw [word_eq, ite_eq_right_iff]
  cases input.head? <;> simp

theorem qualifiedName_eq_some_iff {whole base input rest : List Char} :
    qualifiedName input = some ((whole, base), rest) ↔ Name whole base input rest := by
  constructor
  · intro h
    obtain ⟨⟨first, behind⟩, hfirst, h⟩ := Option.bind_eq_some_iff.mp h
    have hfirst := word_eq_some_iff.mp hfirst
    dsimp only at h
    split at h
    · rename_i second rest' hsecond
      cases h
      obtain ⟨⟨_, mid⟩, hmark, hsecond⟩ := Option.bind_eq_some_iff.mp hsecond
      rw [mark_eq_some_iff.mp hmark] at hfirst
      exact .prefixed hfirst (word_eq_some_iff.mp hsecond)
    · rename_i hsecond
      cases h
      refine .plain hfirst fun mid hmid => word_eq_none_iff.mp ?_
      rw [show mark ":" rest = some ((), mid) from mark_eq_some_iff.mpr hmid] at hsecond
      exact hsecond
  · intro h
    rw [qualifiedName, Option.bind_eq_bind]
    cases h with
    | plain hword halone =>
      rw [word_eq_some_iff.mpr hword, Option.bind_some]
      dsimp only
      cases hmark : mark ":" rest with
      | none => rfl
      | some behind =>
        have hnone := word_eq_none_iff.mpr (halone behind.2 (mark_eq_some_iff.mp hmark))
        rw [Option.bind_eq_bind, Option.bind_some, hnone]
        rfl
    | @prefixed _ _ _ behind _ hfirst hsecond =>
      have hmark : mark ":" (':' :: behind) = some ((), behind) := mark_eq_some_iff.mpr rfl
      rw [word_eq_some_iff.mpr hfirst, Option.bind_some]
      dsimp only
      rw [hmark, Option.bind_eq_bind, Option.bind_some, word_eq_some_iff.mpr hsecond]
      rfl

/-! Numerals and quotations -/

/-- Digits, or digits around a point with at least one of them. A query that ends with the digits
behind a point loses them if digits stand before the point too. -/
inductive Numeral : Expression → List Char → List Char → Prop
  | whole {w input rest : List Char} (digits : Run Char.isDigit w input rest) (filled : w ≠ [])
    (alone : ∀ c ∈ rest.head?, c ≠ '.') : Numeral (.number (Decimal.ofDigits w [])) input rest
  | pointed {w f input behind rest : List Char} (digits : Run Char.isDigit w input ('.' :: behind))
    (fraction : Run Char.isDigit f behind rest) (filled : ¬(w = [] ∧ f = [])) :
    Numeral (.number (Decimal.ofDigits w (if rest = [] ∧ w ≠ [] then [] else f))) input rest

theorem Numeral.takes {e : Expression} {input rest : List Char} (h : Numeral e input rest) :
    Takes 1 input rest := by
  cases h with
  | whole digits filled => exact ⟨_, digits.eq, List.length_pos_iff.mpr filled⟩
  | @pointed w f _ _ _ digits fraction =>
    exact ⟨w ++ '.' :: f, by rw [digits.eq, fraction.eq, List.append_assoc]; rfl, by simp; omega⟩

theorem number_eq_some_iff {e : Expression} {input rest : List Char} :
    number input = some (e, rest) ↔ Numeral e input rest := by
  constructor
  · intro h
    have hrun := run_takeWhile Char.isDigit input
    rw [number] at h
    dsimp only at h
    split at h
    · rename_i behind hbehind
      rw [hbehind] at hrun
      split at h
      · cases h
      · rename_i hfilled
        cases h
        have := Numeral.pointed hrun (run_takeWhile Char.isDigit behind) (by simpa using hfilled)
        simpa using this
    · rename_i hpoint
      split at h
      · cases h
      · rename_i hfilled
        cases h
        refine .whole hrun (by simpa using hfilled) fun c hc he => ?_
        obtain ⟨behind, hbehind⟩ := List.head?_eq_some_iff.mp hc
        exact hpoint behind (by rw [hbehind, he])
  · intro h
    rw [number]
    dsimp only
    cases h with
    | whole hrun hfilled halone =>
      rw [hrun.takeWhile_eq, hrun.drop_eq]
      split
      · exact absurd rfl (halone '.' rfl)
      · simp [hfilled]
    | pointed hrun hfraction hfilled =>
      rw [hrun.takeWhile_eq, hrun.drop_eq]
      simp only [hfraction.takeWhile_eq, hfraction.drop_eq]
      simp [hfilled]

/-- A text between quotes of one of the two kinds. -/
inductive Quotation : Expression → List Char → List Char → Prop
  | mk {quote : Char} {inner rest : List Char} (isQuote : quote = '\'' ∨ quote = '"')
    (closed : quote ∉ inner) :
    Quotation (.literal (String.ofList inner)) (quote :: (inner ++ quote :: rest)) rest

theorem Quotation.takes {e : Expression} {input rest : List Char} (h : Quotation e input rest) :
    Takes 1 input rest := by
  cases h with
  | @mk quote inner => exact ⟨quote :: (inner ++ [quote]), by simp, by simp⟩

theorem quoted_eq_some_iff {quote : Char} {e : Expression} {input rest : List Char} :
    quoted quote input = some (e, rest) ↔
      ∃ inner, quote ∉ inner ∧ e = .literal (String.ofList inner) ∧
        input = quote :: (inner ++ quote :: rest) := by
  constructor
  · intro h
    cases input with
    | nil => cases h
    | cons c input =>
      rw [quoted] at h
      have hrun := run_takeWhile (· ≠ quote) input
      generalize input.takeWhile (· ≠ quote) = inner at h hrun
      split at h
      · rename_i hclosed
        obtain ⟨rfl, hlength⟩ := hclosed
        cases h
        refine ⟨inner, fun hm => by simpa using hrun.all _ hm, rfl, ?_⟩
        have heq := congrArg List.length hrun.eq
        rw [List.length_append] at heq
        have hpos : 0 < (input.drop inner.length).length := by omega
        obtain ⟨q, behind, hbehind⟩ := List.exists_cons_of_length_pos hpos
        have hq : q = c := by simpa using hrun.longest q (by rw [hbehind]; rfl)
        have hrun := hrun.eq
        rw [hbehind, hq] at hrun
        rw [← List.drop_drop, hbehind, List.drop_succ_cons, List.drop_zero, ← hrun]
      · cases h
  · rintro ⟨inner, hclosed, rfl, rfl⟩
    have hrun : Run (· ≠ quote) inner (inner ++ quote :: rest) (quote :: rest) :=
      ⟨rfl, fun c hc => decide_eq_true fun he => hclosed (he ▸ hc), by simp⟩
    rw [quoted]
    simp only [hrun.takeWhile_eq]
    simp

theorem literal_eq_some_iff {e : Expression} {input rest : List Char} :
    literal input = some (e, rest) ↔ Quotation e input rest := by
  rw [literal, orElse, Option.or_eq_some_iff]
  constructor
  · rintro (h | ⟨-, h⟩)
    · obtain ⟨inner, hclosed, rfl, rfl⟩ := quoted_eq_some_iff.mp h
      exact .mk (.inl rfl) hclosed
    · obtain ⟨inner, hclosed, rfl, rfl⟩ := quoted_eq_some_iff.mp h
      exact .mk (.inr rfl) hclosed
  · rintro ⟨rfl | rfl, hclosed⟩
    · exact .inl (quoted_eq_some_iff.mpr ⟨_, hclosed, rfl, rfl⟩)
    · exact .inr ⟨rfl, quoted_eq_some_iff.mpr ⟨_, hclosed, rfl, rfl⟩⟩

/-! Node tests -/

theorem spaced_mark_eq_some_iff {text : String} {input rest : List Char} :
    spaced (mark text) input = some ((), rest) ↔
      ∃ behind, skipBlank input = text.toList ++ behind ∧ rest = skipBlank behind := by
  rw [spaced, Option.bind_eq_bind, Option.bind_eq_some_iff]
  constructor
  · rintro ⟨⟨_, behind⟩, hmark, h⟩
    cases h
    exact ⟨behind, mark_eq_some_iff.mp hmark, rfl⟩
  · rintro ⟨behind, hmark, rfl⟩
    exact ⟨((), behind), mark_eq_some_iff.mpr hmark, rfl⟩

/-- A test of nodes: a star, a kind with brackets behind it, or a name. -/
inductive Test : NodeTest → List Char → List Char → Prop
  | any {rest : List Char} : Test .any ('*' :: rest) rest
  | kind {text : String} {test : NodeTest} {input behind inner rest : List Char}
    (kind : Longest kindTests text test input behind) (opened : skipBlank behind = '(' :: inner)
    (closed : skipBlank inner = ')' :: rest) : Test test input rest
  | name {whole base input rest : List Char} (name : Name whole base input rest) :
    Test (.name (String.ofList base)) input rest

theorem Test.takes {test : NodeTest} {input rest : List Char} (h : Test test input rest) :
    Takes 1 input rest := by
  cases h with
  | any => exact .cons _ _
  | kind kind opened closed =>
    exact ((kind.takes_one (by decide)).trans
      ((takes_of_skipBlank opened).trans (takes_of_skipBlank closed))).mono (by decide)
  | name name => exact name.takes

theorem ordered_kindTests : Ordered kindTests := by decide

theorem kindTest_eq_some_iff {test : NodeTest} {input rest : List Char} :
    kindTest input = some (test, rest) ↔ ∃ text behind inner,
      Longest kindTests text test input behind ∧ skipBlank behind = '(' :: inner ∧
        skipBlank inner = ')' :: rest := by
  constructor
  · intro h
    obtain ⟨⟨_, behind⟩, hone, h⟩ := Option.bind_eq_some_iff.mp h
    obtain ⟨text, hkind⟩ := (oneOf_eq_some_iff ordered_kindTests).mp hone
    obtain ⟨⟨_, mid⟩, hopened, h⟩ := Option.bind_eq_some_iff.mp h
    obtain ⟨inner, hinner, rfl⟩ := spaced_mark_eq_some_iff.mp hopened
    obtain ⟨⟨_, last⟩, hclosed, h⟩ := Option.bind_eq_some_iff.mp h
    cases h
    exact ⟨text, behind, inner, hkind, hinner, mark_eq_some_iff.mp hclosed⟩
  · rintro ⟨text, behind, inner, hkind, hinner, hclosed⟩
    refine Option.bind_eq_some_iff.mpr ⟨(test, behind),
      (oneOf_eq_some_iff ordered_kindTests).mpr ⟨text, hkind⟩, ?_⟩
    refine Option.bind_eq_some_iff.mpr ⟨((), skipBlank inner),
      spaced_mark_eq_some_iff.mpr ⟨inner, hinner, rfl⟩, ?_⟩
    exact Option.bind_eq_some_iff.mpr ⟨((), rest), mark_eq_some_iff.mpr hclosed, rfl⟩

theorem nameTest_eq_some_iff {test : NodeTest} {input rest : List Char} :
    nameTest input = some (test, rest) ↔
      ∃ whole base, Name whole base input rest ∧ test = .name (String.ofList base) := by
  constructor
  · intro h
    obtain ⟨⟨⟨whole, base⟩, behind⟩, hname, h⟩ := Option.bind_eq_some_iff.mp h
    cases h
    exact ⟨whole, base, qualifiedName_eq_some_iff.mp hname, rfl⟩
  · rintro ⟨whole, base, hname, rfl⟩
    exact Option.bind_eq_some_iff.mpr
      ⟨((whole, base), rest), qualifiedName_eq_some_iff.mpr hname, rfl⟩

theorem oneOf_star_eq_some_iff {test : NodeTest} {input rest : List Char} :
    oneOf [("*", .any)] input = some (test, rest) ↔ test = .any ∧ input = '*' :: rest := by
  rw [oneOf_cons, oneOf_nil, Option.or_none, Option.map_eq_some_iff]
  constructor
  · rintro ⟨⟨_, behind⟩, hmark, h⟩
    cases h
    exact ⟨rfl, mark_eq_some_iff.mp hmark⟩
  · rintro ⟨rfl, rfl⟩
    exact ⟨((), rest), mark_eq_some_iff.mpr rfl, rfl⟩

theorem test_of_nodeTest {test : NodeTest} {input rest : List Char}
    (h : nodeTest input = some (test, rest)) : Test test input rest := by
  rw [nodeTest, orElse, orElse, Option.or_eq_some_iff, Option.or_eq_some_iff] at h
  obtain h | ⟨-, h | ⟨-, h⟩⟩ := h
  · obtain ⟨rfl, rfl⟩ := oneOf_star_eq_some_iff.mp h
    exact .any
  · obtain ⟨text, behind, inner, hkind, hopened, hclosed⟩ := kindTest_eq_some_iff.mp h
    exact .kind hkind hopened hclosed
  · obtain ⟨whole, base, hname, rfl⟩ := nameTest_eq_some_iff.mp h
    exact .name hname

theorem isSome_nodeTest {test : NodeTest} {input rest : List Char} (h : Test test input rest) :
    (nodeTest input).isSome := by
  rw [nodeTest, orElse, orElse, Option.isSome_or, Option.isSome_or, Bool.or_eq_true,
    Bool.or_eq_true]
  cases h with
  | any => exact .inl (Option.isSome_of_eq_some (oneOf_star_eq_some_iff.mpr ⟨rfl, rfl⟩))
  | kind hkind hopened hclosed =>
    exact .inr (.inl (Option.isSome_of_eq_some
      (kindTest_eq_some_iff.mpr ⟨_, _, _, hkind, hopened, hclosed⟩)))
  | name hname =>
    exact .inr (.inr (Option.isSome_of_eq_some (nameTest_eq_some_iff.mpr ⟨_, _, hname, rfl⟩)))

/-- A run that begins with a text of its characters. -/
theorem Run.exists_append {p : Char → Bool} {taken input rest text behind : List Char}
    (h : Run p taken input rest) (ht : ∀ c ∈ text, p c) (he : input = text ++ behind) :
    ∃ more, taken = text ++ more ∧ behind = more ++ rest := by
  rcases List.append_eq_append_iff.mp (h.eq.symm.trans he) with ⟨more, rfl, rfl⟩ | ⟨more, rfl, rfl⟩
  · cases more with
    | nil => exact ⟨[], by simp, by simp⟩
    | cons c more => exact absurd (ht c (by simp)) (h.longest c rfl)
  · exact ⟨more, rfl, rfl⟩

/-- The first part of a name, with what stands behind it. -/
theorem Name.exists_word {whole base input rest : List Char} (h : Name whole base input rest) :
    ∃ w behind, Word w input behind ∧ (behind = rest ∨ ∃ more, behind = ':' :: more) := by
  cases h with
  | plain hword => exact ⟨_, _, hword, .inl rfl⟩
  | prefixed hfirst => exact ⟨_, _, hfirst, .inr ⟨_, rfl⟩⟩

theorem not_isMarkupBlank_of_isNameCharacter {c : Char} (h : isNameCharacter c) :
    ¬Text.isMarkupBlank c := by
  intro hc
  simp only [Text.isMarkupBlank, Bool.or_eq_true, decide_eq_true_eq] at hc
  rcases hc with ((rfl | rfl) | rfl) | rfl <;> revert h <;> decide

theorem isNameCharacter_of_kind {text : String} {test : NodeTest} {input rest : List Char}
    (h : Longest kindTests text test input rest) : ∀ c ∈ text.toList, isNameCharacter c := by
  have hall : ∀ m ∈ kindTests, m.1.toList.all isNameCharacter := by decide
  exact List.all_eq_true.mp (hall _ h.mem)

/-- A name is no kind where no bracket stands behind it. -/
theorem kindTest_eq_none_of_name {whole base input rest : List Char}
    (h : Name whole base input rest) (hrest : ∀ c ∈ (skipBlank rest).head?, c ≠ '(') :
    kindTest input = none := by
  refine Option.eq_none_iff_forall_ne_some.mpr fun (test, behind) hk => ?_
  obtain ⟨text, mid, inner, hkind, hopened, -⟩ := kindTest_eq_some_iff.mp hk
  obtain ⟨w, last, hword, hlast⟩ := h.exists_word
  obtain ⟨more, rfl, rfl⟩ := hword.run.exists_append (isNameCharacter_of_kind hkind) hkind.eq
  cases more with
  | nil =>
    rcases hlast with rfl | ⟨more, rfl⟩
    · exact hrest '(' (by rw [← List.nil_append last, hopened]; rfl) rfl
    · rw [List.nil_append, skipBlank_cons (by decide)] at hopened
      cases hopened
  | cons c more =>
    have hc := hword.run.all c (by simp)
    rw [List.cons_append, skipBlank_cons (not_isMarkupBlank_of_isNameCharacter hc)] at hopened
    cases hopened
    revert hc
    decide

theorem Word.exists_cons {w input rest : List Char} (h : Word w input rest) :
    ∃ c more, input = c :: more ∧ isNameStart c := by
  obtain ⟨hrun, c, hc, hstart⟩ := h
  obtain ⟨more, hmore⟩ := exists_cons_of_head? hc
  exact ⟨c, more, hrun.eq.trans hmore, hstart⟩

theorem Name.exists_cons {whole base input rest : List Char} (h : Name whole base input rest) :
    ∃ c more, input = c :: more ∧ isNameStart c := by
  obtain ⟨w, behind, hword, -⟩ := h.exists_word
  exact hword.exists_cons

theorem Longest.exists_cons_kind {text : String} {test : NodeTest} {input behind : List Char}
    (h : Longest kindTests text test input behind) :
    ∃ c more, input = c :: more ∧ isNameStart c := h.exists_cons (by decide)

theorem nodeTest_of_test {test : NodeTest} {input rest : List Char} (h : Test test input rest)
    (hrest : ∀ c ∈ (skipBlank rest).head?, c ≠ '(') : nodeTest input = some (test, rest) := by
  have hstar (hc : ∃ c more, input = c :: more ∧ isNameStart c) :
      oneOf [("*", NodeTest.any)] input = none := by
    obtain ⟨c, more, rfl, hc⟩ := hc
    refine Option.eq_none_iff_forall_ne_some.mpr fun (test, last) ho => ?_
    cases (oneOf_star_eq_some_iff.mp ho).2
    revert hc
    decide
  rw [nodeTest, orElse, orElse, Option.or_eq_some_iff, Option.or_eq_some_iff]
  cases h with
  | any => exact .inl (oneOf_star_eq_some_iff.mpr ⟨rfl, rfl⟩)
  | kind hkind hopened hclosed =>
    exact .inr ⟨hstar hkind.exists_cons_kind,
      .inl (kindTest_eq_some_iff.mpr ⟨_, _, _, hkind, hopened, hclosed⟩)⟩
  | name hname =>
    exact .inr ⟨hstar hname.exists_cons, .inr ⟨kindTest_eq_none_of_name hname hrest,
      nameTest_eq_some_iff.mpr ⟨_, _, hname, rfl⟩⟩⟩

/-! Heads of steps -/

/-- The name of an axis and two colons begin the input. -/
def NamesAxis (input : List Char) : Prop :=
  ∃ m ∈ axisNames, m.1.toList ++ [':', ':'] <+: input

theorem ordered_axisNames : Ordered axisNames := by decide

/-- An axis is told by its name alone where colons stand behind it. -/
theorem longest_axis {text : String} {axis : Axis} {behind : List Char}
    (h : (text, axis) ∈ axisNames) :
    Longest axisNames text axis (text.toList ++ ':' :: behind) (':' :: behind) :=
  .of_mem (by decide) h

theorem axis_eq_some_iff {a : Axis} {input rest : List Char} :
    axis input = some (a, rest) ↔
      ∃ text, Longest axisNames text a input (':' :: ':' :: rest) := by
  constructor
  · intro h
    obtain ⟨⟨_, behind⟩, hone, h⟩ := Option.bind_eq_some_iff.mp h
    obtain ⟨text, hname⟩ := (oneOf_eq_some_iff ordered_axisNames).mp hone
    obtain ⟨⟨_, last⟩, hmark, h⟩ := Option.bind_eq_some_iff.mp h
    cases h
    rw [mark_eq_some_iff.mp hmark] at hname
    exact ⟨text, hname⟩
  · rintro ⟨text, hname⟩
    exact Option.bind_eq_some_iff.mpr ⟨(a, ':' :: ':' :: rest),
      (oneOf_eq_some_iff ordered_axisNames).mpr ⟨text, hname⟩,
      Option.bind_eq_some_iff.mpr ⟨((), rest), mark_eq_some_iff.mpr rfl, rfl⟩⟩

theorem axis_eq_none_iff {input : List Char} : axis input = none ↔ ¬NamesAxis input := by
  rw [Option.eq_none_iff_forall_ne_some]
  constructor
  · rintro h ⟨⟨text, a⟩, hm, rest, rfl⟩
    refine h (a, rest) (axis_eq_some_iff.mpr ⟨text, ?_⟩)
    rw [List.append_assoc]
    exact longest_axis hm
  · rintro h ⟨a, rest⟩ hsome
    obtain ⟨text, hname⟩ := axis_eq_some_iff.mp hsome
    exact h ⟨(text, a), hname.mem, rest, by simp [hname.eq]⟩

theorem isNameCharacter_of_axis {text : String} {axis : Axis} {input rest : List Char}
    (h : Longest axisNames text axis input rest) : ∀ c ∈ text.toList, isNameCharacter c := by
  have hall : ∀ m ∈ axisNames, m.1.toList.all isNameCharacter := by decide
  exact List.all_eq_true.mp (hall _ h.mem)

/-- The axis and the test of a step; `gap` tells what may be left out between them. -/
inductive Head (gap : List Char → List Char → Prop) : Axis → NodeTest → List Char → List Char → Prop
  | sign {test : NodeTest} {behind inner rest : List Char} (after : gap behind inner)
    (tested : Test test inner rest) : Head gap .attribute test ('@' :: behind) rest
  | named {text : String} {axis : Axis} {test : NodeTest} {input behind mid inner rest : List Char}
    (name : Longest axisNames text axis input behind) (before : gap behind (':' :: ':' :: mid))
    (after : gap mid inner) (tested : Test test inner rest) : Head gap axis test input rest
  | plain {test : NodeTest} {input rest : List Char} (unnamed : ¬NamesAxis input)
    (tested : Test test input rest) : Head gap .child test input rest

theorem Head.takes {gap : List Char → List Char → Prop}
    (hgap : ∀ {input rest}, gap input rest → Takes 0 input rest) {axis : Axis} {test : NodeTest}
    {input rest : List Char} (h : Head gap axis test input rest) : Takes 1 input rest := by
  cases h with
  | sign after tested =>
    exact ((Takes.cons _ _).trans ((hgap after).trans tested.takes)).mono (by decide)
  | named name before after tested =>
    exact ((name.takes_one (by decide)).trans ((hgap before).trans ((Takes.cons _ _).trans
      ((Takes.cons _ _).trans ((hgap after).trans tested.takes))))).mono (by decide)
  | plain _ tested => exact tested.takes

theorem attributeTest_eq_some_iff {a : Axis} {test : NodeTest} {input rest : List Char} :
    attributeTest input = some ((a, test), rest) ↔
      a = .attribute ∧ ∃ behind, input = '@' :: behind ∧ nodeTest behind = some (test, rest) := by
  constructor
  · intro h
    obtain ⟨⟨_, behind⟩, hmark, h⟩ := Option.bind_eq_some_iff.mp h
    obtain ⟨⟨_, last⟩, htest, h⟩ := Option.bind_eq_some_iff.mp h
    cases h
    exact ⟨rfl, behind, mark_eq_some_iff.mp hmark, htest⟩
  · rintro ⟨rfl, behind, rfl, htest⟩
    rw [attributeTest, Option.bind_eq_bind, Option.bind_eq_some_iff]
    exact ⟨((), behind), mark_eq_some_iff.mpr rfl,
      Option.bind_eq_some_iff.mpr ⟨(test, rest), htest, rfl⟩⟩

theorem axisTest_eq_some_iff {a : Axis} {test : NodeTest} {input rest : List Char} :
    axisTest input = some ((a, test), rest) ↔
      ∃ behind, (axis input).getD (.child, input) = (a, behind) ∧
        nodeTest behind = some (test, rest) := by
  rw [axisTest]
  generalize (axis input).getD (.child, input) = found
  obtain ⟨b, behind⟩ := found
  dsimp only
  rw [Option.bind_eq_bind, Option.bind_eq_some_iff]
  constructor
  · rintro ⟨⟨t, last⟩, htest, h⟩
    cases h
    exact ⟨behind, rfl, htest⟩
  · rintro ⟨last, he, htest⟩
    cases he
    exact ⟨(test, rest), htest, rfl⟩

/-- The axis and the test that a step begins with. -/
abbrev stepHead : Reader (Axis × NodeTest) := orElse attributeTest axisTest

theorem head_of_stepHead {a : Axis} {test : NodeTest} {input rest : List Char}
    (h : stepHead input = some ((a, test), rest)) : Head (· = ·) a test input rest := by
  rcases Option.or_eq_some_iff.mp h with h | ⟨-, h⟩
  · obtain ⟨rfl, behind, rfl, htest⟩ := attributeTest_eq_some_iff.mp h
    exact .sign rfl (test_of_nodeTest htest)
  · obtain ⟨behind, haxis, htest⟩ := axisTest_eq_some_iff.mp h
    cases hnamed : axis input with
    | none =>
      rw [hnamed] at haxis
      cases haxis
      exact .plain (axis_eq_none_iff.mp hnamed) (test_of_nodeTest htest)
    | some found =>
      rw [hnamed] at haxis
      cases haxis
      obtain ⟨text, hname⟩ := axis_eq_some_iff.mp hnamed
      exact .named hname rfl rfl (test_of_nodeTest htest)

theorem Test.exists_cons {test : NodeTest} {input rest : List Char} (h : Test test input rest) :
    ∃ c more, input = c :: more ∧ (c = '*' ∨ isNameStart c) := by
  cases h with
  | any => exact ⟨'*', rest, rfl, .inl rfl⟩
  | kind hkind =>
    obtain ⟨c, more, he, hc⟩ := hkind.exists_cons_kind
    exact ⟨c, more, he, .inr hc⟩
  | name hname =>
    obtain ⟨c, more, he, hc⟩ := hname.exists_cons
    exact ⟨c, more, he, .inr hc⟩

theorem Longest.exists_cons_axis {text : String} {a : Axis} {input behind : List Char}
    (h : Longest axisNames text a input behind) :
    ∃ c more, input = c :: more ∧ isNameStart c := h.exists_cons (by decide)

theorem Head.exists_cons {gap : List Char → List Char → Prop} {a : Axis} {test : NodeTest}
    {input rest : List Char} (h : Head gap a test input rest) :
    ∃ c more, input = c :: more ∧ (c = '@' ∨ c = '*' ∨ isNameStart c) := by
  cases h with
  | sign => exact ⟨'@', _, rfl, .inl rfl⟩
  | named hname =>
    obtain ⟨c, more, he, hc⟩ := hname.exists_cons_axis
    exact ⟨c, more, he, .inr (.inr hc)⟩
  | plain _ htest =>
    obtain ⟨c, more, he, hc⟩ := htest.exists_cons
    exact ⟨c, more, he, .inr hc⟩

/-- The test behind the axis alone decides what the reader of a head finds. -/
theorem stepHead_of_head {a : Axis} {test : NodeTest} {input rest : List Char}
    (h : Head (· = ·) a test input rest) : ∃ behind, Test test behind rest ∧
      ∀ found, nodeTest behind = some found → stepHead input = some ((a, found.1), found.2) := by
  have hplain {c : Char} {more : List Char} (hc : c = '*' ∨ isNameStart c) :
      attributeTest (c :: more) = none := by
    refine Option.eq_none_iff_forall_ne_some.mpr fun ((a, test), last) ho => ?_
    obtain ⟨-, behind, he, -⟩ := attributeTest_eq_some_iff.mp ho
    cases he
    revert hc
    decide
  cases h with
  | sign hgap htest =>
    subst hgap
    exact ⟨_, htest, fun found hfound => Option.or_eq_some_iff.mpr <|
      .inl (attributeTest_eq_some_iff.mpr ⟨rfl, _, rfl, hfound⟩)⟩
  | named hname hbefore hafter htest =>
    subst hbefore hafter
    obtain ⟨c, more, rfl, hc⟩ := hname.exists_cons_axis
    refine ⟨_, htest, fun found hfound => Option.or_eq_some_iff.mpr <|
      .inr ⟨hplain (.inr hc), axisTest_eq_some_iff.mpr ⟨_, ?_, hfound⟩⟩⟩
    rw [axis_eq_some_iff.mpr ⟨_, hname⟩, Option.getD_some]
  | plain hunnamed htest =>
    obtain ⟨c, more, rfl, hc⟩ := htest.exists_cons
    refine ⟨_, htest, fun found hfound => Option.or_eq_some_iff.mpr <|
      .inr ⟨hplain hc, axisTest_eq_some_iff.mpr ⟨_, ?_, hfound⟩⟩⟩
    rw [axis_eq_none_iff.mpr hunnamed, Option.getD_none]

theorem stepHead_eq_none_iff {input : List Char} :
    stepHead input = none ↔ ∀ a test rest, ¬Head (· = ·) a test input rest := by
  constructor
  · intro hnone a test rest h
    obtain ⟨behind, htest, hread⟩ := stepHead_of_head h
    obtain ⟨found, hfound⟩ := Option.isSome_iff_exists.mp (isSome_nodeTest htest)
    rw [hread found hfound] at hnone
    cases hnone
  · intro h
    exact Option.eq_none_iff_forall_ne_some.mpr fun ((a, test), rest) hsome =>
      h a test rest (head_of_stepHead hsome)

theorem stepHead_eq_some_of_head {a : Axis} {test : NodeTest} {input rest : List Char}
    (h : Head (· = ·) a test input rest) (hrest : ∀ c ∈ (skipBlank rest).head?, c ≠ '(') :
    stepHead input = some ((a, test), rest) := by
  obtain ⟨behind, htest, hread⟩ := stepHead_of_head h
  exact hread (test, rest) (nodeTest_of_test htest hrest)

end MarkupGraft.Query
