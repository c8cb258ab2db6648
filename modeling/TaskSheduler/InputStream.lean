import Mathlib.Algebra.Group.Int.Defs
import Mathlib.Data.List.TakeDrop
import Mathlib.Data.List.TakeWhile

/-!
# Formatted input from a byte stream

What `>>` extracts from a `std::istringstream` in the classic locale: white
space is skipped, a string is read up to the next white space, and an `int` is
an optional sign and the longest run of digits, in range.  A stream is the list
of the bytes not read yet; an extraction that fails leaves no stream, since
every later one on a failed stream fails too.

`extractString_eq_some_iff` and `extractInt_eq_some_iff` say which byte strings an
extraction takes apart, and how; `fields` splits a text at white space, and
`fields_of_extractString` compares the two.
-/

namespace InputStreams

/-- `isspace` in the classic locale. -/
def isSpace (b : UInt8) : Bool := b == 32 || (9 ≤ b && b ≤ 13)

/-- `isdigit`. -/
def isDigit (b : UInt8) : Bool := 48 ≤ b && b ≤ 57

/-- `std::ws`. -/
def skipSpace (bytes : List UInt8) : List UInt8 := bytes.dropWhile isSpace

/-- Extract a `std::string`. -/
def extractString (bytes : List UInt8) : Option (List UInt8 × List UInt8) :=
  match (skipSpace bytes).span (!isSpace ·) with
  | ([], _) => none
  | (word, rest) => some (word, rest)

/-- The number that decimal digits denote. -/
def decimal (digits : List UInt8) : Nat :=
  digits.foldl (fun n d => 10 * n + (d.toNat - 48)) 0

/-- The sign of a number, and what follows it. -/
def signed : List UInt8 → (Nat → Int) × List UInt8
  | 45 :: rest => (fun n => -n, rest)
  | 43 :: rest => (fun n => n, rest)
  | bytes => (fun n => n, bytes)

/-- Extract an `int`. -/
def extractInt (bytes : List UInt8) : Option (Int32 × List UInt8) :=
  let (sign, unsigned) := signed (skipSpace bytes)
  match unsigned.span isDigit with
  | ([], _) => none
  | (digits, rest) =>
      let value := sign (decimal digits)
      if -2 ^ 31 ≤ value ∧ value < 2 ^ 31 then some (Int32.ofInt value, rest) else none

example : extractInt [32, 45, 52, 50, 120] = some (-42, [120]) := by decide

/-! ## Longest runs -/

section Runs

variable {α : Type*}

/-- All of `run` satisfies `p`, and it is as long as it can be before `rest`. -/
structure LongestRun (p : α → Bool) (run rest : List α) : Prop where
  all : ∀ a ∈ run, p a = true
  ends : ∀ a ∈ rest.head?, p a = false

variable {p : α → Bool} {run rest : List α}

/-- `dropWhile` drops the longest run. -/
theorem LongestRun.dropWhile (h : LongestRun p run rest) : (run ++ rest).dropWhile p = rest := by
  rw [List.dropWhile_append_of_pos h.all]
  cases rest with
  | nil => rfl
  | cons a rest => rw [List.dropWhile_cons_of_neg (by simp [h.ends a rfl])]

/-- `takeWhile` takes it. -/
theorem LongestRun.takeWhile (h : LongestRun p run rest) : (run ++ rest).takeWhile p = run := by
  have hsplit : (run ++ rest).takeWhile p ++ (run ++ rest).dropWhile p = run ++ rest :=
    List.takeWhile_append_dropWhile
  rw [h.dropWhile] at hsplit
  exact List.append_cancel_right hsplit

theorem longestRun_takeWhile (p : α → Bool) (l : List α) :
    LongestRun p (l.takeWhile p) (l.dropWhile p) where
  all := fun _ ha => List.mem_takeWhile_imp ha
  ends := fun a ha => by
    have hhead := List.head?_dropWhile_not p l
    rw [Option.mem_def.mp ha] at hhead
    exact hhead

/-- **`span` splits a list after its longest run.** -/
theorem span_eq_iff (l : List α) :
    l.span p = (run, rest) ↔ l = run ++ rest ∧ LongestRun p run rest := by
  rw [List.span_eq_takeWhile_dropWhile, Prod.mk.injEq]
  constructor
  · intro hsplit
    obtain ⟨rfl, rfl⟩ := hsplit
    exact ⟨List.takeWhile_append_dropWhile.symm, longestRun_takeWhile p l⟩
  · intro hrun
    obtain ⟨rfl, h⟩ := hrun
    exact ⟨h.takeWhile, h.dropWhile⟩

end Runs

/-! ## What an extraction takes -/

variable {bytes word rest blanks literal : List UInt8}

/-- White space only. -/
def Blank (bytes : List UInt8) : Prop := ∀ b ∈ bytes, isSpace b = true

/-- White space is skipped up to what does not begin with any. -/
theorem skipSpace_eq_iff (hhead : ∀ b ∈ rest.head?, isSpace b = false) :
    skipSpace bytes = rest ↔ ∃ blanks, bytes = blanks ++ rest ∧ Blank blanks := by
  constructor
  · rintro rfl
    exact ⟨bytes.takeWhile isSpace, List.takeWhile_append_dropWhile.symm,
      (longestRun_takeWhile isSpace bytes).all⟩
  · intro hskipped
    obtain ⟨blanks, rfl, hblank⟩ := hskipped
    exact LongestRun.dropWhile ⟨hblank, hhead⟩

/-- **A string is extracted** if it is not empty, and is a longest run without
white space after any white space. -/
theorem extractString_eq_some_iff :
    extractString bytes = some (word, rest) ↔
      word ≠ [] ∧ LongestRun (!isSpace ·) word rest ∧
        ∃ blanks, bytes = blanks ++ (word ++ rest) ∧ Blank blanks := by
  have hspan : extractString bytes = some (word, rest) ↔
      word ≠ [] ∧ (skipSpace bytes).span (!isSpace ·) = (word, rest) := by
    unfold extractString
    cases (skipSpace bytes).span (!isSpace ·) with
    | mk run tail =>
        cases run with
        | nil =>
            refine iff_of_false (fun h => by cases h) fun h => ?_
            exact h.1 (Prod.mk.inj h.2).1.symm
        | cons b run =>
            simp only [Option.some.injEq, Prod.mk.injEq]
            constructor
            · intro hsame
              obtain ⟨rfl, rfl⟩ := hsame
              exact ⟨List.cons_ne_nil _ _, rfl, rfl⟩
            · exact And.right
  rw [hspan, span_eq_iff]
  refine and_congr_right fun hne => ?_
  rw [and_comm]
  refine and_congr_right fun hrun => skipSpace_eq_iff ?_
  cases word with
  | nil => exact absurd rfl hne
  | cons b word =>
      intro b' hb'
      cases hb'
      simpa using hrun.all b List.mem_cons_self

/-- Decimal digits, with a sign or without, and the integer they denote. -/
inductive Numeral : List UInt8 → Int → Prop
  | unsigned {digits : List UInt8} (hne : digits ≠ [])
      (hdigits : ∀ b ∈ digits, isDigit b = true) : Numeral digits (decimal digits)
  | plus {digits : List UInt8} (hne : digits ≠ [])
      (hdigits : ∀ b ∈ digits, isDigit b = true) : Numeral (43 :: digits) (decimal digits)
  | minus {digits : List UInt8} (hne : digits ≠ [])
      (hdigits : ∀ b ∈ digits, isDigit b = true) : Numeral (45 :: digits) (-decimal digits)

/-- A digit is neither a sign nor white space. -/
theorem digit_ne {b : UInt8} (h : isDigit b = true) : b ≠ 45 ∧ b ≠ 43 ∧ isSpace b = false := by
  simp only [isDigit, Bool.and_eq_true, decide_eq_true_eq, UInt8.le_iff_toNat_le] at h
  have hlo : (48 : UInt8).toNat = 48 := rfl
  refine ⟨fun heq => ?_, fun heq => ?_, ?_⟩
  · subst heq
    exact absurd h.1 (by decide)
  · subst heq
    exact absurd h.1 (by decide)
  · simp only [isSpace, Bool.or_eq_false_iff, beq_eq_false_iff_ne, Bool.and_eq_false_iff,
      decide_eq_false_iff_not, UInt8.le_iff_toNat_le, ne_eq, UInt8.ext_iff]
    have h32 : (32 : UInt8).toNat = 32 := rfl
    have h13 : (13 : UInt8).toNat = 13 := rfl
    omega

theorem Numeral.ne_nil {value : Int} (h : Numeral literal value) : literal ≠ [] := by
  cases h with
  | unsigned hne hdigits => exact hne
  | plus hne hdigits => exact List.cons_ne_nil _ _
  | minus hne hdigits => exact List.cons_ne_nil _ _

/-- A numeral does not begin with white space. -/
theorem Numeral.head {value : Int} (h : Numeral literal value) (rest : List UInt8) :
    ∀ b ∈ (literal ++ rest).head?, isSpace b = false := by
  cases h with
  | plus hne hdigits =>
      intro b hb
      cases hb
      decide
  | minus hne hdigits =>
      intro b hb
      cases hb
      decide
  | @unsigned digits hne hdigits =>
      cases literal with
      | nil => exact absurd rfl hne
      | cons d digits =>
          intro b hb
          cases hb
          exact (digit_ne (hdigits d List.mem_cons_self)).2.2

/-- Its sign is taken off, whatever follows. -/
theorem Numeral.signed {value : Int} (h : Numeral literal value) (rest : List UInt8) :
    ∃ sign digits, InputStreams.signed (literal ++ rest) = (sign, digits ++ rest) ∧
      digits ≠ [] ∧ (∀ b ∈ digits, isDigit b = true) ∧ sign (decimal digits) = value := by
  cases h with
  | plus hne hdigits => exact ⟨_, _, rfl, hne, hdigits, rfl⟩
  | minus hne hdigits => exact ⟨_, _, rfl, hne, hdigits, rfl⟩
  | @unsigned digits hne hdigits =>
      refine ⟨fun n => n, literal, ?_, hne, hdigits, rfl⟩
      cases literal with
      | nil => exact absurd rfl hne
      | cons d digits =>
          obtain ⟨hminus, hplus, -⟩ := digit_ne (hdigits d List.mem_cons_self)
          rw [List.cons_append]
          unfold InputStreams.signed
          split
          · next heq => exact absurd (List.cons.inj heq).1 hminus
          · next heq => exact absurd (List.cons.inj heq).1 hplus
          · rfl

/-- Digits behind an optional sign are a numeral. -/
theorem numeral_of_signed {sign : Nat → Int} {digits : List UInt8}
    (h : signed bytes = (sign, digits ++ rest)) (hne : digits ≠ [])
    (hdigits : ∀ b ∈ digits, isDigit b = true) :
    ∃ literal, bytes = literal ++ rest ∧ Numeral literal (sign (decimal digits)) := by
  unfold signed at h
  split at h
  · cases h
    exact ⟨45 :: digits, rfl, .minus hne hdigits⟩
  · cases h
    exact ⟨43 :: digits, rfl, .plus hne hdigits⟩
  · cases h
    exact ⟨digits, rfl, .unsigned hne hdigits⟩

/-- **An `int` is extracted** if it is a numeral in the range of `int` after any
white space, and no digit follows. -/
theorem extractInt_eq_some_iff {n : Int32} :
    extractInt bytes = some (n, rest) ↔
      (∀ b ∈ rest.head?, isDigit b = false) ∧ ∃ literal, Numeral literal n.toInt ∧
        ∃ blanks, bytes = blanks ++ (literal ++ rest) ∧ Blank blanks := by
  constructor
  · intro h
    unfold extractInt at h
    cases hsigned : signed (skipSpace bytes) with
    | mk sign unsigned =>
        rw [hsigned] at h
        cases hspan : unsigned.span isDigit with
        | mk digits tail =>
            obtain ⟨rfl, hrun⟩ := (span_eq_iff unsigned).mp hspan
            simp only [hspan] at h
            cases digits with
            | nil => cases h
            | cons d digits =>
                simp only [Option.ite_none_right_eq_some, Option.some.injEq, Prod.mk.injEq] at h
                obtain ⟨⟨hlo, hhi⟩, rfl, rfl⟩ := h
                obtain ⟨literal, hliteral, hnumeral⟩ :=
                  numeral_of_signed hsigned (List.cons_ne_nil _ _) hrun.all
                rw [← Int32.toInt_ofInt_of_le hlo hhi] at hnumeral
                exact ⟨hrun.ends, literal, hnumeral,
                  (skipSpace_eq_iff (hnumeral.head tail)).mp hliteral⟩
  · intro hparts
    obtain ⟨hends, literal, hnumeral, hblanks⟩ := hparts
    have hskip := (skipSpace_eq_iff (hnumeral.head rest)).mpr hblanks
    obtain ⟨sign, digits, hsigned, hne, hdigits, hvalue⟩ := hnumeral.signed rest
    have hspan := (span_eq_iff (digits ++ rest)).mpr ⟨rfl, ⟨hdigits, hends⟩⟩
    unfold extractInt
    rw [hskip, hsigned]
    simp only [hspan]
    cases digits with
    | nil => exact absurd rfl hne
    | cons d digits =>
        simp only [hvalue]
        rw [if_pos ⟨n.le_toInt, n.toInt_lt⟩, Int32.ofInt_toInt]

/-! ## Fields -/

/-- The fields of a text split at white space. -/
def fields (bytes : List UInt8) : List (List UInt8) :=
  (bytes.splitOnP isSpace).filter (!·.isEmpty)

theorem fields_space {b : UInt8} (h : isSpace b = true) (bytes : List UInt8) :
    fields (b :: bytes) = fields bytes := by
  have hnone : ∀ b ∈ ([] : List UInt8), isSpace b = false := by simp
  have hsplit := List.splitOnP_append_cons_of_forall_mem hnone b h bytes
  rw [List.nil_append] at hsplit
  unfold fields
  rw [hsplit]
  rfl

theorem fields_blank (h : Blank blanks) (bytes : List UInt8) :
    fields (blanks ++ bytes) = fields bytes := by
  induction blanks with
  | nil => rfl
  | cons b blanks ih =>
      rw [List.cons_append, fields_space (h b List.mem_cons_self)]
      exact ih fun b' hb' => h b' (List.mem_cons_of_mem b hb')

theorem fields_word (hne : word ≠ []) (h : LongestRun (!isSpace ·) word rest) :
    fields (word ++ rest) = word :: fields rest := by
  have hword : ∀ b ∈ word, isSpace b = false := by simpa using h.all
  have hkeep : ∀ others : List (List UInt8),
      (word :: others).filter (!·.isEmpty) = word :: others.filter (!·.isEmpty) :=
    fun _ => List.filter_cons_of_pos (by simpa using hne)
  cases rest with
  | nil =>
      unfold fields
      rw [List.append_nil, List.splitOnP_eq_singleton hword, hkeep]
      rfl
  | cons b rest =>
      have hspace : isSpace b = true := by simpa using h.ends b rfl
      rw [fields_space hspace]
      unfold fields
      rw [List.splitOnP_append_cons_of_forall_mem hword b hspace, hkeep]

/-- **Extracting a string takes the first field.** -/
theorem extractString_of_fields {others : List (List UInt8)}
    (h : fields bytes = word :: others) :
    ∃ rest, extractString bytes = some (word, rest) ∧ fields rest = others := by
  obtain ⟨blanks, hblanks, hblank⟩ : ∃ blanks, bytes = blanks ++ skipSpace bytes ∧ Blank blanks :=
    ⟨_, List.takeWhile_append_dropWhile.symm, (longestRun_takeWhile isSpace bytes).all⟩
  obtain ⟨run, rest, hspan⟩ : ∃ run rest, (skipSpace bytes).span (!isSpace ·) = (run, rest) :=
    ⟨_, _, rfl⟩
  obtain ⟨hsplit, hrun⟩ := (span_eq_iff _).mp hspan
  have hhead := (longestRun_takeWhile isSpace bytes).ends
  change ∀ b ∈ (skipSpace bytes).head?, _ at hhead
  rw [hblanks, fields_blank hblank, hsplit] at h
  rw [hsplit] at hblanks hhead
  have hne : run ≠ [] := by
    rintro rfl
    cases rest with
    | nil => cases h
    | cons b rest =>
        have hspace := hrun.ends b rfl
        simp [hhead b rfl] at hspace
  rw [fields_word hne hrun] at h
  cases h
  exact ⟨rest, extractString_eq_some_iff.mpr ⟨hne, hrun, blanks, hblanks, hblank⟩, rfl⟩

end InputStreams
