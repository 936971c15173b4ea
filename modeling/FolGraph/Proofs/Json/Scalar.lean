import FolGraph.Json.Basic
import FolGraph.Json.Reader
import Mathlib.Algebra.Group.Nat.Defs
import Mathlib.Data.List.Basic

/-!
# Written numbers and strings

What is written for a number or a string is read back as its numeral or its glyphs, and these stand
for the number, if it has 64 bits at most, and for the characters of the string.
-/

namespace FolGraph.Json

/-! ## Numbers -/

/-- The values of the decimal digits of a number, the first digit first. -/
def digitValues (n : Nat) : List Nat := (Nat.toDigits 10 n).map fun c => c.toNat - 48

/-- A number as it is written: its digits and nothing else. -/
def Numeral.ofNat (n : Nat) : Numeral := ⟨false, digitValues n, [], none⟩

/-- Nothing that follows could continue a number. -/
def EndsNumber (rest : List Char) : Prop :=
  ∀ c ∈ rest.head?, Draft.digit? c = none ∧ c ≠ '.' ∧ c ≠ 'e' ∧ c ≠ 'E'

theorem digit?_of_isDigit {c : Char} (h : c.isDigit = true) :
    Draft.digit? c = some (c.toNat - 48) := by
  have bounds : '0' ≤ c ∧ c ≤ '9' := by
    simpa [Char.isDigit, Char.le_def] using h
  simp [Draft.digit?, bounds]

theorem digits_append {cs rest : List Char} (all : ∀ c ∈ cs, c.isDigit = true)
    (ends : EndsNumber rest) :
    Draft.digits (cs ++ rest) = (cs.map fun c => c.toNat - 48, rest) := by
  induction cs with
  | nil =>
    cases rest with
    | nil => rfl
    | cons c rest =>
      have stop := (ends c rfl).1
      simp [Draft.digits, stop]
  | cons c cs ih =>
    obtain ⟨digit, all⟩ := List.forall_mem_cons.mp all
    rw [List.cons_append, Draft.digits, digit?_of_isDigit digit]
    simp only [ih all, List.map_cons]

theorem isDigit_of_mem_digits {n : Nat} {c : Char} (h : c ∈ Nat.toDigits 10 n) :
    c.isDigit = true :=
  Nat.isDigit_of_mem_toDigits (by decide) (by decide) h

/-- Numbers are told apart by their digits. -/
theorem toDigits_injective {i j : Nat} (h : Nat.toDigits 10 i = Nat.toDigits 10 j) : i = j := by
  have values := congrArg (Nat.ofDigitChars 10 · 0) h
  simpa only [Nat.ofDigitChars_ten_toDigits] using values

/-- A larger number has no fewer digits. -/
theorem length_toDigits_mono {i j : Nat} (h : i ≤ j) :
    (Nat.toDigits 10 i).length ≤ (Nat.toDigits 10 j).length := by
  have pos : 0 < (Nat.toDigits 10 j).length := Nat.length_toDigits_pos
  rw [Nat.length_toDigits_le_iff (by decide) pos]
  exact Nat.lt_of_le_of_lt h ((Nat.length_toDigits_le_iff (by decide) pos).mp (Nat.le_refl _))

theorem digits_toDigits (n : Nat) {rest : List Char} (ends : EndsNumber rest) :
    Draft.digits (Nat.toDigits 10 n ++ rest) = (digitValues n, rest) :=
  digits_append (fun _ => isDigit_of_mem_digits) ends

/-- Only zero is written with a zero in front. -/
theorem digitValues_of_pos {n : Nat} (pos : 0 < n) :
    ∃ d ds, digitValues n = (d + 1) :: ds := by
  induction n using Nat.strongRecOn with
  | ind n ih =>
    rw [digitValues, Nat.toDigits_eq_if (by decide)]
    split
    case isTrue small =>
      refine ⟨n - 1, [], ?_⟩
      rw [List.map_singleton, Nat.toNat_digitChar_sub_48_of_lt_ten small]
      simp only [List.cons.injEq, and_true]
      omega
    case isFalse large =>
      obtain ⟨d, ds, front⟩ := ih (n / 10) (by omega) (by omega)
      rw [digitValues] at front
      exact ⟨d, _, by rw [List.map_append, front, List.cons_append]⟩

theorem wholePart?_toDigits (n : Nat) {rest : List Char} (ends : EndsNumber rest) :
    Draft.wholePart? (Nat.toDigits 10 n ++ rest) = some (digitValues n, rest) := by
  rw [Draft.wholePart?, digits_toDigits n ends]
  by_cases zero : n = 0
  · subst zero
    rfl
  · obtain ⟨d, ds, values⟩ := digitValues_of_pos (Nat.pos_of_ne_zero zero)
    simp only [values]

theorem EndsNumber.fractionPart?_eq {rest : List Char} (ends : EndsNumber rest) :
    Draft.fractionPart? rest = some ([], rest) := by
  cases rest with
  | nil => rfl
  | cons c rest =>
    have point := (ends c rfl).2.1
    simp [Draft.fractionPart?, point]

theorem EndsNumber.exponentPart?_eq {rest : List Char} (ends : EndsNumber rest) :
    Draft.exponentPart? rest = some (none, rest) := by
  cases rest with
  | nil => rfl
  | cons c rest =>
    obtain ⟨_, _, lower, upper⟩ := ends c rfl
    simp [Draft.exponentPart?, lower, upper]

theorem exists_toDigits_eq_cons (n : Nat) :
    ∃ c cs, Nat.toDigits 10 n = c :: cs ∧ c.isDigit = true := by
  obtain ⟨c, cs, front⟩ := List.exists_cons_of_ne_nil (Nat.toDigits_ne_nil (n := n) (b := 10))
  exact ⟨c, cs, front, isDigit_of_mem_digits (n := n) (by simp [front])⟩

theorem numeral?_toDigits (n : Nat) {rest : List Char} (ends : EndsNumber rest) :
    Draft.numeral? (Nat.toDigits 10 n ++ rest) = some (Numeral.ofNat n, rest) := by
  obtain ⟨c, cs, front, digit⟩ := exists_toDigits_eq_cons n
  have unsigned : c ≠ '-' := by
    rintro rfl
    revert digit
    decide
  have whole := wholePart?_toDigits n ends
  rw [front, List.cons_append] at whole ⊢
  rw [Draft.numeral?]
  · simp [whole, ends.fractionPart?_eq, ends.exponentPart?_eq, Numeral.ofNat]
  · exact fun _ same => unsigned (List.cons.inj same).1

/-- Digits can be accumulated as long as the number that they make fits into 64 bits. -/
theorem accumulate_eq (ds : List Nat) (s : Nat)
    (fits : ds.foldl (fun n d => n * 10 + d) s < 2 ^ 64) :
    Numeral.accumulate s ds = (ds.foldl (fun n d => n * 10 + d) s, []) := by
  have grows : ∀ (ds : List Nat) (s : Nat), s ≤ ds.foldl (fun n d => n * 10 + d) s := by
    intro ds
    induction ds with
    | nil => exact fun s => Nat.le_refl s
    | cons d ds ih =>
      intro s
      have := ih (s * 10 + d)
      rw [List.foldl_cons]
      omega
  induction ds generalizing s with
  | nil => rfl
  | cons d ds ih =>
    rw [List.foldl_cons] at fits ⊢
    have small : ¬ Nat.pow 2 64 ≤ s * 10 + d := by
      have := grows ds (s * 10 + d)
      exact fun large => absurd (Nat.lt_of_le_of_lt this fits) (Nat.not_lt_of_le large)
    rw [Numeral.accumulate, if_neg small, ih _ fits]

theorem foldl_digitValues (n : Nat) :
    (digitValues n).foldl (fun n d => n * 10 + d) 0 = n := by
  have value := Nat.ofDigitChars_ten_toDigits (n := n)
  rw [Nat.ofDigitChars_eq_foldl] at value
  rw [digitValues, List.foldl_map]
  simpa [Nat.mul_comm] using value

theorem reading_ofNat {n : Nat} (fits : n < 2 ^ 64) :
    (Numeral.ofNat n).reading = .integer n := by
  have all := accumulate_eq (digitValues n) 0 (by rwa [foldl_digitValues])
  rw [foldl_digitValues] at all
  simp [Numeral.reading, Numeral.ofNat, all]

theorem word32_ofNat {n : Nat} (fits : n < 2 ^ 32) :
    (Draft.number (Numeral.ofNat n)).word32 = .ok n := by
  have inRange : (0 ≤ (n : Int) && (n : Int) < Int.pow 2 32) = true := by
    have top : Int.pow 2 32 = 4294967296 := rfl
    rw [top, Bool.and_eq_true, decide_eq_true_eq, decide_eq_true_eq]
    omega
  rw [Draft.word32]
  simp only [reading_ofNat (show n < 2 ^ 64 by omega)]
  rw [if_pos inRange, Int.toNat_natCast]

/-! ## Strings -/

/-- How a character is written within quotes: as four hexadecimal digits if it is a control
character without a letter of its own. -/
def Glyph.ofChar (c : Char) : Glyph :=
  if c.toNat < 32 ∧ c.toNat ∉ [8, 9, 10, 12, 13] then .unit c.toNat else .plain c

/-- What is read of a written string. -/
def Draft.ofString (s : String) : Draft := .string (s.toList.map Glyph.ofChar)

theorem hexDigit?_digitChar {d : Nat} (h : d < 16) :
    Draft.hexDigit? (Nat.digitChar d) = some d := by
  have all : ∀ d < 16, Draft.hexDigit? (Nat.digitChar d) = some d := by decide
  exact all d h

theorem quoted?_letter {letter c : Char} (stands : Draft.unescape? letter = some c)
    (cs : List Char) : Draft.quoted? ('\\' :: letter :: cs) =
      (Draft.quoted? cs).map fun (glyphs, rest) => (.plain c :: glyphs, rest) := by
  have other : letter ≠ 'u' := by
    rintro rfl
    have none : Draft.unescape? 'u' = none := rfl
    cases none.symm.trans stands
  rw [Draft.quoted?, stands]
  · cases Draft.quoted? cs <;> rfl
  · exact fun _ _ _ _ _ same _ => other same

theorem quoted?_hex {code : Nat} (small : code < 32) (cs : List Char) :
    Draft.quoted? ('\\' :: 'u' :: '0' :: '0' :: Nat.digitChar (code / 16) ::
        Nat.digitChar (code % 16) :: cs) =
      (Draft.quoted? cs).map fun (glyphs, rest) => (.unit code :: glyphs, rest) := by
  have first := hexDigit?_digitChar (show code / 16 < 16 by omega)
  have second := hexDigit?_digitChar (show code % 16 < 16 by omega)
  have unit : Draft.hexUnit? '0' '0' (Nat.digitChar (code / 16)) (Nat.digitChar (code % 16)) =
      some code := by
    have zero : Draft.hexDigit? '0' = some 0 := rfl
    have value : code / 16 * 16 + code % 16 = code := by omega
    simp [Draft.hexUnit?, zero, first, second, value]
  rw [Draft.quoted?, unit]
  cases Draft.quoted? cs <;> rfl

theorem quoted?_plain {c : Char} (quote : c ≠ '"') (backslash : c ≠ '\\') (large : 32 ≤ c.toNat)
    (cs : List Char) : Draft.quoted? (c :: cs) =
      (Draft.quoted? cs).map fun (glyphs, rest) => (.plain c :: glyphs, rest) := by
  rw [Draft.quoted?, if_neg (by omega)]
  · cases Draft.quoted? cs <;> rfl
  · exact fun same => quote same
  · exact fun _ _ _ _ _ same _ => backslash same
  · exact fun _ _ same _ => backslash same

/-- A character is written as a letter after a backslash, as four hexadecimal digits, or as it
is. -/
theorem escape_cases (c : Char) :
    (∃ letter, escape c = ['\\', letter] ∧ Draft.unescape? letter = some c ∧
      Glyph.ofChar c = .plain c) ∨
    (c.toNat < 32 ∧ escape c = ['\\', 'u', '0', '0', Nat.digitChar (c.toNat / 16),
      Nat.digitChar (c.toNat % 16)] ∧ Glyph.ofChar c = .unit c.toNat) ∨
    (c ≠ '"' ∧ c ≠ '\\' ∧ 32 ≤ c.toNat ∧ escape c = [c] ∧ Glyph.ofChar c = .plain c) := by
  rw [escape]
  split_ifs with quote backslash backspace formFeed newline carriageReturn tab control
  · subst quote
    exact .inl ⟨'"', rfl, rfl, rfl⟩
  · subst backslash
    exact .inl ⟨'\\', rfl, rfl, rfl⟩
  · obtain rfl : Char.ofNat 8 = c := by rw [← backspace, Char.ofNat_toNat]
    exact .inl ⟨'b', rfl, rfl, rfl⟩
  · obtain rfl : Char.ofNat 12 = c := by rw [← formFeed, Char.ofNat_toNat]
    exact .inl ⟨'f', rfl, rfl, rfl⟩
  · subst newline
    exact .inl ⟨'n', rfl, rfl, rfl⟩
  · subst carriageReturn
    exact .inl ⟨'r', rfl, rfl, rfl⟩
  · subst tab
    exact .inl ⟨'t', rfl, rfl, rfl⟩
  · have other : ∀ {d : Char}, ¬ c = d → c.toNat ≠ d.toNat :=
      fun apart same => apart (Char.toNat_inj.mp same)
    have notTab : c.toNat ≠ 9 := other tab
    have notNewline : c.toNat ≠ 10 := other newline
    have notReturn : c.toNat ≠ 13 := other carriageReturn
    have unlettered : c.toNat ∉ [8, 9, 10, 12, 13] := by
      simp only [List.mem_cons, List.not_mem_nil, or_false]
      omega
    exact .inr (.inl ⟨control, rfl, if_pos ⟨control, unlettered⟩⟩)
  · exact .inr (.inr ⟨quote, backslash, by omega, rfl, if_neg fun small => control small.1⟩)

theorem quoted?_escape_append (c : Char) (cs : List Char) :
    Draft.quoted? (escape c ++ cs) =
      (Draft.quoted? cs).map fun (glyphs, rest) => (Glyph.ofChar c :: glyphs, rest) := by
  rcases escape_cases c with ⟨letter, written, stands, glyph⟩ | ⟨control, written, glyph⟩ |
    ⟨quote, backslash, large, written, glyph⟩
  · rw [written, glyph]
    exact quoted?_letter stands cs
  · rw [written, glyph]
    exact quoted?_hex control cs
  · rw [written, glyph]
    exact quoted?_plain quote backslash large cs

/-- A quoted text is read from after its opening quote to its closing quote. -/
theorem quoted?_flatMap_escape (cs rest : List Char) :
    Draft.quoted? (cs.flatMap escape ++ '"' :: rest) = some (cs.map Glyph.ofChar, rest) := by
  induction cs with
  | nil => rfl
  | cons c cs ih =>
    rw [List.flatMap_cons, List.append_assoc, quoted?_escape_append, ih]
    rfl

/-- A unit that is no half of a surrogate pair stands for a character of its own. -/
theorem Glyph.join_unit {code : Nat} (single : code < 0xD800) (glyphs : List Glyph) :
    Glyph.join (.unit code :: glyphs) = (Glyph.join glyphs).map (Char.ofNat code :: ·) := by
  have low : ¬ 0xD800 ≤ code := by omega
  match glyphs with
  | [] | .plain _ :: _ => simp [Glyph.join, low]
  | .unit _ :: _ => rw [Glyph.join]; simp [low]

theorem Glyph.join_map_ofChar (cs : List Char) :
    Glyph.join (cs.map Glyph.ofChar) = some cs := by
  induction cs with
  | nil => rfl
  | cons c cs ih =>
    rw [List.map_cons, Glyph.ofChar]
    split
    case isFalse => rw [Glyph.join, ih, Option.map_some]
    case isTrue control =>
      rw [Glyph.join_unit (by omega), ih, Option.map_some, Char.ofNat_toNat]

theorem textOf_map_ofChar (s : String) : textOf (s.toList.map Glyph.ofChar) = .ok s := by
  rw [textOf, Glyph.join_map_ofChar]
  simp only [String.ofList_toList]

theorem text_ofString (s : String) : (Draft.ofString s).text = .ok s := textOf_map_ofChar s

theorem keyOf_ofString (s : String) : keyOf (Draft.ofString s) = .ok s := textOf_map_ofChar s

theorem constant_ofString {α : Type} {find : String → Option α} {known : List String} {depth : Nat}
    {name : String} {a : α} (found : find name = some a) :
    Draft.constant find known depth (Draft.ofString name) = .ok a := by
  rw [Draft.ofString, Draft.constant, textOf_map_ofChar]
  simp [Draft.nameIn, found, bind, Except.bind]

end FolGraph.Json
