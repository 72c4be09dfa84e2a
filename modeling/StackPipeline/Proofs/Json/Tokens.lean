import Mathlib.Data.List.TakeDrop
import StackPipeline.Json.Printer
import StackPipeline.Json.Reader
import StackPipeline.Proofs.Number.Characters

/-!
Strings and numbers in documents: a string is read up to its closing quote whatever follows, and a number
up to the mark that follows it.
-/

namespace StackPipeline.Json

section Strings

variable (rules : Rules)

theorem hexValue?_hexDigit : ∀ digit < 16, hexValue? (hexDigit digit) = some digit := by
  decide

/-- The four digits of a small code unit. -/
theorem readStringFrom_digits {unit : Nat} (h : unit < 0x20) (rest : List Char) :
    readStringFrom rules (.digits 3 0 none)
        ('0' :: '0' :: hexDigit (unit / 16) :: hexDigit (unit % 16) :: rest) =
      prepend (Char.ofNat unit) (readStringFrom rules .plain rest) := by
  have hzero : hexValue? '0' = some 0 := by decide
  have hhigh := hexValue?_hexDigit (unit / 16) (by omega)
  have hlow := hexValue?_hexDigit (unit % 16) (by omega)
  have hunit : unit / 16 * 16 + unit % 16 = unit := by omega
  have hjudge : judgeUnit rules unit none = .character (Char.ofNat unit) := by
    have hsmall : ¬0xD800 ≤ unit := by omega
    simp [judgeUnit, hsmall]
  simp only [readStringFrom, hzero, hhigh, hlow, Nat.zero_mul, Nat.add_zero, Nat.zero_add, hunit,
    hjudge]

/-- What is written for a character is read as this character. -/
theorem readStringFrom_escapeChar (c : Char) (rest : List Char) :
    readStringFrom rules .plain (escapeChar c ++ rest) =
      prepend c (readStringFrom rules .plain rest) := by
  rw [escapeChar]
  split
  · subst c
    rfl
  split
  · subst c
    rfl
  split
  · subst c
    rfl
  split
  · subst c
    rfl
  split
  · subst c
    rfl
  split
  · rename_i hcode
    have hc : Char.ofNat 8 = c := by rw [← hcode, Char.ofNat_toNat]
    subst hc
    rfl
  split
  · rename_i hcode
    have hc : Char.ofNat 12 = c := by rw [← hcode, Char.ofNat_toNat]
    subst hc
    rfl
  split
  · rename_i hcode
    have hdigits := readStringFrom_digits rules hcode rest
    rw [Char.ofNat_toNat] at hdigits
    exact hdigits
  · rename_i hquote hslash _ _ _ _ _ hcode
    simp only [List.singleton_append, readStringFrom, if_neg hquote, if_neg hslash, if_neg hcode]

theorem readStringFrom_flatMap (text rest : List Char) :
    readStringFrom rules .plain (text.flatMap escapeChar ++ '"' :: rest) = .ok (text, rest) := by
  induction text with
  | nil => rfl
  | cons c text ih =>
      rw [List.flatMap_cons, List.append_assoc, readStringFrom_escapeChar, ih]
      rfl

/-- What is written for a string is read as this string, whatever follows it. -/
theorem readString_flatMap (text : String) (rest : List Char) :
    readString rules (text.toList.flatMap escapeChar ++ '"' :: rest) = .ok (text, rest) := by
  rw [readString, readStringFrom_flatMap]
  simp

end Strings

/-- Nothing follows, or a mark that no value contains outside of strings and of its own arrays and
objects. -/
def Delimited (rest : List Char) : Prop :=
  ∀ c, rest.head? = some c → c = ',' ∨ c = ']' ∨ c = '\x7d'

theorem delimited_comma (rest : List Char) : Delimited (',' :: rest) := by
  rintro c ⟨⟩
  exact .inl rfl

theorem delimited_bracket (rest : List Char) : Delimited (']' :: rest) := by
  rintro c ⟨⟩
  exact .inr (.inl rfl)

theorem delimited_brace (rest : List Char) : Delimited ('\x7d' :: rest) := by
  rintro c ⟨⟩
  exact .inr (.inr rfl)

section Numbers

variable {rules : Rules} {rest : List Char}

theorem Delimited.not_mem (h : Delimited rest) {c : Char} {chars : List Char}
    (hchars : ',' ∉ chars ∧ ']' ∉ chars ∧ '\x7d' ∉ chars) (hc : rest.head? = some c) : c ∉ chars := by
  rcases h c hc with rfl | rfl | rfl
  · exact hchars.1
  · exact hchars.2.1
  · exact hchars.2.2

theorem Delimited.not_isDigit (h : Delimited rest) {c : Char} (hc : rest.head? = some c) :
    c.isDigit = false := by
  rcases h c hc with rfl | rfl | rfl <;> rfl

theorem spanDigits_append (h : Delimited rest) (text : List Char) :
    Number.spanDigits (text ++ rest) =
      ((Number.spanDigits text).1, (Number.spanDigits text).2 ++ rest) := by
  simp only [Number.spanDigits, List.span_eq_takeWhile_dropWhile]
  induction text with
  | nil =>
      cases rest with
      | nil => rfl
      | cons c rest => simp [h.not_isDigit rfl]
  | cons c text ih =>
      rw [Prod.mk.injEq] at ih
      cases hc : c.isDigit with
      | true => simp [hc, ih.1, ih.2]
      | false => simp [hc]

theorem splitSign_append (h : Delimited rest) (text : List Char) :
    Number.splitSign (text ++ rest) =
      ((Number.splitSign text).1, (Number.splitSign text).2 ++ rest) := by
  cases text with
  | nil =>
      cases rest with
      | nil => rfl
      | cons c rest =>
          have hc : c ∉ ['-', '+'] := h.not_mem (by decide) rfl
          simp only [List.mem_cons, List.not_mem_nil, or_false, not_or] at hc
          simp [Number.splitSign, hc.1, hc.2]
  | cons c text =>
      simp only [List.cons_append]
      unfold Number.splitSign
      split <;> simp_all

theorem readExponent_append (h : Delimited rest) {text digits left : List Char} {negative : Bool}
    (hread : readExponent rules text = .ok (negative, digits, left)) :
    readExponent rules (text ++ rest) = .ok (negative, digits, left ++ rest) := by
  simp only [readExponent, splitSign_append h, spanDigits_append h] at hread ⊢
  cases hspan : Number.spanDigits (Number.splitSign text).2 with
  | mk found after =>
      rw [hspan] at hread
      cases found with
      | nil => cases hread
      | cons c found =>
          cases hread
          rfl

/-- The number that has been judged, with the text behind it; a number that is passed over is not
judged. -/
def Rules.judged (rules : Rules) (result : Except ReadError Numeral) (after : List Char) :
    Except ReadError (Numeral × List Char) :=
  if !rules.strict then .ok (.integer 0, after)
  else match result with
    | .ok numeral => .ok (numeral, after)
    | .error error => .error error

theorem judged_append {result : Except ReadError Numeral} {numeral : Numeral}
    {after left : List Char} (h : rules.judged result after = .ok (numeral, left))
    (rest : List Char) : rules.judged result (after ++ rest) = .ok (numeral, left ++ rest) := by
  simp only [Rules.judged] at h ⊢
  split at h
  · rename_i hstrict
    rw [if_pos hstrict]
    cases h
    rfl
  · rename_i hstrict
    rw [if_neg hstrict]
    cases result with
    | error error => cases h
    | ok found =>
        cases h
        rfl

theorem mark_cases (text : List Char) :
    (∃ c more, text = c :: more ∧ (c = 'e' ∨ c = 'E')) ∨
      ∀ c, text.head? = some c → c ≠ 'e' ∧ c ≠ 'E' := by
  cases text with
  | nil => exact .inr fun c hc => nomatch hc
  | cons c more =>
      by_cases hc : c = 'e' ∨ c = 'E'
      · exact .inl ⟨c, more, rfl, hc⟩
      · right
        rintro other ⟨⟩
        exact not_or.1 hc

/-- Behind the mark of an exponent. -/
theorem finishNumber_of_mark {negative whole : Bool} {significand : Nat} {exponent : Int} {c : Char}
    (hc : c = 'e' ∨ c = 'E') (more : List Char) :
    finishNumber rules negative significand exponent whole (c :: more) =
      match readExponent rules more with
      | .error error => .error error
      | .ok (negativeExponent, digits, after) =>
        rules.judged
          (if Nat.pow 2 31 ≤ Number.ofDigits digits then
            ofHugeExponent negative significand negativeExponent
          else ofParts negative significand
            (if negativeExponent then exponent - (Number.ofDigits digits : Int)
            else exponent + (Number.ofDigits digits : Int))) after := by
  rcases hc with rfl | rfl <;> rfl

/-- Without an exponent. -/
theorem finishNumber_of_not_mark {negative whole : Bool} {significand : Nat} {exponent : Int}
    {text : List Char} (h : ∀ c, text.head? = some c → c ≠ 'e' ∧ c ≠ 'E') :
    finishNumber rules negative significand exponent whole text =
      rules.judged (if whole then .ok (ofWhole negative significand)
        else ofParts negative significand exponent) text := by
  rw [finishNumber]
  · cases whole <;> rfl
  · rintro more rfl
    exact (h 'e' rfl).1 rfl
  · rintro more rfl
    exact (h 'E' rfl).2 rfl

theorem finishNumber_append (h : Delimited rest) {negative whole : Bool} {significand : Nat}
    {exponent : Int} {text left : List Char} {numeral : Numeral}
    (hread : finishNumber rules negative significand exponent whole text = .ok (numeral, left)) :
    finishNumber rules negative significand exponent whole (text ++ rest) =
      .ok (numeral, left ++ rest) := by
  rcases mark_cases text with ⟨c, more, rfl, hc⟩ | hplain
  · rw [finishNumber_of_mark hc] at hread
    rw [List.cons_append, finishNumber_of_mark hc]
    cases hexponent : readExponent rules more with
    | error error =>
        rw [hexponent] at hread
        cases hread
    | ok found =>
        obtain ⟨negativeExponent, digits, after⟩ := found
        rw [hexponent] at hread
        rw [readExponent_append h hexponent]
        exact judged_append hread rest
  · have hboth : ∀ c, (text ++ rest).head? = some c → c ≠ 'e' ∧ c ≠ 'E' := by
      cases text with
      | nil =>
          intro c hc
          have hmem : c ∉ ['e', 'E'] := h.not_mem (by decide) hc
          simpa using hmem
      | cons c more => exact hplain
    rw [finishNumber_of_not_mark hplain] at hread
    rw [finishNumber_of_not_mark hboth]
    exact judged_append hread rest

/-- The digits at the front of a number: some, and no zero before others. -/
structure IsLead (digits : List Char) : Prop where
  ne_nil : digits ≠ []
  no_zero : ∀ c more, digits ≠ '0' :: c :: more

/-- A number without a point. -/
theorem readNumeral_of_whole {negative : Bool} {text digits after : List Char}
    (hspan : Number.spanDigits text = (digits, after)) (hlead : IsLead digits)
    (hpoint : ∀ more, after ≠ '.' :: more) :
    readNumeral rules negative text =
      finishNumber rules negative (takeDigits 0 digits).1 (takeDigits 0 digits).2.length
        (takeDigits 0 digits).2.isEmpty after := by
  simp only [readNumeral, hspan]
  split
  · rename_i heq
    cases heq
    exact absurd rfl hlead.ne_nil
  · rename_i heq
    cases heq
    exact absurd rfl (hlead.no_zero _ _)
  · rename_i heq
    cases heq
    split
    · exact absurd rfl (hpoint _)
    · rfl

/-- A number with a point. -/
theorem readNumeral_of_point {negative : Bool} {text digits more : List Char}
    (hspan : Number.spanDigits text = (digits, '.' :: more)) (hlead : IsLead digits) :
    readNumeral rules negative text =
      match Number.spanDigits more with
      | ([], after) => .error (rules.brokenOff after)
      | (fraction, after) =>
        finishNumber rules negative (takeDigits (takeDigits 0 digits).1 fraction).1
          (((takeDigits 0 digits).2.length : Int) -
            (fraction.length - (takeDigits (takeDigits 0 digits).1 fraction).2.length : Nat))
          false after := by
  simp only [readNumeral, hspan]
  split
  · rename_i heq
    cases heq
    exact absurd rfl hlead.ne_nil
  · rename_i heq
    cases heq
    exact absurd rfl (hlead.no_zero _ _)
  · rename_i heq
    cases heq
    rfl

theorem isLead_of_readNumeral {negative : Bool} {text digits after left : List Char}
    {numeral : Numeral} (hspan : Number.spanDigits text = (digits, after))
    (hread : readNumeral rules negative text = .ok (numeral, left)) : IsLead digits := by
  simp only [readNumeral, hspan] at hread
  constructor
  · rintro rfl
    cases hread
  · rintro c more rfl
    cases hread

/-- A number is read up to the mark behind it. -/
theorem readNumeral_append (h : Delimited rest) {negative : Bool} {text left : List Char}
    {numeral : Numeral} (hread : readNumeral rules negative text = .ok (numeral, left)) :
    readNumeral rules negative (text ++ rest) = .ok (numeral, left ++ rest) := by
  obtain ⟨digits, after, hspan⟩ : ∃ digits after, Number.spanDigits text = (digits, after) :=
    ⟨_, _, rfl⟩
  have hlead := isLead_of_readNumeral hspan hread
  have hboth : Number.spanDigits (text ++ rest) = (digits, after ++ rest) := by
    rw [spanDigits_append h, hspan]
  by_cases hpoint : ∃ more, after = '.' :: more
  · obtain ⟨more, rfl⟩ := hpoint
    rw [readNumeral_of_point hspan hlead] at hread
    rw [List.cons_append] at hboth
    rw [readNumeral_of_point hboth hlead, spanDigits_append h]
    cases hfraction : Number.spanDigits more with
    | mk fraction behind =>
        rw [hfraction] at hread
        cases fraction with
        | nil => cases hread
        | cons c fraction => exact finishNumber_append h hread
  · have hother : ∀ more, after ++ rest ≠ '.' :: more := by
      intro more heq
      cases after with
      | nil =>
          have hmem : '.' ∉ ['.'] := h.not_mem (by decide) (by rw [← List.nil_append rest, heq]; rfl)
          exact hmem List.mem_cons_self
      | cons c after =>
          cases heq
          exact hpoint ⟨after, rfl⟩
    rw [readNumeral_of_whole hspan hlead fun more heq => hpoint ⟨more, heq⟩] at hread
    rw [readNumeral_of_whole hboth hlead hother]
    exact finishNumber_append h hread

/-- What begins a number. -/
theorem readScalar_number_cases {text left : List Char} {numeral : Numeral}
    (hread : readScalar rules text = .ok (.number numeral, left)) :
    (∃ more, text = '-' :: more ∧ readNumeral rules true more = .ok (numeral, left)) ∨
      ∃ c more, text = c :: more ∧ c.isDigit = true ∧
        readNumeral rules false text = .ok (numeral, left) := by
  have hmapped {result : Except ReadError (Numeral × List Char)}
      (h : result.map (fun read => (Value.number read.1, read.2)) =
        .ok (.number numeral, left)) : result = .ok (numeral, left) := by
    cases result with
    | error error => cases h
    | ok read =>
        cases h
        rfl
  simp only [readScalar] at hread
  split at hread
  · cases hread
  · cases hword : readWord ['u', 'l', 'l'] _ <;> rw [hword] at hread <;> cases hread
  · cases hword : readWord ['r', 'u', 'e'] _ <;> rw [hword] at hread <;> cases hread
  · cases hword : readWord ['a', 'l', 's', 'e'] _ <;> rw [hword] at hread <;> cases hread
  · exact .inl ⟨_, rfl, hmapped hread⟩
  · cases hstring : readString rules _ <;> rw [hstring] at hread <;> cases hread
  · split at hread
    · rename_i hc
      exact .inr ⟨_, _, rfl, hc, hmapped hread⟩
    · cases hread

theorem ne_of_isDigit {c d : Char} (hc : c.isDigit = true) (hd : d.isDigit = false) : c ≠ d := by
  rintro rfl
  rw [hc] at hd
  cases hd

/-- No word and no string begins with a digit. -/
theorem readScalar_of_isDigit {c : Char} (hc : c.isDigit = true) (more : List Char) :
    readScalar rules (c :: more) =
      (readNumeral rules false (c :: more)).map fun read => (.number read.1, read.2) := by
  simp only [readScalar]
  split
  · rename_i heq
    cases heq
  · rename_i heq
    cases heq
    exact absurd rfl (ne_of_isDigit hc (by decide))
  · rename_i heq
    cases heq
    exact absurd rfl (ne_of_isDigit hc (by decide))
  · rename_i heq
    cases heq
    exact absurd rfl (ne_of_isDigit hc (by decide))
  · rename_i heq
    cases heq
    exact absurd rfl (ne_of_isDigit hc (by decide))
  · rename_i heq
    cases heq
    exact absurd rfl (ne_of_isDigit hc (by decide))
  · rename_i heq
    cases heq
    rw [if_pos hc]

/-- A scalar that is a number is read up to the mark behind it. -/
theorem readScalar_append (h : Delimited rest) {text left : List Char} {numeral : Numeral}
    (hread : readScalar rules text = .ok (.number numeral, left)) :
    readScalar rules (text ++ rest) = .ok (.number numeral, left ++ rest) := by
  rcases readScalar_number_cases hread with ⟨more, rfl, hnumeral⟩ | ⟨c, more, rfl, hc, hnumeral⟩
  · rw [List.cons_append, readScalar, readNumeral_append h hnumeral]
    rfl
  · rw [List.cons_append, readScalar_of_isDigit hc, ← List.cons_append,
      readNumeral_append h hnumeral]
    rfl

end Numbers

end StackPipeline.Json
