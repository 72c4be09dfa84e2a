import StackPipeline.Text.Blank

/-!
How a text is put together decides how it comes apart: what trimming keeps, where a text is cut, and
which words, pieces and lines it has.
-/

namespace StackPipeline.Text

/-- A word: some characters, none of them a blank. -/
structure IsWord (text : List Char) : Prop where
  ne_nil : text ≠ []
  not_blank : ∀ c ∈ text, isBlank c = false

/-- No blank stands at either end. -/
structure Bare (text : List Char) : Prop where
  front : ∀ c, text.head? = some c → isBlank c = false
  back : ∀ c, text.getLast? = some c → isBlank c = false

theorem isWord_iff {text : List Char} : IsWord text ↔ text ≠ [] ∧ text.all (!isBlank ·) = true := by
  constructor
  · rintro ⟨hne, hblank⟩
    exact ⟨hne, by simpa using hblank⟩
  · rintro ⟨hne, hblank⟩
    exact ⟨hne, by simpa using hblank⟩

instance (text : List Char) : Decidable (IsWord text) :=
  decidable_of_iff _ isWord_iff.symm

theorem bare_iff {text : List Char} :
    Bare text ↔ text.head?.all (!isBlank ·) = true ∧ text.getLast?.all (!isBlank ·) = true := by
  simp only [Option.all_eq_true_iff_get, Bool.not_eq_true']
  constructor
  · rintro ⟨hfront, hback⟩
    exact ⟨fun h => hfront _ (Option.some_get h).symm, fun h => hback _ (Option.some_get h).symm⟩
  · rintro ⟨hfront, hback⟩
    refine ⟨fun c hc => ?_, fun c hc => ?_⟩
    · simpa [hc] using hfront
    · simpa [hc] using hback

instance (text : List Char) : Decidable (Bare text) :=
  decidable_of_iff _ bare_iff.symm

theorem trimFront_of_front {text : List Char}
    (h : ∀ c, text.head? = some c → isBlank c = false) : trimFront text = text := by
  cases text with
  | nil => rfl
  | cons c text => simp [trimFront, h c rfl]

theorem front_trimFront (text : List Char) :
    ∀ c, (trimFront text).head? = some c → isBlank c = false := by
  intro c hc
  have hnot := List.head?_dropWhile_not isBlank text
  rw [trimFront] at hc
  rwa [hc] at hnot

theorem trim_of_bare {text : List Char} (h : Bare text) : trim text = text := by
  have hback : trimFront text.reverse = text.reverse := by
    apply trimFront_of_front
    simpa using h.back
  rw [trim, trimFront_of_front h.front, dropBack]
  rw [trimFront] at hback
  rw [hback, List.reverse_reverse]

theorem bare_trim (text : List Char) : Bare (trim text) := by
  refine ⟨?_, ?_⟩
  · intro c hc
    have hfront : trim text <+: trimFront text := by
      rw [trim, dropBack, ← List.reverse_suffix, List.reverse_reverse]
      exact List.dropWhile_suffix isBlank
    obtain ⟨rest, hrest⟩ := hfront
    apply front_trimFront text c
    rw [← hrest, List.head?_append, hc]
    rfl
  · intro c hc
    rw [trim, dropBack, List.getLast?_reverse] at hc
    exact front_trimFront (trimFront text).reverse c hc

theorem trim_blank_cons {c : Char} (h : isBlank c = true) (text : List Char) :
    trim (c :: text) = trim text := by
  rw [trim, trim, trimFront, List.dropWhile_cons_of_pos h]
  rfl

theorem trim_append_blank {c : Char} (h : isBlank c = true) (text : List Char) :
    trim (text ++ [c]) = trim text := by
  rw [trim, trim, trimFront, trimFront, List.dropWhile_append]
  split
  · rename_i hnil
    rw [List.isEmpty_iff.1 hnil, List.dropWhile_cons_of_pos h]
    rfl
  · rw [dropBack, dropBack, List.reverse_append, List.reverse_singleton, List.singleton_append,
      List.dropWhile_cons_of_pos h]

/-- Trimming takes away nothing but blanks at the two ends. -/
theorem exists_eq_trim (text : List Char) :
    ∃ front back, text = front ++ (trim text ++ back) ∧ (∀ c ∈ front, isBlank c = true) ∧
      ∀ c ∈ back, isBlank c = true := by
  have htake : ∀ (row : List Char), ∀ c ∈ row.takeWhile isBlank, isBlank c = true :=
    fun row c hc => List.all_eq_true.1 List.all_takeWhile c hc
  have hcut : ∀ row : List Char, row.takeWhile isBlank ++ row.dropWhile isBlank = row :=
    fun row => List.takeWhile_append_dropWhile
  refine ⟨text.takeWhile isBlank, ((trimFront text).reverse.takeWhile isBlank).reverse, ?_,
    htake text, ?_⟩
  · rw [trim, dropBack, ← List.reverse_append, hcut, List.reverse_reverse, trimFront, hcut]
  · intro c hc
    exact htake _ c (List.mem_reverse.1 hc)

theorem mem_of_mem_trim {text : List Char} {c : Char} (h : c ∈ trim text) : c ∈ text := by
  obtain ⟨front, back, heq, -⟩ := exists_eq_trim text
  rw [heq]
  exact List.mem_append_right front (List.mem_append_left back h)

/-- Trimming keeps every character that is no blank. -/
theorem mem_trim {text : List Char} {c : Char} (h : c ∈ text) (hc : isBlank c = false) :
    c ∈ trim text := by
  obtain ⟨front, back, heq, hfront, hback⟩ := exists_eq_trim text
  rw [heq, List.mem_append, List.mem_append] at h
  rcases h with h | h | h
  · rw [hfront c h] at hc
    cases hc
  · exact h
  · rw [hback c h] at hc
    cases hc

/-- Where no blank stands first, trimming keeps the first character. -/
theorem head?_trim {text : List Char} (hfront : ∀ c, text.head? = some c → isBlank c = false)
    (hne : trim text ≠ []) : (trim text).head? = text.head? := by
  obtain ⟨front, back, heq, hblank, -⟩ := exists_eq_trim text
  obtain ⟨c, rest, htrim⟩ := List.exists_cons_of_ne_nil hne
  cases front with
  | nil =>
      rw [htrim] at heq ⊢
      rw [heq]
      rfl
  | cons d front =>
      have hd := hfront d (heq ▸ rfl)
      rw [hblank d List.mem_cons_self] at hd
      cases hd

/-- Where no blank stands last, trimming keeps the last character. -/
theorem getLast?_trim {text : List Char} (hback : ∀ c, text.getLast? = some c → isBlank c = false)
    (hne : trim text ≠ []) : (trim text).getLast? = text.getLast? := by
  obtain ⟨front, back, heq, -, hblank⟩ := exists_eq_trim text
  cases hlast : back.getLast? with
  | some c =>
      have hnot := hback c (by rw [heq]; simp [List.getLast?_append, hlast])
      rw [hblank c (List.mem_of_getLast? hlast)] at hnot
      cases hnot
  | none =>
      have hkept : text.getLast? = (front ++ trim text).getLast? := by
        rw [List.getLast?_eq_none_iff.1 hlast, List.append_nil] at heq
        exact congrArg List.getLast? heq
      rw [hkept]
      simp [List.getLast?_append, List.getLast?_eq_some_getLast hne]

theorem head?_trim_append {front back : List Char} (h : Bare (front ++ back))
    (hne : trim front ≠ []) : (trim front).head? = (front ++ back).head? := by
  cases front with
  | nil => exact absurd rfl hne
  | cons c front => exact head?_trim h.front hne

theorem getLast?_trim_append {front back : List Char} (h : Bare (front ++ back))
    (hne : trim back ≠ []) : (trim back).getLast? = (front ++ back).getLast? := by
  have hback : back ≠ [] := by
    rintro rfl
    exact hne rfl
  have hlast : (front ++ back).getLast? = back.getLast? := by
    simp [List.getLast?_append, List.getLast?_eq_some_getLast hback]
  rw [hlast]
  exact getLast?_trim (hlast ▸ h.back) hne

/-- Only the ends count. -/
theorem Bare.append {front back : List Char} (hfront : Bare front) (hback : Bare back)
    (hfirst : front ≠ []) (hlast : back ≠ []) (middle : List Char) :
    Bare (front ++ (middle ++ back)) := by
  refine ⟨?_, ?_⟩
  · intro c hc
    obtain ⟨d, front, rfl⟩ := List.exists_cons_of_ne_nil hfirst
    exact hfront.front c hc
  · intro c hc
    have heq : (front ++ (middle ++ back)).getLast? = back.getLast? := by
      simp [List.getLast?_append, List.getLast?_eq_some_getLast hlast]
    exact hback.back c (heq ▸ hc)

theorem IsWord.bare {text : List Char} (h : IsWord text) : Bare text :=
  ⟨fun c hc => h.not_blank c (List.mem_of_mem_head? hc),
    fun c hc => h.not_blank c (List.mem_of_getLast? hc)⟩

theorem IsWord.not_mem_feed {text : List Char} (h : IsWord text) : '\n' ∉ text :=
  fun hmem => absurd (h.not_blank _ hmem) (by decide)

theorem IsWord.not_mem_space {text : List Char} (h : IsWord text) : ' ' ∉ text :=
  fun hmem => absurd (h.not_blank _ hmem) (by decide)

theorem IsWord.trim_eq {text : List Char} (h : IsWord text) : trim text = text :=
  trim_of_bare h.bare

theorem singleWord?_eq_some_iff {text word : List Char} :
    singleWord? text = some word ↔ trim text = word ∧ IsWord word := by
  rw [singleWord?]
  constructor
  · intro h
    split at h
    · cases h
    · rename_i hword
      obtain rfl := Option.some.inj h
      simp only [Bool.or_eq_true, List.isEmpty_iff, List.any_eq_true, not_or, not_exists] at hword
      refine ⟨rfl, hword.1, ?_⟩
      intro c hc
      simpa [hc] using hword.2 c
  · rintro ⟨rfl, hword⟩
    refine if_neg ?_
    simp only [Bool.or_eq_true, List.isEmpty_iff, List.any_eq_true, not_or, not_exists]
    refine ⟨hword.ne_nil, ?_⟩
    rintro c ⟨hc, hblank⟩
    rw [hword.not_blank c hc] at hblank
    cases hblank

theorem singleWord?_of_isWord {text : List Char} (h : IsWord text) : singleWord? text = some text :=
  singleWord?_eq_some_iff.2 ⟨h.trim_eq, h⟩

section Cuts

variable {p : Char → Bool}

theorem after?_eq_some_iff {lead text rest : List Char} :
    after? lead text = some rest ↔ text = lead ++ rest := by
  induction lead generalizing text with
  | nil => simp [after?]
  | cons c lead ih =>
      cases text with
      | nil => simp [after?]
      | cons d text =>
          by_cases h : c = d
          · simp [after?, h, ih]
          · simp [after?, h, Ne.symm h]

theorem after?_append (lead rest : List Char) : after? lead (lead ++ rest) = some rest :=
  after?_eq_some_iff.2 rfl

/-- Which word stands before the first space says which lead the text has. -/
theorem after?_word_space {word text : List Char} (hword : ' ' ∉ word) (htext : ' ' ∉ text)
    (rest : List Char) :
    after? (word ++ [' ']) (text ++ ' ' :: rest) = if word = text then some rest else none := by
  induction word generalizing text with
  | nil =>
      cases text with
      | nil => rfl
      | cons d text =>
          rw [List.mem_cons, not_or] at htext
          simp [after?, htext.1]
  | cons c word ih =>
      rw [List.mem_cons, not_or] at hword
      cases text with
      | nil => simp [after?, Ne.symm hword.1]
      | cons d text =>
          rw [List.mem_cons, not_or] at htext
          by_cases h : c = d
          · simp [after?, h, ih hword.2 htext.2]
          · simp [after?, h]

/-- A text does not start with a lead that has a character which is not in the text. -/
theorem after?_eq_none {lead text : List Char} {c : Char} (hc : c ∈ lead) (htext : c ∉ text) :
    after? lead text = none := by
  cases h : after? lead text with
  | none => rfl
  | some rest =>
      rw [after?_eq_some_iff] at h
      exact absurd (h ▸ List.mem_append_left rest hc) htext

/-- The first character that satisfies `p` is where a text is cut. -/
theorem cut?_append {front : List Char} (hfront : ∀ c ∈ front, p c = false) {c : Char}
    (hc : p c = true) (back : List Char) : cut? p (front ++ c :: back) = some (front, back) := by
  induction front with
  | nil => simp [cut?, hc]
  | cons d front ih =>
      have hrest := ih fun e he => hfront e (List.mem_cons_of_mem d he)
      simp [cut?, hfront d List.mem_cons_self, hrest]

theorem cut?_eq_none {text : List Char} (h : ∀ c ∈ text, p c = false) : cut? p text = none := by
  induction text with
  | nil => rfl
  | cons c text ih =>
      have hrest := ih fun d hd => h d (List.mem_cons_of_mem c hd)
      simp [cut?, h c List.mem_cons_self, hrest]

theorem of_cut?_eq_some {text front back : List Char} (h : cut? p text = some (front, back)) :
    ∃ c, text = front ++ c :: back ∧ p c = true ∧ ∀ d ∈ front, p d = false := by
  induction text generalizing front with
  | nil => simp [cut?] at h
  | cons c text ih =>
      by_cases hc : p c = true
      · simp only [cut?, hc, ↓reduceIte, Option.some.injEq, Prod.mk.injEq] at h
        obtain ⟨rfl, rfl⟩ := h
        exact ⟨c, rfl, hc, fun d hd => absurd hd List.not_mem_nil⟩
      · cases hcut : cut? p text with
        | none => simp [cut?, hc, hcut] at h
        | some parts =>
            rw [cut?, if_neg hc, hcut] at h
            cases h
            obtain ⟨d, rfl, hd, hbefore⟩ := ih hcut
            refine ⟨d, rfl, hd, ?_⟩
            intro e he
            rcases List.mem_cons.1 he with rfl | he
            · simpa using hc
            · exact hbefore e he

end Cuts

section Pieces

variable {separator : Char}

theorem pieces_of_not_mem {text : List Char} (h : separator ∉ text) :
    pieces separator text = [text] := by
  induction text with
  | nil => rfl
  | cons c text ih =>
      rw [List.mem_cons, not_or] at h
      simp [pieces, Ne.symm h.1, ih h.2]

/-- There is always a first piece. -/
theorem exists_pieces_eq_cons (separator : Char) (text : List Char) :
    ∃ first rest, pieces separator text = first :: rest := by
  cases text with
  | nil => exact ⟨[], [], rfl⟩
  | cons c text =>
      rw [pieces]
      split
      · exact ⟨_, _, rfl⟩
      · split
        · exact ⟨_, _, rfl⟩
        · exact ⟨_, _, rfl⟩

/-- What is put in front becomes part of the first piece. -/
theorem pieces_append_of_not_mem {front text first : List Char} {rest : List (List Char)}
    (h : separator ∉ front) (htext : pieces separator text = first :: rest) :
    pieces separator (front ++ text) = (front ++ first) :: rest := by
  induction front with
  | nil => exact htext
  | cons c front ih =>
      rw [List.mem_cons, not_or] at h
      rw [List.cons_append, pieces, if_neg (Ne.symm h.1), ih h.2]
      rfl

/-- A separator parts the pieces before it from those behind it. -/
theorem pieces_append_separator (front rest : List Char) :
    pieces separator (front ++ separator :: rest) =
      pieces separator front ++ pieces separator rest := by
  induction front with
  | nil => simp [pieces]
  | cons c front ih =>
      obtain ⟨first, more, hfront⟩ := exists_pieces_eq_cons separator front
      rw [hfront] at ih
      by_cases hc : c = separator
      · simp [pieces, hc, ih, hfront]
      · simp [pieces, hc, ih, hfront]

theorem pieces_append {front : List Char} (h : separator ∉ front) (rest : List Char) :
    pieces separator (front ++ separator :: rest) = front :: pieces separator rest := by
  rw [pieces_append_separator, pieces_of_not_mem h]
  rfl

/-- No piece holds the separator, and each holds only characters of the text. -/
theorem of_mem_pieces {text piece : List Char} (h : piece ∈ pieces separator text) :
    separator ∉ piece ∧ piece ⊆ text := by
  induction text generalizing piece with
  | nil => simp_all [pieces]
  | cons c text ih =>
      by_cases hc : c = separator
      · simp only [pieces, hc, ↓reduceIte, List.mem_cons] at h
        rcases h with rfl | h
        · simp
        · exact ⟨(ih h).1, List.subset_cons_of_subset c (ih h).2⟩
      · cases hpieces : pieces separator text with
        | nil =>
            rw [pieces, if_neg hc, hpieces, List.mem_singleton] at h
            subst h
            simp [Ne.symm hc]
        | cons first rest =>
            rw [hpieces] at ih
            simp only [pieces, hc, ↓reduceIte, hpieces, List.mem_cons] at h
            rcases h with rfl | h
            · obtain ⟨hfirst, hsub⟩ := ih List.mem_cons_self
              refine ⟨?_, List.cons_subset_cons c hsub⟩
              rw [List.mem_cons, not_or]
              exact ⟨Ne.symm hc, hfirst⟩
            · obtain ⟨hpiece, hsub⟩ := ih (List.mem_cons_of_mem first h)
              exact ⟨hpiece, List.subset_cons_of_subset c hsub⟩

end Pieces

section Words

theorem words_nil : words [] = [] := rfl

theorem words_cons (c : Char) (text : List Char) :
    words (c :: text) =
      if isBlank c then words text
      else match text with
        | [] => [[c]]
        | d :: _ =>
          if isBlank d then [c] :: words text
          else match words text with
            | [] => [[c]]
            | word :: rest => (c :: word) :: rest := by
  cases text with
  | nil => rfl
  | cons d text => rfl

theorem words_blank_cons {c : Char} (h : isBlank c = true) (text : List Char) :
    words (c :: text) = words text := by
  rw [words_cons, if_pos h]

theorem words_eq_nil {text : List Char} (h : ∀ c ∈ text, isBlank c = true) : words text = [] := by
  induction text with
  | nil => rfl
  | cons c text ih =>
      rw [words_blank_cons (h c List.mem_cons_self)]
      exact ih fun d hd => h d (List.mem_cons_of_mem c hd)

/-- A word ends where the text ends or at a blank. -/
theorem words_append {word : List Char} (hword : IsWord word) {rest : List Char}
    (hrest : ∀ c, rest.head? = some c → isBlank c = true) :
    words (word ++ rest) = word :: words rest := by
  obtain ⟨hne, hblank⟩ := hword
  induction word with
  | nil => exact absurd rfl hne
  | cons c word ih =>
      have hc := hblank c List.mem_cons_self
      cases word with
      | nil =>
          cases rest with
          | nil => simp [words_cons, hc, words_nil]
          | cons d rest => simp [words_cons c, hc, hrest d rfl]
      | cons d word =>
          have hd := hblank d (List.mem_cons_of_mem c List.mem_cons_self)
          have htail := ih (List.cons_ne_nil d word) fun e he => hblank e (List.mem_cons_of_mem c he)
          rw [List.cons_append] at htail
          rw [List.cons_append, List.cons_append, words_cons, if_neg (by simp [hc])]
          simp [hd, htail]

theorem words_of_isWord {word : List Char} (h : IsWord word) : words word = [word] := by
  have hwords : words (word ++ []) = word :: words [] := words_append h (by simp)
  rwa [List.append_nil, words_nil] at hwords

theorem words_append_space {word : List Char} (hword : IsWord word) (rest : List Char) :
    words (word ++ ' ' :: rest) = word :: words rest := by
  rw [words_append hword (by rintro c ⟨⟩; rfl), words_blank_cons rfl]

/-- A text has no words, or it starts with blanks, its first word, and what ends that. -/
theorem words_cases (text : List Char) :
    (∀ c ∈ text, isBlank c = true) ∨
      ∃ blanks word rest, text = blanks ++ (word ++ rest) ∧ (∀ c ∈ blanks, isBlank c = true) ∧
        IsWord word ∧ ∀ c, rest.head? = some c → isBlank c = true := by
  induction text with
  | nil => exact .inl fun c hc => absurd hc List.not_mem_nil
  | cons c text ih =>
      by_cases hc : isBlank c = true
      · rcases ih with hblank | ⟨blanks, word, rest, rfl, hblanks, hword, hrest⟩
        · exact .inl (List.forall_mem_cons.2 ⟨hc, hblank⟩)
        · exact .inr ⟨c :: blanks, word, rest, rfl, List.forall_mem_cons.2 ⟨hc, hblanks⟩, hword,
            hrest⟩
      · right
        refine ⟨[], c :: text.takeWhile (!isBlank ·), text.dropWhile (!isBlank ·), ?_, ?_, ⟨?_, ?_⟩,
          ?_⟩
        · simp [List.takeWhile_append_dropWhile]
        · simp
        · simp
        · intro d hd
          rcases List.mem_cons.1 hd with rfl | hd
          · simpa using hc
          · have hword := List.all_eq_true.1 (List.all_takeWhile (p := (!isBlank ·)) (l := text)) d hd
            simpa using hword
        · intro d hd
          have hnot := List.head?_dropWhile_not (!isBlank ·) text
          rw [hd] at hnot
          simpa using hnot

theorem words_blanks_append {blanks : List Char} (h : ∀ c ∈ blanks, isBlank c = true)
    (text : List Char) : words (blanks ++ text) = words text := by
  induction blanks with
  | nil => rfl
  | cons c blanks ih =>
      rw [List.cons_append, words_blank_cons (h c List.mem_cons_self)]
      exact ih fun d hd => h d (List.mem_cons_of_mem c hd)

/-- What a text whose first word is known looks like. -/
theorem of_words_eq_cons {text word : List Char} {more : List (List Char)}
    (h : words text = word :: more) :
    ∃ blanks rest, text = blanks ++ (word ++ rest) ∧ (∀ c ∈ blanks, isBlank c = true) ∧
      IsWord word ∧ (∀ c, rest.head? = some c → isBlank c = true) ∧ words rest = more := by
  rcases words_cases text with hblank | ⟨blanks, first, rest, rfl, hblanks, hfirst, hrest⟩
  · rw [words_eq_nil hblank] at h
    cases h
  · rw [words_blanks_append hblanks, words_append hfirst hrest] at h
    obtain ⟨rfl, rfl⟩ := List.cons.inj h
    exact ⟨blanks, rest, rfl, hblanks, hfirst, hrest, rfl⟩

theorem of_words_eq_nil {text : List Char} (h : words text = []) :
    ∀ c ∈ text, isBlank c = true := by
  rcases words_cases text with hblank | ⟨blanks, first, rest, rfl, hblanks, hfirst, hrest⟩
  · exact hblank
  · rw [words_blanks_append hblanks, words_append hfirst hrest] at h
    cases h

theorem isWord_of_mem_words {text word : List Char} (h : word ∈ words text) : IsWord word := by
  generalize hwords : words text = all at h
  induction all generalizing text with
  | nil => exact absurd h List.not_mem_nil
  | cons first more ih =>
      obtain ⟨blanks, rest, -, -, hfirst, -, hrest⟩ := of_words_eq_cons hwords
      rcases List.mem_cons.1 h with rfl | h
      · exact hfirst
      · exact ih hrest h

/-- Where no blank stands last, the last character belongs to the last word. -/
theorem getLast?_of_words {text last : List Char} {front : List (List Char)}
    (hback : ∀ c, text.getLast? = some c → isBlank c = false) (h : words text = front ++ [last]) :
    text.getLast? = last.getLast? := by
  have hword : last ≠ [] := by
    have hmem : last ∈ words text := by
      rw [h]
      exact List.mem_append_right front List.mem_cons_self
    exact (isWord_of_mem_words hmem).ne_nil
  induction front generalizing text with
  | nil =>
      obtain ⟨blanks, rest, rfl, -, -, -, hrest⟩ := of_words_eq_cons h
      have hblank := of_words_eq_nil hrest
      cases hlast : rest.getLast? with
      | none =>
          rw [List.getLast?_eq_none_iff.1 hlast]
          simp [List.getLast?_append, List.getLast?_eq_some_getLast hword]
      | some c =>
          have hnot := hback c (by simp [List.getLast?_append, hlast])
          rw [hblank c (List.mem_of_getLast? hlast)] at hnot
          cases hnot
  | cons first front ih =>
      obtain ⟨blanks, rest, rfl, -, -, -, hrest⟩ := of_words_eq_cons h
      have hne : rest ≠ [] := by
        rintro rfl
        simp [words_nil] at hrest
      have hlast : (blanks ++ (first ++ rest)).getLast? = rest.getLast? := by
        simp [List.getLast?_append, List.getLast?_eq_some_getLast hne]
      rw [hlast] at hback ⊢
      exact ih hback hrest

end Words

section Lines

theorem lines_cons {c : Char} {text : List Char} (hc : c ≠ '\n')
    (hback : c = '\r' → text.head? ≠ some '\n') :
    lines (c :: text) =
      match lines text with
      | [] => [[c]]
      | line :: rest => (c :: line) :: rest := by
  have hpair : ∀ rest, c = '\r' → text = '\n' :: rest → False := by
    rintro rest rfl rfl
    exact hback rfl rfl
  refine (lines.eq_4 c text hc hpair).trans ?_
  cases lines text with
  | nil => rfl
  | cons line rest => rfl

theorem lines_of_not_mem {row : List Char} (h : '\n' ∉ row) (hne : row ≠ []) :
    lines row = [row] := by
  induction row with
  | nil => exact absurd rfl hne
  | cons c row ih =>
      rw [List.mem_cons, not_or] at h
      have hhead : row.head? ≠ some '\n' := fun hhead => h.2 (List.mem_of_mem_head? hhead)
      rw [lines_cons (Ne.symm h.1) fun _ => hhead]
      cases row with
      | nil => rfl
      | cons d row => rw [ih h.2 (List.cons_ne_nil d row)]

/-- A row without a line feed and without a carriage return at its end is a line. -/
theorem lines_append {row : List Char} (h : '\n' ∉ row) (hback : row.getLast? ≠ some '\r')
    (rest : List Char) : lines (row ++ '\n' :: rest) = row :: lines rest := by
  induction row with
  | nil => simp [lines]
  | cons c row ih =>
      rw [List.mem_cons, not_or] at h
      have hhead : c = '\r' → (row ++ '\n' :: rest).head? ≠ some '\n' := by
        rintro rfl hhead
        cases row with
        | nil => exact hback rfl
        | cons d row =>
            obtain rfl := Option.some.inj hhead
            exact h.2 List.mem_cons_self
      have hrest : row.getLast? ≠ some '\r' := by
        intro hlast
        cases row with
        | nil => cases hlast
        | cons d row => exact hback (by rw [List.getLast?_cons_cons]; exact hlast)
      rw [List.cons_append, lines_cons (Ne.symm h.1) hhead, ih h.2 hrest]

/-- One carriage return at the end of a row goes with the line feed. -/
theorem lines_append_return {row : List Char} (h : '\n' ∉ row) (rest : List Char) :
    lines (row ++ '\r' :: '\n' :: rest) = row :: lines rest := by
  induction row with
  | nil => simp [lines]
  | cons c row ih =>
      rw [List.mem_cons, not_or] at h
      have hhead : (row ++ '\r' :: '\n' :: rest).head? ≠ some '\n' := by
        intro hhead
        cases row with
        | nil => cases hhead
        | cons d row =>
            obtain rfl := Option.some.inj hhead
            exact h.2 List.mem_cons_self
      rw [List.cons_append, lines_cons (Ne.symm h.1) fun _ => hhead, ih h.2]

/-- Rows are read back from the text that sets them one under the other. -/
theorem lines_joinLines {rows : List (List Char)} (hne : ∀ row ∈ rows, row ≠ [])
    (hfeed : ∀ row ∈ rows, '\n' ∉ row) (hback : ∀ row ∈ rows, row.getLast? ≠ some '\r') :
    lines (joinLines rows) = rows := by
  induction rows with
  | nil => simp [joinLines, lines]
  | cons row rows ih =>
      rw [List.forall_mem_cons] at hne hfeed hback
      cases rows with
      | nil => exact lines_of_not_mem hfeed.1 hne.1
      | cons next rows =>
          rw [joinLines, lines_append hfeed.1 hback.1, ih hne.2 hfeed.2 hback.2]
          exact List.cons_ne_nil next rows

theorem not_mem_of_mem_lines {text row : List Char} (h : row ∈ lines text) : '\n' ∉ row := by
  induction text using lines.induct generalizing row with
  | case1 => simp [lines] at h
  | case2 text ih =>
      rw [lines] at h
      rcases List.mem_cons.1 h with rfl | h
      · exact List.not_mem_nil
      · exact ih h
  | case3 text ih =>
      rw [lines] at h
      rcases List.mem_cons.1 h with rfl | h
      · exact List.not_mem_nil
      · exact ih h
  | case4 c text hc hback hnil ih =>
      rw [lines, hnil, List.mem_singleton] at h
      · subst h
        simpa using Ne.symm hc
      · exact hc
      · exact hback
  | case5 c text hc hback line rest hcons ih =>
      rw [lines, hcons] at h
      · rcases List.mem_cons.1 h with rfl | h
        · rw [List.mem_cons, not_or]
          exact ⟨Ne.symm hc, ih (hcons ▸ List.mem_cons_self)⟩
        · exact ih (hcons ▸ List.mem_cons_of_mem line h)
      · exact hc
      · exact hback

theorem mem_of_mem_numbered {α : Type} {start number : Nat} {x : α} {xs : List α}
    (h : (number, x) ∈ numbered start xs) : x ∈ xs := by
  induction xs generalizing start with
  | nil => exact absurd h List.not_mem_nil
  | cons y xs ih =>
      rcases List.mem_cons.1 h with heq | h
      · cases heq
        exact List.mem_cons_self
      · exact List.mem_cons_of_mem y (ih h)

theorem map_snd_numbered {α : Type} (start : Nat) (xs : List α) :
    (numbered start xs).map Prod.snd = xs := by
  induction xs generalizing start with
  | nil => rfl
  | cons x xs ih => rw [numbered, List.map_cons, ih]

end Lines

end StackPipeline.Text
