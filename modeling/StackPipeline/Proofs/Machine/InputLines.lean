import StackPipeline.Machine.Channel
import StackPipeline.Text.Utf8

/-!
The lines of input: where a line ends among the bytes, and what is left of it as a text.

The byte 10 is a line feed and never a part of another character.  So lines can be cut among the bytes,
and a text is cut where its line feeds are.
-/

namespace StackPipeline

open Text (Utf8.encode)

namespace Text

section Bytes

/-- A character that is not ASCII has no ASCII byte. -/
theorem le_of_mem_utf8EncodeChar {c : Char} (h : 127 < c.val.toNat) {byte : UInt8}
    (hbyte : byte ∈ String.utf8EncodeChar c) : 128 ≤ byte.toNat := by
  rw [String.utf8EncodeChar, if_neg (Nat.not_le_of_lt h)] at hbyte
  split at hbyte
  · simp only [List.mem_cons, List.not_mem_nil, or_false] at hbyte
    rcases hbyte with rfl | rfl <;> rw [UInt8.toNat_ofNat'] <;> omega
  · split at hbyte
    · simp only [List.mem_cons, List.not_mem_nil, or_false] at hbyte
      rcases hbyte with rfl | rfl | rfl <;> rw [UInt8.toNat_ofNat'] <;> omega
    · simp only [List.mem_cons, List.not_mem_nil, or_false] at hbyte
      rcases hbyte with rfl | rfl | rfl | rfl <;> rw [UInt8.toNat_ofNat'] <;> omega

theorem mem_utf8EncodeChar_feed_iff {c : Char} :
    (10 : UInt8) ∈ String.utf8EncodeChar c ↔ c = '\n' := by
  constructor
  · intro h
    have hle : c.val.toNat ≤ 127 := by
      apply Nat.le_of_not_lt
      intro hlt
      exact absurd (le_of_mem_utf8EncodeChar hlt h) (by decide)
    rw [String.utf8EncodeChar, if_pos hle, List.mem_singleton] at h
    have hbyte := congrArg UInt8.toNat h
    rw [UInt8.toNat_ofNat'] at hbyte
    apply Char.ext
    apply UInt32.toNat.inj
    change c.val.toNat = 10
    change 10 = _ at hbyte
    omega
  · rintro rfl
    decide

theorem encode_ofList (text : List Char) :
    Utf8.encode (String.ofList text) = text.flatMap String.utf8EncodeChar := by
  rw [Utf8.encode, String.toUTF8, String.toByteArray_ofList, List.utf8Encode]
  simp

theorem encode_ofList_nil : Utf8.encode (String.ofList []) = [] := encode_ofList []

theorem encode_ofList_append (front back : List Char) :
    Utf8.encode (String.ofList (front ++ back)) =
      Utf8.encode (String.ofList front) ++ Utf8.encode (String.ofList back) := by
  rw [encode_ofList, encode_ofList, encode_ofList, List.flatMap_append]

theorem encode_ofList_feed (rest : List Char) :
    Utf8.encode (String.ofList ('\n' :: rest)) = 10 :: Utf8.encode (String.ofList rest) := by
  rw [encode_ofList, encode_ofList, List.flatMap_cons]
  rfl

theorem mem_encode_feed_iff {text : List Char} :
    (10 : UInt8) ∈ Utf8.encode (String.ofList text) ↔ '\n' ∈ text := by
  rw [encode_ofList, List.mem_flatMap]
  simp [mem_utf8EncodeChar_feed_iff]

theorem encode_ofList_eq_nil {text : List Char} :
    Utf8.encode (String.ofList text) = [] ↔ text = [] := by
  rw [encode_ofList]
  cases text with
  | nil => simp
  | cons c rest =>
      rw [List.flatMap_cons, List.append_eq_nil_iff]
      simp [String.utf8EncodeChar_ne_nil]

/-- If the byte of a line feed is the last one and no other, the text ends in its only line feed. -/
theorem exists_eq_append_feed {text : List Char} {front : List UInt8} (hfront : 10 ∉ front)
    (h : Utf8.encode (String.ofList text) = front ++ [10]) :
    ∃ line, '\n' ∉ line ∧ text = line ++ ['\n'] := by
  rcases List.eq_nil_or_concat text with rfl | ⟨line, last, rfl⟩
  · rw [encode_ofList_nil] at h
    simp at h
  · rw [List.concat_eq_append] at h ⊢
    have hlast : last = '\n' := by
      have hback := congrArg List.getLast? h
      obtain ⟨byte, hbyte⟩ : ∃ byte, (String.utf8EncodeChar last).getLast? = some byte :=
        Option.isSome_iff_exists.1 (List.getLast?_isSome.2 String.utf8EncodeChar_ne_nil)
      rw [encode_ofList, List.flatMap_append, List.flatMap_singleton, List.getLast?_append, hbyte,
        List.getLast?_append, Option.some_or] at hback
      obtain rfl := Option.some.inj hback
      exact mem_utf8EncodeChar_feed_iff.1 (List.mem_of_getLast? hbyte)
    subst hlast
    rw [encode_ofList_append, encode_ofList_feed, encode_ofList_nil] at h
    refine ⟨line, ?_, rfl⟩
    rwa [← mem_encode_feed_iff, List.append_cancel_right h]

/-- What is read from bytes has those bytes. -/
theorem fromUTF8?_eq_some_iff {bytes : List UInt8} {text : String} :
    String.fromUTF8? ⟨bytes.toArray⟩ = some text ↔ Utf8.encode text = bytes := by
  have hbytes : Utf8.encode text = bytes ↔ text.toByteArray = ⟨bytes.toArray⟩ := by
    rw [Utf8.encode, String.toUTF8, ByteArray.ext_iff, ← Array.toList_inj]
  rw [hbytes, String.fromUTF8?]
  constructor
  · intro h
    split at h
    · obtain rfl := Option.some.inj h
      rfl
    · cases h
  · intro h
    have hvalid : ByteArray.IsValidUTF8 ⟨bytes.toArray⟩ := h ▸ text.isValidUTF8
    rw [dif_pos hvalid, Option.some.injEq, ← String.toByteArray_inj, h]
    rfl

end Bytes

def firstLine (text : List Char) : List Char :=
  text.takeWhile (· ≠ '\n')

def afterLine (text : List Char) : List Char :=
  (text.dropWhile (· ≠ '\n')).drop 1

/-- The first lines of a text, so many or as many as there are.  A last line needs no line feed, but
after a last line feed there is no other line. -/
def firstLines : Nat → List Char → List (List Char)
  | 0, _ => []
  | _ + 1, [] => []
  | count + 1, text => firstLine text :: firstLines count (afterLine text)

def afterLines : Nat → List Char → List Char
  | 0, text => text
  | count + 1, text => afterLines count (afterLine text)

/-- Lines with a line feed after each. -/
def terminated (lines : List (List Char)) : List Char :=
  lines.flatMap fun line => line ++ ['\n']

section Lines

theorem decide_ne_feed {line : List Char} (h : '\n' ∉ line) :
    ∀ c ∈ line, decide (c ≠ '\n') = true :=
  fun _ hc => decide_eq_true (ne_of_mem_of_not_mem hc h)

theorem firstLine_append {line : List Char} (h : '\n' ∉ line) (rest : List Char) :
    firstLine (line ++ '\n' :: rest) = line := by
  rw [firstLine, List.takeWhile_append_of_pos (decide_ne_feed h)]
  simp

theorem afterLine_append {line : List Char} (h : '\n' ∉ line) (rest : List Char) :
    afterLine (line ++ '\n' :: rest) = rest := by
  rw [afterLine, List.dropWhile_append_of_pos (decide_ne_feed h)]
  simp

/-- A text is its first line, or goes on behind it after a line feed. -/
theorem firstLine_cases (text : List Char) :
    '\n' ∉ firstLine text ∧ (text = firstLine text ∧ afterLine text = [] ∨
      text = firstLine text ++ '\n' :: afterLine text) := by
  by_cases h : '\n' ∈ text
  · obtain ⟨line, rest, rfl, hline⟩ := List.eq_append_cons_of_mem h
    rw [firstLine_append hline, afterLine_append hline]
    exact ⟨hline, .inr rfl⟩
  · have htext := decide_ne_feed h
    have hfirst : firstLine text = text := by
      have htake : (text ++ []).takeWhile (· ≠ '\n') = text ++ [].takeWhile (· ≠ '\n') :=
        List.takeWhile_append_of_pos htext
      simpa [firstLine] using htake
    have hafter : afterLine text = [] := by
      have hrest : (text ++ []).dropWhile (· ≠ '\n') = [].dropWhile (· ≠ '\n') :=
        List.dropWhile_append_of_pos htext
      rw [List.append_nil] at hrest
      rw [afterLine, hrest]
      rfl
    rw [hfirst]
    exact ⟨h, .inl ⟨rfl, hafter⟩⟩

theorem firstLines_nil (count : Nat) : firstLines count [] = [] := by
  cases count <;> rfl

theorem afterLines_nil (count : Nat) : afterLines count [] = [] := by
  induction count with
  | zero => rfl
  | succ count ih => exact ih

theorem firstLines_succ {text : List Char} (h : text ≠ []) (count : Nat) :
    firstLines (count + 1) text = firstLine text :: firstLines count (afterLine text) := by
  cases text with
  | nil => exact absurd rfl h
  | cons c rest => rfl

theorem firstLines_add (first second : Nat) (text : List Char) :
    firstLines (first + second) text =
      firstLines first text ++ firstLines second (afterLines first text) := by
  induction first generalizing text with
  | zero => simp [firstLines, afterLines]
  | succ first ih =>
      rw [Nat.add_right_comm]
      by_cases hne : text = []
      · subst hne
        rw [afterLines_nil, firstLines_nil, firstLines_nil, firstLines_nil, List.nil_append]
      · rw [firstLines_succ hne, firstLines_succ hne, ih, afterLines, List.cons_append]

theorem afterLines_add (first second : Nat) (text : List Char) :
    afterLines (first + second) text = afterLines second (afterLines first text) := by
  induction first generalizing text with
  | zero => rw [Nat.zero_add, afterLines]
  | succ first ih => rw [Nat.add_right_comm, afterLines, afterLines, ih]

theorem terminated_append (first second : List (List Char)) :
    terminated (first ++ second) = terminated first ++ terminated second :=
  List.flatMap_append

theorem firstLines_one {text : List Char} (h : text ≠ []) :
    firstLines 1 text = [firstLine text] :=
  firstLines_succ h 0

theorem terminated_singleton (line rest : List Char) :
    terminated [line] ++ rest = line ++ '\n' :: rest := by
  simp [terminated]

end Lines

end Text

namespace Machine

def Input.ofText (text : List Char) : Input :=
  .ofBytes (Text.Utf8.encode (String.ofList text))

section Lines

theorem splitLine_append_feed {front : List UInt8} (h : 10 ∉ front) (rest : List UInt8) :
    splitLine (front ++ 10 :: rest) = (front ++ [10], rest) := by
  induction front with
  | nil => simp [splitLine]
  | cons byte front ih =>
      rw [List.mem_cons, not_or] at h
      simp [splitLine, Ne.symm h.1, ih h.2]

theorem splitLine_of_not_mem {bytes : List UInt8} (h : 10 ∉ bytes) :
    splitLine bytes = (bytes, []) := by
  induction bytes with
  | nil => rfl
  | cons byte bytes ih =>
      rw [List.mem_cons, not_or] at h
      simp [splitLine, Ne.symm h.1, ih h.2]

theorem dropLineEnd_append_feed (line : List Char) :
    dropLineEnd (line ++ ['\n']) = dropLineEnd line := by
  simp [dropLineEnd]

theorem mem_of_mem_dropLineEnd {line : List Char} {c : Char} (h : c ∈ dropLineEnd line) :
    c ∈ line := by
  rw [dropLineEnd, List.mem_reverse] at h
  exact List.mem_reverse.1 ((List.dropWhile_sublist _).subset h)

theorem getLast?_dropLineEnd (line : List Char) : (dropLineEnd line).getLast? ≠ some '\r' := by
  rw [dropLineEnd, List.getLast?_reverse]
  intro h
  have hhead := List.head?_dropWhile_not (fun c => c == '\n' || c == '\r') line.reverse
  rw [h] at hhead
  simp at hhead

/-- A line without a line feed that does not end in a carriage return has no line end to drop. -/
theorem dropLineEnd_eq_self {line : List Char} (hfeed : '\n' ∉ line)
    (hreturn : line.getLast? ≠ some '\r') : dropLineEnd line = line := by
  rw [← List.head?_reverse] at hreturn
  rw [dropLineEnd]
  have hself : line.reverse.dropWhile (fun c => c == '\n' || c == '\r') = line.reverse := by
    cases hline : line.reverse with
    | nil => rfl
    | cons last front =>
        have hlast : last ≠ '\n' := by
          rintro rfl
          exact hfeed (List.mem_reverse.1 (hline ▸ List.mem_cons_self))
        have hother : last ≠ '\r' := by
          rintro rfl
          rw [hline] at hreturn
          exact hreturn rfl
        simp [hlast, hother]
  rw [hself, List.reverse_reverse]

theorem LineRead.ofBytes_encode (line : List Char) :
    LineRead.ofBytes (Text.Utf8.encode (String.ofList line)) = .line (dropLineEnd line) := by
  have hdecode := Text.fromUTF8?_eq_some_iff.2 (Eq.refl (Text.Utf8.encode (String.ofList line)))
  rw [LineRead.ofBytes, hdecode]
  dsimp only
  rw [String.toList_ofList]

/-- Up to a line feed the input is there, whatever reading meets later. -/
theorem takeLine_of_feed {front : List UInt8} (h : 10 ∉ front) (rest : List UInt8)
    (failure : Option SystemError) :
    Input.takeLine ⟨front ++ 10 :: rest, failure⟩ = (.ofBytes (front ++ [10]), ⟨rest, failure⟩) := by
  simp only [Input.takeLine, splitLine_append_feed h, List.getLast?_concat, if_true]

/-- Without a line feed reading goes on to the end of the bytes, and fails if the input fails there. -/
theorem takeLine_of_failure {bytes : List UInt8} (h : 10 ∉ bytes) (error : SystemError) :
    Input.takeLine ⟨bytes, some error⟩ = (.failed error, ⟨[], some error⟩) := by
  have hlast : bytes.getLast? ≠ some 10 := fun hlast => h (List.mem_of_getLast? hlast)
  simp only [Input.takeLine, splitLine_of_not_mem h, if_neg hlast]

/-- What is left when the input simply ends is a line, too. -/
theorem takeLine_of_end {bytes : List UInt8} (h : 10 ∉ bytes) (hne : bytes ≠ []) :
    Input.takeLine ⟨bytes, none⟩ = (.ofBytes bytes, ⟨[], none⟩) := by
  have hlast : bytes.getLast? ≠ some 10 := fun hlast => h (List.mem_of_getLast? hlast)
  cases bytes with
  | nil => exact absurd rfl hne
  | cons byte bytes => simp only [Input.takeLine, splitLine_of_not_mem h, if_neg hlast]

/-- A line that is there with its line feed is taken with it. -/
theorem takeLine_append {line : List Char} (h : '\n' ∉ line) (rest : List UInt8)
    (failure : Option SystemError) :
    Input.takeLine ⟨Text.Utf8.encode (String.ofList (line ++ ['\n'])) ++ rest, failure⟩ =
      (.line (dropLineEnd line), ⟨rest, failure⟩) := by
  have hfront : (10 : UInt8) ∉ Text.Utf8.encode (String.ofList line) := by
    rwa [Text.mem_encode_feed_iff]
  have hbytes : Text.Utf8.encode (String.ofList (line ++ ['\n'])) =
      Text.Utf8.encode (String.ofList line) ++ [10] := by
    rw [Text.encode_ofList_append, Text.encode_ofList_feed, Text.encode_ofList_nil]
  rw [hbytes, List.append_assoc, List.singleton_append, takeLine_of_feed hfront, ← hbytes,
    LineRead.ofBytes_encode, dropLineEnd_append_feed]

/-- A last line is taken without a line feed. -/
theorem takeLine_last {line : List Char} (h : '\n' ∉ line) (hne : line ≠ []) :
    Input.takeLine ⟨Text.Utf8.encode (String.ofList line), none⟩ =
      (.line (dropLineEnd line), ⟨[], none⟩) := by
  rw [takeLine_of_end, LineRead.ofBytes_encode]
  · rwa [Text.mem_encode_feed_iff]
  · rwa [Ne, Text.encode_ofList_eq_nil]

/-- Of a text that is not empty the first line is taken. -/
theorem takeLine_ofText {text : List Char} (h : text ≠ []) :
    (Input.ofText text).takeLine =
      (.line (dropLineEnd (Text.firstLine text)), .ofText (Text.afterLine text)) := by
  obtain ⟨hline, ⟨htext, hafter⟩ | htext⟩ := Text.firstLine_cases text
  · have htake := takeLine_last hline (htext ▸ h)
    rw [← htext] at htake ⊢
    rw [hafter]
    exact htake
  · have htake := takeLine_append hline
      (Text.Utf8.encode (String.ofList (Text.afterLine text))) none
    rw [← Text.encode_ofList_append, List.append_assoc, List.singleton_append, ← htext] at htake
    exact htake

theorem takeLine_ofText_nil : (Input.ofText []).takeLine = (.closed, .ofText []) := by
  have hbytes : Input.ofText [] = ⟨[], none⟩ := by
    rw [Input.ofText, Text.encode_ofList_nil]
    rfl
  rw [hbytes]
  rfl

/-- Bytes in which at most the last one is a line feed read as a line without any. -/
theorem LineRead.of_ofBytes_eq_line {bytes front : List UInt8} {line : List Char} (h : 10 ∉ front)
    (hbytes : bytes = front ∨ bytes = front ++ [10]) (hline : LineRead.ofBytes bytes = .line line) :
    '\n' ∉ line ∧ line.getLast? ≠ some '\r' := by
  rw [LineRead.ofBytes] at hline
  split at hline
  · rename_i text hdecode
    obtain rfl := LineRead.line.inj hline
    rw [Text.fromUTF8?_eq_some_iff] at hdecode
    obtain ⟨chars, rfl⟩ : ∃ chars, text = String.ofList chars :=
      ⟨text.toList, String.ofList_toList.symm⟩
    rw [String.toList_ofList] at *
    refine ⟨fun hfeed => ?_, getLast?_dropLineEnd _⟩
    obtain rfl | rfl := hbytes
    · rw [← hdecode, Text.mem_encode_feed_iff] at h
      exact h (mem_of_mem_dropLineEnd hfeed)
    · obtain ⟨line, hline, htext⟩ := Text.exists_eq_append_feed h hdecode
      rw [htext, dropLineEnd_append_feed] at hfeed
      exact hline (mem_of_mem_dropLineEnd hfeed)
  · cases hline

/-- A line that has been taken, from any bytes, has no line feed and does not end in a carriage
return. -/
theorem of_takeLine_eq_line {input rest : Input} {line : List Char}
    (h : input.takeLine = (.line line, rest)) : '\n' ∉ line ∧ line.getLast? ≠ some '\r' := by
  obtain ⟨bytes, failure⟩ := input
  by_cases hfeed : 10 ∈ bytes
  · obtain ⟨front, later, rfl, hfront⟩ := List.eq_append_cons_of_mem hfeed
    rw [takeLine_of_feed hfront] at h
    exact LineRead.of_ofBytes_eq_line hfront (.inr rfl) (congrArg Prod.fst h)
  · cases failure with
    | some error =>
        rw [takeLine_of_failure hfeed] at h
        cases h
    | none =>
        by_cases hempty : bytes = []
        · subst hempty
          cases h
        · rw [takeLine_of_end hfeed hempty] at h
          exact LineRead.of_ofBytes_eq_line hfeed (.inl rfl) (congrArg Prod.fst h)

end Lines

end Machine

end StackPipeline
