import StackPipeline.Proofs.Tree.Nodes
import StackPipeline.Tree.Document

/-!
Programs are read back from the documents that are written for them, and from every document that says
the same.

A document is judged while it is read: the members of an outermost node are kept until it ends, except
its kind, and so it does not matter where among them the kind stands.
-/

namespace StackPipeline.Tree

open Json (AllOpen Delimited Legible Steps StepsOver StepsOverMember Value)

section Outlines

variable {κ : Type} {family : Family κ} {kind : κ} {bounds : Bounds}

theorem readKind_stringChars (hname : family.ofName (family.name kind) = .ok kind)
    (rest : List Char) :
    family.readKind (Json.stringChars (family.name kind) ++ rest) = .ok (kind, rest) := by
  have htext : Json.stringChars (family.name kind) ++ rest =
      '"' :: ((family.name kind).toList.flatMap Json.escapeChar ++ '"' :: rest) := by
    simp [Json.stringChars]
  rw [htext, Family.readKind, Json.skipBlank_cons (by decide)]
  simp only [Json.readString_flatMap, hname]

/-- The kind is judged where it stands. -/
theorem stepsOver_kind (hname : family.ofName (family.name kind) = .ok kind)
    (members : List (String × Value)) :
    StepsOverMember (family.readMember bounds) (none, members)
      ("kind", .string (family.name kind)) (some kind, members) := by
  intro rest _
  rw [Family.readMember, if_pos rfl, Json.readColon_colon]
  dsimp only
  rw [Value.chars, readKind_stringChars hname]

/-- What is in a node is within these bounds. -/
def Bounds.Hold (bounds : Bounds) (value : Value) : Prop :=
  Legible bounds.depth value ∧ value.chars.length < bounds.size

/-- Every other member is kept as it is. -/
theorem stepsOver_member {name : String} (hname : name ≠ "kind") {value : Value}
    (hvalue : bounds.Hold value) (found : Option κ) (members : List (String × Value)) :
    StepsOverMember (family.readMember bounds) (found, members) (name, value)
      (found, (name, value) :: members) := by
  intro rest hrest
  have hpush := Json.stepsOverMember_pushMember name members
    (fun rest hrest => hvalue.1.readValue_chars hvalue.2 hrest) rest hrest
  rw [Family.readMember, if_neg hname]
  rw [← Bounds.readValue] at hpush
  rw [hpush]

theorem steps_members (family : Family κ) {present : List (String × Value)}
    (hnames : "kind" ∉ present.map Prod.fst)
    (hvalues : ∀ member ∈ present, bounds.Hold member.2) (found : Option κ)
    (members : List (String × Value)) :
    Steps (StepsOverMember (family.readMember bounds)) (found, members) present
      (found, present.reverse ++ members) := by
  induction present generalizing members with
  | nil => exact .nil _
  | cons member present ih =>
      rw [List.map_cons, List.mem_cons, not_or] at hnames
      rw [List.reverse_cons, List.append_assoc]
      exact .cons (stepsOver_member (Ne.symm hnames.1) (hvalues member List.mem_cons_self) found members)
        (ih hnames.2 (fun other hmem => hvalues other (List.mem_cons_of_mem _ hmem)) _)

/-- The kind is not drafted. -/
theorem decodeMembers_kind {fields : List Field} (draft : Draft fields)
    (front : List (String × Value)) (tag : Value) (back : List (String × Value)) :
    decodeMembers draft (front ++ ("kind", tag) :: back) = decodeMembers draft (front ++ back) := by
  induction front generalizing draft with
  | nil =>
      rw [List.nil_append, List.nil_append, decodeMembers_cons, if_pos rfl]
  | cons member front ih =>
      obtain ⟨name, value⟩ := member
      rw [List.cons_append, List.cons_append, decodeMembers_cons, decodeMembers_cons]
      simp only [ih]

/-- **An outermost node is read with its kind and its record**, wherever its kind stands. -/
theorem IsNode.exists_outline {fields : List Field} {record : Record fields}
    {members : List (String × Value)} (h : IsNode family kind record members)
    (hname : family.ofName (family.name kind) = .ok kind)
    (hvalues : ∀ member ∈ members, bounds.Hold member.2) (hsize : members.length < bounds.size)
    (rest : List Char) :
    ∃ present,
      family.readOutline bounds ((Value.object members).chars ++ rest) =
        .ok (⟨kind, .members present⟩, rest) ∧
      finishDraft (decodeMembers (.empty fields) present) = .ok record := by
  obtain ⟨front, back, rfl, hnames⟩ := h.exists_split
  have hrecord := h.record_eq
  rw [decodeMembers_kind] at hrecord
  rw [List.map_append, List.mem_append, not_or] at hnames
  have hfront := steps_members family hnames.1
    (fun member hmem => hvalues member (List.mem_append_left _ hmem)) none []
  have hback := steps_members family hnames.2
    (fun member hmem =>
      hvalues member (List.mem_append_right _ (List.mem_cons_of_mem _ hmem)))
    (some kind) (front.reverse ++ [])
  have hsteps := hfront.append (.cons (stepsOver_kind hname _) hback)
  refine ⟨front ++ back, ?_, hrecord⟩
  rw [Json.chars_object_append, Family.readOutline, Json.skipBlank_cons (by decide)]
  simp [Json.foldMembers_membersChars hsteps hsize]

end Outlines

section Statements

variable {bounds : Bounds} {stmts : List Stmt}

/-- A statement is read from every variant of its encoding that is within the bounds. -/
theorem stepsOver_pushStmt {stmt : Stmt} {value : Value} (hvariant : Variant stmt.encode value)
    (hlegible : Legible (bounds.depth + 1) value) (hsize : value.chars.length < bounds.size)
    (state : List Stmt) : StepsOver (pushStmt bounds) state value (stmt :: state) := by
  obtain ⟨kind, record, members, hencoded⟩ := stmt.exists_encoded
  obtain ⟨others, rfl, hnode⟩ := hencoded.exists_isNode hvariant
  intro rest _
  obtain ⟨hcount, hlength⟩ := Json.length_object others
  have hvalues : ∀ member ∈ others, bounds.Hold member.2 := by
    cases hlegible with
    | object hmembers =>
        exact fun member hmem => ⟨hmembers member hmem, Nat.lt_trans (hlength member hmem) hsize⟩
  obtain ⟨present, houtline, hrecord⟩ := hnode.exists_outline kind.ofName_name hvalues
    (Nat.lt_trans hcount hsize) rest
  have hstmt : Outline.stmt ⟨kind, .members present⟩ = .ok stmt := by
    rw [Outline.stmt, Fields.record, hrecord]
    exact congrArg Except.ok hencoded.build_eq
  rw [pushStmt, houtline]
  dsimp only
  rw [hstmt]

theorem steps_pushStmt {items : List Value} (hvariant : VariantItems (stmts.map Stmt.encode) items)
    (hlegible : ∀ item ∈ items, Legible (bounds.depth + 1) item)
    (hsize : ∀ item ∈ items, item.chars.length < bounds.size) (state : List Stmt) :
    Steps (StepsOver (pushStmt bounds)) state items (stmts.reverse ++ state) := by
  induction stmts generalizing items state with
  | nil =>
      cases hvariant
      exact .nil state
  | cons stmt stmts ih =>
      cases hvariant with
      | cons hfirst hrest =>
          rw [List.reverse_cons, List.append_assoc]
          exact .cons
            (stepsOver_pushStmt hfirst (hlegible _ List.mem_cons_self)
              (hsize _ List.mem_cons_self) state)
            (ih hrest (fun item hmem => hlegible item (List.mem_cons_of_mem _ hmem))
              (fun item hmem => hsize item (List.mem_cons_of_mem _ hmem)) (stmt :: state))

theorem readStatements_chars {value : Value} (hvariant : Variant (.array (encodeBlock stmts)) value)
    (hlegible : Legible (bounds.depth + 2) value) (hsize : value.chars.length < bounds.size)
    (rest : List Char) : readStatements bounds (value.chars ++ rest) = .ok (stmts, rest) := by
  rw [encodeBlock_eq_map] at hvariant
  cases hvariant with
  | @array _ items hitems =>
      cases hlegible with
      | array hlegible =>
          obtain ⟨hcount, hlength⟩ := Json.length_array items
          have hsteps := steps_pushStmt hitems hlegible
            (fun item hmem => Nat.lt_trans (hlength item hmem) hsize) []
          have hopen : AllOpen items := fun item hmem => (hlegible item hmem).exists_chars_eq_cons
          rw [Json.chars_array_append, readStatements, Json.skipBlank_cons (by decide)]
          simp [Json.foldElements_itemsChars hsteps hopen (Nat.lt_trans hcount hsize)]

end Statements

section Programs

variable (bounds : Bounds)

/-- A string that is no member of the program is passed over. -/
theorem stepsOver_unknown {name text : String} (hname : name ≠ "statements")
    (found : Option (List Stmt)) :
    StepsOverMember (readProgramMember bounds) found (name, .string text) found := by
  intro rest _
  have hskip : Json.skipValue ((Value.string text).chars ++ rest) = .ok rest := by
    rw [Json.skipValue, Value.chars, Json.readValue_stringChars]
    rfl
  simp only [readProgramMember, if_neg hname, Json.readColon_colon, hskip]

theorem steps_unknown {added : List (String × Value)}
    (hadded : ∀ member ∈ added, member.1 ≠ "statements" ∧ ∃ text, member.2 = .string text)
    (found : Option (List Stmt)) :
    Steps (StepsOverMember (readProgramMember bounds)) found added found := by
  induction added with
  | nil => exact .nil found
  | cons member added ih =>
      obtain ⟨hname, text, htext⟩ := hadded member List.mem_cons_self
      obtain ⟨name, value⟩ := member
      obtain rfl : value = .string text := htext
      exact .cons (stepsOver_unknown bounds hname found)
        (ih fun other hmem => hadded other (List.mem_cons_of_mem _ hmem))

theorem stepsOver_statements {stmts : List Stmt} {value : Value}
    (hvariant : Variant (.array (encodeBlock stmts)) value)
    (hlegible : Legible (bounds.depth + 2) value) (hsize : value.chars.length < bounds.size) :
    StepsOverMember (readProgramMember bounds) none ("statements", value) (some stmts) := by
  intro rest _
  rw [readProgramMember, if_pos rfl, Json.readColon_colon]
  dsimp only
  rw [readStatements_chars hvariant hlegible hsize]

/-- The members of a program: its statements, and strings under other names. -/
theorem exists_statements {stmts : List Stmt} {others : List (String × Value)}
    (h : Variant (.object [("statements", .array (encodeBlock stmts))]) (.object others)) :
    ∃ front statements back, others = front ++ ("statements", statements) :: back ∧
      Variant (.array (encodeBlock stmts)) statements ∧
      ∀ member ∈ front ++ back, member.1 ≠ "statements" ∧ ∃ text, member.2 = .string text := by
  cases h with
  | @object _ kept added _ hmembers hadded hperm =>
      cases hmembers with
      | leave homissible _ => simp [Omissible] at homissible
      | @keep _ _ statements _ _ hvalue hrest =>
          cases hrest
          have hmem : ("statements", statements) ∈ others := hperm.mem_iff.2 List.mem_cons_self
          obtain ⟨front, back, rfl⟩ := List.append_of_mem hmem
          have hothers : (front ++ back).Perm added := (List.perm_middle.symm.trans hperm).cons_inv
          refine ⟨front, statements, back, rfl, hvalue, fun member hmem => ?_⟩
          obtain ⟨hname, htext⟩ := hadded member (hothers.mem_iff.1 hmem)
          exact ⟨fun heq => hname (heq ▸ List.mem_cons_self), htext⟩

/-- A program is read from every variant of its encoding that is within the bounds. -/
theorem readProgram_chars {program : Program} {value : Value} (depth : Nat)
    (hvariant : Variant program.encode value) (hdepth : bounds.depth = depth + 3)
    (hlegible : Legible (depth + 3) value) (hsize : value.chars.length < bounds.size)
    (rest : List Char) : readProgram bounds (value.chars ++ rest) = .ok (program, rest) := by
  obtain ⟨others, rfl⟩ : ∃ others, value = .object others := by
    rw [Program.encode] at hvariant
    cases hvariant
    exact ⟨_, rfl⟩
  obtain ⟨hcount, hlength⟩ := Json.length_object others
  obtain ⟨front, statements, back, rfl, hstatements, hadded⟩ := exists_statements hvariant
  have hmem : ("statements", statements) ∈ front ++ ("statements", statements) :: back :=
    List.mem_append_right _ List.mem_cons_self
  have hinner : Legible ((bounds.within 3).depth + 2) statements := by
    have heq : (bounds.within 3).depth = depth := by
      rw [Bounds.within, hdepth]
      exact Nat.add_sub_cancel depth 3
    rw [heq]
    cases hlegible with
    | object hmembers => exact hmembers _ hmem
  have hfront := steps_unknown (bounds.within 3)
    (fun member hmem => hadded member (List.mem_append_left _ hmem)) none
  have hback := steps_unknown (bounds.within 3)
    (fun member hmem => hadded member (List.mem_append_right _ hmem)) (some program.statements)
  have hsteps := hfront.append (.cons (stepsOver_statements (bounds.within 3) hstatements hinner
    (Nat.lt_trans (hlength _ hmem) hsize)) hback)
  rw [Json.chars_object_append, readProgram, Json.skipBlank_cons (by decide)]
  simp [Json.foldMembers_membersChars hsteps (Nat.lt_trans hcount hsize)]

/-- **A program is read back from every document that says the same.**  If arrays and objects nest at
most 127 deep in the encoding of a program and its numbers are read back from their texts, then the
program is read from the text of its encoding, and from the text of every variant of that. -/
theorem program_read_back (program : Program) (hnesting : program.encode.nesting ≤ 127)
    (hnumbers : ∀ numeral ∈ program.encode.numerals, numeral.IsReadBack) :
    Program.ofDocument program.encode.render = .ok program ∧
      ∀ value, Variant program.encode value → Program.ofDocument value.render = .ok program := by
  have hvariants (value : Value) (hvariant : Variant program.encode value) :
      Program.ofDocument value.render = .ok program := by
    have hlegible := hvariant.legible (Json.legible_of_nesting_le hnesting hnumbers)
    have hread : readProgram (.ofDocument value.chars) value.chars = .ok (program, []) := by
      have hchars := readProgram_chars (.ofDocument value.chars) 124 hvariant rfl hlegible
        (Nat.lt_succ_self _) []
      rwa [List.append_nil] at hchars
    rw [Program.ofDocument, readDocument, Value.render, String.toList_ofList, hread]
    rfl
  exact ⟨hvariants _ (Variant.refl _), hvariants⟩

theorem program_read_back_reordered :
    Program.ofDocument (Value.render (.object
      [("statements", .array
        [.object [("note", .string "args"), ("text", .string "\"é\n"), ("kind", .string "Print")],
          .object [("kind", .string "Return"), ("expr", .object
            [("kind", .string "NumberLiteral"), ("value", .number (.float 2.5))])]]),
        ("kind", .string "Program")])) =
      .ok ⟨[.print "\"é\n" [], .ret (some (.number 2.5))]⟩ := by
  have hnumbers (numeral : Json.Numeral)
      (h : numeral ∈ (Program.encode
        ⟨[.print "\"é\n" [], .ret (some (.number 2.5))]⟩).numerals) : numeral.IsReadBack := by
    obtain rfl := List.mem_singleton.1 h
    exact Json.isReadBack_fraction
  have hprint : Variant (Stmt.print "\"é\n" []).encode (.object
      [("note", .string "args"), ("text", .string "\"é\n"), ("kind", .string "Print")]) := by
    refine .object (.keep (.string "Print") (.keep (.string _) (.leave (.inl ⟨rfl, rfl⟩) .nil)))
      (fun member (hmem : member ∈ [("note", Value.string "args")]) => ?_)
      (List.reverse_perm [_, _, _])
    obtain rfl := List.mem_singleton.1 hmem
    exact ⟨by decide, "args", rfl⟩
  refine (program_read_back _ (by decide) hnumbers).2 _ ?_
  refine .object (.keep (.array (.cons hprint (VariantItems.refl _))) .nil)
    (fun member (hmem : member ∈ [("kind", Value.string "Program")]) => ?_) (List.Perm.refl _)
  obtain rfl := List.mem_singleton.1 hmem
  exact ⟨by decide, "Program", rfl⟩

end Programs

end StackPipeline.Tree
