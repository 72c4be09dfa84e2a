import StackPipeline.Proofs.Tree.Variants

/-!
Trees are decoded from every variant of their encoding.

Each kind of node is encoded as its name and its fields, in the order of the schema.  So there is one
lemma for all kinds: if every field is read back from every variant of its member, then the node is.
-/

namespace StackPipeline.Tree

open Json (Problem Value)

/-- These members are the encoding of the record: in the order of the fields, each member with its
field's name, read back as the field's value from every variant, and only omissible if that value is the
value of a field that is not there. -/
def IsEncoding : (fields : List Field) → Record fields → List (String × Value) → Prop
  | [], _, members => members = []
  | field :: fields, (value, values), members =>
    ∃ written rest, members = (field.name, written) :: rest ∧
      (∀ other, Variant written other → field.read other = .ok value) ∧
      (Omissible field.name written → field.missing? = some value) ∧ IsEncoding fields values rest

section Encodings

variable {fields : List Field} {record : Record fields} {members kept : List (String × Value)}

theorem IsEncoding.standsIn (h : IsEncoding fields record members)
    (hvariant : VariantMembers members kept) : StandsIn record kept := by
  induction fields generalizing members kept with
  | nil =>
      obtain rfl : members = [] := h
      cases hvariant
      exact rfl
  | cons field fields ih =>
      obtain ⟨value, values⟩ := record
      obtain ⟨written, rest, rfl, hread, hmissing, h⟩ := h
      cases hvariant with
      | keep hvalue hrest => exact .inl ⟨_, _, rfl, hread _ hvalue, ih h hrest⟩
      | leave homissible hrest => exact .inr ⟨hmissing homissible, ih h hrest⟩

theorem IsEncoding.names_eq (h : IsEncoding fields record members) :
    members.map Prod.fst = fieldNames fields := by
  induction fields generalizing members with
  | nil =>
      obtain rfl : members = [] := h
      rfl
  | cons field fields ih =>
      obtain ⟨value, values⟩ := record
      obtain ⟨written, rest, rfl, -, -, h⟩ := h
      rw [List.map_cons, ih h]
      rfl

/-- The record is read from every variant of an object that has no kind. -/
theorem IsEncoding.exists_record (h : IsEncoding fields record members) {value : Value}
    (hvariant : Variant (.object members) value) (hnodup : (fieldNames fields).Nodup)
    (hkind : "kind" ∉ fieldNames fields) :
    ∃ others, value = .object others ∧
      finishDraft (decodeMembers (.empty fields) others) = .ok record := by
  cases hvariant with
  | object hmembers hadded hperm =>
      refine ⟨_, rfl, (h.standsIn hmembers).finishDraft_eq hnodup hkind ?_ hperm⟩
      intro member hmem
      rw [← h.names_eq]
      exact (hadded member hmem).1

end Encodings

section Kinds

variable {κ : Type} {family : Family κ} {kind : κ}

/-- These members are a node of this kind with this record: its name stands once, and the others are the
record. -/
structure IsNode (family : Family κ) (kind : κ) {fields : List Field} (record : Record fields)
    (members : List (String × Value)) : Prop where
  exists_split : ∃ front back,
    members = front ++ ("kind", .string (family.name kind)) :: back ∧
      "kind" ∉ (front ++ back).map Prod.fst
  record_eq : finishDraft (decodeMembers (.empty fields) members) = .ok record

/-- Every variant of an encoded node is a node of the same kind with the same record. -/
theorem IsEncoding.exists_isNode (family : Family κ) (kind : κ) {fields : List Field}
    {record : Record fields} {members : List (String × Value)} (h : IsEncoding fields record members)
    {value : Value}
    (hvariant : Variant (node (family.name kind) members) value)
    (hnodup : (fieldNames fields).Nodup) (hkind : "kind" ∉ fieldNames fields) :
    ∃ others, value = .object others ∧ IsNode family kind record others := by
  rw [node] at hvariant
  cases hvariant with
  | @object _ present added others hmembers hadded hperm =>
      cases hmembers with
      | leave homissible _ =>
          rcases homissible with ⟨heq, -⟩ | ⟨heq, -⟩ | ⟨heq, -⟩ <;> exact absurd heq (by decide)
      | @keep _ _ tag _ kept htag hkept =>
          cases htag
          have hnames : ∀ member ∈ added, member.1 ≠ "kind" ∧ member.1 ∉ fieldNames fields := by
            intro member hmem
            have hnew := (hadded member hmem).1
            rw [List.map_cons, List.mem_cons, not_or, h.names_eq] at hnew
            exact hnew
          have hfirst : ("kind", Value.string (family.name kind)) ∈ others :=
            hperm.mem_iff.2 List.mem_cons_self
          obtain ⟨front, back, rfl⟩ := List.append_of_mem hfirst
          have hothers : (front ++ back).Perm (kept ++ added) :=
            (List.perm_middle.symm.trans hperm).cons_inv
          have hstands := h.standsIn hkept
          refine ⟨_, rfl, ⟨front, back, rfl, ?_⟩, ?_⟩
          · rw [(hothers.map Prod.fst).mem_iff, List.map_append, List.mem_append, not_or]
            refine ⟨fun hmem => hkind (hstands.names_sublist.subset hmem), fun hmem => ?_⟩
            obtain ⟨member, hmember, heq⟩ := List.mem_map.1 hmem
            exact (hnames member hmember).1 heq
          · refine hstands.finishDraft_eq hnodup hkind ?_ (hperm.trans List.perm_middle.symm)
            intro member hmem
            rcases List.mem_cons.1 hmem with rfl | hmem
            · exact hkind
            · exact (hnames member hmem).2

theorem ofMembers_append {front : List (String × Value)} (h : "kind" ∉ front.map Prod.fst)
    (found : Option κ) (back : List (String × Value)) :
    family.ofMembers found (front ++ back) = family.ofMembers found back := by
  induction front with
  | nil => rfl
  | cons member front ih =>
      obtain ⟨name, value⟩ := member
      rw [List.map_cons, List.mem_cons, not_or] at h
      have hother : ¬name = "kind" := fun heq => h.1 heq.symm
      cases found with
      | none => simp only [List.cons_append, Family.ofMembers, if_neg hother, ih h.2]
      | some kind => simp only [List.cons_append, Family.ofMembers, if_neg hother, ih h.2]

/-- The kind of a node is found wherever it stands. -/
theorem IsNode.ofMembers_eq {fields : List Field} {record : Record fields}
    {members : List (String × Value)} (h : IsNode family kind record members)
    (hname : family.ofName (family.name kind) = .ok kind) :
    family.ofMembers none members = .ok kind := by
  obtain ⟨front, back, rfl, hothers⟩ := h.exists_split
  rw [List.map_append, List.mem_append, not_or] at hothers
  have hback : family.ofMembers (some kind) (back ++ []) = .ok kind :=
    ofMembers_append hothers.2 (some kind) []
  rw [List.append_nil] at hback
  rw [ofMembers_append hothers.1]
  simp only [Family.ofMembers, if_true, Family.ofValue, hname, hback]

end Kinds

section Reading

variable {name : String} {shape : Shape} {written : Value}

theorem read_required {value : shape.Carrier} (h : decode shape written = .ok value) :
    (Field.required name shape).read written = .ok value := by
  simp only [Field.read, Field.required, Field.ofNull?, h]
  rfl

theorem read_defaulted {default value : shape.Carrier} (h : decode shape written = .ok value) :
    Field.read ⟨name, shape, .defaulted default⟩ written = .ok value := by
  simp only [Field.read, Field.ofNull?, h]
  rfl

/-- Only null is no value. -/
theorem read_optional {value : shape.Carrier} (hnull : written ≠ .null)
    (h : decode shape written = .ok value) :
    Field.read ⟨name, shape, .optional⟩ written = .ok (some value) := by
  have hnone : Field.ofNull? ⟨name, shape, .optional⟩ written = none := by
    cases written with
    | null => exact absurd rfl hnull
    | _ => rfl
  simp only [Field.read, hnone, h]
  rfl

theorem not_omissible (h : name ∉ ["args", "else_block", "expr"]) : ¬Omissible name written := by
  simp only [List.mem_cons, List.not_mem_nil, or_false, not_or] at h
  simp [Omissible, h]

/-- A field that must be there, before the others. -/
theorem IsEncoding.required {value : shape.Carrier} {fields : List Field} {values : Record fields}
    {rest : List (String × Value)}
    (hread : ∀ other, Variant written other → decode shape other = .ok value)
    (homissible : ¬Omissible name written) (h : IsEncoding fields values rest) :
    IsEncoding (.required name shape :: fields) (value, values) ((name, written) :: rest) :=
  ⟨written, rest, rfl, fun other hvariant => read_required (hread other hvariant),
    fun hwritten => absurd hwritten homissible, h⟩

theorem decode_text {text : String} {other : Value} (h : Variant (.string text) other) :
    decode .text other = .ok text := by
  cases h
  rw [decode]

theorem decode_number {x : Float} {other : Value} (h : Variant (.number (.float x)) other) :
    decode .number other = .ok x := by
  cases h
  rw [decode]
  rfl

theorem decode_boolean {truth : Bool} {other : Value} (h : Variant (.boolean truth) other) :
    decode .boolean other = .ok truth := by
  cases h
  rw [decode]

theorem decode_operator {op : Operator} {other : Value} (h : Variant (.string op.symbol) other) :
    decode .operator other = .ok op := by
  cases h
  rw [decode]
  cases op <;> rfl

/-- Trees that are read back one by one are read back as a list. -/
theorem decodeList_map (shape : Shape) (encode : shape.Carrier → Value)
    {trees : List shape.Carrier}
    (h : ∀ tree ∈ trees, ∀ value, Variant (encode tree) value → decode shape value = .ok tree)
    {others : List Value} (hvariant : VariantItems (trees.map encode) others) :
    decodeList shape others = .ok trees := by
  induction trees generalizing others with
  | nil =>
      cases hvariant
      rw [decodeList]
  | cons tree trees ih =>
      cases hvariant with
      | cons hfirst hrest =>
          rw [decodeList, h tree List.mem_cons_self _ hfirst,
            ih (fun tree hmem => h tree (List.mem_cons_of_mem _ hmem)) hrest]

theorem decode_list (shape : Shape) (encode : shape.Carrier → Value) {trees : List shape.Carrier}
    (h : ∀ tree ∈ trees, ∀ value, Variant (encode tree) value → decode shape value = .ok tree)
    {other : Value} (hvariant : Variant (.array (trees.map encode)) other) :
    decode (.list shape) other = .ok trees := by
  cases hvariant with
  | array hitems =>
      rw [decode]
      exact decodeList_map shape encode h hitems

end Reading

section Expressions

theorem ExprKind.nodup_fieldNames (kind : ExprKind) : (fieldNames kind.fields).Nodup := by
  cases kind <;> decide

theorem ExprKind.kind_not_mem (kind : ExprKind) : "kind" ∉ fieldNames kind.fields := by
  cases kind <;> decide

theorem ExprKind.ofName_name (kind : ExprKind) : exprFamily.ofName kind.name = .ok kind := by
  cases kind <;> rfl

/-- The expression is encoded as the node of its kind. -/
structure Expr.Encoded (expr : Expr) (kind : ExprKind) (record : Record kind.fields)
    (members : List (String × Value)) : Prop where
  encode_eq : expr.encode = node kind.name members
  build_eq : kind.build record = expr
  isEncoding : IsEncoding kind.fields record members

theorem Expr.Encoded.decode_variant {expr : Expr} {kind : ExprKind} {record : Record kind.fields}
    {members : List (String × Value)} (h : expr.Encoded kind record members) {value : Value}
    (hvariant : Variant expr.encode value) : decode .expr value = .ok expr := by
  rw [h.encode_eq] at hvariant
  obtain ⟨others, rfl, hnode⟩ :=
    h.isEncoding.exists_isNode exprFamily kind hvariant kind.nodup_fieldNames kind.kind_not_mem
  rw [decode, hnode.ofMembers_eq kind.ofName_name]
  dsimp only
  rw [hnode.record_eq]
  exact congrArg Except.ok h.build_eq

/-- Every expression is encoded as the node of its kind. -/
theorem Expr.exists_encoded (expr : Expr) :
    ∃ kind record members, expr.Encoded kind record members := by
  induction expr with
  | number value =>
      exact ⟨.number, (value, ()), _, rfl, rfl,
        .required (fun _ => decode_number) (not_omissible (by decide)) rfl⟩
  | boolean value =>
      exact ⟨.boolean, (value, ()), _, rfl, rfl,
        .required (fun _ => decode_boolean) (not_omissible (by decide)) rfl⟩
  | var name =>
      exact ⟨.var, (name, ()), _, rfl, rfl,
        .required (fun _ => decode_text) (not_omissible (by decide)) rfl⟩
  | read prompt =>
      exact ⟨.read, (prompt, ()), _, rfl, rfl,
        .required (fun _ => decode_text) (not_omissible (by decide)) rfl⟩
  | binary left op right ihLeft ihRight =>
      obtain ⟨leftKind, leftRecord, leftMembers, hleft⟩ := ihLeft
      obtain ⟨rightKind, rightRecord, rightMembers, hright⟩ := ihRight
      exact ⟨.binary, (left, op, right, ()), _, rfl, rfl,
        .required (fun _ => hleft.decode_variant) (not_omissible (by decide)) <|
        .required (fun _ => decode_operator) (not_omissible (by decide)) <|
        .required (fun _ => hright.decode_variant) (not_omissible (by decide)) rfl⟩

/-- Every expression is decoded from every variant of its encoding. -/
theorem Expr.decode_variant (expr : Expr) {value : Value} (h : Variant expr.encode value) :
    decode .expr value = .ok expr := by
  obtain ⟨kind, record, members, hencoded⟩ := expr.exists_encoded
  exact hencoded.decode_variant h

/-- An expression is an object, and so no member that can be left out. -/
theorem Expr.exists_encode_eq (expr : Expr) : ∃ members, expr.encode = .object members := by
  cases expr <;> exact ⟨_, rfl⟩

theorem Expr.not_omissible (expr : Expr) (name : String) : ¬Omissible name expr.encode := by
  obtain ⟨members, hencode⟩ := expr.exists_encode_eq
  rw [hencode]
  simp [Omissible]

end Expressions

section Statements

theorem StmtKind.nodup_fieldNames (kind : StmtKind) : (fieldNames kind.fields).Nodup := by
  cases kind <;> decide

theorem StmtKind.kind_not_mem (kind : StmtKind) : "kind" ∉ fieldNames kind.fields := by
  cases kind <;> decide

theorem StmtKind.ofName_name (kind : StmtKind) : stmtFamily.ofName kind.name = .ok kind := by
  cases kind <;> rfl

/-- The statement is encoded as the node of its kind. -/
structure Stmt.Encoded (stmt : Stmt) (kind : StmtKind) (record : Record kind.fields)
    (members : List (String × Value)) : Prop where
  encode_eq : stmt.encode = node kind.name members
  build_eq : kind.build record = stmt
  isEncoding : IsEncoding kind.fields record members

/-- Every variant of an encoded statement is a node with what the statement is built from. -/
theorem Stmt.Encoded.exists_isNode {stmt : Stmt} {kind : StmtKind} {record : Record kind.fields}
    {members : List (String × Value)} (h : stmt.Encoded kind record members) {value : Value}
    (hvariant : Variant stmt.encode value) :
    ∃ others, value = .object others ∧ IsNode stmtFamily kind record others := by
  rw [h.encode_eq] at hvariant
  exact h.isEncoding.exists_isNode stmtFamily kind hvariant kind.nodup_fieldNames kind.kind_not_mem

theorem Stmt.Encoded.decode_variant {stmt : Stmt} {kind : StmtKind} {record : Record kind.fields}
    {members : List (String × Value)} (h : stmt.Encoded kind record members) {value : Value}
    (hvariant : Variant stmt.encode value) : decode .stmt value = .ok stmt := by
  obtain ⟨others, rfl, hnode⟩ := h.exists_isNode hvariant
  rw [decode, hnode.ofMembers_eq kind.ofName_name]
  dsimp only
  rw [hnode.record_eq]
  exact congrArg Except.ok h.build_eq

theorem encodeBlock_eq_map (stmts : List Stmt) : encodeBlock stmts = stmts.map Stmt.encode := by
  induction stmts with
  | nil => rw [encodeBlock, List.map_nil]
  | cons stmt stmts ih => rw [encodeBlock, ih, List.map_cons]

def Branch.encode (branch : Branch) : Value :=
  .object [("condition", branch.condition.encode),
    ("block", .array (encodeBlock branch.body))]

theorem encodeBranches_eq_map (branches : List Branch) :
    encodeBranches branches = branches.map Branch.encode := by
  induction branches with
  | nil => rw [encodeBranches, List.map_nil]
  | cons branch branches ih =>
      obtain ⟨condition, body⟩ := branch
      rw [encodeBranches, ih, List.map_cons]
      rfl

/-- The statements are decoded from the variants of their encodings. -/
def DecodesBlock (stmts : List Stmt) : Prop :=
  ∀ stmt ∈ stmts, ∀ value, Variant stmt.encode value → decode .stmt value = .ok stmt

theorem DecodesBlock.decode_variant {stmts : List Stmt} (h : DecodesBlock stmts) {value : Value}
    (hvariant : Variant (.array (encodeBlock stmts)) value) :
    decode (.list .stmt) value = .ok stmts := by
  rw [encodeBlock_eq_map] at hvariant
  exact decode_list .stmt Stmt.encode h hvariant

theorem decode_branches {branches : List Branch}
    (h : ∀ branch ∈ branches, ∀ value, Variant branch.encode value →
      decode .branch value = .ok branch)
    {value : Value} (hvariant : Variant (.array (encodeBranches branches)) value) :
    decode (.list .branch) value = .ok branches := by
  rw [encodeBranches_eq_map] at hvariant
  exact decode_list .branch Branch.encode h hvariant

theorem decode_branch {condition : Expr} {body : List Stmt} (h : DecodesBlock body)
    {value : Value} (hvariant : Variant (Branch.mk condition body).encode value) :
    decode .branch value = .ok (.mk condition body) := by
  have hencoding : IsEncoding branchFields (condition, body, ())
      [("condition", condition.encode), ("block", .array (encodeBlock body))] :=
    .required (fun _ => condition.decode_variant) (not_omissible (by decide)) <|
      .required (fun _ => h.decode_variant) (not_omissible (by decide)) rfl
  obtain ⟨others, rfl, hrecord⟩ := hencoding.exists_record hvariant (by decide) (by decide)
  rw [decode, hrecord]
  rfl

mutual

/-- Every statement is encoded as the node of its kind. -/
theorem Stmt.exists_encoded :
    (stmt : Stmt) → ∃ kind record members, stmt.Encoded kind record members
  | .declare name value =>
      ⟨.declare, (name, value, ()), _, rfl, rfl,
        .required (fun _ => decode_text) (not_omissible (by decide)) <|
        .required (fun _ => value.decode_variant) (value.not_omissible _) rfl⟩
  | .assign name value =>
      ⟨.assign, (name, value, ()), _, rfl, rfl,
        .required (fun _ => decode_text) (not_omissible (by decide)) <|
        .required (fun _ => value.decode_variant) (value.not_omissible _) rfl⟩
  | .print text arguments => by
      refine ⟨.print, (text, arguments, ()), _, by rw [Stmt.encode], rfl,
        .required (fun _ => decode_text) (not_omissible (by decide))
          ⟨_, _, rfl, fun other hvariant => ?_, fun homissible => ?_, rfl⟩⟩
      · exact read_defaulted
          (decode_list .expr Expr.encode (fun expr _ _ => expr.decode_variant) hvariant)
      · -- Only of no arguments the list may be left out.
        simp only [Omissible, Value.array.injEq, List.map_eq_nil_iff] at homissible
        obtain rfl : arguments = [] := by simpa using homissible
        rfl
  | .choose branches none => by
      refine ⟨.choose, (branches, none, ()), _, by rw [Stmt.encode], rfl,
        .required (fun _ => decode_branches (decodesBranches branches)) (not_omissible (by decide))
          ⟨_, _, rfl, fun other hvariant => ?_, fun _ => rfl, rfl⟩⟩
      cases hvariant
      rfl
  | .choose branches (some block) => by
      refine ⟨.choose, (branches, some block, ()), _, by rw [Stmt.encode], rfl,
        .required (fun _ => decode_branches (decodesBranches branches)) (not_omissible (by decide))
          ⟨_, _, rfl, fun other hvariant => ?_, fun homissible => ?_, rfl⟩⟩
      · refine read_optional ?_ ((decodesBlock block).decode_variant hvariant)
        rintro rfl
        cases hvariant
      · simp [Omissible] at homissible
  | .whileLoop condition body =>
      ⟨.whileLoop, (condition, body, ()), _, by rw [Stmt.encode], rfl,
        .required (fun _ => condition.decode_variant) (not_omissible (by decide)) <|
        .required (fun _ => (decodesBlock body).decode_variant) (not_omissible (by decide)) rfl⟩
  | .doWhile body condition =>
      ⟨.doWhile, (body, condition, ()), _, by rw [Stmt.encode], rfl,
        .required (fun _ => (decodesBlock body).decode_variant) (not_omissible (by decide)) <|
        .required (fun _ => condition.decode_variant) (not_omissible (by decide)) rfl⟩
  | .forLoop counter count body =>
      ⟨.forLoop, (counter, count, body, ()), _, by rw [Stmt.encode], rfl,
        .required (fun _ => decode_text) (not_omissible (by decide)) <|
        .required (fun _ => count.decode_variant) (not_omissible (by decide)) <|
        .required (fun _ => (decodesBlock body).decode_variant) (not_omissible (by decide)) rfl⟩
  | .breakLoop => ⟨.breakLoop, (), [], by rw [Stmt.encode], rfl, rfl⟩
  | .continueLoop => ⟨.continueLoop, (), [], by rw [Stmt.encode], rfl, rfl⟩
  | .ret none => by
      refine ⟨.ret, (none, ()), _, by rw [Stmt.encode], rfl, _, _, rfl,
        fun other hvariant => ?_, fun _ => rfl, rfl⟩
      cases hvariant
      rfl
  | .ret (some value) => by
      refine ⟨.ret, (some value, ()), _, by rw [Stmt.encode, encodeOptional], rfl, _, _, rfl,
        fun other hvariant => ?_, fun homissible => absurd homissible (value.not_omissible _), rfl⟩
      refine read_optional ?_ (value.decode_variant hvariant)
      rintro rfl
      obtain ⟨members, hencode⟩ := value.exists_encode_eq
      rw [hencode] at hvariant
      cases hvariant
  | .block statements =>
      ⟨.block, (statements, ()), _, by rw [Stmt.encode], rfl,
        .required (fun _ => (decodesBlock statements).decode_variant) (not_omissible (by decide))
          rfl⟩
  | .importFile path =>
      ⟨.importFile, (path, ()), _, by rw [Stmt.encode], rfl,
        .required (fun _ => decode_text) (not_omissible (by decide)) rfl⟩

theorem decodesBlock : (stmts : List Stmt) → DecodesBlock stmts
  | [] => fun _ hmem => absurd hmem List.not_mem_nil
  | stmt :: stmts => by
      intro other hmem value hvariant
      rcases List.mem_cons.1 hmem with heq | hmem
      · obtain ⟨kind, record, members, hencoded⟩ := Stmt.exists_encoded stmt
        rw [heq] at hvariant ⊢
        exact hencoded.decode_variant hvariant
      · exact decodesBlock stmts other hmem value hvariant

theorem decodesBranches : (branches : List Branch) → ∀ branch ∈ branches, ∀ value,
    Variant branch.encode value → decode .branch value = .ok branch
  | [] => fun _ hmem => absurd hmem List.not_mem_nil
  | .mk condition body :: branches => by
      intro other hmem value hvariant
      rcases List.mem_cons.1 hmem with heq | hmem
      · rw [heq] at hvariant ⊢
        exact decode_branch (decodesBlock body) hvariant
      · exact decodesBranches branches other hmem value hvariant

end

end Statements

end StackPipeline.Tree
