import StackPipeline.Proofs.Json.Values
import StackPipeline.Tree.Decoder
import StackPipeline.Tree.Encoder

/-!
Written trees that say the same: the members of an object may stand in any order, members that say no
more than their absence may be left out, and members of other names may be added.

The fields of a node are drafted member by member.  Whatever the order, the draft holds the fields that
have been met, each with the value it has in the node, so that only the set of the names met counts.
-/

namespace StackPipeline.Tree

open Json (Legible Problem Value)

/-- A member that says the same as its absence: no arguments, no last block or no value. -/
def Omissible (name : String) (value : Value) : Prop :=
  name = "args" ∧ value = .array [] ∨ name = "else_block" ∧ value = .null ∨
    name = "expr" ∧ value = .null

mutual

/-- The second value is the first with, anywhere in it, the members of objects in another order, some
omissible members left out, and strings added under names that the object did not have. -/
inductive Variant : Value → Value → Prop
  | null : Variant .null .null
  | boolean (value : Bool) : Variant (.boolean value) (.boolean value)
  | number (numeral : Json.Numeral) : Variant (.number numeral) (.number numeral)
  | string (text : String) : Variant (.string text) (.string text)
  | array {items others : List Value} :
      VariantItems items others → Variant (.array items) (.array others)
  | object {members kept added others : List (String × Value)} :
      VariantMembers members kept →
      (∀ member ∈ added, member.1 ∉ members.map Prod.fst ∧ ∃ text, member.2 = .string text) →
      others.Perm (kept ++ added) → Variant (.object members) (.object others)

/-- Items one by one. -/
inductive VariantItems : List Value → List Value → Prop
  | nil : VariantItems [] []
  | cons {item other : Value} {items others : List Value} :
      Variant item other → VariantItems items others →
        VariantItems (item :: items) (other :: others)

/-- Members one by one, in their order; some are left out. -/
inductive VariantMembers : List (String × Value) → List (String × Value) → Prop
  | nil : VariantMembers [] []
  | keep {name : String} {value other : Value} {members kept : List (String × Value)} :
      Variant value other → VariantMembers members kept →
        VariantMembers ((name, value) :: members) ((name, other) :: kept)
  | leave {name : String} {value : Value} {members kept : List (String × Value)} :
      Omissible name value → VariantMembers members kept →
        VariantMembers ((name, value) :: members) kept

end

section Values

mutual

theorem Variant.refl : (value : Value) → Variant value value
  | .null => .null
  | .boolean value => .boolean value
  | .number numeral => .number numeral
  | .string text => .string text
  | .array items => .array (VariantItems.refl items)
  | .object members =>
      .object (VariantMembers.refl members) (fun _ hmem => absurd hmem List.not_mem_nil)
        (by rw [List.append_nil])

theorem VariantItems.refl : (items : List Value) → VariantItems items items
  | [] => .nil
  | item :: items => .cons (Variant.refl item) (VariantItems.refl items)

theorem VariantMembers.refl : (members : List (String × Value)) → VariantMembers members members
  | [] => .nil
  | (_, value) :: members => .keep (Variant.refl value) (VariantMembers.refl members)

end

mutual

theorem Variant.legible {depth : Nat} {value other : Value} :
    Variant value other → Legible depth value → Legible depth other
  | .null, _ => .null
  | .boolean value, _ => .boolean value
  | .number _, h => h
  | .string text, _ => .string text
  | .array hitems, .array h => .array (hitems.legible h)
  | .object hmembers hadded hperm, .object h => by
      refine .object fun member hmem => ?_
      rcases List.mem_append.1 (hperm.mem_iff.1 hmem) with hmem | hmem
      · exact hmembers.legible h member hmem
      · obtain ⟨-, text, htext⟩ := hadded member hmem
        rw [htext]
        exact .string text

theorem VariantItems.legible {depth : Nat} {items others : List Value} :
    VariantItems items others → (∀ item ∈ items, Legible depth item) →
      ∀ other ∈ others, Legible depth other
  | .nil, h => h
  | .cons hitem hitems, h => by
      intro other hmem
      rcases List.mem_cons.1 hmem with rfl | hmem
      · exact hitem.legible (h _ List.mem_cons_self)
      · exact hitems.legible (fun item hmem => h item (List.mem_cons_of_mem _ hmem)) other hmem

theorem VariantMembers.legible {depth : Nat} {members kept : List (String × Value)} :
    VariantMembers members kept → (∀ member ∈ members, Legible depth member.2) →
      ∀ member ∈ kept, Legible depth member.2
  | .nil, h => h
  | .keep hvalue hmembers, h => by
      intro member hmem
      rcases List.mem_cons.1 hmem with rfl | hmem
      · exact hvalue.legible (h _ List.mem_cons_self)
      · exact hmembers.legible (fun other hmem => h other (List.mem_cons_of_mem _ hmem)) member hmem
  | .leave _ hmembers, h =>
      hmembers.legible fun other hmem => h other (List.mem_cons_of_mem _ hmem)

end

end Values

section Drafts

/-- The field as the value of its member says. -/
def Field.read (field : Field) (written : Value) : Except Problem field.Carrier :=
  match field.ofNull? written with
  | some value => .ok value
  | none => build field.accept (decode field.shape written)

theorem decodeMembers_cons {fields : List Field} (draft : Draft fields) (name : String)
    (written : Value) (rest : List (String × Value)) :
    decodeMembers draft ((name, written) :: rest) =
      if name = "kind" then decodeMembers draft rest
      else match draft.put name (fun field => field.read written) with
        | .error problem => .error problem
        | .ok draft => decodeMembers draft rest := by
  rw [decodeMembers]
  rfl

def fieldNames (fields : List Field) : List String :=
  fields.map Field.name

/-- The draft of a record in which the fields with these names have been read. -/
def Draft.of : {fields : List Field} → Record fields → List String → Draft fields
  | [], _, _ => ()
  | field :: _, (value, values), seen =>
    (if field.name ∈ seen then some value else none, Draft.of values seen)

/-- The field with this name, if there is one, is read from this value as the record has it. -/
def Gives : {fields : List Field} → Record fields → String → Value → Prop
  | [], _, _, _ => True
  | field :: _, (value, values), name, written =>
    (field.name = name → field.read written = .ok value) ∧ Gives values name written

theorem Draft.of_nil {fields : List Field} (record : Record fields) :
    Draft.of record [] = Draft.empty fields := by
  induction fields with
  | nil => rfl
  | cons field fields ih =>
      obtain ⟨value, values⟩ := record
      rw [Draft.of, Draft.empty, ih values, if_neg List.not_mem_nil]

/-- Only the names of fields count. -/
theorem Draft.of_congr {fields : List Field} (record : Record fields) {seen other : List String}
    (h : ∀ name ∈ fieldNames fields, name ∈ seen ↔ name ∈ other) :
    Draft.of record seen = Draft.of record other := by
  induction fields with
  | nil => rfl
  | cons field fields ih =>
      obtain ⟨value, values⟩ := record
      have hfield : field.name ∈ seen ↔ field.name ∈ other := h _ List.mem_cons_self
      rw [Draft.of, Draft.of, ih values fun name hmem => h name (List.mem_cons_of_mem _ hmem)]
      simp only [hfield]

theorem gives_of_not_mem {fields : List Field} (record : Record fields) {name : String}
    (h : name ∉ fieldNames fields) (written : Value) : Gives record name written := by
  induction fields with
  | nil => exact trivial
  | cons field fields ih =>
      obtain ⟨value, values⟩ := record
      rw [fieldNames, List.map_cons, List.mem_cons, not_or] at h
      exact ⟨fun heq => absurd heq.symm h.1, ih values h.2⟩

/-- A member that has not been met yet, or is no field, is read into the draft. -/
theorem put_of {fields : List Field} (record : Record fields) {name : String} {seen : List String}
    {written : Value} (hnodup : (fieldNames fields).Nodup)
    (hnew : name ∈ fieldNames fields → name ∉ seen) (hgives : Gives record name written) :
    (Draft.of record seen).put name (fun field => field.read written) =
      .ok (Draft.of record (name :: seen)) := by
  induction fields with
  | nil => rfl
  | cons field fields ih =>
      obtain ⟨value, values⟩ := record
      obtain ⟨hread, hgives⟩ := hgives
      rw [fieldNames, List.map_cons, List.nodup_cons] at hnodup
      simp only [Draft.of, Draft.put]
      by_cases hname : field.name = name
      · subst hname
        have hsame : Draft.of values (field.name :: seen) = Draft.of values seen :=
          Draft.of_congr values fun name hmem =>
            ⟨fun h => (List.mem_cons.1 h).resolve_left
                (fun heq => hnodup.1 (heq ▸ hmem)), List.mem_cons_of_mem _⟩
        rw [if_pos rfl, if_neg (hnew List.mem_cons_self), if_pos List.mem_cons_self, hread rfl,
          hsame]
      · have hrest := ih values hnodup.2 (fun hmem => hnew (List.mem_cons_of_mem _ hmem)) hgives
        have hslot : field.name ∈ name :: seen ↔ field.name ∈ seen := by
          simp [hname]
        rw [if_neg hname, hrest]
        simp only [hslot]

/-- No two members stand for the same field. -/
def Apart (names : List String) (members : List (String × Value)) : Prop :=
  members.Pairwise fun first second => first.1 = second.1 → first.1 ∉ names

/-- Members in any order are read into the draft, each field once. -/
theorem decodeMembers_of {fields : List Field} (record : Record fields)
    {members : List (String × Value)} {seen : List String} (hnodup : (fieldNames fields).Nodup)
    (hkind : "kind" ∉ fieldNames fields) (hapart : Apart (fieldNames fields) members)
    (hnew : ∀ member ∈ members, member.1 ∈ fieldNames fields → member.1 ∉ seen)
    (hgives : ∀ member ∈ members, Gives record member.1 member.2) :
    decodeMembers (Draft.of record seen) members =
      .ok (Draft.of record (members.map Prod.fst ++ seen)) := by
  induction members generalizing seen with
  | nil => rfl
  | cons member members ih =>
      obtain ⟨name, written⟩ := member
      obtain ⟨hfirst, hrest⟩ := List.pairwise_cons.1 hapart
      rw [decodeMembers_cons]
      by_cases hname : name = "kind"
      · subst hname
        rw [if_pos rfl, ih hrest (fun other hmem => hnew other (List.mem_cons_of_mem _ hmem))
          (fun other hmem => hgives other (List.mem_cons_of_mem _ hmem))]
        congr 1
        apply Draft.of_congr
        intro name hmem
        have hne : name ≠ "kind" := ne_of_mem_of_not_mem hmem hkind
        simp [hne]
      · rw [if_neg hname, put_of record hnodup (hnew _ List.mem_cons_self)
          (hgives _ List.mem_cons_self)]
        dsimp only
        rw [ih hrest _ fun other hmem => hgives other (List.mem_cons_of_mem _ hmem)]
        · congr 1
          apply Draft.of_congr
          intro name _
          simp only [List.map_cons, List.cons_append, List.mem_append, List.mem_cons]
          exact or_left_comm
        · intro other hmem hfield hseen
          rcases List.mem_cons.1 hseen with heq | hseen
          · exact hfirst other hmem heq.symm (heq ▸ hfield)
          · exact hnew other (List.mem_cons_of_mem _ hmem) hfield hseen

/-- These members, in the order of the fields, are the record: each has its field's name and is read as
the field's value, and a field without a member has the value of a field that is not there. -/
def StandsIn : {fields : List Field} → Record fields → List (String × Value) → Prop
  | [], _, members => members = []
  | field :: _, (value, values), members =>
    (∃ written rest, members = (field.name, written) :: rest ∧ field.read written = .ok value ∧
      StandsIn values rest) ∨
    field.missing? = some value ∧ StandsIn values members

theorem StandsIn.names_sublist {fields : List Field} {record : Record fields}
    {members : List (String × Value)} (h : StandsIn record members) :
    (members.map Prod.fst).Sublist (fieldNames fields) := by
  induction fields generalizing members with
  | nil =>
      obtain rfl : members = [] := h
      exact List.Sublist.refl _
  | cons field fields ih =>
      obtain ⟨value, values⟩ := record
      rcases h with ⟨written, rest, rfl, -, h⟩ | ⟨-, h⟩
      · exact (ih h).cons_cons field.name
      · exact (ih h).cons field.name

theorem StandsIn.gives {fields : List Field} {record : Record fields}
    {members : List (String × Value)} (h : StandsIn record members)
    (hnodup : (fieldNames fields).Nodup) :
    ∀ member ∈ members, Gives record member.1 member.2 := by
  induction fields generalizing members with
  | nil => exact fun _ _ => trivial
  | cons field fields ih =>
      obtain ⟨value, values⟩ := record
      rw [fieldNames, List.map_cons, List.nodup_cons] at hnodup
      -- A member of a later field does not have the name of this one.
      have hlater {rest : List (String × Value)} (h : StandsIn values rest) (member : String × Value)
          (hmem : member ∈ rest) :
          (field.name = member.1 → field.read member.2 = .ok value) ∧
            Gives values member.1 member.2 := by
        refine ⟨fun heq => ?_, ih h hnodup.2 member hmem⟩
        exact absurd (heq ▸ h.names_sublist.subset (List.mem_map_of_mem hmem)) hnodup.1
      rcases h with ⟨written, rest, rfl, hread, h⟩ | ⟨-, h⟩
      · intro member hmem
        rcases List.mem_cons.1 hmem with rfl | hmem
        · exact ⟨fun _ => hread, gives_of_not_mem values hnodup.1 written⟩
        · exact hlater h member hmem
      · exact hlater h

/-- The draft in which all these members have been read is complete. -/
theorem StandsIn.complete {fields : List Field} {record : Record fields}
    {members : List (String × Value)} {seen : List String} (h : StandsIn record members)
    (hnodup : (fieldNames fields).Nodup)
    (hseen : ∀ name ∈ fieldNames fields, name ∈ seen ↔ name ∈ members.map Prod.fst) :
    (Draft.of record seen).complete = .ok record := by
  induction fields generalizing members with
  | nil => rfl
  | cons field fields ih =>
      obtain ⟨value, values⟩ := record
      rw [fieldNames, List.map_cons, List.nodup_cons] at hnodup
      have hfield := hseen field.name List.mem_cons_self
      have hothers (name : String) (hmem : name ∈ fieldNames fields) :=
        hseen name (List.mem_cons_of_mem _ hmem)
      simp only [Draft.of, Draft.complete]
      rcases h with ⟨written, rest, rfl, -, h⟩ | ⟨hmissing, h⟩
      · have hrest : (Draft.of values seen).complete = .ok values := by
          refine ih h hnodup.2 fun name hmem => ?_
          rw [hothers name hmem, List.map_cons, List.mem_cons]
          exact or_iff_right (ne_of_mem_of_not_mem hmem hnodup.1)
        rw [if_pos (hfield.2 List.mem_cons_self), hrest]
        rfl
      · have hrest := ih h hnodup.2 hothers
        have hunseen : field.name ∉ seen := fun hmem =>
          hnodup.1 (h.names_sublist.subset (hfield.1 hmem))
        rw [if_neg hunseen, hmissing, hrest]
        rfl

/-- **The order of members does not count**, nor do members of other names: a record is read from its
members, in any order and with any others among them. -/
theorem StandsIn.finishDraft_eq {fields : List Field} {record : Record fields}
    {kept added others : List (String × Value)} (h : StandsIn record kept)
    (hnodup : (fieldNames fields).Nodup) (hkind : "kind" ∉ fieldNames fields)
    (hadded : ∀ member ∈ added, member.1 ∉ fieldNames fields)
    (hperm : others.Perm (kept ++ added)) :
    finishDraft (decodeMembers (.empty fields) others) = .ok record := by
  have hapart : Apart (fieldNames fields) others := by
    have hsymm {first second : String × Value}
        (h : first.1 = second.1 → first.1 ∉ fieldNames fields) :
        second.1 = first.1 → second.1 ∉ fieldNames fields :=
      fun heq => heq ▸ h heq.symm
    refine (hperm.pairwise_iff hsymm).2 (List.pairwise_append.2 ⟨?_, ?_, ?_⟩)
    · have hkept := (h.names_sublist.nodup hnodup)
      refine (List.pairwise_map.1 hkept).imp fun hne heq => absurd heq hne
    · exact List.pairwise_of_forall_mem_list fun first hmem second _ _ => hadded first hmem
    · exact fun first _ second hmem heq => heq ▸ hadded second hmem
  have hgives : ∀ member ∈ others, Gives record member.1 member.2 := by
    intro member hmem
    rcases List.mem_append.1 (hperm.mem_iff.1 hmem) with hmem | hmem
    · exact h.gives hnodup member hmem
    · exact gives_of_not_mem record (hadded member hmem) member.2
  rw [← Draft.of_nil record, decodeMembers_of record hnodup hkind hapart
    (fun _ _ _ => List.not_mem_nil) hgives]
  refine h.complete hnodup fun name hmem => ?_
  rw [List.append_nil, (hperm.map Prod.fst).mem_iff, List.map_append, List.mem_append]
  refine or_iff_left ?_
  rintro hname
  obtain ⟨member, hmember, rfl⟩ := List.mem_map.1 hname
  exact hadded member hmember hmem

end Drafts

end StackPipeline.Tree
