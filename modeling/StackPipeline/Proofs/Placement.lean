/-!
Where things stand in code: blocks, and names that are defined once.
-/

namespace StackPipeline

variable {α : Type}

/-- From `start` on, the code reads `block`. -/
def Placed (code : List α) (start : Nat) (block : List α) : Prop :=
  ∃ before after, code = before ++ (block ++ after) ∧ before.length = start

namespace Placed

variable {code : List α} {start : Nat}

theorem whole (code : List α) : Placed code 0 code :=
  ⟨[], [], by simp, rfl⟩

theorem left {block rest : List α} (h : Placed code start (block ++ rest)) :
    Placed code start block := by
  obtain ⟨before, after, rfl, hlength⟩ := h
  exact ⟨before, rest ++ after, by simp, hlength⟩

theorem right {block rest : List α} (h : Placed code start (block ++ rest)) :
    Placed code (start + block.length) rest := by
  obtain ⟨before, after, rfl, rfl⟩ := h
  exact ⟨before ++ block, after, by simp, by simp⟩

theorem head {x : α} {rest : List α} (h : Placed code start (x :: rest)) :
    code[start]? = some x := by
  obtain ⟨before, after, rfl, rfl⟩ := h
  simp

theorem tail {x : α} {rest : List α} (h : Placed code start (x :: rest)) :
    Placed code (start + 1) rest := by
  have hsingle : Placed code start ([x] ++ rest) := h
  exact hsingle.right

theorem get {block : List α} (h : Placed code start block) {offset : Nat} {x : α}
    (hx : block[offset]? = some x) : code[start + offset]? = some x := by
  obtain ⟨before, after, rfl, rfl⟩ := h
  rw [List.getElem?_append_right (Nat.le_add_right _ _), Nat.add_sub_cancel_left,
    List.getElem?_append_left (List.getElem?_eq_some_iff.1 hx).1]
  exact hx

end Placed

/-- If no name is defined twice, then a name is defined at one index. -/
theorem index_unique_of_nodup {β : Type} {name? : α → Option β} {code : List α}
    (h : (code.filterMap name?).Nodup) {first last : Nat} {x y : α} {name : β}
    (hfirst : code[first]? = some x) (hlast : code[last]? = some y)
    (hx : name? x = some name) (hy : name? y = some name) : first = last := by
  induction code generalizing first last with
  | nil => simp at hfirst
  | cons front rest ih =>
      -- A name defined at the front is not defined further on.
      have honce : ∀ (index : Nat) (z : α), name? front = some name → rest[index]? = some z →
          name? z ≠ some name := by
        intro index z hfront hz hname
        rw [List.filterMap_cons_some hfront, List.nodup_cons] at h
        exact h.1 (List.mem_filterMap.2 ⟨z, List.mem_of_getElem? hz, hname⟩)
      have hrest : (rest.filterMap name?).Nodup :=
        h.sublist ((List.sublist_cons_self front rest).filterMap _)
      cases first with
      | zero =>
          obtain rfl := Option.some.inj hfirst
          cases last with
          | zero => rfl
          | succ last => exact absurd hy (honce last y hx hlast)
      | succ first =>
          cases last with
          | zero =>
              obtain rfl := Option.some.inj hlast
              exact absurd hx (honce first x hy hfirst)
          | succ last => rw [ih hrest hfirst hlast]

end StackPipeline
