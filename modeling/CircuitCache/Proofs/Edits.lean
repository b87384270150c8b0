import Mathlib
import CircuitCache.Text.EditDistance

/-!
# Edits

The recursive edit distance is the least number of single edits that turn one text into the other
(`isLeast_editDistance`).  An edit can be made at any place (`IsEdit`), so texts may be read from
either end: the distance is that of the reversed texts (`editDistance_reverse`), and the recursion
goes by the last characters as well (`editDistance_concat`).
-/

namespace CircuitCache.Text

/-- One character is put in, taken out or replaced. -/
inductive IsEdit : List Char → List Char → Prop
  | insertion (before after : List Char) (c : Char) : IsEdit (before ++ after) (before ++ c :: after)
  | deletion (before after : List Char) (c : Char) : IsEdit (before ++ c :: after) (before ++ after)
  | substitution (before after : List Char) (c d : Char) :
    IsEdit (before ++ c :: after) (before ++ d :: after)

/-- So many edits, one after the other, turn one text into the other. -/
inductive EditsIn : ℕ → List Char → List Char → Prop
  | done (text : List Char) : EditsIn 0 text text
  | step {n : ℕ} {left middle right : List Char} (h : IsEdit left middle)
    (hrest : EditsIn n middle right) : EditsIn (n + 1) left right

variable {left right : List Char} {n : ℕ}

/-! ## Edits under a context -/

theorem IsEdit.cons (h : IsEdit left right) (x : Char) : IsEdit (x :: left) (x :: right) := by
  cases h with
  | insertion before after c => exact .insertion (x :: before) after c
  | deletion before after c => exact .deletion (x :: before) after c
  | substitution before after c d => exact .substitution (x :: before) after c d

theorem EditsIn.cons (h : EditsIn n left right) (x : Char) :
    EditsIn n (x :: left) (x :: right) := by
  induction h with
  | done text => exact .done (x :: text)
  | step h _ ih => exact .step (h.cons x) ih

theorem IsEdit.reverse (h : IsEdit left right) : IsEdit left.reverse right.reverse := by
  cases h with
  | insertion before after c => simpa using IsEdit.insertion after.reverse before.reverse c
  | deletion before after c => simpa using IsEdit.deletion after.reverse before.reverse c
  | substitution before after c d =>
    simpa using IsEdit.substitution after.reverse before.reverse c d

theorem EditsIn.reverse (h : EditsIn n left right) : EditsIn n left.reverse right.reverse := by
  induction h with
  | done text => exact .done text.reverse
  | step h _ ih => exact .step h.reverse ih

/-! ## The distance is reached -/

theorem editsIn_nil_left (right : List Char) : EditsIn right.length [] right := by
  induction right with
  | nil => exact .done []
  | cons b right ih => exact .step (.insertion [] [] b) (ih.cons b)

theorem editsIn_nil_right (left : List Char) : EditsIn left.length left [] := by
  induction left with
  | nil => exact .done []
  | cons a left ih => exact .step (.deletion [] left a) ih

theorem editsIn_editDistance (left right : List Char) :
    EditsIn (editDistance left right) left right := by
  fun_induction editDistance left right with
  | case1 right => exact editsIn_nil_left right
  | case2 left => exact editsIn_nil_right left
  | case3 a left b right hsubstitute hdelete hinsert =>
    have hsubstituted : EditsIn (editDistance left right + if a = b then 0 else 1)
        (a :: left) (b :: right) := by
      split_ifs with hab
      · exact hab ▸ hsubstitute.cons a
      · exact .step (.substitution [] left a b) (hsubstitute.cons b)
    have hdeleted : EditsIn (editDistance left (b :: right) + 1) (a :: left) (b :: right) :=
      .step (.deletion [] left a) hdelete
    have hinserted : EditsIn (editDistance (a :: left) right + 1) (a :: left) (b :: right) :=
      .step (.insertion [] (a :: left) b) (hinsert.cons b)
    rcases min_choice (editDistance left right + if a = b then 0 else 1)
      (min (editDistance left (b :: right) + 1) (editDistance (a :: left) right + 1)) with h | h
    · rwa [h]
    · rw [h]
      rcases min_choice (editDistance left (b :: right) + 1) (editDistance (a :: left) right + 1)
        with h | h
      · rwa [h]
      · rwa [h]

/-! ## Nothing less will do

One edit moves the distance to any text by one at most.
-/

theorem editDistance_cons_left_le (c : Char) (left right : List Char) :
    editDistance (c :: left) right ≤ editDistance left right + 1 := by
  cases right with
  | nil => simp [editDistance_nil_right]
  | cons b right =>
    rw [editDistance_cons_cons]
    omega

theorem editDistance_cons_right_le (c : Char) (left right : List Char) :
    editDistance left (c :: right) ≤ editDistance left right + 1 := by
  cases left with
  | nil => simp [editDistance_nil_left]
  | cons a left =>
    rw [editDistance_cons_cons]
    omega

theorem editDistance_le_cons_left (c : Char) (left right : List Char) :
    editDistance left right ≤ editDistance (c :: left) right + 1 := by
  induction right with
  | nil =>
    simp only [editDistance_nil_right, List.length_cons]
    omega
  | cons b right ih =>
    have hright := editDistance_cons_right_le b left right
    rw [editDistance_cons_cons]
    omega

theorem editDistance_cons_left_le_cons (c d : Char) (left right : List Char) :
    editDistance (c :: left) right ≤ editDistance (d :: left) right + 1 := by
  induction right with
  | nil => simp [editDistance_nil_right]
  | cons b right ih =>
    rw [editDistance_cons_cons c, editDistance_cons_cons d]
    split_ifs <;> omega

/-- If one text is never further off than another by more than one, nor is it behind a character
that both begin with. -/
theorem editDistance_cons_le_of_forall {left middle : List Char}
    (h : ∀ right, editDistance left right ≤ editDistance middle right + 1) (x : Char)
    (right : List Char) :
    editDistance (x :: left) right ≤ editDistance (x :: middle) right + 1 := by
  induction right with
  | nil =>
    have hnil := h []
    simp only [editDistance_nil_right, List.length_cons] at hnil ⊢
    omega
  | cons b right ih =>
    have hright := h right
    have hcons := h (b :: right)
    rw [editDistance_cons_cons, editDistance_cons_cons]
    omega

theorem IsEdit.editDistance_le {middle : List Char} (h : IsEdit left middle) (right : List Char) :
    editDistance left right ≤ editDistance middle right + 1 := by
  cases h with
  | insertion before after c =>
    induction before generalizing right with
    | nil => exact editDistance_le_cons_left c after right
    | cons x before ih => exact editDistance_cons_le_of_forall ih x right
  | deletion before after c =>
    induction before generalizing right with
    | nil => exact editDistance_cons_left_le c after right
    | cons x before ih => exact editDistance_cons_le_of_forall ih x right
  | substitution before after c d =>
    induction before generalizing right with
    | nil => exact editDistance_cons_left_le_cons c d after right
    | cons x before ih => exact editDistance_cons_le_of_forall ih x right

theorem editDistance_self (text : List Char) : editDistance text text = 0 := by
  induction text with
  | nil => rw [editDistance_nil_left, List.length_nil]
  | cons c text ih => simp [editDistance_cons_cons, ih]

theorem EditsIn.editDistance_le (h : EditsIn n left right) : editDistance left right ≤ n := by
  induction h with
  | done text => exact (editDistance_self text).le
  | @step n left middle right h _ ih => exact (h.editDistance_le right).trans (by omega)

theorem isLeast_editDistance (left right : List Char) :
    IsLeast {n | EditsIn n left right} (editDistance left right) :=
  ⟨editsIn_editDistance left right, fun _ h => EditsIn.editDistance_le h⟩

/-! ## From the other end -/

theorem editDistance_reverse (left right : List Char) :
    editDistance left.reverse right.reverse = editDistance left right := by
  apply le_antisymm
  · exact (editsIn_editDistance left right).reverse.editDistance_le
  · have h := (editsIn_editDistance left.reverse right.reverse).reverse
    rw [List.reverse_reverse, List.reverse_reverse] at h
    exact h.editDistance_le

/-- The recursion by the last characters. -/
theorem editDistance_concat (left right : List Char) (a b : Char) :
    editDistance (left ++ [a]) (right ++ [b]) =
      min (editDistance left right + if a = b then 0 else 1)
        (min (editDistance left (right ++ [b]) + 1) (editDistance (left ++ [a]) right + 1)) := by
  rw [← editDistance_reverse (left ++ [a]) (right ++ [b]),
    ← editDistance_reverse left (right ++ [b]),
    ← editDistance_reverse (left ++ [a]) right, ← editDistance_reverse left right,
    List.reverse_concat', List.reverse_concat', editDistance_cons_cons]

end CircuitCache.Text
