/-! Lists put in order. Equal items keep their order. -/
namespace PluginHost

variable {α : Type}

/-- An item in front of the first one that does not come before it. -/
def insertInOrder (le : α → α → Bool) (x : α) : List α → List α
  | [] => [x]
  | y :: ys => if le x y then x :: y :: ys else y :: insertInOrder le x ys

def inOrder (le : α → α → Bool) : List α → List α
  | [] => []
  | x :: xs => insertInOrder le x (inOrder le xs)

theorem perm_insertInOrder (le : α → α → Bool) (x : α) (xs : List α) :
    (insertInOrder le x xs).Perm (x :: xs) := by
  induction xs with
  | nil => exact .refl _
  | cons y ys ih =>
    unfold insertInOrder
    split
    · exact .refl _
    · exact (ih.cons y).trans (.swap x y ys)

theorem perm_inOrder (le : α → α → Bool) (xs : List α) : (inOrder le xs).Perm xs := by
  induction xs with
  | nil => exact .refl _
  | cons x xs ih => exact (perm_insertInOrder le x _).trans (ih.cons x)

theorem pairwise_insertInOrder {le : α → α → Bool} (total : ∀ a b, le a b ∨ le b a)
    (trans : ∀ a b c, le a b → le b c → le a c) (x : α) {xs : List α}
    (h : xs.Pairwise fun a b => le a b) : (insertInOrder le x xs).Pairwise fun a b => le a b := by
  induction xs with
  | nil => simp [insertInOrder]
  | cons y ys ih =>
    obtain ⟨hy, hys⟩ := List.pairwise_cons.1 h
    unfold insertInOrder
    split
    · rename_i hxy
      refine List.pairwise_cons.2 ⟨fun z hz => ?_, h⟩
      obtain rfl | hz := List.mem_cons.1 hz
      · exact hxy
      · exact trans x y z hxy (hy z hz)
    · rename_i hxy
      refine List.pairwise_cons.2 ⟨fun z hz => ?_, ih hys⟩
      obtain rfl | hz := List.mem_cons.1 ((perm_insertInOrder le x ys).mem_iff.1 hz)
      · exact (total y z).resolve_right hxy
      · exact hy z hz

theorem pairwise_inOrder {le : α → α → Bool} (total : ∀ a b, le a b ∨ le b a)
    (trans : ∀ a b c, le a b → le b c → le a c) (xs : List α) :
    (inOrder le xs).Pairwise fun a b => le a b := by
  induction xs with
  | nil => simp [inOrder]
  | cons x xs ih => exact pairwise_insertInOrder total trans x ih

/-- Texts by the code points of their characters. -/
def textsInOrder (ss : List String) : List String := inOrder (fun a b => decide (a ≤ b)) ss

/-- Entries by their names. -/
def entriesInOrder (es : List (String × α)) : List (String × α) :=
  inOrder (fun a b => decide (a.1 ≤ b.1)) es

end PluginHost
