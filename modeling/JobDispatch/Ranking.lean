/-!
# Ranking

Lists are put in order by a test that tells which of two items may come first. Items that may come
in either order stay as they were. A ranking has the items of its list (`rankBy_perm`), and no item
comes before one that must precede it, if the test is a total order (`pairwise_rankBy`).
-/

namespace JobDispatch

variable {α : Type}

/-- Puts an item before the first one that it may precede. -/
def insertRanked (before : α → α → Bool) (x : α) : List α → List α
  | [] => [x]
  | y :: ys => if before x y then x :: y :: ys else y :: insertRanked before x ys

def rankBy (before : α → α → Bool) : List α → List α
  | [] => []
  | x :: xs => insertRanked before x (rankBy before xs)

theorem insertRanked_perm (before : α → α → Bool) (x : α) (ys : List α) :
    (insertRanked before x ys).Perm (x :: ys) := by
  induction ys with
  | nil => exact .refl _
  | cons y ys ih =>
    simp only [insertRanked]
    split
    · exact .refl _
    · exact (ih.cons y).trans (.swap x y ys)

theorem rankBy_perm (before : α → α → Bool) (xs : List α) : (rankBy before xs).Perm xs := by
  induction xs with
  | nil => exact .refl _
  | cons x xs ih => exact (insertRanked_perm before x _).trans (ih.cons x)

theorem mem_rankBy {before : α → α → Bool} {x : α} {xs : List α} :
    x ∈ rankBy before xs ↔ x ∈ xs := (rankBy_perm before xs).mem_iff

theorem pairwise_insertRanked {before : α → α → Bool}
    (trans : ∀ a b c, before a b = true → before b c = true → before a c = true)
    (total : ∀ a b, before a b = true ∨ before b a = true) {x : α} {ys : List α}
    (h : ys.Pairwise fun a b => before a b = true) :
    (insertRanked before x ys).Pairwise fun a b => before a b = true := by
  induction ys with
  | nil => simp [insertRanked]
  | cons y ys ih =>
    have hy := List.pairwise_cons.1 h
    simp only [insertRanked]
    split
    · rename_i hxy
      refine List.pairwise_cons.2 ⟨fun z hz => ?_, h⟩
      rcases List.mem_cons.1 hz with rfl | hz
      · exact hxy
      · exact trans _ _ _ hxy (hy.1 z hz)
    · rename_i hxy
      refine List.pairwise_cons.2 ⟨fun z hz => ?_, ih hy.2⟩
      rcases List.mem_cons.1 ((insertRanked_perm before x ys).mem_iff.1 hz) with rfl | hz
      · exact (total z y).resolve_left hxy
      · exact hy.1 z hz

theorem pairwise_rankBy {before : α → α → Bool}
    (trans : ∀ a b c, before a b = true → before b c = true → before a c = true)
    (total : ∀ a b, before a b = true ∨ before b a = true) (xs : List α) :
    (rankBy before xs).Pairwise fun a b => before a b = true := by
  induction xs with
  | nil => exact .nil
  | cons x xs ih => exact pairwise_insertRanked trans total ih

end JobDispatch
