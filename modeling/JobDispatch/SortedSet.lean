/-!
# Sorted sets

A finite set kept as its ascending list of members, so that sets with the same members are equal
and are written in one order.
-/

namespace JobDispatch

/-- Puts a member into an ascending list, unless the list has it. -/
def insertSorted {α : Type} [LT α] [DecidableLT α] (x : α) : List α → List α
  | [] => [x]
  | y :: ys => if x < y then x :: y :: ys else if y < x then y :: insertSorted x ys else y :: ys

/-- Order that sorted sets can be kept in. -/
abbrev TransLT (α : Type) [LT α] :=
  Trans (fun a b : α => a < b) (fun a b : α => a < b) (fun a b : α => a < b)

theorem mem_insertSorted {α : Type} [LT α] [DecidableLT α] {x z : α} {l : List α}
    (h : z ∈ insertSorted x l) : z = x ∨ z ∈ l := by
  induction l with
  | nil => simpa [insertSorted] using h
  | cons y ys ih =>
    simp only [insertSorted] at h
    split at h
    · simpa using h
    · split at h
      · rcases List.mem_cons.1 h with h | h
        · exact .inr (by simp [h])
        · rcases ih h with h | h
          · exact .inl h
          · exact .inr (by simp [h])
      · exact .inr h

theorem pairwise_insertSorted {α : Type} [LT α] [DecidableLT α] [TransLT α] {x : α} {l : List α}
    (h : l.Pairwise (· < ·)) : (insertSorted x l).Pairwise (· < ·) := by
  induction l with
  | nil => simp [insertSorted]
  | cons y ys ih =>
    have hy := List.pairwise_cons.1 h
    simp only [insertSorted]
    split
    · rename_i hxy
      refine List.pairwise_cons.2 ⟨fun z hz => ?_, h⟩
      rcases List.mem_cons.1 hz with rfl | hz
      · exact hxy
      · exact Trans.trans hxy (hy.1 z hz)
    · split
      · rename_i hyx
        refine List.pairwise_cons.2 ⟨fun z hz => ?_, ih hy.2⟩
        rcases mem_insertSorted hz with rfl | hz
        · exact hyx
        · exact hy.1 z hz
      · exact h

structure SortedSet (α : Type) [LT α] where
  members : List α
  ascending : members.Pairwise (· < ·)
deriving DecidableEq

namespace SortedSet

variable {α : Type} [LT α]

def empty : SortedSet α := ⟨[], .nil⟩

instance : Inhabited (SortedSet α) := ⟨empty⟩

def isEmpty (s : SortedSet α) : Bool := s.members.isEmpty

def contains [DecidableEq α] (s : SortedSet α) (x : α) : Bool := decide (x ∈ s.members)

def subset [DecidableEq α] (s t : SortedSet α) : Bool := s.members.all t.contains

def insert [DecidableLT α] [TransLT α] (s : SortedSet α) (x : α) : SortedSet α :=
  ⟨insertSorted x s.members, pairwise_insertSorted s.ascending⟩

def ofList [DecidableLT α] [TransLT α] (xs : List α) : SortedSet α := xs.foldl insert empty

theorem subset_iff [DecidableEq α] {s t : SortedSet α} :
    s.subset t = true ↔ ∀ x ∈ s.members, x ∈ t.members := by
  simp [subset, contains]

end SortedSet

instance : TransLT String := ⟨fun h k => String.lt_trans h k⟩

/-- Capability tags: those that a job asks for, or those that a worker offers. Tags are ordered by
code points. -/
abbrev Tags := SortedSet String

def Tags.text (tags : Tags) : String := "[" ++ String.intercalate "," tags.members ++ "]"

end JobDispatch
