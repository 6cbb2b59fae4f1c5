/-!
# Tables

A finite map as a list of pairs with distinct keys, in the order in which the keys were first
entered. Each operation is described by what it does to `find?`.
-/

namespace JobDispatch

namespace Table

variable {κ ν : Type} [DecidableEq κ]

def findIn (k : κ) : List (κ × ν) → Option ν
  | [] => none
  | p :: ps => if p.1 = k then some p.2 else findIn k ps

/-- Replaces the value at a key, or enters the pair at the end. -/
def putIn (k : κ) (v : ν) : List (κ × ν) → List (κ × ν)
  | [] => [(k, v)]
  | p :: ps => if p.1 = k then (k, v) :: ps else p :: putIn k v ps

def eraseIn (k : κ) : List (κ × ν) → List (κ × ν)
  | [] => []
  | p :: ps => if p.1 = k then ps else p :: eraseIn k ps

theorem mem_keys_putIn {k j : κ} {v : ν} {ps : List (κ × ν)} :
    j ∈ (putIn k v ps).map Prod.fst ↔ j = k ∨ j ∈ ps.map Prod.fst := by
  induction ps with
  | nil => simp [putIn]
  | cons p ps ih =>
    simp only [putIn]
    split
    · rename_i h; subst h; simp
    · simp only [List.map_cons, List.mem_cons, ih]
      exact or_left_comm

theorem nodup_keys_putIn {k : κ} {v : ν} {ps : List (κ × ν)} (h : (ps.map Prod.fst).Nodup) :
    ((putIn k v ps).map Prod.fst).Nodup := by
  induction ps with
  | nil => simp [putIn]
  | cons p ps ih =>
    rw [List.map_cons, List.nodup_cons] at h
    simp only [putIn]
    split
    · rename_i hk; subst hk; simpa [List.nodup_cons] using h
    · rename_i hk
      rw [List.map_cons, List.nodup_cons, mem_keys_putIn]
      exact ⟨fun hm => hm.elim hk h.1, ih h.2⟩

theorem mem_keys_eraseIn {k j : κ} {ps : List (κ × ν)} (h : j ∈ (eraseIn k ps).map Prod.fst) :
    j ∈ ps.map Prod.fst := by
  induction ps with
  | nil => simp [eraseIn] at h
  | cons p ps ih =>
    simp only [eraseIn] at h
    split at h
    · exact List.mem_cons_of_mem _ h
    · rw [List.map_cons, List.mem_cons] at h ⊢
      exact h.imp id ih

theorem nodup_keys_eraseIn {k : κ} {ps : List (κ × ν)} (h : (ps.map Prod.fst).Nodup) :
    ((eraseIn k ps).map Prod.fst).Nodup := by
  induction ps with
  | nil => simp [eraseIn]
  | cons p ps ih =>
    rw [List.map_cons, List.nodup_cons] at h
    simp only [eraseIn]
    split
    · exact h.2
    · rw [List.map_cons, List.nodup_cons]
      exact ⟨fun hm => h.1 (mem_keys_eraseIn hm), ih h.2⟩

end Table

structure Table (κ ν : Type) where
  entries : List (κ × ν)
  distinct : (entries.map Prod.fst).Nodup
deriving DecidableEq

namespace Table

variable {κ ν : Type}

def empty : Table κ ν := ⟨[], .nil⟩

instance : Inhabited (Table κ ν) := ⟨empty⟩

def keys (t : Table κ ν) : List κ := t.entries.map Prod.fst

def values (t : Table κ ν) : List ν := t.entries.map Prod.snd

def size (t : Table κ ν) : Nat := t.entries.length

variable [DecidableEq κ]

def find? (t : Table κ ν) (k : κ) : Option ν := findIn k t.entries

def contains (t : Table κ ν) (k : κ) : Bool := (t.find? k).isSome

def insert (t : Table κ ν) (k : κ) (v : ν) : Table κ ν :=
  ⟨putIn k v t.entries, nodup_keys_putIn t.distinct⟩

def erase (t : Table κ ν) (k : κ) : Table κ ν :=
  ⟨eraseIn k t.entries, nodup_keys_eraseIn t.distinct⟩

/-! ### What the operations do to `find?` -/

theorem findIn_eq_none_iff {k : κ} {ps : List (κ × ν)} :
    findIn k ps = none ↔ k ∉ ps.map Prod.fst := by
  induction ps with
  | nil => simp [findIn]
  | cons p ps ih =>
    simp only [findIn, List.map_cons, List.mem_cons]
    split
    · rename_i h; simp [h]
    · rename_i h
      rw [ih]
      exact ⟨fun hn hm => hm.elim (fun e => h e.symm) hn, fun hn hm => hn (.inr hm)⟩

@[simp] theorem find?_empty (k : κ) : (empty : Table κ ν).find? k = none := rfl

theorem find?_insert (t : Table κ ν) (k j : κ) (v : ν) :
    (t.insert k v).find? j = if j = k then some v else t.find? j := by
  show findIn j (putIn k v t.entries) = _
  unfold find?
  induction t.entries with
  | nil =>
    by_cases h : j = k
    · simp [putIn, findIn, h]
    · simp [putIn, findIn, h, Ne.symm h]
  | cons p ps ih =>
    simp only [putIn]
    by_cases hk : p.1 = k
    · by_cases hj : j = k
      · simp [hk, hj, findIn]
      · have : ¬ k = j := fun e => hj e.symm
        simp [hk, hj, findIn, this]
    · simp only [if_neg hk, findIn]
      by_cases hj : p.1 = j
      · have : ¬ j = k := fun e => hk (hj.trans e)
        simp [hj, this]
      · simp only [if_neg hj]
        exact ih

@[simp] theorem find?_insert_self (t : Table κ ν) (k : κ) (v : ν) :
    (t.insert k v).find? k = some v := by simp [find?_insert]

theorem find?_insert_of_ne (t : Table κ ν) {k j : κ} (v : ν) (h : j ≠ k) :
    (t.insert k v).find? j = t.find? j := by simp [find?_insert, h]

theorem find?_erase (t : Table κ ν) (k j : κ) :
    (t.erase k).find? j = if j = k then none else t.find? j := by
  obtain ⟨ps, hps⟩ := t
  show findIn j (eraseIn k ps) = if j = k then none else findIn j ps
  induction ps with
  | nil => simp [eraseIn, findIn]
  | cons p ps ih =>
    rw [List.map_cons, List.nodup_cons] at hps
    simp only [eraseIn]
    by_cases hk : p.1 = k
    · rw [if_pos hk]
      by_cases hj : j = k
      · rw [if_pos hj]
        exact findIn_eq_none_iff.2 (hj ▸ hk ▸ hps.1)
      · have : ¬ p.1 = j := fun e => hj (e.symm.trans hk)
        simp [findIn, this, hj]
    · rw [if_neg hk]
      simp only [findIn]
      by_cases hj : p.1 = j
      · have : ¬ j = k := fun e => hk (hj.trans e)
        simp [hj, this]
      · simp only [if_neg hj]
        exact ih hps.2

end Table

end JobDispatch
