import JobDispatch.Proofs.Pools
import JobDispatch.Proofs.Trails

/-!
What programs come to that share a pool. Each of them has a key, which tells what it relies on the
others to leave alone. If the requests of each keep to what the others rely on, then they all come
to what each of them would come to among others (`Pooled.along`).
-/

namespace JobDispatch

namespace Program

variable {α : Type} {P : Trail → Request → World → Prop} {Q : Trail → α → World → Prop}
  {R : Rely} {p : Program α} {h : Trail} {w : World}

lemma Along.run {I : World → Prop} (hp : p.Along R P Q h w)
    (step : ∀ h r v, P h r v → I v → I (v.answer r).2) (hw : I w) :
    I (p.run w).2 ∧ ∃ h', Q h' (p.run w).1 (p.run w).2 := by
  induction p generalizing h w with
  | done a => exact ⟨hw, h, hp w (R.refl w)⟩
  | ask r next ih =>
    obtain ⟨hr, hnext⟩ := hp w (R.refl w)
    exact ih _ hnext (step h r w hr hw)

lemma perm_cons_eraseIdx {ps : List (Program α)} {i : Nat} (hi : ps[i]? = some p) :
    ps.Perm (p :: ps.eraseIdx i) := by
  obtain ⟨hlen, rfl⟩ := List.getElem?_eq_some_iff.1 hi
  exact (List.getElem_cons_eraseIdx_perm hlen).symm

/-- Any of the programs of a list with keys may be taken for the first. -/
lemma exists_cons_of_perm {κ : Type} {parts : List (κ × Program α)} {ps : List (Program α)}
    (hparts : (parts.map Prod.snd).Perm (p :: ps)) :
    ∃ k parts', parts.Perm ((k, p) :: parts') ∧ (parts'.map Prod.snd).Perm ps := by
  obtain ⟨⟨k, _⟩, hmem, rfl⟩ := List.mem_map.1 (hparts.mem_iff.2 List.mem_cons_self)
  obtain ⟨front, back, rfl⟩ := List.append_of_mem hmem
  refine ⟨k, front ++ back, List.perm_middle, ?_⟩
  exact ((List.perm_middle.map Prod.snd).symm.trans hparts).cons_inv

namespace Pooled

variable {κ : Type} {R : κ → Rely} {P : κ → Request → World → Prop} {Q : κ → α → World → Prop}
  {S : Rely} {active waiting : List (Program α)} {results : List α} {p : Program (List α)}

/-- The programs of a pool that are not at their ends, each with its key, and the results of the
others. -/
structure Keyed (R : κ → Rely) (P : κ → Request → World → Prop) (Q : κ → α → World → Prop)
    (parts : List (κ × Program α)) (results : List α) (w : World) : Prop where
  distinct : (parts.map Prod.fst).Nodup
  along : ∀ part ∈ parts, ∃ h, part.2.Along (R part.1) (fun _ => P part.1) (fun _ => Q part.1) h w
  results : ∀ a ∈ results, ∃ k, (∀ part ∈ parts, part.1 ≠ k) ∧ ∀ v, (R k).may w v → Q k a v

namespace Keyed

variable {parts parts' : List (κ × Program α)}

lemma perm (h : Keyed R P Q parts results w) (hp : parts.Perm parts') :
    Keyed R P Q parts' results w where
  distinct := (hp.map Prod.fst).nodup_iff.1 h.distinct
  along part hpart := h.along part (hp.mem_iff.2 hpart)
  results a ha := by
    obtain ⟨k, hk, hQ⟩ := h.results a ha
    exact ⟨k, fun part hpart => hk part (hp.mem_iff.2 hpart), hQ⟩

lemma of_may {v : World} (h : Keyed R P Q parts results w) (hv : ∀ k, (R k).may w v) :
    Keyed R P Q parts results v where
  distinct := h.distinct
  along part hpart := by
    obtain ⟨t, ht⟩ := h.along part hpart
    exact ⟨t, ht.of_may (hv part.1)⟩
  results a ha := by
    obtain ⟨k, hk, hQ⟩ := h.results a ha
    exact ⟨k, hk, fun u hu => hQ u ((R k).trans (hv k) hu)⟩

lemma collect {k : κ} {a : α} (h : Keyed R P Q ((k, .done a) :: parts) results w) :
    Keyed R P Q parts (results ++ [a]) w where
  distinct := (List.nodup_cons.1 h.distinct).2
  along part hpart := h.along part (List.mem_cons_of_mem _ hpart)
  results b hb := by
    rcases List.mem_append.1 hb with hb | hb
    · obtain ⟨l, hl, hQ⟩ := h.results b hb
      exact ⟨l, fun part hpart => hl part (List.mem_cons_of_mem _ hpart), hQ⟩
    · obtain rfl := List.mem_singleton.1 hb
      obtain ⟨t, ht⟩ := h.along _ List.mem_cons_self
      refine ⟨k, fun part hpart hk => ?_, ht⟩
      exact (List.nodup_cons.1 h.distinct).1 (List.mem_map.2 ⟨part, hpart, hk⟩)

/-- One of the programs goes on, as the others rely on it to. -/
lemma goOn {k : κ} {r : Request} {next : r.Answer → Program α}
    (hkeep : ∀ l, l ≠ k → ∀ r v, P k r v → (R l).may v (v.answer r).2)
    (h : Keyed R P Q ((k, .ask r next) :: parts) results w) :
    P k r w ∧ Keyed R P Q ((k, next (w.answer r).1) :: parts) results (w.answer r).2 := by
  obtain ⟨hk, hdistinct⟩ := List.nodup_cons.1 h.distinct
  obtain ⟨t, ht⟩ := h.along _ List.mem_cons_self
  obtain ⟨hr, hnext⟩ := ht w ((R k).refl w)
  refine ⟨hr, List.nodup_cons.2 ⟨hk, hdistinct⟩, fun part hpart => ?_, fun a ha => ?_⟩
  · rcases List.mem_cons.1 hpart with rfl | hpart
    · exact ⟨_, hnext⟩
    · obtain ⟨u, hu⟩ := h.along part (List.mem_cons_of_mem _ hpart)
      refine ⟨u, hu.of_may (hkeep _ (fun hl => hk ?_) r w hr)⟩
      exact List.mem_map.2 ⟨part, hpart, hl⟩
  · obtain ⟨l, hl, hQ⟩ := h.results a ha
    refine ⟨l, fun part hpart => ?_, fun u hu => hQ u ((R l).trans ?_ hu)⟩
    · rcases List.mem_cons.1 hpart with rfl | hpart
      · exact hl (k, .ask r next) List.mem_cons_self
      · exact hl part (List.mem_cons_of_mem _ hpart)
    · exact hkeep l (Ne.symm (hl (k, .ask r next) List.mem_cons_self)) r w hr

end Keyed

/-- **In a pool programs come to what each comes to among others**, if they keep to what the others
rely on. -/
theorem along (hkeep : ∀ k l, l ≠ k → ∀ r v, P k r v → (R l).may v (v.answer r).2)
    (hS : ∀ k u v, S.may u v → (R k).may u v) (hp : Pooled active waiting results p)
    {parts : List (κ × Program α)} (hparts : (parts.map Prod.snd).Perm (active ++ waiting))
    (hkeyed : Keyed R P Q parts results w) :
    p.Along S (fun _ r v => ∃ k, P k r v) (fun _ results v => ∀ a ∈ results, ∃ k, Q k a v) h w := by
  induction hp generalizing parts h w with
  | finish results =>
    intro v hv a ha
    obtain ⟨k, -, hQ⟩ := hkeyed.results a ha
    exact ⟨k, hQ v (hS k w v hv)⟩
  | @collect active waiting results i a p hi hp ih =>
    obtain ⟨k, parts', hfirst, hparts'⟩ :=
      exists_cons_of_perm (hparts.trans ((perm_cons_eraseIdx hi).append_right waiting))
    exact ih hparts' (hkeyed.perm hfirst).collect
  | @goOn active waiting results i r next p hi hp ih =>
    intro v hv
    obtain ⟨k, parts', hfirst, hparts'⟩ :=
      exists_cons_of_perm (hparts.trans ((perm_cons_eraseIdx hi).append_right waiting))
    obtain ⟨hr, hnext⟩ := ((hkeyed.of_may fun k => hS k w v hv).perm hfirst).goOn (hkeep k)
    refine ⟨⟨k, hr⟩, ih _ ?_ hnext⟩
    have hset := List.set_perm_cons_eraseIdx (List.getElem?_eq_some_iff.1 hi).1
      (next (v.answer r).1)
    exact (hparts'.cons _).trans (hset.append_right waiting).symm
  | @begin active waiting results r next p hp ih =>
    intro v hv
    obtain ⟨k, parts', hfirst, hparts'⟩ := exists_cons_of_perm (hparts.trans List.perm_middle)
    obtain ⟨hr, hnext⟩ := ((hkeyed.of_may fun k => hS k w v hv).perm hfirst).goOn (hkeep k)
    refine ⟨⟨k, hr⟩, ih _ ?_ hnext⟩
    rw [List.append_assoc]
    exact (hparts'.cons _).trans List.perm_middle.symm
  | @skip active waiting results a p hp ih =>
    exact ih (by rw [List.append_assoc]; exact hparts) hkeyed

end Pooled

end Program

end JobDispatch
