import JobDispatch.Proofs.Footprint
import JobDispatch.Proofs.Sharing

/-!
The ticks that a trail is made of. Each request of a trail is a request of one of its ticks, or one
besides that begins none; a tick begins by asking for the workers that are available to the project
of its entry, after a page was read that shows the entry (`Trail.Shared`). So the entries that a
trail ticks are read off the requests of whole ticks, in the order in which these begin (`Ticked`).
A page whose ticks share a pool is made of one tick for each of its entries, in their order, however
the ticks mix (`Ticked.page`).
-/

namespace JobDispatch

open Program

variable {untaggedOnly : Bool} {h : Trail} {w v : World} {e : QueueEntry}

def Request.isAside : Request → Bool
  | .scan .. | .available _ => false
  | _ => true

namespace Trail

def Reads (h : Trail) (e : QueueEntry) : Prop :=
  ∃ limit after v, (Request.scan limit after, v) ∈ h ∧
    ∃ page, (v.answer (.scan limit after)).1 = .ok page ∧ e ∈ page.entries

lemma Reads.append (hr : h.Reads e) (t : Trail) : Reads (h ++ t) e := by
  obtain ⟨limit, after, v, hmem, hpage⟩ := hr
  exact ⟨limit, after, v, List.mem_append_left t hmem, hpage⟩

/-- The trail consists of the requests of ticks, each with its entry, and of others besides. The
ticks stand in the order in which they begin. -/
inductive Shared : Trail → List (QueueEntry × Trail) → Prop
  | start : Shared [] []
  | besides {h : Trail} {ticks : List (QueueEntry × Trail)} {r : Request} {w : World}
    (hr : ∀ project, r ≠ .available project) (hs : Shared h ticks) : Shared (h ++ [(r, w)]) ticks
  | begin {h : Trail} {ticks : List (QueueEntry × Trail)} {e : QueueEntry} {w : World}
    (hread : h.Reads e) (hs : Shared h ticks) :
    Shared (h ++ [(.available e.project, w)]) (ticks ++ [(e, [(.available e.project, w)])])
  | goOn {h : Trail} {ticks : List (QueueEntry × Trail)} {i : Nat} {e : QueueEntry} {t : Trail}
    {r : Request} {w : World} (hi : ticks[i]? = some (e, t)) (hs : Shared h ticks) :
    Shared (h ++ [(r, w)]) (ticks.set i (e, t ++ [(r, w)]))

end Trail

/-- The entries that a trail ticks, each in a tick from its beginning to its end. -/
def Ticked (untaggedOnly : Bool) (h : Trail) (es : List QueueEntry) : Prop :=
  ∃ ticks, h.Shared ticks ∧
    (∀ tick ∈ ticks, ∃ outcome, (offerEntry untaggedOnly tick.1).Leads tick.2 outcome) ∧
    es = ticks.map Prod.fst

namespace Ticked

variable {es : List QueueEntry}

lemma start : Ticked untaggedOnly [] [] :=
  ⟨[], .start, fun _ htick => absurd htick List.not_mem_nil, rfl⟩

lemma besides {r : Request} (hr : ∀ project, r ≠ .available project)
    (ht : Ticked untaggedOnly h es) : Ticked untaggedOnly (h ++ [(r, w)]) es := by
  obtain ⟨ticks, hshared, hticks, hes⟩ := ht
  exact ⟨ticks, hshared.besides hr, hticks, hes⟩

lemma aside {r : Request} (hr : r.isAside = true) (ht : Ticked untaggedOnly h es) :
    Ticked untaggedOnly (h ++ [(r, w)]) es :=
  ht.besides (by rintro project rfl; cases hr)

end Ticked

/-! ### Ticks that share a pool -/

namespace Program

variable {α : Type} {p q : Program α} {t : Trail}

/-- After the trail, the second program is left of the first. -/
def Left (p : Program α) (t : Trail) (q : Program α) : Prop :=
  ∀ t' a, q.Leads t' a → p.Leads (t ++ t') a

lemma left_ask (r : Request) (next : r.Answer → Program α) (w : World) :
    (ask r next).Left [(r, w)] (next (w.answer r).1) := fun _ _ h => .ask h

lemma Left.goOn {r : Request} {next : r.Answer → Program α} (hp : p.Left t (ask r next))
    (w : World) : p.Left (t ++ [(r, w)]) (next (w.answer r).1) := by
  intro t' a h
  rw [List.append_assoc]
  exact hp _ a (.ask h)

lemma Left.leads {a : α} (hp : p.Left t (done a)) : p.Leads t a := by
  have h := hp [] a (.done a)
  rwa [List.append_nil] at h

end Program

/-- Some of the ticks of a trail are under way, each as far as its requests have led it, and all
others are at their ends. -/
structure Halfway (untaggedOnly : Bool) (h : Trail) (ticks : List (QueueEntry × Trail))
    (parts : List (Nat × Program (Except DispatchError TickOutcome))) : Prop where
  shared : h.Shared ticks
  distinct : (parts.map Prod.fst).Nodup
  left : ∀ part ∈ parts, ∃ e t, ticks[part.1]? = some (e, t) ∧
    (offerEntry untaggedOnly e).Left t part.2
  ended : ∀ i e t, ticks[i]? = some (e, t) → (∀ part ∈ parts, part.1 ≠ i) →
    ∃ outcome, (offerEntry untaggedOnly e).Leads t outcome

namespace Halfway

variable {ticks : List (QueueEntry × Trail)}
  {parts parts' : List (Nat × Program (Except DispatchError TickOutcome))}

lemma perm (hu : Halfway untaggedOnly h ticks parts) (hp : parts.Perm parts') :
    Halfway untaggedOnly h ticks parts' where
  shared := hu.shared
  distinct := (hp.map Prod.fst).nodup_iff.1 hu.distinct
  left part hpart := hu.left part (hp.mem_iff.2 hpart)
  ended i e t hi hnone := hu.ended i e t hi fun part hpart => hnone part (hp.mem_iff.1 hpart)

lemma collect {i : Nat} {outcome : Except DispatchError TickOutcome}
    (hu : Halfway untaggedOnly h ticks ((i, .done outcome) :: parts)) :
    Halfway untaggedOnly h ticks parts where
  shared := hu.shared
  distinct := (List.nodup_cons.1 hu.distinct).2
  left part hpart := hu.left part (List.mem_cons_of_mem _ hpart)
  ended k e t hk hnone := by
    by_cases hki : i = k
    · obtain ⟨e', t', hi, hleft⟩ := hu.left _ List.mem_cons_self
      subst hki
      rw [hk] at hi
      cases hi
      exact ⟨outcome, hleft.leads⟩
    · refine hu.ended k e t hk fun part hpart => ?_
      rcases List.mem_cons.1 hpart with rfl | hpart
      · exact hki
      · exact hnone part hpart

lemma goOn {i : Nat} {r : Request} {next : r.Answer → Program (Except DispatchError TickOutcome)}
    (hu : Halfway untaggedOnly h ticks ((i, .ask r next) :: parts)) (w : World) :
    ∃ ticks', ticks'.map Prod.fst = ticks.map Prod.fst ∧
      Halfway untaggedOnly (h ++ [(r, w)]) ticks' ((i, next (w.answer r).1) :: parts) := by
  obtain ⟨e, t, hi, hleft⟩ := hu.left _ List.mem_cons_self
  obtain ⟨hother, hdistinct⟩ := List.nodup_cons.1 hu.distinct
  have hlen : i < ticks.length := (List.getElem?_eq_some_iff.1 hi).1
  have hne {part : Nat × Program (Except DispatchError TickOutcome)} (hpart : part ∈ parts) :
      i ≠ part.1 := fun heq => hother (List.mem_map.2 ⟨part, hpart, heq.symm⟩)
  refine ⟨ticks.set i (e, t ++ [(r, w)]), ?_, hu.shared.goOn hi,
    List.nodup_cons.2 ⟨hother, hdistinct⟩, fun part hpart => ?_, fun k e' t' hk hnone => ?_⟩
  · refine List.ext_getElem? fun k => ?_
    rw [List.getElem?_map, List.getElem?_map]
    by_cases hik : i = k
    · rw [← hik, List.getElem?_set_self hlen, hi]
      rfl
    · rw [List.getElem?_set_ne hik]
  · rcases List.mem_cons.1 hpart with rfl | hpart
    · exact ⟨e, _, List.getElem?_set_self hlen, hleft.goOn w⟩
    · obtain ⟨e', t', hk, hleft'⟩ := hu.left part (List.mem_cons_of_mem _ hpart)
      exact ⟨e', t', by rw [List.getElem?_set_ne (hne hpart)]; exact hk, hleft'⟩
  · have hik : i ≠ k := hnone (i, _) List.mem_cons_self
    rw [List.getElem?_set_ne hik] at hk
    refine hu.ended k e' t' hk fun part hpart => ?_
    rcases List.mem_cons.1 hpart with rfl | hpart
    · exact hik
    · exact hnone part (List.mem_cons_of_mem _ hpart)

lemma begin (hu : Halfway untaggedOnly h ticks parts) (hread : h.Reads e)
    {next : List Worker → Program (Except DispatchError TickOutcome)}
    (hnext : offerEntry untaggedOnly e = .ask (.available e.project) next) (w : World) :
    Halfway untaggedOnly (h ++ [(.available e.project, w)])
      (ticks ++ [(e, [(.available e.project, w)])])
      ((ticks.length, next (w.answer (.available e.project)).1) :: parts) where
  shared := hu.shared.begin hread
  distinct := by
    refine List.nodup_cons.2 ⟨fun hmem => ?_, hu.distinct⟩
    obtain ⟨part, hpart, heq⟩ := List.mem_map.1 hmem
    obtain ⟨e', t, hi, -⟩ := hu.left part hpart
    have hlen := (List.getElem?_eq_some_iff.1 hi).1
    omega
  left part hpart := by
    rcases List.mem_cons.1 hpart with rfl | hpart
    · refine ⟨e, _, List.getElem?_concat_length, ?_⟩
      rw [hnext]
      exact left_ask (.available e.project) next w
    · obtain ⟨e', t, hi, hleft⟩ := hu.left part hpart
      refine ⟨e', t, ?_, hleft⟩
      rw [List.getElem?_append_left (List.getElem?_eq_some_iff.1 hi).1]
      exact hi
  ended k e' t' hk hnone := by
    have hne : ticks.length ≠ k := hnone _ List.mem_cons_self
    have hlen := (List.getElem?_eq_some_iff.1 hk).1
    rw [List.length_append, List.length_singleton] at hlen
    rw [List.getElem?_append_left (by omega)] at hk
    exact hu.ended k e' t' hk fun part hpart => hnone part (List.mem_cons_of_mem _ hpart)

end Halfway

/-- **What is left of a pool carries its ticks on to their ends**, and begins the others in the
order of their entries. -/
theorem Program.Pooled.ticked {active waiting : List (Program (Except DispatchError TickOutcome))}
    {results outcomes : List (Except DispatchError TickOutcome)}
    {p : Program (List (Except DispatchError TickOutcome))}
    (hp : Pooled active waiting results p) {t : Trail} (hleads : p.Leads t outcomes)
    {es : List QueueEntry} (hwaiting : waiting = es.map (offerEntry untaggedOnly))
    {ticks : List (QueueEntry × Trail)}
    {parts : List (Nat × Program (Except DispatchError TickOutcome))}
    (hread : ∀ e ∈ es, h.Reads e) (hu : Halfway untaggedOnly h ticks parts)
    (hparts : (parts.map Prod.snd).Perm active) :
    Ticked untaggedOnly (h ++ t) (ticks.map Prod.fst ++ es) := by
  induction hp generalizing t es ticks parts h with
  | finish results =>
    cases hleads
    cases List.map_eq_nil_iff.1 hwaiting.symm
    have hnone : parts = [] := List.map_eq_nil_iff.1 (List.Perm.eq_nil hparts)
    rw [List.append_nil, List.append_nil]
    refine ⟨ticks, hu.shared, fun tick htick => ?_, rfl⟩
    obtain ⟨i, hi⟩ := List.getElem?_of_mem htick
    refine hu.ended i tick.1 tick.2 hi fun part hpart => ?_
    rw [hnone] at hpart
    cases hpart
  | collect hi _ ih =>
    obtain ⟨k, parts', hfirst, hparts'⟩ :=
      exists_cons_of_perm (hparts.trans (perm_cons_eraseIdx hi))
    exact ih hleads hwaiting hread (hu.perm hfirst).collect hparts'
  | @goOn active waiting results i r next p hi _ ih =>
    obtain ⟨k, parts', hfirst, hparts'⟩ :=
      exists_cons_of_perm (hparts.trans (perm_cons_eraseIdx hi))
    cases hleads with
    | @ask _ _ w t _ hleads =>
      obtain ⟨ticks', hsame, hu'⟩ := (hu.perm hfirst).goOn w
      have hset := List.set_perm_cons_eraseIdx (List.getElem?_eq_some_iff.1 hi).1
        (next (w.answer r).1)
      have hticked := ih (w.answer r).1 hleads hwaiting (fun e he => (hread e he).append _) hu'
        ((hparts'.cons _).trans hset.symm)
      rw [hsame, List.append_assoc] at hticked
      exact hticked
  | @begin active waiting results r next p _ ih =>
    obtain ⟨e, es, rfl, hfirst, hrest⟩ := List.map_eq_cons_iff.1 hwaiting.symm
    cases hfirst
    cases hleads with
    | @ask _ _ w t _ hleads =>
      have hu' := hu.begin (hread e List.mem_cons_self) rfl w
      have hticked := ih (w.answer (.available e.project)).1 hleads hrest.symm
        (fun e' he' => (hread e' (List.mem_cons_of_mem _ he')).append _) hu'
        ((hparts.cons _).trans (List.perm_append_singleton _ _).symm)
      rw [List.map_append, List.append_assoc, List.append_assoc] at hticked
      exact hticked
  | @skip active waiting results a p _ ih =>
    obtain ⟨e, es, rfl, hfirst, -⟩ := List.map_eq_cons_iff.1 hwaiting.symm
    cases hfirst

/-- **A page is made of a tick for each of its entries**, in their order. -/
theorem Ticked.page {es : List QueueEntry} {limit : UInt64} {after : Option Cursor}
    {page : Page after} {plan : SweepPlan} {picks : List Nat} {t : Trail}
    {outcomes : List (Except DispatchError TickOutcome)}
    (hscan : (w.answer (.scan limit after)).1 = .ok page)
    (hleads : (offerPage plan untaggedOnly picks page.entries).Leads t outcomes)
    (ht : Ticked untaggedOnly h es) :
    Ticked untaggedOnly (h ++ (.scan limit after, w) :: t) (es ++ page.entries) := by
  have hread : ∀ e ∈ page.entries, Trail.Reads (h ++ [(.scan limit after, w)]) e := fun e he =>
    ⟨limit, after, w, List.mem_append_right h (List.mem_singleton_self _), page, hscan, he⟩
  obtain ⟨ticks, hshared, hticks, rfl⟩ := ht.besides (r := .scan limit after) (w := w) nofun
  have hu : Halfway untaggedOnly (h ++ [(.scan limit after, w)]) ticks [] :=
    ⟨hshared, .nil, fun _ hpart => absurd hpart List.not_mem_nil,
      fun i e t hi _ => hticks (e, t) (List.mem_of_getElem? hi)⟩
  have hticked := (pooled_offerPage plan untaggedOnly picks page.entries).ticked hleads rfl hread
    hu (List.Perm.refl [])
  rw [List.append_assoc, List.singleton_append] at hticked
  exact hticked

end JobDispatch
