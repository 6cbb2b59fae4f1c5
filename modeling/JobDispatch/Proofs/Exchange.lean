import JobDispatch.Config.Document
import JobDispatch.Config.Json
import JobDispatch.Proofs.Spelling
import JobDispatch.Proofs.Stores

/-!
Configurations that are written as JSON and read back. Each setting but the spans is read as it was
written (`Config.ofJson?_eq_rereading`), and a span is if it is whole
(`Config.rereading_eq_self_iff`). All spans that are read are whole, from documents and from JSON,
so that what was read once is read again as it was (`json_form_round_trips`). Objects may have their
members in any order and others among them; what is read depends on the members of the settings only
(`Json.member?_of_perm`).
-/

namespace JobDispatch

/-! ### Members of objects -/

namespace Json

variable {name : String} {v : Json} {members pairs others : List (String × Json)}

lemma isSome_member?_of_mem (h : (name, v) ∈ members) : (member? name members).isSome = true := by
  induction members with
  | nil => cases h
  | cons m members ih =>
    rw [member?]
    rcases List.mem_cons.1 h with rfl | hmem
    · split
      · rfl
      · rw [if_pos rfl]
        rfl
    · obtain ⟨w, hw⟩ := Option.isSome_iff_exists.1 (ih hmem)
      rw [hw]
      rfl

lemma mem_of_member? (h : member? name members = some v) : (name, v) ∈ members := by
  induction members with
  | nil => cases h
  | cons m members ih =>
    obtain ⟨k, w⟩ := m
    rw [member?] at h
    split at h
    · rename_i u hu
      cases h
      exact List.mem_cons_of_mem _ (ih hu)
    · split at h
      · rename_i hk
        cases h
        exact hk ▸ List.mem_cons_self
      · cases h

/-- **The member of a name does not depend on the order of the members**, nor on those of other
names. -/
theorem member?_of_perm (hpairs : (pairs.map Prod.fst).Nodup)
    (hperm : members.Perm (pairs ++ others)) (hothers : ∀ m ∈ others, m.1 ≠ name) :
    member? name members = Table.findIn name pairs := by
  have hmem (v : Json) : (name, v) ∈ members ↔ Table.findIn name pairs = some v := by
    rw [hperm.mem_iff, List.mem_append, Table.mem_pairs hpairs]
    exact or_iff_left fun hother => hothers _ hother rfl
  cases h : member? name members with
  | some v => exact ((hmem v).1 (mem_of_member? h)).symm
  | none =>
    cases hfind : Table.findIn name pairs with
    | none => rfl
    | some v =>
      have hsome := isSome_member?_of_mem ((hmem v).2 hfind)
      rw [h] at hsome
      cases hsome

end Json

/-! ### Results -/

section

variable {ε α β : Type} {x : Except ε α} {b : β}

lemma ok_of_map {f : α → β} (h : x.map f = .ok b) : ∃ a, x = .ok a ∧ f a = b := by
  cases x with
  | error e => cases h
  | ok a =>
    cases h
    exact ⟨a, rfl, rfl⟩

lemma ok_of_bind {f : α → Except ε β} (h : x.bind f = .ok b) : ∃ a, x = .ok a ∧ f a = .ok b := by
  cases x with
  | error e => cases h
  | ok a => exact ⟨a, rfl, h⟩

end

/-! ### Settings -/

lemma Trigger.ofJson?_text (mode : Trigger) : Trigger.ofJson? (.str mode.text) = some mode := by
  cases mode <;> decide

lemma Json.count64?_nat (n : UInt64) : (Json.nat n.toNat).count64? = some n := by
  have hbound : 0 ≤ (n.toNat : Int) ∧ (n.toNat : Int).toNat < UInt64.size :=
    ⟨Int.natCast_nonneg _, n.toNat_lt⟩
  rw [Json.nat, Json.count64?, if_pos hbound, Int.toNat_natCast, UInt64.ofNat_toNat]

namespace Config

variable {c c' : Config} {j : Json}

def cap (c : Config) : Json := Json.ofOption (fun n => .nat n.toNat) c.maxBatches?

lemma capOfJson?_cap (c : Config) : capOfJson? (some c.cap) = some c.maxBatches? := by
  unfold cap
  cases c.maxBatches? with
  | none => rfl
  | some n =>
    show (Json.nat n.toNat).count64?.map some = some (some n)
    rw [Json.count64?_nat]
    rfl

def values (c : Config) : List Json :=
  [.str c.mode.text, .str c.staleThreshold.text, .bool c.untaggedOnly, .str c.interval.text,
    .nat c.batchSize.toNat, .nat c.concurrency.toNat, c.cap, .str c.leaseTimeout.text]

def pairs (c : Config) : List (String × Json) := memberNames.zip c.values

/-- The values that are found for the settings, with the one for the cap given. -/
def found (c : Config) (cap? : Option Json) : List (Option Json) :=
  [some (.str c.mode.text), some (.str c.staleThreshold.text), some (.bool c.untaggedOnly),
    some (.str c.interval.text), some (.nat c.batchSize.toNat), some (.nat c.concurrency.toNat),
    cap?, some (.str c.leaseTimeout.text)]

/-- The configuration with its spans as they are read from what is written of them. -/
def rereading (c : Config) : Option Config := do
  let staleThreshold ← Span.parse? c.staleThreshold.text
  let interval ← Span.parse? c.interval.text
  let leaseTimeout ← Span.parse? c.leaseTimeout.text
  return { c with staleThreshold, interval, leaseTimeout }

/-- **All settings but the spans are read as they were written**, wherever they are found. -/
theorem ofJson?_eq_rereading (cap? : Option Json)
    (hfound : j.fields? memberNames = some (c.found cap?))
    (hcap : capOfJson? cap? = some c.maxBatches?) : ofJson? j = c.rereading := by
  unfold ofJson? rereading
  rw [hfound]
  simp only [found, Trigger.ofJson?_text, Json.count64?_nat, hcap, Json.bool?, Span.ofJson?,
    Json.str?, Option.bind_some, bind, pure]

/-! ### Whole spans -/

/-- All spans of the configuration are whole. -/
structure Whole (c : Config) : Prop where
  staleThreshold : c.staleThreshold.Whole
  interval : c.interval.Whole
  leaseTimeout : c.leaseTimeout.Whole

theorem rereading_eq_self_iff : c.rereading = some c ↔ c.Whole := by
  unfold rereading
  simp only [Option.bind_eq_bind, Option.bind_eq_some_iff, Option.pure_def, Option.some.injEq]
  constructor
  · rintro ⟨stale, hstale, interval, hinterval, lease, hlease, hsame⟩
    have hstale' : stale = c.staleThreshold := congrArg Config.staleThreshold hsame
    have hinterval' : interval = c.interval := congrArg Config.interval hsame
    have hlease' : lease = c.leaseTimeout := congrArg Config.leaseTimeout hsame
    rw [hstale'] at hstale
    rw [hinterval'] at hinterval
    rw [hlease'] at hlease
    exact ⟨Span.parse?_text_eq_self_iff.1 hstale, Span.parse?_text_eq_self_iff.1 hinterval,
      Span.parse?_text_eq_self_iff.1 hlease⟩
  · intro h
    exact ⟨_, Span.parse?_text_eq_self_iff.2 h.staleThreshold, _,
      Span.parse?_text_eq_self_iff.2 h.interval, _,
      Span.parse?_text_eq_self_iff.2 h.leaseTimeout, rfl⟩

lemma whole_of_ofJson? (h : ofJson? j = some c) : c.Whole := by
  unfold ofJson? at h
  split at h
  · simp only [Option.bind_eq_bind, Option.bind_eq_some_iff, Option.pure_def,
      Option.some.injEq] at h
    obtain ⟨mode, -, stale, hstale, untagged, -, interval, hinterval, batch, -, concurrency, -, cap,
      -, lease, hlease, rfl⟩ := h
    have hwhole {value : Json} {s : Span} (h : Span.ofJson? value = some s) : s.Whole := by
      obtain ⟨text, -, htext⟩ := Option.bind_eq_some_iff.1 h
      exact Span.whole_of_parse? htext
    exact ⟨hwhole hstale, hwhole hinterval, hwhole hlease⟩
  · cases h

lemma whole_standard : standard.Whole where
  staleThreshold := ⟨by decide, by decide⟩
  interval := ⟨by decide, by decide⟩
  leaseTimeout := ⟨by decide, by decide⟩

lemma whole_of_spanOf {field : ConfigField} {node : Kdl.Node} {s : Span}
    (h : spanOf field node = .ok s) : s.Whole := by
  obtain ⟨text, -, htext⟩ := ok_of_bind h
  exact Span.whole_of_parse? (Span.parse_eq_ok_iff.1 htext)

lemma Whole.set (hc : c.Whole) {field : ConfigField} {node : Kdl.Node}
    (h : c.set field node = .ok c') : c'.Whole := by
  cases field with
  | staleThreshold =>
    obtain ⟨s, hs, rfl⟩ := ok_of_map h
    exact ⟨whole_of_spanOf hs, hc.interval, hc.leaseTimeout⟩
  | interval =>
    obtain ⟨s, hs, rfl⟩ := ok_of_map h
    exact ⟨hc.staleThreshold, whole_of_spanOf hs, hc.leaseTimeout⟩
  | leaseTimeout =>
    obtain ⟨s, hs, rfl⟩ := ok_of_map h
    exact ⟨hc.staleThreshold, hc.interval, whole_of_spanOf hs⟩
  | mode | untaggedOnly | batchSize | concurrency | maxBatches =>
    obtain ⟨v, -, rfl⟩ := ok_of_map h
    exact ⟨hc.staleThreshold, hc.interval, hc.leaseTimeout⟩

lemma Whole.readSection {parent : String} {nodes : List Kdl.Node} (hc : c.Whole)
    (h : readSection parent nodes c = .ok c') : c'.Whole := by
  induction nodes generalizing c with
  | nil =>
    cases h
    exact hc
  | cons node nodes ih =>
    unfold Config.readSection at h
    split at h
    · exact ih hc h
    · obtain ⟨next, hset, hrest⟩ := ok_of_bind h
      exact ih (hc.set hset) hrest

lemma Whole.readDocument {document : Kdl.Document} (hc : c.Whole)
    (h : readDocument document c = .ok c') : c'.Whole := by
  induction document generalizing c with
  | nil =>
    cases h
    exact hc
  | cons node nodes ih =>
    unfold Config.readDocument at h
    obtain ⟨next, hsection, hrest⟩ := ok_of_bind h
    exact ih (hc.readSection hsection) hrest

lemma whole_of_parse {text : String} (h : parse text = .ok c) : c.Whole := by
  unfold parse at h
  split at h
  · cases h
  · obtain ⟨read, hread, hvalid⟩ := ok_of_bind h
    obtain ⟨-, -, rfl⟩ := ok_of_map hvalid
    exact whole_standard.readDocument hread

/-! ### Forms of one configuration -/

def pairsWithoutCap (c : Config) : List (String × Json) :=
  c.pairs.filter fun m => m.1 != "sweep_max_batches"

lemma nodup_pairs (c : Config) : (c.pairs.map Prod.fst).Nodup := by
  have hnames : c.pairs.map Prod.fst = memberNames := rfl
  rw [hnames]
  decide

section

variable {pairs others members : List (String × Json)}

lemma fields?_of_perm (hpairs : (pairs.map Prod.fst).Nodup)
    (hothers : ∀ m ∈ others, m.1 ∉ memberNames) (hperm : members.Perm (pairs ++ others)) :
    (Json.obj members).fields? memberNames =
      some (memberNames.map fun name => Table.findIn name pairs) := by
  refine congrArg some (List.map_congr_left fun name hname => ?_)
  exact Json.member?_of_perm hpairs hperm fun m hm heq => hothers m hm (heq ▸ hname)

/-- An object with all settings is read in the same way as what is written. -/
lemma ofJson?_of_pairs (hothers : ∀ m ∈ others, m.1 ∉ memberNames)
    (hperm : members.Perm (c.pairs ++ others)) : ofJson? (.obj members) = c.rereading := by
  have hfound := fields?_of_perm c.nodup_pairs hothers hperm
  exact ofJson?_eq_rereading (some c.cap) hfound c.capOfJson?_cap

/-- So is an object without the cap, if there is none. -/
lemma ofJson?_of_pairsWithoutCap (hcap : c.maxBatches? = none)
    (hothers : ∀ m ∈ others, m.1 ∉ memberNames)
    (hperm : members.Perm (c.pairsWithoutCap ++ others)) :
    ofJson? (.obj members) = c.rereading := by
  have hnodup : (c.pairsWithoutCap.map Prod.fst).Nodup :=
    c.nodup_pairs.sublist (List.filter_sublist.map Prod.fst)
  have hfound := fields?_of_perm hnodup hothers hperm
  exact ofJson?_eq_rereading none hfound (congrArg some hcap.symm)

end

lemma ofJson?_toJson (c : Config) : ofJson? c.toJson = c.rereading := by
  have hperm : c.pairs.Perm (c.pairs ++ []) := by rw [List.append_nil]
  exact ofJson?_of_pairs (fun m hm => absurd hm List.not_mem_nil) hperm

lemma ofJson?_values (c : Config) : ofJson? (.arr c.values) = c.rereading :=
  ofJson?_eq_rereading (some c.cap) rfl c.capOfJson?_cap

end Config

def Json.rewritten (j : Json) : Option Json := (Config.ofJson? j).map Config.toJson

/-- **Configurations go through JSON unharmed** if and only if their spans are whole; those that
were read from documents or from JSON are among them. So to read and write JSON twice is the same as
to do it once. What is read of a configuration is the same from the list of its settings, and from
an object that has them in any order, among members of other names, and without the cap if there is
none. -/
theorem json_form_round_trips :
    (∀ c : Config, Config.ofJson? c.toJson = some c ↔ c.Whole) ∧
    (∀ text c, Config.parse text = .ok c → Config.ofJson? c.toJson = some c) ∧
    (∀ j c, Config.ofJson? j = some c → Config.ofJson? c.toJson = some c) ∧
    (∀ j : Json, j.rewritten.bind Json.rewritten = j.rewritten) ∧
    ∀ c : Config, c.Whole → Config.ofJson? (.arr c.values) = some c ∧
      ∀ others members, (∀ m ∈ others, m.1 ∉ Config.memberNames) →
        (members.Perm (c.pairs ++ others) → Config.ofJson? (.obj members) = some c) ∧
        (c.maxBatches? = none → members.Perm (c.pairsWithoutCap ++ others) →
          Config.ofJson? (.obj members) = some c) := by
  have hwhole (c : Config) : Config.ofJson? c.toJson = some c ↔ c.Whole := by
    rw [Config.ofJson?_toJson, Config.rereading_eq_self_iff]
  refine ⟨hwhole, fun text c h => (hwhole c).2 (Config.whole_of_parse h),
    fun j c h => (hwhole c).2 (Config.whole_of_ofJson? h), fun j => ?_, fun c hc => ?_⟩
  · unfold Json.rewritten
    cases h : Config.ofJson? j with
    | none => rfl
    | some c =>
      rw [Option.map_some, Option.bind_some, (hwhole c).2 (Config.whole_of_ofJson? h),
        Option.map_some]
  · have hself := Config.rereading_eq_self_iff.2 hc
    refine ⟨(Config.ofJson?_values c).trans hself, fun others members hothers => ⟨fun hperm => ?_,
      fun hcap hperm => ?_⟩⟩
    · exact (Config.ofJson?_of_pairs hothers hperm).trans hself
    · exact (Config.ofJson?_of_pairsWithoutCap hcap hothers hperm).trans hself

/-- A document, an object without the cap in which the members come in the opposite order after one
without a meaning, and a span that is not whole. -/
theorem json_form_round_trips_shuffled :
    let c : Config := { Config.standard with interval := .ofMillis 1500 }
    let members : List (String × Json) := ("note", .null) :: c.pairsWithoutCap.reverse
    Config.parse "sweep \x7b interval \"1500ms\" \x7d" = .ok c ∧
      Config.ofJson? c.toJson = some c ∧ Config.ofJson? (.obj members) = some c ∧
      Config.ofJson? { c with interval := ⟨1500⟩ }.toJson ≠ some { c with interval := ⟨1500⟩ } := by
  intro c members
  obtain ⟨hwhole, hdocuments, -, -, hforms⟩ := json_form_round_trips
  have hparse : Config.parse "sweep \x7b interval \"1500ms\" \x7d" = .ok c := by decide +kernel
  have hc : Config.ofJson? c.toJson = some c := hdocuments _ c hparse
  obtain ⟨-, hobjects⟩ := hforms c ((hwhole c).1 hc)
  have hothers : ∀ m ∈ [("note", Json.null)], m.1 ∉ Config.memberNames := by
    intro m hm
    rw [List.mem_singleton.1 hm]
    decide
  have hperm : members.Perm (c.pairsWithoutCap ++ [("note", Json.null)]) :=
    ((List.reverse_perm c.pairsWithoutCap).cons _).trans (List.perm_append_singleton _ _).symm
  refine ⟨hparse, hc, (hobjects _ members hothers).2 rfl hperm, fun h => ?_⟩
  have hdvd := ((hwhole _).1 h).interval.dvd
  exact absurd hdvd (by decide)

end JobDispatch
