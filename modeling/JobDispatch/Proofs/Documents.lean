import JobDispatch.Proofs.Settings
import Mathlib.Data.List.Forall2
import Mathlib.Logic.Relation

/-!
What a document says. Its settings are the children of its sections that go by the name of one
(`Config.settings`), and all that counts of them is the setting and the first argument. If one of
them is refused, the first such one decides the error; else the configuration is the standard one
with the last value for each setting (`Config.Overrides`), and it is accepted if it keeps all
bounds, and refused for the first that it violates otherwise (`document_meaning`).

So a document may be changed in all other respects (`Config.Immaterial`) without a change of what it
says.
-/

namespace JobDispatch

structure Setting where
  field : ConfigField
  argument? : Option Kdl.Value

namespace Setting

def Reads (s : Setting) (r : ConfigField × SettingValue) : Prop :=
  r.1 = s.field ∧ s.field.Reads s.argument? r.2

def Refuses (s : Setting) (e : ConfigError) : Prop := s.field.Refuses s.argument? e

def AllRead : List Setting → List (ConfigField × SettingValue) → Prop := List.Forall₂ Reads

/-- The error is that of the first setting that has no value. -/
inductive FirstRefused (e : ConfigError) : List Setting → Prop
  | here {s : Setting} {settings : List Setting} (h : s.Refuses e) : FirstRefused e (s :: settings)
  | later {s : Setting} {settings : List Setting} {r : ConfigField × SettingValue}
    (hread : s.Reads r) (h : FirstRefused e settings) : FirstRefused e (s :: settings)

variable {settings settings' : List Setting} {rs rs' : List (ConfigField × SettingValue)}
  {e e' : ConfigError}

lemma AllRead.unique (h : AllRead settings rs) (h' : AllRead settings rs') : rs = rs' := by
  induction h generalizing rs' with
  | nil =>
    cases h'
    rfl
  | cons hr _ ih =>
    cases h' with
    | cons hr' hrest' =>
      rw [ih hrest', Prod.ext (hr.1.trans hr'.1.symm) (hr.2.unique hr'.2)]

lemma AllRead.not_firstRefused (h : AllRead settings rs) : ¬FirstRefused e settings := by
  induction h with
  | nil => nofun
  | cons hr _ ih =>
    intro hfirst
    cases hfirst with
    | here hrefuses => exact hr.2.not_refuses hrefuses
    | later _ hrest => exact ih hrest

lemma FirstRefused.unique (h : FirstRefused e settings) (h' : FirstRefused e' settings) :
    e = e' := by
  induction h with
  | here hrefuses =>
    cases h' with
    | here hrefuses' => exact hrefuses.unique hrefuses'
    | later hr => exact absurd hrefuses hr.2.not_refuses
  | later hr _ ih =>
    cases h' with
    | here hrefuses' => exact absurd hrefuses' hr.2.not_refuses
    | later _ hrest' => exact ih hrest'

lemma FirstRefused.append_right (h : FirstRefused e settings) :
    FirstRefused e (settings ++ settings') := by
  induction h with
  | here hrefuses => exact .here hrefuses
  | later hr _ ih => exact .later hr ih

lemma FirstRefused.append_left (h : FirstRefused e settings') (hread : AllRead settings rs) :
    FirstRefused e (settings ++ settings') := by
  induction hread with
  | nil => exact h
  | cons hr _ ih => exact .later hr ih

end Setting

namespace Config

open Setting

def settingsIn (parent : String) (children : List Kdl.Node) : List Setting :=
  children.filterMap fun child =>
    (ConfigField.named? parent child.name).map fun field => ⟨field, child.firstArgument?⟩

def settings (document : Kdl.Document) : List Setting :=
  document.flatMap fun node => settingsIn node.name node.children

/-- The last value for a setting. -/
def last? (rs : List (ConfigField × SettingValue)) (field : ConfigField) : Option SettingValue :=
  (rs.reverse.find? fun r => r.1 == field).map Prod.snd

/-- The configuration is another one with the last value for each setting that has one. -/
def Overrides (c : Config) (rs : List (ConfigField × SettingValue)) (base : Config) : Prop :=
  ∀ field, c.value? field = (last? rs field).or (base.value? field)

variable {c c' c'' : Config} {rs rs' : List (ConfigField × SettingValue)}

lemma last?_append (rs rs' : List (ConfigField × SettingValue)) (field : ConfigField) :
    last? (rs ++ rs') field = (last? rs' field).or (last? rs field) := by
  unfold last?
  rw [List.reverse_append, List.find?_append, Option.map_or]

lemma Overrides.unique (h : c.Overrides rs c'') (h' : c'.Overrides rs c'') : c = c' :=
  eq_of_value? (funext fun field => (h field).trans (h' field).symm)

lemma Overrides.trans (h : c'.Overrides rs c) (h' : c''.Overrides rs' c') :
    c''.Overrides (rs ++ rs') c := fun field => by
  rw [h' field, h field, last?_append, Option.or_assoc]

lemma overrides_nil : c.Overrides [] c := fun _ => rfl

lemma overrides_single {field : ConfigField} {r : SettingValue}
    (h : c'.value? = Function.update c.value? field (some r)) : c'.Overrides [(field, r)] c := by
  intro other
  rw [h]
  by_cases hother : field = other
  · subst hother
    rw [Function.update_self]
    simp [last?]
  · rw [Function.update_of_ne (Ne.symm hother)]
    simp [last?, hother]

/-! ### Reading documents -/

/-- What comes of taking over settings one after the other. -/
def Takes (c : Config) (settings : List Setting) (x : Except ConfigError Config) : Prop :=
  (∃ e, x = .error e ∧ FirstRefused e settings) ∨
    ∃ rs c', x = .ok c' ∧ AllRead settings rs ∧ c'.Overrides rs c

lemma takes_nil (c : Config) : c.Takes [] (.ok c) := .inr ⟨[], c, rfl, .nil, overrides_nil⟩

/-- To take over more settings is to go on from what the first ones have come to. -/
lemma Takes.bind {settings settings' : List Setting} {x : Except ConfigError Config}
    {f : Config → Except ConfigError Config} (h : c.Takes settings x)
    (hf : ∀ c' : Config, c'.Takes settings' (f c')) :
    c.Takes (settings ++ settings') (x.bind f) := by
  rcases h with ⟨e, rfl, hfirst⟩ | ⟨rs, c', rfl, hread, hover⟩
  · exact .inl ⟨e, rfl, hfirst.append_right⟩
  · rcases hf c' with ⟨e, herr, hfirst⟩ | ⟨rs', c'', hok, hread', hover'⟩
    · exact .inl ⟨e, herr, hfirst.append_left hread⟩
    · exact .inr ⟨rs ++ rs', c'', hok, List.rel_append hread hread', hover.trans hover'⟩

lemma set_takes (c : Config) (field : ConfigField) (node : Kdl.Node) :
    c.Takes [⟨field, node.firstArgument?⟩] (c.set field node) := by
  rcases c.set_cases field node with ⟨e, herr, hrefuses⟩ | ⟨r, c', hok, hreads, hvalue⟩
  · exact .inl ⟨e, herr, .here hrefuses⟩
  · exact .inr ⟨[(field, r)], c', hok, .cons ⟨rfl, hreads⟩ .nil, overrides_single hvalue⟩

lemma readSection_takes (parent : String) (children : List Kdl.Node) (c : Config) :
    c.Takes (settingsIn parent children) (readSection parent children c) := by
  induction children generalizing c with
  | nil => exact takes_nil c
  | cons child children ih =>
    unfold readSection settingsIn
    rw [ConfigField.fieldOf?_eq_named?, List.filterMap_cons]
    cases ConfigField.named? parent child.name with
    | none => exact ih c
    | some field => exact (c.set_takes field child).bind ih

/-- **A document is its settings**, one after the other. -/
theorem readDocument_takes (document : Kdl.Document) (c : Config) :
    c.Takes (settings document) (readDocument document c) := by
  induction document generalizing c with
  | nil => exact takes_nil c
  | cons node nodes ih =>
    unfold readDocument settings
    rw [List.flatMap_cons]
    exact (readSection_takes node.name node.children c).bind ih

/-! ### What has no bearing on a document -/

/-- One more thing among the children of a section that no setting depends on, or another block of
a child. -/
inductive ImmaterialIn (parent : String) : List Kdl.Node → List Kdl.Node → Prop
  | child {before after : List Kdl.Node} {child : Kdl.Node}
    (h : ∀ field : ConfigField, field.parent = parent → child.name ∉ field.spellings) :
    ImmaterialIn parent (before ++ after) (before ++ child :: after)
  | entry {before after : List Kdl.Node} {name : String} {entries entries' : List Kdl.Entry}
    {entry : Kdl.Entry} {block? : Option (List Kdl.Node)}
    (h : entry.name?.isSome = true ∨ ∃ a ∈ entries, a.name? = none) :
    ImmaterialIn parent (before ++ ⟨name, entries ++ entries', block?⟩ :: after)
      (before ++ ⟨name, entries ++ entry :: entries', block?⟩ :: after)
  | block {before after : List Kdl.Node} {name : String} {entries : List Kdl.Entry}
    {block? block'? : Option (List Kdl.Node)} :
    ImmaterialIn parent (before ++ ⟨name, entries, block?⟩ :: after)
      (before ++ ⟨name, entries, block'?⟩ :: after)

/-- One more thing in a document that no setting depends on, or other entries of a section. -/
inductive Immaterial : Kdl.Document → Kdl.Document → Prop
  | node {before after : List Kdl.Node} {node : Kdl.Node}
    (h : ∀ field : ConfigField, field.parent ≠ node.name) :
    Immaterial (before ++ after) (before ++ node :: after)
  | section {before after : List Kdl.Node} {node node' : Kdl.Node} (hname : node'.name = node.name)
    (h : node'.children = node.children ∨ ImmaterialIn node.name node.children node'.children) :
    Immaterial (before ++ node :: after) (before ++ node' :: after)

lemma firstArgument?_insert {name : String} {entries entries' : List Kdl.Entry} {entry : Kdl.Entry}
    {block? : Option (List Kdl.Node)}
    (h : entry.name?.isSome = true ∨ ∃ a ∈ entries, a.name? = none) :
    Kdl.Node.firstArgument? ⟨name, entries ++ entry :: entries', block?⟩ =
      Kdl.Node.firstArgument? ⟨name, entries ++ entries', block?⟩ := by
  unfold Kdl.Node.firstArgument?
  dsimp only
  rw [List.find?_append, List.find?_append, List.find?_cons]
  rcases h with hproperty | ⟨a, ha, hargument⟩
  · rw [Option.isNone_eq_false_iff.2 hproperty]
  · obtain ⟨first, hfirst⟩ : ∃ first, entries.find? (fun e => e.name?.isNone) = some first :=
      Option.isSome_iff_exists.1 (List.find?_isSome.2 ⟨a, ha, by rw [hargument]; rfl⟩)
    rw [hfirst]
    rfl

lemma ImmaterialIn.settingsIn_eq {parent : String} {children children' : List Kdl.Node}
    (h : ImmaterialIn parent children children') :
    settingsIn parent children' = settingsIn parent children := by
  unfold settingsIn
  cases h with
  | child h =>
    rw [List.filterMap_append, List.filterMap_append, List.filterMap_cons,
      ConfigField.named?_eq_none_iff.2 h]
    rfl
  | entry h =>
    rw [List.filterMap_append, List.filterMap_append, List.filterMap_cons, List.filterMap_cons,
      firstArgument?_insert h]
  | block =>
    rw [List.filterMap_append, List.filterMap_append]
    rfl

lemma Immaterial.settings_eq {document document' : Kdl.Document}
    (h : Immaterial document document') : settings document' = settings document := by
  unfold settings
  cases h with
  | node h =>
    rename_i before after node
    have hnone : settingsIn node.name node.children = [] :=
      List.filterMap_eq_nil_iff.2 fun child _ => by
        rw [ConfigField.named?_eq_none_iff.2 fun field hparent => absurd hparent (h field)]
        rfl
    rw [List.flatMap_append, List.flatMap_append, List.flatMap_cons, hnone, List.nil_append]
  | «section» hname h =>
    rw [List.flatMap_append, List.flatMap_append, List.flatMap_cons, List.flatMap_cons, hname]
    rcases h with hsame | hinside
    · rw [hsame]
    · rw [hinside.settingsIn_eq]

lemma settings_eq_of_eqvGen {document document' : Kdl.Document}
    (h : Relation.EqvGen Immaterial document document') :
    settings document' = settings document := by
  induction h with
  | rel _ _ h => exact h.settings_eq
  | refl => rfl
  | symm _ _ _ ih => exact ih.symm
  | trans _ _ _ _ _ ih ih' => exact ih'.trans ih

/-! ### The meaning of a document -/

/-- What all bounds together come to, for spans of whole milliseconds. -/
structure WithinBounds (c : Config) : Prop where
  batchSize : 1 ≤ c.batchSize.toNat
  concurrency : 1 ≤ c.concurrency.toNat
  maxBatches : ∀ n, c.maxBatches? = some n → 1 ≤ n.toNat
  staleThreshold : 1 ≤ c.staleThreshold.millis ∧ c.staleThreshold.nanos ≤ 876000 * 3600 * 1000000000
  interval : 1 ≤ c.interval.millis ∧ c.interval.nanos ≤ 876000 * 3600 * 1000000000
  leaseTimeout : 1 ≤ c.leaseTimeout.millis ∧ c.leaseTimeout.nanos ≤ 876000 * 3600 * 1000000000
  lease : c.interval.nanos ≤ c.leaseTimeout.nanos

variable {document document' : Kdl.Document} {e : ConfigError}

lemma firstViolation?_eq_none_iff :
    c.firstViolation? bounds = none ↔ ∀ b ∈ bounds, b.kept c = true := by
  unfold firstViolation?
  rw [Option.map_eq_none_iff, List.find?_eq_none]
  simp

lemma withinBounds (hwhole : c.Whole) (h : ∀ b ∈ bounds, b.kept c = true) : c.WithinBounds := by
  have hcount {n : UInt64} (hn : n ≠ 0) : 1 ≤ n.toNat :=
    Nat.pos_of_ne_zero fun hzero => hn (UInt64.toNat_inj.1 hzero)
  have hspan {s : Span} (hs : s.Whole) (hzero : s.nanos ≠ 0) (hlimit : s.nanos ≤ maxSpan.nanos) :
      1 ≤ s.millis ∧ s.nanos ≤ 876000 * 3600 * 1000000000 := by
    have hdvd := hs.dvd
    refine ⟨?_, hlimit⟩
    unfold Span.millis
    omega
  simp only [bounds, spanBounds, List.cons_append, List.nil_append, List.forall_mem_cons,
    decide_eq_true_eq] at h
  obtain ⟨hbatch, hconcurrency, hcap, hstale, hstale', hinterval, hinterval', hlease, hlease',
    hunder, -⟩ := h
  exact ⟨hcount hbatch, hcount hconcurrency, fun n hn => hcount fun hzero => hcap (hzero ▸ hn),
    hspan hwhole.staleThreshold hstale hstale', hspan hwhole.interval hinterval hinterval',
    hspan hwhole.leaseTimeout hlease hlease', hunder⟩

/-- What is read of a document is judged by the bounds. -/
lemma ofDocument_of_ok (h : readDocument document standard = .ok c) :
    ofDocument document = match c.firstViolation? bounds with
      | none => .ok c
      | some e => .error e := by
  unfold ofDocument
  rw [h]
  show c.validate.map _ = _
  rw [validate_eq]
  cases c.firstViolation? bounds <;> rfl

lemma ofDocument_of_error (h : readDocument document standard = .error e) :
    ofDocument document = .error e := by
  unfold ofDocument
  rw [h]
  rfl

theorem ofDocument_eq_ok_iff : ofDocument document = .ok c ↔
    ∃ rs, AllRead (settings document) rs ∧ c.Overrides rs standard ∧
      ∀ b ∈ bounds, b.kept c = true := by
  rcases readDocument_takes document standard with ⟨e, herr, hfirst⟩ | ⟨rs, c', hok, hread, hover⟩
  · rw [ofDocument_of_error herr]
    refine ⟨nofun, ?_⟩
    rintro ⟨rs, hread, -⟩
    exact absurd hfirst hread.not_firstRefused
  · rw [ofDocument_of_ok hok]
    constructor
    · intro h
      split at h
      · rename_i hnone
        cases h
        exact ⟨rs, hread, hover, firstViolation?_eq_none_iff.1 hnone⟩
      · cases h
    · rintro ⟨rs', hread', hover', hkept⟩
      obtain rfl := hread.unique hread'
      obtain rfl := hover.unique hover'
      rw [firstViolation?_eq_none_iff.2 hkept]

theorem ofDocument_eq_error_iff : ofDocument document = .error e ↔
    FirstRefused e (settings document) ∨ ∃ rs, ∃ c : Config, AllRead (settings document) rs ∧
      c.Overrides rs standard ∧ c.firstViolation? bounds = some e := by
  rcases readDocument_takes document standard with
    ⟨e', herr, hfirst⟩ | ⟨rs, c', hok, hread, hover⟩
  · rw [ofDocument_of_error herr, Except.error.injEq]
    constructor
    · rintro rfl
      exact .inl hfirst
    · rintro (hfirst' | ⟨rs, c, hread, -⟩)
      · exact hfirst.unique hfirst'
      · exact absurd hfirst hread.not_firstRefused
  · rw [ofDocument_of_ok hok]
    constructor
    · intro h
      split at h
      · cases h
      · rename_i hviolation
        cases h
        exact .inr ⟨rs, c', hread, hover, hviolation⟩
    · rintro (hfirst | ⟨rs', c, hread', hover', hviolation⟩)
      · exact absurd hfirst hread.not_firstRefused
      · obtain rfl := hread.unique hread'
        obtain rfl := hover.unique hover'
        rw [hviolation]

lemma whole_of_ofDocument (h : ofDocument document = .ok c) : c.Whole := by
  obtain ⟨read, hread, hvalid⟩ := ok_of_bind h
  obtain ⟨-, -, rfl⟩ := ok_of_map hvalid
  exact whole_standard.readDocument hread

lemma ofDocument_congr (h : settings document' = settings document) :
    ofDocument document' = ofDocument document := by
  cases hresult : ofDocument document with
  | ok c =>
    rw [ofDocument_eq_ok_iff, h]
    exact ofDocument_eq_ok_iff.1 hresult
  | error e =>
    rw [ofDocument_eq_error_iff, h]
    exact ofDocument_eq_error_iff.1 hresult

end Config

open Config Setting

/-- **The meaning of a document.** It is accepted as the standard configuration with the last value
for each of its settings, if all of them have values and this configuration keeps all bounds. It is
refused for the first setting that has no value, and if there is none for the first bound that the
configuration violates. What is accepted is within the bounds, and what no setting depends on may
come, go and change places without a bearing on the result. -/
theorem document_meaning (document : Kdl.Document) :
    (∀ c, ofDocument document = .ok c ↔ ∃ rs, AllRead (settings document) rs ∧
      c.Overrides rs standard ∧ ∀ b ∈ bounds, b.kept c = true) ∧
    (∀ e, ofDocument document = .error e ↔ FirstRefused e (settings document) ∨
      ∃ rs, ∃ c : Config, AllRead (settings document) rs ∧ c.Overrides rs standard ∧
        c.firstViolation? bounds = some e) ∧
    (∀ c, ofDocument document = .ok c → c.WithinBounds) ∧
    ∀ document', Relation.EqvGen Immaterial document document' →
      ofDocument document' = ofDocument document := by
  refine ⟨fun c => ofDocument_eq_ok_iff, fun e => ofDocument_eq_error_iff, fun c h => ?_,
    fun document' h => ofDocument_congr (settings_eq_of_eqvGen h)⟩
  obtain ⟨rs, -, -, hkept⟩ := ofDocument_eq_ok_iff.1 h
  exact withinBounds (whole_of_ofDocument h) hkept

/-- A batch size that is set twice, under two names and with a property after it, beside a node
without a meaning; and a document in which a setting without a value comes before a batch size that
violates its bound. -/
theorem document_meaning_setTwice :
    let sizes (entries : List Kdl.Entry) : Kdl.Node := ⟨"sweep", [],
      some ([⟨"batch_size", [⟨none, .int 5⟩], none⟩] ++ ⟨"batch-size", entries, none⟩ :: [])⟩
    let plain : Kdl.Document := [] ++ [sizes ([⟨none, .int 7⟩] ++ [])]
    let adorned : Kdl.Document := [] ++ ⟨"note", [], none⟩ ::
      [sizes ([⟨none, .int 7⟩] ++ ⟨some "unit", .string "jobs"⟩ :: [])]
    ofDocument plain = .ok { standard with batchSize := 7 } ∧
      ofDocument adorned = ofDocument plain ∧
      WithinBounds { standard with batchSize := 7 } ∧
      ofDocument [⟨"sweep", [], some [⟨"interval", [], none⟩, ⟨"batch-size", [⟨none, .int 0⟩],
        none⟩]⟩] = .error (.missingField .interval) := by
  intro sizes plain adorned
  obtain ⟨-, -, hbounds, halike⟩ := document_meaning plain
  have hplain : ofDocument plain = .ok { standard with batchSize := 7 } := by decide +kernel
  have hentry : Immaterial plain ([] ++ [sizes ([⟨none, .int 7⟩] ++ ⟨some "unit", .string "jobs"⟩ ::
      [])]) := .section rfl (.inr (.entry (.inl rfl)))
  have hnode : Immaterial ([] ++ [sizes ([⟨none, .int 7⟩] ++ ⟨some "unit", .string "jobs"⟩ :: [])])
      adorned := .node fun field => by cases field <;> decide
  refine ⟨hplain, halike adorned (.trans _ _ _ (.rel _ _ hentry) (.rel _ _ hnode)),
    hbounds _ hplain, ?_⟩
  obtain ⟨-, herror, -⟩ := document_meaning [⟨"sweep", [], some [⟨"interval", [], none⟩,
    ⟨"batch-size", [⟨none, .int 0⟩], none⟩]⟩]
  exact (herror _).2 (.inl (.here (.noText (.inr rfl) nofun)))

end JobDispatch
