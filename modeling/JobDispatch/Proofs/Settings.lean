import JobDispatch.Config.Document
import JobDispatch.Proofs.Exchange
import Mathlib.Logic.Function.Basic

/-!
The settings of a configuration one by one. Each stands in one of the two sections under one of its
names (`ConfigField.named?`), and its first argument is read as a value of its kind
(`ConfigField.Reads`) or refused with an error that names the setting or quotes the argument
(`ConfigField.Refuses`). To take a setting from a node is to do one or the other, and changes no
other setting (`Config.set_cases`).

The bounds that a configuration is to keep stand in a list, in the order in which they are checked
(`Config.bounds`), and validation reports the first one that is violated (`Config.validate_eq`).
-/

namespace JobDispatch

/-! ### Names -/

namespace ConfigField

inductive Kind
  | mode
  | span
  | boolean
  | count
deriving DecidableEq

def kind : ConfigField → Kind
  | mode => .mode
  | untaggedOnly => .boolean
  | staleThreshold | interval | leaseTimeout => .span
  | batchSize | concurrency | maxBatches => .count

def parent : ConfigField → String
  | mode | staleThreshold | untaggedOnly => "dispatch"
  | interval | batchSize | concurrency | maxBatches | leaseTimeout => "sweep"

/-- The names that a setting goes by in its section. -/
def spellings : ConfigField → List String
  | mode => ["mode"]
  | staleThreshold => ["stale-worker-threshold"]
  | untaggedOnly => ["untagged-workers-accept-untagged-only"]
  | interval => ["interval"]
  | batchSize => ["batch-size", "batch_size"]
  | concurrency => ["concurrency"]
  | maxBatches => ["max-batches", "max_batches"]
  | leaseTimeout => ["lease-timeout", "lease_timeout"]

def all : List ConfigField :=
  [mode, staleThreshold, untaggedOnly, interval, batchSize, concurrency, maxBatches, leaseTimeout]

lemma mem_all (field : ConfigField) : field ∈ all := by cases field <;> decide

/-- The setting that goes by a name in a section. -/
def named? (parent child : String) : Option ConfigField :=
  all.find? fun field => field.parent == parent && field.spellings.contains child

lemma named?_eq_none_iff {parent child : String} :
    named? parent child = none ↔
      ∀ field : ConfigField, field.parent = parent → child ∉ field.spellings := by
  unfold named?
  rw [List.find?_eq_none]
  constructor
  · intro h field hparent hchild
    refine h field field.mem_all ?_
    rw [hparent, beq_self_eq_true, List.contains_iff_mem.2 hchild]
    rfl
  · intro h field _ hfound
    rw [Bool.and_eq_true, beq_iff_eq, List.contains_iff_mem] at hfound
    exact h field hfound.1 hfound.2

lemma fieldOf?_of_mem {field : ConfigField} {child : String} (h : child ∈ field.spellings) :
    Config.fieldOf? field.parent child = some field := by
  cases field with
  | batchSize | maxBatches | leaseTimeout =>
    rcases List.mem_cons.1 h with rfl | h
    · rfl
    · rw [List.mem_singleton.1 h]
      rfl
  | _ =>
    rw [List.mem_singleton.1 h]
    rfl

lemma mem_of_fieldOf? {parent child : String} {field : ConfigField}
    (h : Config.fieldOf? parent child = some field) :
    parent = field.parent ∧ child ∈ field.spellings := by
  unfold Config.fieldOf? at h
  split at h
  · split at h <;> cases h <;> decide
  · split at h <;> cases h <;> decide
  · cases h

/-- **Settings are recognised by their names.** -/
theorem fieldOf?_eq_named? (parent child : String) :
    Config.fieldOf? parent child = named? parent child := by
  cases h : named? parent child with
  | none =>
    cases hfield : Config.fieldOf? parent child with
    | none => rfl
    | some field =>
      obtain ⟨hparent, hchild⟩ := mem_of_fieldOf? hfield
      exact absurd hchild (named?_eq_none_iff.1 h field hparent.symm)
  | some field =>
    have hfound := List.find?_some h
    rw [Bool.and_eq_true, beq_iff_eq, List.contains_iff_mem] at hfound
    rw [← hfound.1, fieldOf?_of_mem hfound.2]

end ConfigField

/-! ### Values -/

inductive SettingValue
  | mode (m : Trigger)
  | span (s : Span)
  | boolean (b : Bool)
  | count (n : UInt64)
deriving DecidableEq

/-- The value that a configuration has for a setting. Only the cap on batches may have none. -/
def Config.value? (c : Config) : ConfigField → Option SettingValue
  | .mode => some (.mode c.mode)
  | .staleThreshold => some (.span c.staleThreshold)
  | .untaggedOnly => some (.boolean c.untaggedOnly)
  | .interval => some (.span c.interval)
  | .batchSize => some (.count c.batchSize)
  | .concurrency => some (.count c.concurrency)
  | .maxBatches => c.maxBatches?.map .count
  | .leaseTimeout => some (.span c.leaseTimeout)

lemma Config.eq_of_value? {c c' : Config} (h : c.value? = c'.value?) : c = c' := by
  obtain ⟨mode, stale, untagged, interval, batch, concurrency, cap, lease⟩ := c
  obtain ⟨mode', stale', untagged', interval', batch', concurrency', cap', lease'⟩ := c'
  have hinj : Function.Injective SettingValue.count := fun _ _ h => SettingValue.count.inj h
  have hmode := SettingValue.mode.inj (Option.some.inj (congrFun h .mode))
  have hstale := SettingValue.span.inj (Option.some.inj (congrFun h .staleThreshold))
  have huntagged := SettingValue.boolean.inj (Option.some.inj (congrFun h .untaggedOnly))
  have hinterval := SettingValue.span.inj (Option.some.inj (congrFun h .interval))
  have hbatch := SettingValue.count.inj (Option.some.inj (congrFun h .batchSize))
  have hconcurrency := SettingValue.count.inj (Option.some.inj (congrFun h .concurrency))
  have hcap := Option.map_injective hinj (congrFun h .maxBatches)
  have hlease := SettingValue.span.inj (Option.some.inj (congrFun h .leaseTimeout))
  dsimp only at *
  rw [hmode, hstale, huntagged, hinterval, hbatch, hconcurrency, hcap, hlease]

namespace ConfigField

inductive Reads (field : ConfigField) : Option Kdl.Value → SettingValue → Prop
  | mode (m : Trigger) (hkind : field.kind = .mode) :
    Reads field (some (.string m.text)) (.mode m)
  | span {text : String} {s : Span} (hkind : field.kind = .span)
    (h : Span.parse? text = some s) : Reads field (some (.string text)) (.span s)
  | boolean (b : Bool) (hkind : field.kind = .boolean) :
    Reads field (some (.bool b)) (.boolean b)
  | count (n : UInt64) (hkind : field.kind = .count) :
    Reads field (some (.int n.toNat)) (.count n)

/-- What is wrong with the first argument of a setting, or with that there is none. -/
inductive Refuses (field : ConfigField) : Option Kdl.Value → ConfigError → Prop
  | noText {argument? : Option Kdl.Value} (hkind : field.kind = .mode ∨ field.kind = .span)
    (h : ∀ text, argument? ≠ some (.string text)) :
    Refuses field argument? (.missingField field)
  | unknownMode {name : String} (hkind : field.kind = .mode) (h : ∀ m : Trigger, m.text ≠ name) :
    Refuses field (some (.string name)) (.invalidValue field (.unknownMode name))
  | badSpan {text : String} (hkind : field.kind = .span) (h : Span.parse? text = none) :
    Refuses field (some (.string text)) (.invalidDuration text)
  | notBoolean {argument? : Option Kdl.Value} (hkind : field.kind = .boolean)
    (h : ∀ b, argument? ≠ some (.bool b)) :
    Refuses field argument? (.invalidValue field .notBoolean)
  | noNumber {argument? : Option Kdl.Value} (hkind : field.kind = .count)
    (h : ∀ n, argument? ≠ some (.int n)) : Refuses field argument? (.missingField field)
  | outOfRange {n : Int} (hkind : field.kind = .count) (h : n < 0 ∨ UInt64.size ≤ n) :
    Refuses field (some (.int n)) (.invalidValue field .notCount)

lemma text_injective {m m' : Trigger} (h : m.text = m'.text) : m = m' := by
  cases m <;> cases m' <;> first | rfl | exact absurd h (by decide)

variable {field : ConfigField} {argument? : Option Kdl.Value} {r r' : SettingValue}
  {e : ConfigError}

lemma Reads.unique (h : field.Reads argument? r) (h' : field.Reads argument? r') : r = r' := by
  cases h with
  | mode m hkind =>
    generalize htext : m.text = text at h'
    cases h' with
    | mode m' => rw [text_injective htext]
    | span hkind' => exact absurd (hkind.symm.trans hkind') (by decide)
  | span hkind hs =>
    cases h' with
    | mode m' hkind' => exact absurd (hkind.symm.trans hkind') (by decide)
    | span _ hs' => rw [Option.some.inj (hs.symm.trans hs')]
  | boolean b =>
    cases h'
    rfl
  | count n =>
    generalize hnat : (n.toNat : Int) = k at h'
    cases h' with
    | count n' => rw [UInt64.toNat_inj.1 (Int.ofNat.inj hnat)]

lemma Refuses.unique {e' : ConfigError} (h : field.Refuses argument? e)
    (h' : field.Refuses argument? e') : e = e' := by
  -- two reasons for one argument are the same, or for settings of different kinds
  cases h <;> cases h' <;> simp_all

lemma Reads.not_refuses (h : field.Reads argument? r) : ¬field.Refuses argument? e := by
  intro h'
  cases h with
  | mode m hkind =>
    generalize htext : m.text = text at h'
    cases h' with
    | noText _ hnone => exact hnone text rfl
    | unknownMode _ hnone => exact hnone m htext
    | badSpan hkind' | notBoolean hkind' | noNumber hkind' => simp [hkind] at hkind'
  | span hkind hs =>
    cases h' with
    | noText _ hnone => exact hnone _ rfl
    | badSpan _ hnone =>
      rw [hs] at hnone
      cases hnone
    | unknownMode hkind' | notBoolean hkind' | noNumber hkind' => simp [hkind] at hkind'
  | boolean b hkind =>
    cases h' with
    | notBoolean _ hnone => exact hnone b rfl
    | noText hkind' | noNumber hkind' => simp [hkind] at hkind'
  | count n hkind =>
    generalize hnat : (n.toNat : Int) = k at h'
    cases h' with
    | noNumber _ hnone => exact hnone k rfl
    | outOfRange _ hout =>
      have hlt := n.toNat_lt_size
      omega
    | noText hkind' | notBoolean hkind' => simp [hkind] at hkind'

end ConfigField

/-! ### Taking a setting from a node -/

namespace Config

variable {field : ConfigField} {node : Kdl.Node}

lemma stringOf_cases (field : ConfigField) (node : Kdl.Node) :
    (stringOf field node = .error (.missingField field) ∧
        ∀ text, node.firstArgument? ≠ some (.string text)) ∨
      ∃ text, stringOf field node = .ok text ∧ node.firstArgument? = some (.string text) := by
  unfold stringOf
  rcases node.firstArgument? with _ | (text | n | _ | b | _)
  · exact .inl ⟨rfl, nofun⟩
  · exact .inr ⟨text, rfl, rfl⟩
  all_goals exact .inl ⟨rfl, nofun⟩

/-- What comes of reading a value for a setting: it is refused or read. -/
def ReadFrom {α : Type} (field : ConfigField) (node : Kdl.Node) (reading : α → SettingValue)
    (x : Except ConfigError α) : Prop :=
  (∃ e, x = .error e ∧ field.Refuses node.firstArgument? e) ∨
    ∃ a, x = .ok a ∧ field.Reads node.firstArgument? (reading a)

lemma mode_readFrom (hkind : field.kind = .mode) :
    ReadFrom field node .mode ((stringOf field node).bind Trigger.parse) := by
  have hfield : field = .mode := by cases field <;> first | rfl | cases hkind
  rcases stringOf_cases field node with ⟨herr, hnone⟩ | ⟨name, hok, harg⟩
  · exact .inl ⟨_, by rw [herr]; rfl, .noText (.inl hkind) hnone⟩
  unfold ReadFrom
  rw [hok, harg]
  show (∃ e, Trigger.parse name = .error e ∧ _) ∨ ∃ m, Trigger.parse name = .ok m ∧ _
  unfold Trigger.parse
  cases hfound : Trigger.all.find? fun mode => mode.text == name with
  | none =>
    have hnone (m : Trigger) : m.text ≠ name := fun htext =>
      List.find?_eq_none.1 hfound m (by cases m <;> decide) (beq_iff_eq.2 htext)
    refine .inl ⟨_, rfl, ?_⟩
    rw [← hfield]
    exact .unknownMode hkind hnone
  | some m =>
    have hname := List.find?_some hfound
    exact .inr ⟨m, rfl, beq_iff_eq.1 hname ▸ .mode m hkind⟩

lemma span_readFrom (hkind : field.kind = .span) :
    ReadFrom field node .span (spanOf field node) := by
  unfold spanOf
  rcases stringOf_cases field node with ⟨herr, hnone⟩ | ⟨text, hok, harg⟩
  · exact .inl ⟨_, by rw [herr]; rfl, .noText (.inr hkind) hnone⟩
  unfold ReadFrom
  rw [hok, harg]
  show (∃ e, Span.parse text = .error e ∧ _) ∨ ∃ s, Span.parse text = .ok s ∧ _
  unfold Span.parse
  cases hparse : Span.parse? text with
  | none => exact .inl ⟨_, rfl, .badSpan hkind hparse⟩
  | some s => exact .inr ⟨s, rfl, .span hkind hparse⟩

lemma boolean_readFrom (hkind : field.kind = .boolean) :
    ReadFrom field node .boolean (booleanOf field node) := by
  unfold ReadFrom booleanOf
  rcases node.firstArgument? with _ | (text | n | _ | b | _)
  · exact .inl ⟨_, rfl, .notBoolean hkind nofun⟩
  · exact .inl ⟨_, rfl, .notBoolean hkind nofun⟩
  · exact .inl ⟨_, rfl, .notBoolean hkind nofun⟩
  · exact .inl ⟨_, rfl, .notBoolean hkind nofun⟩
  · exact .inr ⟨b, rfl, .boolean b hkind⟩
  · exact .inl ⟨_, rfl, .notBoolean hkind nofun⟩

lemma count_readFrom (hkind : field.kind = .count) :
    ReadFrom field node .count (countOf field node) := by
  unfold ReadFrom countOf
  rcases node.firstArgument? with _ | (text | n | _ | b | _)
  · exact .inl ⟨_, rfl, .noNumber hkind nofun⟩
  · exact .inl ⟨_, rfl, .noNumber hkind nofun⟩
  · show (∃ e, (if 0 ≤ n ∧ n.toNat < UInt64.size then _ else _) = _ ∧ _) ∨
      ∃ k, (if 0 ≤ n ∧ n.toNat < UInt64.size then _ else _) = _ ∧ _
    split
    · rename_i hrange
      have hnat : ((UInt64.ofNat n.toNat).toNat : Int) = n := by
        rw [UInt64.toNat_ofNat_of_lt' hrange.2, Int.toNat_of_nonneg hrange.1]
      have hreads := ConfigField.Reads.count (UInt64.ofNat n.toNat) hkind
      rw [hnat] at hreads
      exact .inr ⟨_, rfl, hreads⟩
    · exact .inl ⟨_, rfl, .outOfRange hkind (by omega)⟩
  all_goals exact .inl ⟨_, rfl, .noNumber hkind nofun⟩

/-- What comes of taking a setting from a node: the setting is refused, or it is read and changes
while all others stay. -/
def TakenFrom (c : Config) (field : ConfigField) (argument? : Option Kdl.Value)
    (x : Except ConfigError Config) : Prop :=
  (∃ e, x = .error e ∧ field.Refuses argument? e) ∨
    ∃ r c', x = .ok c' ∧ field.Reads argument? r ∧
      c'.value? = Function.update c.value? field (some r)

lemma ReadFrom.taken {c : Config} {α : Type} {reading : α → SettingValue} {x : Except ConfigError α}
    (h : ReadFrom field node reading x) {put : α → Config}
    (hput : ∀ a, (put a).value? = Function.update c.value? field (some (reading a))) :
    c.TakenFrom field node.firstArgument? (x.map put) := by
  rcases h with ⟨e, rfl, hrefuses⟩ | ⟨a, rfl, hreads⟩
  · exact .inl ⟨e, rfl, hrefuses⟩
  · exact .inr ⟨reading a, put a, rfl, hreads, hput a⟩

/-- **A setting is taken from the first argument of its node**, and from nothing else. -/
theorem set_cases (c : Config) (field : ConfigField) (node : Kdl.Node) :
    c.TakenFrom field node.firstArgument? (c.set field node) := by
  cases field with
  | mode => exact (mode_readFrom rfl).taken fun a => by funext f; cases f <;> rfl
  | untaggedOnly => exact (boolean_readFrom rfl).taken fun a => by funext f; cases f <;> rfl
  | staleThreshold | interval | leaseTimeout =>
    exact (span_readFrom rfl).taken fun a => by funext f; cases f <;> rfl
  | batchSize | concurrency | maxBatches =>
    exact (count_readFrom rfl).taken fun a => by funext f; cases f <;> rfl

/-! ### Bounds -/

end Config

/-- A bound that a configuration is to keep, and what is wrong with which setting if it does not. -/
structure Bound where
  field : ConfigField
  reason : BadValue
  kept : Config → Bool

def Bound.error (b : Bound) : ConfigError := .invalidValue b.field b.reason

namespace Config

def spanBounds (field : ConfigField) (span : Config → Span) : List Bound :=
  [⟨field, .zero, fun c => (span c).nanos ≠ 0⟩,
    ⟨field, .overLimit, fun c => (span c).nanos ≤ maxSpan.nanos⟩]

/-- All bounds in the order in which they are checked. -/
def bounds : List Bound :=
  ⟨.batchSize, .zero, fun c => c.batchSize ≠ 0⟩ ::
    ⟨.concurrency, .zero, fun c => c.concurrency ≠ 0⟩ ::
    ⟨.maxBatches, .zero, fun c => c.maxBatches? ≠ some 0⟩ ::
    (spanBounds .staleThreshold staleThreshold ++ (spanBounds .interval interval ++
      (spanBounds .leaseTimeout leaseTimeout ++
        [⟨.leaseTimeout, .underInterval, fun c => c.interval.nanos ≤ c.leaseTimeout.nanos⟩])))

/-- The error of the first bound in a list that a configuration violates. -/
def firstViolation? (c : Config) (bs : List Bound) : Option ConfigError :=
  (bs.find? fun b => !b.kept c).map Bound.error

def check (c : Config) : List Bound → Except ConfigError Unit
  | [] => .ok ()
  | b :: bs => if b.kept c then c.check bs else .error b.error

lemma check_append (c : Config) (bs bs' : List Bound) :
    c.check (bs ++ bs') = (c.check bs).bind fun _ => c.check bs' := by
  induction bs with
  | nil => rfl
  | cons b bs ih =>
    rw [List.cons_append, check, check]
    split
    · exact ih
    · rfl

lemma check_spanBounds (c : Config) (field : ConfigField) (span : Config → Span) :
    c.check (spanBounds field span) = checkSpan field (span c) := by
  unfold spanBounds checkSpan
  by_cases hzero : (span c).nanos = 0
  · simp [check, Bound.error, hzero]
  · by_cases hlimit : (span c).nanos ≤ maxSpan.nanos
    · simp [check, hzero, hlimit]
    · simp [check, Bound.error, hzero, hlimit]

/-- A check by itself, as a step that may end the ones after it. -/
lemma throw_or {violated : Prop} [Decidable violated] {kept : Bool}
    (hkept : kept = !decide violated) (e : ConfigError) {rest rest' : Except ConfigError Unit}
    (h : rest = rest') :
    (if violated then (do throw e; rest) else rest) = if kept then rest' else .error e := by
  subst hkept h
  by_cases hviolated : violated
  · simp only [hviolated, if_true]
    rfl
  · simp only [hviolated, if_false]
    rfl

lemma validate_eq_check (c : Config) : c.validate = c.check bounds := by
  refine throw_or (decide_not ..) _ (throw_or (decide_not ..) _ (throw_or (decide_not ..) _ ?_))
  rw [check_append, check_append, check_append, check_spanBounds, check_spanBounds,
    check_spanBounds]
  refine congrArg _ (funext fun _ => congrArg _ (funext fun _ => congrArg _ (funext fun _ => ?_)))
  by_cases hlease : c.interval.nanos ≤ c.leaseTimeout.nanos
  · simp only [hlease, Nat.not_lt.2 hlease, check, decide_true, if_true, if_false]
    rfl
  · simp only [hlease, Nat.not_le.1 hlease, check, decide_false, if_true]
    rfl

lemma check_eq (c : Config) (bs : List Bound) :
    c.check bs = match c.firstViolation? bs with
      | none => .ok ()
      | some e => .error e := by
  induction bs with
  | nil => rfl
  | cons b bs ih =>
    unfold check firstViolation?
    rw [List.find?_cons]
    cases hkept : b.kept c with
    | true => exact ih
    | false => rfl

/-- **Validation reports the first violated bound**, if there is one. -/
theorem validate_eq (c : Config) :
    c.validate = match c.firstViolation? bounds with
      | none => .ok ()
      | some e => .error e := by
  rw [validate_eq_check, check_eq]

end Config

end JobDispatch
