import Mathlib.Algebra.Ring.Nat
import LoweringCheck.Equivalence.Config
import LoweringCheck.Proofs.Selection
import LoweringCheck.Proofs.Text.Integer
/-!
# Configurations from named settings

Each of four settings is absent or has a text that denotes a value. A configuration comes of exactly those
settings, the values that are not set staying as they are by default, and it is refused for the first setting
whose text denotes nothing.
-/
namespace LoweringCheck

/-- The settings that have names. -/
inductive Setting where
  | device
  | precision
  | version
  | seed

namespace Setting

/-- The settings in the order in which they are read. -/
def all : List Setting := [device, precision, version, seed]

def name : Setting → String
  | device => "CONVCHECK_DEVICE"
  | precision => "CONVCHECK_PRECISION"
  | version => "CONVCHECK_IR_VERSION"
  | seed => "CONVCHECK_SEED"

abbrev Value : Setting → Type
  | device => Device
  | precision => Precision
  | version => Nat
  | seed => UInt64

/-- The value of a setting in a configuration. -/
def value (c : Config) : (s : Setting) → s.Value
  | device => c.device
  | precision => c.precision
  | version => c.version
  | seed => c.seed

/-- The text denotes the value: a name in any letter case or a number within its range, between blanks. -/
def Denotes : (s : Setting) → String → s.Value → Prop
  | device, text, d => Text.Names (Device.name d) text
  | precision, text, p => Text.Names (Precision.name p) text
  | version, text, (n : Nat) => Text.Number text n ∧ n < 2 ^ 32
  | seed, text, (n : UInt64) => Text.Number text n.toNat

/-- The value written out. -/
def render : (s : Setting) → s.Value → String
  | device, d => Device.name d
  | precision, p => Precision.name p
  | version, (n : Nat) => toString n
  | seed, (n : UInt64) => toString n.toNat

/-- What is wrong with a text that denotes nothing. -/
def fault : Setting → String → SettingFault
  | device, text => .selection (.unknownDevice (Text.upper (Text.trim text)))
  | precision, text => .selection (.unknownPrecision (Text.upper (Text.trim text)))
  | version, text => .notNumber text
  | seed, text => .notNumber text

/-- The setting is absent and the value is that of the default, or its text denotes the value. -/
def Gives (s : Setting) : Option String → s.Value → Prop
  | none, v => v = s.value .default
  | some text, v => s.Denotes text v

/-- The setting has a text that denotes nothing. -/
def Malformed (lookup : String → Option String) (s : Setting) (text : String) : Prop :=
  lookup s.name = some text ∧ ∀ v, ¬ s.Denotes text v

/-! ## One setting -/

def read : (s : Setting) → String → Except SettingFault s.Value
  | device => Config.selecting Device.select
  | precision => Config.selecting Precision.select
  | version => Config.number Version.limit
  | seed => fun text => (Config.number naturalLimit text).map UInt64.ofNat

section
variable {α : Type} {all : List α} {name : α → String} {error : String → SelectionError}
  {select : String → Except SelectionError α} {text : String}

theorem selecting_eq_ok_iff (h : ByName all name error select) {x : α} :
    Config.selecting select text = .ok x ↔ Text.Names (name x) text := by
  rw [← h.select_eq_ok_iff]
  unfold Config.selecting
  cases select text <;> simp

private theorem fault_of_selecting (h : ByName all name error select) {f : SettingFault}
    (herror : Config.selecting select text = .error f) :
    f = .selection (error (Text.upper (Text.trim text))) := by
  unfold Config.selecting at herror
  cases hselect : select text with
  | ok x => simp [hselect] at herror
  | error e =>
    have hf : SettingFault.selection e = f := by simpa [hselect] using herror
    rw [← hf, h.fault_of_select hselect]

end

theorem number_eq_ok_iff {limit n : Nat} {text : String} :
    Config.number limit text = .ok n ↔ Text.Number text n ∧ n ≤ limit := by
  rw [← Text.natural?_trim_eq_some_iff]
  unfold Config.number
  cases Text.natural? limit (Text.trim text).toList <;> simp

private theorem fault_of_number {limit : Nat} {text : String} {f : SettingFault}
    (h : Config.number limit text = .error f) : f = .notNumber text := by
  unfold Config.number at h
  cases hread : Text.natural? limit (Text.trim text).toList with
  | none => simpa [hread, eq_comm] using h
  | some n => simp [hread] at h

theorem read_eq_ok_iff {s : Setting} {text : String} {v : s.Value} :
    s.read text = .ok v ↔ s.Denotes text v := by
  cases s with
  | device =>
    show Config.selecting Device.select text = .ok v ↔ Text.Names (Device.name v) text
    exact selecting_eq_ok_iff Device.byName
  | precision =>
    show Config.selecting Precision.select text = .ok v ↔ Text.Names (Precision.name v) text
    exact selecting_eq_ok_iff Precision.byName
  | version =>
    have hrange : ∀ n : Nat, n ≤ Version.limit ↔ n < 2 ^ 32 := by
      intro n
      simp only [Version.limit]
      omega
    show Config.number Version.limit text = .ok v ↔ Text.Number text v ∧ v < 2 ^ 32
    rw [number_eq_ok_iff, hrange]
  | seed =>
    constructor
    · intro h
      cases hnumber : Config.number naturalLimit text with
      | error f => simp [read, hnumber, Except.map] at h
      | ok n =>
        obtain ⟨hdenotes, hle⟩ := number_eq_ok_iff.mp hnumber
        have hv : UInt64.ofNat n = v := by simpa [read, hnumber, Except.map] using h
        have hn : v.toNat = n := by
          rw [← hv]
          apply UInt64.toNat_ofNat_of_lt'
          simp only [naturalLimit] at hle
          simp only [UInt64.size]
          omega
        show Text.Number text v.toNat
        rw [hn]
        exact hdenotes
    · intro h
      have hle : v.toNat ≤ naturalLimit := by
        have hlt := v.toNat_lt
        simp only [naturalLimit]
        omega
      have hnumber : Config.number naturalLimit text = .ok v.toNat := number_eq_ok_iff.mpr ⟨h, hle⟩
      simp [read, hnumber, Except.map]

private theorem fault_of_read {s : Setting} {text : String} {f : SettingFault}
    (h : s.read text = .error f) :
    f = s.fault text := by
  cases s with
  | device =>
    have hselect : Config.selecting Device.select text = .error f := h
    exact fault_of_selecting Device.byName hselect
  | precision =>
    have hselect : Config.selecting Precision.select text = .error f := h
    exact fault_of_selecting Precision.byName hselect
  | version =>
    have hnumber : Config.number Version.limit text = .error f := h
    exact fault_of_number hnumber
  | seed =>
    cases hnumber : Config.number naturalLimit text with
    | error f' =>
      have hsame : f' = f := by simpa [read, hnumber, Except.map] using h
      exact hsame ▸ fault_of_number hnumber
    | ok n => simp [read, hnumber, Except.map] at h

private theorem denotes_render {c : Config} (hversion : c.version < 2 ^ 32) (s : Setting) :
    s.Denotes (s.render (s.value c)) (s.value c) := by
  cases s with
  | device => exact Text.names_self c.device.name
  | precision => exact Text.names_self c.precision.name
  | version => exact ⟨Text.number_toString c.version, hversion⟩
  | seed => exact Text.number_toString c.seed.toNat

variable {lookup : String → Option String} {s : Setting}

/-- What is found for a setting. -/
def found (lookup : String → Option String) (s : Setting) : Except ConfigError s.Value :=
  Config.setting lookup s.name (s.value .default) s.read

theorem found_eq_ok_iff {v : s.Value} : s.found lookup = .ok v ↔ s.Gives (lookup s.name) v := by
  unfold found Config.setting
  cases lookup s.name with
  | none => simp [Gives, eq_comm]
  | some text =>
    rw [Gives, ← read_eq_ok_iff]
    cases hread : s.read text <;> simp [hread]

theorem found_eq_error_iff {e : ConfigError} :
    s.found lookup = .error e ↔ ∃ text, s.Malformed lookup text ∧ e = ⟨s.name, s.fault text⟩ := by
  simp only [Malformed, ← read_eq_ok_iff]
  unfold found Config.setting
  cases lookup s.name with
  | none => simp
  | some text =>
    cases hread : s.read text with
    | ok v => simp [hread]
    | error f => simp [hread, fault_of_read hread, eq_comm]

/-! ## All settings -/

private theorem found_seed : seed.found lookup =
    (Config.setting lookup "CONVCHECK_SEED" Config.default.seed.toNat (Config.number naturalLimit)).map
      UInt64.ofNat := by
  unfold found Config.setting
  simp only [name, read, value]
  cases lookup "CONVCHECK_SEED" with
  | none => simp [Except.map]
  | some text =>
    dsimp only
    cases Config.number naturalLimit text <;> rfl

private theorem ofLookup_eq (lookup : String → Option String) : Config.ofLookup lookup = do
    let d ← device.found lookup
    let p ← precision.found lookup
    let n ← version.found lookup
    let x ← seed.found lookup
    return { Config.default with device := d, precision := p, version := n, seed := x } := by
  rw [found_seed]
  unfold Config.ofLookup found
  simp only [name, read, value]
  cases Config.setting lookup "CONVCHECK_DEVICE" Config.default.device (Config.selecting Device.select) with
  | error e => rfl
  | ok d =>
    cases Config.setting lookup "CONVCHECK_PRECISION" Config.default.precision
        (Config.selecting Precision.select) with
    | error e => rfl
    | ok p =>
      cases Config.setting lookup "CONVCHECK_IR_VERSION" Config.default.version
          (Config.number Version.limit) with
      | error e => rfl
      | ok n =>
        cases Config.setting lookup "CONVCHECK_SEED" Config.default.seed.toNat
            (Config.number naturalLimit) with
        | error e => rfl
        | ok x => rfl

theorem forall_iff {P : Setting → Prop} : (∀ s, P s) ↔ P device ∧ P precision ∧ P version ∧ P seed := by
  constructor
  · intro h
    exact ⟨h device, h precision, h version, h seed⟩
  · intro h s
    cases s <;> simp [h]

private theorem bind_eq_ok_iff {ε α β : Type} {x : Except ε α} {f : α → Except ε β} {b : β} :
    (x >>= f) = .ok b ↔ ∃ a, x = .ok a ∧ f a = .ok b := by
  cases x <;> simp [bind, Except.bind]

theorem ofLookup_eq_ok_iff {c : Config} : Config.ofLookup lookup = .ok c ↔
    (∀ s : Setting, s.found lookup = .ok (s.value c)) ∧ c.tolerance = Config.default.tolerance ∧
      c.keepArtifacts = Config.default.keepArtifacts := by
  simp only [ofLookup_eq, bind_eq_ok_iff, forall_iff, value]
  constructor
  · intro h
    obtain ⟨d, hd, p, hp, n, hn, x, hx, hc⟩ := h
    cases hc
    exact ⟨⟨hd, hp, hn, hx⟩, rfl, rfl⟩
  · intro h
    obtain ⟨⟨hd, hp, hn, hx⟩, htolerance, hkeep⟩ := h
    refine ⟨_, hd, _, hp, _, hn, _, hx, ?_⟩
    rw [← htolerance, ← hkeep]
    rfl

/-- The error that a setting gives, if it does. -/
def error? (lookup : String → Option String) (s : Setting) : Option ConfigError :=
  match s.found lookup with
  | .ok _ => none
  | .error e => some e

theorem error?_eq_some_iff {e : ConfigError} :
    s.error? lookup = some e ↔ ∃ text, s.Malformed lookup text ∧ e = ⟨s.name, s.fault text⟩ := by
  rw [← found_eq_error_iff, error?]
  cases s.found lookup <;> simp

theorem error?_eq_none_iff : s.error? lookup = none ↔ ∀ text, ¬ s.Malformed lookup text := by
  constructor
  · intro h text hmalformed
    have herror := error?_eq_some_iff.mpr ⟨text, hmalformed, rfl⟩
    simp [h] at herror
  · intro h
    cases herror : s.error? lookup with
    | none => rfl
    | some e =>
      obtain ⟨text, hmalformed, _⟩ := error?_eq_some_iff.mp herror
      exact absurd hmalformed (h text)

theorem ofLookup_eq_error_iff {e : ConfigError} :
    Config.ofLookup lookup = .error e ↔ all.findSome? (error? lookup) = some e := by
  simp only [ofLookup_eq, all, List.findSome?, error?, bind, Except.bind]
  cases device.found lookup with
  | error e => simp
  | ok d =>
    cases precision.found lookup with
    | error e => simp
    | ok p =>
      cases version.found lookup with
      | error e => simp
      | ok n => cases seed.found lookup <;> simp [pure, Except.pure]

end Setting

namespace Config
variable {c : Config} {lookup : String → Option String}

/-- The configuration has what the settings give, and what the default has of everything else. -/
structure GivenBy (c : Config) (lookup : String → Option String) : Prop where
  settings : ∀ s : Setting, s.Gives (lookup s.name) (s.value c)
  tolerance : c.tolerance = default.tolerance
  keepArtifacts : c.keepArtifacts = default.keepArtifacts

/-- What the first malformed setting is refused for. -/
def FirstFault (lookup : String → Option String) (e : ConfigError) : Prop :=
  ∃ earlier s later, Setting.all = earlier ++ s :: later ∧
    (∃ text, s.Malformed lookup text ∧ e = ⟨s.name, s.fault text⟩) ∧
    ∀ r ∈ earlier, ∀ text, ¬ r.Malformed lookup text

private theorem ofLookup_iff_givenBy : ofLookup lookup = .ok c ↔ c.GivenBy lookup := by
  rw [Setting.ofLookup_eq_ok_iff]
  simp only [Setting.found_eq_ok_iff]
  constructor
  · intro h
    exact ⟨h.1, h.2.1, h.2.2⟩
  · intro h
    exact ⟨h.settings, h.tolerance, h.keepArtifacts⟩

private theorem ofLookup_iff_firstFault {e : ConfigError} :
    ofLookup lookup = .error e ↔ FirstFault lookup e := by
  rw [Setting.ofLookup_eq_error_iff, List.findSome?_eq_some_iff]
  simp only [Setting.error?_eq_some_iff, Setting.error?_eq_none_iff, FirstFault]

theorem exists_ofLookup_iff :
    (∃ c, ofLookup lookup = .ok c) ↔ ∀ (s : Setting) (text : String), ¬ s.Malformed lookup text := by
  constructor
  · intro h s text hmalformed
    obtain ⟨c, hc⟩ := h
    have hgives := (ofLookup_iff_givenBy.mp hc).settings s
    rw [hmalformed.1] at hgives
    exact hmalformed.2 _ hgives
  · intro h
    cases hread : ofLookup lookup with
    | ok c => exact ⟨c, rfl⟩
    | error e =>
      obtain ⟨_, s, _, _, ⟨text, hmalformed, _⟩, _⟩ := ofLookup_iff_firstFault.mp hread
      exact absurd hmalformed (h s text)

private theorem ofLookup_render (hversion : c.version < 2 ^ 32)
    (hlookup : ∀ s : Setting, lookup s.name = some (s.render (s.value c))) :
    ofLookup lookup =
      .ok { c with tolerance := default.tolerance, keepArtifacts := default.keepArtifacts } := by
  apply ofLookup_iff_givenBy.mpr
  constructor
  · intro s
    rw [hlookup]
    exact Setting.denotes_render hversion s
  · rfl
  · rfl

/-- A configuration comes of the settings exactly if each that is there has a text that denotes a value: the
name of a device or of a precision in any letter case, or digits within the range of the setting, a plus sign
before them or not, with or without blanks around. It then has these values and is otherwise the default, its
tolerance that of its precision. Or else the first malformed setting is reported. What is written out is read
as it was. -/
theorem ofLookup_accepts (lookup : String → Option String) :
    ((∃ c, ofLookup lookup = .ok c) ↔
        ∀ (s : Setting) (text : String), lookup s.name = some text → ∃ v, s.Denotes text v) ∧
      (∀ c, ofLookup lookup = .ok c ↔ c.GivenBy lookup) ∧
      (∀ c, ofLookup lookup = .ok c → c.effectiveTolerance = .ofPrecision c.precision) ∧
      (∀ e, ofLookup lookup = .error e ↔ FirstFault lookup e) ∧
      ∀ c : Config, c.version < 2 ^ 32 →
        (∀ s : Setting, lookup s.name = some (s.render (s.value c))) →
          ofLookup lookup =
            .ok { c with tolerance := default.tolerance, keepArtifacts := default.keepArtifacts } := by
  refine ⟨?_, fun c => ofLookup_iff_givenBy, ?_, fun e => ofLookup_iff_firstFault, fun c => ofLookup_render⟩
  · rw [exists_ofLookup_iff]
    simp only [Setting.Malformed, not_and, not_forall, not_not]
  · intro c h
    rw [effectiveTolerance, (ofLookup_iff_givenBy.mp h).tolerance]
    rfl

/-- A device in mixed case before a blank, a precision behind one, a version with a sign and zeros in front, and
no seed. -/
def spelled : String → Option String
  | "CONVCHECK_DEVICE" => some "gPu\u3000"
  | "CONVCHECK_PRECISION" => some "\tfp16"
  | "CONVCHECK_IR_VERSION" => some "+0010"
  | _ => none

/-- The largest numbers. -/
def largest : Config := ⟨.gpu, .fp16, 4294967295, 18446744073709551615, none, false⟩

/-- The settings written out. -/
def written (c : Config) (name : String) : Option String :=
  (Setting.all.find? fun s => s.name == name).map fun s => s.render (s.value c)

theorem ofLookup_spelled :
    ofLookup spelled = .ok { default with device := .gpu, precision := .fp16, version := 10 } ∧
      largest.version < 2 ^ 32 ∧
      (∀ s : Setting, largest.written s.name = some (s.render (s.value largest))) ∧
      ofLookup largest.written = .ok { largest with keepArtifacts := true } := by
  have hdevice : Text.Names "GPU" "gPu\u3000" := by
    refine ⟨['g', 'P', 'u'], ?_, [], ['\u3000'], ?_, ?_, ?_⟩ <;> simp [Text.Spells, Text.isBlank]
  have hprecision : Text.Names "FP16" "\tfp16" := by
    refine ⟨['f', 'p', '1', '6'], ?_, ['\t'], [], ?_, ?_, ?_⟩ <;> simp [Text.Spells, Text.isBlank]
  have hversion : Text.Number "+0010" 10 := by
    refine ⟨['+', '0', '0', '1', '0'], .plus ?_, [], [], ?_, ?_, ?_⟩
    · apply Text.digits_iff.mpr
      simp [Text.digitsValue, Text.digitValue]
    all_goals simp
  have hwritten : ∀ s : Setting, largest.written s.name = some (s.render (s.value largest)) := by
    intro s
    cases s <;> rfl
  obtain ⟨-, hgiven, -⟩ := ofLookup_accepts spelled
  obtain ⟨-, -, -, -, hrendered⟩ := ofLookup_accepts largest.written
  refine ⟨?_, by decide, hwritten, hrendered largest (by decide) hwritten⟩
  apply (hgiven _).mpr
  constructor
  · intro s
    cases s with
    | device => exact hdevice
    | precision => exact hprecision
    | version => exact ⟨hversion, by decide⟩
    | seed => rfl
  · rfl
  · rfl

end Config
end LoweringCheck
