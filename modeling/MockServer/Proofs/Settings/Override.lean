import MockServer.Proofs.Settings.CommandLine
import MockServer.Proofs.Settings.File

/-!
Values of the command line and the environment hide those of the file. What they hide is not checked
and cannot be told from the outcome; what is checked are the settings that come out.
-/
namespace MockServer

/-- What a settings file can give: the top level of a file that is read, whatever its format, or the
empty one. -/
inductive ConfigValue.IsTopLevel : ConfigValue → Prop
  | absent : IsTopLevel (.table [])
  | read {format : FileFormat} {text : List Char} {v : ConfigValue}
      (h : ConfigValue.ofText format text = .ok v) : IsTopLevel v

theorem ConfigValue.IsTopLevel.keyed {v : ConfigValue} (h : v.IsTopLevel) : v.Keyed := by
  cases h with
  | absent => exact keyed_of_members rfl
  | @read format text v h =>
    rw [ofText] at h
    split at h
    next =>
      cases h
      exact keyed_ofFile
    next => cases h

/-- The value that was given if there was one, and else that of the file or the default. -/
def Setting.Merged {α : Type} (f : Setting α) (given : Option String) (kind? : String → Option α)
    (v : ConfigValue) (s : Settings) : Prop :=
  match given with
  | some text => kind? text = some (f.get s)
  | none => f.FromFile v s

/-- A value that was given hides that of the file. -/
theorem Setting.Merged.of_hidden {α : Type} {f : Setting α} {given : Option String}
    {kind? : String → Option α} {hidden : Option α} {v : ConfigValue} {file s : Settings}
    (hgiven : hidden.map some = given.map kind?) (hget : f.get s = hidden.getD (f.get file))
    (h : f.FromFile v file) : f.Merged given kind? v s := by
  cases given with
  | none =>
    have hhidden : hidden = none := Option.map_eq_none_iff.mp hgiven
    rw [hhidden, Option.getD_none] at hget
    rw [Merged, FromFile, hget]
    exact h
  | some text =>
    obtain ⟨a, rfl, ha⟩ := Option.map_eq_some_iff.mp hgiven
    rw [Merged, hget]
    exact ha.symm

private theorem Violation.when_eq_nil_iff {broken : Bool} {v : Violation} :
    Violation.when broken v = [] ↔ broken = false := by
  cases broken <;> simp [Violation.when]

namespace Settings

variable {s t : Settings} {c : CommandLine} {v : ConfigValue}

/-! The rules -/

/-- Settings that break no rule. -/
structure MeetsRules (s : Settings) : Prop where
  host : s.server.host ≠ ""
  port : s.server.port ≠ 0
  maxArraySize : s.generator.maxArraySize ≠ 0
  optionalOmitProbability : isProbability s.generator.optionalOmitProbability
  defaultExpirationHours : s.projects.defaultExpirationHours ≠ 0
  maxProjects : s.projects.maxProjects ≠ 0
  cleanupIntervalSeconds : s.projects.cleanupIntervalSeconds ≠ 0
  baseUrl : s.projects.baseUrl ≠ ""

theorem violations_eq_nil_iff : s.violations = [] ↔ s.MeetsRules := by
  simp only [violations, List.append_eq_nil_iff, Violation.when_eq_nil_iff, beq_eq_false_iff_ne,
    Bool.not_eq_false', String.isEmpty_eq_false_iff]
  constructor
  · rintro ⟨⟨⟨⟨⟨⟨⟨hhost, hport⟩, hsize⟩, hprobability⟩, hhours⟩, hprojects⟩, hinterval⟩, hurl⟩
    exact ⟨hhost, hport, hsize, hprobability, hhours, hprojects, hinterval, hurl⟩
  · rintro ⟨hhost, hport, hsize, hprobability, hhours, hprojects, hinterval, hurl⟩
    exact ⟨⟨⟨⟨⟨⟨⟨hhost, hport⟩, hsize⟩, hprobability⟩, hhours⟩, hprojects⟩, hinterval⟩, hurl⟩

theorem checked_of_meetsRules (h : s.MeetsRules) : s.checked = .ok s := by
  rw [checked, violations_eq_nil_iff.mpr h]

theorem checked_of_not_meetsRules (h : ¬s.MeetsRules) :
    s.checked = .error (.invalid s.violations) := by
  rw [checked]
  split
  next hnil => exact absurd (violations_eq_nil_iff.mp hnil) h
  next => rfl

/-! Overrides -/

/-- Settings that differ at most where the command line has a value. -/
structure AgreeBut (c : CommandLine) (s t : Settings) : Prop where
  host : c.host = none → s.server.host = t.server.host
  port : c.port = none → s.server.port = t.server.port
  maxArraySize : c.maxArraySize = none → s.generator.maxArraySize = t.generator.maxArraySize
  optionalOmitProbability :
    s.generator.optionalOmitProbability = t.generator.optionalOmitProbability
  defaultExpirationHours : s.projects.defaultExpirationHours = t.projects.defaultExpirationHours
  maxProjects : s.projects.maxProjects = t.projects.maxProjects
  cleanupIntervalSeconds : s.projects.cleanupIntervalSeconds = t.projects.cleanupIntervalSeconds
  baseUrl : c.baseUrl = none → s.projects.baseUrl = t.projects.baseUrl

private theorem getD_congr {α : Type} {hidden : Option α} {a b : α} (h : hidden = none → a = b) :
    hidden.getD a = hidden.getD b := by
  cases hidden with
  | none => exact h rfl
  | some x => rfl

private theorem AgreeBut.override_eq (h : AgreeBut c s t) : s.override c = t.override c := by
  simp only [override, getD_congr h.host, getD_congr h.port, getD_congr h.maxArraySize,
    h.optionalOmitProbability, h.defaultExpirationHours, h.maxProjects, h.cleanupIntervalSeconds,
    getD_congr h.baseUrl]

/-- Settings that a file and given values make. -/
structure Merged (given : CommandLine.Name → Option String) (v : ConfigValue) (s : Settings) :
    Prop where
  host : Setting.host.Merged (given .host) some v s
  port : Setting.port.Merged (given .port) CommandLine.port? v s
  maxArraySize :
    Setting.maxArraySize.Merged (given .maxArraySize) (Number.uint64? ·.toList) v s
  optionalOmitProbability : Setting.optionalOmitProbability.FromFile v s
  defaultExpirationHours : Setting.defaultExpirationHours.FromFile v s
  maxProjects : Setting.maxProjects.FromFile v s
  cleanupIntervalSeconds : Setting.cleanupIntervalSeconds.FromFile v s
  baseUrl : Setting.baseUrl.Merged (given .baseUrl) some v s

private theorem merged_override {given : CommandLine.Name → Option String} (hgiven : c.Holds given)
    (h : FromFile v s) : Merged given v (s.override c) where
  host := .of_hidden (congrArg _ hgiven.host) rfl h.host
  port := .of_hidden hgiven.port rfl h.port
  maxArraySize := .of_hidden hgiven.maxArraySize rfl h.maxArraySize
  optionalOmitProbability := h.optionalOmitProbability
  defaultExpirationHours := h.defaultExpirationHours
  maxProjects := h.maxProjects
  cleanupIntervalSeconds := h.cleanupIntervalSeconds
  baseUrl := .of_hidden (congrArg _ hgiven.baseUrl) rfl h.baseUrl

theorem load_eq (h : ofConfig v = .ok s) : load v c = (s.override c).checked := by
  rw [load, h]
  rfl

/-- Two files that differ only in settings that are given otherwise have one outcome: the settings
that the given values and either file make if these meet all rules, or else their violations. -/
theorem overrides_hide {arguments : List String} {environment : List (String × String)}
    {v w : ConfigValue} (hread : CommandLine.read arguments environment = .ok c)
    (hv : v.IsTopLevel) (hw : w.IsTopLevel) (hs : ofConfig v = .ok s) (ht : ofConfig w = .ok t)
    (hagree : AgreeBut c s t) :
    ∃ given merged, CommandLine.Spells arguments given ∧ (given.map (·.1)).Nodup ∧
      (∀ file ∈ [v, w], Merged
        (fun name => (given.lookup name).or (environment.lookup name.environmentKey)) file merged) ∧
      load v c = load w c ∧
      (merged.MeetsRules → load v c = .ok merged) ∧
      (¬merged.MeetsRules → load v c = .error (.invalid merged.violations)) := by
  obtain ⟨given, hspells, hnodup, hgiven⟩ := CommandLine.read_eq_ok hread
  have hsame : s.override c = t.override c := hagree.override_eq
  refine ⟨given, s.override c, hspells, hnodup, fun file hfile => ?_, ?_, ?_, ?_⟩
  · rcases List.mem_cons.mp hfile with rfl | hfile
    · exact merged_override hgiven (fromFile_of_ofConfig hv.keyed hs)
    · obtain rfl := List.mem_singleton.mp hfile
      exact hsame ▸ merged_override hgiven (fromFile_of_ofConfig hw.keyed ht)
  · rw [load_eq hs, load_eq ht, hsame]
  · rw [load_eq hs]
    exact checked_of_meetsRules
  · rw [load_eq hs]
    exact checked_of_not_meetsRules

/-- A port of zero in a file is hidden by one that is given, and a missing file then has the same
outcome. -/
theorem outcome_of_hidden_port :
    let c : CommandLine := { host := some "0.0.0.0", port := some 8080 }
    CommandLine.read ["--port", "8080"] [("DUPI_HOST", "0.0.0.0")] = .ok c ∧
      ∃ v, ConfigValue.ofText .toml "[server]\nport = 0\n".toList = .ok v ∧
        ofConfig v = .ok { server := { port := 0 } } ∧
        load v c = load (.table []) c ∧ load v c = .ok (({} : Settings).override c) := by
  intro c
  have hread : CommandLine.read ["--port", "8080"] [("DUPI_HOST", "0.0.0.0")] = .ok c :=
    eq_ok_of_toOption (by decide +kernel)
  obtain ⟨v, hv, hport⟩ : ∃ v,
      (ConfigValue.ofText .toml "[server]\nport = 0\n".toList).toOption = some v ∧
        decide ((ofConfig v).toOption = some { server := { port := 0 } }) = true :=
    (Option.any_eq_true _ _).mp (by decide +kernel)
  have hzero := eq_ok_of_toOption (of_decide_eq_true hport)
  have hagree : AgreeBut c { server := { port := 0 } } {} :=
    ⟨nofun, nofun, fun _ => rfl, rfl, rfl, rfl, rfl, fun _ => rfl⟩
  obtain ⟨-, -, -, -, -, hsame, -, -⟩ :=
    overrides_hide hread (.read (eq_ok_of_toOption hv)) .absent hzero rfl hagree
  exact ⟨hread, v, eq_ok_of_toOption hv, hzero, hsame, hsame.trans rfl⟩

end Settings

end MockServer
