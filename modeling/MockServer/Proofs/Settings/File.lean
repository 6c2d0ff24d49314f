import MockServer.Proofs.Outcome
import MockServer.Settings.Load

/-!
What a settings file says. The keys of its tables are distinct, however its paths were put together,
so each setting has one value at most. A value holds if it is of the kind of its key, and a setting
that has none keeps its default.
-/
namespace MockServer

namespace ConfigValue

variable {key : String} {v w below : ConfigValue}

/-! Tables -/

@[simp] theorem members_table (members : List (String × ConfigValue)) :
    (table members).members = members := rfl

section put
variable {α : Type} {v w : α} {other : String} {members : List (String × α)}

theorem lookup_put_self : (put key v members).lookup key = some v := by
  induction members with
  | nil => exact List.lookup_cons_self
  | cons m members ih =>
    obtain ⟨first, w⟩ := m
    rw [put]
    split
    next h => rw [h, List.lookup_cons_self]
    next h => rw [List.lookup_cons, beq_eq_false_iff_ne.mpr (Ne.symm h), ih]

theorem lookup_put_of_ne (h : other ≠ key) :
    (put key v members).lookup other = members.lookup other := by
  have hother : (other == key) = false := beq_eq_false_iff_ne.mpr h
  induction members with
  | nil => rw [put, List.lookup_cons, hother]
  | cons m members ih =>
    obtain ⟨first, w⟩ := m
    rw [put]
    split
    next hfirst => rw [List.lookup_cons, List.lookup_cons, hfirst, hother]
    next => rw [List.lookup_cons, List.lookup_cons, ih]

private theorem mem_put {m : String × α} (h : m ∈ put key v members) :
    m = (key, v) ∨ m ∈ members := by
  induction members with
  | nil => exact .inl (List.mem_singleton.mp h)
  | cons first members ih =>
    rw [put] at h
    split at h
    next hfirst =>
      rcases List.mem_cons.mp h with h | h
      · exact .inl (hfirst ▸ h)
      · exact .inr (List.mem_cons_of_mem _ h)
    next =>
      rcases List.mem_cons.mp h with h | h
      · exact .inr (h ▸ List.mem_cons_self)
      · exact (ih h).imp id (List.mem_cons_of_mem _)

theorem nodup_put (h : (members.map (·.1)).Nodup) : ((put key v members).map (·.1)).Nodup := by
  induction members with
  | nil => exact List.pairwise_singleton _ key
  | cons first members ih =>
    rw [List.map_cons, List.nodup_cons] at h
    rw [put]
    split
    next hfirst => exact List.nodup_cons.mpr h
    next hfirst =>
      refine List.nodup_cons.mpr ⟨fun hmem => ?_, ih h.2⟩
      obtain ⟨m, hm, hkey⟩ := List.mem_map.mp hmem
      rcases mem_put hm with rfl | hm
      · exact hfirst hkey.symm
      · have hfirst : m.1 = first.1 := hkey
        exact h.1 (hfirst ▸ List.mem_map_of_mem hm)

end put

/-- Tables within tables have distinct keys. What stands in a list does not matter. -/
inductive Keyed : ConfigValue → Prop
  | intro {v : ConfigValue} (nodup : (v.members.map (·.1)).Nodup)
      (inner : ∀ m ∈ v.members, Keyed m.2) : Keyed v

theorem Keyed.nodup (h : Keyed v) : (v.members.map (·.1)).Nodup := by
  obtain ⟨nodup, -⟩ := h
  exact nodup

private theorem Keyed.inner (h : Keyed v) : ∀ m ∈ v.members, Keyed m.2 := by
  obtain ⟨-, inner⟩ := h
  exact inner

theorem keyed_of_members (h : v.members = []) : Keyed v :=
  ⟨h ▸ List.nodup_nil, fun _ hm => absurd (h ▸ hm) List.not_mem_nil⟩

theorem Keyed.lookup (h : Keyed v) (hw : v.members.lookup key = some w) : Keyed w := by
  obtain ⟨before, later, hmembers, -⟩ := List.lookup_eq_some_iff.mp hw
  exact h.inner (key, w) (hmembers ▸ List.mem_append_right before List.mem_cons_self)

private theorem Keyed.member (h : Keyed v) : Keyed (v.member key) := by
  rw [ConfigValue.member]
  cases hw : v.members.lookup key with
  | none => exact keyed_of_members rfl
  | some w => exact h.lookup hw

private theorem Keyed.put (h : Keyed v) (hw : Keyed w) : Keyed (.table (put key w v.members)) := by
  refine ⟨nodup_put h.nodup, fun m hm => ?_⟩
  rcases mem_put hm with rfl | hm
  · exact hw
  · exact h.inner m hm

mutual

private theorem keyed_merge (below v : ConfigValue) (h : Keyed below) : Keyed (below.merge v) := by
  match v with
  | .table members =>
    rw [merge]
    exact keyed_mergeMembers below members h
  | .null | .bool _ | .int _ | .real _ | .text _ | .list _ => exact keyed_of_members rfl

private theorem keyed_mergeMembers (below : ConfigValue) (members : List (String × ConfigValue))
    (h : Keyed below) : Keyed (mergeMembers below members) := by
  match members with
  | [] =>
    rw [mergeMembers]
    exact h
  | (key, v) :: rest =>
    rw [mergeMembers]
    exact keyed_mergeMembers _ rest (h.put (keyed_merge _ v h.member))

end

private theorem Keyed.setAt (h : Keyed below) (path : KeyPath) : Keyed (setAt v path below) := by
  induction path generalizing below with
  | nil => exact keyed_merge below v h
  | cons step path ih =>
    cases step with
    | name key => exact h.put (ih h.member)
    | place i => exact keyed_of_members rfl

theorem keyed_ofFile : Keyed v.ofFile :=
  List.foldlRecOn v.members _ (keyed_of_members rfl) fun _ h _ _ => h.setAt _

/-! Values laid over others -/

/-- In a table that is laid over a value, each key shows what the table has laid over what was
there. -/
theorem lookup_mergeMembers {members : List (String × ConfigValue)}
    (h : (members.map (·.1)).Nodup) :
    (mergeMembers below members).members.lookup key =
      match members.lookup key with
      | some w => some (merge (below.member key) w)
      | none => below.members.lookup key := by
  induction members generalizing below with
  | nil => rw [mergeMembers, List.lookup_nil]
  | cons m members ih =>
    obtain ⟨first, v⟩ := m
    rw [List.map_cons, List.nodup_cons] at h
    rw [mergeMembers, ih h.2, List.lookup_cons, member, members_table]
    by_cases hkey : key = first
    · subst hkey
      have hnone : members.lookup key = none := List.lookup_eq_none_iff.mpr fun m hm =>
        bne_iff_ne.mpr fun heq => h.1 (List.mem_map.mpr ⟨m, hm, heq.symm⟩)
      rw [hnone, beq_self_eq_true]
      exact lookup_put_self
    · rw [beq_false_of_ne hkey, lookup_put_of_ne hkey]
      rfl

theorem isTable_mergeMembers (members own : List (String × ConfigValue)) :
    ∃ both, mergeMembers (.table members) own = .table both := by
  induction own generalizing members with
  | nil => exact ⟨members, mergeMembers.eq_1 _⟩
  | cons m own ih =>
    rw [mergeMembers]
    exact ih _

/-! Sections -/

/-- What a section says of a key. A table names its values, a list has them in the order of the
keys. -/
def valueAt? (keys : List String) (key : String) : ConfigValue → Option ConfigValue
  | .table members => members.lookup key
  | .list items => (keys.zip items).lookup key
  | _ => none

/-- Whether a value hides what it is laid over. -/
def hides : ConfigValue → Bool
  | .table [] => false
  | _ => true

/-- The value that a top level has for a key of a section. An empty table hides no default, so it
counts as none. -/
def setting? (v : ConfigValue) (name : String) (keys : List String) (key : String) :
    Option ConfigValue :=
  ((v.members.lookup name).bind (valueAt? keys key)).filter hides

/-- Which value a key has: the one that is set if it is of the kind, or the default. -/
def Reads {α : Type} (kind? : ConfigValue → Option α) (default a : α) :
    Option ConfigValue → Prop
  | some w => kind? w = some a
  | none => a = default

section kind
variable {α : Type} {kind? : ConfigValue → Option α} {default a : α} {keys : List String}

theorem valueAt?_merge_table {members own : List (String × ConfigValue)}
    (h : (own.map (·.1)).Nodup) :
    (merge (.table members) (.table own)).valueAt? keys key =
      match own.lookup key with
      | some w => some (merge ((table members).member key) w)
      | none => members.lookup key := by
  obtain ⟨both, hboth⟩ := isTable_mergeMembers members own
  have hmembers : both = (mergeMembers (.table members) own).members := by rw [hboth, members_table]
  rw [merge, hboth, valueAt?, hmembers]
  exact lookup_mergeMembers h

private theorem filter_hides (hkind : ∀ members, kind? (.table members) = none)
    (h : kind? v = some a) :
    (some v).filter hides = some v := by
  match v with
  | .table members =>
    rw [hkind] at h
    cases h
  | .null | .bool _ | .int _ | .real _ | .text _ | .list _ => rfl

/-- A value of a kind is no table. So it is the value that was laid over another one, unless that
was empty. -/
theorem kind_merge (hkind : ∀ members, kind? (.table members) = none)
    (h : kind? (below.merge v) = some a) :
    v = .table [] ∧ kind? below = some a ∨ kind? v = some a := by
  match v with
  | .table [] =>
    rw [merge, mergeMembers] at h
    exact .inl ⟨rfl, h⟩
  | .table ((key, w) :: rest) =>
    obtain ⟨both, hboth⟩ :=
      isTable_mergeMembers (put key (merge (below.member key) w) below.members) rest
    rw [merge, mergeMembers, hboth, hkind] at h
    cases h
  | .null | .bool _ | .int _ | .real _ | .text _ | .list _ => exact .inr h

/-- What is read from a section that is laid over a table is what the section has itself, or else
what is read from the table. -/
theorem Reads.of_merge (hkind : ∀ members, kind? (.table members) = none)
    {members : List (String × ConfigValue)} (hw : Keyed w)
    (hbelow : ∀ b, Reads kind? default b (members.lookup key) → b = default)
    (h : Reads kind? default a ((merge (.table members) w).valueAt? keys key)) :
    Reads kind? default a ((w.valueAt? keys key).filter hides) := by
  match w with
  | .table own =>
    have hown : (own.map (·.1)).Nodup := hw.nodup
    rw [valueAt?_merge_table hown] at h
    rw [valueAt?]
    cases hx : own.lookup key with
    | none =>
      rw [hx] at h
      exact hbelow a h
    | some x =>
      rw [hx] at h
      rcases kind_merge hkind h with ⟨rfl, hmember⟩ | hkept
      · rw [member, members_table] at hmember
        cases hb : members.lookup key with
        | none =>
          rw [hb, Option.getD_none, hkind] at hmember
          cases hmember
        | some b =>
          rw [hb] at hmember hbelow
          exact hbelow a hmember
      · rw [filter_hides hkind hkept]
        exact hkept
  | .list items =>
    rw [merge] at h
    cases hx : valueAt? keys key (.list items) with
    | none =>
      rw [hx] at h
      exact h
    | some x =>
      rw [hx] at h
      rw [filter_hides hkind h]
      exact h
  | .null | .bool _ | .int _ | .real _ | .text _ => exact h

end kind

end ConfigValue

namespace Section

variable {name key : String} {keys : List String} {v : ConfigValue} {s : Section}

private theorem lookup_filterMap {α β : Type} (f : String → Option α) (g : String → α → β) :
    (keys.filterMap fun key => (f key).map fun v => (key, g key v)).lookup key =
      if key ∈ keys then (f key).map (g key) else none := by
  induction keys with
  | nil => rfl
  | cons first keys ih =>
    by_cases hkey : key = first
    · subst hkey
      cases hf : f key with
      | none => simp [hf, ih]
      | some v => simp [hf]
    · have hne : (key == first) = false := beq_false_of_ne hkey
      cases hf : f first with
      | none => simp [hf, ih, hkey]
      | some v => simp [hf, ih, hkey, List.lookup_cons, hne]

private theorem lookup_mapIdx {α : Type} (place : Nat → String) (values : List (String × α)) :
    ((values.mapIdx fun i (key, v) => (key, place i, v)).lookup key).map (·.2) =
      values.lookup key := by
  induction values generalizing place with
  | nil => rfl
  | cons first values ih =>
    rw [List.mapIdx_cons, List.lookup_cons, List.lookup_cons, ← ih fun i => place (i + 1)]
    cases key == first.1 <;> rfl

/-- The values of a section are what it says of its keys. -/
theorem lookup_values (h : Section.read name keys v = .ok s) (hkey : key ∈ keys) :
    (s.values.lookup key).map (·.2) = v.valueAt? keys key := by
  match v with
  | .table members =>
    cases h
    simp only [lookup_filterMap (members.lookup ·), if_pos hkey, ConfigValue.valueAt?,
      Option.map_map]
    exact Option.map_id'
  | .list items =>
    cases h
    exact lookup_mapIdx _ (keys.zip items)

section kind
variable {α : Type} {kind? : ConfigValue → Option α} {default a : α}

private theorem reads_withDefault (h : s.withDefault key kind? default = .ok a) :
    ConfigValue.Reads kind? default a ((s.values.lookup key).map (·.2)) := by
  rw [withDefault] at h
  cases hx : s.values.lookup key with
  | none =>
    rw [hx] at h
    cases h
    rfl
  | some x =>
    rw [hx] at h
    cases hkind : kind? x.2 with
    | none =>
      simp only [hkind] at h
      cases h
    | some b =>
      simp only [hkind] at h
      cases h
      exact hkind

/-- A value that must be there is of its kind, or the reading ends. -/
theorem required_eq_ok_iff : s.required key kind? = .ok a ↔
    ∃ w, (s.values.lookup key).map (·.2) = some w ∧ kind? w = some a := by
  rw [required]
  cases hx : s.values.lookup key with
  | none => exact ⟨nofun, nofun⟩
  | some x =>
    cases hkind : kind? x.2 with
    | none => simp [hkind]
    | some b => simp [hkind]

private theorem reads_required (h : s.required key kind? = .ok a) :
    ConfigValue.Reads kind? default a ((s.values.lookup key).map (·.2)) := by
  obtain ⟨w, hw, hkind⟩ := required_eq_ok_iff.mp h
  rw [hw]
  exact hkind

end kind
end Section

/-- The name of a section and its keys. -/
structure SectionForm where
  name : String
  keys : List String

namespace SectionForm

def server : SectionForm := ⟨"server", ["host", "port"]⟩

def generator : SectionForm := ⟨"generator", ["max_array_size", "optional_omit_probability"]⟩

def projects : SectionForm :=
  ⟨"projects", ["default_expiration_hours", "max_projects", "cleanup_interval_seconds", "base_url"]⟩

/-- What stands below a section of a file. -/
def below (f : SectionForm) : List (String × ConfigValue) :=
  (ConfigValue.defaults.member f.name).members

theorem member_defaults (f : SectionForm) :
    ConfigValue.defaults.member f.name = .table f.below := by
  rw [below, ConfigValue.member, ConfigValue.defaults, ConfigValue.members_table, List.lookup_cons]
  cases f.name == "server" <;> rfl

end SectionForm

/-- One of the settings: where a file gives it, the kind of its values and the one that holds where
none is given. -/
structure Setting (α : Type) where
  place : SectionForm
  key : String
  kind? : ConfigValue → Option α
  default : α
  get : Settings → α
  key_mem : key ∈ place.keys := by decide
  kind_table : ∀ members, kind? (.table members) = none := by exact fun _ => rfl
  reads_below : ∀ b, ConfigValue.Reads kind? default b (place.below.lookup key) → b = default := by
    exact fun _ h => h

namespace Setting

def host : Setting String where
  place := .server
  key := "host"
  kind? := ConfigValue.text?
  default := "127.0.0.1"
  get s := s.server.host
  reads_below _ h := (Option.some.inj h).symm

def port : Setting UInt16 where
  place := .server
  key := "port"
  kind? := ConfigValue.uint16?
  default := 3000
  get s := s.server.port
  reads_below b h := by
    have hport : ConfigValue.uint16? (.int 3000) = some 3000 := by decide
    exact Option.some.inj (h.symm.trans hport)

def maxArraySize : Setting UInt64 where
  place := .generator
  key := "max_array_size"
  kind? := ConfigValue.uint64?
  default := 3
  get s := s.generator.maxArraySize

def optionalOmitProbability : Setting Number.Binary64 where
  place := .generator
  key := "optional_omit_probability"
  kind? := ConfigValue.real?
  default := defaultOmitProbability
  get s := s.generator.optionalOmitProbability

def defaultExpirationHours : Setting UInt64 where
  place := .projects
  key := "default_expiration_hours"
  kind? := ConfigValue.uint64?
  default := 24
  get s := s.projects.defaultExpirationHours

def maxProjects : Setting UInt64 where
  place := .projects
  key := "max_projects"
  kind? := ConfigValue.uint64?
  default := 50
  get s := s.projects.maxProjects

def cleanupIntervalSeconds : Setting UInt64 where
  place := .projects
  key := "cleanup_interval_seconds"
  kind? := ConfigValue.uint64?
  default := 60
  get s := s.projects.cleanupIntervalSeconds

def baseUrl : Setting String where
  place := .projects
  key := "base_url"
  kind? := ConfigValue.text?
  default := "http://localhost:3000"
  get s := s.projects.baseUrl

variable {α : Type} {f : Setting α} {v w : ConfigValue} {s : Settings}

/-- What the top level of a file gives for a setting. -/
def value? (f : Setting α) (v : ConfigValue) : Option ConfigValue :=
  v.setting? f.place.name f.place.keys f.key

/-- Settings have the file's value, or the default. -/
def FromFile (f : Setting α) (v : ConfigValue) (s : Settings) : Prop :=
  ConfigValue.Reads f.kind? f.default (f.get s) (f.value? v)

end Setting

namespace Settings

variable {v : ConfigValue} {s : Settings}

/-- Each of the settings is the file's value, or the default. -/
structure FromFile (v : ConfigValue) (s : Settings) : Prop where
  host : Setting.host.FromFile v s
  port : Setting.port.FromFile v s
  maxArraySize : Setting.maxArraySize.FromFile v s
  optionalOmitProbability : Setting.optionalOmitProbability.FromFile v s
  defaultExpirationHours : Setting.defaultExpirationHours.FromFile v s
  maxProjects : Setting.maxProjects.FromFile v s
  cleanupIntervalSeconds : Setting.cleanupIntervalSeconds.FromFile v s
  baseUrl : Setting.baseUrl.FromFile v s

/-- A section of the file is laid over the one of the same name in the defaults. -/
theorem ofSection_table {α : Type} {name : String} {read : ConfigValue → Except LoadFault α}
    {default : α} {own : List (String × ConfigValue)} (hown : (own.map (·.1)).Nodup) :
    ofSection (ConfigValue.defaults.merge (.table own)).members name read default =
      match own.lookup name with
      | some w => read ((ConfigValue.defaults.member name).merge w)
      | none => ofSection ConfigValue.defaults.members name read default := by
  rw [ConfigValue.merge, ofSection, ConfigValue.lookup_mergeMembers hown]
  cases own.lookup name <;> rfl

private theorem ofSection_eq_ok {α : Type} {name : String} {read : ConfigValue → Except LoadFault α}
    {default a : α} (hv : v.Keyed)
    (hdefault : ∀ w, ConfigValue.defaults.members.lookup name = some w → read w = .ok default)
    (h : ofSection (ConfigValue.defaults.merge v).members name read default = .ok a) :
    v.members.lookup name = none ∧ a = default ∨
      ∃ w, v.members.lookup name = some w ∧
        read ((ConfigValue.defaults.member name).merge w) = .ok a := by
  match v with
  | .table own =>
    have hown : (own.map (·.1)).Nodup := hv.nodup
    rw [ofSection_table hown] at h
    rw [ConfigValue.members_table]
    cases hw : own.lookup name with
    | some w =>
      rw [hw] at h
      exact .inr ⟨w, rfl, h⟩
    | none =>
      simp only [hw, ofSection] at h
      split at h
      next w hd => exact .inl ⟨rfl, Except.ok.inj (h.symm.trans (hdefault w hd))⟩
      next => exact .inl ⟨rfl, (Except.ok.inj h).symm⟩
  | .null | .bool _ | .int _ | .real _ | .text _ | .list _ =>
    exact .inl ⟨rfl, (Except.ok.inj h).symm⟩

/-- A setting is read from its section, which is laid over the defaults. -/
theorem fromFile_of_ofSection {α β : Type} {f : Setting α} {default r : β}
    {read : ConfigValue → Except LoadFault β} (hv : v.Keyed)
    (hdefault : ∀ w, ConfigValue.defaults.members.lookup f.place.name = some w →
      read w = .ok default)
    (h : ofSection (ConfigValue.defaults.merge v).members f.place.name read default = .ok r)
    (hnone : r = default → f.get s = f.default)
    (hread : ∀ m, read m = .ok r → ∃ sec, Section.read f.place.name f.place.keys m = .ok sec ∧
      ConfigValue.Reads f.kind? f.default (f.get s) ((sec.values.lookup f.key).map (·.2))) :
    f.FromFile v s := by
  rw [Setting.FromFile, Setting.value?, ConfigValue.setting?]
  rcases ofSection_eq_ok hv hdefault h with ⟨hw, hr⟩ | ⟨w, hw, hr⟩
  · rw [hw]
    exact hnone hr
  · obtain ⟨sec, hsec, hreads⟩ := hread _ hr
    rw [Section.lookup_values hsec f.key_mem, f.place.member_defaults] at hreads
    rw [hw]
    exact .of_merge f.kind_table (hv.lookup hw) f.reads_below hreads

end Settings

open ConfigValue (Reads)

theorem ServerSettings.ofConfig_eq_ok {m : ConfigValue} {r : ServerSettings}
    (h : ServerSettings.ofConfig m = .ok r) :
    ∃ sec, Section.read "server" ["host", "port"] m = .ok sec ∧
      sec.required "host" ConfigValue.text? = .ok r.host ∧
      sec.required "port" ConfigValue.uint16? = .ok r.port := by
  obtain ⟨sec, hsec, h⟩ := eq_ok_of_bind h
  obtain ⟨host, hhost, h⟩ := eq_ok_of_bind h
  obtain ⟨port, hport, h⟩ := eq_ok_of_bind h
  cases h
  exact ⟨sec, hsec, hhost, hport⟩

private theorem GeneratorSettings.ofConfig_eq_ok {m : ConfigValue} {r : GeneratorSettings}
    (h : GeneratorSettings.ofConfig m = .ok r) :
    ∃ sec, Section.read "generator" ["max_array_size", "optional_omit_probability"] m = .ok sec ∧
      Reads ConfigValue.uint64? 3 r.maxArraySize ((sec.values.lookup "max_array_size").map (·.2)) ∧
      Reads ConfigValue.real? defaultOmitProbability r.optionalOmitProbability
        ((sec.values.lookup "optional_omit_probability").map (·.2)) := by
  obtain ⟨sec, hsec, h⟩ := eq_ok_of_bind h
  obtain ⟨size, hsize, h⟩ := eq_ok_of_bind h
  obtain ⟨probability, hprobability, h⟩ := eq_ok_of_bind h
  cases h
  exact ⟨sec, hsec, Section.reads_withDefault hsize, Section.reads_withDefault hprobability⟩

private theorem ProjectSettings.ofConfig_eq_ok {m : ConfigValue} {r : ProjectSettings}
    (h : ProjectSettings.ofConfig m = .ok r) :
    ∃ sec, Section.read "projects"
        ["default_expiration_hours", "max_projects", "cleanup_interval_seconds", "base_url"] m =
        .ok sec ∧
      Reads ConfigValue.uint64? 24 r.defaultExpirationHours
        ((sec.values.lookup "default_expiration_hours").map (·.2)) ∧
      Reads ConfigValue.uint64? 50 r.maxProjects ((sec.values.lookup "max_projects").map (·.2)) ∧
      Reads ConfigValue.uint64? 60 r.cleanupIntervalSeconds
        ((sec.values.lookup "cleanup_interval_seconds").map (·.2)) ∧
      Reads ConfigValue.text? "http://localhost:3000" r.baseUrl
        ((sec.values.lookup "base_url").map (·.2)) := by
  obtain ⟨sec, hsec, h⟩ := eq_ok_of_bind h
  obtain ⟨hours, hhours, h⟩ := eq_ok_of_bind h
  obtain ⟨projects, hprojects, h⟩ := eq_ok_of_bind h
  obtain ⟨interval, hinterval, h⟩ := eq_ok_of_bind h
  obtain ⟨url, hurl, h⟩ := eq_ok_of_bind h
  cases h
  exact ⟨sec, hsec, Section.reads_withDefault hhours, Section.reads_withDefault hprojects,
    Section.reads_withDefault hinterval, Section.reads_withDefault hurl⟩

namespace Settings

/-- Settings that a file gives have the file's values, and the defaults where it has none. -/
theorem fromFile_of_ofConfig {v : ConfigValue} {s : Settings} (hv : v.Keyed)
    (h : ofConfig v = .ok s) : FromFile v s := by
  obtain ⟨server, hserver, h⟩ := eq_ok_of_bind h
  obtain ⟨generator, hgenerator, h⟩ := eq_ok_of_bind h
  obtain ⟨projects, hprojects, h⟩ := eq_ok_of_bind h
  cases h
  have hserverNone (w : ConfigValue) (hw : ConfigValue.defaults.members.lookup "server" = some w) :
      ServerSettings.ofConfig w = .ok {} := by
    cases hw
    rfl
  have hnone {name : String} {β : Type} {read : ConfigValue → Except LoadFault β} {default : β}
      (hname : ConfigValue.defaults.members.lookup name = none) (w : ConfigValue)
      (hw : ConfigValue.defaults.members.lookup name = some w) : read w = .ok default := by
    rw [hname] at hw
    cases hw
  constructor
  · refine fromFile_of_ofSection hv hserverNone hserver
      (congrArg ServerSettings.host) fun m hm => ?_
    obtain ⟨sec, hsec, hhost, -⟩ := ServerSettings.ofConfig_eq_ok hm
    exact ⟨sec, hsec, Section.reads_required hhost⟩
  · refine fromFile_of_ofSection hv hserverNone hserver
      (congrArg ServerSettings.port) fun m hm => ?_
    obtain ⟨sec, hsec, -, hport⟩ := ServerSettings.ofConfig_eq_ok hm
    exact ⟨sec, hsec, Section.reads_required hport⟩
  · refine fromFile_of_ofSection hv (hnone rfl) hgenerator
      (congrArg GeneratorSettings.maxArraySize) fun m hm => ?_
    obtain ⟨sec, hsec, hsize, -⟩ := GeneratorSettings.ofConfig_eq_ok hm
    exact ⟨sec, hsec, hsize⟩
  · refine fromFile_of_ofSection hv (hnone rfl) hgenerator
      (congrArg GeneratorSettings.optionalOmitProbability) fun m hm => ?_
    obtain ⟨sec, hsec, -, hprobability⟩ := GeneratorSettings.ofConfig_eq_ok hm
    exact ⟨sec, hsec, hprobability⟩
  · refine fromFile_of_ofSection hv (hnone rfl) hprojects
      (congrArg ProjectSettings.defaultExpirationHours) fun m hm => ?_
    obtain ⟨sec, hsec, hhours, -⟩ := ProjectSettings.ofConfig_eq_ok hm
    exact ⟨sec, hsec, hhours⟩
  · refine fromFile_of_ofSection hv (hnone rfl) hprojects
      (congrArg ProjectSettings.maxProjects) fun m hm => ?_
    obtain ⟨sec, hsec, -, hmax, -⟩ := ProjectSettings.ofConfig_eq_ok hm
    exact ⟨sec, hsec, hmax⟩
  · refine fromFile_of_ofSection hv (hnone rfl) hprojects
      (congrArg ProjectSettings.cleanupIntervalSeconds) fun m hm => ?_
    obtain ⟨sec, hsec, -, -, hinterval, -⟩ := ProjectSettings.ofConfig_eq_ok hm
    exact ⟨sec, hsec, hinterval⟩
  · refine fromFile_of_ofSection hv (hnone rfl) hprojects
      (congrArg ProjectSettings.baseUrl) fun m hm => ?_
    obtain ⟨sec, hsec, -, -, -, hurl⟩ := ProjectSettings.ofConfig_eq_ok hm
    exact ⟨sec, hsec, hurl⟩

end Settings

end MockServer
