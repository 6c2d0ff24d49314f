import MockServer.Proofs.Json.Number
import MockServer.Proofs.Settings.Override

/-!
The port that a file sets. It is read as a number of 64 bits and narrowed to 16 before any rule sees
it, so an integer beyond 65535 is refused only if nothing of it is left.
-/
namespace MockServer

open Number

namespace ConfigValue

variable {p : Int} {v w : ConfigValue}

/-! Integers -/

/-- An integer in a file is kept as it is in 64 bits, and as a value with its sign beyond them. -/
theorem ofNumeral_ofInt (h : ofNumeral (.ofInt p) = .ok w) :
    (-0x8000000000000000 ≤ p ∧ p < 0x8000000000000000) ∧ w = .int p ∨
      ¬(-0x8000000000000000 ≤ p ∧ p < 0x8000000000000000) ∧
        ∃ x : Binary64, x.isNegative = decide (p < 0) ∧ w = .real x := by
  rw [ofNumeral, Json.Numeral.int64?_ofInt] at h
  by_cases hp : -0x8000000000000000 ≤ p ∧ p < 0x8000000000000000
  · rw [if_pos hp] at h
    cases h
    exact .inl ⟨hp, rfl⟩
  · rw [if_neg hp] at h
    cases hx : (Json.Numeral.ofInt p).binary64? with
    | none =>
      rw [hx] at h
      cases h
    | some x =>
      rw [hx] at h
      cases h
      exact .inr ⟨hp, x, Json.Numeral.isNegative_binary64? hx, rfl⟩

private theorem ofNumeral_ofInt_of_lt (hlow : -0x8000000000000000 ≤ p)
    (hhigh : p < 0x8000000000000000) :
    ofNumeral (.ofInt p) = .ok (.int p) := by
  rw [ofNumeral, Json.Numeral.int64?_ofInt, if_pos ⟨hlow, hhigh⟩]

def int? : ConfigValue → Option Int
  | .int n => some n
  | _ => none

private theorem eq_int_of_int? (h : w.int? = some p) : w = .int p := by
  cases w with
  | int n => exact congrArg _ (Option.some.inj h)
  | _ => cases h

/-- What is left of an integer that a file gives as a port, if it is read as a number at all. -/
def portOfInt? (p : Int) : Option UInt16 :=
  match ofNumeral (.ofInt p) with
  | .ok w => w.uint16?
  | .error _ => none

private theorem uint16?_of_ofNumeral (h : ofNumeral (.ofInt p) = .ok w) :
    w.uint16? = portOfInt? p := by
  rw [portOfInt?, h]

/-- Of an integer of 64 bits the lowest 16 are left. -/
theorem portOfInt?_of_lt (hlow : 0 ≤ p) (hhigh : p < 0x8000000000000000) :
    portOfInt? p = some (UInt16.ofNat p.toNat) := by
  rw [portOfInt?, ofNumeral_ofInt_of_lt (by omega) hhigh]
  simp only [uint16?, uint64?]
  rw [if_pos ⟨hlow, by omega⟩, Option.map_some, UInt64.toUInt16_ofNat']

/-- Of a negative integer nothing is left. -/
theorem portOfInt?_of_neg (h : p < 0) : portOfInt? p = none ∨ portOfInt? p = some 0 := by
  rw [portOfInt?]
  cases hw : ofNumeral (.ofInt p) with
  | error => exact .inl rfl
  | ok w =>
    rcases ofNumeral_ofInt hw with ⟨-, rfl⟩ | ⟨-, x, hx, rfl⟩
    · refine .inl ?_
      simp only [uint16?, uint64?]
      rw [if_neg (by omega), Option.map_none]
    · refine .inr ?_
      simp only [uint16?, uint64?]
      rw [Binary64.roundToUInt64, hx, decide_eq_true h, Bool.or_true, if_pos rfl]
      rfl

/-- What is left of an integer in the range of ports is the integer. -/
theorem toNat_of_portOfInt? {n : UInt16} (h : portOfInt? p = some n) (hzero : n ≠ 0)
    (hhigh : p ≤ 65535) : (n.toNat : Int) = p ∧ 1 ≤ p := by
  have hlow : 0 ≤ p := by
    by_contra hcon
    rcases portOfInt?_of_neg (Int.not_le.mp hcon) with hneg | hneg
    · rw [h] at hneg
      cases hneg
    · rw [h] at hneg
      exact hzero (Option.some.inj hneg)
  rw [portOfInt?_of_lt hlow (by omega)] at h
  cases h
  have hport : (UInt16.ofNat p.toNat).toNat = p.toNat :=
    UInt16.toNat_ofNat_of_lt' (by change p.toNat < 65536; omega)
  have hpos : p ≠ 0 := by
    rintro rfl
    exact hzero rfl
  omega

/-! The port of a top level -/

/-- A top level with another port. -/
def withPort (v port : ConfigValue) : ConfigValue :=
  setAt port (match v.member "server" with
    | .list _ => [.name "server", .place 1]
    | _ => [.name "server", .name "port"]) v

/-- Two sections that differ in the port only. -/
structure PortsOf (m m' w w' : ConfigValue) : Prop where
  form : ∃ s, Section.read "server" ["host", "port"] m = .ok s
  host : m.valueAt? ["host", "port"] "host" = m'.valueAt? ["host", "port"] "host"
  port : m.valueAt? ["host", "port"] "port" = some w
  port' : m'.valueAt? ["host", "port"] "port" = some w'

private theorem portsOf_table {inner : List (String × ConfigValue)}
    (hinner : (inner.map (·.1)).Nodup)
    (hport : inner.lookup "port" = some w) (hw : ∀ below : ConfigValue, below.merge w = w) :
    PortsOf ((defaults.member "server").merge (.table inner))
      ((defaults.member "server").merge (.table (put "port" (.int 1) inner))) w (.int 1) := by
  have hbelow : defaults.member "server" = .table SectionForm.server.below :=
    SectionForm.member_defaults .server
  rw [hbelow]
  obtain ⟨both, hboth⟩ := isTable_mergeMembers SectionForm.server.below inner
  constructor
  · rw [merge, hboth]
    exact ⟨_, rfl⟩
  · rw [valueAt?_merge_table hinner, valueAt?_merge_table (nodup_put hinner),
      lookup_put_of_ne (by decide)]
  · rw [valueAt?_merge_table hinner, hport]
    exact congrArg some (hw _)
  · rw [valueAt?_merge_table (nodup_put hinner), lookup_put_self]
    rfl

private theorem changeItem_one (first second : ConfigValue) (rest : List ConfigValue)
    (change : ConfigValue → ConfigValue) :
    changeItem (first :: second :: rest) 1 change = first :: change second :: rest := by
  have hfull : 1 + 1 - (first :: second :: rest).length = 0 := Nat.sub_eq_zero_of_le (by simp)
  change ((first :: second :: rest) ++ List.replicate (1 + 1 - _) null).modify 1 change = _
  rw [hfull, List.replicate_zero, List.append_nil]
  rfl

/-- The server section of a top level that sets a port, and the same with another port. -/
theorem exists_server (hv : v.Keyed) (hw : ∀ below : ConfigValue, below.merge w = w)
    (h : Setting.port.value? v = some w) :
    ∃ own server server', v = .table own ∧ own.lookup "server" = some server ∧
      v.withPort (.int 1) = .table (put "server" server' own) ∧
      PortsOf ((defaults.member "server").merge server) ((defaults.member "server").merge server')
        w (.int 1) := by
  rw [Setting.value?, setting?, Option.filter_eq_some_iff] at h
  obtain ⟨server, hserver, hentry⟩ := Option.bind_eq_some_iff.mp h.1
  cases v with
  | table own =>
    have hmember : (table own).member "server" = server := by
      rw [member]
      exact congrArg (Option.getD · (.table [])) hserver
    cases server with
    | table inner =>
      refine ⟨own, .table inner, .table (put "port" (.int 1) inner), rfl, hserver, ?_, ?_⟩
      · rw [withPort, hmember]
        simp only [setAt, hmember]
        rfl
      · exact portsOf_table (hv.lookup hserver).nodup hentry hw
    | list items =>
      rcases items with _ | ⟨first, _ | ⟨second, rest⟩⟩
      · cases hentry
      · cases hentry
      · refine ⟨own, .list (first :: second :: rest), .list (first :: .int 1 :: rest), rfl, hserver,
          ?_, ⟨_, rfl⟩, rfl, hentry, rfl⟩
        rw [withPort, hmember]
        simp only [setAt, hmember, items, changeItem_one]
        rfl
    | _ => cases hentry
  | _ => cases hserver

end ConfigValue

open ConfigValue (portOfInt?)

/-! Loading -/

/-- A section with a port of one is a section with what is left of the other port, if that is read
as a number. -/
theorem ServerSettings.ofConfig_of_portsOf {m m' w : ConfigValue} {r : ServerSettings}
    (h : ConfigValue.PortsOf m m' w (.int 1)) (hr : ServerSettings.ofConfig m' = .ok r) :
    r.port = 1 ∧
      (∀ n, w.uint16? = some n → ServerSettings.ofConfig m = .ok { r with port := n }) ∧
      (w.uint16? = none → ∀ t, ServerSettings.ofConfig m ≠ .ok t) := by
  obtain ⟨sec', hsec', hhost', hport'⟩ := ServerSettings.ofConfig_eq_ok hr
  obtain ⟨host, hhost', hkind⟩ := Section.required_eq_ok_iff.mp hhost'
  obtain ⟨one, hone, hport'⟩ := Section.required_eq_ok_iff.mp hport'
  rw [Section.lookup_values hsec' (by decide)] at hhost' hone
  rw [h.port'] at hone
  cases hone
  refine ⟨(Option.some.inj hport').symm, fun n hn => ?_, fun hn t ht => ?_⟩
  · obtain ⟨sec, hsec⟩ := h.form
    have hhost : sec.required "host" ConfigValue.text? = .ok r.host :=
      Section.required_eq_ok_iff.mpr
        ⟨host, by rw [Section.lookup_values hsec (by decide), h.host, hhost'], hkind⟩
    have hport : sec.required "port" ConfigValue.uint16? = .ok n :=
      Section.required_eq_ok_iff.mpr ⟨w, by rw [Section.lookup_values hsec (by decide), h.port], hn⟩
    rw [ServerSettings.ofConfig, hsec]
    simp only [bind, Except.bind, hhost, hport]
    rfl
  · obtain ⟨sec, hsec, -, hport⟩ := ServerSettings.ofConfig_eq_ok ht
    obtain ⟨port, hvalue, hkind⟩ := Section.required_eq_ok_iff.mp hport
    rw [Section.lookup_values hsec (by decide), h.port] at hvalue
    cases hvalue
    rw [hn] at hkind
    cases hkind

namespace Settings

variable {v w : ConfigValue} {c : CommandLine} {s : Settings} {p : Int}

/-- Settings with another port. -/
def withPort (s : Settings) (port : UInt16) : Settings :=
  { s with server := { s.server with port } }

private theorem ofConfig_port (hv : v.Keyed) (hw : ∀ below : ConfigValue, below.merge w = w)
    (hset : Setting.port.value? v = some w) (h : ofConfig (v.withPort (.int 1)) = .ok s) :
    s.server.port = 1 ∧ (∀ n, w.uint16? = some n → ofConfig v = .ok (s.withPort n)) ∧
      (w.uint16? = none → ∀ t, ofConfig v ≠ .ok t) := by
  obtain ⟨own, server, server', rfl, hserver, hone, hports⟩ := ConfigValue.exists_server hv hw hset
  rw [hone] at h
  have hown : (own.map (·.1)).Nodup := hv.nodup
  have hown' : ((ConfigValue.put "server" server' own).map (·.1)).Nodup :=
    ConfigValue.nodup_put hown
  obtain ⟨r, hr, h⟩ := eq_ok_of_bind h
  obtain ⟨generator, hgenerator, h⟩ := eq_ok_of_bind h
  obtain ⟨projects, hprojects, h⟩ := eq_ok_of_bind h
  cases h
  rw [ofSection_table hown', ConfigValue.lookup_put_self] at hr
  rw [ofSection_table hown', ConfigValue.lookup_put_of_ne (by decide), ← ofSection_table hown]
    at hgenerator hprojects
  obtain ⟨hport, hread, hfault⟩ := ServerSettings.ofConfig_of_portsOf hports hr
  have hsection : ofSection (ConfigValue.defaults.merge (.table own)).members "server"
      ServerSettings.ofConfig {} =
        ServerSettings.ofConfig ((ConfigValue.defaults.member "server").merge server) := by
    rw [ofSection_table hown, hserver]
  refine ⟨hport, fun n hn => ?_, fun hn t ht => ?_⟩
  · rw [ofConfig]
    simp only [bind, Except.bind, hsection, hread n hn, hgenerator, hprojects]
    rfl
  · obtain ⟨r', hr', -⟩ := eq_ok_of_bind ht
    exact hfault hn r' (hsection.symm.trans hr')

private theorem withPort_override (hc : c.port = none) (t : Settings) (n : UInt16) :
    (t.withPort n).override c = (t.override c).withPort n := by
  simp only [override, withPort, hc, Option.getD_none]

/-- The rule that a port of zero breaks. -/
def portZero : Violation := .invalid "server.port" "Port must be greater than 0"

private theorem violations_withPort (h : s.MeetsRules) (n : UInt16) :
    (s.withPort n).violations = Violation.when (n == 0) portZero := by
  have hnone := violations_eq_nil_iff.mpr h
  simp only [violations, List.append_eq_nil_iff] at hnone
  obtain ⟨⟨⟨⟨⟨⟨⟨hhost, -⟩, hsize⟩, hprobability⟩, hhours⟩, hprojects⟩, hinterval⟩, hurl⟩ := hnone
  simp only [violations, withPort, hhost, hsize, hprobability, hhours, hprojects, hinterval, hurl,
    List.nil_append, List.append_nil]
  rfl

private theorem checked_withPort (h : s.MeetsRules) (n : UInt16) : (s.withPort n).checked =
    if n = 0 then .error (.invalid [portZero]) else .ok (s.withPort n) := by
  rw [checked, violations_withPort h]
  by_cases hn : n = 0
  · rw [if_pos hn, hn]
    rfl
  · rw [if_neg hn, beq_false_of_ne hn]
    rfl

/-- What comes of a file that is valid but for its port, in terms of what is left of the port. -/
theorem load_port (hv : v.Keyed) (hw : ∀ below : ConfigValue, below.merge w = w)
    (hset : Setting.port.value? v = some w) (hc : c.port = none)
    (h : load (v.withPort (.int 1)) c = .ok s) :
    (∀ n, w.uint16? = some n →
      load v c = if n = 0 then .error (.invalid [portZero]) else .ok (s.withPort n)) ∧
    (w.uint16? = none → ∀ t, load v c ≠ .ok t) := by
  obtain ⟨t, ht, h⟩ := eq_ok_of_bind h
  have hmeets : (t.override c).MeetsRules := by
    by_contra hcon
    rw [checked_of_not_meetsRules hcon] at h
    cases h
  rw [checked_of_meetsRules hmeets] at h
  cases h
  obtain ⟨-, hread, hfault⟩ := ofConfig_port hv hw hset ht
  refine ⟨fun n hn => ?_, fun hn t' ht' => ?_⟩
  · rw [load_eq (hread n hn), withPort_override hc, checked_withPort hmeets]
  · obtain ⟨r, hr, -⟩ := eq_ok_of_bind ht'
    exact hfault hn r hr

/-- A port is used as it is, and only from its range, or nothing is loaded. -/
def PortKept (p : Int) (outcome : Except LoadFault Settings) : Prop :=
  ∀ s, outcome = .ok s → (s.server.port.toNat : Int) = p ∧ 1 ≤ p ∧ p ≤ 65535

section text
variable {format : FileFormat} {text : List Char}

/-- A file that is valid but for the integer it sets as a port, in terms of what is left of it. -/
theorem load_portOfInt (hc : c.port = none) (hread : ConfigValue.ofText format text = .ok v)
    (hset : ∃ w, ConfigValue.ofNumeral (.ofInt p) = .ok w ∧ Setting.port.value? v = some w)
    (hs : load (v.withPort (.int 1)) c = .ok s) :
    (∀ n, portOfInt? p = some n →
      load v c = if n = 0 then .error (.invalid [portZero]) else .ok (s.withPort n)) ∧
    (portOfInt? p = none → ∀ t, load v c ≠ .ok t) := by
  obtain ⟨w, hw, hvalue⟩ := hset
  rw [← ConfigValue.uint16?_of_ofNumeral hw]
  refine load_port (ConfigValue.IsTopLevel.read hread).keyed ?_ hvalue hc hs
  rcases ConfigValue.ofNumeral_ofInt hw with ⟨-, rfl⟩ | ⟨-, x, -, rfl⟩ <;> exact fun _ => rfl

/-- The port of a file of any format that is valid otherwise is kept or refused, unless it is above
its range and something of it is left in 16 bits: then what is left is the port. -/
theorem portKept_iff (hc : c.port = none)
    (hset : ∀ v, ConfigValue.ofText format text = .ok v →
      ∃ w, ConfigValue.ofNumeral (.ofInt p) = .ok w ∧ Setting.port.value? v = some w)
    (hvalid : ∀ v, ConfigValue.ofText format text = .ok v →
      ∃ s, load (v.withPort (.int 1)) c = .ok s) :
    let outcome := (ConfigValue.ofText format text).bind (load · c)
    (PortKept p outcome ↔
      ¬(65535 < p ∧ (∃ v, ConfigValue.ofText format text = .ok v) ∧
        ∃ n, n ≠ 0 ∧ portOfInt? p = some n)) ∧
    (∀ v s n, ConfigValue.ofText format text = .ok v → load (v.withPort (.int 1)) c = .ok s →
      portOfInt? p = some n →
      outcome = if n = 0 then .error (.invalid [portZero]) else .ok (s.withPort n)) ∧
    (portOfInt? p = none → ∀ s, outcome ≠ .ok s) ∧
    (0 ≤ p → p < 0x8000000000000000 → portOfInt? p = some (UInt16.ofNat p.toNat)) := by
  intro outcome
  have houtcome {v : ConfigValue} (hread : ConfigValue.ofText format text = .ok v) :
      outcome = load v c := congrArg (Except.bind · (load · c)) hread
  have hexact (v s n) (hread : ConfigValue.ofText format text = .ok v)
      (hs : load (v.withPort (.int 1)) c = .ok s) (hn : portOfInt? p = some n) :
      outcome = if n = 0 then .error (.invalid [portZero]) else .ok (s.withPort n) :=
    (houtcome hread).trans ((load_portOfInt hc hread (hset v hread) hs).1 n hn)
  have hfault (hnone : portOfInt? p = none) (t : Settings) : outcome ≠ .ok t := by
    intro ht
    obtain ⟨v, hread, -⟩ := eq_ok_of_bind ht
    obtain ⟨s, hs⟩ := hvalid v hread
    exact (load_portOfInt hc hread (hset v hread) hs).2 hnone t ((houtcome hread).symm.trans ht)
  refine ⟨⟨fun hkept => ?_, fun hleft t ht => ?_⟩, hexact, hfault, ConfigValue.portOfInt?_of_lt⟩
  · rintro ⟨hp, ⟨v, hread⟩, n, hzero, hn⟩
    obtain ⟨s, hs⟩ := hvalid v hread
    have hloaded := hexact v s n hread hs hn
    rw [if_neg hzero] at hloaded
    exact absurd (hkept _ hloaded).2.2 (by omega)
  · obtain ⟨v, hread, -⟩ := eq_ok_of_bind ht
    obtain ⟨s, hs⟩ := hvalid v hread
    cases hn : portOfInt? p with
    | none => exact absurd ht (hfault hn t)
    | some n =>
      have hloaded := (hexact v s n hread hs hn).symm.trans ht
      split at hloaded
      next => cases hloaded
      next hzero =>
        cases hloaded
        have hhigh : p ≤ 65535 := by
          by_contra hcon
          exact hleft ⟨by omega, ⟨v, hread⟩, n, hzero, hn⟩
        obtain ⟨hport, hlow⟩ := ConfigValue.toNat_of_portOfInt? hn hzero hhigh
        exact ⟨hport, hlow, hhigh⟩

end text

/-- A file that sets the port 65537 gives the port 1. -/
theorem port_65537_left :
    let outcome := (ConfigValue.ofText .toml "[server]\nport = 65537\n".toList).bind (load · {})
    ¬PortKept 65537 outcome ∧ outcome = .ok (({} : Settings).withPort 1) := by
  intro outcome
  obtain ⟨v, hv, htest⟩ : ∃ v,
      (ConfigValue.ofText .toml "[server]\nport = 65537\n".toList).toOption = some v ∧
        decide ((Setting.port.value? v).bind ConfigValue.int? = some 65537 ∧
          (load (v.withPort (.int 1)) {}).toOption = some (({} : Settings).withPort 1)) = true :=
    (Option.any_eq_true _ _).mp (by decide +kernel)
  obtain ⟨hport, hloads⟩ := of_decide_eq_true htest
  obtain ⟨w, hw, hint⟩ := Option.bind_eq_some_iff.mp hport
  have hread := eq_ok_of_toOption hv
  have hset (u : ConfigValue)
      (hu : ConfigValue.ofText .toml "[server]\nport = 65537\n".toList = .ok u) :
      ∃ w, ConfigValue.ofNumeral (.ofInt 65537) = .ok w ∧ Setting.port.value? u = some w := by
    cases hread.symm.trans hu
    have hnumeral := ConfigValue.ofNumeral_ofInt_of_lt (p := 65537) (by decide) (by decide)
    exact ⟨_, hnumeral, ConfigValue.eq_int_of_int? hint ▸ hw⟩
  have hvalid (u : ConfigValue)
      (hu : ConfigValue.ofText .toml "[server]\nport = 65537\n".toList = .ok u) :
      ∃ s, load (u.withPort (.int 1)) {} = .ok s := by
    cases hread.symm.trans hu
    exact ⟨_, eq_ok_of_toOption hloads⟩
  have hleft : portOfInt? 65537 = some 1 := ConfigValue.portOfInt?_of_lt (by decide) (by decide)
  obtain ⟨hkept, hexact, -, -⟩ := portKept_iff rfl hset hvalid
  refine ⟨fun h => hkept.mp h ⟨by decide, ⟨v, hread⟩, 1, by decide, hleft⟩, ?_⟩
  exact hexact _ _ _ hread (eq_ok_of_toOption hloads) hleft

end Settings

end MockServer
