import MockServer.Proofs.Outcome
import MockServer.Settings.CommandLine

/-!
What the arguments spell: options with one value each. The command line that is read has exactly
these values, and those of the environment for the options that the arguments leave out.
-/
namespace MockServer.CommandLine

/-- A text that can stand as the value of an option before it. -/
def IsValue (v : String) : Prop := v.toList.head? ≠ some '-' ∨ v = "-"

private theorem isValue_of_toList {v : String}
    (h : ∀ letter rest, v.toList = '-' :: letter :: rest → False) : IsValue v := by
  cases hv : v.toList with
  | nil => exact .inl (hv ▸ nofun)
  | cons c rest =>
    by_cases hc : c = '-'
    · subst hc
      cases rest with
      | nil => exact .inr (String.ext hv)
      | cons letter rest => exact (h letter rest hv).elim
    · exact .inl (by simp [hv, hc])

/-- The argument that an option starts with; the value may stand in it. -/
inductive Starts : String → Name → Option String → Prop
  | long (name : Name) : Starts ("--" ++ name.long) name none
  | longEquals (name : Name) (v : String) : Starts ("--" ++ name.long ++ "=" ++ v) name (some v)
  | short : Starts "-c" .config none
  | shortEquals (v : String) : Starts ("-c=" ++ v) .config (some v)
  | shortAttached (v : String) (h : v ≠ "") (hequals : v.toList.head? ≠ some '=') :
    Starts ("-c" ++ v) .config (some v)

/-- The options that arguments give, with their values. -/
inductive Spells : List String → List (Name × String) → Prop
  | nil : Spells [] []
  | stop : Spells ["--"] []
  | attached {argument : String} {name : Name} {v : String} {rest : List String}
      {given : List (Name × String)} (hstarts : Starts argument name (some v))
      (hrest : Spells rest given) : Spells (argument :: rest) ((name, v) :: given)
  | separate {argument : String} {name : Name} {v : String} {rest : List String}
      {given : List (Name × String)} (hstarts : Starts argument name none) (hv : IsValue v)
      (hrest : Spells rest given) : Spells (argument :: v :: rest) ((name, v) :: given)

namespace Scan

variable {s s' : Scan} {name : Name} {argument : String} {arguments : List String}

/-! One argument -/

private theorem long_of_ofLong? {text : String} (h : Name.ofLong? text = some name) :
    text = name.long := by
  have hfound := List.find?_some h
  exact (beq_iff_eq.mp hfound).symm

private theorem flag_ne_ok {f : Fault} : s.flag f ≠ .ok s' := by
  rw [flag]
  cases s.settle <;> nofun

private theorem starts_of_longArgument {text : List Char} (h : s.longArgument text = .ok s')
    (htext : argument.toList = '-' :: '-' :: text) :
    ∃ name attached, Starts argument name attached ∧ s.start name attached = .ok s' := by
  have hparts : text.takeWhile (· != '=') ++ text.dropWhile (· != '=') = text :=
    List.takeWhile_append_dropWhile
  simp only [longArgument] at h
  split at h
  next name hname =>
    have hlong := congrArg String.toList (long_of_ofLong? hname)
    rw [String.toList_ofList] at hlong
    rw [hlong] at hparts
    refine ⟨name, _, ?_, h⟩
    cases hattached : text.dropWhile (· != '=') with
    | nil =>
      rw [hattached, List.append_nil] at hparts
      have hargument : argument = "--" ++ name.long := String.ext (by simp [htext, hparts])
      exact hargument ▸ .long name
    | cons c v =>
      have hequals : c = '=' := by
        have hhead := List.head?_dropWhile_not (· != '=') text
        rw [hattached] at hhead
        simpa using hhead
      subst hequals
      rw [hattached] at hparts
      have hargument : argument = "--" ++ name.long ++ "=" ++ String.ofList v :=
        String.ext (by simp [htext, ← hparts])
      exact hargument ▸ .longEquals name (String.ofList v)
  next =>
    split at h
    · cases h
    · exact absurd h flag_ne_ok
  next =>
    split at h
    · cases h
    · exact absurd h flag_ne_ok
  next => cases h

private theorem starts_of_shortArgument {letter : Char} {rest : List Char}
    (h : s.shortArgument letter rest = .ok s') (htext : argument.toList = '-' :: letter :: rest) :
    ∃ name attached, Starts argument name attached ∧ s.start name attached = .ok s' := by
  rw [shortArgument.eq_def] at h
  split at h
  next =>
    have hargument : argument = "-c" := String.ext htext
    exact ⟨_, _, hargument ▸ .short, h⟩
  next v =>
    have hargument : argument = "-c=" ++ String.ofList v := String.ext (by simp [htext])
    exact ⟨_, _, hargument ▸ .shortEquals (String.ofList v), h⟩
  next hnil hequals =>
    have hargument : argument = "-c" ++ String.ofList rest := String.ext (by simp [htext])
    refine ⟨_, _, hargument ▸ .shortAttached (String.ofList rest) (fun hempty => ?_) ?_, h⟩
    · exact hnil (String.ofList_injective hempty)
    · cases rest with
      | nil => nofun
      | cons c v =>
        rw [String.toList_ofList, List.head?_cons]
        rintro ⟨⟩
        exact hequals v rfl
  next => exact absurd h flag_ne_ok
  next => exact absurd h flag_ne_ok
  next => cases h

private theorem step_cases (h : s.step argument = .ok s') :
    s.positionalOnly = false ∧
      (argument = "--" ∧ s' = { s with positionalOnly := true } ∨
        (∃ name attached, Starts argument name attached ∧ s.start name attached = .ok s') ∨
        IsValue argument ∧ ∃ name, s.pending = some (name, none) ∧
          s' = { s with pending := some (name, some argument) }) := by
  rw [step] at h
  split at h
  next => cases h
  next hpositional =>
    refine ⟨(Bool.not_eq_true _).mp hpositional, ?_⟩
    split at h
    next htext => exact .inl ⟨String.ext htext, (Except.ok.inj h).symm⟩
    next text _ htext => exact .inr (.inl (starts_of_longArgument h htext))
    next letter rest _ htext => exact .inr (.inl (starts_of_shortArgument h htext))
    next _ _ hhyphens hshort =>
      refine .inr (.inr ⟨?_, ?_⟩)
      · exact isValue_of_toList hshort
      · split at h
        next name hpending => exact ⟨name, hpending, (Except.ok.inj h).symm⟩
        next => cases h

/-! All arguments -/

/-- A scan with nothing but what is settled. -/
def settled (s : Scan) : Scan where
  line := s.line
  given := s.given

/-- Options with their values, one after the other. -/
def acceptAll (s : Scan) (given : List (Name × String)) : Except Fault Scan :=
  given.foldlM (fun s (name, v) => s.accept name v) s

private theorem acceptAll_cons {v : String} {given : List (Name × String)} :
    s.acceptAll ((name, v) :: given) = s.accept name v >>= (acceptAll · given) := List.foldlM_cons

private theorem acceptAll_append {first given : List (Name × String)} :
    s.acceptAll (first ++ given) = s.acceptAll first >>= (acceptAll · given) := List.foldlM_append

private theorem accept_eq_ok {v : String} (h : s.accept name v = .ok s') :
    name ∉ s.given ∧ ∃ line, s.line.set name v = .ok line ∧
      s' = { s with line, given := name :: s.given } := by
  rw [accept] at h
  split at h
  next => cases h
  next hname =>
    cases hline : s.line.set name v with
    | error f => simp [hline, Except.map] at h
    | ok line =>
      rw [hline] at h
      exact ⟨hname, line, rfl, (Except.ok.inj h).symm⟩

private theorem accept_settled {v : String} (h : s.accept name v = .ok s') :
    s.settled.accept name v = .ok s'.settled := by
  obtain ⟨hname, line, hline, rfl⟩ := accept_eq_ok h
  have hname' : name ∉ s.settled.given := hname
  have hline' : s.settled.line.set name v = .ok line := hline
  rw [accept, if_neg hname', hline']
  rfl

/-- Arguments after a pending option, and the options that they and the pending one give. -/
inductive Resumes : Option (Name × Option String) → List String → List (Name × String) → Prop
  | free {arguments : List String} {given : List (Name × String)}
      (h : Spells arguments given) : Resumes none arguments given
  | judged {name : Name} {v : String} {arguments : List String} {given : List (Name × String)}
      (h : Spells arguments given) : Resumes (some (name, some v)) arguments ((name, v) :: given)
  | waiting {name : Name} {v : String} {arguments : List String} {given : List (Name × String)}
      (hv : IsValue v) (h : Spells arguments given) :
    Resumes (some (name, none)) (v :: arguments) ((name, v) :: given)

private theorem settle_cases (h : s.settle = .ok s') :
    s'.pending = none ∧ s'.positionalOnly = s.positionalOnly ∧
      ∃ first, s.settled.acceptAll first = .ok s'.settled ∧ ∀ {arguments given},
        Spells arguments given → Resumes s.pending arguments (first ++ given) := by
  rw [settle] at h
  split at h
  next hpending =>
    cases h
    exact ⟨hpending, rfl, [], rfl, fun hspells => hpending ▸ .free hspells⟩
  next => cases h
  next name v hpending =>
    have hsettled := accept_settled h
    obtain ⟨-, line, -, rfl⟩ := accept_eq_ok h
    refine ⟨rfl, rfl, [(name, v)], ?_, fun hspells => hpending ▸ .judged hspells⟩
    rw [acceptAll_cons]
    exact congrArg (· >>= (acceptAll · [])) hsettled

/-- Arguments that are read to their end spell the options that are accepted. -/
theorem resumes_of_foldlM (hpositional : s.positionalOnly = false)
    (h : (arguments.foldlM step s >>= settle) = .ok s') :
    ∃ given, Resumes s.pending arguments given ∧ s.settled.acceptAll given = .ok s'.settled := by
  induction arguments generalizing s with
  | nil =>
    obtain ⟨-, -, first, hfirst, hresumes⟩ := settle_cases h
    exact ⟨first ++ [], hresumes .nil, by rwa [List.append_nil]⟩
  | cons argument arguments ih =>
    rw [List.foldlM_cons, bind_assoc] at h
    obtain ⟨s₁, hstep, h⟩ := eq_ok_of_bind h
    obtain ⟨-, ⟨rfl, rfl⟩ | ⟨name, attached, hstarts, hstart⟩ | ⟨hv, name, hpending, rfl⟩⟩ :=
      step_cases hstep
    · -- Nothing can follow two hyphens.
      cases arguments with
      | nil =>
        obtain ⟨-, -, first, hfirst, hresumes⟩ := settle_cases h
        exact ⟨first ++ [], hresumes .stop, by rwa [List.append_nil]⟩
      | cons next arguments =>
        rw [List.foldlM_cons, bind_assoc] at h
        obtain ⟨s₁, hnext, -⟩ := eq_ok_of_bind h
        cases (step_cases hnext).1
    · obtain ⟨s₂, hsettle, hstart⟩ := eq_ok_of_bind hstart
      obtain ⟨hpending, hpositional₂, first, hfirst, hresumes⟩ := settle_cases hsettle
      rw [hpositional] at hpositional₂
      cases attached with
      | none =>
        cases hstart
        obtain ⟨given, hgiven, haccept⟩ := ih (s := { s₂ with pending := some (name, none) })
          hpositional₂ h
        obtain ⟨⟩ | ⟨⟩ | ⟨hv, hspells⟩ := hgiven
        refine ⟨first ++ _, hresumes (.separate hstarts hv hspells), ?_⟩
        rw [acceptAll_append, hfirst]
        exact haccept
      | some v =>
        have hsettled := accept_settled hstart
        obtain ⟨-, line, -, hs₁⟩ := accept_eq_ok hstart
        have hpending₁ : s₁.pending = none := hs₁ ▸ hpending
        obtain ⟨given, hgiven, haccept⟩ := ih (hs₁ ▸ hpositional₂) h
        rw [hpending₁] at hgiven
        obtain ⟨hspells⟩ := hgiven
        refine ⟨first ++ _, hresumes (.attached hstarts hspells), ?_⟩
        rw [acceptAll_append, hfirst]
        change s₂.settled.acceptAll _ = _
        rw [acceptAll_cons, hsettled]
        exact haccept
    · obtain ⟨given, hgiven, haccept⟩ := ih (s := { s with pending := some (name, some argument) })
        hpositional h
      obtain ⟨⟩ | ⟨hspells⟩ | ⟨⟩ := hgiven
      exact ⟨_, hpending ▸ .waiting hv hspells, haccept⟩

end Scan

/-! The values -/

/-- A command line has the values that are given as texts, and no others. -/
structure Holds (c : CommandLine) (value : Name → Option String) : Prop where
  config : c.config = (value .config).getD "dupi.toml"
  host : c.host = value .host
  port : c.port.map some = (value .port).map port?
  baseUrl : c.baseUrl = value .baseUrl
  maxArraySize : c.maxArraySize.map some = (value .maxArraySize).map (Number.uint64? ·.toList)

private theorem Holds.set {c c' : CommandLine} {value : Name → Option String} {name : Name}
    {v : String}
    (h : c.Holds value) (hset : c.set name v = .ok c') :
    c'.Holds fun n => if n = name then some v else value n := by
  cases name with
  | config =>
    rw [CommandLine.set] at hset
    split at hset
    · cases hset
    · cases hset
      exact ⟨rfl, h.host, h.port, h.baseUrl, h.maxArraySize⟩
  | host =>
    cases hset
    exact ⟨h.config, rfl, h.port, h.baseUrl, h.maxArraySize⟩
  | port =>
    simp only [CommandLine.set] at hset
    split at hset
    next n hn =>
      cases hset
      exact ⟨h.config, h.host, congrArg some hn.symm, h.baseUrl, h.maxArraySize⟩
    next => cases hset
  | baseUrl =>
    cases hset
    exact ⟨h.config, h.host, h.port, rfl, h.maxArraySize⟩
  | maxArraySize =>
    simp only [CommandLine.set] at hset
    split at hset
    next n hn =>
      cases hset
      exact ⟨h.config, h.host, h.port, h.baseUrl, congrArg some hn.symm⟩
    next => cases hset

namespace Scan

variable {s s' : Scan} {value : Name → Option String} {name : Name} {v : String}

/-- A scan has the values of the options that are given in it. -/
structure Has (s : Scan) (value : Name → Option String) : Prop where
  given : ∀ n, n ∈ s.given ↔ (value n).isSome
  line : s.line.Holds value

private theorem Has.congr {value' : Name → Option String} (h : s.Has value)
    (hvalue : ∀ n, value' n = value n) : s.Has value' := funext hvalue ▸ h

private theorem Has.accept (h : s.Has value) (haccept : s.accept name v = .ok s') :
    value name = none ∧ s'.Has fun n => if n = name then some v else value n := by
  obtain ⟨hname, line, hline, rfl⟩ := accept_eq_ok haccept
  refine ⟨by simpa [h.given] using hname, fun n => ?_, h.line.set hline⟩
  by_cases hn : n = name
  · simp [hn]
  · simp [hn, h.given]

private theorem Has.acceptAll {given : List (Name × String)} (h : s.Has value)
    (haccept : s.acceptAll given = .ok s') :
    (given.map (·.1)).Nodup ∧ (∀ n ∈ given.map (·.1), value n = none) ∧
      s'.Has fun n => (value n).or (given.lookup n) := by
  induction given generalizing s value with
  | nil =>
    cases haccept
    refine ⟨List.nodup_nil, nofun, ?_⟩
    simpa only [List.lookup_nil, Option.or_none] using h
  | cons first given ih =>
    obtain ⟨name, v⟩ := first
    rw [acceptAll_cons] at haccept
    obtain ⟨s₁, hfirst, haccept⟩ := eq_ok_of_bind haccept
    obtain ⟨hname, hs₁⟩ := h.accept hfirst
    obtain ⟨hnodup, hnone, hs'⟩ := ih hs₁ haccept
    have hnone' {n : Name} (hn : n ∈ given.map (·.1)) : n ≠ name ∧ value n = none := by
      have hupdated := hnone n hn
      split at hupdated
      next => cases hupdated
      next hne => exact ⟨hne, hupdated⟩
    refine ⟨List.nodup_cons.mpr ⟨fun hn => (hnone' hn).1 rfl, hnodup⟩, fun n hn => ?_, ?_⟩
    · rcases List.mem_cons.mp hn with rfl | hn
      · exact hname
      · exact (hnone' hn).2
    · refine hs'.congr fun n => ?_
      by_cases hn : n = name
      · rw [if_pos hn, hn, hname, List.lookup_cons_self, Option.none_or, Option.some_or]
      · rw [if_neg hn, List.lookup_cons, beq_false_of_ne hn]

/-- The environment counts for an option that is not given. -/
theorem Has.fromEnvironment {environment : List (String × String)} (h : s.Has value)
    (hread : s.fromEnvironment environment name = .ok s') :
    s'.Has fun n =>
      (value n).or (if n = name then environment.lookup n.environmentKey else none) := by
  rw [Scan.fromEnvironment] at hread
  split at hread
  next hgiven =>
    cases hread
    obtain ⟨v, hv⟩ := Option.isSome_iff_exists.mp ((h.given name).mp hgiven)
    refine h.congr fun n => ?_
    by_cases hn : n = name
    · rw [hn, hv, Option.some_or]
    · rw [if_neg hn, Option.or_none]
  next hgiven =>
    have hname : value name = none := by simpa [h.given] using hgiven
    split at hread
    next v hv =>
      obtain ⟨-, hs'⟩ := h.accept hread
      refine hs'.congr fun n => ?_
      by_cases hn : n = name
      · rw [if_pos hn, if_pos hn, hn, hname, hv, Option.none_or]
      · rw [if_neg hn, if_neg hn, Option.or_none]
    next hv =>
      cases hread
      refine h.congr fun n => ?_
      by_cases hn : n = name
      · rw [if_pos hn, hn, hv, Option.or_none]
      · rw [if_neg hn, Option.or_none]

private theorem Has.foldlM_fromEnvironment {environment : List (String × String)}
    {names : List Name}
    (h : s.Has value) (hread : names.foldlM (Scan.fromEnvironment environment) s = .ok s') :
    s'.Has fun n =>
      (value n).or (if n ∈ names then environment.lookup n.environmentKey else none) := by
  induction names generalizing s value with
  | nil =>
    cases hread
    exact h.congr fun n => Option.or_none
  | cons name names ih =>
    rw [List.foldlM_cons] at hread
    obtain ⟨s₁, hname, hread⟩ := eq_ok_of_bind hread
    refine (ih (h.fromEnvironment hname) hread).congr fun n => ?_
    rw [Option.or_assoc]
    by_cases hn : n = name
    · simp only [hn, List.mem_cons_self, if_true]
      split
      · rw [Option.or_self]
      · rw [Option.or_none]
    · simp only [hn, List.mem_cons, false_or, if_false, Option.none_or]

end Scan

/-- The values of a command line are those that the arguments spell, or else those of the
environment. -/
theorem read_eq_ok {arguments : List String} {environment : List (String × String)}
    {c : CommandLine} (h : read arguments environment = .ok c) :
    ∃ given, Spells arguments given ∧ (given.map (·.1)).Nodup ∧
      c.Holds fun name => (given.lookup name).or (environment.lookup name.environmentKey) := by
  obtain ⟨s, harguments, h⟩ := eq_ok_of_bind h
  obtain ⟨s₁, hsettle, h⟩ := eq_ok_of_bind h
  obtain ⟨s₂, henvironment, h⟩ := eq_ok_of_bind h
  cases h
  have hall : (arguments.foldlM Scan.step {} >>= Scan.settle) = .ok s₁ := by
    rw [harguments]
    exact hsettle
  obtain ⟨given, ⟨hspells⟩, haccept⟩ := Scan.resumes_of_foldlM rfl hall
  have hempty : Scan.Has {} fun _ => none := ⟨fun n => ⟨nofun, nofun⟩, rfl, rfl, rfl, rfl, rfl⟩
  obtain ⟨hnodup, -, hgiven⟩ := hempty.acceptAll haccept
  have hs₁ : s₁.Has fun name => given.lookup name := ⟨hgiven.given, hgiven.line⟩
  refine ⟨given, hspells, hnodup, ?_⟩
  have hread := (hs₁.foldlM_fromEnvironment henvironment).line
  have hnames (name : Name) : name ∈ names := by cases name <;> decide
  simpa only [hnames, if_true] using hread

end MockServer.CommandLine
