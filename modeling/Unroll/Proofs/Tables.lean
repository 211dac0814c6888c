import Unroll.Proofs.Storage

/-!
# The table of a configuration

A configuration is made of settings if and only if all of them are single code points, those for the
five single roles are different, and none of these is an operator. Otherwise the first thing wrong
is reported. The table that is made gives every code point its role, and every role its code points,
and nothing else matters about a configuration: neither the order of the operators, nor how often
one of them is given.

* `Settings.SoundFor` — nothing is wrong with the settings for some roles;
* `Settings.FirstFault` — the first thing that is wrong;
* `Config.ofSettings_cases` — one of the two is the case, and decides what is made of the settings;
* `Config.TableOf`, `Config.ofSettings_table` — what the table of a configuration says.
-/

namespace Unroll

open Json (Value)

/-! ### Code points as values -/

namespace Json.Value

/-- The text of one code point. -/
def ofChar (c : CodePoint) : Value := .text [c]

/-- A value is the text of one code point, half of a surrogate pair among them. -/
def IsCharacter (v : Value) : Prop := ∃ c, v = ofChar c

theorem ofChar_inj {c d : CodePoint} : ofChar c = ofChar d ↔ c = d := by
  simp [ofChar]

theorem ofChar_mem_map {c : CodePoint} {cs : CodeText} : ofChar c ∈ cs.map ofChar ↔ c ∈ cs :=
  List.mem_map_of_injective fun _ _ => ofChar_inj.1

end Json.Value

namespace Config

theorem char?_eq_some_iff {v : Value} {c : CodePoint} : char? v = some c ↔ v = .ofChar c := by
  constructor
  · intro h
    unfold char? at h
    split at h
    · exact congrArg Value.ofChar (Option.some.inj h)
    · cases h
  · rintro rfl
    rfl

theorem char?_eq_none_iff {v : Value} : char? v = none ↔ ¬ v.IsCharacter := by
  simp only [Option.eq_none_iff_forall_ne_some, ne_eq, char?_eq_some_iff, Value.IsCharacter,
    not_exists]

end Config

theorem Role.eq_operator_or (role : Role) : role = .operator ∨ role ∈ singles := by
  cases role <;> decide

/-! ### What is wrong with settings -/

namespace Settings

/-- Other operators leave the single roles their symbols. -/
theorem get_with_operators (settings : Settings) (operators : Value) {role : Role}
    (h : role ∈ Role.singles) : get { settings with operators } role = settings.get role := by
  cases role with
  | operator => exact absurd h (by decide)
  | _ => rfl

/-- Nothing is wrong with the operators `vs` and the settings for some roles. -/
structure SoundFor (settings : Settings) (vs : List Value) (roles : List Role) : Prop where
  operators : ∀ v ∈ vs, v.IsCharacter
  symbols : ∀ role ∈ roles, (settings.get role).IsCharacter
  /-- no operator has another role -/
  free : ∀ role ∈ roles, settings.get role ∉ vs
  /-- no code point has two of the roles -/
  apart : (roles.map settings.get).Nodup

/-- Nothing is wrong with a further role if its symbol is a code point without a role. -/
theorem SoundFor.push {settings : Settings} {vs : List Value} {roles : List Role} {role : Role}
    (h : settings.SoundFor vs roles) (hsymbol : (settings.get role).IsCharacter)
    (hfree : settings.get role ∉ vs)
    (hother : ∀ other ∈ roles, settings.get other ≠ settings.get role) :
    settings.SoundFor vs (roles ++ [role]) := by
  refine ⟨h.operators, fun other hmem => ?_, fun other hmem => ?_, ?_⟩
  · rcases List.mem_append.1 hmem with hmem | hmem
    · exact h.symbols other hmem
    · obtain rfl := List.mem_singleton.1 hmem
      exact hsymbol
  · rcases List.mem_append.1 hmem with hmem | hmem
    · exact h.free other hmem
    · obtain rfl := List.mem_singleton.1 hmem
      exact hfree
  · rw [List.map_append, List.nodup_append]
    refine ⟨h.apart, List.nodup_singleton _, ?_⟩
    intro v hv w hw
    obtain ⟨other, hmem, rfl⟩ := List.mem_map.1 hv
    obtain rfl := List.mem_singleton.1 hw
    exact hother other hmem

/-- The first thing that is wrong with settings whose operators are `vs`: nothing is wrong with what
is looked at before. The operators are looked at in order, then the single roles in theirs. -/
inductive FirstFault (settings : Settings) (vs : List Value) : Fault → Prop where
  /-- an operator is no code point -/
  | operator {before after : List Value} {v : Value} (hvs : vs = before ++ v :: after)
      (hbefore : ∀ u ∈ before, u.IsCharacter) (hv : ¬ v.IsCharacter) :
      FirstFault settings vs (.notCharacter .operator v)
  /-- the symbol for a role is no code point -/
  | symbol {earlier later : List Role} {role : Role}
      (hroles : Role.singles = earlier ++ role :: later)
      (hearlier : settings.SoundFor vs earlier) (hrole : ¬ (settings.get role).IsCharacter) :
      FirstFault settings vs (.notCharacter role (settings.get role))
  /-- the symbol for a role is an operator -/
  | takenByOperator {earlier later : List Role} {role : Role}
      (hroles : Role.singles = earlier ++ role :: later)
      (hearlier : settings.SoundFor vs earlier) (hrole : settings.get role ∈ vs) :
      FirstFault settings vs (.taken role .operator)
  /-- the symbol for a role has a role before it -/
  | taken {earlier later : List Role} {role holder : Role}
      (hroles : Role.singles = earlier ++ role :: later)
      (hearlier : settings.SoundFor vs earlier) (hholder : holder ∈ earlier)
      (hrole : settings.get role = settings.get holder) :
      FirstFault settings vs (.taken role holder)

variable {settings : Settings} {vs : List Value} {fault : Fault}

theorem FirstFault.not_sound (h : settings.FirstFault vs fault) :
    ¬ settings.SoundFor vs Role.singles := by
  intro hsound
  cases h with
  | operator hvs _ hv =>
    refine hv (hsound.operators _ ?_)
    rw [hvs]
    exact List.mem_append_right _ List.mem_cons_self
  | symbol hroles _ hrole =>
    refine hrole (hsound.symbols _ ?_)
    rw [hroles]
    exact List.mem_append_right _ List.mem_cons_self
  | takenByOperator hroles _ hrole =>
    refine hsound.free _ ?_ hrole
    rw [hroles]
    exact List.mem_append_right _ List.mem_cons_self
  | @taken earlier later role holder hroles _ hholder hrole =>
    have hapart := hsound.apart
    rw [hroles, List.map_append, List.map_cons, List.nodup_append] at hapart
    exact hapart.2.2 _ (List.mem_map_of_mem hholder) _ List.mem_cons_self hrole.symm

end Settings

/-! ### Making the table -/

namespace Config

open Settings (SoundFor FirstFault)

variable {settings : Settings} {vs : List Value} {roles later : List Role} {role : Role}
  {table : List (CodePoint × Role)}

/-- A table has the operators and the symbols for some roles, and nothing else. -/
def Records (settings : Settings) (vs : List Value) (roles : List Role)
    (table : List (CodePoint × Role)) : Prop :=
  ∀ c role, (c, role) ∈ table ↔
    role = .operator ∧ .ofChar c ∈ vs ∨ role ∈ roles ∧ settings.get role = .ofChar c

theorem records_operators (settings : Settings) (given : CodeText) :
    Records settings (given.map .ofChar) [] (given.eraseDups.map fun c => (c, Role.operator)) := by
  intro c role
  simp [List.mem_eraseDups, Value.ofChar_mem_map, and_comm, eq_comm]

theorem Records.push (h : Records settings vs roles table) {c : CodePoint}
    (hc : settings.get role = .ofChar c) :
    Records settings vs (roles ++ [role]) (table ++ [(c, role)]) := by
  intro d other
  rw [List.mem_append, List.mem_singleton, Prod.mk.injEq, h d other, List.mem_append,
    List.mem_singleton]
  constructor
  · rintro ((hoperator | ⟨hmem, hget⟩) | ⟨rfl, rfl⟩)
    · exact .inl hoperator
    · exact .inr ⟨.inl hmem, hget⟩
    · exact .inr ⟨.inr rfl, hc⟩
  · rintro (hoperator | ⟨hmem | rfl, hget⟩)
    · exact .inl (.inl hoperator)
    · exact .inl (.inr ⟨hmem, hget⟩)
    · exact .inr ⟨Value.ofChar_inj.1 (hget.symm.trans hc), rfl⟩

/-- The operators are code points, or the first that is none is found. -/
theorem readOperators_cases {v : Value} (hvs : elements? v = some vs) (settings : Settings) :
    (∃ given : CodeText, vs = given.map .ofChar ∧ readOperators v = .ok given) ∨
      ∃ fault, readOperators v = .error fault ∧ settings.FirstFault vs fault := by
  simp only [readOperators, hvs]
  rcases mapM_cases _ vs with
    ⟨given, hmap, hgiven⟩ | ⟨before, u, after, fault, hsplit, hbefore, hu, hmap⟩
  · refine .inl ⟨given, ?_, hmap⟩
    have hsame : List.Forall₂ (· = ·) vs (given.map Value.ofChar) := by
      refine List.forall₂_map_right_iff.2 (hgiven.imp fun v c hv => ?_)
      split at hv
      · rename_i hchar
        obtain rfl := Except.ok.inj hv
        exact char?_eq_some_iff.1 hchar
      · cases hv
    rwa [List.forall₂_eq_eq_eq] at hsame
  · refine .inr ⟨fault, hmap, ?_⟩
    split at hu
    · cases hu
    · rename_i hnone
      obtain rfl := Except.error.inj hu
      refine .operator hsplit (fun w hw => ?_) (char?_eq_none_iff.1 hnone)
      obtain ⟨b, hb⟩ := hbefore w hw
      split at hb
      · rename_i hchar
        exact ⟨_, char?_eq_some_iff.1 hchar⟩
      · cases hb

/-- The symbol for the next role is entered in the table, or what is wrong with it is found. -/
theorem readSymbol_cases (role : Role) (hroles : Role.singles = roles ++ role :: later)
    (hsound : settings.SoundFor vs roles) (hrecords : Records settings vs roles table) :
    (∃ (c : CodePoint) (hc : c ∉ table.map (·.1)),
      readSymbol role (settings.get role) table = .ok ⟨c, hc⟩ ∧ settings.get role = .ofChar c ∧
      settings.SoundFor vs (roles ++ [role]) ∧
      Records settings vs (roles ++ [role]) (table ++ [(c, role)])) ∨
    ∃ fault, readSymbol role (settings.get role) table = .error fault ∧
      settings.FirstFault vs fault := by
  rcases hchar : char? (settings.get role) with _ | c
  · refine .inr ⟨_, ?_, .symbol hroles hsound (char?_eq_none_iff.1 hchar)⟩
    simp only [readSymbol, hchar]
  have hget := char?_eq_some_iff.1 hchar
  by_cases hc : c ∈ table.map (·.1)
  -- the code point is in the table, and has the role of its first entry
  · obtain ⟨entry, hentry, hfst⟩ := List.mem_map.1 hc
    have hsome : (table.find? (·.1 = c)).isSome = true :=
      List.find?_isSome.2 ⟨entry, hentry, decide_eq_true hfst⟩
    obtain ⟨⟨d, holder⟩, hfound⟩ := Option.isSome_iff_exists.1 hsome
    obtain rfl : d = c := by simpa using List.find?_some hfound
    have hread : readSymbol role (settings.get role) table = .error (.taken role holder) := by
      simp only [readSymbol, hchar]
      split
      · rename_i found hfind
        rw [hfound] at hfind
        obtain rfl := Option.some.inj hfind
        rfl
      · rename_i hnone
        rw [hfound] at hnone
        cases hnone
    refine .inr ⟨_, hread, ?_⟩
    rcases (hrecords d holder).1 (List.mem_of_find?_eq_some hfound) with
      ⟨rfl, hmem⟩ | ⟨hmem, hholder⟩
    · exact .takenByOperator hroles hsound (hget ▸ hmem)
    · exact .taken hroles hsound hmem (hget.trans hholder.symm)
  -- the code point is new
  · have hnew : ∀ holder, (c, holder) ∉ table := fun holder hmem =>
      hc (List.mem_map.2 ⟨_, hmem, rfl⟩)
    refine .inl ⟨c, hc, ?_, hget, ?_, hrecords.push hget⟩
    · rw [hget]
      exact readSymbol_singleton role hc
    · refine hsound.push ⟨c, hget⟩ (fun hmem => ?_) (fun other hmem heq => ?_)
      · exact hnew .operator ((hrecords c .operator).2 (.inl ⟨rfl, hget ▸ hmem⟩))
      · exact hnew other ((hrecords c other).2 (.inr ⟨hmem, heq.trans hget⟩))

/-- A configuration is made of settings with which nothing is wrong, or the first thing that is
wrong is found. -/
theorem ofSettings_cases (hvs : elements? settings.operators = some vs) :
    (∃ config, ofSettings settings = .ok config ∧ settings.SoundFor vs Role.singles ∧
      (∃ given : CodeText, vs = given.map .ofChar ∧ config.operators = given.eraseDups) ∧
      ∀ role ∈ Role.singles, ∃ c, config.charFor? role = some c ∧
        settings.get role = .ofChar c) ∨
    ∃ fault, ofSettings settings = .error fault ∧ settings.FirstFault vs fault := by
  rcases readOperators_cases hvs settings with ⟨given, hgiven, hread⟩ | ⟨fault, hread, hfirst⟩
  case inr =>
    refine .inr ⟨fault, ?_, hfirst⟩
    simp only [ofSettings, hread]
  have hsound : settings.SoundFor vs [] := by
    refine ⟨?_, List.forall_mem_nil _, List.forall_mem_nil _, List.nodup_nil⟩
    rw [hgiven]
    intro v hv
    obtain ⟨c, -, rfl⟩ := List.mem_map.1 hv
    exact ⟨c, rfl⟩
  have hrecords := records_operators settings given
  rw [← hgiven] at hrecords
  rcases readSymbol_cases .groupStart rfl hsound hrecords with
    ⟨start, _, hstart, hgetStart, hsound, hrecords⟩ | ⟨fault, hfault, hfirst⟩
  case inr =>
    refine .inr ⟨fault, ?_, hfirst⟩
    simp only [Settings.get] at hfault
    simp only [ofSettings, hread, hfault]
  rcases readSymbol_cases .groupEnd rfl hsound hrecords with
    ⟨end', _, hend, hgetEnd, hsound, hrecords⟩ | ⟨fault, hfault, hfirst⟩
  case inr =>
    refine .inr ⟨fault, ?_, hfirst⟩
    simp only [Settings.get] at hstart hfault
    simp only [ofSettings, hread, hstart, hfault]
  rcases readSymbol_cases .numberPrefix rfl hsound hrecords with
    ⟨number, _, hnumber, hgetNumber, hsound, hrecords⟩ | ⟨fault, hfault, hfirst⟩
  case inr =>
    refine .inr ⟨fault, ?_, hfirst⟩
    simp only [Settings.get] at hstart hend hfault
    simp only [ofSettings, hread, hstart, hend, hfault]
  rcases readSymbol_cases .macroPrefix rfl hsound hrecords with
    ⟨macro', _, hmacro, hgetMacro, hsound, hrecords⟩ | ⟨fault, hfault, hfirst⟩
  case inr =>
    refine .inr ⟨fault, ?_, hfirst⟩
    simp only [Settings.get] at hstart hend hnumber hfault
    simp only [ofSettings, hread, hstart, hend, hnumber, hfault]
  rcases readSymbol_cases .escapePrefix rfl hsound hrecords with
    ⟨escape, _, hescape, hgetEscape, hsound, -⟩ | ⟨fault, hfault, hfirst⟩
  case inr =>
    refine .inr ⟨fault, ?_, hfirst⟩
    simp only [Settings.get] at hstart hend hnumber hmacro hfault
    simp only [ofSettings, hread, hstart, hend, hnumber, hmacro, hfault]
  simp only [Settings.get] at hstart hend hnumber hmacro hescape
  have hmade : ∃ config, ofSettings settings = .ok config ∧ config.operators = given.eraseDups ∧
      config.groupStart = start ∧ config.groupEnd = end' ∧ config.numberPrefix = number ∧
      config.macroPrefix = macro' ∧ config.escapePrefix = escape := by
    simp only [ofSettings, hread, hstart, hend, hnumber, hmacro, hescape]
    exact ⟨_, rfl, rfl, rfl, rfl, rfl, rfl, rfl⟩
  obtain ⟨config, hmade, hoperators, rfl, rfl, rfl, rfl, rfl⟩ := hmade
  refine .inl ⟨config, hmade, hsound, ⟨given, hgiven, hoperators⟩, ?_⟩
  simp only [Role.singles, List.forall_mem_cons]
  exact ⟨⟨_, rfl, hgetStart⟩, ⟨_, rfl, hgetEnd⟩, ⟨_, rfl, hgetNumber⟩, ⟨_, rfl, hgetMacro⟩,
    ⟨_, rfl, hgetEscape⟩, List.forall_mem_nil _⟩

/-- Settings with which nothing is wrong are those that a configuration is made of. -/
theorem ofSettings_ok_iff (hvs : elements? settings.operators = some vs) :
    (∃ config, ofSettings settings = .ok config) ↔ settings.SoundFor vs Role.singles := by
  rcases ofSettings_cases hvs with ⟨config, hmade, hsound, -⟩ | ⟨fault, hfault, hfirst⟩
  · exact ⟨fun _ => hsound, fun _ => ⟨config, hmade⟩⟩
  · refine ⟨fun ⟨config, hmade⟩ => ?_, fun hsound => absurd hsound hfirst.not_sound⟩
    rw [hfault] at hmade
    cases hmade

/-! ### What the table says -/

/-- What the table of a configuration says that is made of settings with the operators `given`. -/
structure TableOf (settings : Settings) (given : CodeText) (config : Config) : Prop where
  roleOf_operator (c : CodePoint) : config.roleOf c = some .operator ↔ c ∈ given
  roleOf_single : ∀ role ∈ Role.singles, ∀ c,
    config.roleOf c = some role ↔ config.charFor? role = some c
  roleOf_none (c : CodePoint) : config.roleOf c = none ↔
    c ∉ given ∧ ∀ role ∈ Role.singles, config.charFor? role ≠ some c
  /-- the symbols are those that were given -/
  charFor : ∀ role ∈ Role.singles, ∃ c, config.charFor? role = some c ∧
    settings.get role = .ofChar c
  operators_mem (c : CodePoint) : c ∈ config.operators ↔ c ∈ given
  operators_nodup : config.operators.Nodup
  /-- the operators stand in the order in which they were first given -/
  operators_order : config.operators.Pairwise fun c d => given.idxOf c < given.idxOf d

/-- A code point has a single role if and only if it is the one for it. -/
theorem roleOf_single (config : Config) {role : Role} (hrole : role ∈ Role.singles)
    (c : CodePoint) :
    config.roleOf c = some role ↔ config.charFor? role = some c := by
  rw [roleOf_eq_some_iff]
  cases role with
  | operator => exact absurd hrole (by decide)
  | _ => simp [symbols, charFor?, eq_comm]

theorem tableOf {config : Config} {given : CodeText}
    (hoperators : config.operators = given.eraseDups)
    (hchars : ∀ role ∈ Role.singles, ∃ c, config.charFor? role = some c ∧
      settings.get role = .ofChar c) : config.TableOf settings given := by
  have hmem : ∀ c, c ∈ config.operators ↔ c ∈ given := by
    intro c
    rw [hoperators, List.mem_eraseDups]
  have hoperator : ∀ c, config.roleOf c = some .operator ↔ c ∈ given := by
    intro c
    rw [roleOf_eq_some_iff, symbols, hmem]
  have hsingle : ∀ role ∈ Role.singles, ∀ c,
      config.roleOf c = some role ↔ config.charFor? role = some c :=
    fun _ hrole => config.roleOf_single hrole
  refine ⟨hoperator, hsingle, ?_, hchars, hmem, ?_, ?_⟩
  · intro c
    constructor
    · intro hnone
      refine ⟨fun hc => ?_, fun role hrole hc => ?_⟩
      · rw [(hoperator c).2 hc] at hnone
        cases hnone
      · rw [(hsingle role hrole c).2 hc] at hnone
        cases hnone
    · rintro ⟨hc, hother⟩
      refine Option.eq_none_iff_forall_ne_some.2 fun role hsome => ?_
      rcases role.eq_operator_or with rfl | hrole
      · exact hc ((hoperator c).1 hsome)
      · exact hother role hrole ((hsingle role hrole c).1 hsome)
  · rw [hoperators]
    exact nodup_eraseDups given
  · rw [hoperators]
    exact pairwise_eraseDups given

/-! ### Configurations that mean the same -/

/-- Two configurations mean the same if and only if they have the same symbols for every role, in
whatever order. -/
theorem sameRoles_iff_symbols {c d : Config} :
    c.sameRoles d = true ↔ ∀ role ch, ch ∈ c.symbols role ↔ ch ∈ d.symbols role := by
  simp only [sameRoles, Bool.and_eq_true, beq_iff_eq, List.all_eq_true, List.contains_iff_mem]
  constructor
  · rintro ⟨⟨⟨⟨⟨⟨hcd, hdc⟩, hstart⟩, hend⟩, hnumber⟩, hmacro⟩, hescape⟩ role ch
    cases role with
    | operator => exact ⟨hcd ch, hdc ch⟩
    | _ => simp only [symbols, hstart, hend, hnumber, hmacro, hescape]
  · intro h
    have hsingle : ∀ role a b, c.symbols role = [a] → d.symbols role = [b] → a = b := by
      intro role a b ha hb
      have hmem := (h role a).1 (ha ▸ List.mem_singleton_self a)
      rw [hb] at hmem
      exact List.mem_singleton.1 hmem
    exact ⟨⟨⟨⟨⟨⟨fun ch => (h .operator ch).1, fun ch => (h .operator ch).2⟩,
      hsingle .groupStart _ _ rfl rfl⟩, hsingle .groupEnd _ _ rfl rfl⟩,
      hsingle .numberPrefix _ _ rfl rfl⟩, hsingle .macroPrefix _ _ rfl rfl⟩,
      hsingle .escapePrefix _ _ rfl rfl⟩

/-- Two configurations mean the same if and only if they give every code point the same role. -/
theorem sameRoles_iff_roleOf {c d : Config} :
    c.sameRoles d = true ↔ ∀ ch, c.roleOf ch = d.roleOf ch := by
  rw [sameRoles_iff_symbols]
  constructor
  · intro h ch
    refine Option.ext fun role => ?_
    rw [roleOf_eq_some_iff, roleOf_eq_some_iff, h role ch]
  · intro h role ch
    rw [← roleOf_eq_some_iff, ← roleOf_eq_some_iff, h ch]

/-- The entries of a configuration are its settings. -/
theorem ofFields_entries (config : Config) :
    Settings.ofFields (config.entries.map fun entry => (entry.1, .text entry.2)) =
      .ok (.ofConfig config) := by
  simp only [entries, List.map_cons, List.map_nil, Settings.ofFields, List.foldlM_cons,
    List.foldlM_nil, Role.ofKey?_key]
  rfl

/-- How often the operators are given, and in what order, decides nothing. -/
theorem soundFor_of_mem_iff {operators : Value} {ws : List Value}
    (h : settings.SoundFor vs Role.singles) (hsame : ∀ v, v ∈ ws ↔ v ∈ vs) :
    SoundFor { settings with operators } ws Role.singles := by
  have hget : ∀ role ∈ Role.singles,
      Settings.get { settings with operators } role = settings.get role :=
    fun _ hrole => settings.get_with_operators operators hrole
  refine ⟨fun v hv => h.operators v ((hsame v).1 hv), fun role hrole => ?_,
    fun role hrole hmem => ?_, ?_⟩
  · rw [hget role hrole]
    exact h.symbols role hrole
  · rw [hget role hrole, hsame] at hmem
    exact h.free role hrole hmem
  · rw [List.map_congr_left hget]
    exact h.apart

/-- Configurations made of settings that differ in how often the operators are given, and in what
order, mean the same. -/
theorem sameRoles_of_mem_iff {config other : Config} {given given' : CodeText} {operators : Value}
    (hconfig : config.TableOf settings given)
    (hother : other.TableOf { settings with operators } given')
    (hsame : ∀ c, c ∈ given' ↔ c ∈ given) : config.sameRoles other = true := by
  refine sameRoles_iff_roleOf.2 fun c => Option.ext fun role => ?_
  rcases role.eq_operator_or with rfl | hrole
  · rw [hconfig.roleOf_operator, hother.roleOf_operator, hsame]
  · obtain ⟨d, hd, hget⟩ := hconfig.charFor role hrole
    obtain ⟨e, he, hget'⟩ := hother.charFor role hrole
    rw [settings.get_with_operators operators hrole, hget, Value.ofChar_inj] at hget'
    rw [hconfig.roleOf_single role hrole, hother.roleOf_single role hrole, hd, he, hget']

/-- A configuration is made of settings whose operators are `vs` if and only if nothing is wrong
with them, and otherwise the first thing that is wrong is reported. The table of a configuration
gives every code point the role for which it was given, and every role its code point. The
configuration is made again of its own entries, it means the same as another one if and only if
every code point has the same role in both, and so does what is made of the same operators in
another order or number. -/
theorem ofSettings_table (hvs : elements? settings.operators = some vs) :
    ((∃ config, ofSettings settings = .ok config) ↔ settings.SoundFor vs Role.singles) ∧
    (∀ fault, ofSettings settings = .error fault → settings.FirstFault vs fault) ∧
    ∀ config, ofSettings settings = .ok config →
      (∃ given : CodeText, vs = given.map .ofChar ∧ config.TableOf settings given) ∧
      (Settings.ofFields (config.entries.map fun entry => (entry.1, .text entry.2)) >>=
        ofSettings) = .ok config ∧
      (∀ other : Config,
        config.sameRoles other = true ↔ ∀ c, config.roleOf c = other.roleOf c) ∧
      ∀ operators ws, elements? operators = some ws → (∀ v, v ∈ ws ↔ v ∈ vs) →
        ∃ other, ofSettings { settings with operators } = .ok other ∧
          config.sameRoles other = true := by
  refine ⟨ofSettings_ok_iff hvs, fun fault hfault => ?_, fun config hconfig => ?_⟩
  · rcases ofSettings_cases hvs with ⟨config, hmade, -⟩ | ⟨found, hfound, hfirst⟩
    · rw [hfault] at hmade
      cases hmade
    · obtain rfl := Except.error.inj (hfault.symm.trans hfound)
      exact hfirst
  have htable : ∀ {settings : Settings} {vs : List Value} {config : Config},
      elements? settings.operators = some vs → ofSettings settings = .ok config →
        settings.SoundFor vs Role.singles ∧
          ∃ given : CodeText, vs = given.map .ofChar ∧ config.TableOf settings given := by
    intro settings vs config hvs hconfig
    rcases ofSettings_cases hvs with
      ⟨made, hmade, hsound, ⟨given, hgiven, hoperators⟩, hchars⟩ | ⟨fault, hfault, -⟩
    · obtain rfl := Except.ok.inj (hconfig.symm.trans hmade)
      exact ⟨hsound, given, hgiven, tableOf hoperators hchars⟩
    · rw [hconfig] at hfault
      cases hfault
  obtain ⟨hsound, given, rfl, hconfigTable⟩ := htable hvs hconfig
  refine ⟨⟨given, rfl, hconfigTable⟩, ?_, fun _ => sameRoles_iff_roleOf, ?_⟩
  · rw [ofFields_entries]
    exact ofSettings_ofConfig config
  · intro operators ws hws hsame
    have hws' : elements? ({ settings with operators } : Settings).operators = some ws := hws
    obtain ⟨other, hother⟩ :=
      (ofSettings_ok_iff hws').2 (soundFor_of_mem_iff hsound hsame)
    obtain ⟨-, given', rfl, hotherTable⟩ := htable hws' hother
    refine ⟨other, hother, sameRoles_of_mem_iff hconfigTable hotherTable fun c => ?_⟩
    rw [← Value.ofChar_mem_map, hsame, Value.ofChar_mem_map]

/-- Three operators, one of them twice, and the same in another order; and one for macros as
well. -/
theorem ofSettings_table_twice :
    let operators : Value := .list [.ofChar '-', .ofChar '+', .ofChar '-', .ofChar '*']
    let vs : List Value := [.ofChar '-', .ofChar '+', .ofChar '-', .ofChar '*']
    let settings : Settings := { Settings.standard with operators }
    let clash : Settings := { settings with macroPrefix := .ofChar '+' }
    let text : Value := .text "*+-"
    (elements? operators = some vs ∧
      ofSettings clash = .error (.taken .macroPrefix .operator) ∧
      clash.FirstFault vs (.taken .macroPrefix .operator)) ∧
    ∃ config, ofSettings settings = .ok config ∧ config.operators = .ofString "-+*" ∧
      (∃ given : CodeText, vs = given.map .ofChar ∧ config.TableOf settings given) ∧
      ∃ other, ofSettings { settings with operators := text } = .ok other ∧
        config.sameRoles other = true := by
  intro operators vs settings clash text
  have hclash : ofSettings clash = .error (.taken .macroPrefix .operator) := rfl
  have hmade : ∃ config, ofSettings settings = .ok config ∧ config.operators = .ofString "-+*" :=
    ⟨_, rfl, rfl⟩
  obtain ⟨config, hconfig, hoperators⟩ := hmade
  have hvs : elements? settings.operators = some vs := rfl
  obtain ⟨-, -, htable⟩ := ofSettings_table hvs
  obtain ⟨hgiven, -, -, hagain⟩ := htable config hconfig
  have htext : elements? text = some [.ofChar '*', .ofChar '+', .ofChar '-'] := rfl
  have hsame : ∀ v, v ∈ [Value.ofChar '*', .ofChar '+', .ofChar '-'] ↔ v ∈ vs := by
    intro v
    simp only [vs, List.mem_cons, List.not_mem_nil, or_false]
    tauto
  exact ⟨⟨rfl, hclash, (ofSettings_table rfl).2.1 _ hclash⟩, config, hconfig, hoperators, hgiven,
    hagain text _ htext hsame⟩

end Config

end Unroll
