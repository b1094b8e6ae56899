import Mathlib.Data.List.Forall2
import Mathlib.Data.List.TakeWhile
import SqlComposer.CommandLine.Options

/-! What a line of arguments comes to. An option takes the argument behind it, so a line falls apart
into options with their values and arguments that stand by themselves. The first that is faulty decides;
if there is none, each option that is given several times counts as it is given last, and where the
positional arguments stand among the options makes no difference. -/
namespace SqlComposer.CommandLine

/-- The options that take a value. -/
inductive OptionName where
  | environment | override | migrations
  deriving DecidableEq, Repr

namespace OptionName

def spelling : OptionName → String
  | .environment => "--env"
  | .override => "--set"
  | .migrations => "--migrations"

/-- What is wrong with an option that nothing follows. -/
def missing : OptionName → OptionFault
  | .environment => .noEnvironment
  | .override => .noAssignment
  | .migrations => .noMigrations

theorem isOption_iff (text : String) : isOption text = true ↔ ['-', '-'] <+: text.toList := by
  rw [isOption, decide_eq_true_eq, List.prefix_iff_eq_take]
  exact eq_comm

theorem dashed_spelling (o : OptionName) : ['-', '-'] <+: o.spelling.toList := by
  rw [← isOption_iff]
  cases o <;> decide

end OptionName

/-- What an argument is: positional, an option with its value, or one that there is not. -/
inductive Argument where
  | positional (text : String) (plain : ¬ ['-', '-'] <+: text.toList)
  | given (option : OptionName) (value : String)
  | unknown (text : String) (dashed : ['-', '-'] <+: text.toList)
      (other : ∀ o : OptionName, text ≠ o.spelling)

/-- What an argument adds to those that have been read. -/
inductive Addition where
  | positional (text : String)
  | environment (e : Environment)
  | override (key value : String)
  | migrations (m : Migrations)

def environments : List (String × Environment) :=
  [("dev", .development), ("prod", .production), ("local", .localMachine), ("int", .integration)]

/-- A text names an environment, in whatever case its ASCII letters are. -/
def Names (text : String) (e : Environment) : Prop :=
  ∃ name, (name, e) ∈ environments ∧ text.toList.map Char.toLower = name.toList.map Char.toLower

namespace Argument

def words : Argument → List String
  | .positional text _ => [text]
  | .given option value => [option.spelling, value]
  | .unknown text _ _ => [text]

/-- What an argument adds. A key ends at the first equals sign. -/
inductive Adds (records : ReadRecords) (read : Read) : Argument → Addition → Prop
  | positional {text : String} {plain : ¬ ['-', '-'] <+: text.toList} :
      Adds records read (.positional text plain) (.positional text)
  | environment {name : String} {e : Environment} : Names name e →
      Adds records read (.given .environment name) (.environment e)
  | override {key value : String} : '=' ∉ key.toList →
      Adds records read (.given .override (key ++ "=" ++ value)) (.override key value)
  | migrations {path text : String} {m : Migrations} : read path = .ok text →
      records text = .ok m → Adds records read (.given .migrations path) (.migrations m)

/-- What is wrong with an argument. -/
inductive Fails (records : ReadRecords) (read : Read) : Argument → OptionFault → Prop
  | environment {name : String} : (∀ e, ¬ Names name e) →
      Fails records read (.given .environment name) (.unknownEnvironment name)
  | override {text : String} : '=' ∉ text.toList →
      Fails records read (.given .override text) (.badAssignment text)
  | unreadable {path : String} {fault : FileFault} : read path = .error fault →
      Fails records read (.given .migrations path) (.unreadable path fault)
  | migrations {path text : String} {fault : Json.Fault} : read path = .ok text →
      records text = .error fault →
      Fails records read (.given .migrations path) (.badMigrations path fault)
  | unknown {text : String} {dashed : ['-', '-'] <+: text.toList}
      {other : ∀ o : OptionName, text ≠ o.spelling} :
      Fails records read (.unknown text dashed other) (.unknownOption text)

def positional? : Argument → Option String
  | .positional text _ => some text
  | _ => none

/-- What an argument adds, or what is wrong with it, as it is found out. -/
def addition (records : ReadRecords) (read : Read) : Argument → Except OptionFault Addition
  | .positional text _ => .ok (.positional text)
  | .given .environment name =>
    match Environment.ofName? name with
    | some e => .ok (.environment e)
    | none => .error (.unknownEnvironment name)
  | .given .override text =>
    match assignment? text with
    | some (key, value) => .ok (.override key value)
    | none => .error (.badAssignment text)
  | .given .migrations path =>
    match read path with
    | .error fault => .error (.unreadable path fault)
    | .ok text =>
      match records text with
      | .error fault => .error (.badMigrations path fault)
      | .ok m => .ok (.migrations m)
  | .unknown text _ _ => .error (.unknownOption text)

def fault? (records : ReadRecords) (read : Read) (i : Argument) : Option OptionFault :=
  match i.addition records read with
  | .ok _ => none
  | .error fault => some fault

def added? (records : ReadRecords) (read : Read) (i : Argument) : Option Addition :=
  (i.addition records read).toOption

end Argument

/-- A key ends at the first equals sign. -/
theorem assignment?_eq_some_iff {text key value : String} :
    assignment? text = some (key, value) ↔ text = key ++ "=" ++ value ∧ '=' ∉ key.toList := by
  have hwhole : text.toList.takeWhile (· ≠ '=') ++ text.toList.dropWhile (· ≠ '=') = text.toList :=
    List.takeWhile_append_dropWhile
  constructor
  · intro h
    unfold assignment? at h
    split at h
    · cases h
    · next c rest hrest =>
      cases h
      have hhead := List.head?_dropWhile_not (· ≠ '=') text.toList
      rw [hrest] at hhead
      obtain rfl : c = '=' := by simpa using hhead
      rw [hrest] at hwhole
      refine ⟨String.toList_inj.mp ?_, fun hmem => ?_⟩
      · exact hwhole.symm.trans (by simp)
      · have hkey := List.all_eq_true.mp List.all_takeWhile _ (String.toList_ofList ▸ hmem)
        simp at hkey
  · rintro ⟨rfl, hkey⟩
    have hall : ∀ c ∈ key.toList, decide (c ≠ '=') = true := by
      intro c hc
      rw [decide_eq_true_eq]
      rintro rfl
      exact hkey hc
    unfold assignment?
    simp only [String.toList_append, List.append_assoc]
    rw [List.takeWhile_append_of_pos hall, List.dropWhile_append_of_pos hall]
    simp

theorem assignment?_eq_none_iff (text : String) : assignment? text = none ↔ '=' ∉ text.toList := by
  have hnil : text.toList.dropWhile (· ≠ '=') = [] ↔ '=' ∉ text.toList := by
    rw [List.dropWhile_eq_nil_iff]
    simp only [decide_eq_true_eq]
    exact ⟨fun h hmem => h _ hmem rfl, fun h c hc he => h (he ▸ hc)⟩
  rw [← hnil, assignment?]
  cases text.toList.dropWhile (· ≠ '=') <;> simp

theorem ofName?_eq_some_iff (name : String) (e : Environment) :
    Environment.ofName? name = some e ↔ Names name e := by
  have hsmall : ∀ p ∈ environments, p.1 = p.2.name ∧ p.1.toList.map Char.toLower = p.1.toList := by
    decide +kernel
  have hfound : ∀ p ∈ environments, Environment.all.find? (fun e => e.name = p.1) = some p.2 := by
    decide +kernel
  constructor
  · intro h
    have hname : e.name = Text.lowerString name := by simpa using List.find?_some h
    have hmem : (e.name, e) ∈ environments := by cases e <;> decide
    refine ⟨e.name, hmem, ?_⟩
    rw [(hsmall _ hmem).2, hname, Text.lowerString, String.toList_ofList]
    rfl
  · rintro ⟨small, hmem, hletters⟩
    rw [(hsmall _ hmem).2] at hletters
    have hlower : Text.lowerString name = small := by
      rw [← String.toList_inj, Text.lowerString, String.toList_ofList]
      exact hletters
    rw [Environment.ofName?, hlower]
    exact hfound _ hmem

theorem ofName?_eq_none_iff (name : String) :
    Environment.ofName? name = none ↔ ∀ e, ¬ Names name e := by
  rw [Option.eq_none_iff_forall_ne_some]
  exact forall_congr' fun e => (ofName?_eq_some_iff name e).not

namespace Argument
variable {records : ReadRecords} {read : Read} {i : Argument}

theorem addition_eq_ok_iff (x : Addition) :
    i.addition records read = .ok x ↔ i.Adds records read x := by
  constructor
  · intro h
    cases i with
    | positional text plain => cases h; exact .positional
    | unknown => cases h
    | given o value =>
      cases o with
      | environment =>
        simp only [addition] at h
        split at h
        · cases h; exact .environment ((ofName?_eq_some_iff _ _).1 ‹_›)
        · cases h
      | override =>
        simp only [addition] at h
        split at h
        · cases h
          obtain ⟨rfl, hkey⟩ := assignment?_eq_some_iff.1 ‹_›
          exact .override hkey
        · cases h
      | migrations =>
        simp only [addition] at h
        split at h
        · cases h
        · split at h
          · cases h
          · cases h; exact .migrations ‹_› ‹_›
  · intro h
    cases h with
    | positional => rfl
    | environment hname => rw [addition, (ofName?_eq_some_iff _ _).2 hname]
    | override hkey => rw [addition, assignment?_eq_some_iff.2 ⟨rfl, hkey⟩]
    | migrations hread hrecords => rw [addition, hread]; dsimp only; rw [hrecords]

theorem addition_eq_error_iff (fault : OptionFault) :
    i.addition records read = .error fault ↔ i.Fails records read fault := by
  constructor
  · intro h
    cases i with
    | positional => cases h
    | unknown => cases h; exact .unknown
    | given o value =>
      cases o with
      | environment =>
        simp only [addition] at h
        split at h
        · cases h
        · cases h; exact .environment ((ofName?_eq_none_iff _).1 ‹_›)
      | override =>
        simp only [addition] at h
        split at h
        · cases h
        · cases h; exact .override ((assignment?_eq_none_iff _).1 ‹_›)
      | migrations =>
        simp only [addition] at h
        split at h
        · cases h; exact .unreadable ‹_›
        · split at h
          · cases h; exact .migrations ‹_› ‹_›
          · cases h
  · intro h
    cases h with
    | environment hnone => rw [addition, (ofName?_eq_none_iff _).2 hnone]
    | override hnone => rw [addition, (assignment?_eq_none_iff _).2 hnone]
    | unreadable hread => rw [addition, hread]
    | migrations hread hrecords => rw [addition, hread]; dsimp only; rw [hrecords]
    | unknown => rfl

end Argument

namespace Addition

def positional? : Addition → Option String
  | .positional text => some text
  | _ => none

def environment? : Addition → Option Environment
  | .environment e => some e
  | _ => none

def override? : Addition → Option (String × String)
  | .override key value => some (key, value)
  | _ => none

def migrations? : Addition → Option Migrations
  | .migrations m => some m
  | _ => none

def addTo (a : Arguments) : Addition → Arguments
  | .positional text => { a with positional := a.positional ++ [text] }
  | .environment e => { a with options := { a.options with environment := e } }
  | .override key value => { a with options := a.options.set key value }
  | .migrations m => { a with options := { a.options with migrations := m } }

/-- Of what is added, each positional argument stays, and else the last of its kind. -/
theorem foldl_addTo (a : Arguments) (added : List Addition) :
    added.foldl addTo a =
      { positional := a.positional ++ added.filterMap positional?
        options :=
          { environment := (added.filterMap environment?).getLast?.getD a.options.environment
            overrides := a.options.overrides.insertAll (added.filterMap override?)
            migrations := (added.filterMap migrations?).getLast?.getD a.options.migrations } } := by
  induction added generalizing a with
  | nil => simp [Bindings.insertAll]
  | cons x added ih =>
    rw [List.foldl_cons, ih]
    cases x <;>
      simp [addTo, Options.set, List.filterMap_cons, positional?, environment?, override?,
        migrations?, Bindings.insertAll, List.getLast?_cons]

end Addition

/-- Arguments in their order, and an option behind them that lacks its value. -/
structure Line where
  items : List Argument
  last : Option OptionName := none

namespace Line

def words (l : Line) : List String :=
  l.items.flatMap Argument.words ++ (l.last.map OptionName.spelling).toList

/-- All that is wrong with a line, in its order. -/
def faults (records : ReadRecords) (read : Read) (l : Line) : List OptionFault :=
  l.items.filterMap (Argument.fault? records read) ++ (l.last.map OptionName.missing).toList

def additions (records : ReadRecords) (read : Read) (l : Line) : List Addition :=
  l.items.filterMap (Argument.added? records read)

/-- The arguments that stand by themselves and are no options. -/
def positionals (l : Line) : List String := l.items.filterMap Argument.positional?

/-- The options with their values, and those that there are not. -/
def optional (l : Line) : List Argument := l.items.filter fun i => i.positional?.isNone

/-- What a line comes to that adds all this. -/
structure Gives (l : Line) (added : List Addition) (a : Arguments) : Prop where
  positional : a.positional = l.positionals
  environment : a.options.environment =
    (added.filterMap Addition.environment?).getLast?.getD .development
  overrides : ∀ key, a.options.overrides.get? key =
    (added.filterMap Addition.override?).reverse.lookup key
  migrations : a.options.migrations = (added.filterMap Addition.migrations?).getLast?.getD .empty

/-- A word is an option that takes a value, or an argument by itself. -/
theorem exists_spelling_or_argument (word : String) :
    (∃ o : OptionName, word = o.spelling) ∨ ∃ i : Argument, i.words = [word] := by
  by_cases hspelled : ∃ o : OptionName, word = o.spelling
  · exact .inl hspelled
  · right
    by_cases hdashed : ['-', '-'] <+: word.toList
    · exact ⟨.unknown word hdashed (not_exists.mp hspelled), rfl⟩
    · exact ⟨.positional word hdashed, rfl⟩

/-- From left to right, all arguments make up a line. -/
theorem exists_words : (arguments : List String) → ∃ l : Line, l.words = arguments
  | [] => ⟨⟨[], none⟩, rfl⟩
  | [word] => by
    obtain ⟨o, rfl⟩ | ⟨i, hi⟩ := exists_spelling_or_argument word
    · exact ⟨⟨[], some o⟩, rfl⟩
    · exact ⟨⟨[i], none⟩, by simp [words, hi]⟩
  | word :: value :: rest => by
    obtain ⟨o, rfl⟩ | ⟨i, hi⟩ := exists_spelling_or_argument word
    · obtain ⟨l, hl⟩ := exists_words rest
      exact ⟨⟨.given o value :: l.items, l.last⟩, by simp [← hl, words, Argument.words]⟩
    · obtain ⟨l, hl⟩ := exists_words (value :: rest)
      exact ⟨⟨i :: l.items, l.last⟩, by simp [← hl, words, hi]⟩

end Line

namespace Arguments
variable (records : ReadRecords) (read : Read) (a : Arguments)

/-- Sets an option to a value. -/
def set (a : Arguments) : OptionName → String → Reading Arguments
  | .environment, name => setEnvironment a name
  | .override, text => setOverride a text
  | .migrations, path => setMigrations records read a path

theorem addAll_given (o : OptionName) (value : String) (rest : List String) :
    addAll records read a (o.spelling :: value :: rest) =
      a.set records read o value >>= fun b => addAll records read b rest := by
  cases o <;> rfl

theorem addAll_missing (o : OptionName) :
    addAll records read a [o.spelling] = Traced.fail o.missing := by
  cases o <;> rfl

theorem addAll_other {text : String} (rest : List String)
    (h : ∀ o : OptionName, text ≠ o.spelling) :
    addAll records read a (text :: rest) =
      if isOption text then Traced.fail (.unknownOption text)
      else addAll records read { a with positional := a.positional ++ [text] } rest := by
  rw [addAll]
  · exact fun _ _ hword _ => h .environment hword
  · exact fun _ _ hword _ => h .override hword
  · exact fun _ _ hword _ => h .migrations hword
  · exact fun hword _ => h .environment hword
  · exact fun hword _ => h .override hword
  · exact fun hword _ => h .migrations hword

theorem result_set (o : OptionName) (value : String) :
    (a.set records read o value).result =
      ((Argument.given o value).addition records read).map (Addition.addTo a) := by
  cases o with
  | environment =>
    simp only [set, setEnvironment, Argument.addition]
    cases Environment.ofName? value <;> rfl
  | override =>
    simp only [set, setOverride, Argument.addition]
    cases assignment? value <;> rfl
  | migrations =>
    simp only [set, setMigrations, Argument.addition, Traced.result_bind, Traced.tell, Traced.lift]
    cases read value with
    | error fault => rfl
    | ok text =>
      cases hjson : records text with
      | error fault => simp only [Except.mapError, bind, Except.bind, Except.map, hjson]
      | ok m =>
        simp only [Except.mapError, bind, Except.bind, Except.map, hjson]
        rfl

/-- One argument adds what it says, or is the end. -/
theorem result_addAll_words (i : Argument) (rest : List String) :
    (addAll records read a (i.words ++ rest)).result =
      (i.addition records read).bind fun x => (addAll records read (x.addTo a) rest).result := by
  cases i with
  | given o value =>
    show (addAll records read a (o.spelling :: value :: rest)).result = _
    rw [addAll_given, Traced.result_bind, result_set]
    cases (Argument.given o value).addition records read <;> rfl
  | unknown text dashed other =>
    show (addAll records read a (text :: rest)).result = _
    rw [addAll_other records read a rest other, if_pos ((OptionName.isOption_iff _).2 dashed)]
    rfl
  | positional text plain =>
    have hother (o : OptionName) : text ≠ o.spelling := by
      rintro rfl
      exact plain o.dashed_spelling
    show (addAll records read a (text :: rest)).result = _
    rw [addAll_other records read a rest hother, if_neg (mt (OptionName.isOption_iff _).1 plain)]
    rfl

/-- The first fault of a line decides; without one, all its arguments are added. -/
theorem result_addAll_line (l : Line) :
    (addAll records read a l.words).result =
      match (l.faults records read).head? with
      | some fault => .error fault
      | none => .ok ((l.additions records read).foldl Addition.addTo a) := by
  obtain ⟨items, last⟩ := l
  -- by induction on the arguments, whatever has been read in front of them
  induction items generalizing a with
  | nil =>
    cases last with
    | none => rfl
    | some o =>
      show (addAll records read a [o.spelling]).result = _
      rw [addAll_missing]
      rfl
  | cons i items ih =>
    have hwords : (Line.mk (i :: items) last).words = i.words ++ (Line.mk items last).words := by
      simp [Line.words]
    rw [hwords, result_addAll_words]
    cases hi : i.addition records read with
    | error fault => simp [Line.faults, Argument.fault?, hi, Except.bind]
    | ok x =>
      have hfaults : (Line.mk (i :: items) last).faults records read =
          (Line.mk items last).faults records read := by
        simp [Line.faults, Argument.fault?, hi]
      have hadditions : (Line.mk (i :: items) last).additions records read =
          x :: (Line.mk items last).additions records read := by
        simp [Line.additions, Argument.added?, hi, Except.toOption]
      rw [hfaults, hadditions]
      exact ih (x.addTo a)

end Arguments

namespace Line
variable {records : ReadRecords} {read : Read} {l m : Line}

/-- What is asked of the options alone can do without the positional arguments. -/
theorem filterMap_optional {β : Type} {g : Argument → Option β}
    (hg : ∀ text plain, g (.positional text plain) = none) (l : Line) :
    l.optional.filterMap g = l.items.filterMap g := by
  rw [optional, List.filterMap_filter]
  refine List.filterMap_congr fun i _ => ?_
  cases i with
  | positional text plain => exact (hg text plain).symm
  | given | unknown => rfl

theorem filterMap_additions {β : Type} {g : Addition → Option β}
    (hg : ∀ text, g (.positional text) = none) (records : ReadRecords) (read : Read) (l : Line) :
    (l.additions records read).filterMap g =
      l.optional.filterMap fun i => (i.added? records read).bind g := by
  rw [additions, List.filterMap_filterMap]
  exact (filterMap_optional (fun text _ => hg text) l).symm

theorem positionals_additions (records : ReadRecords) (read : Read) (l : Line) :
    (l.additions records read).filterMap Addition.positional? = l.positionals := by
  rw [additions, List.filterMap_filterMap]
  refine List.filterMap_congr fun i _ => ?_
  cases i with
  | positional | unknown => rfl
  | given o value =>
    cases o with
    | environment =>
      simp only [Argument.added?, Argument.addition]
      cases Environment.ofName? value <;> rfl
    | override =>
      simp only [Argument.added?, Argument.addition]
      cases assignment? value <;> rfl
    | migrations =>
      simp only [Argument.added?, Argument.addition]
      cases read value with
      | error => rfl
      | ok text => dsimp only; cases records text <;> rfl

theorem gives (records : ReadRecords) (read : Read) (l : Line) :
    l.Gives (l.additions records read) ((l.additions records read).foldl Addition.addTo {}) := by
  rw [Addition.foldl_addTo]
  exact
    { positional := positionals_additions records read l
      environment := rfl
      overrides key := by simp [Bindings.get?_insertAll]
      migrations := rfl }

/-- The positional arguments may stand anywhere among the options. -/
theorem result_congr (records : ReadRecords) (read : Read)
    (hpositionals : l.positionals = m.positionals) (hoptional : l.optional = m.optional) (hlast : l.last = m.last) :
    (Arguments.addAll records read {} l.words).result =
      (Arguments.addAll records read {} m.words).result := by
  have hfaults : l.faults records read = m.faults records read := by
    rw [faults, faults, hlast, ← filterMap_optional (fun _ _ => rfl), hoptional,
      filterMap_optional fun _ _ => rfl]
  have hadditions {β : Type} {g : Addition → Option β} (hg : ∀ text, g (.positional text) = none) :
      (l.additions records read).filterMap g = (m.additions records read).filterMap g := by
    rw [filterMap_additions hg, filterMap_additions hg, hoptional]
  rw [Arguments.result_addAll_line, Arguments.result_addAll_line, hfaults, Addition.foldl_addTo,
    Addition.foldl_addTo, positionals_additions, positionals_additions, hpositionals,
    hadditions (g := Addition.environment?) fun _ => rfl,
    hadditions (g := Addition.override?) fun _ => rfl,
    hadditions (g := Addition.migrations?) fun _ => rfl]

end Line

namespace Line
variable {records : ReadRecords} {read : Read} {l : Line} {items : List Argument}

theorem filterMap_fault?_eq_nil (h : ∀ i ∈ items, ∃ x, i.Adds records read x) :
    items.filterMap (Argument.fault? records read) = [] := by
  refine List.filterMap_eq_nil_iff.2 fun i hi => ?_
  obtain ⟨x, hx⟩ := h i hi
  rw [Argument.fault?, (Argument.addition_eq_ok_iff x).2 hx]

theorem filterMap_added?_eq {added : List Addition}
    (h : List.Forall₂ (Argument.Adds records read) items added) :
    items.filterMap (Argument.added? records read) = added := by
  induction h with
  | nil => rfl
  | @cons i x items added hx _ ih =>
    have hadded : i.added? records read = some x := by
      rw [Argument.added?, (Argument.addition_eq_ok_iff x).2 hx]
      rfl
    rw [List.filterMap_cons_some hadded, ih]

/-- The first argument that fails is the first fault. -/
theorem head?_faults {front rest : List Argument} {i : Argument} {fault : OptionFault}
    (hitems : l.items = front ++ i :: rest) (hfront : ∀ j ∈ front, ∃ x, j.Adds records read x)
    (hi : i.Fails records read fault) : (l.faults records read).head? = some fault := by
  have hfault : i.fault? records read = some fault := by
    rw [Argument.fault?, (Argument.addition_eq_error_iff fault).2 hi]
  rw [faults, hitems, List.filterMap_append, filterMap_fault?_eq_nil hfront,
    List.filterMap_cons_some hfault]
  rfl

end Line

/-- Whatever the arguments are, the files hold and the records in them are: arguments are read from left
to right, and an option takes the one behind it. The first argument that fails decides, then an option
that nothing follows; without these a line comes to its positional arguments and the last of each option.
Lines of the same options around the same positional arguments come to the same. -/
theorem addAll_exact (records : ReadRecords) (read : Read) :
    (∀ arguments, ∃ l : Line, l.words = arguments) ∧
    (∀ i : Argument, (∃ x, i.Adds records read x) ∨ ∃ fault, i.Fails records read fault) ∧
    (∀ l : Line,
      (∀ front i rest fault, l.items = front ++ i :: rest →
        (∀ j ∈ front, ∃ x, j.Adds records read x) → i.Fails records read fault →
        (Arguments.addAll records read {} l.words).result = .error fault) ∧
      (∀ o, (∀ i ∈ l.items, ∃ x, i.Adds records read x) → l.last = some o →
        (Arguments.addAll records read {} l.words).result = .error o.missing) ∧
      (∀ added, List.Forall₂ (Argument.Adds records read) l.items added → l.last = none →
        ∃ a, (Arguments.addAll records read {} l.words).result = .ok a ∧ l.Gives added a)) ∧
    ∀ l m : Line, l.positionals = m.positionals → l.optional = m.optional → l.last = m.last →
      (Arguments.addAll records read {} l.words).result =
        (Arguments.addAll records read {} m.words).result := by
  refine ⟨Line.exists_words, fun i => ?_, fun l => ⟨?_, ?_, ?_⟩, fun l m =>
    Line.result_congr records read⟩
  · cases hi : i.addition records read with
    | ok x => exact .inl ⟨x, (Argument.addition_eq_ok_iff x).1 hi⟩
    | error fault => exact .inr ⟨fault, (Argument.addition_eq_error_iff fault).1 hi⟩
  · intro front i rest fault hitems hfront hi
    rw [Arguments.result_addAll_line, Line.head?_faults hitems hfront hi]
  · intro o hadds hlast
    rw [Arguments.result_addAll_line, Line.faults, Line.filterMap_fault?_eq_nil hadds, hlast]
    rfl
  · intro added hadded hlast
    have hadds : ∀ i ∈ l.items, ∃ x, i.Adds records read x :=
      ((List.forall₂_and_left _ _).1 (hadded.imp fun i x hx => ⟨⟨x, hx⟩, hx⟩)).1
    obtain rfl : l.additions records read = added := Line.filterMap_added?_eq hadded
    refine ⟨_, ?_, l.gives records read⟩
    rw [Arguments.result_addAll_line, Line.faults, Line.filterMap_fault?_eq_nil hadds, hlast]
    rfl

end SqlComposer.CommandLine
