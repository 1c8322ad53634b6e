/-
What building and dispatching report to a log.

A pattern that compiles, a group that is built and a word that is dispatched
each report one event, in the order in which they happen; what fails reports
nothing. `Logged` is a result together with the events on the way to it.
Reporting changes no result: `Source.result_logToGroupBy` and the theorems
beside it say that forgetting the events leaves what the silent operation
gives.
-/
import WordPattern.Definition
import WordPattern.Group.Decoded
import WordPattern.Source

namespace WordPattern

/-- A step that is reported. -/
inductive Event where
  /-- A pattern was compiled, with so many captures. -/
  | compiled (name : Option String) (length specificity captures : Nat)
  /-- A group of so many patterns was built. -/
  | grouped (patterns : Nat)
  /-- A word was dispatched, to the pattern called `matched` if it matches one
  that has a name. -/
  | dispatched (input : Word) (matched : Option String)
  deriving DecidableEq

/-- How closely a log has to look to hold an event. -/
inductive Level where
  | debug
  | trace
  deriving DecidableEq

namespace Event

/-- Building is reported for debugging, and single words only to trace them. -/
def level : Event → Level
  | .compiled .. => .debug
  | .grouped .. => .debug
  | .dispatched .. => .trace

/-- What is said of an event besides its data. -/
def message : Event → String
  | .compiled .. => "compiled bit pattern"
  | .grouped .. => "built pattern group"
  | .dispatched .. => "dispatched word"

end Event

/-- A result and the events on the way to it. -/
structure Logged (α : Type) where
  events : List Event
  result : α

/-- What was built, with its report if it was. -/
def Logged.ofBuilt {ε α : Type} (event : α → Event) : Except ε α → Logged (Except ε α)
  | .ok a => ⟨[event a], .ok a⟩
  | .error e => ⟨[], .error e⟩

/-- One build after another: the second one is reached only if the first
succeeds. -/
def Logged.andThen {ε α β : Type} (first : Logged (Except ε α)) (next : α → Logged (Except ε β)) :
    Logged (Except ε β) :=
  match first.result with
  | .ok a => ⟨first.events ++ (next a).events, (next a).result⟩
  | .error e => ⟨first.events, .error e⟩

/-- The error named as the surrounding build names it. -/
def Logged.mapError {ε δ α : Type} (f : ε → δ) (l : Logged (Except ε α)) : Logged (Except δ α) :=
  ⟨l.events, l.result.mapError f⟩

/-- `make` tried on items whose positions start at `index`, up to the first
failure. -/
def Logged.makeAll {ε α β : Type} (make : Nat → α → Logged (Except ε β)) (index : Nat) :
    List α → Logged (Except ε (List β))
  | [] => ⟨[], .ok []⟩
  | a :: rest =>
    (make index a).andThen fun b => (makeAll make (index + 1) rest).andThen fun bs => ⟨[], .ok (b :: bs)⟩

/-- Compiling reports what the pattern is made of, once it can be made. -/
def Spec.logCompile (name : Option String) (s : Spec) : Logged (Except CompileError Pattern) :=
  .ofBuilt (fun p => .compiled name s.totalWidth (s.parts.length - p.captures.length) p.captures.length)
    (s.compile name)

/-- Reading a text reports nothing; compiling what it says does. -/
def Pattern.logOfText (name : Option String) (text : String) : Logged (Except Error Pattern) :=
  match Spec.ofText text with
  | .error e => ⟨[], .error (.text text e)⟩
  | .ok spec => (spec.logCompile name).mapError (.compile text)

/-- A group reports its size. -/
def Group.logOfListBy (σ : Arrangement) (ps : List Pattern) : Logged (Except GroupError Group) :=
  .ofBuilt (fun g => .grouped g.size) (Group.ofListBy σ ps)

/-- Finding reports the word and the name of what it found. -/
def Group.logFind (g : Group) (w : Word) : Logged (Option Pattern) :=
  let found := g.find w
  ⟨[.dispatched w (found.bind (·.name))], found⟩

/-- Decoding reports what finding reports, and nothing of the values. -/
def Group.logDecode (g : Group) (w : Word) : Logged (Option Decoded) :=
  let found := g.logFind w
  ⟨found.events, found.result.map fun p => ⟨p, p.values w⟩⟩

namespace Source

/-- What compiling reports; a text reports nothing of its own. -/
def logToPattern (s : Source) : Logged (Except SourceError Pattern) :=
  match s.spec.toSpec with
  | .error e => ⟨[], .error (.text e)⟩
  | .ok spec => (spec.logCompile s.name).mapError .compile

/-- The same for the source at position `index`. -/
def logBuild (index : Nat) (s : Source) : Logged (Except BuildError Pattern) :=
  s.logToPattern.mapError (.source index)

/-- All patterns are reported before the group is. -/
def logToGroupBy (σ : Arrangement) (sources : List Source) : Logged (Except BuildError Group) :=
  (Logged.makeAll logBuild 0 sources).andThen fun ps => (Group.logOfListBy σ ps).mapError .group

/-- The group of the patterns of sources, put into order by `σ`, and where
each word goes. -/
def logRunBy (σ : Arrangement) (sources : List Source) (words : List Word) :
    Logged (Except BuildError (Group × List (Option Decoded))) :=
  (logToGroupBy σ sources).andThen fun g =>
    let decoded := words.map g.logDecode
    ⟨decoded.flatMap (·.events), .ok (g, decoded.map (·.result))⟩

/-- Ties stay in the order of the sources. -/
def logRun (sources : List Source) (words : List Word) :
    Logged (Except BuildError (Group × List (Option Decoded))) := logRunBy .stable sources words

end Source

/-- An entry reports what its text does. -/
def PatternDef.logToPattern (d : PatternDef) : Logged (Except Error Pattern) := Pattern.logOfText d.name d.pattern

namespace GroupDef

/-- The same for the entry at position `index`. -/
def logEntry (index : Nat) (d : PatternDef) : Logged (Except Error Pattern) :=
  d.logToPattern.mapError (.entry index d.name)

/-- A table is reported like a list of sources. -/
def logToGroupBy (σ : Arrangement) (d : GroupDef) : Logged (Except Error Group) :=
  (Logged.makeAll logEntry 0 d.patterns).andThen fun ps => (Group.logOfListBy σ ps).mapError .group

end GroupDef

/-! ## Forgetting the events -/

namespace Logged

variable {ε δ α β : Type}

@[simp] theorem result_ofBuilt (event : α → Event) (x : Except ε α) :
    (ofBuilt event x).result = x := by
  cases x <;> rfl

@[simp] theorem result_mapError (f : ε → δ) (l : Logged (Except ε α)) :
    (l.mapError f).result = l.result.mapError f := rfl

theorem result_andThen (first : Logged (Except ε α)) (next : α → Logged (Except ε β)) :
    (first.andThen next).result = first.result.bind fun a => (next a).result := by
  unfold andThen
  cases first.result <;> rfl

theorem result_makeAll (make : Nat → α → Logged (Except ε β)) (index : Nat) (as : List α) :
    (makeAll make index as).result = WordPattern.makeAll (fun i a => (make i a).result) index as := by
  induction as generalizing index with
  | nil => rfl
  | cons a rest ih =>
    simp only [makeAll, result_andThen, WordPattern.makeAll, ih]
    cases (make index a).result with
    | error e => rfl
    | ok b => cases WordPattern.makeAll (fun i a => (make i a).result) (index + 1) rest <;> rfl

end Logged

@[simp] theorem Spec.result_logCompile (name : Option String) (s : Spec) :
    (s.logCompile name).result = s.compile name := Logged.result_ofBuilt _ _

@[simp] theorem Pattern.result_logOfText (name : Option String) (text : String) :
    (logOfText name text).result = ofText name text := by
  rw [logOfText, ofText]
  cases Spec.ofText text with
  | error e => rfl
  | ok spec =>
    simp only [Logged.result_mapError, Spec.result_logCompile]
    cases spec.compile name <;> rfl

@[simp] theorem Group.result_logDecode (g : Group) (w : Word) : (g.logDecode w).result = g.decode w := rfl

@[simp] theorem Source.result_logToPattern (s : Source) : s.logToPattern.result = s.toPattern := by
  rw [logToPattern, toPattern]
  cases s.spec.toSpec with
  | error e => rfl
  | ok spec =>
    simp only [Logged.result_mapError, Spec.result_logCompile]
    cases spec.compile s.name <;> rfl

@[simp] theorem Source.result_logBuild (index : Nat) (s : Source) :
    (logBuild index s).result = build index s := by
  rw [logBuild, Logged.result_mapError, result_logToPattern, build]

theorem Source.result_logToGroupBy (σ : Arrangement) (sources : List Source) :
    (logToGroupBy σ sources).result = toGroupBy σ sources := by
  simp only [logToGroupBy, Logged.result_andThen, Logged.result_makeAll, result_logBuild, Group.logOfListBy,
    Logged.result_mapError, Logged.result_ofBuilt, toGroupBy]
  cases makeAll build 0 sources <;> rfl

@[simp] theorem GroupDef.result_logEntry (index : Nat) (d : PatternDef) :
    (logEntry index d).result = d.build index := by
  rw [logEntry, Logged.result_mapError, PatternDef.logToPattern, Pattern.result_logOfText, PatternDef.build,
    PatternDef.toPattern]

theorem GroupDef.result_logToGroupBy (σ : Arrangement) (d : GroupDef) :
    (d.logToGroupBy σ).result = d.toGroupBy σ := by
  simp only [logToGroupBy, Logged.result_andThen, Logged.result_makeAll, result_logEntry, Group.logOfListBy,
    Logged.result_mapError, Logged.result_ofBuilt, toGroupBy]
  cases makeAll PatternDef.build 0 d.patterns <;> rfl

end WordPattern
