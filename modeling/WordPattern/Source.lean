/-
What patterns are made from: a text or a list of parts, with a name for the
pattern.

The sources of a group are tried in order, and the first one that fails
decides the error.
-/
import WordPattern.Batch
import WordPattern.Error

namespace WordPattern

/-- What a spec comes from. -/
inductive SpecSource where
  | text (text : String)
  | parts (spec : Spec)
  deriving DecidableEq

/-- A text is read, and parts are taken as they are. -/
def SpecSource.toSpec : SpecSource → Except TextError Spec
  | .text t => Spec.ofText t
  | .parts spec => .ok spec

/-- What a pattern comes from. -/
structure Source where
  name : Option String
  spec : SpecSource
  deriving DecidableEq

/-- Why a source makes no pattern. -/
inductive SourceError where
  | text (cause : TextError)
  | compile (cause : CompileError)
  deriving DecidableEq

/-- Why a list of sources makes no group. -/
inductive BuildError where
  /-- The source at position `index` makes no pattern. -/
  | source (index : Nat) (cause : SourceError)
  | group (cause : GroupError)
  deriving DecidableEq

namespace Source

/-- The pattern of a source, called as the source is. -/
def toPattern (s : Source) : Except SourceError Pattern :=
  match s.spec.toSpec with
  | .error e => .error (.text e)
  | .ok spec =>
    match spec.compile s.name with
    | .error e => .error (.compile e)
    | .ok p => .ok p

/-- The pattern of the source at position `index`. -/
def build (index : Nat) (s : Source) : Except BuildError Pattern := s.toPattern.mapError (.source index)

/-- The group of the patterns of sources, put into order by `σ`. -/
def toGroupBy (σ : Arrangement) (sources : List Source) : Except BuildError Group :=
  match makeAll build 0 sources with
  | .error e => .error e
  | .ok ps => (Group.ofListBy σ ps).mapError .group

/-- Ties stay in the order of the sources. -/
def toGroup (sources : List Source) : Except BuildError Group := toGroupBy .stable sources

end Source
end WordPattern
