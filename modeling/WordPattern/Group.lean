/-
Groups of patterns, and the pattern a word is dispatched to.

A group holds at least one pattern and keeps its patterns in an order in
which the specificity never increases. A word goes to the first pattern it
matches, so to a most specific one. Nothing is promised about the order of
patterns of equal specificity: an `Arrangement` is any sorting of patterns by
specificity, `ofListBy` builds a group with a given one, and `ofList` with
the stable one.

`isTied` and `isContested` tell where that freedom shows: in the order of the
group, and in the pattern that a given word goes to.
-/
import WordPattern.Pattern

namespace WordPattern

/-- Why a list of patterns is no group. -/
inductive GroupError where
  | empty
  deriving DecidableEq

/-- Patterns in the order in which a word is tried on them. -/
structure Group where
  /-- The patterns in dispatch order. -/
  patterns : List Pattern
  nonempty : patterns ≠ []
  ordered : patterns.Pairwise (fun a b => b.specificity ≤ a.specificity)
  deriving DecidableEq

namespace Group

/-- Whether `a` may stand before `b`. -/
def mayPrecede (a b : Pattern) : Bool := decide (b.specificity ≤ a.specificity)

/-- The patterns of a list, most specific first. -/
def arrange (ps : List Pattern) : List Pattern := ps.mergeSort mayPrecede

theorem arrange_perm (ps : List Pattern) : (arrange ps).Perm ps := List.mergeSort_perm ps mayPrecede

theorem arrange_ordered (ps : List Pattern) :
    (arrange ps).Pairwise (fun a b => b.specificity ≤ a.specificity) := by
  have h : (arrange ps).Pairwise (fun a b => mayPrecede a b = true) :=
    List.pairwise_mergeSort
      (fun a b c hab hbc => by simp only [mayPrecede, decide_eq_true_eq] at *; omega)
      (fun a b => by simp only [mayPrecede, Bool.or_eq_true, decide_eq_true_eq]; omega) ps
  exact h.imp (fun hab => by simpa [mayPrecede] using hab)

end Group

/-- A way to put patterns into dispatch order: it neither drops nor repeats a
pattern, and the specificity never increases. -/
structure Arrangement where
  order : List Pattern → List Pattern
  perm : ∀ ps, (order ps).Perm ps
  ordered : ∀ ps, (order ps).Pairwise (fun a b => b.specificity ≤ a.specificity)

/-- Patterns of equal specificity stay in the order they came in. -/
def Arrangement.stable : Arrangement := ⟨Group.arrange, Group.arrange_perm, Group.arrange_ordered⟩

namespace Group

/-- The group of the patterns of a list, put into order by `σ`. -/
def ofListBy (σ : Arrangement) (ps : List Pattern) : Except GroupError Group :=
  if h : ps = [] then .error .empty
  else .ok ⟨σ.order ps, fun he => h (by simpa [he] using (σ.perm ps).symm), σ.ordered ps⟩

/-- A group of the patterns of a list. -/
def ofList (ps : List Pattern) : Except GroupError Group := ofListBy .stable ps

/-- The first pattern in dispatch order that `w` matches. -/
def find (g : Group) (w : Word) : Option Pattern := g.patterns.find? (·.accepts w)

/-- Equal patterns count each for itself. -/
def size (g : Group) : Nat := g.patterns.length

/-! ## Where the order is free -/

/-- Whether two unequal patterns have the same specificity: then the group
has another admissible order. -/
def isTied (g : Group) : Bool :=
  g.patterns.any fun a => g.patterns.any fun b => a.specificity == b.specificity && a != b

/-- Whether `w` matches, besides the pattern it goes to, an unequal one that
is as specific. -/
def isContested (g : Group) (w : Word) : Bool :=
  match g.find w with
  | none => false
  | some p => g.patterns.any fun q => q.accepts w && q.specificity == p.specificity && q != p

theorem find_mem {g : Group} {w : Word} {p : Pattern} (h : g.find w = some p) :
    p ∈ g.patterns ∧ p.accepts w = true := by
  unfold find at h
  exact ⟨List.mem_of_find?_eq_some h, by simpa using List.find?_some h⟩

theorem find_eq_none_iff {g : Group} {w : Word} :
    g.find w = none ↔ ∀ p ∈ g.patterns, p.accepts w = false := by
  simp [find]

end Group
end WordPattern
