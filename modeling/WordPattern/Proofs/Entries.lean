/-
What a table of definitions is converted to: the first bad entry is reported,
with its position and name; without one every entry is in the group, once and
under its own name, `toGroupBy_first_bad_entry`.
-/
import WordPattern.Definition
import WordPattern.Proofs.Dispatch
import WordPattern.Proofs.First

namespace WordPattern

namespace PatternDef

/-- Why a definition gives no pattern. -/
inductive Bad (d : PatternDef) : Error → Prop where
  /-- Its text is no spec. -/
  | text {cause} : Spec.ofText d.pattern = .error cause → Bad d (.text d.pattern cause)
  /-- The spec that its text stands for does not compile. -/
  | compile {spec : Spec} {cause} : Spec.ofText d.pattern = .ok spec → spec.compile d.name = .error cause →
      Bad d (.compile d.pattern cause)

variable {d : PatternDef} {e : Error} {p : Pattern}

theorem toPattern_eq_error_iff : d.toPattern = .error e ↔ d.Bad e := by
  rw [toPattern, Pattern.ofText]
  constructor
  · intro h
    split at h
    · next cause hcause =>
      cases h
      exact .text hcause
    · next spec hspec =>
      split at h
      · next cause hcause =>
        cases h
        exact .compile hspec hcause
      · cases h
  · intro h
    cases h with
    | text hcause => rw [hcause]
    | compile hspec hcause => simp only [hspec, hcause]

theorem name_of_toPattern (h : d.toPattern = .ok p) : p.name = d.name := by
  obtain ⟨spec, -, hcompile⟩ := Pattern.ofText_eq_ok_iff.mp h
  obtain ⟨-, rfl⟩ := Spec.compile_eq_ok_iff.mp hcompile
  rfl

end PatternDef

namespace GroupDef

variable {d : GroupDef} {σ : Arrangement} {ps : List Pattern} {i : Nat} {entry : PatternDef} {e : Error}

theorem names_of_made {defs : List PatternDef} (h : Made PatternDef.toPattern defs ps) :
    ps.map Pattern.name = defs.map PatternDef.name := by
  induction h with
  | nil => rfl
  | cons hp _ ih => rw [List.map_cons, List.map_cons, PatternDef.name_of_toPattern hp, ih]

theorem exists_failsAt_iff :
    (∃ i e, FailsAt PatternDef.toPattern d.patterns i e) ↔ ∃ entry ∈ d.patterns, ∃ e, entry.Bad e := by
  simp only [FailsAt, PatternDef.toPattern_eq_error_iff, List.mem_iff_getElem?]
  exact ⟨fun ⟨i, e, entry, hi, he⟩ => ⟨entry, ⟨i, hi⟩, e, he⟩,
    fun ⟨entry, ⟨i, hi⟩, e, he⟩ => ⟨i, e, entry, hi, he⟩⟩

/-- The first failure is reported as its entry's. -/
theorem toGroupBy_of_first (h : First (FailsAt PatternDef.toPattern d.patterns) i e)
    (hentry : d.patterns[i]? = some entry) : d.toGroupBy σ = .error (.entry i entry.name e) := by
  have hall : makeAll PatternDef.build 0 d.patterns = .error (.entry i entry.name e) :=
    makeAll_mapError_of_first (fun i (entry : PatternDef) => Error.entry i entry.name) h hentry
  rw [toGroupBy, hall]

/-- Patterns made of all entries make a group. -/
theorem toGroupBy_of_made (h : Made PatternDef.toPattern d.patterns ps) :
    d.toGroupBy σ = (Group.ofListBy σ ps).mapError .group := by
  have hall : makeAll PatternDef.build 0 d.patterns = .ok ps :=
    makeAll_mapError_of_made (fun i (entry : PatternDef) => Error.entry i entry.name) h 0
  rw [toGroupBy, hall]

theorem exists_entry_of_bad (h : ∃ entry ∈ d.patterns, ∃ e, entry.Bad e) (σ : Arrangement) :
    ∃ i entry e, d.patterns[i]? = some entry ∧ entry.Bad e ∧
      First (FailsAt PatternDef.toPattern d.patterns) i e ∧
      d.toGroupBy σ = .error (.entry i entry.name e) := by
  obtain ⟨i, e, hfirst⟩ := exists_first (exists_failsAt_iff.mpr h)
  obtain ⟨entry, hentry, he⟩ := hfirst.here
  exact ⟨i, entry, e, hentry, PatternDef.toPattern_eq_error_iff.mp he, hfirst,
    toGroupBy_of_first hfirst hentry⟩

theorem exists_group_of_not_bad (hne : d.patterns ≠ []) (h : ¬ ∃ entry ∈ d.patterns, ∃ e, entry.Bad e)
    (σ : Arrangement) :
    ∃ g ps, d.toGroupBy σ = .ok g ∧ Made PatternDef.toPattern d.patterns ps ∧ g.patterns.Perm ps := by
  obtain ⟨ps, hps⟩ := exists_made fun i e hfail => h (exists_failsAt_iff.mp ⟨i, e, hfail⟩)
  have hps_ne : ps ≠ [] := by
    rw [← List.length_pos_iff, ← hps.length_eq, List.length_pos_iff]
    exact hne
  obtain ⟨g, hg, -⟩ := Group.exists_ofListBy σ hps_ne
  refine ⟨g, ps, ?_, hps, Group.perm_of_ofListBy hg⟩
  rw [toGroupBy_of_made hps, hg]
  rfl

theorem toGroupBy_eq_empty_iff : d.toGroupBy σ = .error (.group .empty) ↔ d.patterns = [] := by
  refine ⟨fun hempty => ?_, fun hnil => by rw [toGroupBy, hnil]; rfl⟩
  by_contra hne
  by_cases hbad : ∃ entry ∈ d.patterns, ∃ e, entry.Bad e
  · obtain ⟨i, entry, e, -, -, -, hentry⟩ := exists_entry_of_bad hbad σ
    rw [hentry] at hempty
    cases hempty
  · obtain ⟨g, ps, hg, -⟩ := exists_group_of_not_bad hne hbad σ
    rw [hg] at hempty
    cases hempty

/-- **The first bad entry of a table is reported, and only that**, by its
position, its name and the error that it gives alone. A table without entries is
no group. Any other makes a pattern of each entry, under the entry's name. -/
theorem toGroupBy_first_bad_entry (σ : Arrangement) (d : GroupDef) :
    ((∃ entry ∈ d.patterns, ∃ e, entry.Bad e) →
      ∃ i entry e, d.patterns[i]? = some entry ∧ entry.Bad e ∧
        First (FailsAt PatternDef.toPattern d.patterns) i e ∧
        d.toGroupBy σ = .error (.entry i entry.name e)) ∧
    (d.toGroupBy σ = .error (.group .empty) ↔ d.patterns = []) ∧
    (d.patterns ≠ [] → (¬ ∃ entry ∈ d.patterns, ∃ e, entry.Bad e) →
      ∃ g ps, d.toGroupBy σ = .ok g ∧ Made PatternDef.toPattern d.patterns ps ∧
        ps.map Pattern.name = d.patterns.map PatternDef.name ∧ g.patterns.Perm ps ∧
        g.patterns.Pairwise fun a b => b.specificity ≤ a.specificity) := by
  refine ⟨fun h => exists_entry_of_bad h σ, toGroupBy_eq_empty_iff, fun hne hgood => ?_⟩
  obtain ⟨g, ps, hg, hps, hperm⟩ := exists_group_of_not_bad hne hgood σ
  exact ⟨g, ps, hg, hps, names_of_made hps, hperm, g.ordered⟩

end GroupDef
end WordPattern
