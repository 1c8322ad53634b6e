/-
The log of a run: each pattern as it is made, the group once it has all of them,
and then each word as it is dispatched. `BuildLog` and `RunLog` say this event
by event, and `logRunBy_faithful` that the logs of the program are such.
-/
import WordPattern.Event
import WordPattern.Proofs.Dispatch
import WordPattern.Proofs.First
import WordPattern.Proofs.Layout

namespace WordPattern

/-! ## What is reported -/

/-- What is reported of a pattern that was made. -/
def Pattern.compiledEvent (p : Pattern) : Event := .compiled p.name p.length p.specificity p.captures.length

/-- What is reported of a word that a group has decoded. -/
def Group.dispatchedEvent (g : Group) (w : Word) : Event :=
  .dispatched w ((g.decode w).bind (·.pattern.name))

/-- The log of building a group, put into order by `σ`, of what `make` makes
of items. The errors of the items and of the group are called `name` and
`whole`. -/
inductive BuildLog {α ε δ : Type} (make : α → Except ε Pattern) (name : Nat → α → ε → δ)
    (whole : GroupError → δ) (σ : Arrangement) (as : List α) : Logged (Except δ Group) → Prop where
  /-- The patterns before the first failure are reported. -/
  | stopped {i : Nat} {a : α} {e : ε} {ps : List Pattern} :
      First (FailsAt make as) i e → as[i]? = some a → Made make (as.take i) ps →
      BuildLog make name whole σ as ⟨ps.map Pattern.compiledEvent, .error (name i a e)⟩
  /-- Nothing is reported where nothing is to be made. -/
  | empty : as = [] → BuildLog make name whole σ as ⟨[], .error (whole .empty)⟩
  /-- All patterns are reported, and then their group. -/
  | built {ps : List Pattern} {g : Group} : Made make as ps → Group.ofListBy σ ps = .ok g →
      BuildLog make name whole σ as ⟨ps.map Pattern.compiledEvent ++ [.grouped as.length], .ok g⟩

/-- The log of building a group of sources and decoding words with it. -/
inductive RunLog (σ : Arrangement) (sources : List Source) (words : List Word) :
    Logged (Except BuildError (Group × List (Option Decoded))) → Prop where
  /-- Without a group there is nothing more to report. -/
  | stopped {events : List Event} {e : BuildError} :
      BuildLog Source.toPattern (fun i _ => BuildError.source i) .group σ sources ⟨events, .error e⟩ →
      RunLog σ sources words ⟨events, .error e⟩
  /-- Each word is reported, in order. -/
  | decoded {events : List Event} {g : Group} :
      BuildLog Source.toPattern (fun i _ => BuildError.source i) .group σ sources ⟨events, .ok g⟩ →
      RunLog σ sources words ⟨events ++ words.map g.dispatchedEvent, .ok (g, words.map g.decode)⟩

/-! ## One pattern -/

theorem Logged.andThen_ok {ε α β : Type} (events : List Event) (a : α)
    (next : α → Logged (Except ε β)) :
    andThen ⟨events, .ok a⟩ next = ⟨events ++ (next a).events, (next a).result⟩ := rfl

theorem Logged.andThen_error {ε α β : Type} (events : List Event) (e : ε)
    (next : α → Logged (Except ε β)) : andThen ⟨events, .error e⟩ next = ⟨events, .error e⟩ := rfl

theorem Logged.mapError_ofBuilt {ε δ α : Type} (f : ε → δ) (event : α → Event) (x : Except ε α) :
    (ofBuilt event x).mapError f = ofBuilt event (x.mapError f) := by
  cases x <;> rfl

theorem Spec.logCompile_eq (name : Option String) (s : Spec) :
    s.logCompile name = .ofBuilt Pattern.compiledEvent (s.compile name) := by
  rw [logCompile]
  cases h : s.compile name with
  | error e => rfl
  | ok p =>
    obtain ⟨-, rfl⟩ := compile_eq_ok_iff.mp h
    rfl

theorem Pattern.logOfText_eq (name : Option String) (text : String) :
    logOfText name text = .ofBuilt compiledEvent (ofText name text) := by
  rw [logOfText, ofText]
  cases Spec.ofText text with
  | error e => rfl
  | ok spec =>
    simp only [Spec.logCompile_eq, Logged.mapError_ofBuilt]
    cases spec.compile name <;> rfl

theorem Source.logToPattern_eq (s : Source) : s.logToPattern = .ofBuilt Pattern.compiledEvent s.toPattern := by
  rw [logToPattern, toPattern]
  cases s.spec.toSpec with
  | error e => rfl
  | ok spec =>
    simp only [Spec.logCompile_eq, Logged.mapError_ofBuilt]
    cases spec.compile s.name <;> rfl

theorem Source.logBuild_eq (index : Nat) (s : Source) :
    logBuild index s = .ofBuilt Pattern.compiledEvent (s.toPattern.mapError (.source index)) := by
  rw [logBuild, logToPattern_eq, Logged.mapError_ofBuilt]

theorem GroupDef.logEntry_eq (index : Nat) (d : PatternDef) :
    logEntry index d = .ofBuilt Pattern.compiledEvent (d.toPattern.mapError (.entry index d.name)) := by
  rw [logEntry, PatternDef.logToPattern, Pattern.logOfText_eq, Logged.mapError_ofBuilt, PatternDef.toPattern]

/-! ## Pattern after pattern -/

section Building

variable {α β ε δ : Type} {make : α → Except ε β} (name : Nat → α → ε → δ) (event : β → Event)
  {done : List α} {bs : List β}

theorem Logged.makeAll_of_made (h : Made make done bs) (index : Nat) :
    makeAll (fun i a => ofBuilt event ((make a).mapError (name i a))) index done =
      ⟨bs.map event, .ok bs⟩ := by
  induction h generalizing index with
  | nil => rfl
  | cons hb _ ih =>
    rw [makeAll, ih, hb, Except.mapError, ofBuilt]
    simp only [andThen_ok, List.append_nil]
    rfl

/-- After the items `done`, a failure ends the log, and nothing of the items
`rest` is in it. -/
theorem Logged.makeAll_of_error (h : Made make done bs) {a : α} {e : ε} (he : make a = .error e)
    (index : Nat) (rest : List α) :
    makeAll (fun i a => ofBuilt event ((make a).mapError (name i a))) index (done ++ a :: rest) =
      ⟨bs.map event, .error (name (index + done.length) a e)⟩ := by
  induction h generalizing index with
  | nil =>
    rw [List.nil_append, makeAll, he]
    rfl
  | cons hb _ ih =>
    rw [List.cons_append, makeAll, ih, hb, Nat.add_right_comm]
    rfl

end Building

/-- Building of steps that each report what they make. -/
theorem buildLog_of_steps {α ε δ : Type} {make : α → Except ε Pattern} {name : Nat → α → ε → δ}
    {step : Nat → α → Logged (Except δ Pattern)} (whole : GroupError → δ) (σ : Arrangement) (as : List α)
    (hstep : ∀ i a, step i a = .ofBuilt Pattern.compiledEvent ((make a).mapError (name i a))) :
    BuildLog make name whole σ as
      ((Logged.makeAll step 0 as).andThen fun ps => (Group.logOfListBy σ ps).mapError whole) := by
  obtain rfl := funext fun i => funext (hstep i)
  -- The steps stop by themselves; what there is to see is where, and what they made before.
  by_cases hfail : ∃ i e, FailsAt make as i e
  · obtain ⟨i, e, hfirst⟩ := exists_first hfail
    obtain ⟨ps, hps⟩ := hfirst.exists_made
    obtain ⟨a, ha, he⟩ := hfirst.here
    have hall := Logged.makeAll_of_error name Pattern.compiledEvent hps he 0 (as.drop (i + 1))
    rw [take_append_cons_drop ha, length_take_of_getElem? ha, Nat.zero_add] at hall
    rw [hall]
    exact .stopped hfirst ha hps
  · obtain ⟨ps, hps⟩ := exists_made fun i e h => hfail ⟨i, e, h⟩
    rw [Logged.makeAll_of_made name Pattern.compiledEvent hps]
    by_cases hne : ps = []
    · subst hne
      exact .empty (List.forall₂_nil_right_iff.mp hps)
    · obtain ⟨g, hg, -⟩ := Group.exists_ofListBy σ hne
      have hsize : g.size = as.length := (Group.perm_of_ofListBy hg).length_eq.trans hps.length_eq.symm
      have hlog : Group.logOfListBy σ ps = ⟨[.grouped as.length], .ok g⟩ := by
        rw [Group.logOfListBy, hg, ← hsize]
        rfl
      rw [Logged.andThen_ok, hlog]
      exact .built hps hg

theorem Source.buildLog_logToGroupBy (σ : Arrangement) (sources : List Source) :
    BuildLog toPattern (fun i _ => BuildError.source i) .group σ sources (logToGroupBy σ sources) :=
  buildLog_of_steps .group σ sources logBuild_eq

theorem GroupDef.buildLog_logToGroupBy (σ : Arrangement) (d : GroupDef) :
    BuildLog PatternDef.toPattern (fun i entry => Error.entry i entry.name) .group σ d.patterns
      (d.logToGroupBy σ) :=
  buildLog_of_steps .group σ d.patterns logEntry_eq

/-! ## Word after word -/

theorem Group.logDecode_eq (g : Group) (w : Word) : g.logDecode w = ⟨[g.dispatchedEvent w], g.decode w⟩ := by
  rw [logDecode, logFind, dispatchedEvent, decode]
  cases g.find w <;> rfl

theorem Group.events_logDecode (g : Group) (words : List Word) :
    (words.map g.logDecode).flatMap (·.events) = words.map g.dispatchedEvent := by
  rw [List.flatMap_map, List.map_eq_flatMap]
  simp only [logDecode_eq]

theorem Group.results_logDecode (g : Group) (words : List Word) :
    (words.map g.logDecode).map (·.result) = words.map g.decode := List.map_map

/-- **A log is a faithful record of its run.** It reports the patterns up to the
first source that makes none; if there is no such source, the group, unless it
would be empty; and then every word, once and in order, with the name of what it
was dispatched to. Converting a table is reported likewise. -/
theorem logRunBy_faithful (σ : Arrangement) (sources : List Source) (words : List Word) (d : GroupDef) :
    RunLog σ sources words (Source.logRunBy σ sources words) ∧
    BuildLog PatternDef.toPattern (fun i entry => Error.entry i entry.name) .group σ d.patterns
      (d.logToGroupBy σ) ∧
    (∀ p : Pattern, p.compiledEvent.level = .debug ∧ p.compiledEvent.message = "compiled bit pattern") ∧
    (∀ n, (Event.grouped n).level = .debug ∧ (Event.grouped n).message = "built pattern group") ∧
    ∀ (g : Group) w, (g.dispatchedEvent w).level = .trace ∧ (g.dispatchedEvent w).message = "dispatched word" := by
  refine ⟨?_, d.buildLog_logToGroupBy σ, fun _ => ⟨rfl, rfl⟩, fun _ => ⟨rfl, rfl⟩, fun _ _ => ⟨rfl, rfl⟩⟩
  have hbuild := Source.buildLog_logToGroupBy σ sources
  rw [Source.logRunBy]
  generalize Source.logToGroupBy σ sources = built at hbuild ⊢
  obtain ⟨events, result⟩ := built
  cases result with
  | error e =>
    rw [Logged.andThen_error]
    exact .stopped hbuild
  | ok g =>
    simp only [Logged.andThen_ok, Group.events_logDecode, Group.results_logDecode]
    exact .decoded hbuild

end WordPattern
