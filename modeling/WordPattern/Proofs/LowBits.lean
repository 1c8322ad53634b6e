/-
What a decoded word tells of the word: literals and fields together are all of
its bits below the winner's length, and nothing else is looked at,
`decode_eq_iff_agree`.
-/
import Mathlib.Data.List.Find
import WordPattern.Group.Decoded
import WordPattern.Proofs.Assembly
import WordPattern.Proofs.Masks

namespace WordPattern

namespace Word

/-- The lowest `n` bits of two words are the same. -/
def Agree (n : Nat) (w v : Word) : Prop := ∀ i < n, w.getBit i = v.getBit i

instance (n : Nat) (w v : Word) : Decidable (Agree n w v) :=
  inferInstanceAs (Decidable (∀ i < n, w.getBit i = v.getBit i))

variable {m n : Nat} {w v : Word}

theorem Agree.symm (h : Agree n w v) : Agree n v w := fun i hi => (h i hi).symm

theorem Agree.mono (h : Agree n w v) (hmn : m ≤ n) : Agree m w v :=
  fun i hi => h i (Nat.lt_of_lt_of_le hi hmn)

theorem agree_iff_mod_eq : Agree n w v ↔ w.toNat % 2 ^ n = v.toNat % 2 ^ n := by
  constructor
  · intro h
    apply Nat.eq_of_testBit_eq
    intro i
    rw [Nat.testBit_mod_two_pow, Nat.testBit_mod_two_pow]
    by_cases hi : i < n
    · rw [← getBit_eq_testBit, ← getBit_eq_testBit, h i hi]
    · rw [decide_eq_false hi, Bool.false_and, Bool.false_and]
  · intro h i hi
    have hbit := congrArg (Nat.testBit · i) h
    simpa only [Nat.testBit_mod_two_pow, hi, decide_true, Bool.true_and, ← getBit_eq_testBit] using hbit

end Word

open Word (Agree)

/-! ## One pattern -/

namespace Spec

variable {s : Spec} {name : Option String} {w v : Word} {vs : List Word}

theorem capture_layOut_eq_some_iff (h : s.Valid) :
    (s.layOut name).capture w = some vs ↔
      Fit s.parts vs ∧ w.toNat % 2 ^ s.totalWidth = assemble 0 s.parts vs := by
  rw [Pattern.capture_eq_some_iff, accepts_layOut h.fits]
  exact values_iff_assemble h.parts h.fits w vs

end Spec

namespace Pattern

variable {p : Pattern} {w v : Word} {vs : List Word}

/-- The bits at `length` and above do not matter. -/
theorem Compiled.capture_eq_of_agree (hp : p.Compiled) (h : Agree p.length w v) :
    p.capture w = p.capture v := by
  obtain ⟨name, s, hs⟩ := hp
  obtain ⟨hv, rfl⟩ := Spec.compile_eq_ok_iff.mp hs
  have hmod : w.toNat % 2 ^ s.totalWidth = v.toNat % 2 ^ s.totalWidth := Word.agree_iff_mod_eq.mp h
  apply Option.ext
  intro vs
  rw [Spec.capture_layOut_eq_some_iff hv, Spec.capture_layOut_eq_some_iff hv, hmod]

/-- All other bits do: they are literals or parts of values. -/
theorem Compiled.agree_of_capture_eq (hp : p.Compiled) (hw : p.capture w = some vs)
    (hv : p.capture v = some vs) : Agree p.length w v := by
  obtain ⟨name, s, hs⟩ := hp
  obtain ⟨hvalid, rfl⟩ := Spec.compile_eq_ok_iff.mp hs
  have hmod := ((Spec.capture_layOut_eq_some_iff hvalid).mp hw).2
  rw [← ((Spec.capture_layOut_eq_some_iff hvalid).mp hv).2] at hmod
  exact Word.agree_iff_mod_eq.mpr hmod

theorem Compiled.accepts_eq_of_agree (hp : p.Compiled) (h : Agree p.length w v) :
    p.accepts w = p.accepts v := by
  rw [Bool.eq_iff_iff, accepts_iff_capture, accepts_iff_capture, hp.capture_eq_of_agree h]

end Pattern

/-! ## Groups -/

namespace Group

variable {g : Group} {w v : Word} {d e : Decoded}

theorem decode_eq_of_agree (hg : ∀ p ∈ g.patterns, p.Compiled)
    (h : ∀ p ∈ g.patterns, Agree p.length w v) : g.decode w = g.decode v := by
  have hfind : g.find w = g.find v :=
    List.find?_congr fun p hp => (hg p hp).accepts_eq_of_agree (h p hp)
  apply Option.ext
  intro d
  rw [decode_eq_some_iff, decode_eq_some_iff, hfind]
  refine and_congr_right fun hd => ?_
  have hmem := (find_mem hd).1
  rw [(hg _ hmem).capture_eq_of_agree (h _ hmem)]

/-- **A result shows the bits below the winner's length, and no more.** Results
are equal exactly when the same pattern won and the words agree below its
length. Words that agree below all patterns' lengths are not told apart. -/
theorem decode_eq_iff_agree (hg : ∀ p ∈ g.patterns, p.Compiled) :
    (∀ w v d e, g.decode w = some d → g.decode v = some e →
      (d = e ↔ d.pattern = e.pattern ∧ Agree d.pattern.length w v)) ∧
    ∀ n, (∀ p ∈ g.patterns, p.length ≤ n) → ∀ w v, Agree n w v → g.decode w = g.decode v := by
  constructor
  · intro w v d e hd he
    obtain ⟨hfind, hcapture⟩ := decode_eq_some_iff.mp hd
    obtain ⟨-, hcapture'⟩ := decode_eq_some_iff.mp he
    have hcompiled := hg _ (find_mem hfind).1
    constructor
    · rintro rfl
      exact ⟨rfl, hcompiled.agree_of_capture_eq hcapture hcapture'⟩
    · intro ⟨hpattern, hagree⟩
      rw [← hpattern, ← hcompiled.capture_eq_of_agree hagree, hcapture] at hcapture'
      cases d
      cases e
      cases hpattern
      cases hcapture'
      rfl
  · intro n hn w v h
    exact decode_eq_of_agree hg fun p hp => h.mono (hn p hp)

/-- Two patterns of different lengths: a word that misses the longer one shows
its lowest four bits, and no word shows more than eight. -/
theorem decode_two_lengths :
    let long := Spec.layOut (some "long") ⟨[.literal 1, .field 3 none, .literal 0, .field 3 none]⟩
    let short := Spec.layOut (some "short") ⟨[.literal 1, .field 3 none]⟩
    ∃ g : Group, g.patterns = [long, short] ∧ (∀ p ∈ g.patterns, p.Compiled) ∧
      (g.decode 0x1D#32 = some ⟨short, [5#32]⟩ ∧ g.decode 0x2D#32 = some ⟨short, [5#32]⟩ ∧
        Agree 4 0x1D#32 0x2D#32) ∧
      ((∀ p ∈ g.patterns, p.length ≤ 8) ∧ Agree 8 0x95#32 0x195#32 ∧
        g.decode 0x95#32 = g.decode 0x195#32) := by
  intro long short
  let g : Group := ⟨[long, short], List.cons_ne_nil _ _, by decide⟩
  have hlong : long.Compiled :=
    ⟨some "long", ⟨[.literal 1, .field 3 none, .literal 0, .field 3 none]⟩, rfl⟩
  have hshort : short.Compiled := ⟨some "short", ⟨[.literal 1, .field 3 none]⟩, rfl⟩
  have hg : ∀ p ∈ g.patterns, p.Compiled :=
    List.forall_mem_cons.mpr ⟨hlong, List.forall_mem_singleton.mpr hshort⟩
  have hd : g.decode 0x1D#32 = some ⟨short, [5#32]⟩ := by decide
  have he : g.decode 0x2D#32 = some ⟨short, [5#32]⟩ := by decide
  have hlength : ∀ p ∈ g.patterns, p.length ≤ 8 := by decide
  have hagree : Agree 8 0x95#32 0x195#32 := by decide
  obtain ⟨hiff, hcongr⟩ := decode_eq_iff_agree hg
  exact ⟨g, rfl, hg, ⟨hd, he, ((hiff _ _ _ _ hd he).mp rfl).2⟩, hlength, hagree, hcongr 8 hlength _ _ hagree⟩

end Group
end WordPattern
