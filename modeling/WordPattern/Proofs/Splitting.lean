/-
A field cut in two. What lies above its lowest bits and these bits themselves are
two fields of the word, and no bit is lost, `toNat_extract_add`; so two fields
can take its place, and only its value is cut, `capture_split_field`.
-/
import WordPattern.Proofs.Specialisation

namespace WordPattern

open Word (size)

/-! ## Two fields for one -/

namespace Word

variable {left high low : Nat}

theorem extract_high (w : Word) (hl : left < size) (hfit : high + low ≤ left + 1) :
    w.extract left high = w.extract left (high + low) >>> low := by
  refine eq_of_getBit_eq fun i => ?_
  have hpos : left + 1 - (high + low) + (i + low) = left + 1 - high + i := by omega
  rw [getBit_shiftRight, getBit_extract w hl hfit, getBit_extract w hl (by omega), hpos]
  simp only [Nat.add_lt_add_iff_right]

theorem extract_low (w : Word) (hl : left < size) (hlow : 0 < low) (hfit : high + low ≤ left + 1) :
    w.extract (left - high) low = w.extract left (high + low) &&& lowMask low := by
  refine eq_of_getBit_eq fun i => ?_
  have hpos : left - high + 1 - low = left + 1 - (high + low) := by omega
  have hsize : low ≤ size := by omega
  rw [getBit_and, getBit_lowMask hsize, getBit_extract w hl hfit,
    getBit_extract w (by omega) (by omega), hpos]
  by_cases hi : i < low
  · have hi' : i < high + low := by omega
    simp only [hi, hi', decide_true, Bool.true_and, Bool.and_true]
  · simp only [hi, decide_false, Bool.false_and, Bool.and_false]

/-- **A field is its two parts**, the lower one counting up to `2 ^ low`. -/
theorem toNat_extract_add (w : Word) (hl : left < size) (hlow : 0 < low) (hfit : high + low ≤ left + 1) :
    (w.extract left (high + low)).toNat =
      (w.extract left high).toNat * 2 ^ low + (w.extract (left - high) low).toNat := by
  have hbelow : left - high + 1 - low = left + 1 - (high + low) := by omega
  have hdiv : w.toNat / 2 ^ (left + 1 - high) = w.toNat / 2 ^ (left + 1 - (high + low)) / 2 ^ low := by
    rw [Nat.div_div_eq_div_mul, ← Nat.pow_add]
    congr 2
    omega
  rw [toNat_extract w hl hfit, toNat_extract w hl (by omega), toNat_extract w (by omega) (by omega), hbelow, hdiv]
  exact (mod_two_pow_add_eq_iff (Nat.mod_lt _ (Nat.two_pow_pos low))).mpr ⟨rfl, rfl⟩

/-- The value at position `index` cut in two, above its lowest `low` bits. -/
def cutAt (low : Nat) : Nat → List Word → List Word
  | _, [] => []
  | 0, v :: vs => v >>> low :: (v &&& lowMask low) :: vs
  | index + 1, v :: vs => v :: cutAt low index vs

theorem cutAt_append (low : Nat) (us : List Word) (v : Word) (vs : List Word) :
    cutAt low us.length (us ++ v :: vs) = us ++ v >>> low :: (v &&& lowMask low) :: vs := by
  induction us with
  | nil => rfl
  | cons u us ih => rw [List.cons_append, List.length_cons, cutAt, ih, List.cons_append]

end Word

/-! ## In a spec -/

namespace Spec

variable {above below : List Part} {width high low : UInt32} {fieldName highName lowName : Option String}

theorem widthOf_split_field (fieldName : Option String) (hwidth : width.toNat = high.toNat + low.toNat) :
    widthOf (.field high highName :: .field low lowName :: below) = widthOf (.field width fieldName :: below) := by
  simp only [widthOf, Part.width]
  omega

theorem Valid.split_field (h : Spec.Valid ⟨above ++ .field width fieldName :: below⟩)
    (hwidth : width.toNat = high.toNat + low.toNat) (hhigh : high ≠ 0) (hlow : low ≠ 0)
    (highName lowName : Option String) :
    Spec.Valid ⟨above ++ .field high highName :: .field low lowName :: below⟩ := by
  have h' : Spec.Valid ⟨above ++ ([.field width fieldName] ++ below)⟩ := h
  have hvalid : ∀ part ∈ [Part.field high highName, .field low lowName], part.Valid :=
    List.forall_mem_cons.mpr ⟨hhigh, List.forall_mem_singleton.mpr hlow⟩
  exact h'.replace (List.cons_ne_nil _ _) hvalid (widthOf_split_field fieldName hwidth)

theorem setMask_split_field (fieldName : Option String) (hwidth : width.toNat = high.toNat + low.toNat) :
    setMask (above ++ .field high highName :: .field low lowName :: below) =
      setMask (above ++ .field width fieldName :: below) := by
  rw [setMask_append, setMask_append, widthOf_split_field fieldName hwidth]
  rfl

theorem fixedMask_split_field (fieldName : Option String) (hwidth : width.toNat = high.toNat + low.toNat) :
    fixedMask (above ++ .field high highName :: .field low lowName :: below) =
      fixedMask (above ++ .field width fieldName :: below) := by
  rw [fixedMask_append, fixedMask_append, widthOf_split_field fieldName hwidth]
  rfl

/-- Both fields lie where the one lay, and all others stay. -/
theorem values_split_field (h : Spec.Valid ⟨above ++ .field width fieldName :: below⟩)
    (hwidth : width.toNat = high.toNat + low.toNat) (hlow : 0 < low.toNat) (w : Word) :
    (captures (above ++ .field high highName :: .field low lowName :: below)).map (·.extract w) =
      Word.cutAt low.toNat (above.countP Part.isField)
        ((captures (above ++ .field width fieldName :: below)).map (·.extract w)) := by
  have habove : ∀ part ∈ above, part.Valid := fun part hpart => h.parts part (List.mem_append_left _ hpart)
  have hfits := h.field_fits
  obtain ⟨left, hleft⟩ : ∃ left, left = widthOf below + width.toNat - 1 := ⟨_, rfl⟩
  have hl : left < size := by omega
  have hfit : high.toNat + low.toNat ≤ left + 1 := by omega
  have hbelow : high.toNat + widthOf (.field low lowName :: below) = width.toNat + widthOf below := by
    rw [widthOf, Part.width, hwidth, Nat.add_assoc]
  have hhigh : widthOf (.field low lowName :: below) + high.toNat - 1 = left := by
    rw [Nat.add_comm, hbelow, Nat.add_comm, hleft]
  have hlow' : widthOf below + low.toNat - 1 = left - high.toNat := by omega
  calc (captures (above ++ .field high highName :: .field low lowName :: below)).map (·.extract w)
      = (captures above).map (·.extract (w >>> (width.toNat + widthOf below))) ++
          w.extract left high.toNat :: w.extract (left - high.toNat) low.toNat ::
            (captures below).map (·.extract w) := by
        rw [values_field habove, hbelow, hhigh, captures, List.map_cons, Capture.extract, hlow']
    _ = Word.cutAt low.toNat (above.countP Part.isField)
          ((captures above).map (·.extract (w >>> (width.toNat + widthOf below))) ++
            w.extract left (high.toNat + low.toNat) :: (captures below).map (·.extract w)) := by
        rw [Word.extract_high w hl hfit, Word.extract_low w hl hlow hfit, ← Word.cutAt_append, List.length_map,
          length_captures]
    _ = Word.cutAt low.toNat (above.countP Part.isField)
          ((captures (above ++ .field width fieldName :: below)).map (·.extract w)) := by
        rw [values_field habove, ← hleft, hwidth]

theorem capture_layOut_split_field (name name' : Option String)
    (h : Spec.Valid ⟨above ++ .field width fieldName :: below⟩) (hwidth : width.toNat = high.toNat + low.toNat)
    (hlow : 0 < low.toNat) (w : Word) :
    (layOut name' ⟨above ++ .field high highName :: .field low lowName :: below⟩).capture w =
      ((layOut name ⟨above ++ .field width fieldName :: below⟩).capture w).map
        (Word.cutAt low.toNat (above.countP Part.isField)) := by
  have haccepts : (layOut name' ⟨above ++ .field high highName :: .field low lowName :: below⟩).accepts w =
      (layOut name ⟨above ++ .field width fieldName :: below⟩).accepts w := by
    simp only [Pattern.accepts, layOut, setMask_split_field fieldName hwidth,
      fixedMask_split_field fieldName hwidth]
  have hvalues : (layOut name' ⟨above ++ .field high highName :: .field low lowName :: below⟩).values w =
      Word.cutAt low.toNat (above.countP Part.isField)
        ((layOut name ⟨above ++ .field width fieldName :: below⟩).values w) :=
    values_split_field h hwidth hlow w
  rw [Pattern.capture, Pattern.capture, haccepts, hvalues]
  split <;> rfl

/-- **Fields are cut without loss.** A field of a word is found by a division
and a remainder, has the word's bits, and is put together from its two parts. So
two fields can take its place: length, masks and specificity stay, and of the
captured values this one is cut above its lowest `low` bits. -/
theorem capture_split_field :
    (∀ (w : Word) (left width : Nat), left < size → 1 ≤ width → width ≤ left + 1 →
      (w.extract left width).toNat = w.toNat / 2 ^ (left + 1 - width) % 2 ^ width ∧
        ∀ i < width, (w.extract left width).getBit i = w.getBit (left + 1 - width + i)) ∧
    (∀ (w : Word) (left high low : Nat), left < size → 1 ≤ high → 1 ≤ low → high + low ≤ left + 1 →
      (w.extract left (high + low)).toNat =
        (w.extract left high).toNat * 2 ^ low + (w.extract (left - high) low).toNat) ∧
    ∀ (name : Option String) (p : Pattern) (above below : List Part) (width high low : UInt32)
      (fieldName : Option String), compile name ⟨above ++ .field width fieldName :: below⟩ = .ok p →
      width.toNat = high.toNat + low.toNat → high ≠ 0 → low ≠ 0 → ∀ name' highName lowName : Option String,
        ∃ p', compile name' ⟨above ++ .field high highName :: .field low lowName :: below⟩ = .ok p' ∧
          p'.length = p.length ∧ p'.setMask = p.setMask ∧ p'.fixedMask = p.fixedMask ∧
          p'.specificity = p.specificity ∧
          ∀ w, p'.capture w = (p.capture w).map (Word.cutAt low.toNat (above.countP Part.isField)) := by
  refine ⟨fun w left width hl _ hw => ⟨Word.toNat_extract w hl hw, fun i hi => ?bit⟩,
    fun w left high low hl _ hlow hfit => Word.toNat_extract_add w hl hlow hfit, ?spec⟩
  case bit => rw [Word.getBit_extract w hl hw, decide_eq_true hi, Bool.true_and]
  case spec =>
    intro name p above below width high low fieldName h hwidth hhigh hlow name' highName lowName
    obtain ⟨hv, rfl⟩ := compile_eq_ok_iff.mp h
    have hv' := hv.split_field hwidth hhigh hlow highName lowName
    have hpos : 0 < low.toNat := Nat.pos_of_ne_zero fun hzero => hlow (UInt32.toNat_inj.mp hzero)
    refine ⟨_, compile_eq_ok_iff.mpr ⟨hv', rfl⟩, ?_, setMask_split_field fieldName hwidth,
      fixedMask_split_field fieldName hwidth, ?_, capture_layOut_split_field name name' hv hwidth hpos⟩
    · simp only [layOut, totalWidth, widthOf_append, widthOf_split_field fieldName hwidth]
    · rw [specificity_layOut _ hv'.fits, specificity_layOut _ hv.fits, layOut, layOut,
        fixedMask_split_field fieldName hwidth]

/-- The whole of a word as a field, and a field between others. -/
theorem capture_split_field_between :
    let load : Spec := ⟨[.literal 1, .field 3 (some "d"), .field 27 (some "imm"), .literal 0]⟩
    let cut : Spec := ⟨[.literal 1, .field 3 (some "d"), .field 12 (some "hi"), .field 15 (some "lo"), .literal 0]⟩
    (Word.extract 0xdeadbeef#32 31 32).toNat = 0xdeadbeef ∧
      (Word.extract 0xdeadbeef#32 31 (12 + 20)).toNat = 0xdea * 2 ^ 20 + 0xdbeef ∧
      load.compile none = .ok (load.layOut none) ∧ (27 : UInt32).toNat = (12 : UInt32).toNat + (15 : UInt32).toNat ∧
      ∃ p', cut.compile none = .ok p' ∧ p'.specificity = 2 ∧
        p'.capture 0b1_101_110000000001_000000000000011_0#32 = some [0b101#32, 0b110000000001#32, 0b11#32] := by
  intro load cut
  have hload : compile none ⟨[.literal 1, .field 3 (some "d")] ++ .field 27 (some "imm") :: [.literal 0]⟩ =
      .ok (load.layOut none) := by decide
  obtain ⟨hextract, hadd, hsplit⟩ := capture_split_field
  obtain ⟨p', hp', -, -, -, hspec, hcapture⟩ :=
    hsplit none _ _ _ 27 12 15 _ hload (by decide) (by decide) (by decide) none (some "hi") (some "lo")
  refine ⟨(hextract _ 31 32 (by decide) (by decide) (by decide)).1,
    hadd _ 31 12 20 (by decide) (by decide) (by decide) (by decide), hload, by decide, p', hp', hspec, ?_⟩
  rw [hcapture]
  decide

end Spec
end WordPattern
