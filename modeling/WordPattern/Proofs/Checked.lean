/-
Compiling, capturing and rendering on a machine: a step is a fault where a sum,
difference, conversion or shift leaves its range, or a word has no such bit or
field. `checked_eq_unchecked`: nothing leads to a fault, and what comes out is
what the unbounded steps give.
-/
import WordPattern.Group.Decoded
import WordPattern.Pattern.Render
import WordPattern.Proofs.Concatenation
import WordPattern.Proofs.Reading

namespace WordPattern

open Word (size)

/-! ## What keeps the steps in bounds -/

/-- Where a field can lie in a word. -/
structure Capture.InWord (c : Capture) : Prop where
  left_lt : c.leftBit < size
  width_pos : 1 ≤ c.width
  width_le : c.width ≤ c.leftBit + 1

theorem Pattern.Compiled.captures_inWord {p : Pattern} (hp : p.Compiled) : ∀ c ∈ p.captures, c.InWord := by
  obtain ⟨name, s, hs⟩ := hp
  obtain ⟨hv, rfl⟩ := Spec.compile_eq_ok_iff.mp hs
  intro c hc
  exact {
    left_lt := Nat.lt_of_lt_of_le (Spec.leftBit_lt_of_mem_captures hv.parts c hc) hv.fits
    width_pos := Spec.width_pos_of_mem_captures hv.parts c hc
    width_le := Spec.width_le_of_mem_captures c hc }

theorem Part.width_lt (part : Part) : part.width < 2 ^ 32 := by
  cases part with
  | literal bit => exact Nat.one_lt_two_pow (by decide)
  | field width name => exact width.toNat_lt

namespace Spec

theorem widthOf_le_length_mul (ps : List Part) : widthOf ps ≤ ps.length * 2 ^ 32 := by
  induction ps with
  | nil => exact Nat.zero_le _
  | cons part rest ih =>
    have := part.width_lt
    rw [widthOf, List.length_cons]
    omega

theorem Draft.below_of_place {d d' : Draft} {index : Nat} {part : Part} (h : d.place index part = .ok d') :
    d'.below = d.below - part.width := by
  cases part with
  | literal bit =>
    rw [place, placeLiteral] at h
    split at h
    · cases h
      rfl
    · split at h <;> cases h
      rfl
  | field width name =>
    rw [place, placeField] at h
    split at h <;> cases h
    rfl

theorem length_captures_of_placeAll {s : Spec} {d : Draft}
    (h : (Draft.start s.totalWidth).placeAll 0 s.parts = .ok d) : d.captures.length ≤ s.parts.length := by
  rw [placeAll_eq _ _ _ rfl] at h
  split at h
  · cases h
  · cases h
    simp only [Draft.start, List.nil_append, length_captures]
    exact List.countP_le_length

end Spec

/-! ## Faults -/

/-- What a machine cannot do. -/
inductive Fault where
  /-- A result or a converted number is too great for its type. -/
  | overflow
  /-- A difference is negative. -/
  | underflow
  /-- A word is shifted by its size or more. -/
  | shift
  /-- There is no such bit or field in a word. -/
  | argument
  deriving DecidableEq

/-- A result, unless there was a fault on the way to it. -/
abbrev Checked (α : Type) := Except Fault α

namespace Checked

variable {α β : Type}

/-! ## Numbers -/

/-- `a` as a number of so many bits. -/
def fit (bits a : Nat) : Checked Nat := if a < 2 ^ bits then .ok a else .error .overflow

/-- The sum must fit. -/
def add (bits a b : Nat) : Checked Nat := fit bits (a + b)

/-- The difference must not be negative. -/
def sub (a b : Nat) : Checked Nat := if b ≤ a then .ok (a - b) else .error .underflow

/-- What a function asks of its arguments. -/
def require (c : Prop) [Decidable c] : Checked Unit := if c then .ok () else .error .argument

theorem ok_bind (a : α) (f : α → Checked β) : (Except.ok a >>= f) = f a := rfl

theorem fit_eq {bits a : Nat} (h : a < 2 ^ bits) : fit bits a = .ok a := if_pos h

theorem add_eq {bits a b : Nat} (h : a + b < 2 ^ bits) : add bits a b = .ok (a + b) := fit_eq h

theorem sub_eq {a b : Nat} (h : b ≤ a) : sub a b = .ok (a - b) := if_pos h

theorem require_bind {c : Prop} [Decidable c] (h : c) (f : Unit → Checked α) :
    (require c >>= f) = f () := by
  rw [require, if_pos h]
  rfl

theorem mapM_eq {f : α → Checked β} {g : α → β} {l : List α} (h : ∀ a ∈ l, f a = .ok (g a)) :
    l.mapM f = .ok (l.map g) := by
  induction l with
  | nil => rfl
  | cons a rest ih =>
    rw [List.forall_mem_cons] at h
    rw [List.mapM_cons, h.1, ok_bind, ih h.2, ok_bind]
    rfl

theorem findM?_eq {f : α → Checked Bool} {g : α → Bool} {l : List α} (h : ∀ a ∈ l, f a = .ok (g a)) :
    l.findM? f = .ok (l.find? g) := by
  induction l with
  | nil => rfl
  | cons a rest ih =>
    rw [List.forall_mem_cons] at h
    rw [List.findM?, h.1, ok_bind, List.find?_cons]
    cases g a with
    | true => rfl
    | false => exact ih h.2

/-! ## Words -/

/-- A word is shifted by less than its size. -/
def shiftLeft (w : Word) (k : Nat) : Checked Word := if k < size then .ok (w <<< k) else .error .shift

/-- To the right likewise. -/
def shiftRight (w : Word) (k : Nat) : Checked Word := if k < size then .ok (w >>> k) else .error .shift

/-- The word must have the bit. -/
def getBit (w : Word) (n : Nat) : Checked Bool := do
  require (n < size)
  let low ← shiftRight w n
  return low &&& 1#32 == 1#32

/-- There must be such a bit to set. -/
def setBit (w : Word) (n : Nat) : Checked Word := do
  require (n < size)
  let bit ← shiftLeft 1#32 n
  return w ||| bit

/-- All ones are shifted down to so many. -/
def lowMask (width : Nat) : Checked Word := do
  require (1 ≤ width ∧ width ≤ size)
  let above ← sub size width
  shiftRight (BitVec.allOnes 32) above

/-- The field must lie in the word. -/
def extract (w : Word) (left width : Nat) : Checked Word := do
  require (left < size ∧ 1 ≤ width ∧ width ≤ left + 1)
  let top ← add 32 left 1
  let below ← sub top width
  let field ← shiftRight w below
  let mask ← lowMask width
  return field &&& mask

theorem shiftLeft_eq {k : Nat} (w : Word) (hk : k < size) : shiftLeft w k = .ok (w <<< k) := if_pos hk

theorem shiftRight_eq {k : Nat} (w : Word) (hk : k < size) : shiftRight w k = .ok (w >>> k) := if_pos hk

theorem getBit_eq {n : Nat} (w : Word) (hn : n < size) : getBit w n = .ok (w.getBit n) := by
  rw [getBit, require_bind hn, shiftRight_eq w hn, ok_bind]
  rfl

theorem setBit_eq {n : Nat} (w : Word) (hn : n < size) : setBit w n = .ok (w.setBit n) := by
  rw [setBit, require_bind hn, shiftLeft_eq _ hn, ok_bind]
  rfl

theorem lowMask_eq {width : Nat} (hpos : 1 ≤ width) (hle : width ≤ size) :
    lowMask width = .ok (Word.lowMask width) := by
  rw [lowMask, require_bind ⟨hpos, hle⟩, sub_eq hle, ok_bind, shiftRight_eq _ (by omega)]
  rfl

theorem extract_eq {left width : Nat} (w : Word) (hleft : left < size) (hpos : 1 ≤ width)
    (hle : width ≤ left + 1) : extract w left width = .ok (w.extract left width) := by
  have hsize : size < 2 ^ 32 := by decide
  rw [extract, require_bind ⟨hleft, hpos, hle⟩, add_eq (by omega), ok_bind, sub_eq hle, ok_bind,
    shiftRight_eq w (by omega), ok_bind, lowMask_eq hpos (by omega), ok_bind]
  rfl

/-- A field below the lowest bit is a fault. -/
example : extract 0xFF#32 3 5 = .error .argument := rfl

/-! ## Specs -/

/-- The widths, added up in 64 bits from the first part on. -/
def totalWidth (s : Spec) : Checked Nat := s.parts.foldlM (fun sum part => add 64 sum part.width) 0

/-- There must be room for a literal even if it is bad. -/
def placeLiteral (d : Spec.Draft) (index : Nat) (bit : UInt8) : Checked (Except CompileError Spec.Draft) := do
  let below ← sub d.below 1
  if bit = 0 then
    let fixedMask ← setBit d.fixedMask below
    return .ok { d with below, fixedMask }
  else if bit = 1 then
    let setMask ← setBit d.setMask below
    let fixedMask ← setBit d.fixedMask below
    return .ok { d with below, setMask, fixedMask }
  else return .error (.invalidLiteral index bit)

/-- The top bit is found by way of the bit above it, which must be a number of
32 bits too. -/
def placeField (d : Spec.Draft) (index : Nat) (width : UInt32) (name : Option String) :
    Checked (Except CompileError Spec.Draft) := do
  if width = 0 then return .error (.emptyField index)
  else
    let below ← sub d.below width.toNat
    let top ← add 32 below width.toNat
    let leftBit ← sub top 1
    return .ok { d with below, captures := d.captures ++ [⟨name, leftBit, width.toNat⟩] }

/-- One step of laying out. -/
def place (d : Spec.Draft) (index : Nat) : Part → Checked (Except CompileError Spec.Draft)
  | .literal bit => placeLiteral d index bit
  | .field width name => placeField d index width name

/-- Laying out ends with the first fault or refusal. -/
def placeAll (d : Spec.Draft) (index : Nat) : List Part → Checked (Except CompileError Spec.Draft)
  | [] => return .ok d
  | part :: rest => do
    match ← place d index part with
    | .ok d' => placeAll d' (index + 1) rest
    | .error e => return .error e

/-- A refusal is a result like any other. -/
def compile (name : Option String) (s : Spec) : Checked (Except CompileError Pattern) := do
  if s.parts = [] then return .error .emptyPattern
  else
    let total ← totalWidth s
    if size < total then return .error (.tooLong total size)
    else
      let length ← fit 32 total
      match ← placeAll (.start length) 0 s.parts with
      | .error e => return .error e
      | .ok d =>
        let literals ← sub s.parts.length d.captures.length
        let specificity ← fit 32 literals
        return .ok {
          name, length, setMask := d.setMask, fixedMask := d.fixedMask, specificity,
          captures := d.captures }

theorem foldlM_add_eq (ps : List Part) (sum : Nat) (h : sum + Spec.widthOf ps < 2 ^ 64) :
    ps.foldlM (fun sum part => add 64 sum part.width) sum = .ok (sum + Spec.widthOf ps) := by
  induction ps generalizing sum with
  | nil => rfl
  | cons part rest ih =>
    rw [Spec.widthOf] at h ⊢
    rw [List.foldlM_cons, add_eq (by omega), ok_bind, ih _ (by omega), Nat.add_assoc]

theorem totalWidth_eq {s : Spec} (h : s.parts.length < 2 ^ 32) : totalWidth s = .ok s.totalWidth := by
  have hsum : Spec.widthOf s.parts < 2 ^ 64 := by
    have := Spec.widthOf_le_length_mul s.parts
    omega
  rw [totalWidth, foldlM_add_eq s.parts 0 (by omega), Nat.zero_add, Spec.totalWidth]

theorem placeLiteral_eq {d : Spec.Draft} (index : Nat) (bit : UInt8) (hroom : 1 ≤ d.below)
    (hfit : d.below ≤ size) : placeLiteral d index bit = .ok (d.placeLiteral index bit) := by
  have hlt : d.below - 1 < size := by omega
  rw [placeLiteral, sub_eq hroom, ok_bind, Spec.Draft.placeLiteral]
  by_cases h0 : bit = 0
  · rw [if_pos h0, if_pos h0, setBit_eq _ hlt, ok_bind]
    rfl
  by_cases h1 : bit = 1
  · rw [if_neg h0, if_neg h0, if_pos h1, if_pos h1, setBit_eq _ hlt, ok_bind, setBit_eq _ hlt, ok_bind]
    rfl
  · rw [if_neg h0, if_neg h0, if_neg h1, if_neg h1]
    rfl

theorem placeField_eq {d : Spec.Draft} {width : UInt32} (index : Nat) (name : Option String)
    (hroom : width.toNat ≤ d.below) (hfit : d.below ≤ size) :
    placeField d index width name = .ok (d.placeField index width name) := by
  rw [placeField, Spec.Draft.placeField]
  by_cases hw : width = 0
  · rw [if_pos hw, if_pos hw]
    rfl
  · have hvalid : (Part.field width name).Valid := hw
    have hpos : 0 < width.toNat := hvalid.width_pos
    have hsize : size < 2 ^ 32 := by decide
    rw [if_neg hw, if_neg hw, sub_eq hroom, ok_bind, add_eq (by omega), ok_bind, sub_eq (by omega), ok_bind]
    rfl

/-- **One step of laying out.** A part that is no wider than what is left of
the word is placed without a fault. -/
theorem place_eq {d : Spec.Draft} {part : Part} (index : Nat) (hroom : part.width ≤ d.below)
    (hfit : d.below ≤ size) : place d index part = .ok (d.place index part) := by
  cases part with
  | literal bit => exact placeLiteral_eq index bit hroom hfit
  | field width name => exact placeField_eq index name hroom hfit

/-- A field with too little room is a fault. -/
example : place (.start 3) 0 (.field 4 none) = .error .underflow := rfl

/-- **A whole run of laying out.** What is left is always the width of the
parts to come, also on the way to a bad part. -/
theorem placeAll_eq {d : Spec.Draft} {ps : List Part} (index : Nat) (hbelow : d.below = Spec.widthOf ps)
    (hfit : Spec.widthOf ps ≤ size) : placeAll d index ps = .ok (d.placeAll index ps) := by
  induction ps generalizing d index with
  | nil => rfl
  | cons part rest ih =>
    have hwidth : d.below = part.width + Spec.widthOf rest := hbelow
    rw [placeAll, place_eq index (by omega) (by omega), ok_bind, Spec.Draft.placeAll]
    cases hplace : d.place index part with
    | error e => rfl
    | ok d' =>
      have hrest := Spec.Draft.below_of_place hplace
      exact ih (index + 1) (by omega) (Spec.widthOf_le_of_cons hfit)

theorem compile_eq {s : Spec} (name : Option String) (h : s.parts.length < 2 ^ 32) :
    compile name s = .ok (s.compile name) := by
  rw [compile, Spec.compile]
  by_cases hne : s.parts = []
  · rw [if_pos hne, if_pos hne]
    rfl
  rw [if_neg hne, if_neg hne, totalWidth_eq h, ok_bind]
  by_cases hlong : size < s.totalWidth
  · rw [if_pos hlong, if_pos hlong]
    rfl
  have hfit : s.totalWidth ≤ size := Nat.le_of_not_lt hlong
  have hlength : s.totalWidth < 2 ^ 32 := Nat.lt_of_le_of_lt hfit (by decide)
  rw [if_neg hlong, if_neg hlong, fit_eq hlength, ok_bind, placeAll_eq 0 rfl hfit, ok_bind]
  cases hplace : (Spec.Draft.start s.totalWidth).placeAll 0 s.parts with
  | error e => rfl
  | ok d =>
    have hcaptures := Spec.length_captures_of_placeAll hplace
    simp only
    rw [sub_eq hcaptures, ok_bind, fit_eq (by omega), ok_bind]
    rfl

/-! ## Patterns and groups -/

/-- Fields are read out one by one. -/
def values (p : Pattern) (w : Word) : Checked (List Word) :=
  p.captures.mapM fun c => extract w c.leftBit c.width

/-- The values, if the word matches. -/
def capture (p : Pattern) (w : Word) : Checked (Option (List Word)) := do
  if p.accepts w then
    let vs ← values p w
    return some vs
  else return none

/-- Matching takes no step that can be a fault. -/
def decode (g : Group) (w : Word) : Checked (Option Decoded) := do
  match g.find w with
  | some p =>
    let vs ← values p w
    return some ⟨p, vs⟩
  | none => return none

/-- The lowest bit of a field is found by way of the bit above its top. -/
def covers (c : Capture) (pos : Nat) : Checked Bool := do
  if pos ≤ c.leftBit then
    let top ← add 32 c.leftBit 1
    let low ← sub top c.width
    return low ≤ pos
  else return false

/-- The bit is looked up in the masks, then in the fields. -/
def symbolAt (p : Pattern) (pos : Nat) : Checked Char := do
  if ← getBit p.fixedMask pos then
    if ← getBit p.setMask pos then return '1' else return '0'
  else
    let c ← p.captures.findM? (covers · pos)
    return (c.map Capture.symbol).getD 'x'

/-- Only the symbols take steps that can be faults. -/
def pieces (p : Pattern) (annotated : Bool) : Checked (List String) := do
  let symbols ← (List.range p.length).reverse.mapM (symbolAt p)
  let plain := symbols.map String.singleton
  return if annotated then plain ++ p.notePieces else plain

variable {p : Pattern}

theorem values_eq (hp : p.Compiled) (w : Word) : values p w = .ok (p.values w) := by
  refine mapM_eq fun c hc => ?_
  have hin := hp.captures_inWord c hc
  exact extract_eq w hin.left_lt hin.width_pos hin.width_le

theorem capture_eq (hp : p.Compiled) (w : Word) : capture p w = .ok (p.capture w) := by
  rw [capture, Pattern.capture]
  split
  · rw [values_eq hp, ok_bind]
    rfl
  · rfl

theorem decode_eq {g : Group} (hg : ∀ p ∈ g.patterns, p.Compiled) (w : Word) :
    decode g w = .ok (g.decode w) := by
  rw [decode, Group.decode]
  cases hfind : g.find w with
  | none => rfl
  | some p =>
    simp only
    rw [values_eq (hg p (Group.find_mem hfind).1), ok_bind]
    rfl

theorem covers_eq {c : Capture} (hc : c.InWord) (pos : Nat) : covers c pos = .ok (c.covers pos) := by
  have hsize : size < 2 ^ 32 := by decide
  have hleft := hc.left_lt
  rw [covers, Capture.covers]
  by_cases h : pos ≤ c.leftBit
  · rw [if_pos h, add_eq (by omega), ok_bind, sub_eq hc.width_le, ok_bind, decide_eq_true h, Bool.true_and]
    rfl
  · rw [if_neg h, decide_eq_false h, Bool.false_and]
    rfl

theorem symbolAt_eq (hp : p.Compiled) {pos : Nat} (hpos : pos < p.length) :
    symbolAt p pos = .ok (p.symbolAt pos) := by
  have hlt : pos < size := Nat.lt_of_lt_of_le hpos hp.length_le
  rw [symbolAt, Pattern.symbolAt, getBit_eq _ hlt, ok_bind]
  cases p.fixedMask.getBit pos with
  | true =>
    simp only [↓reduceIte]
    rw [getBit_eq _ hlt, ok_bind]
    cases p.setMask.getBit pos <;> rfl
  | false =>
    simp only [Bool.false_eq_true, ↓reduceIte]
    rw [findM?_eq fun c hc => covers_eq (hp.captures_inWord c hc) pos, ok_bind]
    rfl

theorem pieces_eq (hp : p.Compiled) (annotated : Bool) : pieces p annotated = .ok (p.pieces annotated) := by
  have hsymbols : (List.range p.length).reverse.mapM (symbolAt p) = .ok p.symbols := by
    refine mapM_eq fun pos hpos => symbolAt_eq hp ?_
    rwa [List.mem_reverse, List.mem_range] at hpos
  rw [pieces, hsymbols, ok_bind]
  rfl

/-! ## No faults -/

/-- **Nothing leads to a fault.** Specs of fewer than `2 ^ 32` parts compile, or
are refused, as in unbounded arithmetic; the run that a text leaves open is
never wider than a word; and compiled patterns capture, decode and are rendered
as without the checks. -/
theorem checked_eq_unchecked :
    (∀ name (s : Spec), s.parts.length < 2 ^ 32 → compile name s = .ok (s.compile name)) ∧
    (∀ (text : List Char) (read : Spec.Progress), Spec.Progress.start.readAll 0 text = .ok read →
      ∀ run, read.run = some run → run.width ≤ size) ∧
    (∀ p : Pattern, p.Compiled → ∀ w annotated,
      capture p w = .ok (p.capture w) ∧ pieces p annotated = .ok (p.pieces annotated)) ∧
    ∀ g : Group, (∀ p ∈ g.patterns, p.Compiled) → ∀ w, decode g w = .ok (g.decode w) := by
  refine ⟨fun name s hs => compile_eq name hs, fun text read hread => ?_, fun p hp w annotated => ?_,
    fun g hg w => decode_eq hg w⟩
  · exact (Spec.readTo_of_readAll hread).2.narrow
  · exact ⟨capture_eq hp w, pieces_eq hp annotated⟩

/-- A field next to the topmost bit, widths that add up to more than 32 bits can
count, a bad part below a wide field, and a letter that fills a word. -/
theorem checked_full_word :
    let s : Spec := ⟨[.literal 1, .field 31 (some "imm")]⟩
    let p := s.layOut none
    let huge : Spec := ⟨[.field 0xFFFFFFFF none, .literal 7, .field 0 none]⟩
    let bad : Spec := ⟨[.field 31 none, .literal 2]⟩
    let word := List.replicate 32 'r'
    (s.parts.length < 2 ^ 32 ∧ compile none s = .ok (.ok p)) ∧
    (huge.parts.length < 2 ^ 32 ∧ compile none huge = .ok (.error (.tooLong 4294967296 32))) ∧
    (bad.parts.length < 2 ^ 32 ∧ compile none bad = .ok (.error (.invalidLiteral 1 2))) ∧
    (Spec.Progress.start.readAll 0 word = .ok ⟨[], some ⟨'r', 32⟩, ['r'], false⟩ ∧ 32 ≤ size) ∧
    (p.Compiled ∧ capture p 0xFFFFFFFF#32 = .ok (some [0x7FFFFFFF#32]) ∧
      pieces p false = .ok (p.pieces false)) ∧
    ∃ g : Group, (∀ q ∈ g.patterns, q.Compiled) ∧
      decode g 0x80000005#32 = .ok (some ⟨p, [5#32]⟩) := by
  intro s p huge bad word
  obtain ⟨hcompile, hread, hpattern, hgroup⟩ := checked_eq_unchecked
  have hs : s.parts.length < 2 ^ 32 := by decide
  have hhuge : huge.parts.length < 2 ^ 32 := by decide
  have hbad : bad.parts.length < 2 ^ 32 := by decide
  have hword : Spec.Progress.start.readAll 0 word = .ok ⟨[], some ⟨'r', 32⟩, ['r'], false⟩ := by decide
  have hp : p.Compiled := ⟨none, s, rfl⟩
  have hcapture : p.capture 0xFFFFFFFF#32 = some [0x7FFFFFFF#32] := by decide
  obtain ⟨hchecked, hpieces⟩ := hpattern p hp 0xFFFFFFFF#32 false
  let g : Group := ⟨[p], List.cons_ne_nil _ _, List.pairwise_singleton _ _⟩
  have hg : ∀ q ∈ g.patterns, q.Compiled := List.forall_mem_singleton.mpr hp
  have hdecode : g.decode 0x80000005#32 = some ⟨p, [5#32]⟩ := by decide
  exact ⟨⟨hs, hcompile none s hs⟩, ⟨hhuge, hcompile none huge hhuge⟩, ⟨hbad, hcompile none bad hbad⟩,
    ⟨hword, hread _ _ hword _ rfl⟩, ⟨hp, hcapture ▸ hchecked, hpieces⟩,
    g, hg, hdecode ▸ hgroup g hg 0x80000005#32⟩

end Checked
end WordPattern
