/-
The first position where something is wrong: `First`, whatever counts as wrong.
For items that are made one by one it is a failure, `FailsAt`, and making all of
them fails with the first one, `makeAll_mapError_of_first`.
-/
import Mathlib.Data.List.Forall2
import Mathlib.Data.Nat.Find
import WordPattern.Batch

namespace WordPattern

/-- `e` is wrong at position `i`, and nothing is at an earlier one. -/
structure First {ε : Type} (wrong : Nat → ε → Prop) (i : Nat) (e : ε) : Prop where
  here : wrong i e
  earlier : ∀ j < i, ∀ e', ¬ wrong j e'

/-- Where something is wrong, something is wrong first. -/
theorem exists_first {ε : Type} {wrong : Nat → ε → Prop} (h : ∃ i e, wrong i e) :
    ∃ i e, First wrong i e := by
  classical
  obtain ⟨e, he⟩ := Nat.find_spec h
  exact ⟨Nat.find h, e, he, fun j hj e' hw => Nat.find_min h hj ⟨e', hw⟩⟩

theorem take_append_cons_drop {α : Type} {as : List α} {i : Nat} {a : α} (h : as[i]? = some a) :
    as.take i ++ a :: as.drop (i + 1) = as := by
  obtain ⟨hi, rfl⟩ := List.getElem?_eq_some_iff.mp h
  rw [List.getElem_cons_drop, List.take_append_drop]

theorem length_take_of_getElem? {α : Type} {as : List α} {i : Nat} {a : α} (h : as[i]? = some a) :
    (as.take i).length = i :=
  List.length_take_of_le (Nat.le_of_lt (List.getElem?_eq_some_iff.mp h).1)

theorem getElem?_of_take {α : Type} {as : List α} {i j : Nat} {a : α} (h : (as.take i)[j]? = some a) :
    j < i ∧ as[j]? = some a := by
  rw [List.getElem?_take] at h
  split at h
  · next hj => exact ⟨hj, h⟩
  · cases h

/-! ## Items made one by one -/

variable {ε δ α β : Type} {f : α → Except ε β} {as : List α} {bs : List β} {i : Nat} {a : α} {e : ε}

/-- `bs` is what `f` makes of the items `as`, one of each. -/
def Made (f : α → Except ε β) (as : List α) (bs : List β) : Prop :=
  List.Forall₂ (fun a b => f a = .ok b) as bs

/-- On the item at position `i`, `f` fails with `e`. -/
def FailsAt (f : α → Except ε β) (as : List α) (i : Nat) (e : ε) : Prop :=
  ∃ a, as[i]? = some a ∧ f a = .error e

theorem exists_made (h : ∀ i e, ¬ FailsAt f as i e) : ∃ bs, Made f as bs := by
  induction as with
  | nil => exact ⟨[], .nil⟩
  | cons a as ih =>
    cases ha : f a with
    | error e => exact absurd ⟨a, rfl, ha⟩ (h 0 e)
    | ok b =>
      obtain ⟨bs, hbs⟩ := ih fun i => h (i + 1)
      exact ⟨b :: bs, .cons ha hbs⟩

theorem exists_ok_of_not_failsAt (h : ∀ e, ¬ FailsAt f as i e) (ha : as[i]? = some a) : ∃ b, f a = .ok b := by
  cases hf : f a with
  | error e => exact absurd ⟨a, ha, hf⟩ (h e)
  | ok b => exact ⟨b, rfl⟩

theorem First.exists_made (h : First (FailsAt f as) i e) : ∃ bs, Made f (as.take i) bs := by
  refine WordPattern.exists_made fun j e' ⟨a, ha, he⟩ => ?_
  obtain ⟨hj, ha⟩ := getElem?_of_take ha
  exact h.earlier j hj e' ⟨a, ha, he⟩

/-! ## Making all of them -/

theorem makeAll_eq_ok_iff_made {index : Nat} : makeAll (fun _ => f) index as = .ok bs ↔ Made f as bs := by
  rw [makeAll_eq_ok_iff, Made, List.forall₂_iff_get]
  refine and_congr_right fun _ => ⟨fun h i hi hi' => ?_, fun h i a b ha hb => ?_⟩
  · exact h i _ _ (List.getElem?_eq_getElem hi) (List.getElem?_eq_getElem hi')
  · obtain ⟨hi, rfl⟩ := List.getElem?_eq_some_iff.mp ha
    obtain ⟨hi', rfl⟩ := List.getElem?_eq_some_iff.mp hb
    exact h i hi hi'

variable (name : Nat → α → ε → δ)

theorem makeAll_mapError_of_made (h : Made f as bs) (index : Nat) :
    makeAll (fun i a => (f a).mapError (name i a)) index as = .ok bs := by
  induction h generalizing index with
  | nil => rfl
  | cons ha _ ih =>
    rw [makeAll, ha, ih]
    rfl

/-- **The first failure is the failure of the whole**, under the name that it
has at its position. -/
theorem makeAll_mapError_of_first (h : First (FailsAt f as) i e) (ha : as[i]? = some a) :
    makeAll (fun i a => (f a).mapError (name i a)) 0 as = .error (name i a e) := by
  obtain ⟨a', ha', he⟩ := h.here
  obtain rfl := Option.some.inj (ha.symm.trans ha')
  refine makeAll_eq_error_iff.mpr ⟨i, a, ha, ?_, fun j hj x hx => ?_⟩
  · rw [Nat.zero_add, he]
    rfl
  · obtain ⟨b, hb⟩ := exists_ok_of_not_failsAt (h.earlier j hj) hx
    exact ⟨b, by rw [hb]; rfl⟩

end WordPattern
