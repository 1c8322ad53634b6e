/-
Making many things in order.

`makeAll` makes something of each item of a list and stops at the first item
that it fails on; the position of an item is given along with it, so that an
error can name it. `makeAll_eq_ok_iff` and `makeAll_eq_error_iff` say what it
returns without following it.
-/
namespace WordPattern

variable {ε δ α β : Type}

/-- What `make` makes of items whose positions start at `index`. -/
def makeAll (make : Nat → α → Except ε β) (index : Nat) : List α → Except ε (List β)
  | [] => .ok []
  | a :: rest =>
    match make index a with
    | .error e => .error e
    | .ok b =>
      match makeAll make (index + 1) rest with
      | .error e => .error e
      | .ok bs => .ok (b :: bs)

theorem makeAll_eq_ok_iff {make : Nat → α → Except ε β} {index : Nat} {as : List α} {bs : List β} :
    makeAll make index as = .ok bs ↔
      as.length = bs.length ∧ ∀ i a b, as[i]? = some a → bs[i]? = some b → make (index + i) a = .ok b := by
  induction as generalizing index bs with
  | nil => cases bs <;> simp [makeAll]
  | cons a rest ih =>
    have shift : ∀ i, index + 1 + i = index + (i + 1) := by omega
    constructor
    · intro h
      simp only [makeAll] at h
      cases hm : make index a with
      | error e => simp [hm] at h
      | ok b =>
        cases hr : makeAll make (index + 1) rest with
        | error e => simp [hm, hr] at h
        | ok bs' =>
          simp only [hm, hr, Except.ok.injEq] at h
          subst h
          obtain ⟨hl, hi⟩ := ih.mp hr
          refine ⟨by simp [hl], fun i x y hx hy => ?_⟩
          cases i with
          | zero =>
            simp only [List.getElem?_cons_zero, Option.some.injEq] at hx hy
            subst hx hy
            exact hm
          | succ i =>
            simp only [List.getElem?_cons_succ] at hx hy
            rw [← shift]
            exact hi i x y hx hy
    · rintro ⟨hl, hi⟩
      cases bs with
      | nil => simp at hl
      | cons b bs =>
        have hm : make index a = .ok b := hi 0 a b rfl rfl
        have hr : makeAll make (index + 1) rest = .ok bs :=
          ih.mpr ⟨by simpa using hl, fun i x y hx hy => by
            rw [shift]
            exact hi (i + 1) x y (by simpa using hx) (by simpa using hy)⟩
        simp [makeAll, hm, hr]

/-- Some item fails, and those before it succeed. -/
theorem makeAll_eq_error_iff {make : Nat → α → Except ε β} {index : Nat} {as : List α} {e : ε} :
    makeAll make index as = .error e ↔
      ∃ i a, as[i]? = some a ∧ make (index + i) a = .error e ∧
        ∀ j < i, ∀ x, as[j]? = some x → ∃ b, make (index + j) x = .ok b := by
  induction as generalizing index with
  | nil => simp [makeAll]
  | cons a rest ih =>
    have shift : ∀ i, index + 1 + i = index + (i + 1) := by omega
    simp only [makeAll]
    cases hm : make index a with
    | error e' =>
      constructor
      · intro h
        injection h with h
        subst h
        exact ⟨0, a, rfl, hm, by omega⟩
      · rintro ⟨i, x, hx, he, hb⟩
        cases i with
        | zero =>
          simp only [List.getElem?_cons_zero, Option.some.injEq] at hx
          subst hx
          simpa [hm] using he
        | succ i =>
          obtain ⟨b, hb⟩ := hb 0 (by omega) a rfl
          simp [hm] at hb
    | ok b =>
      have hstep : (match makeAll make (index + 1) rest with
          | .error e => .error e
          | .ok bs => .ok (b :: bs) : Except ε (List β)) = .error e ↔
          makeAll make (index + 1) rest = .error e := by
        cases makeAll make (index + 1) rest <;> simp
      rw [hstep, ih]
      constructor
      · rintro ⟨i, x, hx, he, hb⟩
        refine ⟨i + 1, x, by simpa using hx, by rw [← shift]; exact he, fun j hj y hy => ?_⟩
        cases j with
        | zero =>
          simp only [List.getElem?_cons_zero, Option.some.injEq] at hy
          subst hy
          exact ⟨b, hm⟩
        | succ j =>
          rw [← shift]
          exact hb j (by omega) y (by simpa using hy)
      · rintro ⟨i, x, hx, he, hb⟩
        cases i with
        | zero =>
          simp only [List.getElem?_cons_zero, Option.some.injEq] at hx
          subst hx
          simp [hm] at he
        | succ i =>
          refine ⟨i, x, by simpa using hx, by rw [shift]; exact he, fun j hj y hy => ?_⟩
          rw [shift]
          exact hb (j + 1) (by omega) y (by simpa using hy)

end WordPattern
