/-
# Chains of fallible steps

How a chain of steps that may fail is taken apart: a step that succeeds hands
its result on, and a chain that succeeds did so at every step. A chain that
fails has the error of one of its steps, so what all errors of the steps have
in common (`Except.FailsOnly`), the errors of the chain have as well.

Key definition: `Except.FailsOnly`.
Key theorems: `Except.bind_eq_ok_iff`, `Except.map_eq_ok_iff`,
`Except.mapError_eq_ok_iff`, `Except.exists_mem_of_mapM_eq_ok`,
`Except.FailsOnly.bind`.
-/

namespace Except

variable {α β ε ε' : Type}

@[simp] theorem ok_bind (a : α) (f : α → Except ε β) : (ok a >>= f) = f a := rfl

@[simp] theorem error_bind (e : ε) (f : α → Except ε β) : (error e >>= f) = error e := rfl

@[simp] theorem ok_map (a : α) (f : α → β) : (ok a : Except ε α).map f = ok (f a) := rfl

@[simp] theorem error_map (e : ε) (f : α → β) : (error e : Except ε α).map f = error e := rfl

@[simp] theorem ok_mapError (a : α) (f : ε → ε') : (ok a : Except ε α).mapError f = ok a := rfl

@[simp] theorem error_mapError (e : ε) (f : ε → ε') :
    (error e : Except ε α).mapError f = error (f e) := rfl

theorem bind_eq_ok_iff {x : Except ε α} {f : α → Except ε β} {b : β} :
    (x >>= f) = ok b ↔ ∃ a, x = ok a ∧ f a = ok b := by
  cases x with
  | error e => simp
  | ok a => simp

theorem map_eq_ok_iff {x : Except ε α} {f : α → β} {b : β} :
    x.map f = ok b ↔ ∃ a, x = ok a ∧ f a = b := by
  cases x with
  | error e => simp
  | ok a => simp

theorem mapError_eq_ok_iff {x : Except ε α} {f : ε → ε'} {a : α} :
    x.mapError f = ok a ↔ x = ok a := by
  cases x with
  | error e => simp
  | ok a => simp

theorem toOption_eq_some_iff {x : Except ε α} {a : α} : x.toOption = some a ↔ x = ok a := by
  cases x with
  | error e => simp [Except.toOption]
  | ok a => simp [Except.toOption]

theorem exists_eq_of_isOk {σ : Type} {x : Except ε α × σ} (h : x.1.isOk = true) :
    ∃ a s, x = (ok a, s) := by
  obtain ⟨outcome, s⟩ := x
  cases outcome with
  | error e => cases h
  | ok a => exact ⟨a, s, rfl⟩

/-- What a chain over a list makes of one of its elements is among its results. -/
theorem exists_mem_of_mapM_eq_ok {f : α → Except ε β} {a : α} :
    ∀ {as : List α} {bs : List β}, as.mapM f = ok bs → a ∈ as → ∃ b ∈ bs, f a = ok b
  | [], _, _, ha => absurd ha (List.not_mem_nil)
  | a' :: as, bs, h, ha => by
    rw [List.mapM_cons] at h
    obtain ⟨b, hb, h⟩ := bind_eq_ok_iff.mp h
    obtain ⟨rest, hrest, h⟩ := bind_eq_ok_iff.mp h
    obtain rfl : b :: rest = bs := Except.ok.inj h
    rcases List.mem_cons.mp ha with rfl | ha
    · exact ⟨b, List.mem_cons_self .., hb⟩
    · obtain ⟨b', hb', hf⟩ := exists_mem_of_mapM_eq_ok hrest ha
      exact ⟨b', List.mem_cons_of_mem _ hb', hf⟩

/-! ### Errors -/

theorem exists_eq_error_iff {x : Except ε α} : (∃ e, x = error e) ↔ ∀ a, x ≠ ok a := by
  cases x with
  | error e => simp
  | ok a => simp

/-- Whatever error the step ends with satisfies `p`. -/
def FailsOnly (x : Except ε α) (p : ε → Prop) : Prop := ∀ e, x = error e → p e

variable {p q : ε → Prop}

theorem failsOnly_ok (a : α) : (ok a : Except ε α).FailsOnly p := fun _ h => nomatch h

theorem failsOnly_error {e : ε} (h : p e) : (error e : Except ε α).FailsOnly p := by
  rintro _ ⟨⟩
  exact h

theorem FailsOnly.mono {x : Except ε α} (h : x.FailsOnly p) (hpq : ∀ e, p e → q e) :
    x.FailsOnly q := fun e he => hpq e (h e he)

theorem FailsOnly.bind {x : Except ε α} {f : α → Except ε β} (hx : x.FailsOnly p)
    (hf : ∀ a, (f a).FailsOnly p) : (x >>= f).FailsOnly p := by
  cases x with
  | error e => exact failsOnly_error (hx e rfl)
  | ok a => exact hf a

theorem FailsOnly.map {x : Except ε α} (h : x.FailsOnly p) (f : α → β) : (x.map f).FailsOnly p := by
  cases x with
  | error e => exact failsOnly_error (h e rfl)
  | ok a => exact failsOnly_ok (f a)

/-- Errors that are all translated are what the translation yields. -/
theorem failsOnly_mapError {p : ε' → Prop} (x : Except ε α) {f : ε → ε'} (h : ∀ e, p (f e)) :
    (x.mapError f).FailsOnly p := by
  cases x with
  | error e => exact failsOnly_error (h e)
  | ok a => exact failsOnly_ok a

end Except
