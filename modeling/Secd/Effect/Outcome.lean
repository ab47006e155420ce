import Secd.Effect

/-!
How effects end. An effect gives back a state in either case, so a claim about it has two sides:
what holds of the result and the state if it ends well, and what holds of the fault and the state if
it does not. `Ends` says both of one effect, `Matching` says how two effects end side by side.

Both go through a sequence from left to right. What the first part leaves behind is what the second
starts from, and a fault of the first part is a fault of the whole:

      a s  ──▶  ok x t     then  f x t
      a s  ──▶  error e t  ends the sequence
-/

namespace Secd.Effect

variable {ε σ τ α β γ δ : Type}

/-- An effect ends well, with `Q`, or in a fault, with `E`. -/
def Ends (Q : α → σ → Prop) (E : ε → σ → Prop) : EStateM.Result ε σ α → Prop
  | .ok x s => Q x s
  | .error e s => E e s

instance {Q : α → σ → Prop} {E : ε → σ → Prop} [∀ x s, Decidable (Q x s)]
    [∀ e s, Decidable (E e s)] (r : EStateM.Result ε σ α) : Decidable (Ends Q E r) :=
  match r with
  | .ok x s => inferInstanceAs (Decidable (Q x s))
  | .error e s => inferInstanceAs (Decidable (E e s))

/-- However an effect ends, `P` holds of the state that it leaves. -/
abbrev EndsIn (P : σ → Prop) : EStateM.Result ε σ α → Prop := Ends (fun _ s => P s) fun _ s => P s

/-- Two effects end alike: well, with `Q`, or in the same fault, with `E`. Beside an excused fault
of the first one, the second may end in any way. -/
inductive Matching (excused : ε → Prop) (Q : α → σ → β → τ → Prop) (E : σ → τ → Prop) :
    EStateM.Result ε σ α → EStateM.Result ε τ β → Prop where
  | ok {x : α} {s : σ} {y : β} {t : τ} (good : Q x s y t) :
      Matching excused Q E (.ok x s) (.ok y t)
  | error {e : ε} {s : σ} {t : τ} (bad : E s t) : Matching excused Q E (.error e s) (.error e t)
  | excused {e : ε} {s : σ} {r : EStateM.Result ε τ β} (excuse : excused e) :
      Matching excused Q E (.error e s) r

theorem bind_of_ok {a : EStateM ε σ α} {f : α → EStateM ε σ β} {s t : σ} {x : α}
    (h : a s = .ok x t) : (a >>= f) s = f x t := by
  change EStateM.bind a f s = _
  rw [EStateM.bind, h]

theorem bind_eq_error_iff {a : EStateM ε σ α} {f : α → EStateM ε σ β} {s s' : σ} {e : ε} :
    (a >>= f) s = .error e s' ↔
      a s = .error e s' ∨ ∃ x t, a s = .ok x t ∧ f x t = .error e s' := by
  change EStateM.bind a f s = _ ↔ _
  unfold EStateM.bind
  cases a s <;> simp [and_assoc]

theorem check_of_ok {r : Except Fault α} {x : α} (h : r = .ok x) (s : σ) :
    check r s = .ok x s := by
  rw [h]
  rfl

/-! ### One effect -/

section Ends

variable {Q Q' : α → σ → Prop} {E E' : ε → σ → Prop} {R : β → σ → Prop} {s : σ}

@[simp] theorem ends_ok {x : α} : Ends Q E (.ok x s) ↔ Q x s := Iff.rfl

@[simp] theorem ends_error {e : ε} : Ends Q E (.error e s) ↔ E e s := Iff.rfl

theorem Ends.imp {r : EStateM.Result ε σ α} (h : Ends Q E r) (good : ∀ x s, Q x s → Q' x s)
    (bad : ∀ e s, E e s → E' e s) : Ends Q' E' r := by
  cases r with
  | ok x s => exact good x s h
  | error e s => exact bad e s h

@[simp] theorem ends_bind {a : EStateM ε σ α} {f : α → EStateM ε σ β} :
    Ends R E ((a >>= f) s) ↔ Ends (fun x t => Ends R E (f x t)) E (a s) := by
  change Ends R E (EStateM.bind a f s) ↔ _
  unfold EStateM.bind
  cases a s <;> rfl

/-- A sequence ends as its second part does after every good end of the first. -/
theorem Ends.bind {a : EStateM ε σ α} {f : α → EStateM ε σ β} (first : Ends Q E (a s))
    (second : ∀ x t, Q x t → Ends R E (f x t)) : Ends R E ((a >>= f) s) :=
  ends_bind.2 (first.imp second fun _ _ bad => bad)

/-- A part that is known to end well can be taken as done. -/
theorem Ends.bind_of_ok {a : EStateM ε σ α} {f : α → EStateM ε σ β} {t : σ} {x : α}
    (h : a s = .ok x t) (rest : Ends R E (f x t)) : Ends R E ((a >>= f) s) := by
  rw [Effect.bind_of_ok h]
  exact rest

@[simp] theorem ends_pure {x : α} : Ends Q E ((pure x : EStateM ε σ α) s) ↔ Q x s := Iff.rfl

@[simp] theorem ends_throw {e : ε} : Ends Q E ((throw e : EStateM ε σ α) s) ↔ E e s := Iff.rfl

@[simp] theorem ends_get {Q : σ → σ → Prop} :
    Ends Q E ((get : EStateM ε σ σ) s) ↔ Q s s := Iff.rfl

@[simp] theorem ends_set {Q : PUnit → σ → Prop} {t : σ} :
    Ends Q E ((set t : EStateM ε σ PUnit) s) ↔ Q ⟨⟩ t := Iff.rfl

@[simp] theorem ends_modify {Q : PUnit → σ → Prop} {f : σ → σ} :
    Ends Q E ((modify f : EStateM ε σ PUnit) s) ↔ Q ⟨⟩ (f s) := Iff.rfl

theorem ends_check {E : Fault → σ → Prop} {r : Except Fault α} :
    Ends Q E (check r s) ↔ (∀ x, r = .ok x → Q x s) ∧ ∀ e, r = .error e → E e s := by
  cases r <;> simp [check]

theorem eq_ok_of_ends {r : EStateM.Result ε σ α} {x : α}
    (h : Ends (fun y t => y = x ∧ t = s) (fun _ _ => False) r) : r = .ok x s := by
  cases r with
  | ok y t =>
    obtain ⟨rfl, rfl⟩ := h
    rfl
  | error e t => exact h.elim

theorem eq_error_of_ends {r : EStateM.Result ε σ α} {e : ε}
    (h : Ends (fun _ _ => False) (fun e' _ => e' = e) r) : ∃ t, r = .error e t := by
  cases r with
  | ok y t => exact h.elim
  | error e' t =>
    obtain rfl := h
    exact ⟨t, rfl⟩

end Ends

/-- A sequence of checks passes only if both do. -/
theorem exists_ok_of_bind {a : Except ε α} {f : α → Except ε β} {y : β} (h : (a >>= f) = .ok y) :
    ∃ x, a = .ok x ∧ f x = .ok y := by
  cases a with
  | ok x => exact ⟨x, rfl, h⟩
  | error e => cases h

/-! ### Two effects side by side -/

section Matching

variable {excused : ε → Prop} {Q Q' : α → σ → β → τ → Prop} {E : σ → τ → Prop}
  {R : γ → σ → δ → τ → Prop} {s : σ} {t : τ}

theorem Matching.imp {r : EStateM.Result ε σ α} {r' : EStateM.Result ε τ β}
    (h : Matching excused Q E r r') (good : ∀ x s y t, Q x s y t → Q' x s y t) :
    Matching excused Q' E r r' := by
  cases h with
  | ok h => exact .ok (good _ _ _ _ h)
  | error h => exact .error h
  | excused h => exact .excused h

/-- Two sequences end alike if their parts do. -/
theorem Matching.bind {a : EStateM ε σ α} {b : EStateM ε τ β} {f : α → EStateM ε σ γ}
    {g : β → EStateM ε τ δ} (first : Matching excused Q E (a s) (b t))
    (second : ∀ x s y t, Q x s y t → Matching excused R E (f x s) (g y t)) :
    Matching excused R E ((a >>= f) s) ((b >>= g) t) := by
  change Matching excused R E (EStateM.bind a f s) (EStateM.bind b g t)
  unfold EStateM.bind
  generalize a s = r at first
  generalize b t = r' at first
  cases first with
  | ok h => exact second _ _ _ _ h
  | error h => exact .error h
  | excused h => exact .excused h

/-- A part that only the first sequence has may end in excused faults alone. -/
theorem Matching.bind_left {a : EStateM ε σ α} {f : α → EStateM ε σ γ}
    {r : EStateM.Result ε τ δ}
    (first : Ends (fun x s => Matching excused R E (f x s) r) (fun e _ => excused e) (a s)) :
    Matching excused R E ((a >>= f) s) r := by
  change Matching excused R E (EStateM.bind a f s) r
  unfold EStateM.bind
  cases h : a s with
  | ok x s => rw [h] at first; exact first
  | error e s => rw [h] at first; exact .excused first

/-- Both read the state they start from. -/
theorem Matching.bind_get {f : σ → EStateM ε σ γ} {g : τ → EStateM ε τ δ}
    (rest : Matching excused R E (f s s) (g t t)) :
    Matching excused R E ((get >>= f) s) ((get >>= g) t) := rest

/-- Both make the same check. -/
theorem Matching.check {excused : Fault → Prop} (r : Except Fault α) (bad : E s t) :
    Matching excused (fun x s' y t' => x = y ∧ s' = s ∧ t' = t) E (check r s) (check r t) := by
  cases r with
  | ok x => exact .ok ⟨rfl, rfl, rfl⟩
  | error fault => exact .error bad

end Matching

end Secd.Effect
