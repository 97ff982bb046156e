import StorageProof.Failure

/-!
# One step after another

What a sequence of two steps comes to once the first one is known to have succeeded or failed.
-/

namespace StorageProof

theorem exists_of_bind_eq_ok {ε α β : Type} {x : Except ε α} {f : α → Except ε β} {b : β}
    (h : (x >>= f) = .ok b) : ∃ a, x = .ok a ∧ f a = .ok b := by
  rcases x with e | a
  · cases h
  · exact ⟨a, rfl, h⟩

theorem exists_of_isOk {ε α : Type} {r : Except ε α} (h : r.isOk = true) : ∃ a, r = .ok a := by
  rcases r with e | a
  · cases h
  · exact ⟨a, rfl⟩

theorem map_eq_ok {ε α β : Type} {r : Except ε α} {g : α → β} {b : β} (h : r.map g = .ok b) :
    ∃ a, r = .ok a ∧ g a = b := by
  rcases r with e | a
  · cases h
  · cases h
    exact ⟨a, rfl, rfl⟩

theorem map_eq_error {ε α β : Type} {r : Except ε α} {g : α → β} {e : ε} (h : r.map g = .error e) :
    r = .error e := by
  rcases r with e' | a
  · cases h
    rfl
  · cases h

section Programs

variable {S α β : Type}

theorem bind_of_ok {ε : Type} {m : ExceptT ε (StateM S) α} {f : α → ExceptT ε (StateM S) β}
    {s s' : S} {a : α} (h : m s = (.ok a, s')) : (m >>= f) s = f a s' := by
  simp only [bind, ExceptT.bind, ExceptT.mk, StateT.bind, h]
  rfl

theorem bind_of_error {ε : Type} {m : ExceptT ε (StateM S) α} {f : α → ExceptT ε (StateM S) β}
    {s s' : S} {e : ε} (h : m s = (.error e, s')) : (m >>= f) s = (.error e, s') := by
  simp only [bind, ExceptT.bind, ExceptT.mk, StateT.bind, h]
  rfl

/-- What comes after does not tell apart two states that the first step does not. -/
theorem bind_congr_state {ε : Type} {m : ExceptT ε (StateM S) α} {f : α → ExceptT ε (StateM S) β}
    {s s' : S} (h : m s = m s') : (m >>= f) s = (m >>= f) s' := by
  rcases hm : m s' with ⟨e | a, t⟩
  · rw [bind_of_error (h.trans hm), bind_of_error hm]
  · rw [bind_of_ok (h.trans hm), bind_of_ok hm]

theorem bind_eq_ok_iff {m : ExceptT Failure (StateM S) α} {f : α → ExceptT Failure (StateM S) β}
    {s s'' : S} {b : β} :
    (m >>= f) s = (.ok b, s'') ↔ ∃ a s', m s = (.ok a, s') ∧ f a s' = (.ok b, s'') := by
  constructor
  · intro h
    rcases hm : m s with ⟨e | a, s'⟩
    · rw [bind_of_error hm] at h
      cases h
    · rw [bind_of_ok hm] at h
      exact ⟨a, s', rfl, h⟩
  · rintro ⟨a, s', hm, hf⟩
    rw [bind_of_ok hm, hf]

theorem bind_pure_apply {ε : Type} (m : ExceptT ε (StateM S) α) (g : α → β) (s : S) :
    (m >>= fun a => Pure.pure (g a)) s = ((m s).1.map g, (m s).2) := by
  rcases h : m s with ⟨e | a, s'⟩
  · rw [bind_of_error h]
    rfl
  · rw [bind_of_ok h]
    rfl

/-- Whether something stays true of the state, whatever comes out. -/
def Upholds (P : S → Prop) (m : ExceptT Failure (StateM S) α) : Prop := ∀ s, P s → P (m s).2

theorem Upholds.pure {P : S → Prop} (a : α) : Upholds P (Pure.pure a) := fun _ h => h

theorem Upholds.of_state_eq {P : S → Prop} {m : ExceptT Failure (StateM S) α}
    (h : ∀ s, (m s).2 = s) : Upholds P m := fun s hs => by rwa [h s]

theorem Upholds.bind {P : S → Prop} {m : ExceptT Failure (StateM S) α}
    {f : α → ExceptT Failure (StateM S) β} (hm : Upholds P m) (hf : ∀ a, Upholds P (f a)) :
    Upholds P (m >>= f) := by
  intro s hs
  have hs := hm s hs
  rcases h : m s with ⟨e | a, s'⟩
  · rw [bind_of_error h]
    rwa [h] at hs
  · rw [bind_of_ok h]
    rw [h] at hs
    exact hf a s' hs

/-- Whether a program comes to the same from two related states: both succeed with the same result,
or both fail in the same way, and the states that they leave are related again. -/
def Couples (m : ExceptT Failure (StateM S) α) (before done failed : S → S → Prop) : Prop :=
  ∀ s s', before s s' →
    (∃ a t t', m s = (.ok a, t) ∧ m s' = (.ok a, t') ∧ done t t') ∨
      ∃ e t t', m s = (.error e, t) ∧ m s' = (.error e, t') ∧ failed t t'

section Couples

variable {R R' R'' failed : S → S → Prop} {m : ExceptT Failure (StateM S) α}
  {f : α → ExceptT Failure (StateM S) β}

theorem Couples.pure (a : α) : Couples (Pure.pure a) R R failed :=
  fun s s' h => .inl ⟨a, s, s', rfl, rfl, h⟩

theorem Couples.bind (hm : Couples m R R' failed) (hf : ∀ a, Couples (f a) R' R'' failed) :
    Couples (m >>= f) R R'' failed := by
  intro s s' h
  obtain ⟨a, t, t', hs, hs', ht⟩ | ⟨e, t, t', hs, hs', ht⟩ := hm s s' h
  · rw [bind_of_ok hs, bind_of_ok hs']
    exact hf a t t' ht
  · exact .inr ⟨e, t, t', bind_of_error hs, bind_of_error hs', ht⟩

theorem Couples.weaken (hm : Couples m R R' failed) (h : ∀ s s', R' s s' → R'' s s') :
    Couples m R R'' failed := by
  intro s s' hs
  obtain ⟨a, t, t', ht, ht', hend⟩ | hfails := hm s s' hs
  · exact .inl ⟨a, t, t', ht, ht', h t t' hend⟩
  · exact .inr hfails

/-- The same result, and states that are related whatever it is. -/
theorem Couples.of_eq (h : ∀ s s', R s s' → (m s).1 = (m s').1 ∧ R' (m s).2 (m s').2)
    (hfailed : ∀ s s', R' s s' → failed s s') : Couples m R R' failed := by
  intro s s' hs
  obtain ⟨hresult, hstate⟩ := h s s' hs
  rcases hm : m s with ⟨r, t⟩
  rcases hm' : m s' with ⟨r', t'⟩
  rw [hm, hm'] at hresult hstate
  cases hresult
  cases r with
  | ok a => exact .inl ⟨a, t, t', rfl, rfl, hstate⟩
  | error e => exact .inr ⟨e, t, t', rfl, rfl, hfailed t t' hstate⟩

end Couples

theorem isOk_map {ε : Type} (g : α → β) (r : Except ε α) : (r.map g).isOk = r.isOk := by
  cases r <;> rfl

end Programs

end StorageProof
