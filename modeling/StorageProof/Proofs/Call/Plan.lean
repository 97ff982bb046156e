import StorageProof.Call.Declared
import StorageProof.Proofs.Call.Exchange
import StorageProof.Proofs.Sequencing

/-!
# Plans and the traces of calls that keep to them

A plan is a list of purposes. A trace of calls follows a plan if its purposes are those of the plan
from the beginning and each call but the last was accepted, and it completes the plan if it goes
through all of it and the last call was accepted too. Programs over an observed runner are related
to plans by what they add to the log, whatever the runner answers; the relation composes along
sequencing.
-/

namespace StorageProof

/-- The trace is for the purposes of a plan, from its beginning on, and goes on after accepted calls
only. -/
structure Follows (plan : List Purpose) (trace : List Exchange) : Prop where
  purposes : trace.map (·.call.purpose) <+: plan
  accepted : ∀ e ∈ trace.dropLast, e.Accepted

/-- The trace goes through a whole plan, and every call of it was accepted. -/
structure Completes (plan : List Purpose) (trace : List Exchange) : Prop where
  purposes : trace.map (·.call.purpose) = plan
  accepted : ∀ e ∈ trace, e.Accepted

section Traces

variable {p q : List Purpose} {t u : List Exchange}

theorem Follows.nil (p : List Purpose) : Follows p [] := ⟨List.nil_prefix, by simp⟩

theorem Follows.length_le (h : Follows p t) : t.length ≤ p.length := by
  simpa using h.purposes.length_le

theorem Completes.nil : Completes [] [] := ⟨rfl, by simp⟩

theorem Completes.length_eq (h : Completes p t) : t.length = p.length := by
  simpa using congrArg List.length h.purposes

theorem Completes.append (hp : Completes p t) (hq : Completes q u) :
    Completes (p ++ q) (t ++ u) := by
  constructor
  · rw [List.map_append, hp.purposes, hq.purposes]
  · intro e he
    rcases List.mem_append.mp he with h | h
    · exact hp.accepted e h
    · exact hq.accepted e h

/-- What follows a plan follows every plan that goes on from it. -/
theorem Follows.extend (h : Follows p t) (q : List Purpose) : Follows (p ++ q) t :=
  ⟨h.purposes.trans (List.prefix_append p q), h.accepted⟩

/-- After a plan that was completed, another one may be followed. -/
theorem Completes.then_follows (hp : Completes p t) (hq : Follows q u) :
    Follows (p ++ q) (t ++ u) := by
  constructor
  · rw [List.map_append, hp.purposes]
    exact (List.prefix_append_right_inj p).mpr hq.purposes
  · intro e he
    by_cases hu : u = []
    · subst u
      rw [List.append_nil] at he
      exact hp.accepted e ((List.dropLast_sublist t).subset he)
    · rw [List.dropLast_append_of_ne_nil hu] at he
      rcases List.mem_append.mp he with h | h
      · exact hp.accepted e h
      · exact hq.accepted e h

theorem Completes.of_append (hp : Completes p t) (h : Completes (p ++ q) (t ++ u)) :
    Completes q u := by
  constructor
  · have hm := h.purposes
    rw [List.map_append, hp.purposes] at hm
    exact List.append_cancel_left hm
  · exact fun e he => h.accepted e (List.mem_append_right t he)

end Traces

/-! ## Programs that keep to a plan -/

section Programs

variable {S α β : Type} {log : S → List Exchange} {p q : List Purpose}

/-- What the program adds to the log follows the plan, and completes it if the program succeeds. -/
def KeepsTo (log : S → List Exchange) (plan : List Purpose)
    (m : ExceptT Failure (StateM S) α) : Prop :=
  ∀ s, ∃ trace, log (m s).2 = log s ++ trace ∧ Follows plan trace ∧
    ((m s).1.isOk → Completes plan trace)

/-- What the program adds to the log follows the plan, and completes it if and only if the program
succeeds. -/
def Decides (log : S → List Exchange) (plan : List Purpose)
    (m : ExceptT Failure (StateM S) α) : Prop :=
  ∀ s, ∃ trace, log (m s).2 = log s ++ trace ∧ Follows plan trace ∧
    ((m s).1.isOk ↔ Completes plan trace)

theorem Decides.keepsTo {m : ExceptT Failure (StateM S) α} (h : Decides log p m) :
    KeepsTo log p m := by
  intro s
  obtain ⟨trace, hlog, hf, hc⟩ := h s
  exact ⟨trace, hlog, hf, hc.mp⟩

/-- A program that makes no calls keeps to the empty plan. -/
theorem KeepsTo.of_log_eq {m : ExceptT Failure (StateM S) α} (h : ∀ s, log (m s).2 = log s) :
    KeepsTo log [] m := fun s => ⟨[], by simp [h s], .nil [], fun _ => .nil⟩

theorem KeepsTo.bind {m : ExceptT Failure (StateM S) α} {f : α → ExceptT Failure (StateM S) β}
    (hm : KeepsTo log p m) (hf : ∀ a, KeepsTo log q (f a)) : KeepsTo log (p ++ q) (m >>= f) := by
  intro s
  obtain ⟨t, hlog, ht, hc⟩ := hm s
  rcases h : m s with ⟨_ | a, s'⟩
  · rw [h] at hlog
    rw [bind_of_error h]
    exact ⟨t, hlog, ht.extend q, by simp [Except.isOk, Except.toBool]⟩
  · rw [h] at hlog hc
    rw [bind_of_ok h]
    have ht := hc rfl
    obtain ⟨u, hlog', hu, hc'⟩ := hf a s'
    refine ⟨t ++ u, ?_, ht.then_follows hu, fun hok => ht.append (hc' hok)⟩
    rw [hlog', hlog, List.append_assoc]

/-- A program decides a plan together with what follows it, unless nothing is left to be called. -/
theorem KeepsTo.bind_decides {m : ExceptT Failure (StateM S) α}
    {f : α → ExceptT Failure (StateM S) β}
    (hm : KeepsTo log p m) (hf : ∀ a, Decides log q (f a)) (hq : q ≠ []) :
    Decides log (p ++ q) (m >>= f) := by
  intro s
  obtain ⟨t, hlog, ht, hc⟩ := hm s
  rcases h : m s with ⟨_ | a, s'⟩
  · rw [h] at hlog
    rw [bind_of_error h]
    refine ⟨t, hlog, ht.extend q, by simp [Except.isOk, Except.toBool], fun hall => ?_⟩
    -- A trace of the first plan is too short for both.
    have hle := ht.length_le
    have heq := hall.length_eq
    have hpos := List.length_pos_iff.mpr hq
    rw [List.length_append] at heq
    omega
  · rw [h] at hlog hc
    rw [bind_of_ok h]
    have ht := hc rfl
    obtain ⟨u, hlog', hu, hc'⟩ := hf a s'
    refine ⟨t ++ u, ?_, ht.then_follows hu, fun hok => ht.append (hc'.mp hok),
      fun hall => hc'.mpr (ht.of_append hall)⟩
    rw [hlog', hlog, List.append_assoc]

/-- A step without calls changes nothing in what is kept to. -/
theorem KeepsTo.after_silent {m : ExceptT Failure (StateM S) α}
    {f : α → ExceptT Failure (StateM S) β}
    (hm : ∀ s, log (m s).2 = log s) (hf : ∀ a, KeepsTo log p (f a)) : KeepsTo log p (m >>= f) :=
  (KeepsTo.of_log_eq hm).bind hf

theorem KeepsTo.after_call {m : ExceptT Failure (StateM S) α} {f : α → ExceptT Failure (StateM S) β}
    {x : Purpose} (hm : KeepsTo log [x] m) (hf : ∀ a, KeepsTo log p (f a)) :
    KeepsTo log (x :: p) (m >>= f) := hm.bind hf

theorem Decides.after_silent {m : ExceptT Failure (StateM S) α}
    {f : α → ExceptT Failure (StateM S) β}
    (hm : ∀ s, log (m s).2 = log s) (hf : ∀ a, Decides log p (f a)) (hp : p ≠ []) :
    Decides log p (m >>= f) := (KeepsTo.of_log_eq hm).bind_decides hf hp

theorem Decides.after_call {m : ExceptT Failure (StateM S) α} {f : α → ExceptT Failure (StateM S) β}
    {x : Purpose} (hm : Decides log [x] m) (hf : ∀ a, Decides log p (f a)) (hp : p ≠ []) :
    Decides log (x :: p) (m >>= f) := hm.keepsTo.bind_decides hf hp

/-- What is decided stays so if something that cannot fail and makes no calls comes after it. -/
theorem Decides.then_pure {m : ExceptT Failure (StateM S) α} (hm : Decides log p m) (g : α → β) :
    Decides log p (m >>= fun a => Pure.pure (g a)) := by
  intro s
  rw [bind_pure_apply, isOk_map]
  exact hm s

end Programs

end StorageProof
