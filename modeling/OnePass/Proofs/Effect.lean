import Mathlib.Algebra.Order.Ring.Nat

/-! # Running effects

What the basic steps of a computation with a state and errors do when they are run. Rewriting with
these equations follows a computation step by step. -/
namespace OnePass

open List

section State

variable {all : List γ}

theorem bind_run (x : EStateM ε σ α) (f : α → EStateM ε σ β) (s : σ) : (x >>= f) s = match x s with
      | .ok a s => f a s
      | .error e s => .error e s := rfl

theorem bind_eq_ok {f : α → EStateM ε σ β} :
    (x >>= f) s = .ok b s' ↔ ∃ a t, x s = .ok a t ∧ f a t = .ok b s' := by
  rw [bind_run]
  cases x s with
  | ok a t => exact ⟨fun run => ⟨a,t,rfl,run⟩,fun ⟨_,_,same,run⟩ => by cases same; exact run⟩
  | error e t => simp

def succeeds (test : α → Bool) : EStateM.Result ε σ α → Bool
  | .ok a _ => test a
  | .error .. => false

theorem succeeds_iff : succeeds test result = true ↔ ∃ a s, result = .ok a s ∧ test a = true := by
  cases result <;> simp [succeeds]

def leaves (test : σ → Bool) : EStateM.Result ε σ α → Bool
  | .ok _ s => test s
  | .error .. => false

theorem leaves_iff : leaves test result = true ↔ ∃ a s, result = .ok a s ∧ test s = true := by
  cases result <;> simp [leaves]

@[simp] theorem pure_run (a : α) (s : σ) : (pure a : EStateM ε σ α) s = .ok a s := rfl

@[simp] theorem get_run (s : σ) : (get : EStateM ε σ σ) s = .ok s s := rfl

@[simp] theorem set_run (t s : σ) : (set t : EStateM ε σ PUnit) s = .ok ⟨⟩ t := rfl

@[simp] theorem modify_run (f : σ → σ) (s : σ) : (modify f : EStateM ε σ PUnit) s = .ok ⟨⟩ (f s) := rfl

@[simp] theorem modifyGet_run (f : σ → α × σ) (s : σ) : (modifyGet f : EStateM ε σ α) s = .ok (f s).1 (f s).2 := rfl

@[simp] theorem throw_run (e : ε) (s : σ) : (throw e : EStateM ε σ α) s = .error e s := rfl

/-- A sequence of steps keeps what every step keeps; a step knows which ones came before it. -/
theorem forM_keeps {step : γ → EStateM ε σ PUnit} (keeps : σ → List γ → Prop)
    (each : ∀ s s' done c rest, all = done ++ c :: rest → keeps s done → step c s = .ok ⟨⟩ s' →
      keeps s' (done ++ [c]))
    (start : keeps s []) (run : all.forM step s = .ok ⟨⟩ s') : keeps s' all := by
  suffices ∀ items done s, all = done ++ items → keeps s done → items.forM step s = .ok ⟨⟩ s' →
      keeps s' all from this all [] s rfl start run
  intro items
  induction items with
  | nil =>
    intro done s parts holds run
    cases run
    simpa [parts] using holds
  | cons c rest ih =>
    intro done s parts holds run
    obtain ⟨_,t,first,later⟩ := bind_eq_ok.mp (show (step c >>= fun _ => rest.forM step) s = _ from run)
    exact ih (done ++ [c]) t (by simp [parts]) (each s t done c rest parts holds first) later

theorem filterMapM_found {step : γ → EStateM ε σ (Option β)} (items : List γ) (found : List β)
    (s : σ) (nonempty : found ≠ []) : filterMapM.loop step items found s ≠ .ok [] s' := by
  induction items generalizing found s with
  | nil =>
    intro run
    simp only [filterMapM.loop,pure_run,EStateM.Result.ok.injEq,reverse_eq_nil_iff] at run
    exact nonempty run.1
  | cons c rest ih =>
    intro run
    rw [filterMapM.loop,bind_eq_ok] at run
    obtain ⟨result,t,_,later⟩ := run
    cases result with
    | none => exact ih found t nonempty later
    | some b => exact ih (b :: found) t (by simp) later

theorem filterMapM_keeps {step : γ → EStateM ε σ (Option β)} (keeps : σ → List γ → Prop)
    (each : ∀ s s' done c rest, all = done ++ c :: rest → keeps s done → step c s = .ok none s' →
      keeps s' (done ++ [c]))
    (start : keeps s []) (run : all.filterMapM step s = .ok [] s') : keeps s' all := by
  suffices ∀ items done found s, all = done ++ items → keeps s done →
      filterMapM.loop step items found s = .ok [] s' → found = [] ∧ keeps s' all from
    (this all [] [] s rfl start run).2
  intro items
  induction items with
  | nil =>
    intro done found s parts holds run
    simp only [filterMapM.loop,pure_run,EStateM.Result.ok.injEq,reverse_eq_nil_iff] at run
    obtain ⟨rfl,rfl⟩ := run
    exact ⟨rfl,by simpa [parts] using holds⟩
  | cons c rest ih =>
    intro done found s parts holds run
    rw [filterMapM.loop,bind_eq_ok] at run
    obtain ⟨result,t,first,later⟩ := run
    cases result with
    | some b =>
      exact absurd later (filterMapM_found rest (b :: found) t (by simp))
    | none => exact ih (done ++ [c]) found t (by simp [parts]) (each s t done c rest parts holds first) later

end State

section Reader

variable {ρ ε σ α β : Type} (r : ρ) (s : σ)

theorem run_bind (x : ReaderT ρ (EStateM ε σ) α) (f : α → ReaderT ρ (EStateM ε σ) β) :
    (x >>= f) r s = match x r s with
      | .ok a s => f a r s
      | .error e s => .error e s := rfl

@[simp] theorem run_pure (a : α) : (pure a : ReaderT ρ (EStateM ε σ) α) r s = .ok a s := rfl

@[simp] theorem run_read : (read : ReaderT ρ (EStateM ε σ) ρ) r s = .ok r s := rfl

@[simp] theorem run_get : (get : ReaderT ρ (EStateM ε σ) σ) r s = .ok s s := rfl

@[simp] theorem run_set (t : σ) : (set t : ReaderT ρ (EStateM ε σ) PUnit) r s = .ok ⟨⟩ t := rfl

@[simp] theorem run_modify (f : σ → σ) : (modify f : ReaderT ρ (EStateM ε σ) PUnit) r s = .ok ⟨⟩ (f s) := rfl

@[simp] theorem run_modifyGet (f : σ → α × σ) :
    (modifyGet f : ReaderT ρ (EStateM ε σ) α) r s = .ok (f s).1 (f s).2 := rfl

@[simp] theorem run_throw (e : ε) : (throw e : ReaderT ρ (EStateM ε σ) α) r s = .error e s := rfl

theorem run_tryCatch (x : ReaderT ρ (EStateM ε σ) α) (handle : ε → ReaderT ρ (EStateM ε σ) α) :
    tryCatch x handle r s = match x r s with
      | .ok a s => .ok a s
      | .error e s => handle e r s := by
  simp only [tryCatch,tryCatchThe,MonadExceptOf.tryCatch,EStateM.tryCatch]
  cases x r s with
  | ok _ _ => rfl
  | error _ _ => rfl

end Reader
end OnePass
