import Mathlib.Logic.Basic
import Mathlib.Data.List.Basic

/-!
# Runs of a partial step function

A system is a step function `σ → ε → Option σ`: the state after one event, or
nothing if the event is not enabled. `Run` takes a list of events, `AllSteps`
says that every step of a run meets a condition in the state it is taken from,
and `run_inv` is the induction every invariant below goes through.
-/

namespace Lts

section
variable {σ ε : Type*} {step : σ → ε → Option σ}

def run (step : σ → ε → Option σ) : σ → List ε → Option σ
  | s, [] => some s
  | s, e :: es => (step s e).bind fun s' => run step s' es

def AllSteps (step : σ → ε → Option σ) (P : σ → ε → Prop) : σ → List ε → Prop
  | _, [] => True
  | s, e :: es => P s e ∧ ∀ s', step s e = some s' → AllSteps step P s' es

variable {s s' : σ} {es : List ε}

theorem run_cons {e : ε} : run step s (e :: es) = some s' ↔ ∃ m, step s e = some m ∧ run step m es = some s' :=
  Option.bind_eq_some_iff

theorem run_append : ∀ {es fs : List ε} {s s' : σ},
    run step s (es ++ fs) = some s' ↔ ∃ m, run step s es = some m ∧ run step m fs = some s'
  | [], _, s, s' => by simp [run]
  | e :: es, fs, s, s' => by
    rw [List.cons_append, run_cons]
    constructor
    · rintro ⟨m, hm, hr⟩
      obtain ⟨m', hm', hr'⟩ := run_append.1 hr
      exact ⟨m', run_cons.2 ⟨m, hm, hm'⟩, hr'⟩
    · rintro ⟨m', hm', hr'⟩
      obtain ⟨m, hm, hr⟩ := run_cons.1 hm'
      exact ⟨m, hm, run_append.2 ⟨m', hr, hr'⟩⟩

theorem allSteps_append {P : σ → ε → Prop} : ∀ {es fs : List ε} {s m : σ}, run step s es = some m →
    (AllSteps step P s (es ++ fs) ↔ AllSteps step P s es ∧ AllSteps step P m fs)
  | [], _, s, m, h => by
    cases h
    simp [AllSteps]
  | e :: es, fs, s, m, h => by
    obtain ⟨k, hk, hr⟩ := run_cons.1 h
    have hk' : ∀ s', step s e = some s' ↔ k = s' := fun s' => by rw [hk, Option.some.injEq]
    simp only [List.cons_append, AllSteps, hk', forall_eq', allSteps_append hr, and_assoc]

theorem allSteps_of_forall {P : σ → ε → Prop} : ∀ {es : List ε} (s : σ), (∀ e ∈ es, ∀ s, P s e) → AllSteps step P s es
  | [], _, _ => trivial
  | e :: _, s, h =>
    ⟨h e List.mem_cons_self s, fun s' _ => allSteps_of_forall s' fun e he => h e (List.mem_cons_of_mem _ he)⟩

theorem allSteps_and_forall {P : σ → ε → Prop} {Q : ε → Prop} : ∀ {es : List ε} {s : σ}, AllSteps step P s es →
    (∀ e ∈ es, Q e) → AllSteps step (fun s e => P s e ∧ Q e) s es
  | [], _, _, _ => trivial
  | e :: _, _, h, hQ => ⟨⟨h.1, hQ e List.mem_cons_self⟩, fun s' hs =>
      allSteps_and_forall (h.2 s' hs) fun e he => hQ e (List.mem_cons_of_mem _ he)⟩

def checkSteps (step : σ → ε → Option σ) (P : σ → ε → Prop) [∀ s e, Decidable (P s e)] : σ → List ε → Bool
  | _, [] => true
  | s, e :: es => decide (P s e) && (step s e).all fun s' => checkSteps step P s' es

theorem allSteps_of_check {P : σ → ε → Prop} [∀ s e, Decidable (P s e)] :
    ∀ {es : List ε} {s : σ}, checkSteps step P s es = true → AllSteps step P s es
  | [], _, _ => trivial
  | e :: es, s, h => by
    rw [checkSteps, Bool.and_eq_true, decide_eq_true_eq] at h
    refine ⟨h.1, fun s' hs => allSteps_of_check ?_⟩
    have h2 := h.2
    rw [hs] at h2
    exact h2

theorem run_inv_from {P : σ → ε → Prop} {I : List ε → σ → Prop}
    (hstep : ∀ es s e s', I es s → P s e → step s e = some s' → I (es ++ [e]) s') :
    ∀ {fs es : List ε} {s s' : σ}, I es s → AllSteps step P s fs → run step s fs = some s' → I (es ++ fs) s'
  | [], es, s, s', hi, _, hr => by
    cases hr
    rwa [List.append_nil]
  | e :: fs, es, s, s', hi, ha, hr => by
    obtain ⟨m, hm, hr'⟩ := run_cons.1 hr
    have h := run_inv_from hstep (hstep es s e m hi ha.1 hm) (ha.2 m hm) hr'
    rwa [List.append_assoc, List.singleton_append] at h

/-- **Invariants that remember the run.** The same for a property of the state and the events so far. -/
theorem run_inv_hist {P : σ → ε → Prop} {I : List ε → σ → Prop}
    (hstep : ∀ es s e s', I es s → P s e → step s e = some s' → I (es ++ [e]) s')
    (hi : I [] s) (ha : AllSteps step P s es) (hr : run step s es = some s') : I es s' := by
  have h := run_inv_from hstep hi ha hr
  rwa [List.nil_append] at h

theorem run_hist {I : List ε → σ → Prop} (hstep : ∀ es s e s', I es s → step s e = some s' → I (es ++ [e]) s')
    (hi : I [] s) (hr : run step s es = some s') : I es s' :=
  run_inv_hist (P := fun _ _ => True) (fun es s e s' h _ => hstep es s e s' h) hi
    (allSteps_of_forall s fun _ _ _ => trivial) hr

/-- A log that every step extends by what `f` takes from the event. -/
theorem run_log {α : Type*} {log : σ → List α} {f : ε → Option α}
    (hstep : ∀ s e s', step s e = some s' → log s' = (f e).toList ++ log s) (hi : log s = [])
    (hr : run step s es = some s') : log s' = (es.filterMap f).reverse := by
  refine run_hist (I := fun es s => log s = (es.filterMap f).reverse) (fun es s e s' h hs => ?_) hi hr
  rw [hstep s e s' hs, h, List.filterMap_append, List.reverse_append]
  cases hf : f e <;> simp [hf]

/-- **Invariants along conditioned runs.** What every step that meets `P` keeps, a run
all of whose steps meet `P` keeps. -/
theorem run_inv_of {P : σ → ε → Prop} {I : σ → Prop} (hstep : ∀ s e s', I s → P s e → step s e = some s' → I s')
    (hi : I s) (ha : AllSteps step P s es) (hr : run step s es = some s') : I s' :=
  run_inv_hist (I := fun _ => I) (fun _ => hstep) hi ha hr

/-- **Invariants along runs.** What every step keeps, every run keeps. -/
theorem run_inv {I : σ → Prop} (hstep : ∀ s e s', I s → step s e = some s' → I s')
    (hi : I s) (hr : run step s es = some s') : I s' :=
  run_hist (I := fun _ => I) (fun _ => hstep) hi hr

theorem run_congr {step' : σ → ε → Option σ} {I : σ → Prop} (hstep : ∀ s e s', I s → step s e = some s' → I s')
    (heq : ∀ s e, I s → step s e = step' s e) : ∀ {es : List ε} {s : σ}, I s → run step s es = run step' s es
  | [], _, _ => rfl
  | e :: es, s, hi => by
    rw [run, run, ← heq s e hi]
    cases hs : step s e with
    | none => rfl
    | some s' => exact run_congr hstep heq (hstep s e s' hi hs)

end

end Lts
