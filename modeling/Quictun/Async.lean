import Mathlib.Data.List.Basic

/-!
# Operations that are answered by a completion

A client starts operations one at a time and is called back once for each. `Calls` is the history
of one kind of operation, the latest first: which completions each of them got, and whether a
disconnect cut it off. A completion is the latest call's; one before any call is stray.

`Done` is what is known of a call and its answer, `Waiting` what is known of the argument of a call
that has none yet.
-/

namespace Async

structure Call (α ρ : Type) where
  argument : α
  completions : List ρ := []
  cutOff : Bool := false
deriving DecidableEq

structure Calls (α ρ : Type) where
  calls : List (Call α ρ) := []
  stray : Nat := 0
deriving DecidableEq

inductive Phase
  | idle | pending | cancelling
deriving DecidableEq

namespace Calls

variable {α ρ : Type}

section
variable (c : Calls α ρ)

def start (a : α) : Calls α ρ := { c with calls := { argument := a } :: c.calls }

def complete (r : ρ) : Calls α ρ :=
  match c.calls with
  | [] => { c with stray := c.stray + 1 }
  | x :: l => { c with calls := { x with completions := x.completions ++ [r] } :: l }

def update (f : α → α) : Calls α ρ :=
  { c with calls := c.calls.modifyHead fun x => { x with argument := f x.argument } }

def cut : Calls α ρ :=
  { c with calls := c.calls.map fun x => if x.completions.isEmpty then { x with cutOff := true } else x }

def outstanding : Bool := c.calls.any fun x => x.completions.isEmpty

def AtMostOnce : Prop := c.stray = 0 ∧ ∀ x ∈ c.calls, x.completions.length ≤ 1

end

def ExactlyOnce (cancelled : ρ) (c : Calls α ρ) : Prop :=
  ∀ x ∈ c.calls, x.completions.length = 1 ∧ (x.cutOff = true → x.completions = [cancelled])

def gather {β : Type} (g : Call α ρ → List β) (c : Calls α ρ) : List β := c.calls.reverse.flatMap g

/-! ## Phases -/

variable {cancelled : ρ} {P : α → ρ → Prop} {Q Q' : α → Prop} {c : Calls α ρ}

def Done (cancelled : ρ) (P : α → ρ → Prop) (x : Call α ρ) : Prop :=
  ∃ r, x.completions = [r] ∧ P x.argument r ∧ (x.cutOff = true → r = cancelled)

def Waiting (cancelled : ρ) (P : α → ρ → Prop) (Q : α → Prop) (cutOff : Bool) (c : Calls α ρ) : Prop :=
  ∃ a l, c.calls = { argument := a, cutOff } :: l ∧ Q a ∧ ∀ x ∈ l, Done cancelled P x

def In (cancelled : ρ) (P : α → ρ → Prop) (Q : α → Prop) (c : Calls α ρ) : Phase → Prop
  | .idle => c.stray = 0 ∧ ∀ x ∈ c.calls, Done cancelled P x
  | .pending => c.stray = 0 ∧ c.Waiting cancelled P Q false
  | .cancelling => c.stray = 0 ∧ c.Waiting cancelled P Q true

variable {x : Call α ρ}

theorem Done.not_isEmpty (h : Done cancelled P x) : x.completions.isEmpty = false := by
  obtain ⟨r, hr, _⟩ := h
  simp [hr]

theorem In.stray {ph : Phase} (h : c.In cancelled P Q ph) : c.stray = 0 := by
  cases ph <;> exact h.1

theorem in_start (h : c.In cancelled P Q .idle) {a : α} (ha : Q' a) : (c.start a).In cancelled P Q' .pending :=
  ⟨h.1, a, c.calls, rfl, ha, h.2⟩

theorem in_update (h : c.In cancelled P Q .pending) {f : α → α} (hf : ∀ a, Q a → Q' (f a)) :
    (c.update f).In cancelled P Q' .pending := by
  obtain ⟨h0, a, l, hl, ha, hd⟩ := h
  exact ⟨h0, f a, l, by simp [update, hl], hf a ha, hd⟩

variable {cutOff : Bool}

theorem Waiting.imp (h : c.Waiting cancelled P Q cutOff) (hQ : ∀ a, Q a → Q' a) : c.Waiting cancelled P Q' cutOff := by
  obtain ⟨a, l, hl, ha, hd⟩ := h
  exact ⟨a, l, hl, hQ a ha, hd⟩

variable {r : ρ}

theorem waiting_complete (h0 : c.stray = 0) (h : c.Waiting cancelled P Q cutOff)
    (hP : ∀ a, Q a → P a r) (hr : cutOff = true → r = cancelled) : (c.complete r).In cancelled P Q' .idle := by
  obtain ⟨a, l, hl, ha, hd⟩ := h
  simp only [complete, hl, List.nil_append]
  refine ⟨h0, fun x hx => ?_⟩
  rcases List.mem_cons.1 hx with rfl | hx
  · exact ⟨r, rfl, hP a ha, hr⟩
  · exact hd x hx

theorem in_complete (h : c.In cancelled P Q .pending) (hP : ∀ a, Q a → P a r) :
    (c.complete r).In cancelled P Q' .idle :=
  waiting_complete h.1 h.2 hP nofun

theorem in_complete_cancelled (h : c.In cancelled P Q .cancelling) (hP : ∀ a, Q a → P a cancelled) :
    (c.complete cancelled).In cancelled P Q' .idle :=
  waiting_complete h.1 h.2 hP fun _ => rfl

theorem cut_calls {l : List (Call α ρ)} (hd : ∀ x ∈ l, Done cancelled P x) :
    l.map (fun x => if x.completions.isEmpty then { x with cutOff := true } else x) = l := by
  conv_rhs => rw [← List.map_id l]
  apply List.map_congr_left
  intro x hx
  simp [(hd x hx).not_isEmpty]

theorem cut_eq_self (h : c.In cancelled P Q .idle) : c.cut = c := by
  rw [cut, cut_calls h.2]

theorem in_cut (h : c.In cancelled P Q .pending) : c.cut.In cancelled P Q .cancelling := by
  obtain ⟨h0, a, l, hl, ha, hd⟩ := h
  exact ⟨h0, a, l, by simp only [cut, hl, List.map_cons, List.isEmpty_nil, if_true, cut_calls hd], ha, hd⟩

theorem outstanding_idle (h : c.In cancelled P Q .idle) : c.outstanding = false := by
  rw [outstanding, List.any_eq_false]
  intro x hx
  simp [(h.2 x hx).not_isEmpty]

theorem outstanding_pending (h : c.In cancelled P Q .pending) : c.outstanding = true := by
  obtain ⟨-, a, l, hl, -⟩ := h
  simp [outstanding, hl]

theorem outstanding_cancelling (h : c.In cancelled P Q .cancelling) : c.outstanding = true := by
  obtain ⟨-, a, l, hl, -⟩ := h
  simp [outstanding, hl]

theorem exactlyOnce_of_idle (h : c.In cancelled P Q .idle) : c.ExactlyOnce cancelled := by
  intro x hx
  obtain ⟨r, hr, -, hc⟩ := h.2 x hx
  exact ⟨by simp [hr], fun hx => by rw [hr, hc hx]⟩

theorem Waiting.cases (h : c.Waiting cancelled P Q cutOff) (hx : x ∈ c.calls) :
    Done cancelled P x ∨ x.completions = [] ∧ Q x.argument := by
  obtain ⟨a, l, hl, ha, hd⟩ := h
  rw [hl] at hx
  rcases List.mem_cons.1 hx with rfl | hx
  · exact .inr ⟨rfl, ha⟩
  · exact .inl (hd x hx)

theorem In.cases {ph : Phase} (h : c.In cancelled P Q ph) {x : Call α ρ} (hx : x ∈ c.calls) :
    Done cancelled P x ∨ x.completions = [] ∧ Q x.argument := by
  cases ph with
  | idle => exact .inl (h.2 x hx)
  | pending | cancelling => exact h.2.cases hx

theorem In.atMostOnce {ph : Phase} (h : c.In cancelled P Q ph) : c.AtMostOnce := by
  refine ⟨h.stray, fun x hx => ?_⟩
  rcases h.cases hx with ⟨r, hr, -⟩ | ⟨h0, -⟩
  · simp [hr]
  · simp [h0]

/-! ## Sums over the calls -/

section
variable {β : Type} {g : Call α ρ → List β}

theorem gather_start (a : α) : (c.start a).gather g = c.gather g ++ g { argument := a } := by
  simp [gather, start]

theorem gather_cut (hg : ∀ x : Call α ρ, g { x with cutOff := true } = g x) : c.cut.gather g = c.gather g := by
  have : ∀ x : Call α ρ, g (if x.completions.isEmpty then { x with cutOff := true } else x) = g x := by
    intro x
    split
    · exact hg x
    · rfl
  simp only [gather, cut, ← List.map_reverse, List.flatMap_map, this]

theorem gather_complete (hg : ∀ (x : Call α ρ) (l : List ρ), g { x with completions := l } = g x) (r : ρ) :
    (c.complete r).gather g = c.gather g := by
  unfold complete
  split
  · rfl
  next x l hl => simp [gather, hl, hg]

theorem gather_update_eq {f : α → α} (hg : ∀ x : Call α ρ, g { x with argument := f x.argument } = g x) :
    (c.update f).gather g = c.gather g := by
  cases hl : c.calls <;> simp [update, gather, hl, hg]

variable {d : List β}

theorem gather_complete_waiting {cutOff : Bool} (h : c.Waiting cancelled P Q cutOff) {r : ρ}
    (hn : ∀ a b, g { argument := a, completions := [], cutOff := b } = [])
    (hg : ∀ a b, g { argument := a, completions := [r], cutOff := b } = d) :
    (c.complete r).gather g = c.gather g ++ d := by
  obtain ⟨a, l, hl, -⟩ := h
  simp [gather, complete, hl, hn, hg]

theorem gather_update (h : c.In cancelled P Q .pending) {f : α → α}
    (hg : ∀ x : Call α ρ, g { x with argument := f x.argument } = g x ++ d) :
    (c.update f).gather g = c.gather g ++ d := by
  obtain ⟨-, a, l, hl, -⟩ := h
  have ha := hg { argument := a }
  simp only [] at ha
  simp [gather, update, hl, ha]

end

end Calls

end Async
