import Quictun.IdleTracker

/-!
# The sweep is exact

Both lists are ordered oldest first, although nothing ever sorts them: a tunnel
joins a list only at its back and only with the current time as its stamp. So the
front of a list is the only candidate for expiry, whatever else a close closes.
-/

namespace Quictun

open Function QuictunIdleTracker List

namespace Fleet

section
variable {T : Type}

structure Inv (f : Fleet T) : Prop where
  mem : ∀ b t, t ∈ f.tracker.list b ↔
    (f.idle t).started = true ∧ (f.idle t).closed = false ∧ (f.idle t).stalled = b
  nodup : ∀ b, (f.tracker.list b).Nodup
  sorted : ∀ b, (f.tracker.list b).Pairwise fun x y => (f.idle x).lastActivity ≤ (f.idle y).lastActivity
  past : ∀ b, ∀ t ∈ f.tracker.list b, (f.idle t).lastActivity ≤ f.now

theorem inv_init (now : Time) : Inv (init now : Fleet T) where
  mem b t := by cases b <;> simp [init, QuictunIdleTracker.list]
  nodup b := by cases b <;> simp [init, QuictunIdleTracker.list]
  sorted b := by cases b <;> simp [init, QuictunIdleTracker.list]
  past b t ht := by cases b <;> simp [init, QuictunIdleTracker.list] at ht

variable {f : Fleet T} {t : T}

theorem Inv.not_mem_other (hf : Inv f) {s : Bool} (h : t ∈ f.tracker.list s) : t ∉ f.tracker.list (!s) := by
  intro h'
  have h1 := ((hf.mem s t).1 h).2.2
  have h2 := ((hf.mem (!s) t).1 h').2.2
  rw [h1] at h2
  cases s <;> simp at h2

theorem Inv.not_linked (hf : Inv f) (h : (f.idle t).started = true → (f.idle t).closed = true)
    (b : Bool) : t ∉ f.tracker.list b := by
  intro hm
  obtain ⟨hs, hc, _⟩ := (hf.mem b t).1 hm
  rw [h hs] at hc
  cases hc

end

/-! ## Filing a tunnel at the back -/

section
variable {T : Type} [DecidableEq T] {f : Fleet T} {t : T} {i : IdleState}

theorem Inv.erased (hf : Inv f) (t : T) (i : IdleState) (b : Bool) :
    (((f.tracker.list b).erase t).Pairwise fun x y =>
      (update f.idle t i x).lastActivity ≤ (update f.idle t i y).lastActivity) ∧
    ∀ x ∈ (f.tracker.list b).erase t, (update f.idle t i x).lastActivity ≤ f.now := by
  have hne : ∀ x, x ∈ (f.tracker.list b).erase t → x ≠ t ∧ x ∈ f.tracker.list b := fun x hx =>
    (hf.nodup b).mem_erase_iff.1 hx
  constructor
  · refine ((hf.sorted b).sublist erase_sublist).imp_of_mem fun hx hy h => ?_
    rwa [update_of_ne (hne _ hx).1, update_of_ne (hne _ hy).1]
  · intro x hx
    rw [update_of_ne (hne x hx).1]
    exact hf.past b x (hne x hx).2

theorem inv_touch (hf : Inv f) (hs : i.started = true) (hc : i.closed = false) (hl : i.lastActivity = f.now) :
    Inv { f with tracker := f.tracker.touch t i.stalled, idle := Function.update f.idle t i } := by
  have hlist : ∀ b, (f.tracker.touch t i.stalled).list b =
      if b = i.stalled then (f.tracker.list b).erase t ++ [t] else (f.tracker.list b).erase t :=
    fun b => f.tracker.list_touch t i.stalled b (nodup_iff_count_le_one.1 (hf.nodup _) t) hf.not_mem_other
  have hsub := fun b => (hf.erased t i b).1
  have hpast := fun b => (hf.erased t i b).2
  refine ⟨fun b x => ?_, fun b => ?_, fun b => ?_, fun b x hx => ?_⟩ <;> simp only [hlist] at *
  · by_cases hx : x = t
    · subst hx
      rw [update_self]
      by_cases hb : b = i.stalled
      · simp [hb, hs, hc]
      · simp [hb, (hf.nodup b).mem_erase_iff, Ne.symm hb]
    · rw [update_of_ne hx, ← hf.mem]
      split <;> simp [(hf.nodup b).mem_erase_iff, hx]
  · split
    · exact ((hf.nodup b).erase t).append (nodup_singleton t)
        (disjoint_singleton.2 (hf.nodup b).not_mem_erase)
    · exact (hf.nodup b).erase t
  · split
    · refine pairwise_append.2 ⟨hsub b, pairwise_singleton _ _, fun x hx y hy => ?_⟩
      rw [mem_singleton.1 hy, update_self, hl]
      exact hpast b x hx
    · exact hsub b
  · split at hx
    · rcases mem_append.1 hx with hx | hx
      · exact hpast b x hx
      · rw [mem_singleton.1 hx, update_self]
        exact Int.le_of_eq hl
    · exact hpast b x hx

theorem inv_unlinked (hf : Inv f) (ht : ∀ b, t ∉ f.tracker.list b) (hi : i.started = true → i.closed = true) :
    Inv { f with idle := Function.update f.idle t i } := by
  have hne : ∀ b x, x ∈ f.tracker.list b → x ≠ t := fun b x hx h => ht b (h ▸ hx)
  refine ⟨fun b x => ?_, hf.nodup, fun b => ?_, fun b x hx => ?_⟩
  · simp only
    by_cases hx : x = t
    · subst hx
      rw [update_self]
      refine ⟨fun h => absurd h (ht b), fun ⟨hs, hc, _⟩ => ?_⟩
      rw [hi hs] at hc
      cases hc
    · rw [update_of_ne hx]
      exact hf.mem b x
  · refine (hf.sorted b).imp_of_mem fun hx hy h => ?_
    simpa only [update_of_ne (hne b _ hx), update_of_ne (hne b _ hy)] using h
  · simp only [update_of_ne (hne b x hx)]
    exact hf.past b x hx

theorem inv_same (hf : Inv f) (t : T) : Inv { f with idle := Function.update f.idle t (f.idle t) } := by
  rw [update_eq_self]
  exact hf

/-- Whether the event writes `last_activity_` of `t`: an open tunnel's `Start()` and `NoteActivity()` do, and
`UpdateIdleClass()` does when it changes the class. -/
def stamps (f : Fleet T) (t : T) : Ev T → Bool
  | .start u _ | .noteActivity u _ => u = t && !(f.idle u).closed
  | .updateIdleClass u h => u = t && (!(f.idle u).closed && h != (f.idle u).stalled)
  | _ => false

def Follows (f : Fleet T) (e : Ev T) (g : Fleet T) : Prop :=
  Inv g ∧ ∀ t, (g.idle t).lastActivity = if f.stamps t e then f.now else (f.idle t).lastActivity

theorem lastActivity_update {u : T} {p : Bool}
    (hi : i.lastActivity = if p then f.now else (f.idle u).lastActivity) (t : T) :
    (update f.idle u i t).lastActivity = if u = t && p then f.now else (f.idle t).lastActivity := by
  by_cases hu : u = t
  · subst hu
    simpa using hi
  · simp [update_of_ne (Ne.symm hu), hu]

-- `i` is the tunnel's state, or what `Start()` makes of it before it calls `NoteActivity()`
theorem follows_noteActivity (hf : Inv f) (hs : i.started = true) (hi : i.closed = (f.idle t).closed)
    (hl : i.lastActivity = (f.idle t).lastActivity) (h : Bool) :
    Follows f (.noteActivity t h) { f with
      tracker := (f.tracker.noteActivity t i f.now h).1
      idle := update f.idle t (f.tracker.noteActivity t i f.now h).2 } := by
  cases hc : (f.idle t).closed with
  | true =>
    rw [noteActivity_closed (hi.trans hc)]
    exact ⟨inv_unlinked hf (hf.not_linked fun _ => hc) fun _ => hi.trans hc, lastActivity_update (by simp [hc, hl])⟩
  | false =>
    rw [noteActivity_open (hi.trans hc)]
    exact ⟨inv_touch (i := { i with lastActivity := f.now, stalled := h }) hf hs (hi.trans hc) rfl,
      lastActivity_update (by simp [hc])⟩

theorem follows_updateIdleClass (hf : Inv f) (t : T) (h : Bool) :
    Follows f (.updateIdleClass t h) (f.updateIdleClass t h) := by
  unfold updateIdleClass
  cases hc : (f.idle t).closed with
  | true =>
    rw [show f.tracker.updateIdleClass t (f.idle t) f.now h = (f.tracker, f.idle t) from if_pos hc]
    exact ⟨inv_same hf t, lastActivity_update (by simp [hc])⟩
  | false =>
    rw [updateIdleClass_open hc]
    by_cases hb : h = (f.idle t).stalled
    · rw [if_pos hb]
      exact ⟨inv_same hf t, lastActivity_update (by simp [hb])⟩
    rw [if_neg hb]
    refine ⟨?_, lastActivity_update (by simp [hc, hb])⟩
    unfold refile
    -- before `Start()` the tunnel is not linked, and `Refile` leaves it so
    by_cases hs : (f.idle t).started = true
    · rw [if_pos ((f.tracker.isLinked_iff t).2 ⟨_, (hf.mem _ t).2 ⟨hs, hc, rfl⟩⟩)]
      exact inv_touch (i := { f.idle t with lastActivity := f.now, stalled := h }) hf hs hc rfl
    · have hn : ∀ b, t ∉ f.tracker.list b := hf.not_linked fun h' => absurd h' hs
      rw [if_neg fun h' => let ⟨b, hb⟩ := (f.tracker.isLinked_iff t).1 h'; hn b hb]
      exact inv_unlinked hf hn fun h' => absurd h' hs

end

/-! ## Closing -/

section
variable {T : Type}

structure Closes (S : T → Prop) (f g : Fleet T) : Prop where
  now : g.now = f.now
  stamp : ∀ t, (g.idle t).lastActivity = (f.idle t).lastActivity
  only : ∀ t, (f.idle t).closed = false → (g.idle t).closed = true → S t
  sublist : ∀ b, (g.tracker.list b).Sublist (f.tracker.list b)

theorem Closes.refl (S : T → Prop) (f : Fleet T) : Closes S f f :=
  ⟨rfl, fun _ => rfl, fun t h h' => (by rw [h] at h'; cases h'), fun _ => List.Sublist.refl _⟩

theorem Closes.trans {S : T → Prop} {f g h : Fleet T} (hfg : Closes S f g) (hgh : Closes S g h) : Closes S f h where
  now := hgh.now.trans hfg.now
  stamp t := (hgh.stamp t).trans (hfg.stamp t)
  only t hf hh := by
    cases hg : (g.idle t).closed with
    | true => exact hfg.only t hf hg
    | false => exact hgh.only t hg hh
  sublist b := (hgh.sublist b).trans (hfg.sublist b)

theorem Closes.mono {S S' : T → Prop} {f g : Fleet T} (h : Closes S f g) (hS : ∀ t, S t → S' t) : Closes S' f g :=
  { h with only := fun t hf hg => hS t (h.only t hf hg) }

variable [DecidableEq T] {f : Fleet T}

theorem inv_closeOne (hf : Inv f) (t : T) : Inv (f.closeOne t) := by
  refine ⟨fun b x => ?_, fun b => ?_, fun b => ?_, fun b x hx => ?_⟩ <;>
    simp only [closeOne, list_remove] at *
  · by_cases hx : x = t
    · subst hx
      simp [(hf.nodup b).mem_erase_iff]
    · rw [update_of_ne hx, ← hf.mem, (hf.nodup b).mem_erase_iff, and_iff_right hx]
  · exact (hf.nodup b).erase t
  · exact (hf.erased t _ b).1
  · exact (hf.erased t _ b).2 x hx

theorem closes_closeOne (f : Fleet T) (t : T) : Closes (· = t) f (f.closeOne t) := by
  refine ⟨rfl, fun x => ?_, fun x hx hx' => ?_, fun b => ?_⟩ <;> simp only [closeOne] at *
  · by_cases h : x = t
    · subst h; rw [update_self]
    · rw [update_of_ne h]
  · by_contra h
    rw [update_of_ne h, hx] at hx'
    cases hx'
  · rw [list_remove]
    exact erase_sublist

theorem closeAll_spec (ts : List T) : ∀ {f : Fleet T}, Inv f → Inv (f.closeAll ts) ∧
    Closes (· ∈ ts) f (f.closeAll ts) := by
  induction ts with
  | nil => exact fun hf => ⟨hf, Closes.refl _ _⟩
  | cons t ts ih =>
    intro f hf
    have hstep : Inv (if (f.idle t).closed then f else f.closeOne t) ∧
        Closes (· ∈ t :: ts) f (if (f.idle t).closed then f else f.closeOne t) := by
      split
      · exact ⟨hf, Closes.refl _ _⟩
      · exact ⟨inv_closeOne hf t, (closes_closeOne f t).mono fun x hx => by simp [hx]⟩
    obtain ⟨hi, hc⟩ := ih hstep.1
    exact ⟨hi, hstep.2.trans (hc.mono fun x hx => mem_cons_of_mem _ hx)⟩

theorem close_spec (owner : Fleet T → T → List T) (hf : Inv f) (t : T) :
    Inv (f.close owner t) ∧ Closes (fun x => x = t ∨ ∃ f', x ∈ owner f' t) f (f.close owner t) ∧
      ∀ b, ((f.close owner t).tracker.list b).Sublist ((f.tracker.list b).erase t) := by
  obtain ⟨hi, hc⟩ := closeAll_spec (owner (f.closeOne t) t) (inv_closeOne hf t)
  refine ⟨hi, ?_, fun b => ?_⟩
  · exact ((closes_closeOne f t).mono fun x hx => .inl hx).trans (hc.mono fun x hx => .inr ⟨_, hx⟩)
  · have := hc.sublist b
    rwa [closeOne, list_remove] at this

/-! ## The sweep -/

theorem closeExpired_spec (owner : Fleet T → T → List T) (b : Bool) (timeout : Time) :
    ∀ (fuel : Nat) {f : Fleet T}, Inv f → (f.tracker.list b).length < fuel →
      ∃ g ts, closeExpired owner b timeout fuel f = some (g, ts) ∧ Inv g ∧
        Closes (fun x => x ∈ ts ∨ ∃ u ∈ ts, ∃ f', x ∈ owner f' u) f g ∧
        (∀ t ∈ ts, t ∈ f.tracker.list b ∧ timeout ≤ f.now - (f.idle t).lastActivity) ∧
        ∀ t ∈ g.tracker.list b, g.now - (g.idle t).lastActivity < timeout
  | fuel + 1, f, hf, hlen => by
    unfold closeExpired
    split
    next hl =>
      exact ⟨f, [], rfl, hf, Closes.refl _ _, by simp, by simp [hl]⟩
    next t l hl =>
      split
      next hexp =>
        obtain ⟨hi, hc, hsub⟩ := close_spec owner hf t
        have hlen' : ((f.close owner t).tracker.list b).length < fuel := by
          have := (hsub b).length_le
          rw [hl, erase_cons_head] at this
          rw [hl, length_cons] at hlen
          omega
        obtain ⟨g, ts, hg, hig, hcg, hts, hout⟩ := closeExpired_spec owner b timeout fuel hi hlen'
        refine ⟨g, t :: ts, by rw [hg]; rfl, hig, ?_, ?_, hout⟩
        · refine (hc.mono fun x hx => ?_).trans (hcg.mono fun x hx => ?_)
          · rcases hx with rfl | ⟨f', hx⟩
            · exact .inl (by simp)
            · exact .inr ⟨t, by simp, f', hx⟩
          · rcases hx with hx | ⟨u, hu, f', hx⟩
            · exact .inl (mem_cons_of_mem _ hx)
            · exact .inr ⟨u, mem_cons_of_mem _ hu, f', hx⟩
        · intro u hu
          rcases mem_cons.1 hu with rfl | hu
          · exact ⟨by simp [hl], hexp⟩
          · obtain ⟨hm, he⟩ := hts u hu
            rw [hc.now, hc.stamp] at he
            exact ⟨(hc.sublist b).subset hm, he⟩
      next hexp =>
        refine ⟨f, [], rfl, hf, Closes.refl _ _, by simp, fun u hu => ?_⟩
        -- the front is the oldest
        have hle : (f.idle t).lastActivity ≤ (f.idle u).lastActivity := by
          have hs := hf.sorted b
          rw [hl] at hs hu
          rcases mem_cons.1 hu with rfl | hu
          · exact Int.le_refl _
          · exact (pairwise_cons.1 hs).1 u hu
        exact Int.lt_of_le_of_lt (Int.sub_le_sub_left hle _) (Int.not_le.1 hexp)

theorem closeIdleTunnels_spec (owner : Fleet T → T → List T) (timeout stalledTimeout : Time) (hf : Inv f) :
    ∃ g ts us, closeIdleTunnels owner timeout stalledTimeout f = some (g, ts, us) ∧ Inv g ∧
      Closes (fun x => x ∈ ts ++ us ∨ ∃ u ∈ ts ++ us, ∃ f', x ∈ owner f' u) f g ∧
      (∀ t ∈ ts, t ∈ f.tracker.order ∧ timeout ≤ f.now - (f.idle t).lastActivity) ∧
      (∀ t ∈ us, t ∈ f.tracker.stalledOrder ∧ stalledTimeout ≤ f.now - (f.idle t).lastActivity) ∧
      (∀ t ∈ g.tracker.order, g.now - (g.idle t).lastActivity < timeout) ∧
      ∀ t ∈ g.tracker.stalledOrder, g.now - (g.idle t).lastActivity < stalledTimeout := by
  obtain ⟨m, ts, hm, him, hcm, hts, hm'⟩ :=
    closeExpired_spec owner false timeout (f.tracker.order.length + 1) hf (Nat.lt_succ_self _)
  obtain ⟨g, us, hg, hig, hcg, hus, hg'⟩ :=
    closeExpired_spec owner true stalledTimeout (m.tracker.stalledOrder.length + 1) him (Nat.lt_succ_self _)
  have hcf : Closes (fun x => x ∈ ts ++ us ∨ ∃ u ∈ ts ++ us, ∃ f', x ∈ owner f' u) f m :=
    hcm.mono fun x hx => hx.imp (fun h => by simp [h]) fun ⟨u, hu, h⟩ => ⟨u, by simp [hu], h⟩
  refine ⟨g, ts, us, by unfold closeIdleTunnels; rw [hm, Option.bind_some, hg]; rfl, hig,
    hcf.trans (hcg.mono fun x hx => hx.imp (fun h => by simp [h]) fun ⟨u, hu, h⟩ => ⟨u, by simp [hu], h⟩),
    hts, fun t ht => ?_, fun t ht => ?_, hg'⟩
  · obtain ⟨hl, he⟩ := hus t ht
    rw [hcm.now, hcm.stamp] at he
    exact ⟨(hcm.sublist true).subset hl, he⟩
  -- the second loop only unlinks from `order_`
  · rw [hcg.now, hcg.stamp]
    exact hm' t ((hcg.sublist false).subset ht)

theorem follows_step {g : Fleet T} {e : Ev T} (hf : Inv f) (h : f.step e = some g) : Follows f e g := by
  cases e with
  | tick d =>
    cases h
    exact ⟨{ hf with
      past := fun b t ht => Int.le_trans (hf.past b t ht) (Int.le_add_of_nonneg_right (Int.natCast_nonneg d)) },
      fun _ => rfl⟩
  | start t b => cases h; exact follows_noteActivity (i := { f.idle t with started := true }) hf rfl rfl rfl b
  | noteActivity t b =>
    obtain ⟨hs, ⟨⟩⟩ := Option.ite_none_right_eq_some.1 h
    exact follows_noteActivity hf hs rfl rfl b
  | updateIdleClass t b => cases h; exact follows_updateIdleClass hf t b
  | close owner t =>
    obtain ⟨_, ⟨⟩⟩ := Option.ite_none_left_eq_some.1 h
    exact (close_spec owner hf t).imp id fun hc => hc.1.stamp
  | sweep owner τ τ' =>
    obtain ⟨m, ts, us, hm, him, hc, _⟩ := closeIdleTunnels_spec owner τ τ' hf
    rw [step, hm] at h
    cases h
    exact ⟨him, hc.stamp⟩

theorem inv_run {now : Time} {es : List (Ev T)} (h : Lts.run step (init now) es = some f) : Inv f :=
  Lts.run_inv (fun _ _ _ hi hs => (follows_step hi hs).1) (inv_init now) h

/-- **Representation invariant and sweep exactness.** After any run the lists hold exactly the open tunnels, oldest
first, each in the list its flag names; a sweep closes what has expired in its own class and leaves nothing expired. -/
theorem idle_tracker_exact (now : Time) (es : List (Ev T)) (f : Fleet T) (hrun : Lts.run step (init now) es = some f) :
    (∀ t, (t ∈ f.tracker.order ↔
        (f.idle t).started = true ∧ (f.idle t).closed = false ∧ (f.idle t).stalled = false) ∧
      (t ∈ f.tracker.stalledOrder ↔
        (f.idle t).started = true ∧ (f.idle t).closed = false ∧ (f.idle t).stalled = true)) ∧
    f.tracker.order.Nodup ∧ f.tracker.stalledOrder.Nodup ∧
    (f.tracker.order.Pairwise fun x y => (f.idle x).lastActivity ≤ (f.idle y).lastActivity) ∧
    (f.tracker.stalledOrder.Pairwise fun x y => (f.idle x).lastActivity ≤ (f.idle y).lastActivity) ∧
    (∀ e g, f.step e = some g → ∀ t,
      (g.idle t).lastActivity = if f.stamps t e then f.now else (f.idle t).lastActivity) ∧
    ∀ (owner : Fleet T → T → List T) (timeout stalledTimeout : Time),
      ∃ g ts us, closeIdleTunnels owner timeout stalledTimeout f = some (g, ts, us) ∧
        (∀ t ∈ ts, t ∈ f.tracker.order ∧ timeout ≤ f.now - (f.idle t).lastActivity) ∧
        (∀ t ∈ us, t ∈ f.tracker.stalledOrder ∧ stalledTimeout ≤ f.now - (f.idle t).lastActivity) ∧
        (∀ t, (f.idle t).closed = false → (g.idle t).closed = true →
          t ∈ ts ++ us ∨ ∃ u ∈ ts ++ us, ∃ f', t ∈ owner f' u) ∧
        (∀ t ∈ g.tracker.order, g.now - (g.idle t).lastActivity < timeout) ∧
        ∀ t ∈ g.tracker.stalledOrder, g.now - (g.idle t).lastActivity < stalledTimeout := by
  have hf := inv_run hrun
  refine ⟨fun t => ⟨hf.mem false t, hf.mem true t⟩, hf.nodup false, hf.nodup true, hf.sorted false,
    hf.sorted true, fun _ _ h => (follows_step hf h).2, fun owner τ τ' => ?_⟩
  obtain ⟨g, ts, us, hg, _, hc, hts, hus, ho, hs⟩ := closeIdleTunnels_spec owner τ τ' hf
  exact ⟨g, ts, us, hg, hts, hus, hc.only, ho, hs⟩

def cascade : List (Ev Nat) :=
  [.start 0 false, .tick 5, .start 1 true, .start 2 false, .updateIdleClass 0 true, .tick 4,
    .noteActivity 1 true, .sweep (fun _ _ => [0]) 4 4]

theorem idle_tracker_exact_cascade : ∃ f, Lts.run step (init 0) cascade = some f ∧
    f.tracker = { order := [], stalledOrder := [1] } ∧ (f.idle 1).lastActivity = 9 ∧ f.tracker.stalledOrder.Nodup :=
  ⟨_, rfl, rfl, rfl, (idle_tracker_exact 0 cascade _ rfl).2.2.1⟩

end

end Fleet

end Quictun
