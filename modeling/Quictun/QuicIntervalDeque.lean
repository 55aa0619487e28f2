import Quictun.BinarySearch
import Quictun.QuicIntervalSet
import Quictun.Run

/-!
# QuicIntervalDeque

A queue of items that each cover an interval, in ascending order, with a cached index that lets
`DataAt()` find the next item without a search. An iterator is an index. Incrementing one moves
the cached index with it, and drops it at the end of the queue. Items may have empty intervals:
the users of the queue empty items in place.
-/

namespace Quictun

open List Option

structure QuicIntervalDeque (α : Type*) where
  container : List α := []
  cachedIndex : Option Nat := none
deriving DecidableEq

namespace QuicIntervalDeque

variable {α : Type*} (interval : α → QuicInterval Nat)

section
variable (d : QuicIntervalDeque α)

def size : Nat := d.container.length

def pushBack (item : α) : QuicIntervalDeque α :=
  if (interval item).empty then d
  else { container := d.container ++ [item], cachedIndex := some (d.cachedIndex.getD d.size) }

def popFront : QuicIntervalDeque α :=
  match d.container with
  | [] => d
  | _ :: rest => { container := rest, cachedIndex := if rest.isEmpty then none else d.cachedIndex.map (· - 1) }

def increment (index : Nat) : QuicIntervalDeque α :=
  if d.size ≤ index then d
  else { d with cachedIndex := d.cachedIndex.bind fun c =>
    if index + 1 = d.size then none else some (max c (index + 1)) }

def contains (d : QuicIntervalDeque α) (index begin : Nat) : Bool :=
  d.container[index]?.any fun item => (interval item).contains begin

def search (begin lo hi : Nat) : Nat :=
  let res := BinarySearch.lowerBound (fun i => d.container[i]?.all fun item => (interval item).max ≤ begin) lo (hi - lo)
  if res ≠ hi ∧ d.contains interval res begin = true then res else d.size

def dataAt (begin : Nat) : Nat × QuicIntervalDeque α :=
  match d.cachedIndex with
  | none => (d.search interval begin 0 d.size, d)
  | some cached =>
    if d.contains interval cached begin then (cached, d)
    else if d.contains interval (cached + 1) begin then (cached + 1, { d with cachedIndex := some (cached + 1) })
    else if d.container[cached]?.any fun item => begin < (interval item).min then
      (d.search interval begin 0 cached, d)
    else
      let ret := d.search interval begin (cached + 1) d.size
      if ret = d.size then (ret, d) else (ret, { d with cachedIndex := some ret })

/-! ## The right item -/

def Valid : Prop := ∀ c, d.cachedIndex = some c → c < d.size

end

structure Ordered (l : List α) : Prop where
  proper : ∀ x ∈ l, (interval x).min ≤ (interval x).max
  ascending : l.Pairwise fun x y => (interval x).max ≤ (interval y).min

variable {interval} {d : QuicIntervalDeque α} {begin index : Nat} {x y : α}

theorem contains_iff : d.contains interval index begin = true ↔
    ∃ x, d.container[index]? = some x ∧ (interval x).min ≤ begin ∧ begin < (interval x).max := by
  simp [contains, Option.any_eq_true, QuicInterval.contains_iff]

variable {i j : Nat}

section
variable (h : Ordered interval d.container)
include h

theorem Ordered.lt (hij : i < j) (hx : d.container[i]? = some x)
    (hy : d.container[j]? = some y) : (interval x).max ≤ (interval y).min := by
  obtain ⟨hi, rfl⟩ := List.getElem?_eq_some_iff.1 hx
  obtain ⟨hj, rfl⟩ := List.getElem?_eq_some_iff.1 hy
  exact pairwise_iff_getElem.1 h.ascending i j hi hj hij

theorem Ordered.le (hx : d.container[index]? = some x) :
    (interval x).min ≤ (interval x).max := h.proper x (mem_of_getElem? hx)

theorem Ordered.unique (hi : d.contains interval i begin = true)
    (hj : d.contains interval j begin = true) : i = j := by
  obtain ⟨x, hx, hx1, hx2⟩ := contains_iff.1 hi
  obtain ⟨y, hy, hy1, hy2⟩ := contains_iff.1 hj
  by_contra hne
  rcases Nat.lt_or_gt_of_ne hne with hlt | hlt
  · have := h.lt hlt hx hy
    omega
  · have := h.lt hlt hy hx
    omega

theorem Ordered.partitioned (begin lo : Nat) {hi : Nat} (hhi : hi ≤ d.size) :
    BinarySearch.Partitioned (fun i => d.container[i]?.all fun item => (interval item).max ≤ begin) lo hi := by
  intro i j hlo hij hj hp
  have hjl : j < d.container.length := lt_of_lt_of_le hj hhi
  have hy : d.container[j]? = some d.container[j] := getElem?_eq_getElem hjl
  have hx : d.container[i]? = some (d.container[i]) := getElem?_eq_getElem (by omega)
  simp only [hy, hx, all_some, decide_eq_true_eq] at hp ⊢
  rcases Nat.lt_or_eq_of_le hij with hlt | rfl
  · have h1 := h.lt hlt hx hy
    have h2 := h.le hy
    omega
  · exact hp

theorem search_of_contains (hc : d.contains interval index begin = true) {lo hi : Nat}
    (hlo : lo ≤ index) (hlt : index < hi) (hhi : hi ≤ d.size) : d.search interval begin lo hi = index := by
  obtain ⟨x, hx, hx1, hx2⟩ := contains_iff.1 hc
  have hend : lo + (hi - lo) = hi := by omega
  have hs := BinarySearch.splits_lowerBound (hend.symm ▸ h.partitioned begin lo hhi :
    BinarySearch.Partitioned _ lo (lo + (hi - lo)))
  rw [hend] at hs
  have hk := hs.eq hlt hlo (by simpa [hx] using hx2) (by
    intro j hj hji
    have hjl : j < d.container.length := by
      unfold size at hhi
      omega
    have hy : d.container[j]? = some d.container[j] := getElem?_eq_getElem hjl
    have := h.lt hji hy hx
    simp only [hy, all_some, decide_eq_true_eq]
    omega)
  unfold search
  rw [hk, if_pos ⟨by omega, hc⟩]

end

theorem search_cases (begin lo hi : Nat) :
    d.search interval begin lo hi = d.size ∨ d.contains interval (d.search interval begin lo hi) begin = true := by
  unfold search
  dsimp only
  split
  next h => exact .inr h.2
  · exact .inl rfl

theorem lt_size_of_contains (h : d.contains interval index begin = true) : index < d.size := by
  obtain ⟨x, hx, -⟩ := contains_iff.1 h
  exact (List.getElem?_eq_some_iff.1 hx).1

theorem container_dataAt (d : QuicIntervalDeque α) (begin : Nat) :
    (d.dataAt interval begin).2.container = d.container := by
  unfold dataAt
  split
  · rfl
  split
  · rfl
  split
  · rfl
  split
  · rfl
  dsimp only
  split <;> rfl

theorem Valid.dataAt (hv : d.Valid) (begin : Nat) : (d.dataAt interval begin).2.Valid := by
  unfold QuicIntervalDeque.dataAt
  split
  · exact hv
  split
  · exact hv
  split
  next h =>
    intro c hc
    cases hc
    exact lt_size_of_contains h
  split
  · exact hv
  dsimp only
  split
  · exact hv
  next hne =>
    intro c hc
    cases hc
    exact lt_size_of_contains ((search_cases begin _ _).resolve_left hne)

theorem dataAt_of_contains (hv : d.Valid) (h : Ordered interval d.container)
    (hc : d.contains interval index begin = true) :
    (d.dataAt interval begin).1 = index := by
  have hlt := lt_size_of_contains hc
  unfold dataAt
  split
  · exact search_of_contains h hc (Nat.zero_le index) hlt le_rfl
  next cached hcached =>
  split
  next h0 => exact h.unique h0 hc
  next h0 =>
  split
  next h1 => exact h.unique h1 hc
  -- The index is not the cached one, so the item is on the side where the search looks.
  next h1 =>
  have hne : index ≠ cached := fun he => h0 (he ▸ hc)
  obtain ⟨x, hx, hx1, hx2⟩ := contains_iff.1 hc
  have hcl := hv cached hcached
  have hy : d.container[cached]? = some d.container[cached] := getElem?_eq_getElem hcl
  split
  next hb =>
    simp only [hy, any_some, decide_eq_true_eq] at hb
    refine search_of_contains h hc (Nat.zero_le index) ?_ (le_of_lt hcl)
    by_contra hge
    have := h.lt (by omega : cached < index) hy hx
    have := h.le hy
    omega
  next hb =>
    simp only [hy, any_some, decide_eq_true_eq, not_lt] at hb
    have hgt : cached < index := by
      by_contra hge
      have := h.lt (by omega : index < cached) hx hy
      omega
    have hs := search_of_contains h hc (by omega : cached + 1 ≤ index) hlt le_rfl
    rw [hs, if_neg (ne_of_lt hlt)]

/-! ## Changing the queue -/

theorem container_increment (d : QuicIntervalDeque α) (i : Nat) : (d.increment i).container = d.container := by
  unfold increment
  split <;> rfl

theorem Valid.increment (hv : d.Valid) (i : Nat) : (d.increment i).Valid := by
  unfold QuicIntervalDeque.increment
  split
  · exact hv
  next hi =>
    intro c hc
    obtain ⟨c₀, h0, h1⟩ := bind_eq_some_iff.1 hc
    split at h1
    · cases h1
    next hne =>
      cases h1
      have := hv c₀ h0
      change max c₀ (i + 1) < d.size
      unfold size at *
      omega

theorem Valid.pushBack (hv : d.Valid) (x : α) : (d.pushBack interval x).Valid := by
  unfold QuicIntervalDeque.pushBack
  split
  · exact hv
  · intro c hc
    cases hc
    simp only [size, length_append, length_singleton]
    cases h : d.cachedIndex with
    | none => simp
    | some c =>
      have := hv c h
      simp only [size, getD_some] at this ⊢
      omega

theorem Valid.popFront (hv : d.Valid) : d.popFront.Valid := by
  unfold QuicIntervalDeque.popFront
  split
  · exact hv
  next x rest hd =>
    intro c hc
    split at hc
    · cases hc
    next hne =>
      obtain ⟨c₀, h0, rfl⟩ := map_eq_some_iff.1 hc
      have := hv c₀ h0
      have hpos : 0 < rest.length := by
        cases rest with
        | nil => simp at hne
        | cons y l => simp
      simp only [size, hd, length_cons] at this ⊢
      omega

theorem Valid.congr {d' : QuicIntervalDeque α} (hv : d.Valid) (hs : d'.size = d.size)
    (hc : d'.cachedIndex = d.cachedIndex) : d'.Valid := by
  intro c h
  rw [hs]
  exact hv c (hc ▸ h)

/-! ## Sequences of calls -/

theorem dataAt_of_not_contains (h : ∀ i, d.contains interval i begin = false) :
    (d.dataAt interval begin).1 = d.size := by
  have hsearch : ∀ lo hi, d.search interval begin lo hi = d.size := by
    intro lo hi
    rcases search_cases (d := d) begin lo hi with hs | hs
    · exact hs
    · rw [h] at hs
      cases hs
  unfold dataAt
  split
  · exact hsearch 0 d.size
  next cached hcached =>
  rw [h cached, h (cached + 1), if_neg Bool.false_ne_true, if_neg Bool.false_ne_true]
  split
  · exact hsearch 0 cached
  · dsimp only
    rw [if_pos (hsearch _ _)]
    exact hsearch _ _

structure InUse (α : Type*) where
  deque : QuicIntervalDeque α := {}
  stop : Nat := 0

namespace InUse

/-- An iterator that has been moved to `index` is incremented by `increment index`. -/
inductive Ev (α : Type*)
  | pushBack (item : α)
  | popFront
  | empty (index : Nat) (item : α)
  | increment (index : Nat)
  | dataAt (begin : Nat)

variable (interval) in
/-- Items are pushed in order. An item that is emptied in place keeps the place where it began. -/
def step (u : InUse α) : Ev α → Option (InUse α)
  | .pushBack item =>
    if (interval item).empty then some { u with deque := u.deque.pushBack interval item }
    else if u.stop ≤ (interval item).min then
      some { deque := u.deque.pushBack interval item, stop := (interval item).max }
    else none
  | .popFront => some { u with deque := u.deque.popFront }
  | .empty index item =>
    match u.deque.container[index]? with
    | some x =>
      if interval item = ⟨(interval x).min, (interval x).min⟩ then
        some { u with deque := { u.deque with container := u.deque.container.set index item } }
      else none
    | none => none
  | .increment index => some { u with deque := u.deque.increment index }
  | .dataAt begin => some { u with deque := (u.deque.dataAt interval begin).2 }

variable (interval) in
structure Inv (u : InUse α) : Prop where
  valid : u.deque.Valid
  ordered : Ordered interval u.deque.container
  stop : ∀ x ∈ u.deque.container, (interval x).max ≤ u.stop

variable {u u' : InUse α}

theorem Inv.pushBack {item : α} (h : Inv interval u) (hne : (interval item).empty = false)
    (hs : u.stop ≤ (interval item).min) :
    Inv interval { deque := u.deque.pushBack interval item, stop := (interval item).max } := by
  have hlt : (interval item).min < (interval item).max := by
    simpa [QuicInterval.empty] using hne
  have hc : (u.deque.pushBack interval item).container = u.deque.container ++ [item] := by
    rw [QuicIntervalDeque.pushBack, hne]
    rfl
  refine ⟨h.valid.pushBack item, ⟨?_, ?_⟩, ?_⟩
  · rw [hc]
    intro x hx
    rcases mem_append.1 hx with hx | hx
    · exact h.ordered.proper x hx
    · rw [mem_singleton.1 hx]
      exact le_of_lt hlt
  · rw [hc, pairwise_append]
    refine ⟨h.ordered.ascending, pairwise_singleton _ _, fun x hx y hy => ?_⟩
    rw [mem_singleton.1 hy]
    exact le_trans (h.stop x hx) hs
  · intro x hx
    rw [hc] at hx
    rcases mem_append.1 hx with hx | hx
    · exact le_trans (h.stop x hx) (le_trans hs (le_of_lt hlt))
    · rw [mem_singleton.1 hx]

theorem Inv.popFront (h : Inv interval u) : Inv interval { u with deque := u.deque.popFront } := by
  have hsub : u.deque.popFront.container.Sublist u.deque.container := by
    unfold QuicIntervalDeque.popFront
    split
    · exact List.Sublist.refl _
    next x rest hd =>
      rw [hd]
      exact sublist_cons_self x rest
  exact ⟨h.valid.popFront, ⟨fun x hx => h.ordered.proper x (hsub.subset hx), h.ordered.ascending.sublist hsub⟩,
    fun x hx => h.stop x (hsub.subset hx)⟩

theorem Inv.empty {item : α} (h : Inv interval u) (hx : u.deque.container[index]? = some x)
    (hi : interval item = ⟨(interval x).min, (interval x).min⟩) :
    Inv interval { u with deque := { u.deque with container := u.deque.container.set index item } } := by
  have hlen : (u.deque.container.set index item).length = u.deque.container.length := length_set
  have hxle : (interval x).min ≤ (interval x).max := h.ordered.proper x (mem_of_getElem? hx)
  have hmem : ∀ y ∈ u.deque.container.set index item, y = item ∨ y ∈ u.deque.container := by
    intro y hy
    rcases mem_or_eq_of_mem_set hy with hy | hy
    · exact .inr hy
    · exact .inl hy
  refine ⟨h.valid.congr hlen rfl, ⟨fun y hy => ?_, ?_⟩, fun y hy => ?_⟩
  · rcases hmem y hy with rfl | hy
    · rw [hi]
    · exact h.ordered.proper y hy
  · rw [pairwise_iff_getElem]
    intro i j hil hjl hij
    rw [hlen] at hil hjl
    have hlt := h.ordered.lt (i := i) (j := j) hij (getElem?_eq_getElem hil) (getElem?_eq_getElem hjl)
    obtain ⟨hxl, hxe⟩ := List.getElem?_eq_some_iff.1 hx
    rw [getElem_set, getElem_set]
    split
    next he =>
      subst he
      rw [if_neg (ne_of_lt hij), hi]
      rw [hxe] at hlt
      exact le_trans hxle hlt
    · split
      next he =>
        subst he
        rw [hi]
        rwa [hxe] at hlt
      · exact hlt
  · rcases hmem y hy with rfl | hy
    · rw [hi]
      exact le_trans hxle (h.stop x (mem_of_getElem? hx))
    · exact h.stop y hy

theorem Inv.step {e : Ev α} (h : Inv interval u) (hs : step interval u e = some u') : Inv interval u' := by
  cases e with
  | pushBack item =>
    unfold InUse.step at hs
    dsimp only at hs
    split at hs
    next he =>
      cases hs
      have hsame : u.deque.pushBack interval item = u.deque := if_pos he
      rw [hsame]
      exact h
    next he =>
      split at hs
      next hle =>
        cases hs
        exact h.pushBack (Bool.eq_false_iff.2 he) hle
      · cases hs
  | popFront =>
    cases hs
    exact h.popFront
  | empty index item =>
    unfold InUse.step at hs
    dsimp only at hs
    split at hs
    next x hx =>
      split at hs
      next hi =>
        cases hs
        exact h.empty hx hi
      · cases hs
    · cases hs
  | increment index =>
    cases hs
    have hc := u.deque.container_increment index
    exact ⟨h.valid.increment index, hc.symm ▸ h.ordered, hc.symm ▸ h.stop⟩
  | dataAt begin =>
    cases hs
    have hc : (u.deque.dataAt interval begin).2.container = u.deque.container := container_dataAt _ begin
    exact ⟨h.valid.dataAt begin, hc.symm ▸ h.ordered, hc.symm ▸ h.stop⟩

theorem inv_fresh : Inv interval ({} : InUse α) :=
  ⟨nofun, ⟨nofun, List.Pairwise.nil⟩, nofun⟩

/-- **The cache is transparent.** In every state that calls can lead to, a lookup finds the one item that contains the
position, wherever the cached index is. -/
theorem dataAt_uncached {es : List (Ev α)} (hr : Lts.run (InUse.step interval) {} es = some u) :
    (∀ c, u.deque.cachedIndex = some c → c < u.deque.size) ∧
    ∀ begin,
      (∀ i, u.deque.contains interval i begin = true → (u.deque.dataAt interval begin).1 = i) ∧
      ((∀ i, u.deque.contains interval i begin = false) → (u.deque.dataAt interval begin).1 = u.deque.size) ∧
      ∀ cached : Option Nat, (∀ c, cached = some c → c < u.deque.size) →
        ({ u.deque with cachedIndex := cached }.dataAt interval begin).1 = (u.deque.dataAt interval begin).1 := by
  have h : Inv interval u := Lts.run_inv (fun _ _ _ h hs => h.step hs) inv_fresh hr
  refine ⟨h.valid, fun begin => ⟨fun i hi => dataAt_of_contains h.valid h.ordered hi, dataAt_of_not_contains, ?_⟩⟩
  intro cached hc
  by_cases hex : ∃ i, u.deque.contains interval i begin = true
  · obtain ⟨i, hi⟩ := hex
    rw [dataAt_of_contains h.valid h.ordered hi]
    exact dataAt_of_contains (d := { u.deque with cachedIndex := cached }) hc h.ordered hi
  · have hno : ∀ i, u.deque.contains interval i begin = false := fun i => Bool.eq_false_iff.2 fun hi => hex ⟨i, hi⟩
    rw [dataAt_of_not_contains hno]
    exact dataAt_of_not_contains (d := { u.deque with cachedIndex := cached }) hno

def emptied : List (Ev (QuicInterval Nat)) :=
  [.pushBack ⟨0, 5⟩, .pushBack ⟨5, 8⟩, .pushBack ⟨8, 9⟩, .increment 0, .increment 1, .empty 1 ⟨5, 5⟩, .popFront]

theorem dataAt_uncached_emptied :
    ∃ u, Lts.run (InUse.step id) {} emptied = some u ∧ u.deque.container = [⟨5, 5⟩, ⟨8, 9⟩] ∧
      u.deque.cachedIndex = some 1 ∧
      (u.deque.dataAt id 8).1 = 1 ∧ ({ u.deque with cachedIndex := none }.dataAt id 8).1 = 1 := by
  have hr : Lts.run (InUse.step id) {} emptied = some _ := rfl
  have h8 := (dataAt_uncached hr).2 8
  have hat := h8.1 1 rfl
  exact ⟨_, hr, rfl, rfl, hat, (h8.2.2 none nofun).trans hat⟩

end InUse

end QuicIntervalDeque

end Quictun
