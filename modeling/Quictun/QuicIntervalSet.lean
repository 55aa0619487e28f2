import Mathlib.Data.List.Basic
import Mathlib.Data.List.Pairwise
import Mathlib.Data.List.TakeWhile
import Mathlib.Order.Interval.Set.Basic
import Mathlib.Tactic.Order

/-!
# QuicIntervalSet

`QuicIntervalSet<T>` keeps a set of points as an ordered container of half-open intervals,
ordered by where they begin. An iterator into the container is the list of the intervals
from there on; a binary search of the container is a search from the front. The intervals
stay non-empty, in ascending order and apart from each other, so the container is
determined by its points.
-/

namespace Quictun

open List Set

structure QuicInterval (T : Type*) where
  min : T
  max : T
deriving DecidableEq

abbrev QuicIntervalSet (T : Type*) := List (QuicInterval T)

variable {T : Type*} [LinearOrder T]

namespace QuicInterval

def empty (i : QuicInterval T) : Bool := i.max ≤ i.min

def contains (i : QuicInterval T) (t : T) : Bool := i.min ≤ t && t < i.max

def containsInterval (i j : QuicInterval T) : Bool := !i.empty && !j.empty && i.min ≤ j.min && j.max ≤ i.max

def intersects (i j : QuicInterval T) : Bool := !i.empty && !j.empty && i.min < j.max && j.min < i.max

/-- What `Intersects()` writes to its second argument. -/
def intersection (i j : QuicInterval T) : QuicInterval T := ⟨Max.max i.min j.min, Min.min i.max j.max⟩

def separated (i other : QuicInterval T) : Bool :=
  if i.empty || other.empty then true else other.max < i.min || i.max < other.min

def spanningUnion (i j : QuicInterval T) : QuicInterval T :=
  if j.empty then i
  else if i.empty then j
  else ⟨if j.min < i.min then j.min else i.min, if i.max < j.max then j.max else i.max⟩

def less (a b : QuicInterval T) : Bool := a.min < b.min || (!(b.min < a.min) && b.max < a.max)

variable {i : QuicInterval T}

theorem empty_eq_false : i.empty = false ↔ i.min < i.max := by simp [empty]

theorem contains_iff {t : T} : i.contains t = true ↔ i.min ≤ t ∧ t < i.max := by simp [contains]

variable {j : QuicInterval T}

section
variable (hi : i.min < i.max) (hj : j.min < j.max)
include hi hj

theorem containsInterval_iff :
    i.containsInterval j = true ↔ i.min ≤ j.min ∧ j.max ≤ i.max := by
  simp [containsInterval, empty, hi, hj]

theorem intersects_iff : i.intersects j = true ↔ i.min < j.max ∧ j.min < i.max := by
  simp [intersects, empty, hi, hj]

theorem separated_iff : i.separated j = true ↔ j.max < i.min ∨ i.max < j.min := by
  simp [separated, empty_eq_false.2 hi, empty_eq_false.2 hj]

theorem spanningUnion_eq :
    i.spanningUnion j = ⟨Min.min i.min j.min, Max.max i.max j.max⟩ := by
  rw [spanningUnion, empty_eq_false.2 hj, empty_eq_false.2 hi, if_neg Bool.false_ne_true, if_neg Bool.false_ne_true]
  congr 1 <;> grind

end

end QuicInterval

open QuicInterval

namespace QuicIntervalSet

/-! ## The container -/

/-- `insert()`: an interval that begins where another one does is not taken. -/
def insert (x : QuicInterval T) : QuicIntervalSet T → QuicIntervalSet T
  | [] => [x]
  | y :: s => if x.min < y.min then x :: y :: s else if y.min < x.min then y :: insert x s else y :: s

section
variable (s : QuicIntervalSet T)

def beforeLowerBound (value : T) : QuicIntervalSet T := s.takeWhile fun i => i.min < value

def setLowerBound (value : T) : QuicIntervalSet T := s.dropWhile fun i => i.min < value

def beforeUpperBound (value : T) : QuicIntervalSet T := s.takeWhile fun i => i.min ≤ value

def setUpperBound (value : T) : QuicIntervalSet T := s.dropWhile fun i => i.min ≤ value

/-! ## Changing the set -/

/-- Where `Add()` starts to merge: at the lower bound, or one interval before if that one is not apart. -/
def addStart (interval : QuicInterval T) : QuicIntervalSet T × QuicIntervalSet T :=
  match (s.beforeLowerBound interval.min).getLast? with
  | none => (s.beforeLowerBound interval.min, s.setLowerBound interval.min)
  | some x =>
    if x.separated interval then (s.beforeLowerBound interval.min, s.setLowerBound interval.min)
    else ((s.beforeLowerBound interval.min).dropLast, x :: s.setLowerBound interval.min)

/-- The loop of `Add()`: `the_union` and the iterator at which it stops. -/
def absorb (theUnion : QuicInterval T) : QuicIntervalSet T → QuicInterval T × QuicIntervalSet T
  | [] => (theUnion, [])
  | x :: it => if x.separated theUnion then (theUnion, x :: it) else absorb (theUnion.spanningUnion x) it

def add (interval : QuicInterval T) : QuicIntervalSet T :=
  if interval.empty then s
  else
    let start := s.addStart interval
    let merged := absorb interval start.2
    insert merged.1 (start.1 ++ merged.2)

/-- `enabled` is the flag `quic_interval_set_enable_add_optimization`. -/
def addOptimizedForAppend (enabled : Bool) (s : QuicIntervalSet T) (interval : QuicInterval T) : QuicIntervalSet T :=
  match s.getLast? with
  | none => s.add interval
  | some last =>
    if enabled = false then s.add interval
    else if interval.min < last.min ∨ last.max < interval.min then s.add interval
    else if interval.max ≤ last.max then s
    else s.dropLast ++ [{ last with max := interval.max }]

def popFront : QuicIntervalSet T := s.tail

def trimLessThan (value : T) : QuicIntervalSet T → QuicIntervalSet T × Bool
  | [] => ([], false)
  | first :: s =>
    if value ≤ first.min then (first :: s, false)
    else if first.max ≤ value then ((trimLessThan value s).1, true)
    else ({ first with min := value } :: s, true)

def union (s other : QuicIntervalSet T) : QuicIntervalSet T := other.foldl add s

/-! ## Asking the set -/

def contains (s : QuicIntervalSet T) (value : T) : Bool :=
  match (s.beforeUpperBound value).getLast? with
  | none => false
  | some x => x.contains value

def containsInterval (s : QuicIntervalSet T) (interval : QuicInterval T) : Bool :=
  match (s.beforeUpperBound interval.min).getLast? with
  | none => false
  | some x => x.containsInterval interval

def find (value : T) : QuicIntervalSet T :=
  match (s.beforeUpperBound value).getLast? with
  | none => []
  | some x => if x.contains value then x :: s.setUpperBound value else []

def findInterval (probe : QuicInterval T) : QuicIntervalSet T :=
  match (s.beforeUpperBound probe.min).getLast? with
  | none => []
  | some x => if x.containsInterval probe then x :: s.setUpperBound probe.min else []

def lowerBound (value : T) : QuicIntervalSet T :=
  match (s.beforeLowerBound value).getLast? with
  | none => s.setLowerBound value
  | some x => if x.contains value then x :: s.setLowerBound value else s.setLowerBound value

def upperBound (value : T) : QuicIntervalSet T := s.setUpperBound value

def isDisjoint (interval : QuicInterval T) : Bool :=
  if interval.empty then true
  else if (s.setUpperBound interval.min).head?.any fun x => x.min < interval.max then false
  else
    match (s.beforeUpperBound interval.min).getLast? with
    | none => true
    | some x => x.max ≤ interval.min

/-! ## Points -/

def points : Set T := {p | ∃ i ∈ s, i.min ≤ p ∧ p < i.max}

end

structure Canonical (s : QuicIntervalSet T) : Prop where
  nonempty : ∀ i ∈ s, i.min < i.max
  apart : s.Pairwise fun i j => i.max < j.min

section
variable {s t : QuicIntervalSet T} {i : QuicInterval T} {p v : T}

@[simp] theorem points_nil : points ([] : QuicIntervalSet T) = ∅ := by simp [points]

theorem mem_points_cons : p ∈ points (i :: s) ↔ (i.min ≤ p ∧ p < i.max) ∨ p ∈ points s := by simp [points]

theorem mem_points_append : p ∈ points (s ++ t) ↔ p ∈ points s ∨ p ∈ points t := by
  simp [points, or_and_right, exists_or]

theorem mem_points_singleton : p ∈ points [i] ↔ i.min ≤ p ∧ p < i.max := by simp [points]

theorem canonical_nil : Canonical ([] : QuicIntervalSet T) := ⟨by simp, .nil⟩

theorem canonical_cons : Canonical (i :: s) ↔ i.min < i.max ∧ (∀ j ∈ s, i.max < j.min) ∧ Canonical s := by
  constructor
  · intro h
    obtain ⟨h1, h2⟩ := forall_mem_cons.1 h.nonempty
    obtain ⟨h3, h4⟩ := pairwise_cons.1 h.apart
    exact ⟨h1, h3, h2, h4⟩
  · rintro ⟨h1, h3, h2, h4⟩
    exact ⟨forall_mem_cons.2 ⟨h1, h2⟩, pairwise_cons.2 ⟨h3, h4⟩⟩

theorem canonical_append : Canonical (s ++ t) ↔ Canonical s ∧ Canonical t ∧ ∀ i ∈ s, ∀ j ∈ t, i.max < j.min := by
  constructor
  · intro h
    obtain ⟨h1, h2⟩ := forall_mem_append.1 h.nonempty
    obtain ⟨h3, h4, h5⟩ := pairwise_append.1 h.apart
    exact ⟨⟨h1, h3⟩, ⟨h2, h4⟩, h5⟩
  · rintro ⟨hs, ht, hst⟩
    exact ⟨forall_mem_append.2 ⟨hs.nonempty, ht.nonempty⟩, pairwise_append.2 ⟨hs.apart, ht.apart, hst⟩⟩

theorem canonical_singleton (h : i.min < i.max) : Canonical [i] := canonical_cons.2 ⟨h, by simp, canonical_nil⟩

theorem lt_of_mem_points (h : ∀ j ∈ s, v < j.min) (hp : p ∈ points s) : v < p := by
  obtain ⟨j, hj, h1, -⟩ := hp
  exact lt_of_lt_of_le (h j hj) h1

theorem min_mem_points (h : Canonical s) (hi : i ∈ s) : i.min ∈ points s := ⟨i, hi, le_refl _, h.nonempty i hi⟩

theorem Canonical.tail (h : Canonical s) : Canonical s.tail := by
  cases s with
  | nil => exact h
  | cons i s => exact (canonical_cons.1 h).2.2

theorem max_notMem_points (h : Canonical s) (hi : i ∈ s) : i.max ∉ points s := by
  induction s with
  | nil => cases hi
  | cons j s ih =>
    obtain ⟨hj, hapart, hs⟩ := canonical_cons.1 h
    rw [mem_points_cons, not_or]
    rcases mem_cons.1 hi with rfl | hi
    · exact ⟨fun hm => lt_irrefl _ hm.2, fun hm => lt_irrefl _ (lt_of_mem_points hapart hm)⟩
    · have h1 := hapart i hi
      have h2 := hs.nonempty i hi
      exact ⟨fun hm => absurd hm.2 (by order), ih hs hi⟩

theorem Canonical.ext : ∀ {s t : QuicIntervalSet T}, Canonical s → Canonical t → points s = points t → s = t
  | [], [], _, _, _ => rfl
  | [], j :: t, _, ht, h => by
    have hm := min_mem_points ht mem_cons_self
    rw [← h, points_nil] at hm
    cases hm
  | i :: s, [], hs, _, h => by
    have hm := min_mem_points hs mem_cons_self
    rw [h, points_nil] at hm
    cases hm
  | i :: s, j :: t, hs, ht, h => by
    have hi := min_mem_points hs mem_cons_self
    have hj := min_mem_points ht mem_cons_self
    have hi' := max_notMem_points hs mem_cons_self
    have hj' := max_notMem_points ht mem_cons_self
    obtain ⟨hie, hia, hs'⟩ := canonical_cons.1 hs
    obtain ⟨hje, hja, ht'⟩ := canonical_cons.1 ht
    rw [h, mem_points_cons] at hi hi'
    rw [← h, mem_points_cons] at hj hj'
    have hsp : ∀ p ∈ points s, i.max < p := fun p => lt_of_mem_points hia
    have htp : ∀ p ∈ points t, j.max < p := fun p => lt_of_mem_points hja
    have hmin : i.min = j.min := by
      have h1 := htp i.min
      have h2 := hsp j.min
      grind
    have hmax : i.max = j.max := by grind
    have hij : i = j := by
      cases i
      cases j
      simp_all
    subst hij
    have hst : points s = points t := by
      ext p
      have hp : p ∈ points (i :: s) ↔ p ∈ points (i :: t) := by rw [h]
      rw [mem_points_cons, mem_points_cons] at hp
      have h1 := hsp p
      have h2 := htp p
      grind
    rw [Canonical.ext hs' ht' hst]

/-! ## Searching -/

theorem not_of_mem_dropWhile {α : Type*} {R : α → α → Prop} {q : α → Bool} {l : List α} (hl : l.Pairwise R)
    (hq : ∀ a b, R a b → q b = true → q a = true) : ∀ x ∈ l.dropWhile q, q x = false := by
  induction l with
  | nil => simp
  | cons a l ih =>
    obtain ⟨ha, hl'⟩ := pairwise_cons.1 hl
    rw [dropWhile_cons]
    split
    · exact ih hl'
    next hqa =>
      intro x hx
      rcases mem_cons.1 hx with rfl | hx
      · exact Bool.eq_false_iff.2 hqa
      · exact Bool.eq_false_iff.2 fun hqx => hqa (hq a x (ha x hx) hqx)

theorem Canonical.ascending (h : Canonical s) : s.Pairwise fun i j => i.min < j.min := by
  refine List.Pairwise.imp_of_mem ?_ h.apart
  intro i j hi _ hij
  exact lt_trans (h.nonempty i hi) hij

theorem Canonical.lowerSplit (h : Canonical s) (v : T) : s = s.beforeLowerBound v ++ s.setLowerBound v ∧
    (∀ i ∈ s.beforeLowerBound v, i.min < v) ∧ ∀ i ∈ s.setLowerBound v, v ≤ i.min := by
  refine ⟨(takeWhile_append_dropWhile ..).symm, ?_, ?_⟩
  · intro i hi
    simpa using mem_takeWhile_imp hi
  · intro i hi
    have hn := not_of_mem_dropWhile (q := fun i : QuicInterval T => i.min < v) h.ascending
      (fun a b hab hb => by simpa using lt_trans hab (by simpa using hb)) i hi
    simpa using hn

theorem Canonical.upperSplit (h : Canonical s) (v : T) : s = s.beforeUpperBound v ++ s.setUpperBound v ∧
    (∀ i ∈ s.beforeUpperBound v, i.min ≤ v) ∧ ∀ i ∈ s.setUpperBound v, v < i.min := by
  refine ⟨(takeWhile_append_dropWhile ..).symm, ?_, ?_⟩
  · intro i hi
    simpa using mem_takeWhile_imp hi
  · intro i hi
    have hn := not_of_mem_dropWhile (q := fun i : QuicInterval T => i.min ≤ v) h.ascending
      (fun a b hab hb => by simpa using le_of_lt (lt_of_lt_of_le hab (by simpa using hb))) i hi
    simpa using hn

variable {x : QuicInterval T}

theorem insert_append (hs : ∀ i ∈ s, i.min < x.min) (ht : ∀ i ∈ t, x.min < i.min) :
    insert x (s ++ t) = s ++ x :: t := by
  induction s with
  | nil =>
    cases t with
    | nil => rfl
    | cons y t => exact if_pos (ht y mem_cons_self)
  | cons y s ih =>
    have hy := hs y mem_cons_self
    rw [cons_append, insert, if_neg (not_lt_of_gt hy), if_pos hy, ih fun i hi => hs i (mem_cons_of_mem y hi)]
    rfl

/-! ## Add -/

/-- What the merging loop makes of an interval none of the others ends before. -/
structure Merged (u : QuicInterval T) (s : QuicIntervalSet T) (r : QuicInterval T × QuicIntervalSet T) : Prop where
  nonempty : r.1.min < r.1.max
  rest : Canonical r.2
  apart : ∀ j ∈ r.2, r.1.max < j.min
  points : ∀ p, (r.1.min ≤ p ∧ p < r.1.max) ∨ p ∈ points r.2 ↔ (u.min ≤ p ∧ p < u.max) ∨ p ∈ QuicIntervalSet.points s
  below : ∀ v, v < u.min → (∀ j ∈ s, v < j.min) → v < r.1.min

theorem merged_absorb : ∀ {s : QuicIntervalSet T} {u : QuicInterval T}, Canonical s → u.min < u.max →
    (∀ j ∈ s, u.min ≤ j.max) → Merged u s (absorb u s)
  | [], u, _, hu, _ => ⟨hu, canonical_nil, by simp [absorb], by simp [absorb], fun v hv _ => hv⟩
  | x :: s, u, hs, hu, hle => by
    obtain ⟨hx, hxs, hs'⟩ := canonical_cons.1 hs
    have hux := hle x mem_cons_self
    rw [absorb]
    by_cases hsep : x.separated u = true
    · rw [if_pos hsep]
      have hbefore : u.max < x.min := by
        rcases (separated_iff hx hu).1 hsep with h | h
        · exact h
        · exact absurd hux (not_le_of_gt h)
      refine ⟨hu, hs, ?_, fun p => Iff.rfl, fun v hv _ => hv⟩
      intro j hj
      rcases mem_cons.1 hj with rfl | hj
      · exact hbefore
      · have := hxs j hj
        order
    · -- the two meet or touch, so their span has no other points
      rw [if_neg hsep, spanningUnion_eq hu hx]
      rw [separated_iff hx hu, not_or, not_lt, not_lt] at hsep
      have hih := merged_absorb (u := ⟨Min.min u.min x.min, Max.max u.max x.max⟩) hs' (by simp; grind) (by
        intro j hj
        have h1 := hle j (mem_cons_of_mem x hj)
        grind)
      refine ⟨hih.nonempty, hih.rest, hih.apart, ?_, ?_⟩
      · intro p
        rw [hih.points p, mem_points_cons, ← or_assoc]
        apply or_congr_left
        grind
      · intro v hv hvs
        apply hih.below v
        · have := hvs x mem_cons_self
          grind
        · exact fun j hj => hvs j (mem_cons_of_mem x hj)

section
variable (h : Canonical s)
include h

theorem addStart_spec (hi : i.min < i.max) : s = (s.addStart i).1 ++ (s.addStart i).2 ∧
    (∀ j ∈ (s.addStart i).1, j.max < i.min) ∧ ∀ j ∈ (s.addStart i).2, i.min ≤ j.max := by
  obtain ⟨hsplit, hb, ha⟩ := h.lowerSplit i.min
  have hcan := h
  rw [hsplit] at hcan
  obtain ⟨hcb, hca, hapart⟩ := canonical_append.1 hcan
  have hafter : ∀ j ∈ s.setLowerBound i.min, i.min ≤ j.max := fun j hj =>
    le_trans (ha j hj) (le_of_lt (hca.nonempty j hj))
  unfold addStart
  cases hlast : (s.beforeLowerBound i.min).getLast? with
  | none =>
    rw [getLast?_eq_none_iff] at hlast
    refine ⟨hsplit, ?_, hafter⟩
    rw [hlast]
    simp
  | some x =>
    obtain ⟨b, hbx⟩ := getLast?_eq_some_iff.1 hlast
    have hxmem : x ∈ s.beforeLowerBound i.min := mem_of_getLast? hlast
    have hx := hcb.nonempty x hxmem
    have hxmin := hb x hxmem
    have hbelow : ∀ j ∈ b, j.max < x.min := by
      intro j hj
      rw [hbx] at hcb
      exact (canonical_append.1 hcb).2.2 j hj x (mem_singleton_self x)
    dsimp only
    split
    next hsep =>
      refine ⟨hsplit, ?_, hafter⟩
      have hxi : x.max < i.min := by
        rcases (separated_iff hx hi).1 hsep with h' | h'
        · order
        · exact h'
      dsimp only
      rw [hbx]
      intro j hj
      rcases mem_append.1 hj with hj | hj
      · have := hbelow j hj
        order
      · rw [mem_singleton.1 hj]
        exact hxi
    next hsep =>
      rw [hbx, dropLast_concat]
      rw [separated_iff hx hi, not_or, not_lt, not_lt] at hsep
      refine ⟨?_, ?_, ?_⟩
      · rw [hbx] at hsplit
        simpa using hsplit
      · intro j hj
        have := hbelow j hj
        order
      · exact forall_mem_cons.2 ⟨hsep.2, hafter⟩

variable (i : QuicInterval T)

theorem add_spec :
    Canonical (s.add i) ∧ points (s.add i) = points s ∪ Set.Ico i.min i.max := by
  unfold add
  split
  next he =>
    have hle : i.max ≤ i.min := by simpa [empty] using he
    rw [Set.Ico_eq_empty (not_lt_of_ge hle), union_empty]
    exact ⟨h, rfl⟩
  next he =>
  have hi : i.min < i.max := empty_eq_false.1 (Bool.eq_false_iff.2 he)
  obtain ⟨hsplit, hb, ha⟩ := addStart_spec h hi
  generalize s.addStart i = start at hsplit hb ha
  have hcan := h
  rw [hsplit] at hcan
  obtain ⟨hcb, hca, hapart⟩ := canonical_append.1 hcan
  have hm := merged_absorb hca hi ha
  dsimp only
  generalize absorb i start.2 = r at hm
  have hbr : ∀ j ∈ start.1, j.max < r.1.min := fun j hj => hm.below _ (hb j hj) (hapart j hj)
  rw [insert_append]
  · refine ⟨canonical_append.2 ⟨hcb, canonical_cons.2 ⟨hm.nonempty, hm.apart, hm.rest⟩, ?_⟩, ?_⟩
    · intro j hj k hk
      have h1 := hbr j hj
      rcases mem_cons.1 hk with rfl | hk
      · exact h1
      · have h2 := hm.apart k hk
        have h3 := hm.nonempty
        order
    · ext p
      rw [mem_points_append, mem_points_cons, hm.points p, hsplit, mem_union, mem_points_append, mem_Ico]
      tauto
  · intro j hj
    exact lt_trans (hcb.nonempty j hj) (hbr j hj)
  · intro j hj
    exact lt_trans hm.nonempty (hm.apart j hj)

theorem canonical_add : Canonical (s.add i) := (add_spec h i).1

theorem points_add : points (s.add i) = points s ∪ Set.Ico i.min i.max :=
  (add_spec h i).2

theorem addOptimizedForAppend_eq (enabled : Bool) (i : QuicInterval T) :
    s.addOptimizedForAppend enabled i = s.add i := by
  unfold addOptimizedForAppend
  cases hlast : s.getLast? with
  | none => rfl
  | some last =>
    obtain ⟨b, rfl⟩ := getLast?_eq_some_iff.1 hlast
    obtain ⟨hb, hl, hapart⟩ := canonical_append.1 h
    have hl' := hl.nonempty last (mem_singleton_self last)
    dsimp only
    split
    · rfl
    split
    · rfl
    next hin =>
    rw [not_or, not_lt, not_lt] at hin
    split
    next hle =>
      apply Canonical.ext h (canonical_add h i)
      rw [points_add h]
      refine (union_eq_self_of_subset_right ?_).symm
      intro p hp
      rw [mem_points_append, mem_points_singleton]
      exact .inr ⟨le_trans hin.1 hp.1, lt_of_lt_of_le hp.2 hle⟩
    next hlt =>
      rw [not_le] at hlt
      rw [dropLast_concat]
      refine Canonical.ext ?_ (canonical_add h i) ?_
      · refine canonical_append.2 ⟨hb, canonical_singleton (lt_trans hl' hlt), ?_⟩
        intro j hj k hk
        rw [mem_singleton.1 hk]
        exact hapart j hj last (mem_singleton_self last)
      · rw [points_add h]
        ext p
        rw [mem_union, mem_points_append, mem_points_append, mem_points_singleton, mem_points_singleton, mem_Ico]
        grind

theorem union_spec (t : QuicIntervalSet T) :
    Canonical (s.union t) ∧ points (s.union t) = points s ∪ points t := by
  unfold union
  induction t generalizing s with
  | nil => simp [h]
  | cons i t ih =>
    obtain ⟨hc, hp⟩ := ih (canonical_add h i)
    refine ⟨hc, ?_⟩
    rw [foldl_cons, hp, points_add h]
    ext p
    rw [mem_union, mem_union, mem_union, mem_points_cons, mem_Ico]
    tauto

end

/-! ## Trimming -/

theorem trimLessThan_spec (v : T) : ∀ {s : QuicIntervalSet T}, Canonical s →
    Canonical (trimLessThan v s).1 ∧ points (trimLessThan v s).1 = points s ∩ Set.Ici v
  | [], h => by simp [trimLessThan, h]
  | i :: s, h => by
    obtain ⟨hi, hapart, hs⟩ := canonical_cons.1 h
    have hsp : ∀ p ∈ points s, i.max < p := fun p => lt_of_mem_points hapart
    rw [trimLessThan]
    split
    · refine ⟨h, ?_⟩
      ext p
      have := hsp p
      rw [mem_inter_iff, mem_points_cons, mem_Ici]
      grind
    next =>
    split
    · obtain ⟨hc, hp⟩ := trimLessThan_spec v hs
      refine ⟨hc, ?_⟩
      rw [hp]
      ext p
      rw [mem_inter_iff, mem_inter_iff, mem_points_cons, mem_Ici]
      grind
    next hmax =>
      refine ⟨canonical_cons.2 ⟨lt_of_not_ge hmax, hapart, hs⟩, ?_⟩
      ext p
      have := hsp p
      rw [mem_inter_iff, mem_points_cons, mem_points_cons, mem_Ici]
      dsimp only
      grind

theorem points_popFront (h : Canonical s) :
    points s.popFront = {p ∈ points s | ∃ q ∉ points s, q ≤ p ∧ ∃ r ∈ points s, r ≤ q} := by
  cases s with
  | nil => simp [popFront]
  | cons i s =>
    obtain ⟨hi, hapart, hs⟩ := canonical_cons.1 h
    have hsp : ∀ p ∈ points s, i.max < p := fun p => lt_of_mem_points hapart
    have hmax := max_notMem_points h mem_cons_self
    have hmin := min_mem_points h mem_cons_self
    ext p
    change p ∈ points s ↔ p ∈ points (i :: s) ∧ _
    constructor
    · intro hp
      have hlt := hsp p hp
      exact ⟨mem_points_cons.2 (.inr hp), i.max, hmax, le_of_lt hlt, i.min, hmin, le_of_lt hi⟩
    · rintro ⟨hp, q, hq, hqp, r, hr, hrq⟩
      rw [mem_points_cons] at hp hr hq
      have h1 := hsp r
      grind

/-! ## Queries -/

section
variable (h : Canonical s)
include h

theorem Canonical.candidate (v : T) : (∀ j ∈ s.setUpperBound v, v < j.min) ∧
    (((s.beforeUpperBound v).getLast? = none ∧ s = s.setUpperBound v) ∨
      ∃ b x, (s.beforeUpperBound v).getLast? = some x ∧ s = b ++ x :: s.setUpperBound v ∧ x.min < x.max ∧ x.min ≤ v ∧
        ∀ j ∈ b, j.min < j.max ∧ j.max < x.min) := by
  obtain ⟨hsplit, hb, ha⟩ := h.upperSplit v
  refine ⟨ha, ?_⟩
  cases hlast : (s.beforeUpperBound v).getLast? with
  | none =>
    rw [getLast?_eq_none_iff] at hlast
    rw [hlast] at hsplit
    exact .inl ⟨rfl, hsplit⟩
  | some x =>
    obtain ⟨b, hbx⟩ := getLast?_eq_some_iff.1 hlast
    have hs : s = b ++ x :: s.setUpperBound v := by
      rw [hbx] at hsplit
      simpa using hsplit
    have hcan := h
    rw [hs] at hcan
    obtain ⟨hcb, hcx, hapart⟩ := canonical_append.1 hcan
    refine .inr ⟨b, x, rfl, hs, hcx.nonempty x mem_cons_self, hb x (mem_of_getLast? hlast), ?_⟩
    exact fun j hj => ⟨hcb.nonempty j hj, hapart j hj x mem_cons_self⟩

theorem contains_iff (v : T) : s.contains v = true ↔ v ∈ points s := by
  unfold contains
  obtain ⟨ha, ⟨hn, hs⟩ | ⟨b, x, hx, hs, hxe, hxv, hb⟩⟩ := h.candidate v
  · rw [hn]
    simp only [Bool.false_eq_true, false_iff]
    intro hv
    rw [hs] at hv
    exact lt_irrefl v (lt_of_mem_points ha hv)
  · rw [hx]
    have hbv : v ∉ points b := by
      rintro ⟨j, hj, -, hlt⟩
      have := hb j hj
      order
    have hav : v ∉ points (s.setUpperBound v) := fun hm => lt_irrefl v (lt_of_mem_points ha hm)
    rw [QuicInterval.contains_iff]
    conv_rhs => rw [hs]
    rw [mem_points_append, mem_points_cons]
    tauto

theorem Ico_subset_iff (hi : i.min < i.max) :
    Set.Ico i.min i.max ⊆ points s ↔ ∃ x ∈ s, x.min ≤ i.min ∧ i.max ≤ x.max := by
  constructor
  · intro hsub
    obtain ⟨x, hx, h1, h2⟩ := hsub ⟨le_refl _, hi⟩
    refine ⟨x, hx, h1, le_of_not_gt fun hlt => ?_⟩
    exact max_notMem_points h hx (hsub ⟨le_of_lt h2, hlt⟩)
  · rintro ⟨x, hx, h1, h2⟩ p hp
    exact ⟨x, hx, le_trans h1 hp.1, lt_of_lt_of_le hp.2 h2⟩

theorem containsInterval_iff (hi : i.min < i.max) :
    s.containsInterval i = true ↔ Set.Ico i.min i.max ⊆ points s := by
  rw [Ico_subset_iff h hi]
  unfold containsInterval
  obtain ⟨ha, ⟨hn, hs⟩ | ⟨b, x, hx, hs, hxe, hxv, hb⟩⟩ := h.candidate i.min
  · rw [hn]
    simp only [Bool.false_eq_true, false_iff]
    rintro ⟨y, hy, h1, -⟩
    rw [hs] at hy
    exact lt_irrefl _ (lt_of_lt_of_le (ha y hy) h1)
  · rw [hx]
    rw [QuicInterval.containsInterval_iff hxe hi]
    constructor
    · intro hc
      refine ⟨x, ?_, hc⟩
      rw [hs]
      exact mem_append_right _ mem_cons_self
    · rintro ⟨y, hy, h1, h2⟩
      rw [hs] at hy
      rcases mem_append.1 hy with hy | hy
      · have := hb y hy
        exact absurd h2 (by order)
      · rcases mem_cons.1 hy with rfl | hy
        · exact ⟨h1, h2⟩
        · have := ha y hy
          exact absurd h1 (by order)

theorem isDisjoint_iff (i : QuicInterval T) :
    s.isDisjoint i = true ↔ ∀ p ∈ points s, p ∉ Set.Ico i.min i.max := by
  unfold isDisjoint
  split
  next he =>
    have hle : i.max ≤ i.min := by simpa [empty] using he
    rw [Set.Ico_eq_empty (not_lt_of_ge hle)]
    simp
  next he =>
  have hi : i.min < i.max := empty_eq_false.1 (Bool.eq_false_iff.2 he)
  obtain ⟨ha, hcases⟩ := h.candidate i.min
  have hsplit := (h.upperSplit i.min).1
  -- an interval after the upper bound meets `i` exactly if the first one of them does
  split
  next hany =>
    obtain ⟨x, hx, hlt⟩ := (Option.any_eq_true ..).1 hany
    have hxs : x ∈ s.setUpperBound i.min := mem_of_head? hx
    have hmem : x ∈ s := by
      rw [hsplit]
      exact mem_append_right _ hxs
    simp only [Bool.false_eq_true, false_iff]
    intro hdis
    exact hdis x.min (min_mem_points h hmem) ⟨le_of_lt (ha x hxs), by simpa using hlt⟩
  next hany =>
  have hafter : ∀ p ∈ points (s.setUpperBound i.min), i.max ≤ p := by
    rintro p ⟨y, hy, h1, -⟩
    refine le_trans ?_ h1
    cases hup : s.setUpperBound i.min with
    | nil =>
      rw [hup] at hy
      cases hy
    | cons x l =>
      rw [hup] at hy hany
      have hx : i.max ≤ x.min := by simpa using hany
      rcases mem_cons.1 hy with rfl | hy
      · exact hx
      · rw [hsplit, hup] at h
        obtain ⟨hxe, hxl, -⟩ := canonical_cons.1 (canonical_append.1 h).2.1
        have := hxl y hy
        order
  rcases hcases with ⟨hn, hs⟩ | ⟨b, x, hx, hs, hxe, hxv, hb⟩
  · rw [hn]
    simp only [true_iff]
    intro p hp hpi
    rw [hs] at hp
    exact absurd hpi.2 (not_lt_of_ge (hafter p hp))
  · rw [hx]
    simp only [decide_eq_true_eq]
    constructor
    · intro hle p hp hpi
      rw [hs, mem_points_append, mem_points_cons] at hp
      rcases hp with ⟨j, hj, h1, h2⟩ | hp | hp
      · have := hb j hj
        have := hpi.1
        order
      · have := hpi.1
        have := hp.2
        order
      · exact absurd hpi.2 (not_lt_of_ge (hafter p hp))
    · intro hdis
      refine le_of_not_gt fun hlt => hdis i.min ?_ ⟨le_refl _, hi⟩
      rw [hs, mem_points_append, mem_points_cons]
      exact .inr (.inl ⟨hxv, hlt⟩)

theorem upperBound_eq (v : T) : s.upperBound v = s.filter fun i => v < i.min := by
  obtain ⟨hsplit, hb, ha⟩ := h.upperSplit v
  conv_rhs => rw [hsplit]
  have h1 : (s.beforeUpperBound v).filter (fun i => v < i.min) = [] := by
    rw [filter_eq_nil_iff]
    intro i hi
    simpa using hb i hi
  have h2 : (s.setUpperBound v).filter (fun i => v < i.min) = s.setUpperBound v := by
    rw [filter_eq_self]
    intro i hi
    simpa using ha i hi
  rw [filter_append, h1, h2]
  rfl

end

theorem filter_candidate {b : QuicIntervalSet T} (h : Canonical s) (hs : s = b ++ x :: t)
    (hxv : x.min ≤ v) (hb : ∀ j ∈ b, j.min < j.max ∧ j.max < x.min) :
    (s.filter fun i => v < i.max) = if v < x.max then x :: t else t.filter fun i => v < i.max := by
  have h1 : b.filter (fun i => v < i.max) = [] := by
    rw [filter_eq_nil_iff]
    intro i hi
    have := hb i hi
    simp only [decide_eq_true_eq, not_lt]
    order
  rw [hs, filter_append, h1, nil_append, filter_cons]
  simp only [decide_eq_true_eq]
  by_cases hlt : v < x.max
  · rw [if_pos hlt, if_pos hlt]
    congr 1
    rw [filter_eq_self]
    intro j hj
    rw [hs] at h
    obtain ⟨-, hcx, -⟩ := canonical_append.1 h
    obtain ⟨-, hxt, ht⟩ := canonical_cons.1 hcx
    have h2 := hxt j hj
    have h3 := ht.nonempty j hj
    simp only [decide_eq_true_eq]
    order
  · rw [if_neg hlt, if_neg hlt]

theorem lowerBound_eq (h : Canonical s) (v : T) : s.lowerBound v = s.filter fun i => v < i.max := by
  obtain ⟨hsplit, hb, ha⟩ := h.lowerSplit v
  have hcan := h
  rw [hsplit] at hcan
  obtain ⟨hcb, hca, hapart⟩ := canonical_append.1 hcan
  have hafter : (s.setLowerBound v).filter (fun i => v < i.max) = s.setLowerBound v := by
    rw [filter_eq_self]
    intro i hi
    have h1 := ha i hi
    have h2 := hca.nonempty i hi
    simp only [decide_eq_true_eq]
    order
  unfold lowerBound
  cases hlast : (s.beforeLowerBound v).getLast? with
  | none =>
    rw [getLast?_eq_none_iff] at hlast
    conv_rhs => rw [hsplit, hlast]
    exact hafter.symm
  | some x =>
    obtain ⟨b, hbx⟩ := getLast?_eq_some_iff.1 hlast
    have hxv : x.min < v := hb x (mem_of_getLast? hlast)
    have hs : s = b ++ x :: s.setLowerBound v := by
      rw [hbx] at hsplit
      simpa using hsplit
    have hbe : ∀ j ∈ b, j.min < j.max ∧ j.max < x.min := by
      intro j hj
      rw [hbx] at hcb
      obtain ⟨h1, -, h2⟩ := canonical_append.1 hcb
      exact ⟨h1.nonempty j hj, h2 j hj x (mem_singleton_self x)⟩
    rw [filter_candidate h hs (le_of_lt hxv) hbe, hafter]
    have hc : x.contains v = true ↔ v < x.max := by
      rw [QuicInterval.contains_iff]
      exact ⟨And.right, fun hlt => ⟨le_of_lt hxv, hlt⟩⟩
    simp only [hc]

theorem find_eq (h : Canonical s) (v : T) :
    (v ∈ points s → s.find v = s.filter fun i => v < i.max) ∧ (v ∉ points s → s.find v = []) := by
  rw [← contains_iff h v]
  unfold find contains
  obtain ⟨ha, ⟨hn, hs⟩ | ⟨b, x, hx, hs, hxe, hxv, hb⟩⟩ := h.candidate v
  · rw [hn]
    exact ⟨nofun, fun _ => rfl⟩
  · rw [hx]
    dsimp only
    constructor
    · intro hc
      rw [if_pos hc, filter_candidate h hs hxv hb, if_pos (QuicInterval.contains_iff.1 hc).2]
    · intro hc
      rw [if_neg hc]

theorem findInterval_eq (h : Canonical s) (hi : i.min < i.max) :
    (Set.Ico i.min i.max ⊆ points s → s.findInterval i = s.filter fun j => i.min < j.max) ∧
      (¬ Set.Ico i.min i.max ⊆ points s → s.findInterval i = []) := by
  rw [← containsInterval_iff h hi]
  unfold findInterval containsInterval
  obtain ⟨ha, ⟨hn, hs⟩ | ⟨b, x, hx, hs, hxe, hxv, hb⟩⟩ := h.candidate i.min
  · rw [hn]
    exact ⟨nofun, fun _ => rfl⟩
  · rw [hx]
    dsimp only
    constructor
    · intro hc
      have hlt : i.min < x.max := lt_of_lt_of_le hi ((QuicInterval.containsInterval_iff hxe hi).1 hc).2
      rw [if_pos hc, filter_candidate h hs hxv hb, if_pos hlt]
    · intro hc
      rw [if_neg hc]

end

end QuicIntervalSet

end Quictun
