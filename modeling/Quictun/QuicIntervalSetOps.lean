import Mathlib.Data.List.Infix
import Mathlib.Order.MinMax
import Quictun.QuicIntervalSet

/-!
# Operations on two interval sets

`Intersection()` works in place: two iterators advance to the next pair of intervals that
meet, what is skipped on the way is erased, and one's interval is replaced by its
intersections with the other's. `Difference()` builds a new container. Both are loops over
two ascending sequences; here they have fuel that is more than the steps they take.
-/

namespace Quictun

open List Set

variable {T : Type*} [LinearOrder T]

namespace QuicIntervalSet

def intersectsLoop : Nat → QuicIntervalSet T → QuicIntervalSet T → Bool
  | 0, _, _ => false
  | _ + 1, [], _ => false
  | _ + 1, _ :: _, [] => false
  | fuel + 1, m :: mine, t :: theirs =>
    if m.intersects t then true
    else if m.less t then intersectsLoop fuel mine (t :: theirs)
    else intersectsLoop fuel (m :: mine) theirs

def intersects (s other : QuicIntervalSet T) : Bool := intersectsLoop (s.length + other.length) s other

/-- What stands before the iterator `FindIntersectionCandidate(interval)`, and the iterator. -/
def findIntersectionCandidate (s : QuicIntervalSet T) (interval : QuicInterval T) :
    QuicIntervalSet T × QuicIntervalSet T :=
  match (s.beforeUpperBound interval.min).getLast? with
  | none => (s.beforeUpperBound interval.min, s.setUpperBound interval.min)
  | some x => ((s.beforeUpperBound interval.min).dropLast, x :: s.setUpperBound interval.min)

/-- `FindNextIntersectingPairAndEraseHoles()`: whether there is one, and the two iterators. -/
def findNextIntersectingPair : Nat → QuicIntervalSet T → QuicIntervalSet T →
    Bool × QuicIntervalSet T × QuicIntervalSet T
  | 0, mine, theirs => (false, mine, theirs)
  | _ + 1, [], theirs => (false, [], theirs)
  | _ + 1, m :: mine, [] => (false, m :: mine, [])
  | fuel + 1, m :: mine, t :: theirs =>
    if m.intersects t then (true, m :: mine, t :: theirs)
    else
      match (m :: mine).dropWhile fun x => x.max ≤ t.min with
      | [] => (false, [], t :: theirs)
      | m' :: mine' =>
        match (t :: theirs).dropWhile fun y => y.max ≤ m'.min with
        | [] => (false, [], [])
        | t' :: theirs' => findNextIntersectingPair fuel (m' :: mine') (t' :: theirs')

/-- The loop of `Intersection()`; `before` is what stands before the iterator `mine`. -/
def intersectionLoop : Nat → QuicIntervalSet T → QuicIntervalSet T → QuicIntervalSet T → QuicIntervalSet T
  | 0, before, mine, _ => before ++ mine
  | fuel + 1, before, mine, theirs =>
    match findNextIntersectingPair (mine.length + theirs.length) mine theirs with
    | (true, i :: rest, theirs) =>
      let met := theirs.takeWhile fun t => i.intersects t
      let intervals := met.foldl (fun s t => insert (i.intersection t) s) (before ++ rest)
      match met.getLast? with
      | none => intervals
      | some last =>
        -- `mine` is past the interval inserted last, `theirs` at the one it came from
        intersectionLoop fuel (intervals.beforeUpperBound (i.intersection last).min)
          (intervals.setUpperBound (i.intersection last).min) (theirs.drop (met.length - 1))
    | (_, mine, _) => before ++ mine

section
variable [Inhabited T]

def emptyInterval : QuicInterval T := ⟨default, default⟩

variable (s : QuicIntervalSet T)

def spanningInterval : QuicInterval T :=
  match s.head?, s.getLast? with
  | some first, some last => ⟨first.min, last.max⟩
  | _, _ => emptyInterval

def containsSet (s other : QuicIntervalSet T) : Bool :=
  s.spanningInterval.containsInterval other.spanningInterval && other.all fun i => s.containsInterval i

def intersection (s other : QuicIntervalSet T) : QuicIntervalSet T :=
  if s.spanningInterval.intersects other.spanningInterval then
    match other.head? with
    | none => []
    | some first =>
      let mine := (s.findIntersectionCandidate first).2
      match mine.head? with
      | none => []
      | some first => intersectionLoop (mine.length + 1) [] mine (other.findIntersectionCandidate first).2
  else []

/-- One turn of the loop of `Difference()`: `myinterval`, `theirs` and `result`. -/
def differenceStep (my : QuicInterval T) (theirs result : QuicIntervalSet T) :
    QuicInterval T × QuicIntervalSet T × QuicIntervalSet T :=
  match theirs with
  | [] => (emptyInterval, [], insert my result)
  | t :: ts =>
    if my.max ≤ t.min then (emptyInterval, t :: ts, insert my result)
    else if t.max ≤ my.min then (my, ts, result)
    else if my.min < t.min then ({ my with min := t.max }, t :: ts, insert ⟨my.min, t.min⟩ result)
    else ({ my with min := t.max }, t :: ts, result)

def differenceLoop : Nat → QuicInterval T → QuicIntervalSet T → QuicIntervalSet T → QuicIntervalSet T →
    QuicIntervalSet T
  | 0, _, _, _, result => result
  | fuel + 1, my, rest, theirs, result =>
    let next := differenceStep my theirs result
    if next.1.empty then
      match rest with
      | [] => next.2.2
      | m :: rest => differenceLoop fuel m rest next.2.1 next.2.2
    else differenceLoop fuel next.1 rest next.2.1 next.2.2

def difference (s other : QuicIntervalSet T) : QuicIntervalSet T :=
  match s with
  | [] => []
  | m :: rest => differenceLoop (rest.length + 1 + 2 * other.length) m rest other []

def differenceInterval (interval : QuicInterval T) : QuicIntervalSet T :=
  if s.spanningInterval.intersects interval then s.difference (add [] interval) else s

def complement (min max : T) : QuicIntervalSet T := (add [] ⟨min, max⟩).difference s

end

section
variable {s t mine theirs : QuicIntervalSet T} {i : QuicInterval T} {p v : T}

theorem Canonical.suffix (h : Canonical s) (ht : t <:+ s) : Canonical t := by
  obtain ⟨b, rfl⟩ := ht
  exact (canonical_append.1 h).2.1

theorem points_suffix (ht : t <:+ s) (hp : p ∈ points t) : p ∈ points s := by
  obtain ⟨b, rfl⟩ := ht
  exact mem_points_append.2 (.inr hp)

theorem ne_nil_of_mem_points (hp : p ∈ points s) : s ≠ [] := by
  rintro rfl
  simp at hp

theorem le_of_mem_points (h : Canonical (i :: s)) (hp : p ∈ points (i :: s)) : i.min ≤ p := by
  obtain ⟨hi, hapart, -⟩ := canonical_cons.1 h
  rcases mem_points_cons.1 hp with hp | hp
  · exact hp.1
  · exact le_of_lt (lt_trans hi (lt_of_mem_points hapart hp))

theorem mem_points_dropWhile_max (hv : v ≤ p) : p ∈ points (s.dropWhile fun x => x.max ≤ v) ↔ p ∈ points s := by
  conv_rhs => rw [← takeWhile_append_dropWhile (p := fun x : QuicInterval T => x.max ≤ v) (l := s)]
  rw [mem_points_append]
  refine (or_iff_right ?_).symm
  rintro ⟨x, hx, -, hlt⟩
  have hle : x.max ≤ v := by simpa using mem_takeWhile_imp hx
  order

/-! ## Intersects -/

theorem not_intersects_iff {m t : QuicInterval T} (hm : m.min < m.max) (ht : t.min < t.max) :
    ¬ m.intersects t = true ↔ t.max ≤ m.min ∨ m.max ≤ t.min := by
  rw [QuicInterval.intersects_iff hm ht, not_and_or, not_lt, not_lt]

theorem intersectsLoop_iff : ∀ {fuel : Nat} {mine theirs : QuicIntervalSet T}, mine.length + theirs.length ≤ fuel →
    Canonical mine → Canonical theirs →
      (intersectsLoop fuel mine theirs = true ↔ (points mine ∩ points theirs).Nonempty)
  | 0, mine, theirs, hf, _, _ => by
    have hmine : mine = [] := length_eq_zero_iff.1 (by omega)
    simp [intersectsLoop, hmine]
  | _ + 1, [], _, _, _, _ => by simp [intersectsLoop]
  | _ + 1, _ :: _, [], _, _, _ => by simp [intersectsLoop]
  | fuel + 1, m :: mine, t :: theirs, hf, hm, ht => by
    obtain ⟨hme, hma, hm'⟩ := canonical_cons.1 hm
    obtain ⟨hte, hta, ht'⟩ := canonical_cons.1 ht
    have hmp : ∀ p ∈ points (m :: mine), m.min ≤ p := fun p => le_of_mem_points hm
    have htp : ∀ p ∈ points (t :: theirs), t.min ≤ p := fun p => le_of_mem_points ht
    rw [length_cons, length_cons] at hf
    rw [intersectsLoop]
    split
    next hint =>
      obtain ⟨h1, h2⟩ := (QuicInterval.intersects_iff hme hte).1 hint
      refine iff_of_true rfl ⟨Max.max m.min t.min, ?_, ?_⟩ <;> rw [mem_points_cons] <;> left <;> grind
    next hint =>
    rcases (not_intersects_iff hme hte).1 hint with hle | hle
    · -- theirs ends before mine begins
      have hless : m.less t = false := by
        have hlt : t.min < m.min := lt_of_lt_of_le hte hle
        simp [QuicInterval.less, hlt, le_of_lt hlt]
      rw [hless, if_neg Bool.false_ne_true, intersectsLoop_iff (by simp; omega) hm ht']
      refine exists_congr fun p => ?_
      rw [mem_inter_iff, mem_inter_iff, mem_points_cons (i := t)]
      have := hmp p
      grind
    · have hless : m.less t = true := by
        have hlt : m.min < t.min := lt_of_lt_of_le hme hle
        simp [QuicInterval.less, hlt]
      rw [hless, if_pos rfl, intersectsLoop_iff (by simp; omega) hm' ht]
      refine exists_congr fun p => ?_
      rw [mem_inter_iff, mem_inter_iff, mem_points_cons (i := m)]
      have := htp p
      grind

/-! ## Intersection -/

structure PairFound (mine theirs : QuicIntervalSet T) (r : Bool × QuicIntervalSet T × QuicIntervalSet T) : Prop where
  suffixMine : r.2.1 <:+ mine
  suffixTheirs : r.2.2 <:+ theirs
  same : ∀ p, p ∈ points mine ∧ p ∈ points theirs ↔ p ∈ points r.2.1 ∧ p ∈ points r.2.2
  found : r.1 = true → ∃ m ms t ts, r.2 = (m :: ms, t :: ts) ∧ m.intersects t = true
  notFound : r.1 = false → theirs ≠ [] → r.2.1 = []

theorem pairFound : ∀ {fuel : Nat} {mine theirs : QuicIntervalSet T}, mine.length + theirs.length ≤ fuel →
    Canonical mine → Canonical theirs → PairFound mine theirs (findNextIntersectingPair fuel mine theirs)
  | 0, mine, theirs, hf, _, _ => by
    have hmine : mine = [] := length_eq_zero_iff.1 (by omega)
    refine ⟨suffix_refl _, suffix_refl _, fun p => Iff.rfl, nofun, fun _ _ => hmine⟩
  | _ + 1, [], theirs, _, _, _ =>
    ⟨suffix_refl _, suffix_refl _, fun p => Iff.rfl, nofun, fun _ _ => rfl⟩
  | _ + 1, m :: mine, [], _, _, _ =>
    ⟨suffix_refl _, suffix_refl _, fun p => Iff.rfl, nofun,
      fun _ h => absurd rfl h⟩
  | fuel + 1, m :: mine, t :: theirs, hf, hm, ht => by
    obtain ⟨hme, hma, hm'⟩ := canonical_cons.1 hm
    obtain ⟨hte, hta, ht'⟩ := canonical_cons.1 ht
    rw [findNextIntersectingPair]
    split
    next hint =>
      exact ⟨suffix_refl _, suffix_refl _, fun p => Iff.rfl, fun _ => ⟨m, mine, t, theirs, rfl, hint⟩,
        fun h => absurd h.symm Bool.false_ne_true⟩
    next hint =>
    have hskip : ∀ p, p ∈ points (m :: mine) ∧ p ∈ points (t :: theirs) ↔
        p ∈ points ((m :: mine).dropWhile fun x => x.max ≤ t.min) ∧ p ∈ points (t :: theirs) := by
      intro p
      apply and_congr_left
      intro hp
      exact (mem_points_dropWhile_max (le_of_mem_points ht hp)).symm
    have hsuf : (m :: mine).dropWhile (fun x => x.max ≤ t.min) <:+ m :: mine := dropWhile_suffix _
    cases hdm : (m :: mine).dropWhile fun x => x.max ≤ t.min with
    | nil =>
      rw [hdm] at hskip
      exact ⟨nil_suffix, suffix_refl _, hskip, nofun, fun _ _ => rfl⟩
    | cons m' mine' =>
      rw [hdm] at hskip hsuf
      have hm2 := hm.suffix hsuf
      dsimp only
      have hskip' : ∀ p, p ∈ points (m' :: mine') ∧ p ∈ points (t :: theirs) ↔
          p ∈ points (m' :: mine') ∧ p ∈ points ((t :: theirs).dropWhile fun y => y.max ≤ m'.min) := by
        intro p
        apply and_congr_right
        intro hp
        exact (mem_points_dropWhile_max (le_of_mem_points hm2 hp)).symm
      have hsuf' : (t :: theirs).dropWhile (fun y => y.max ≤ m'.min) <:+ t :: theirs := dropWhile_suffix _
      -- one of the two iterators has moved
      have hprogress : (m' :: mine').length + ((t :: theirs).dropWhile fun y => y.max ≤ m'.min).length ≤ fuel := by
        have h1 := hsuf'.length_le
        rw [length_cons, length_cons] at hf
        rw [length_cons] at h1
        by_cases hle : m.max ≤ t.min
        · rw [dropWhile_cons_of_pos (by simpa using hle)] at hdm
          have h2 := (dropWhile_suffix (l := mine) fun x => decide (x.max ≤ t.min)).length_le
          rw [hdm] at h2
          omega
        · rw [dropWhile_cons_of_neg (by simpa using hle)] at hdm
          obtain ⟨rfl, rfl⟩ := cons.inj hdm
          have hle' := ((not_intersects_iff hme hte).1 hint).resolve_right hle
          have h2 := (dropWhile_suffix (l := theirs) fun y => decide (y.max ≤ m.min)).length_le
          rw [dropWhile_cons_of_pos (by simpa using hle'), length_cons]
          omega
      cases hdt : (t :: theirs).dropWhile fun y => y.max ≤ m'.min with
      | nil =>
        rw [hdt] at hskip'
        refine ⟨nil_suffix, nil_suffix, fun p => ?_, nofun, fun _ _ => rfl⟩
        rw [hskip p, hskip' p]
        simp
      | cons t' theirs' =>
        rw [hdt] at hskip' hsuf' hprogress
        have hrec := pairFound hprogress hm2 (ht.suffix hsuf')
        refine ⟨hrec.suffixMine.trans hsuf, hrec.suffixTheirs.trans hsuf', fun p => ?_, hrec.found, fun h _ => ?_⟩
        · rw [hskip p, hskip' p, hrec.same p]
        · exact hrec.notFound h (cons_ne_nil t' theirs')

theorem upperBound_append {a b : QuicIntervalSet T} (ha : ∀ j ∈ a, j.min ≤ v) (hb : ∀ j ∈ b, v < j.min) :
    (a ++ b).beforeUpperBound v = a ∧ (a ++ b).setUpperBound v = b := by
  have ha' : ∀ j ∈ a, decide (j.min ≤ v) = true := fun j hj => by simpa using ha j hj
  unfold beforeUpperBound setUpperBound
  rw [takeWhile_append_of_pos ha', dropWhile_append_of_pos ha']
  cases b with
  | nil => simp
  | cons j b =>
    have hj : ¬ j.min ≤ v := not_le_of_gt (hb j mem_cons_self)
    simp [hj]

theorem foldl_insert {rest : QuicIntervalSet T} : ∀ {met before : QuicIntervalSet T},
    (∀ j ∈ before, ∀ t ∈ met, j.min < (i.intersection t).min) →
    (∀ j ∈ rest, ∀ t ∈ met, (i.intersection t).min < j.min) →
    (met.Pairwise fun t u => (i.intersection t).min < (i.intersection u).min) →
    met.foldl (fun s t => insert (i.intersection t) s) (before ++ rest) = before ++ met.map i.intersection ++ rest
  | [], before, _, _, _ => by simp
  | t :: met, before, hb, hr, hp => by
    obtain ⟨hpt, hpm⟩ := pairwise_cons.1 hp
    rw [foldl_cons, insert_append (fun j hj => hb j hj t mem_cons_self) (fun j hj => hr j hj t mem_cons_self)]
    have hassoc : before ++ i.intersection t :: rest = (before ++ [i.intersection t]) ++ rest := by simp
    rw [hassoc, foldl_insert _ (fun j hj u hu => hr j hj u (mem_cons_of_mem t hu)) hpm]
    · simp
    · intro j hj u hu
      rcases mem_append.1 hj with hj | hj
      · exact hb j hj u (mem_cons_of_mem t hu)
      · rw [mem_singleton.1 hj]
        exact hpt u hu

theorem mem_points_map_intersection {met : QuicIntervalSet T} :
    p ∈ points (met.map i.intersection) ↔ (i.min ≤ p ∧ p < i.max) ∧ p ∈ points met := by
  induction met with
  | nil => simp
  | cons t met ih =>
    rw [map_cons, mem_points_cons, mem_points_cons, ih]
    simp only [QuicInterval.intersection, max_le_iff, lt_min_iff]
    tauto

theorem takeWhile_congr {α : Type*} {q r : α → Bool} :
    ∀ {l : List α}, (∀ x ∈ l, q x = r x) → l.takeWhile q = l.takeWhile r
  | [], _ => rfl
  | x :: l, h => by
    rw [takeWhile_cons, takeWhile_cons, h x mem_cons_self,
      takeWhile_congr fun y hy => h y (mem_cons_of_mem x hy)]

theorem takeWhile_intersects {t : QuicInterval T} {ts : QuicIntervalSet T} (hi : i.min < i.max)
    (ht : Canonical (t :: ts))
    (hint : i.intersects t = true) : ∃ ms last after, (t :: ts).takeWhile (fun y => i.intersects y) = ms ++ [last] ∧
      t :: ts = ms ++ [last] ++ after ∧ (∀ y ∈ ms ++ [last], i.min < y.max ∧ y.min < i.max) ∧ ∀ y ∈ after,
        i.max ≤ y.min := by
  obtain ⟨hte, hta, -⟩ := canonical_cons.1 ht
  have h1 := (QuicInterval.intersects_iff hi hte).1 hint
  have hmax : ∀ y ∈ t :: ts, i.min < y.max := by
    intro y hy
    have hye := ht.nonempty y hy
    rcases mem_cons.1 hy with rfl | hy
    · exact h1.1
    · have := hta y hy
      order
  have hwhile : (t :: ts).takeWhile (fun y => i.intersects y) = beforeLowerBound (t :: ts) i.max := by
    apply takeWhile_congr
    intro y hy
    rw [Bool.eq_iff_iff, QuicInterval.intersects_iff hi (ht.nonempty y hy), decide_eq_true_eq]
    exact ⟨And.right, fun h => ⟨hmax y hy, h⟩⟩
  have hnonempty : beforeLowerBound (t :: ts) i.max ≠ [] := by
    unfold beforeLowerBound
    rw [takeWhile_cons_of_pos (by simpa using h1.2)]
    exact cons_ne_nil _ _
  obtain ⟨hsplit, hmet, hafter⟩ := ht.lowerSplit i.max
  obtain ⟨ms, last, hms⟩ := (eq_nil_or_concat' _).resolve_left hnonempty
  rw [hms] at hwhile hsplit hmet
  refine ⟨ms, last, _, hwhile, hsplit, fun y hy => ⟨hmax y ?_, hmet y hy⟩, hafter⟩
  rw [hsplit]
  exact mem_append_left _ hy

/-! An interval `i` between `before` and `rest` is replaced by what it has in common with those that meet it. -/

section
variable {before met rest : QuicIntervalSet T} (hcb : Canonical before) (hcr : Canonical rest) (hcmet : Canonical met)
  (hbi : ∀ j ∈ before, j.max < i.min) (hir : ∀ j ∈ rest, i.max < j.min) (hi : i.min < i.max)
  (hmeets : ∀ y ∈ met, i.min < y.max ∧ y.min < i.max)
include hcmet hi hmeets

theorem intersection_of_met : ∀ y ∈ met, (i.intersection y).min < (i.intersection y).max ∧
    i.min ≤ (i.intersection y).min ∧
    y.min ≤ (i.intersection y).min ∧ (i.intersection y).max ≤ i.max ∧ (i.intersection y).max ≤ y.max := by
  intro y hy
  have h1 := hmeets y hy
  have h2 := hcmet.nonempty y hy
  simp only [QuicInterval.intersection]
  grind

theorem intersections_apart : met.Pairwise fun t u => (i.intersection t).max < (i.intersection u).min := by
  refine List.Pairwise.imp_of_mem ?_ hcmet.apart
  intro y z hy hz hyz
  have h1 := intersection_of_met hcmet hi hmeets y hy
  have h2 := intersection_of_met hcmet hi hmeets z hz
  order

include hcb hbi hir

theorem foldl_insert_met :
    met.foldl (fun s t => insert (i.intersection t) s) (before ++ rest) = before ++ met.map i.intersection ++ rest := by
  have hinter := intersection_of_met hcmet hi hmeets
  refine foldl_insert (fun j hj y hy => ?_) (fun j hj y hy => ?_)
    (List.Pairwise.imp_of_mem (fun hy _ hyz => lt_trans (hinter _ hy).1 hyz) (intersections_apart hcmet hi hmeets))
  · have h1 := hbi j hj
    have h2 := hinter y hy
    have h3 := hcb.nonempty j hj
    order
  · have h1 := hir j hj
    have h2 := hinter y hy
    order

include hcr

theorem canonical_met : Canonical (before ++ met.map i.intersection ++ rest) := by
  have hinter := intersection_of_met hcmet hi hmeets
  refine canonical_append.2 ⟨canonical_append.2 ⟨hcb, ⟨?_, ?_⟩, ?_⟩, hcr, ?_⟩
  · intro j hj
    obtain ⟨y, hy, rfl⟩ := mem_map.1 hj
    exact (hinter y hy).1
  · exact pairwise_map.2 (intersections_apart hcmet hi hmeets)
  · intro j hj k hk
    obtain ⟨y, hy, rfl⟩ := mem_map.1 hk
    exact lt_of_lt_of_le (hbi j hj) (hinter y hy).2.1
  · intro j hj k hk
    have hk' := hir k hk
    rcases mem_append.1 hj with hj | hj
    · have := hbi j hj
      order
    · obtain ⟨y, hy, rfl⟩ := mem_map.1 hj
      exact lt_of_le_of_lt (hinter y hy).2.2.2.1 hk'

end

theorem upperBound_met {before ms rest : QuicIntervalSet T} {last : QuicInterval T} (hi : i.min < i.max)
    (hnew : Canonical (before ++ (ms ++ [last]).map i.intersection ++ rest))
    (hmeets : i.min < last.max ∧ last.min < i.max) (hl : last.min < last.max) (hir : ∀ j ∈ rest, i.max < j.min) :
    (before ++ (ms ++ [last]).map i.intersection ++ rest).beforeUpperBound (i.intersection last).min =
        before ++ (ms ++ [last]).map i.intersection ∧
      (before ++ (ms ++ [last]).map i.intersection ++ rest).setUpperBound (i.intersection last).min = rest := by
  have hlt := intersection_of_met (canonical_singleton hl) hi (fun y hy => mem_singleton.1 hy ▸ hmeets) last
    (mem_singleton_self last)
  have hc := (canonical_append.1 hnew).1
  rw [map_append, ← append_assoc, map_singleton] at hc ⊢
  apply upperBound_append
  · intro j hj
    rcases mem_append.1 hj with hj | hj
    · have h1 := (canonical_append.1 hc).2.2 j hj _ (mem_singleton_self _)
      have h2 := hc.nonempty j (mem_append_left _ hj)
      order
    · rw [mem_singleton.1 hj]
  · intro j hj
    have h1 := hir j hj
    order

theorem or_and_of_met {B Q P M L R A : Prop} (hr : R → ¬ P) (ha : A → ¬ P) (hm : M → P) :
    (B ∨ (Q ∧ P) ∧ (M ∨ L)) ∨ R ∧ (L ∨ A) ↔ B ∨ ((Q ∧ P) ∨ R) ∧ ((M ∨ L) ∨ A) := by
  tauto

theorem intersectionLoop_spec : ∀ {fuel : Nat} {before mine theirs : QuicIntervalSet T}, mine.length < fuel →
    Canonical (before ++ mine) → Canonical theirs → theirs ≠ [] →
    Canonical (intersectionLoop fuel before mine theirs) ∧ ∀ p, p ∈ points (intersectionLoop fuel before mine theirs) ↔
      p ∈ points before ∨ (p ∈ points mine ∧ p ∈ points theirs)
  | fuel + 1, before, mine, theirs, hf, hc, ht, hne => by
    obtain ⟨hcb, hcm, hbm⟩ := canonical_append.1 hc
    have hpair := pairFound (le_refl (mine.length + theirs.length)) hcm ht
    rw [intersectionLoop]
    generalize findNextIntersectingPair (mine.length + theirs.length) mine theirs = r at hpair
    obtain ⟨b, mine', theirs'⟩ := r
    cases b with
    | false =>
      have hm := hpair.notFound rfl hne
      dsimp only at hm ⊢
      subst hm
      rw [append_nil]
      refine ⟨hcb, fun p => ?_⟩
      rw [hpair.same p]
      simp
    | true =>
      obtain ⟨i, rest, t, ts, heq, hint⟩ := hpair.found rfl
      obtain ⟨rfl, rfl⟩ := Prod.mk.inj heq
      dsimp only
      have hsm : i :: rest <:+ mine := hpair.suffixMine
      have htt : Canonical (t :: ts) := ht.suffix hpair.suffixTheirs
      obtain ⟨hie, hir, hrest⟩ := canonical_cons.1 (hcm.suffix hsm)
      have hbi : ∀ j ∈ before, j.max < i.min := fun j hj => hbm j hj i (hsm.subset mem_cons_self)
      obtain ⟨ms, last, after, hwhile, hsplit, hmeets, hafter⟩ := takeWhile_intersects hie htt hint
      have hcan := htt
      rw [hsplit] at hcan
      obtain ⟨hcmet, -, -⟩ := canonical_append.1 hcan
      have hlmem : last ∈ ms ++ [last] := mem_append_right _ (mem_singleton_self last)
      have hnew := canonical_met hcb hrest hcmet hbi hir hie hmeets
      have hub := upperBound_met hie hnew (hmeets last hlmem) (hcmet.nonempty last hlmem) hir
      have hdrop : (t :: ts).drop ((ms ++ [last]).length - 1) = last :: after := by
        rw [hsplit]
        simp
      rw [hwhile, foldl_insert_met hcb hcmet hbi hir hie hmeets, getLast?_concat]
      dsimp only
      rw [hub.1, hub.2, hdrop]
      have hlen : rest.length < fuel := by
        have := hsm.length_le
        rw [length_cons] at this
        omega
      have hca : Canonical (last :: after) := by
        apply hcan.suffix
        exact ⟨ms, by simp⟩
      obtain ⟨hcr, hpr⟩ := intersectionLoop_spec hlen hnew hca (cons_ne_nil last after)
      refine ⟨hcr, fun p => ?_⟩
      rw [hpr p, hpair.same p, hsplit]
      simp only [mem_points_append, mem_points_map_intersection, mem_points_cons, points_nil, mem_empty_iff_false,
        or_false]
      have hrp : p ∈ points rest → ¬ p < i.max := fun h => not_lt_of_gt (lt_of_mem_points hir h)
      have hap : p ∈ points after → ¬ p < i.max := by
        rintro ⟨y, hy, h1, -⟩
        exact not_lt_of_ge (le_trans (hafter y hy) h1)
      have hmp : p ∈ points ms → p < i.max := by
        rintro ⟨y, hy, -, h1⟩
        have h2 := (canonical_append.1 hcmet).2.2 y hy last (mem_singleton_self last)
        have h3 := hmeets last hlmem
        order
      exact or_and_of_met hrp hap hmp

theorem findIntersectionCandidate_spec (h : Canonical s) (i : QuicInterval T) :
    (s.findIntersectionCandidate i).2 <:+ s ∧ (s ≠ [] → (s.findIntersectionCandidate i).2 ≠ []) ∧
      ∀ p, i.min ≤ p → (p ∈ points (s.findIntersectionCandidate i).2 ↔ p ∈ points s) := by
  unfold findIntersectionCandidate
  obtain ⟨ha, ⟨hn, hs⟩ | ⟨b, x, hx, hs, hxe, hxv, hb⟩⟩ := h.candidate i.min
  · rw [hn]
    rw [← hs]
    exact ⟨suffix_refl s, fun h => h, fun p _ => Iff.rfl⟩
  · rw [hx]
    refine ⟨⟨b, hs.symm⟩, fun _ => cons_ne_nil _ _, fun p hp => ?_⟩
    conv_rhs => rw [hs]
    rw [mem_points_append]
    refine (or_iff_right ?_).symm
    rintro ⟨j, hj, -, hlt⟩
    have := hb j hj
    order

section
variable [Inhabited T]

theorem emptyInterval_empty :
    (emptyInterval : QuicInterval T).empty = true := by simp [emptyInterval, QuicInterval.empty]

omit [LinearOrder T] in
theorem spanningInterval_eq (hs : s ≠ []) : ∃ first ∈ s.head?, ∃ last ∈ s.getLast?, s.spanningInterval =
    ⟨first.min, last.max⟩ := by
  obtain ⟨first, tl, rfl⟩ := exists_cons_of_ne_nil hs
  have hlast := getLast?_eq_some_getLast hs
  refine ⟨first, rfl, _, hlast, ?_⟩
  rw [spanningInterval, hlast]
  rfl

theorem spanningInterval_spec (h : Canonical s) (hs : s ≠ []) : s.spanningInterval.min < s.spanningInterval.max ∧
    (∀ p ∈ points s, s.spanningInterval.min ≤ p ∧ p < s.spanningInterval.max) ∧
    ∀ j ∈ s, j.max ≤ s.spanningInterval.max := by
  obtain ⟨first, hfirst, last, hlast, hspan⟩ := spanningInterval_eq hs
  obtain ⟨init, rfl⟩ := getLast?_eq_some_iff.1 hlast
  obtain ⟨hci, hcl, hil⟩ := canonical_append.1 h
  have hle := hcl.nonempty last (mem_singleton_self last)
  have hmax : ∀ j ∈ init ++ [last], j.max ≤ last.max := by
    intro j hj
    rcases mem_append.1 hj with hj | hj
    · have := hil j hj last (mem_singleton_self last)
      order
    · rw [mem_singleton.1 hj]
  have hin : ∀ p ∈ points (init ++ [last]), first.min ≤ p ∧ p < last.max := by
    intro p hp
    constructor
    · obtain ⟨tl, htl⟩ := head?_eq_some_iff.1 hfirst
      rw [htl] at h hp
      exact le_of_mem_points h hp
    · obtain ⟨j, hj, -, hlt⟩ := hp
      exact lt_of_lt_of_le hlt (hmax j hj)
  rw [hspan]
  exact ⟨(hin _ (min_mem_points h (mem_of_mem_head? hfirst))).2, hin, hmax⟩

omit [LinearOrder T] in
theorem spanningInterval_nil : spanningInterval ([] : QuicIntervalSet T) = emptyInterval := rfl

theorem not_intersects_emptyInterval (j : QuicInterval T) : (emptyInterval : QuicInterval T).intersects j = false ∧
    j.intersects emptyInterval = false := by
  simp [QuicInterval.intersects, emptyInterval_empty]

theorem intersection_spec (hs : Canonical s) (ht : Canonical t) :
    Canonical (s.intersection t) ∧ points (s.intersection t) = points s ∩ points t := by
  unfold intersection
  split
  next hspan =>
    have hsne : s ≠ [] := by
      rintro rfl
      rw [spanningInterval_nil, (not_intersects_emptyInterval _).1] at hspan
      exact Bool.false_ne_true hspan
    have htne : t ≠ [] := by
      rintro rfl
      rw [spanningInterval_nil, (not_intersects_emptyInterval _).2] at hspan
      exact Bool.false_ne_true hspan
    obtain ⟨first, tl, rfl⟩ := exists_cons_of_ne_nil htne
    obtain ⟨hsuf, hne, hsame⟩ := findIntersectionCandidate_spec hs first
    obtain ⟨m, ms, hm⟩ := exists_cons_of_ne_nil (hne hsne)
    rw [head?_cons]
    dsimp only
    rw [hm] at hsuf hsame ⊢
    rw [head?_cons]
    have hcm := hs.suffix hsuf
    obtain ⟨hsuf', hne', hsame'⟩ := findIntersectionCandidate_spec ht m
    obtain ⟨hcan, hp⟩ := @intersectionLoop_spec _ _ _ [] _ _ (Nat.lt_succ_self _) hcm (ht.suffix hsuf') (hne' htne)
    refine ⟨hcan, ?_⟩
    ext p
    rw [hp p, points_nil, mem_inter_iff]
    constructor
    · rintro (h | ⟨h1, h2⟩)
      · cases h
      · exact ⟨points_suffix hsuf h1, points_suffix hsuf' h2⟩
    · rintro ⟨h1, h2⟩
      have h3 := (hsame p (le_of_mem_points ht h2)).2 h1
      exact .inr ⟨h3, (hsame' p (le_of_mem_points hcm h3)).2 h2⟩
  next hspan =>
    refine ⟨canonical_nil, ?_⟩
    rw [points_nil]
    symm
    rw [eq_empty_iff_forall_notMem]
    rintro p ⟨h1, h2⟩
    obtain ⟨hse, hsp, -⟩ := spanningInterval_spec hs (ne_nil_of_mem_points h1)
    obtain ⟨hte, htp, -⟩ := spanningInterval_spec ht (ne_nil_of_mem_points h2)
    have h3 := hsp p h1
    have h4 := htp p h2
    rw [QuicInterval.intersects_iff hse hte] at hspan
    grind

/-! ## Difference -/

/-- A bound on the turns before `theirs` is used up: two for each interval, one if the first is already behind. -/
def differenceWork (my : QuicInterval T) : QuicIntervalSet T → Nat
  | [] => 0
  | t :: ts => 2 * ts.length + if t.max ≤ my.min then 1 else 2

omit [Inhabited T] in
theorem differenceWork_le (my : QuicInterval T) (theirs : QuicIntervalSet T) :
    differenceWork my theirs ≤ 2 * theirs.length := by
  cases theirs with
  | nil => exact le_refl 0
  | cons t ts =>
    rw [differenceWork, length_cons]
    split <;> omega

/-- What one turn does; `rest` are my intervals after this one. -/
structure DifferenceTurn (my : QuicInterval T) (rest theirs result : QuicIntervalSet T)
    (r : QuicInterval T × QuicIntervalSet T × QuicIntervalSet T) : Prop where
  canonicalTheirs : Canonical r.2.1
  canonicalResult : Canonical r.2.2
  end_le : ∀ j ∈ r.2.2, j.max ≤ my.max
  before : r.1.empty = false → r.1.max = my.max ∧ ∀ j ∈ r.2.2, j.max < r.1.min
  mem_iff : ∀ p, p ∈ points r.2.2 ∨ ((r.1.min ≤ p ∧ p < r.1.max) ∨ p ∈ points rest) ∧ p ∉ points r.2.1 ↔
    p ∈ points result ∨ ((my.min ≤ p ∧ p < my.max) ∨ p ∈ points rest) ∧ p ∉ points theirs
  done : r.1.empty = true → 2 * r.2.1.length ≤ differenceWork my theirs
  progress : r.1.empty = false → differenceWork r.1 r.2.1 < differenceWork my theirs

omit [Inhabited T] in
theorem insert_last {s : QuicIntervalSet T} {x : QuicInterval T} (hs : ∀ j ∈ s, j.min < x.min) :
    insert x s = s ++ [x] := by
  have h := insert_append (t := []) hs (by simp)
  rwa [append_nil] at h

variable {my : QuicInterval T} {rest result : QuicIntervalSet T}

omit [Inhabited T] in
theorem insert_result {x : QuicInterval T} (hr : Canonical result) (hx : x.min < x.max)
    (hb : ∀ j ∈ result, j.max < x.min) :
    Canonical (insert x result) ∧ ∀ p, p ∈ points (insert x result) ↔ p ∈ points result ∨ (x.min ≤ p ∧ p < x.max) := by
  rw [insert_last fun j hj => lt_trans (hr.nonempty j hj) (hb j hj)]
  refine ⟨canonical_append.2 ⟨hr, canonical_singleton hx, ?_⟩, fun p => ?_⟩
  · intro j hj k hk
    rw [mem_singleton.1 hk]
    exact hb j hj
  · rw [mem_points_append, mem_points_singleton]

omit [Inhabited T] in
theorem mem_insert_result {x j : QuicInterval T} (hr : Canonical result) (hb : ∀ j ∈ result, j.max < x.min)
    (hj : j ∈ insert x result) : j = x ∨ j ∈ result := by
  rw [insert_last fun j hj => lt_trans (hr.nonempty j hj) (hb j hj)] at hj
  rcases mem_append.1 hj with hj | hj
  · exact .inr hj
  · exact .inl (mem_singleton.1 hj)

section
variable (hmy : Canonical (my :: rest)) (ht : Canonical theirs) (hr : Canonical result)
  (hb : ∀ j ∈ result, j.max < my.min)
include hmy ht hr hb

theorem differenceTurn_keep (hout : ∀ p ∈ points theirs, my.max ≤ p)
    (hw : differenceWork my theirs = 2 * theirs.length) :
    DifferenceTurn my rest theirs result (emptyInterval, theirs, insert my result) := by
  obtain ⟨hme, hma, hrest⟩ := canonical_cons.1 hmy
  obtain ⟨hc, hp⟩ := insert_result hr hme hb
  refine ⟨ht, hc, ?_, fun h => ?_, fun p => ?_, fun _ => hw.ge, fun h => ?_⟩
  · intro j hj
    rcases mem_insert_result hr hb hj with rfl | hj
    · exact le_refl _
    · have := hb j hj
      order
  · cases emptyInterval_empty.symm.trans h
  · have h1 := hout p
    rw [hp p]
    simp only [emptyInterval]
    grind
  · cases emptyInterval_empty.symm.trans h

theorem differenceTurn : DifferenceTurn my rest theirs result (differenceStep my theirs result) := by
  obtain ⟨hme, hma, hrest⟩ := canonical_cons.1 hmy
  have hrp : ∀ p ∈ points rest, my.max < p := fun p => lt_of_mem_points hma
  cases theirs with
  | nil => exact differenceTurn_keep hmy ht hr hb (by simp) rfl
  | cons t ts =>
    obtain ⟨hte, hta, hts⟩ := canonical_cons.1 ht
    have htp : ∀ p ∈ points (t :: ts), t.min ≤ p := fun p => le_of_mem_points ht
    have htsp : ∀ p ∈ points ts, t.max < p := fun p => lt_of_mem_points hta
    have hend : ∀ j ∈ result, j.max ≤ my.max := by
      intro j hj
      have := hb j hj
      order
    rw [differenceStep]
    split
    next hbefore =>
      refine differenceTurn_keep hmy ht hr hb (fun p hp => le_trans hbefore (htp p hp)) ?_
      rw [differenceWork, if_neg (not_le_of_gt (by order)), length_cons]
      omega
    next =>
    split
    next hafter =>
      refine ⟨hts, hr, hend, fun _ => ⟨rfl, hb⟩, fun p => ?_, fun h => ?_, fun _ => ?_⟩
      · rw [mem_points_cons]
        have := hrp p
        grind
      · cases (QuicInterval.empty_eq_false.2 hme).symm.trans h
      · have := differenceWork_le my ts
        rw [differenceWork, if_pos hafter]
        dsimp only
        omega
    next hafter =>
    have hwork : differenceWork my (t :: ts) = 2 * (t :: ts).length := by
      rw [differenceWork, if_neg hafter, length_cons]
      omega
    have hwork' : differenceWork { my with min := t.max } (t :: ts) < differenceWork my (t :: ts) := by
      rw [hwork, differenceWork, if_pos (le_refl _), length_cons]
      omega
    by_cases hpre : my.min < t.min
    · -- a prefix is kept
      rw [if_pos hpre]
      have hb' : ∀ j ∈ result, j.max < (⟨my.min, t.min⟩ : QuicInterval T).min := hb
      obtain ⟨hc, hp⟩ := insert_result (x := ⟨my.min, t.min⟩) hr hpre hb'
      refine ⟨ht, hc, ?_, fun _ => ⟨rfl, ?_⟩, fun p => ?_, fun _ => hwork.ge, fun _ => hwork'⟩
      · intro j hj
        rcases mem_insert_result hr hb' hj with rfl | hj
        · order
        · exact hend j hj
      · intro j hj
        rcases mem_insert_result hr hb' hj with rfl | hj
        · exact hte
        · have := hb j hj
          order
      · rw [hp p, mem_points_cons]
        have h1 := hrp p
        have h2 := htsp p
        grind
    · rw [if_neg hpre]
      refine ⟨ht, hr, hend, fun _ => ⟨rfl, ?_⟩, fun p => ?_, fun _ => hwork.ge, fun _ => hwork'⟩
      · intro j hj
        have := hb j hj
        order
      · rw [mem_points_cons]
        have h1 := hrp p
        grind

end

theorem differenceLoop_spec : ∀ {fuel : Nat} {my : QuicInterval T} {rest theirs result : QuicIntervalSet T},
    rest.length + 1 + differenceWork my theirs ≤ fuel → Canonical (my :: rest) → Canonical theirs → Canonical result →
    (∀ j ∈ result, j.max < my.min) → Canonical (differenceLoop fuel my rest theirs result) ∧
      ∀ p, p ∈ points (differenceLoop fuel my rest theirs result) ↔
        p ∈ points result ∨ ((my.min ≤ p ∧ p < my.max) ∨ p ∈ points rest) ∧ p ∉ points theirs
  | 0, _, _, _, _, hf, _, _, _, _ => by omega
  | fuel + 1, my, rest, theirs, result, hf, hmy, ht, hr, hb => by
    have hturn := differenceTurn hmy ht hr hb
    obtain ⟨hme, hma, hrest⟩ := canonical_cons.1 hmy
    unfold differenceLoop
    dsimp only
    generalize differenceStep my theirs result = r at hturn
    by_cases he : r.1.empty = true
    · have hno : ∀ p, ¬ (r.1.min ≤ p ∧ p < r.1.max) := by
        intro p hp
        have hle : r.1.max ≤ r.1.min := by simpa [QuicInterval.empty] using he
        have h1 := hp.1
        have h2 := hp.2
        order
      rw [if_pos he]
      cases rest with
      | nil =>
        refine ⟨hturn.canonicalResult, fun p => ?_⟩
        rw [← hturn.mem_iff p]
        have := hno p
        simp [this]
      | cons m rest =>
        have hdone := hturn.done he
        have hw := differenceWork_le m r.2.1
        rw [length_cons] at hf
        have hf' : rest.length + 1 + differenceWork m r.2.1 ≤ fuel := by omega
        obtain ⟨hc, hp⟩ := differenceLoop_spec hf' hrest hturn.canonicalTheirs hturn.canonicalResult
          (fun j hj => lt_of_le_of_lt (hturn.end_le j hj) (hma m mem_cons_self))
        refine ⟨hc, fun p => ?_⟩
        rw [← hturn.mem_iff p, hp p, mem_points_cons]
        have := hno p
        tauto
    · rw [if_neg he]
      rw [Bool.not_eq_true] at he
      have hprog := hturn.progress he
      obtain ⟨hmax, hbefore⟩ := hturn.before he
      have hcan : Canonical (r.1 :: rest) := canonical_cons.2 ⟨QuicInterval.empty_eq_false.1 he, by rwa [hmax], hrest⟩
      have hf' : rest.length + 1 + differenceWork r.1 r.2.1 ≤ fuel := by omega
      obtain ⟨hc, hp⟩ := differenceLoop_spec hf' hcan hturn.canonicalTheirs hturn.canonicalResult hbefore
      refine ⟨hc, fun p => ?_⟩
      rw [hp p, hturn.mem_iff p]

theorem difference_spec (hs : Canonical s) (ht : Canonical t) :
    Canonical (s.difference t) ∧ points (s.difference t) = points s \ points t := by
  cases s with
  | nil => exact ⟨canonical_nil, by simp [difference]⟩
  | cons m rest =>
    have hw := differenceWork_le m t
    have hf : rest.length + 1 + differenceWork m t ≤ rest.length + 1 + 2 * t.length := by omega
    obtain ⟨hc, hp⟩ := differenceLoop_spec hf hs ht canonical_nil (by simp)
    refine ⟨hc, ?_⟩
    ext p
    rw [mem_sdiff, mem_points_cons]
    refine (hp p).trans ?_
    simp

theorem differenceInterval_spec (hs : Canonical s) (i : QuicInterval T) :
    Canonical (s.differenceInterval i) ∧ points (s.differenceInterval i) = points s \ Set.Ico i.min i.max := by
  unfold differenceInterval
  split
  · obtain ⟨hc, hp⟩ := difference_spec hs (canonical_add canonical_nil i)
    refine ⟨hc, ?_⟩
    rw [hp, points_add canonical_nil, points_nil, empty_union]
  next hspan =>
    refine ⟨hs, (sdiff_eq_left.2 ?_).symm⟩
    rw [Set.disjoint_left]
    intro p hp hpi
    obtain ⟨hse, hsp, -⟩ := spanningInterval_spec hs (ne_nil_of_mem_points hp)
    have h1 := hsp p hp
    rw [mem_Ico] at hpi
    rw [QuicInterval.intersects_iff hse (by order)] at hspan
    grind

theorem complement_spec (hs : Canonical s) (min max : T) :
    Canonical (s.complement min max) ∧ points (s.complement min max) = Set.Ico min max \ points s := by
  obtain ⟨hc, hp⟩ := difference_spec (canonical_add canonical_nil ⟨min, max⟩) hs
  refine ⟨hc, ?_⟩
  rw [complement, hp, points_add canonical_nil, points_nil, empty_union]

/-! ## Containment of sets -/

theorem containsSet_iff (hs : Canonical s) (ht : Canonical t) :
    s.containsSet t = true ↔ t ≠ [] ∧ points t ⊆ points s := by
  have hall : (t.all fun i => s.containsInterval i) = true ↔ points t ⊆ points s := by
    rw [all_eq_true]
    constructor
    · rintro h p ⟨i, hi, h1, h2⟩
      exact (containsInterval_iff hs (ht.nonempty i hi)).1 (h i hi) ⟨h1, h2⟩
    · intro h i hi
      rw [containsInterval_iff hs (ht.nonempty i hi)]
      exact fun p hp => h ⟨i, hi, hp.1, hp.2⟩
  rw [containsSet, Bool.and_eq_true, hall]
  apply and_congr_left
  intro hsub
  constructor
  · rintro hspan rfl
    simp [spanningInterval_nil, QuicInterval.containsInterval, emptyInterval_empty] at hspan
  · intro htne
    obtain ⟨first, hfirst, last, hlast, hspan⟩ := spanningInterval_eq htne
    have hlmem : last ∈ t := mem_of_getLast? hlast
    have hmin := hsub (min_mem_points ht (mem_of_mem_head? hfirst))
    obtain ⟨hse, hsp, hsmax⟩ := spanningInterval_spec hs (ne_nil_of_mem_points hmin)
    rw [QuicInterval.containsInterval_iff hse (spanningInterval_spec ht htne).1, hspan]
    refine ⟨(hsp _ hmin).1, ?_⟩
    obtain ⟨x, hx, -, h2⟩ := (Ico_subset_iff hs (ht.nonempty last hlmem)).1 fun p hp => hsub ⟨last, hlmem, hp.1, hp.2⟩
    exact le_trans h2 (hsmax x hx)

end

end

/-! ## Sequences of operations -/

/-- A call that changes the set. The other set of a call is one that has been built in the same way. -/
inductive Op (T : Type*) [LinearOrder T]
  | add (interval : QuicInterval T)
  | addOptimizedForAppend (interval : QuicInterval T)
  | union (other : {t : QuicIntervalSet T // Canonical t})
  | intersection (other : {t : QuicIntervalSet T // Canonical t})
  | differenceInterval (interval : QuicInterval T)
  | difference (other : {t : QuicIntervalSet T // Canonical t})
  | complement (min max : T)
  | trimLessThan (value : T)
  | popFront

namespace Op

def apply [Inhabited T] (enabled : Bool) (s : QuicIntervalSet T) : Op T → QuicIntervalSet T
  | add i => QuicIntervalSet.add s i
  | addOptimizedForAppend i => QuicIntervalSet.addOptimizedForAppend enabled s i
  | union t => QuicIntervalSet.union s t.1
  | intersection t => QuicIntervalSet.intersection s t.1
  | differenceInterval i => QuicIntervalSet.differenceInterval s i
  | difference t => QuicIntervalSet.difference s t.1
  | complement min max => QuicIntervalSet.complement s min max
  | trimLessThan v => (QuicIntervalSet.trimLessThan v s).1
  | popFront => QuicIntervalSet.popFront s

/-- The operation on sets of points. `PopFront()` leaves the points with a gap below them. -/
def meaning (S : Set T) : Op T → Set T
  | add i => S ∪ Set.Ico i.min i.max
  | addOptimizedForAppend i => S ∪ Set.Ico i.min i.max
  | union t => S ∪ points t.1
  | intersection t => S ∩ points t.1
  | differenceInterval i => S \ Set.Ico i.min i.max
  | difference t => S \ points t.1
  | complement min max => Set.Ico min max \ S
  | trimLessThan v => S ∩ Set.Ici v
  | popFront => {p ∈ S | ∃ q ∉ S, q ≤ p ∧ ∃ r ∈ S, r ≤ q}

theorem apply_spec [Inhabited T] {s : QuicIntervalSet T} (h : Canonical s) (enabled : Bool) (op : Op T) :
    Canonical (op.apply enabled s) ∧ points (op.apply enabled s) = op.meaning (points s) := by
  cases op with
  | add i => exact add_spec h i
  | addOptimizedForAppend i =>
    rw [apply, addOptimizedForAppend_eq h]
    exact add_spec h i
  | union t => exact union_spec h t.1
  | intersection t => exact intersection_spec h t.2
  | differenceInterval i => exact differenceInterval_spec h i
  | difference t => exact difference_spec h t.2
  | complement min max => exact complement_spec h min max
  | trimLessThan v => exact trimLessThan_spec v h
  | popFront => exact ⟨h.tail, points_popFront h⟩

theorem foldl_apply [Inhabited T] (enabled : Bool) : ∀ (ops : List (Op T)) {s : QuicIntervalSet T}, Canonical s →
    Canonical (ops.foldl (apply enabled) s) ∧ points (ops.foldl (apply enabled) s) = ops.foldl meaning (points s)
  | [], _, h => ⟨h, rfl⟩
  | op :: ops, s, h => by
    obtain ⟨hc, hp⟩ := apply_spec h enabled op
    rw [foldl_cons, foldl_cons, ← hp]
    exact foldl_apply enabled ops hc

def run [Inhabited T] (enabled : Bool) (ops : List (Op T)) : QuicIntervalSet T := ops.foldl (apply enabled) []

end Op

/-- **The interval set refines a set of points**, after every sequence of calls and whether or not the
short cut of `AddOptimizedForAppend()` is enabled. -/
theorem refines_set [Inhabited T] (enabled : Bool) (ops : List (Op T)) :
    Canonical (Op.run enabled ops) ∧ points (Op.run enabled ops) = ops.foldl Op.meaning ∅ ∧
      (∀ e i, (Op.run enabled ops).addOptimizedForAppend e i = (Op.run enabled ops).add i) ∧
      (∀ v, (Op.run enabled ops).contains v = true ↔ v ∈ points (Op.run enabled ops)) ∧
      (∀ i : QuicInterval T, i.min < i.max →
        ((Op.run enabled ops).containsInterval i = true ↔ Set.Ico i.min i.max ⊆ points (Op.run enabled ops)) ∧
        ((Op.run enabled ops).isDisjoint i = true ↔ ∀ p ∈ points (Op.run enabled ops), p ∉ Set.Ico i.min i.max) ∧
        (Set.Ico i.min i.max ⊆ points (Op.run enabled ops) →
          (Op.run enabled ops).findInterval i = (Op.run enabled ops).filter fun j => i.min < j.max) ∧
        (¬ Set.Ico i.min i.max ⊆ points (Op.run enabled ops) → (Op.run enabled ops).findInterval i = [])) ∧
      (∀ v, (v ∈ points (Op.run enabled ops) →
          (Op.run enabled ops).find v = (Op.run enabled ops).filter fun j => v < j.max) ∧
        (v ∉ points (Op.run enabled ops) → (Op.run enabled ops).find v = [])) ∧
      (∀ v, (Op.run enabled ops).lowerBound v = (Op.run enabled ops).filter fun j => v < j.max) ∧
      (∀ v, (Op.run enabled ops).upperBound v = (Op.run enabled ops).filter fun j => v < j.min) ∧
      ∀ t, Canonical t →
        ((Op.run enabled ops).intersects t = true ↔ (points (Op.run enabled ops) ∩ points t).Nonempty) ∧
        ((Op.run enabled ops).containsSet t = true ↔ t ≠ [] ∧ points t ⊆ points (Op.run enabled ops)) := by
  obtain ⟨hc, hp⟩ := Op.foldl_apply enabled ops (canonical_nil (T := T))
  rw [points_nil] at hp
  refine ⟨hc, hp, addOptimizedForAppend_eq hc, contains_iff hc, fun i hi => ?_, find_eq hc, lowerBound_eq hc,
    upperBound_eq hc, fun t ht => ⟨intersectsLoop_iff le_rfl hc ht, containsSet_iff hc ht⟩⟩
  exact ⟨containsInterval_iff hc hi, isDisjoint_iff hc i, findInterval_eq hc hi⟩

/-- Whatever calls led there, two sets are the same intervals if they are the same points. -/
theorem same_intervals_iff [Inhabited T] (e f : Bool) (ops calls : List (Op T)) :
    Op.run e ops = Op.run f calls ↔ ops.foldl Op.meaning ∅ = calls.foldl Op.meaning ∅ := by
  obtain ⟨hc, hp⟩ := Op.foldl_apply e ops (canonical_nil (T := T))
  obtain ⟨hc', hp'⟩ := Op.foldl_apply f calls (canonical_nil (T := T))
  rw [← points_nil, ← hp, ← hp']
  exact ⟨congrArg points, hc.ext hc'⟩

end QuicIntervalSet

end Quictun
