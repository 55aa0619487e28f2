import Quictun.SendBuffer

/-!
# The slices of the send buffer

What is in the queue is determined by what was saved and what was acknowledged: the slices saved,
without those at the front that are acknowledged as a whole, and with such slices emptied behind
them. `freeMemSlices` restores that after an acknowledgement, and `writeStreamData` finds any bytes
that are not acknowledged.
-/

namespace Quictun

open QuicIntervalSet List BufferedSliceInlining Option

namespace QuicStreamSendBufferInlining

def Contiguous : Nat → List (Nat × Bytes) → Prop
  | _, [] => True
  | o, sl :: l => sl.1 = o ∧ sl.2 ≠ [] ∧ Contiguous (o + sl.2.length) l

def bytes (l : List (Nat × Bytes)) : Bytes := l.flatMap Prod.snd

def full (acked : QuicIntervalSet Nat) (sl : Nat × Bytes) : Bool :=
  acked.containsInterval ⟨sl.1, sl.1 + sl.2.length⟩

def entry (acked : QuicIntervalSet Nat) (sl : Nat × Bytes) : BufferedSliceInlining :=
  ⟨if full acked sl then .cleared else .of sl.2, sl.1⟩

def Owns (owned : FlatMap Nat Bytes) (acked : QuicIntervalSet Nat) (l : List (Nat × Bytes)) : Prop :=
  ∀ o d, owned.lookup o = some d ↔ (o, d) ∈ l ∧ kSendBufferMaxInlinedSize < d.length ∧ full acked (o, d) = false

section
variable {o p : Nat} {l : List (Nat × Bytes)} {sl : Nat × Bytes} {acked acked' : QuicIntervalSet Nat}

theorem contiguous_append {l' : List (Nat × Bytes)} : ∀ {l : List (Nat × Bytes)} {o : Nat},
    Contiguous o (l ++ l') ↔ Contiguous o l ∧ Contiguous (o + (bytes l).length) l'
  | [], o => by simp [Contiguous, bytes]
  | sl :: l, o => by
    simp only [cons_append, Contiguous, contiguous_append, bytes, flatMap_cons, length_append,
      add_assoc, and_assoc]

theorem Contiguous.bounds : ∀ {l : List (Nat × Bytes)} {o : Nat}, Contiguous o l → ∀ sl ∈ l,
    o ≤ sl.1 ∧ sl.2 ≠ [] ∧ sl.1 + sl.2.length ≤ o + (bytes l).length
  | x :: l, o, h, sl, hm => by
    obtain ⟨hx, hne, hl⟩ := h
    simp only [bytes, flatMap_cons, length_append]
    rcases mem_cons.1 hm with rfl | hm
    · exact ⟨by omega, hne, by omega⟩
    · have := Contiguous.bounds hl sl hm
      simp only [bytes] at this
      exact ⟨by omega, this.2.1, by omega⟩

theorem Contiguous.pairwise : ∀ {l : List (Nat × Bytes)} {o : Nat}, Contiguous o l →
    l.Pairwise fun x y => x.1 + x.2.length ≤ y.1
  | [], _, _ => .nil
  | x :: l, o, h => by
    obtain ⟨hx, -, hl⟩ := h
    refine pairwise_cons.2 ⟨fun y hy => ?_, hl.pairwise⟩
    have := hl.bounds y hy
    omega

theorem Contiguous.suffix {l' : List (Nat × Bytes)} (h : Contiguous o l) (hs : l' <:+ l) :
    ∃ b, Contiguous b l' ∧ b + (bytes l').length = o + (bytes l).length := by
  obtain ⟨a, rfl⟩ := hs
  refine ⟨_, (contiguous_append.1 h).2, ?_⟩
  simp only [bytes, flatMap_append, length_append]
  omega

theorem Contiguous.exists_mem : ∀ {l : List (Nat × Bytes)} {o : Nat}, Contiguous o l → o ≤ p →
    p < o + (bytes l).length →
    ∃ sl ∈ l, sl.1 ≤ p ∧ p < sl.1 + sl.2.length
  | [], o, _, h1, h2 => by
    simp [bytes] at h2
    omega
  | x :: l, o, h, h1, h2 => by
    obtain ⟨hx, -, hl⟩ := h
    simp only [bytes, flatMap_cons, length_append] at h2
    by_cases hp : p < o + x.2.length
    · exact ⟨x, mem_cons_self, by omega, by omega⟩
    · obtain ⟨sl, hsl, hr⟩ := hl.exists_mem (by omega) (by simp only [bytes]; omega)
      exact ⟨sl, mem_cons_of_mem x hsl, hr⟩

theorem Contiguous.eq_of_fst : ∀ {l : List (Nat × Bytes)} {o : Nat}, Contiguous o l → ∀ {x y : Nat × Bytes}, x ∈ l →
    y ∈ l → x.1 = y.1 → x = y
  | z :: l, o, h, x, y, hx, hy, he => by
    obtain ⟨hz, hne, hl⟩ := h
    have hpos := length_pos_iff.2 hne
    rcases mem_cons.1 hx with hx' | hx'
    · rcases mem_cons.1 hy with hy' | hy'
      · rw [hx', hy']
      · have := hl.bounds y hy'
        rw [hx'] at he
        omega
    · rcases mem_cons.1 hy with hy' | hy'
      · have := hl.bounds x hx'
        rw [hy'] at he
        omega
      · exact hl.eq_of_fst hx' hy' he

/-! ## Entries -/

theorem size_entry_of_full (h : full acked sl = true) : (entry acked sl).slice.size = 0 := by
  simp [entry, h, InlinedStringView.cleared, InlinedStringView.size]

theorem size_of (d : Bytes) : (InlinedStringView.of d).size = d.length := by
  unfold InlinedStringView.of
  split <;> rfl

theorem size_entry (h : full acked sl = false) : (entry acked sl).slice.size = sl.2.length := by
  simp [entry, h, size_of]

theorem size_entry_eq_zero (hne : sl.2 ≠ []) : (entry acked sl).slice.size = 0 ↔ full acked sl = true := by
  refine ⟨fun h => ?_, size_entry_of_full⟩
  by_contra hf
  rw [size_entry (Bool.eq_false_iff.2 hf)] at h
  exact hne (length_eq_zero_iff.1 h)

theorem size_entry_le : (entry acked sl).slice.size ≤ sl.2.length := by
  cases h : full acked sl with
  | true =>
    rw [size_entry_of_full h]
    exact Nat.zero_le _
  | false => rw [size_entry h]

theorem ordered_entries (h : Contiguous o l) :
    QuicIntervalDeque.Ordered BufferedSliceInlining.interval (l.map (entry acked)) where
  proper t _ := Nat.le_add_right _ _
  ascending := by
    rw [pairwise_map]
    refine h.pairwise.imp fun {x y} hxy => ?_
    exact le_trans (Nat.add_le_add_left size_entry_le x.1) hxy

theorem full_iff (ha : acked.Canonical) (hne : sl.2 ≠ []) :
    full acked sl = true ↔ Set.Ico sl.1 (sl.1 + sl.2.length) ⊆ points acked :=
  containsInterval_iff ha (Nat.lt_add_of_pos_right (length_pos_iff.2 hne))

theorem full_eq (ha : acked.Canonical) (ha' : acked'.Canonical) (hne : sl.2 ≠ [])
    (heq : ∀ p, sl.1 ≤ p → p < sl.1 + sl.2.length → (p ∈ points acked' ↔ p ∈ points acked)) :
    full acked' sl = full acked sl := by
  rw [Bool.eq_iff_iff, full_iff ha' hne, full_iff ha hne]
  constructor
  · exact fun h p hp => (heq p hp.1 hp.2).1 (h hp)
  · exact fun h p hp => (heq p hp.1 hp.2).2 (h hp)

theorem entry_eq (h : full acked' sl = full acked sl) : entry acked' sl = entry acked sl := by
  rw [entry, entry, h]

theorem mem_dropWhile_of_not {α : Type*} {q : α → Bool} : ∀ {l : List α} {x : α}, x ∈ l → q x = false →
    x ∈ l.dropWhile q
  | y :: l, x, hx, hq => by
    rw [dropWhile_cons]
    split
    next hy =>
      rcases mem_cons.1 hx with rfl | hx
      · cases hq.symm.trans hy
      · exact mem_dropWhile_of_not hx hq
    · exact hx

theorem dropWhile_dropWhile {α : Type*} {q r : α → Bool} : ∀ {l : List α}, (∀ x ∈ l, q x = true → r x = true) →
    (l.dropWhile q).dropWhile r = l.dropWhile r
  | [], _ => rfl
  | x :: l, h => by
    by_cases hq : q x = true
    · rw [dropWhile_cons_of_pos hq, dropWhile_cons_of_pos (h x mem_cons_self hq)]
      exact dropWhile_dropWhile fun y hy => h y (mem_cons_of_mem x hy)
    · rw [dropWhile_cons_of_neg hq]

theorem dropWhile_congr {α : Type*} {q r : α → Bool} :
    ∀ {l : List α}, (∀ x ∈ l, q x = r x) → l.dropWhile q = l.dropWhile r
  | [], _ => rfl
  | x :: l, h => by
    rw [dropWhile_cons, dropWhile_cons, h x mem_cons_self,
      dropWhile_congr fun y hy => h y (mem_cons_of_mem x hy)]

/-! ## Freeing -/

/-- The acknowledged bytes have grown from `acked` to `acked'`, by bytes from `start` to `stop`. -/
structure Grows (acked acked' : QuicIntervalSet Nat) (start stop : Nat) : Prop where
  canonical : acked.Canonical
  canonical' : acked'.Canonical
  sub : points acked ⊆ points acked'
  new : ∀ p ∈ points acked', p ∉ points acked → start ≤ p ∧ p < stop

section
variable {start stop : Nat} (hg : Grows acked acked' start stop)
include hg

theorem Grows.mono (hne : sl.2 ≠ []) (h : full acked sl = true) : full acked' sl = true :=
  (full_iff hg.canonical' hne).2 (((full_iff hg.canonical hne).1 h).trans hg.sub)

theorem Grows.entry_full (hne : sl.2 ≠ []) (h : full acked sl = true) : entry acked' sl = entry acked sl :=
  entry_eq ((hg.mono hne h).trans h.symm)

theorem Grows.entry_apart (hne : sl.2 ≠ []) (h : stop ≤ sl.1 ∨ sl.1 + sl.2.length ≤ start) :
    entry acked' sl = entry acked sl := by
  refine entry_eq (full_eq hg.canonical hg.canonical' hne fun p h1 h2 => ⟨fun hp => ?_, fun hp => hg.sub hp⟩)
  by_contra hn
  have := hg.new p hp hn
  omega

theorem Grows.entries_beyond {b : Nat} (h : Contiguous b l) (hst : stop ≤ b) :
    l.map (entry acked') = l.map (entry acked) := by
  apply map_congr_left
  intro sl hsl
  have hb := h.bounds sl hsl
  exact hg.entry_apart hb.2.1 (.inl (by omega))

end

def Released (acked acked' : QuicIntervalSet Nat) (l : List (Nat × Bytes)) (k : Nat) : Prop :=
  ∃ sl ∈ l, sl.1 = k ∧ kSendBufferMaxInlinedSize < sl.2.length ∧ full acked sl = false ∧ full acked' sl = true

theorem released_cons {k : Nat} : Released acked acked' (sl :: l) k ↔
    (sl.1 = k ∧ kSendBufferMaxInlinedSize < sl.2.length ∧ full acked sl = false ∧ full acked' sl = true) ∨
      Released acked acked' l k := by
  simp [Released]

theorem isInlined_of (d : Bytes) :
    (InlinedStringView.of d).isInlined = decide (d.length ≤ kSendBufferMaxInlinedSize) := by
  unfold InlinedStringView.of
  split <;> next h => simp [InlinedStringView.isInlined, h]

theorem absurd_full_of_entry_eq (hne : sl.2 ≠ []) (he : entry acked' sl = entry acked sl) (h : full acked sl = false)
    (h' : full acked' sl = true) : False := by
  have h0 := size_entry_of_full h'
  rw [he, size_entry h] at h0
  exact hne (length_eq_zero_iff.1 h0)

section
variable {start stop : Nat} (hg : Grows acked acked' start stop)
include hg

theorem not_released_beyond {l : List (Nat × Bytes)} {b : Nat} (h : Contiguous b l) (hst : stop ≤ b) (k : Nat) :
    ¬ Released acked acked' l k := by
  rintro ⟨x, hx, -, -, h1, h2⟩
  have hbx := h.bounds x hx
  have he := hg.entry_apart hbx.2.1 (.inl (by omega))
  exact absurd_full_of_entry_eq hbx.2.1 he h1 h2

theorem freeSlices_spec : ∀ {l : List (Nat × Bytes)} {b : Nat}, Contiguous b l → ∀ owned : FlatMap Nat Bytes,
    (freeSlices acked' stop (l.map (entry acked)) owned).1 = l.map (entry acked') ∧
      ∀ k, (Released acked acked' l k → (freeSlices acked' stop (l.map (entry acked)) owned).2.1.lookup k = none) ∧
        (¬ Released acked acked' l k →
          (freeSlices acked' stop (l.map (entry acked)) owned).2.1.lookup k = owned.lookup k)
  | [], _, _, owned => by simp [freeSlices, Released]
  | sl :: l, b, h, owned => by
    have hcon := h
    obtain ⟨hb, hne, hl⟩ := h
    rw [map_cons, map_cons, freeSlices]
    by_cases hst : stop ≤ sl.1
    · -- Behind the acknowledgement nothing changes.
      rw [if_pos (show stop ≤ (entry acked sl).offset from hst)]
      have hall := hg.entries_beyond hcon (hb ▸ hst)
      rw [map_cons, map_cons] at hall
      exact ⟨hall.symm, fun k => ⟨fun hr => absurd hr (not_released_beyond hg hcon (hb ▸ hst) k), fun _ => rfl⟩⟩
    rw [if_neg (show ¬ stop ≤ (entry acked sl).offset from hst)]
    cases hf : full acked sl with
    | true =>
      have hf' := hg.mono hne hf
      obtain ⟨ih₁, ih₂⟩ := freeSlices_spec hl owned
      rw [if_neg (fun hc => hc.1 (size_entry_of_full hf))]
      dsimp only
      refine ⟨?_, fun k => ?_⟩
      · rw [ih₁, entry_eq (hf'.trans hf.symm)]
      · rw [released_cons, hf]
        simpa using ih₂ k
    | false =>
      have hsize := size_entry hf
      have hpos : (entry acked sl).slice.size ≠ 0 := by
        rw [hsize]
        exact fun h0 => hne (length_eq_zero_iff.1 h0)
      have hint : acked'.containsInterval (entry acked sl).interval = full acked' sl := by
        rw [interval, hsize]
        rfl
      cases hf' : full acked' sl with
      | false =>
        obtain ⟨ih₁, ih₂⟩ := freeSlices_spec hl owned
        rw [if_neg (fun hc => by cases hf'.symm.trans (hint.symm.trans hc.2))]
        dsimp only
        refine ⟨?_, fun k => ?_⟩
        · rw [ih₁, entry_eq (hf'.trans hf.symm)]
        · rw [released_cons, hf']
          simpa using ih₂ k
      | true =>
        rw [if_pos ⟨hpos, hint.trans hf'⟩]
        have hin : (entry acked sl).slice.isInlined = decide (sl.2.length ≤ kSendBufferMaxInlinedSize) := by
          rw [entry, hf]
          exact isInlined_of sl.2
        obtain ⟨ih₁, ih₂⟩ := freeSlices_spec hl
          (if (entry acked sl).slice.isInlined then owned else owned.erase (entry acked sl).offset)
        dsimp only
        refine ⟨?_, fun k => ?_⟩
        · rw [ih₁]
          simp [entry, hf', hf]
        · rw [released_cons, hf, hf']
          simp only [and_true]
          by_cases hr : Released acked acked' l k
          · exact ⟨fun _ => (ih₂ k).1 hr, fun hn => absurd (.inr hr) hn⟩
          rw [(ih₂ k).2 hr, hin]
          by_cases hlen : sl.2.length ≤ kSendBufferMaxInlinedSize
          · rw [if_pos (decide_eq_true hlen)]
            refine ⟨fun hx => ?_, fun _ => rfl⟩
            rcases hx with hx | hx
            · omega
            · exact absurd hx hr
          · rw [if_neg (by simpa using hlen), FlatMap.lookup_erase_eq]
            refine ⟨fun hx => if_pos ?_, fun hx => if_neg ?_⟩
            · rcases hx with hx | hx
              · exact hx.1.symm
              · exact absurd hx hr
            · exact fun hk => hx (.inl ⟨hk.symm, Nat.lt_of_not_le hlen⟩)

theorem owns_freeSlices {owned : FlatMap Nat Bytes} {a : List (Nat × Bytes)} {b : Nat} (hl : Contiguous b (a ++ l))
    (h : Owns owned acked (a ++ l)) (hlo : ∀ x ∈ a, entry acked' x = entry acked x) :
    Owns (freeSlices acked' stop (l.map (entry acked)) owned).2.1 acked' (a ++ l) := by
  intro k d
  have hc := hl.suffix (suffix_append a l)
  obtain ⟨c, hc, -⟩ := hc
  obtain ⟨hrel, hkeep⟩ := (freeSlices_spec hg hc owned).2 k
  have hfull : ∀ x ∈ a ++ l, full acked x = false → full acked' x = true → x ∈ l := by
    intro x hx h1 h2
    rcases mem_append.1 hx with hxa | hxl
    · exact (absurd_full_of_entry_eq (hl.bounds x hx).2.1 (hlo x hxa) h1 h2).elim
    · exact hxl
  by_cases hr : Released acked acked' l k
  · rw [hrel hr]
    refine ⟨nofun, fun hx => ?_⟩
    obtain ⟨hm, -, hf⟩ := hx
    obtain ⟨x, hx, hxk, -, -, hxf⟩ := hr
    have := hl.eq_of_fst (mem_append_right a hx) hm hxk
    rw [this] at hxf
    cases hxf.symm.trans hf
  · rw [hkeep hr, h k d]
    refine and_congr_right fun hm => and_congr_right fun hd => ?_
    constructor
    · intro hf
      rw [Bool.eq_false_iff]
      intro hf'
      exact hr ⟨(k, d), hfull _ hm hf hf', rfl, hd, hf, hf'⟩
    · intro hf
      rw [Bool.eq_false_iff] at hf ⊢
      exact fun h0 => hf (hg.mono (hl.bounds _ hm).2.1 h0)

end

end

/-! ## The queue -/

section
variable {d : QuicIntervalDeque BufferedSliceInlining}

theorem foldl_increment : ∀ (is : List Nat) {d : QuicIntervalDeque BufferedSliceInlining}, d.Valid →
    (is.foldl (fun d i => d.increment i) d).container = d.container ∧ (is.foldl (fun d i => d.increment i) d).Valid
  | [], d, h => ⟨rfl, h⟩
  | i :: is, d, h => by
    obtain ⟨h1, h2⟩ := foldl_increment is (h.increment i)
    exact ⟨h1.trans (d.container_increment i), h2⟩

theorem popEmpty_spec : ∀ {fuel : Nat} {d : QuicIntervalDeque BufferedSliceInlining}, d.Valid → d.size ≤ fuel →
    (popEmpty fuel d).container = d.container.dropWhile (fun t => t.slice.size = 0) ∧ (popEmpty fuel d).Valid
  | 0, d, h, hf => by
    have h0 : d.container = [] := length_eq_zero_iff.1 (Nat.le_zero.1 hf)
    simp only [popEmpty, h0, dropWhile_nil, true_and]
    exact h
  | fuel + 1, d, h, hf => by
    rw [popEmpty]
    cases hd : d.container with
    | nil =>
      rw [head?_nil, Option.any_none, if_neg Bool.false_ne_true, hd]
      exact ⟨rfl, h⟩
    | cons t rest =>
      rw [head?_cons, Option.any_some, dropWhile_cons]
      by_cases ht : decide (t.slice.size = 0) = true
      · rw [if_pos ht, if_pos ht]
        have hp : d.popFront.container = rest := by
          rw [QuicIntervalDeque.popFront, hd]
        have hs : d.popFront.size ≤ fuel := by
          rw [QuicIntervalDeque.size, hp]
          rw [QuicIntervalDeque.size, hd, length_cons] at hf
          omega
        rw [← hp]
        exact popEmpty_spec h.popFront hs
      · rw [if_neg ht, if_neg ht]
        exact ⟨hd, h⟩

end

/-! ## An acknowledgement -/

section
variable {s : QuicStreamSendBufferInlining} {acked : QuicIntervalSet Nat} {start stop : Nat}

/-- Before `FreeMemSlices()`: the set of acknowledged bytes has grown and the queue has not followed. -/
structure Freeing (s : QuicStreamSendBufferInlining) (acked : QuicIntervalSet Nat) (start stop : Nat) : Prop
    extends Grows acked s.bytesAcked start stop where
  start_new : start ∉ points acked
  start_lt : start < (bytes s.slices).length
  contiguous : Contiguous 0 s.slices
  container : s.intervalDeque.container = (s.slices.dropWhile (full acked)).map (entry acked)
  valid : s.intervalDeque.Valid
  owns : Owns s.ownedSlices acked s.slices

section
variable (h : Freeing s acked start stop)
include h

theorem Freeing.exists_index : ∃ (i : Nat) (sl : Nat × Bytes), (s.slices.dropWhile (full acked))[i]? = some sl ∧
    sl.1 ≤ start ∧ start < sl.1 + sl.2.length ∧ full acked sl = false := by
  obtain ⟨sl, hsl, h1, h2⟩ := h.contiguous.exists_mem (Nat.zero_le start) (by simpa using h.start_lt)
  have hf : full acked sl = false := by
    rw [Bool.eq_false_iff]
    intro hf
    exact h.start_new ((full_iff h.canonical (h.contiguous.bounds sl hsl).2.1).1 hf ⟨h1, h2⟩)
  obtain ⟨i, hi⟩ := mem_iff_getElem?.1 (mem_dropWhile_of_not hsl hf)
  exact ⟨i, sl, hi, h1, h2, hf⟩

theorem Freeing.getElem? (i : Nat) :
    s.intervalDeque.container[i]? = (s.slices.dropWhile (full acked))[i]?.map (entry acked) := by
  rw [h.container, getElem?_map]

theorem Freeing.partitioned : BinarySearch.Partitioned
    (fun i => s.intervalDeque.container[i]?.all fun t => t.endsBefore start) 0 (0 + s.intervalDeque.size) := by
  obtain ⟨b, hb, -⟩ := h.contiguous.suffix (dropWhile_suffix (full acked))
  have ho : QuicIntervalDeque.Ordered interval s.intervalDeque.container :=
    h.container ▸ ordered_entries hb
  intro i j _ hij hj hp
  rw [zero_add] at hj
  have hy : s.intervalDeque.container[j]? = some s.intervalDeque.container[j] := getElem?_eq_getElem hj
  have hil : i < s.intervalDeque.container.length := lt_of_le_of_lt hij hj
  have hx : s.intervalDeque.container[i]? = some s.intervalDeque.container[i] := getElem?_eq_getElem hil
  simp only [hx, hy, all_some, endsBefore, decide_eq_true_eq] at hp ⊢
  rcases Nat.lt_or_eq_of_le hij with hlt | rfl
  · have h1 := ho.lt hlt hx hy
    have h2 := ho.le hy
    simp only [interval] at h1 h2
    omega
  · exact hp

theorem Freeing.firstAcked {first : BufferedSliceInlining}
    (hfirst : s.intervalDeque.container.head? = some first) (probes : List Nat) :
    (s.firstAcked first start probes).2.container = s.intervalDeque.container ∧
      (s.firstAcked first start probes).2.Valid ∧
      ∃ x, (s.slices.dropWhile (full acked))[(s.firstAcked first start probes).1]? = some x ∧ full acked x = false ∧
        ∀ y ∈ (s.slices.dropWhile (full acked)).take (s.firstAcked first start probes).1,
          entry s.bytesAcked y = entry acked y := by
  have hne : ∀ x ∈ s.slices.dropWhile (full acked), x.2 ≠ [] := fun x hx =>
    (h.contiguous.bounds x ((dropWhile_suffix (full acked)).mem hx)).2.1
  unfold QuicStreamSendBufferInlining.firstAcked
  split
  next hc =>
    refine ⟨rfl, h.valid, ?_⟩
    rw [head?_eq_getElem?, h.getElem?] at hfirst
    obtain ⟨x, hx, rfl⟩ := map_eq_some_iff.1 hfirst
    refine ⟨x, hx, ?_, fun y hy => by simp at hy⟩
    rw [Bool.eq_false_iff]
    intro hf
    rw [QuicInterval.contains_iff, interval, size_entry_of_full hf] at hc
    simp only at hc
    omega
  next =>
  obtain ⟨h1, h2⟩ := foldl_increment probes h.valid
  refine ⟨h1, h2, ?_⟩
  obtain ⟨i, sl, hi, hlo, hhi, hf⟩ := h.exists_index
  have hs := BinarySearch.splits_lowerBound h.partitioned
  generalize BinarySearch.lowerBound _ 0 s.intervalDeque.size = k at hs ⊢
  have hki : k ≤ i := by
    by_contra hlt
    have hp := hs.before i (Nat.zero_le i) (by omega)
    simp only [h.getElem?, hi, map_some, all_some, endsBefore,
      decide_eq_true_eq, size_entry hf] at hp
    change sl.1 + _ < start at hp
    omega
  have hil := (List.getElem?_eq_some_iff.1 hi).1
  have hkl : k < (s.slices.dropWhile (full acked)).length := lt_of_le_of_lt hki hil
  have hk := getElem?_eq_getElem hkl
  obtain ⟨b, hb, -⟩ := h.contiguous.suffix (dropWhile_suffix (full acked))
  refine ⟨_, hk, ?_, ?_⟩
  · -- An empty slice there would begin behind `start`, and it is not behind the slice of `start`.
    rw [Bool.eq_false_iff]
    intro hkf
    have hp := hs.after k (le_refl k) (by rw [zero_add, QuicIntervalDeque.size, h.container, length_map]; omega)
    simp only [h.getElem?, hk, map_some, all_some, endsBefore,
      decide_eq_false_iff_not, size_entry_of_full hkf] at hp
    change ¬ (s.slices.dropWhile (full acked))[k].1 + 0 < start at hp
    have hlt : k < i := by
      refine Nat.lt_of_le_of_ne hki fun he => ?_
      subst he
      rw [hk] at hi
      cases hi
      cases hkf.symm.trans hf
    have hpair := pairwise_iff_getElem.1 hb.pairwise k i hkl hil hlt
    have hil' := (List.getElem?_eq_some_iff.1 hi).2
    have hpos := length_pos_iff.2 (hne _ (getElem_mem hkl))
    rw [hil'] at hpair
    omega
  · intro y hy
    obtain ⟨j, hj, rfl⟩ := mem_take_iff_getElem.1 hy
    have hjl : j < (s.slices.dropWhile (full acked)).length := by omega
    have hp := hs.before j (Nat.zero_le j) (by omega)
    simp only [h.getElem?, getElem?_eq_getElem hjl, map_some, all_some,
      endsBefore, decide_eq_true_eq] at hp
    have hyne := hne _ (getElem_mem hjl)
    cases hyf : full acked (s.slices.dropWhile (full acked))[j] with
    | true => exact h.entry_full hyne hyf
    | false =>
      rw [size_entry hyf] at hp
      exact h.entry_apart hyne (.inr (le_of_lt hp))

theorem Freeing.freeMemSlices (probes : List Nat) :
    (s.freeMemSlices start stop probes).1 = true ∧ ∃ d owned,
      (s.freeMemSlices start stop probes).2 = { s with intervalDeque := d, ownedSlices := owned } ∧
      d.container = (s.slices.dropWhile (full acked)).map (entry s.bytesAcked) ∧ d.Valid ∧
      Owns owned s.bytesAcked s.slices := by
  have hne : ∀ x ∈ s.slices, x.2 ≠ [] := fun x hx => (h.contiguous.bounds x hx).2.1
  have hsuf := dropWhile_suffix (full acked) (l := s.slices)
  obtain ⟨i, sl, hi, -, -, -⟩ := h.exists_index
  obtain ⟨x, l, hl⟩ := exists_cons_of_ne_nil (ne_nil_of_mem (mem_of_getElem? hi))
  have hcont : s.intervalDeque.container = entry acked x :: l.map (entry acked) := by
    rw [h.container, hl, map_cons]
  have hxf : full acked x = false := by
    have := head?_dropWhile_not (full acked) s.slices
    rw [hl] at this
    simpa using this
  have hx0 : (entry acked x).slice.size ≠ 0 := fun h0 =>
    Bool.eq_false_iff.1 hxf ((size_entry_eq_zero (hne x (hsuf.mem (hl ▸ mem_cons_self)))).1 h0)
  obtain ⟨hd, hv, y, hy, hyf, hlow⟩ := h.firstAcked (by rw [hcont, head?_cons]) probes
  unfold QuicStreamSendBufferInlining.freeMemSlices
  simp only [hcont, if_neg hx0]
  generalize hit : s.firstAcked (entry acked x) start probes = it at hd hv hy hlow ⊢
  obtain ⟨k, d⟩ := it
  have hyc : d.container[k]? = some (entry acked y) := by
    rw [hd, h.getElem?, hy, map_some]
  have hy0 : (entry acked y).slice.size ≠ 0 := fun h0 =>
    Bool.eq_false_iff.1 hyf ((size_entry_eq_zero (hne y (hsuf.mem (mem_of_getElem? hy)))).1 h0)
  simp only [hyc, if_neg hy0, true_and]
  have hdrop : d.container.drop k = ((s.slices.dropWhile (full acked)).drop k).map (entry acked) := by
    rw [hd, h.container, map_drop]
  obtain ⟨b, hb, -⟩ := h.contiguous.suffix ((drop_suffix k _).trans hsuf)
  have hspec := freeSlices_spec h.toGrows hb s.ownedSlices
  rw [hdrop]
  generalize hr :
    freeSlices s.bytesAcked stop (((s.slices.dropWhile (full acked)).drop k).map (entry acked)) s.ownedSlices = r
    at hspec ⊢
  obtain ⟨hac, hav⟩ := foldl_increment (range' k r.2.2) hv
  have hcontainer : (advance d k r.2.2).container.take k ++ r.1 =
      (s.slices.dropWhile (full acked)).map (entry s.bytesAcked) := by
    rw [advance, hac, hd, h.container, ← map_take, hspec.1, map_congr_left fun z hz => (hlow z hz).symm,
      ← map_append, take_append_drop]
  refine ⟨_, _, rfl, hcontainer, ?_, ?_⟩
  · refine hav.congr ?_ rfl
    rw [QuicIntervalDeque.size, QuicIntervalDeque.size, hac, hd, h.container, length_map]
    exact (congrArg length hcontainer).trans (length_map _)
  · have hsplit : s.slices = (s.slices.takeWhile (full acked) ++ (s.slices.dropWhile (full acked)).take k) ++
        (s.slices.dropWhile (full acked)).drop k := by
      rw [append_assoc, take_append_drop, takeWhile_append_dropWhile]
    have hcon := h.contiguous
    have hown := h.owns
    rw [hsplit] at hcon hown
    have := owns_freeSlices h.toGrows hcon hown (by
      intro z hz
      rcases mem_append.1 hz with hz | hz
      · have hzf := mem_takeWhile_imp hz
        exact h.entry_full (hne z (takeWhile_subset _ hz)) hzf
      · exact hlow z hz)
    rw [hr, ← hsplit] at this
    exact this

theorem Freeing.freeAndCleanUp (n : Nat) (probes : List Nat) :
    ∃ d owned, s.freeAndCleanUp start stop n probes = (true, n, { s with intervalDeque := d, ownedSlices := owned }) ∧
      d.container = (s.slices.dropWhile (full s.bytesAcked)).map (entry s.bytesAcked) ∧ d.Valid ∧
      Owns owned s.bytesAcked s.slices := by
  obtain ⟨htrue, d, owned, hs, hd, hv, how⟩ := h.freeMemSlices probes
  obtain ⟨hp, hpv⟩ := popEmpty_spec hv (le_refl d.size)
  refine ⟨popEmpty d.size d, owned, ?_, ?_, hpv, how⟩
  · rw [QuicStreamSendBufferInlining.freeAndCleanUp, htrue, hs]
    rfl
  · have hne : ∀ x ∈ s.slices, x.2 ≠ [] := fun x hx => (h.contiguous.bounds x hx).2.1
    rw [hp, hd, ← dropWhile_dropWhile fun x hx => h.mono (hne x hx), dropWhile_map]
    congr 1
    apply dropWhile_congr
    intro x hx
    have hx0 : (entry s.bytesAcked x).slice.size = 0 ↔ _ := size_entry_eq_zero (hne x ((dropWhile_suffix _).mem hx))
    rw [Bool.eq_iff_iff, ← hx0]
    exact decide_eq_true_iff

end

end

/-! ## Writing -/

section
variable {acked : QuicIntervalSet Nat} {owned : FlatMap Nat Bytes}

theorem data_entry {l : List (Nat × Bytes)} {sl : Nat × Bytes} (h : Owns owned acked l) (hm : sl ∈ l)
    (hf : full acked sl = false) : (entry acked sl).data owned = sl.2 := by
  simp only [entry, hf, data, InlinedStringView.of, Bool.false_eq_true, if_false]
  by_cases hlen : sl.2.length ≤ kSendBufferMaxInlinedSize
  · rw [if_pos hlen]
  · rw [if_neg hlen]
    rw [(h sl.1 sl.2).2 ⟨hm, Nat.lt_of_not_le hlen, hf⟩, getD_some]

theorem writeSlices_zero (l : List BufferedSliceInlining) (o : Nat) (w : QuicheDataWriter) :
    writeSlices owned l o 0 w = (true, w, 0) := by
  cases l with
  | nil => rfl
  | cons t l => simp [writeSlices]

theorem writeSlices_spec (ha : acked.Canonical) {slices : List (Nat × Bytes)} (how : Owns owned acked slices) :
    ∀ {l : List (Nat × Bytes)} {b : Nat}, (∀ x ∈ l, x ∈ slices) → Contiguous b l → ∀ {o n : Nat} {w : QuicheDataWriter},
      b ≤ o → o + n ≤ b + (bytes l).length → (∀ x ∈ l.head?, 0 < n → o < b + x.2.length) →
      (∀ p, o ≤ p → p < o + n → p ∉ points acked) → n ≤ w.remaining →
      ∃ w', w.writeBytes (((bytes l).drop (o - b)).take n) = some w' ∧
        (writeSlices owned (l.map (entry acked)) o n w).1 = true ∧
          (writeSlices owned (l.map (entry acked)) o n w).2.1 = w'
  | [], b, _, _, o, n, w, hbo, hon, _, _, _ => by
    obtain rfl : n = 0 := by
      simp only [bytes, flatMap_nil, length_nil] at hon
      omega
    refine ⟨w, ?_, rfl, rfl⟩
    rw [take_zero, QuicheDataWriter.writeBytes_nil]
  | sl :: l, b, hmem, h, o, n, w, hbo, hon, hin, hun, hroom => by
    obtain ⟨hb, hne, hl⟩ := h
    rw [map_cons, writeSlices]
    by_cases hn : n = 0
    · subst hn
      refine ⟨w, ?_, ?_⟩
      · rw [take_zero, QuicheDataWriter.writeBytes_nil]
      · simp
    have hlt : o < b + sl.2.length := hin sl rfl (by omega)
    have hf : full acked sl = false := by
      rw [Bool.eq_false_iff]
      intro hf
      exact hun o (le_refl o) (by omega) ((full_iff ha hne).1 hf ⟨by omega, by omega⟩)
    rw [if_neg (by
      rintro (h0 | h0)
      · exact hn h0
      · change o < sl.1 at h0
        omega)]
    have hoff : (entry acked sl).offset = b := hb
    simp only [data_entry how (hmem sl mem_cons_self) hf, size_entry hf, hoff]
    have hbytes : ((bytes (sl :: l)).drop (o - b)).take n =
        (sl.2.drop (o - b)).take n ++ (bytes l).take (n - (sl.2.length - (o - b))) := by
      rw [bytes, flatMap_cons, drop_append_of_le_length (by omega), take_append, length_drop]
      rfl
    by_cases hfit : n ≤ sl.2.length - (o - b)
    · -- The rest of this slice is enough.
      obtain ⟨w', hw'⟩ := QuicheDataWriter.exists_writeBytes (w := w) (a := (sl.2.drop (o - b)).take n)
        (by rw [length_take]; omega)
      rw [hbytes, Nat.sub_eq_zero_of_le hfit, take_zero, append_nil, min_eq_left hfit, hw']
      refine ⟨w', rfl, ?_⟩
      simp only [Nat.sub_self, writeSlices_zero, and_self]
    · have hmin : min n (sl.2.length - (o - b)) = sl.2.length - (o - b) := min_eq_right (by omega)
      have hall : ∀ k, sl.2.length - (o - b) ≤ k → (sl.2.drop (o - b)).take k = sl.2.drop (o - b) := fun k hk =>
        take_of_length_le (by rw [length_drop]; exact hk)
      obtain ⟨w₁, hw1⟩ := QuicheDataWriter.exists_writeBytes (w := w) (a := sl.2.drop (o - b))
        (by rw [length_drop]; omega)
      have hrem := QuicheDataWriter.remaining_of_write hw1
      rw [length_drop] at hrem
      have hnext : o + (sl.2.length - (o - b)) = b + sl.2.length := by omega
      simp only [bytes, flatMap_cons, length_append] at hon
      obtain ⟨w', hw', hr⟩ :=
        @writeSlices_spec ha slices how l (b + sl.2.length) (fun x hx => hmem x (mem_cons_of_mem sl hx)) hl
        (b + sl.2.length) (n - (sl.2.length - (o - b))) w₁ le_rfl
        (by simp only [bytes]; omega)
        (fun x hx _ => Nat.lt_add_of_pos_right (length_pos_iff.2 (hl.bounds x (mem_of_head? hx)).2.1))
        (fun p h1 h2 => hun p (by omega) (by omega)) (by omega)
      rw [hmin, hall _ le_rfl, hw1, hbytes, hall n (by omega), QuicheDataWriter.writeBytes_append, hw1, hnext]
      rw [Nat.sub_self, drop_zero] at hw'
      exact ⟨w', hw', hr⟩

end

end QuicStreamSendBufferInlining

end Quictun
