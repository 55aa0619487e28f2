import Mathlib.Algebra.Group.Nat.Defs
import Mathlib.Data.List.Basic

/-!
# PacketNumberIndexedQueue

A queue of entries with consecutive packet numbers, some of which are holes. An entry that is removed
becomes a hole, and holes at the front are taken off; those at the back stay, so that the queue is
emptied only together with its last entry. It is compared with a finite map that grows only behind
the greatest number it was given since it was last empty.
-/

namespace Quictun

open List Option

/-- All ones stand for a number that was never set. -/
abbrev QuicPacketNumber := UInt64

namespace QuicPacketNumber

def uninitialized : QuicPacketNumber := 0xFFFFFFFFFFFFFFFF

def isInitialized (p : QuicPacketNumber) : Bool := p != uninitialized

theorem toNat_uninitialized : uninitialized.toNat = 2 ^ 64 - 1 := rfl

variable {p : QuicPacketNumber}

theorem isInitialized_iff : p.isInitialized = true ↔ p.toNat < 2 ^ 64 - 1 := by
  have hlt := p.toNat_lt
  rw [isInitialized, bne_iff_ne, Ne, ← UInt64.toNat_inj, toNat_uninitialized]
  omega

theorem toNat_succ (h : p.toNat < 2 ^ 64 - 1) : (p + 1).toNat = p.toNat + 1 := by
  rw [UInt64.toNat_add, UInt64.toNat_one, Nat.mod_eq_of_lt]
  omega

end QuicPacketNumber

open QuicPacketNumber

structure EntryWrapper (T : Type*) where
  value : T
  present : Bool

structure PacketNumberIndexedQueue (T : Type*) where
  entries : List (EntryWrapper T) := []
  numberOfPresentEntries : Nat := 0
  firstPacket : QuicPacketNumber := uninitialized

namespace PacketNumberIndexedQueue

variable {T : Type*}

section
variable (q : PacketNumberIndexedQueue T)

def isEmpty : Bool := q.numberOfPresentEntries == 0

def lastPacket : QuicPacketNumber :=
  if q.isEmpty then uninitialized else q.firstPacket + UInt64.ofNat q.entries.length - 1

def getEntryWrapper (packetNumber : QuicPacketNumber) : Option (EntryWrapper T) :=
  if !packetNumber.isInitialized || q.isEmpty || packetNumber < q.firstPacket then none
  else q.entries[(packetNumber - q.firstPacket).toNat]?.filter (·.present)

def getEntry (packetNumber : QuicPacketNumber) : Option T :=
  (q.getEntryWrapper packetNumber).map (·.value)

def popAbsent : List (EntryWrapper T) → QuicPacketNumber → List (EntryWrapper T) × QuicPacketNumber
  | [], first => ([], first)
  | e :: rest, first => if e.present then (e :: rest, first) else popAbsent rest (first + 1)

def cleanup : PacketNumberIndexedQueue T :=
  let r := popAbsent q.entries q.firstPacket
  { q with entries := r.1, firstPacket := if r.1.isEmpty then uninitialized else r.2 }

def popUpTo (packetNumber : QuicPacketNumber) :
    List (EntryWrapper T) → Nat → QuicPacketNumber → List (EntryWrapper T) × Nat × QuicPacketNumber
  | [], n, first => ([], n, first)
  | e :: rest, n, first =>
    if first.isInitialized && first < packetNumber then
      popUpTo packetNumber rest (if e.present then n - 1 else n) (first + 1)
    else (e :: rest, n, first)

def removeUpTo (packetNumber : QuicPacketNumber) : PacketNumberIndexedQueue T :=
  let r := popUpTo packetNumber q.entries q.numberOfPresentEntries q.firstPacket
  { entries := r.1, numberOfPresentEntries := r.2.1, firstPacket := r.2.2 : PacketNumberIndexedQueue T }.cleanup

/-- With the entry that `f` is called for, if there is one. -/
def remove (packetNumber : QuicPacketNumber) : Option T × PacketNumberIndexedQueue T :=
  match q.getEntryWrapper packetNumber with
  | none => (none, q)
  | some entry =>
    let q' := { q with
      entries := q.entries.set (packetNumber - q.firstPacket).toNat { entry with present := false }
      numberOfPresentEntries := q.numberOfPresentEntries - 1 }
    (some entry.value, if packetNumber = q.firstPacket then q'.cleanup else q')

end

section
variable [Inhabited T]

def hole : EntryWrapper T := ⟨default, false⟩

def fillUpTo (entries : List (EntryWrapper T)) (offset : Nat) : List (EntryWrapper T) :=
  if entries.length < offset then entries ++ List.replicate (offset - entries.length) hole else entries

def emplace (q : PacketNumberIndexedQueue T) (packetNumber : QuicPacketNumber) (value : T) :
    Bool × PacketNumberIndexedQueue T :=
  if !packetNumber.isInitialized then (false, q)
  else if q.isEmpty then
    (true, { entries := q.entries ++ [⟨value, true⟩], numberOfPresentEntries := 1, firstPacket := packetNumber })
  else if packetNumber ≤ q.lastPacket then (false, q)
  else
    (true, { q with
      entries := fillUpTo q.entries (packetNumber - q.firstPacket).toNat ++ [⟨value, true⟩]
      numberOfPresentEntries := q.numberOfPresentEntries + 1 })

end

end PacketNumberIndexedQueue

/-! ## The map -/

/-- A finite map in the order of its keys, with the last key given to it since it was empty. -/
structure AppendMap (T : Type*) where
  items : List (Nat × T) := []
  last : Nat := 0

namespace AppendMap

variable {T : Type*}

variable (m : AppendMap T)

def get (p : Nat) : Option T := (m.items.find? fun item => item.1 == p).map (·.2)

def Admits (p : Nat) : Prop := p < 2 ^ 64 - 1 ∧ (m.items = [] ∨ m.last < p)

instance (m : AppendMap T) (p : Nat) : Decidable (m.Admits p) :=
  decidable_of_iff (p < 2 ^ 64 - 1 ∧ (m.items.isEmpty = true ∨ m.last < p)) (by rw [Admits, List.isEmpty_iff])

def emplace (p : Nat) (value : T) : AppendMap T :=
  if m.Admits p then { items := m.items ++ [(p, value)], last := p } else m

def remove (p : Nat) : AppendMap T := { m with items := m.items.filter fun item => item.1 != p }

def removeUpTo (p : Nat) : AppendMap T := { m with items := m.items.filter fun item => p ≤ item.1 }

end AppendMap

namespace PacketNumberIndexedQueue

variable {T : Type*} {base p : Nat} {e : EntryWrapper T} {l l₁ l₂ : List (EntryWrapper T)}

def contents (base : Nat) (l : List (EntryWrapper T)) : List (Nat × T) :=
  (l.zipIdx base).filterMap fun e => if e.1.present then some (e.2, e.1.value) else none

@[simp] theorem contents_nil : contents base ([] : List (EntryWrapper T)) = [] := rfl

theorem contents_cons :
    contents base (e :: l) = if e.present then (base, e.value) :: contents (base + 1) l else contents (base + 1) l := by
  rw [contents, zipIdx_cons, filterMap_cons]
  cases e.present <;> rfl

theorem contents_append : contents base (l₁ ++ l₂) = contents base l₁ ++ contents (base + l₁.length) l₂ := by
  rw [contents, zipIdx_append, filterMap_append]
  rfl

theorem contents_absent (h : ∀ e ∈ l, e.present = false) : contents base l = [] := by
  induction l generalizing base with
  | nil => rfl
  | cons e l ih =>
    rw [contents_cons, h e mem_cons_self, ih fun x hx => h x (mem_cons_of_mem e hx)]
    rfl

variable {item : Nat × T}

theorem bounds_of_mem_contents (h : item ∈ contents base l) : base ≤ item.1 ∧ item.1 < base + l.length := by
  induction l generalizing base with
  | nil => cases h
  | cons e l ih =>
    rw [contents_cons] at h
    rw [length_cons]
    have htail : item ∈ contents (base + 1) l → base ≤ item.1 ∧ item.1 < base + (l.length + 1) := by
      intro h
      have := ih h
      omega
    split at h
    · rcases mem_cons.1 h with rfl | h
      · exact ⟨Nat.le_refl _, by dsimp only; omega⟩
      · exact htail h
    · exact htail h

theorem ascending_contents : (contents base l).Pairwise fun x y => x.1 < y.1 := by
  induction l generalizing base with
  | nil => exact List.Pairwise.nil
  | cons e l ih =>
    rw [contents_cons]
    split
    · exact pairwise_cons.2 ⟨fun y hy => (bounds_of_mem_contents hy).1, ih⟩
    · exact ih

theorem length_filter_ne {items : List (Nat × T)} (h : items.Pairwise fun x y => x.1 < y.1) (hm : item ∈ items) :
    (items.filter fun x => x.1 != item.1).length + 1 = items.length := by
  induction items with
  | nil => cases hm
  | cons x items ih =>
    obtain ⟨hx, hrest⟩ := pairwise_cons.1 h
    rcases mem_cons.1 hm with rfl | hm
    · have hall : items.filter (fun x => x.1 != item.1) = items := by
        rw [filter_eq_self]
        intro y hy
        rw [bne_iff_ne]
        exact Nat.ne_of_gt (hx y hy)
      rw [filter_cons_of_neg (by simp), hall, length_cons]
    · rw [filter_cons_of_pos (by rw [bne_iff_ne]; exact Nat.ne_of_lt (hx item hm)), length_cons, ih hrest hm,
        length_cons]

theorem find_contents_of_lt (h : p < base) : (contents base l).find? (fun item => item.1 == p) = none := by
  rw [find?_eq_none]
  intro item hi
  have := (bounds_of_mem_contents hi).1
  rw [beq_iff_eq]
  omega

theorem find_contents (h : base ≤ p) :
    ((contents base l).find? fun item => item.1 == p).map (·.2) = (l[p - base]?.filter (·.present)).map (·.value) := by
  induction l generalizing base with
  | nil => simp
  | cons e l ih =>
    rw [contents_cons]
    rcases Nat.eq_or_lt_of_le h with rfl | hlt
    · have hnone := find_contents_of_lt (l := l) (Nat.lt_succ_self base)
      rw [Nat.sub_self, getElem?_cons_zero]
      cases hp : e.present with
      | true => simp [Option.filter, hp]
      | false =>
        rw [if_neg (by simp), hnone]
        simp [Option.filter, hp]
    · have hne : (base == p) = false := by
        rw [beq_eq_false_iff_ne]
        omega
      have hidx : p - base = p - (base + 1) + 1 := by omega
      rw [hidx, getElem?_cons_succ, ← ih hlt]
      cases e.present with
      | true => simp [hne]
      | false => rfl

theorem contents_set (h : l[p]? = some e) :
    contents base (l.set p { e with present := false }) = (contents base l).filter fun item => item.1 != base + p := by
  induction l generalizing base p with
  | nil => cases h
  | cons x l ih =>
    cases p with
    | zero =>
      cases h
      have hrest : (contents (base + 1) l).filter (fun item => item.1 != base + 0) = contents (base + 1) l := by
        rw [filter_eq_self]
        intro item hi
        have := (bounds_of_mem_contents hi).1
        rw [bne_iff_ne]
        omega
      rw [set_cons_zero, contents_cons, contents_cons, if_neg (by simp)]
      split
      · rw [filter_cons_of_neg (by simp), hrest]
      · exact hrest.symm
    | succ p =>
      have hp : base + (p + 1) = base + 1 + p := by omega
      rw [set_cons_succ, contents_cons, contents_cons, ih h, hp]
      split
      · rw [filter_cons_of_pos (by rw [bne_iff_ne]; dsimp only; omega)]
      · rfl

/-! ## The queue refines the map -/

structure Refines (q : PacketNumberIndexedQueue T) (m : AppendMap T) : Prop where
  items : contents q.firstPacket.toNat q.entries = m.items
  count : q.numberOfPresentEntries = m.items.length
  front : ∀ e ∈ q.entries.head?, e.present = true
  cleared : q.entries = [] → q.firstPacket = uninitialized
  slots : q.entries ≠ [] → q.firstPacket.toNat + q.entries.length = m.last + 1 ∧ m.last < 2 ^ 64 - 1

variable {q : PacketNumberIndexedQueue T} {m : AppendMap T} {first packetNumber : QuicPacketNumber}

theorem Refines.isEmpty_iff (h : Refines q m) : q.isEmpty = true ↔ m.items = [] := by
  rw [isEmpty, beq_iff_eq, h.count, length_eq_zero_iff]

theorem Refines.entries_eq_nil (h : Refines q m) (he : m.items = []) : q.entries = [] := by
  cases hq : q.entries with
  | nil => rfl
  | cons e l =>
    have hp : e.present = true := h.front e (by rw [hq]; rfl)
    have hi := h.items
    rw [hq, contents_cons, if_pos hp, he] at hi
    cases hi

theorem Refines.items_eq_nil (h : Refines q m) (he : q.entries = []) : m.items = [] := by
  rw [← h.items, he, contents_nil]

theorem Refines.getEntryWrapper (h : Refines q m) (packetNumber : QuicPacketNumber) :
    (q.getEntryWrapper packetNumber).map (·.value) = m.get packetNumber.toNat := by
  unfold PacketNumberIndexedQueue.getEntryWrapper
  rw [AppendMap.get, ← h.items]
  split
  next hc =>
    -- There is no such key in the map.
    symm
    rw [map_none, map_eq_none_iff, find?_eq_none]
    intro item hi
    rw [beq_iff_eq]
    intro hk
    obtain ⟨h1, h2⟩ := bounds_of_mem_contents hi
    have hne : q.entries ≠ [] := fun h0 => by
      rw [h0] at hi
      cases hi
    have hslots := h.slots hne
    rw [Bool.or_eq_true, Bool.or_eq_true, Bool.not_eq_true', decide_eq_true_eq] at hc
    rcases hc with (hc | hc) | hc
    · rw [Bool.eq_false_iff, Ne, isInitialized_iff] at hc
      omega
    · exact hne (h.entries_eq_nil (h.isEmpty_iff.1 hc))
    · rw [UInt64.lt_iff_toNat_lt] at hc
      omega
  next hc =>
    rw [Bool.or_eq_true, Bool.or_eq_true, decide_eq_true_eq, not_or, UInt64.not_lt] at hc
    rw [find_contents (UInt64.le_iff_toNat_le.1 hc.2), UInt64.toNat_sub_of_le _ _ hc.2]

theorem Refines.getEntry (h : Refines q m) (packetNumber : QuicPacketNumber) :
    q.getEntry packetNumber = m.get packetNumber.toNat := h.getEntryWrapper packetNumber

theorem popAbsent_spec {l : List (EntryWrapper T)} (first : QuicPacketNumber)
    (hb : l ≠ [] → first.toNat + l.length ≤ 2 ^ 64 - 1) :
    contents (popAbsent l first).2.toNat (popAbsent l first).1 = contents first.toNat l ∧
      (∀ e ∈ (popAbsent l first).1.head?, e.present = true) ∧
      ((popAbsent l first).1 ≠ [] →
        (popAbsent l first).2.toNat + (popAbsent l first).1.length = first.toNat + l.length) := by
  induction l generalizing first with
  | nil => exact ⟨rfl, nofun, fun h => absurd rfl h⟩
  | cons e l ih =>
    rw [popAbsent]
    split
    next hp => exact ⟨rfl, fun x hx => some.inj hx ▸ hp, fun _ => rfl⟩
    next hp =>
      have hb' := hb (cons_ne_nil e l)
      rw [length_cons] at hb' ⊢
      have hs : (first + 1).toNat = first.toNat + 1 := toNat_succ (by omega)
      obtain ⟨h1, h2, h3⟩ := ih (first + 1) (fun _ => by omega)
      rw [hs] at h1 h3
      rw [contents_cons, if_neg hp]
      exact ⟨h1, h2, fun hne => by have := h3 hne; omega⟩

theorem refines_cleanup (hi : contents q.firstPacket.toNat q.entries = m.items)
    (hc : q.numberOfPresentEntries = m.items.length)
    (hs : q.entries ≠ [] → q.firstPacket.toNat + q.entries.length = m.last + 1 ∧ m.last < 2 ^ 64 - 1) :
    Refines q.cleanup m := by
  obtain ⟨h1, h2, h3⟩ := popAbsent_spec (l := q.entries) q.firstPacket fun hne => by
    have := hs hne
    omega
  unfold cleanup
  dsimp only
  refine ⟨?_, hc, h2, fun h0 => ?_, fun hne => ?_⟩
  · rw [← hi, ← h1]
    cases (popAbsent q.entries q.firstPacket).1 with
    | nil | cons => rfl
  · dsimp only at h0 ⊢
    rw [h0]
    rfl
  · dsimp only at hne ⊢
    have hq : q.entries ≠ [] := fun h0 => hne (by rw [h0]; rfl)
    rw [if_neg (by rwa [List.isEmpty_iff]), h3 hne]
    exact hs hq

theorem Refines.remove (h : Refines q m) (packetNumber : QuicPacketNumber) :
    (q.remove packetNumber).1 = m.get packetNumber.toNat ∧
      Refines (q.remove packetNumber).2 (m.remove packetNumber.toNat) := by
  have hget := h.getEntryWrapper packetNumber
  unfold PacketNumberIndexedQueue.remove
  cases hw : q.getEntryWrapper packetNumber with
  | none =>
    rw [hw] at hget
    refine ⟨hget, ?_⟩
    have hsame : m.remove packetNumber.toNat = m := by
      have hall : m.items.filter (fun item => item.1 != packetNumber.toNat) = m.items := by
        rw [filter_eq_self]
        intro item hi
        have hn := find?_eq_none.1 (map_eq_none_iff.1 hget.symm) item hi
        rw [beq_iff_eq] at hn
        rwa [bne_iff_ne]
      rw [AppendMap.remove, hall]
    rw [hsame]
    exact h
  | some entry =>
    rw [hw] at hget
    refine ⟨hget, ?_⟩
    unfold PacketNumberIndexedQueue.getEntryWrapper at hw
    split at hw
    · cases hw
    next hc =>
    rw [Bool.or_eq_true, Bool.or_eq_true, decide_eq_true_eq, not_or, UInt64.not_lt] at hc
    obtain ⟨hat, hp⟩ := filter_eq_some_iff.1 hw
    have hle := UInt64.le_iff_toNat_le.1 hc.2
    have hoff := UInt64.toNat_sub_of_le _ _ hc.2
    have hlt : (packetNumber - q.firstPacket).toNat < q.entries.length := (List.getElem?_eq_some_iff.1 hat).1
    have hne : q.entries ≠ [] := fun h0 => by
      rw [h0] at hlt
      exact absurd hlt (Nat.not_lt_zero _)
    have hcontents :
      contents q.firstPacket.toNat
        (q.entries.set (packetNumber - q.firstPacket).toNat { entry with present := false }) =
        (m.remove packetNumber.toNat).items := by
      rw [contents_set hat, h.items, hoff, Nat.add_sub_cancel' hle]
      rfl
    have hcount : q.numberOfPresentEntries - 1 = (m.remove packetNumber.toNat).items.length := by
      obtain ⟨item, hf, -⟩ := map_eq_some_iff.1 hget.symm
      have hk := find?_some hf
      rw [beq_iff_eq] at hk
      have hlen := length_filter_ne (h.items ▸ ascending_contents) (mem_of_find?_eq_some hf)
      rw [hk] at hlen
      change _ = (m.items.filter fun item => item.1 != packetNumber.toNat).length
      rw [h.count]
      omega
    have hslots := h.slots hne
    dsimp only
    split
    · exact refines_cleanup hcontents hcount fun _ => by rwa [length_set]
    next hnf =>
      refine ⟨hcontents, hcount, fun e he => ?_, fun h0 => ?_, fun _ => by rwa [length_set]⟩
      · have hpos : 0 < (packetNumber - q.firstPacket).toNat := by
          rw [← UInt64.toNat_inj] at hnf
          omega
        rw [head?_eq_getElem?, getElem?_set_ne (Nat.ne_of_gt hpos), ← head?_eq_getElem?] at he
        exact h.front e he
      · exact absurd ((set_eq_nil_iff _ _).1 h0) hne

theorem popUpTo_spec {l : List (EntryWrapper T)} {n : Nat} (packetNumber : QuicPacketNumber)
    (hb : l ≠ [] → first.toNat + l.length ≤ 2 ^ 64 - 1)
    (hn : n = (contents first.toNat l).length) :
    contents (popUpTo packetNumber l n first).2.2.toNat (popUpTo packetNumber l n first).1 =
        (contents first.toNat l).filter (fun item => packetNumber.toNat ≤ item.1) ∧
      (popUpTo packetNumber l n first).2.1 =
        (contents (popUpTo packetNumber l n first).2.2.toNat (popUpTo packetNumber l n first).1).length ∧
      ((popUpTo packetNumber l n first).1 ≠ [] → (popUpTo packetNumber l n first).2.2.toNat +
        (popUpTo packetNumber l n first).1.length = first.toNat + l.length) := by
  induction l generalizing first n with
  | nil => exact ⟨rfl, hn, fun h => absurd rfl h⟩
  | cons e l ih =>
    have hb' := hb (cons_ne_nil e l)
    rw [length_cons] at hb'
    have hinit : first.isInitialized = true := isInitialized_iff.2 (by omega)
    rw [popUpTo, hinit, Bool.true_and]
    by_cases hlt : first < packetNumber
    · rw [if_pos (decide_eq_true hlt)]
      have hs : (first + 1).toNat = first.toNat + 1 := toNat_succ (by omega)
      have hn' : (if e.present then n - 1 else n) = (contents (first + 1).toNat l).length := by
        rw [hs, hn, contents_cons]
        split
        · rw [length_cons, Nat.add_sub_cancel]
        · rfl
      obtain ⟨h1, h2, h3⟩ := ih (fun _ => by omega) hn'
      rw [hs] at h1 h3
      refine ⟨?_, h2, fun hne => by have := h3 hne; rw [length_cons]; omega⟩
      rw [h1, contents_cons]
      split
      · rw [filter_cons_of_neg]
        rw [decide_eq_true_eq, Nat.not_le]
        exact UInt64.lt_iff_toNat_lt.1 hlt
      · rfl
    · rw [if_neg (by rwa [decide_eq_true_eq])]
      refine ⟨?_, hn, fun _ => rfl⟩
      symm
      rw [filter_eq_self]
      intro item hi
      have := (bounds_of_mem_contents hi).1
      rw [UInt64.not_lt, UInt64.le_iff_toNat_le] at hlt
      rw [decide_eq_true_eq]
      omega

theorem Refines.removeUpTo (h : Refines q m) (packetNumber : QuicPacketNumber) :
    Refines (q.removeUpTo packetNumber) (m.removeUpTo packetNumber.toNat) := by
  have hb : q.entries ≠ [] → q.firstPacket.toNat + q.entries.length ≤ 2 ^ 64 - 1 := fun hne => by
    have := h.slots hne
    omega
  obtain ⟨h1, h2, h3⟩ := popUpTo_spec packetNumber hb (h.count.trans (congrArg _ h.items.symm))
  rw [h.items] at h1
  refine refines_cleanup h1 (h2.trans (congrArg _ h1)) fun hne => ?_
  have hq : q.entries ≠ [] := fun h0 => hne (by rw [h0]; rfl)
  rw [h3 hne]
  exact h.slots hq

theorem Refines.lastPacket (h : Refines q m) (hne : m.items ≠ []) : q.lastPacket.toNat = m.last := by
  have hq : q.entries ≠ [] := fun h0 => hne (h.items_eq_nil h0)
  obtain ⟨hslots, hlast⟩ := h.slots hq
  have hpos : 0 < q.entries.length := length_pos_iff.2 hq
  have hof : (UInt64.ofNat q.entries.length).toNat = q.entries.length :=
    UInt64.toNat_ofNat_of_lt (by unfold UInt64.size; omega)
  have hsum : (q.firstPacket + UInt64.ofNat q.entries.length).toNat = m.last + 1 := by
    rw [UInt64.toNat_add, hof, hslots, Nat.mod_eq_of_lt (by omega)]
  rw [PacketNumberIndexedQueue.lastPacket, if_neg (fun he => hne (h.isEmpty_iff.1 he)), UInt64.toNat_sub_of_le, hsum]
  · rfl
  · rw [UInt64.le_iff_toNat_le, hsum]
    exact Nat.succ_le_succ (Nat.zero_le _)

section
variable [Inhabited T]

theorem fillUpTo_spec {n : Nat} (base : Nat) (hn : l.length ≤ n) (hl : l ≠ []) : (fillUpTo l n).length = n ∧
    contents base (fillUpTo l n) = contents base l ∧ (fillUpTo l n).head? = l.head? := by
  unfold fillUpTo
  split
  · have habsent : contents (base + l.length) (replicate (n - l.length) (hole : EntryWrapper T)) = [] := by
      apply contents_absent
      intro e he
      rw [eq_of_mem_replicate he]
      rfl
    refine ⟨?_, ?_, ?_⟩
    · rw [length_append, length_replicate]
      omega
    · rw [contents_append, habsent, append_nil]
    · exact head?_append_of_ne_nil _ hl
  · exact ⟨by omega, rfl, rfl⟩

theorem Refines.emplace (h : Refines q m) (packetNumber : QuicPacketNumber) (value : T) :
    ((q.emplace packetNumber value).1 = true ↔ m.Admits packetNumber.toNat) ∧
      Refines (q.emplace packetNumber value).2 (m.emplace packetNumber.toNat value) := by
  unfold PacketNumberIndexedQueue.emplace AppendMap.emplace
  by_cases hinit : packetNumber.isInitialized = true
  · have hp := isInitialized_iff.1 hinit
    rw [hinit, if_neg (by simp)]
    by_cases he : m.items = []
    · -- Both assertions hold here: nothing is stored.
      have hq := h.entries_eq_nil he
      have hadm : m.Admits packetNumber.toNat := ⟨hp, .inl he⟩
      rw [if_pos (h.isEmpty_iff.2 he), if_pos hadm, hq, he]
      refine ⟨iff_of_true rfl hadm, ⟨rfl, rfl, ?_, ?_, ?_⟩⟩
      · intro e hm
        exact some.inj hm ▸ rfl
      · intro h0
        cases h0
      · intro _
        exact ⟨rfl, hp⟩
    · have hq : q.entries ≠ [] := fun h0 => he (h.items_eq_nil h0)
      obtain ⟨hslots, hlast⟩ := h.slots hq
      have hlp := h.lastPacket he
      rw [if_neg (fun h0 => he (h.isEmpty_iff.1 h0))]
      by_cases hle : packetNumber ≤ q.lastPacket
      · have hle' := UInt64.le_iff_toNat_le.1 hle
        have hadm : ¬ m.Admits packetNumber.toNat := by
          rintro ⟨-, h0 | hlt⟩
          · exact he h0
          · omega
        rw [if_pos hle, if_neg hadm]
        exact ⟨iff_of_false (by simp) hadm, h⟩
      · have hlt : m.last < packetNumber.toNat := by
          rw [UInt64.le_iff_toNat_le] at hle
          omega
        have hadm : m.Admits packetNumber.toNat := ⟨hp, .inr hlt⟩
        have hpos : 0 < q.entries.length := length_pos_iff.2 hq
        have hfirst : q.firstPacket ≤ packetNumber := by
          rw [UInt64.le_iff_toNat_le]
          omega
        rw [if_neg hle, if_pos hadm]
        rw [UInt64.toNat_sub_of_le _ _ hfirst]
        obtain ⟨hlen, hcon, hhead⟩ := fillUpTo_spec q.firstPacket.toNat (l := q.entries)
          (n := packetNumber.toNat - q.firstPacket.toNat) (by omega) hq
        refine ⟨iff_of_true rfl hadm, ⟨?_, ?_, ?_, ?_, ?_⟩⟩
        · rw [contents_append, hcon, hlen, h.items, Nat.add_sub_cancel' (UInt64.le_iff_toNat_le.1 hfirst)]
          rfl
        · rw [length_append, ← h.count]
          rfl
        · intro e hm
          rw [head?_append, hhead] at hm
          cases hf : q.entries.head? with
          | none => exact absurd (head?_eq_none_iff.1 hf) hq
          | some x =>
            rw [hf] at hm
            exact h.front e (hf ▸ hm)
        · intro h0
          simp at h0
        · intro _
          rw [length_append, hlen, length_singleton]
          exact ⟨by dsimp only; omega, hp⟩
  · have hadm : ¬ m.Admits packetNumber.toNat := fun h0 => hinit (isInitialized_iff.2 h0.1)
    rw [Bool.not_eq_true] at hinit
    rw [hinit, if_pos (by rfl), if_neg hadm]
    exact ⟨iff_of_false (by simp) hadm, h⟩

/-! ## Sequences of calls -/

inductive Call (T : Type*)
  | emplace (packetNumber : QuicPacketNumber) (value : T)
  | remove (packetNumber : QuicPacketNumber)
  | removeUpTo (packetNumber : QuicPacketNumber)
  | getEntry (packetNumber : QuicPacketNumber)

def after (q : PacketNumberIndexedQueue T) : Call T → PacketNumberIndexedQueue T
  | .emplace packetNumber value => (q.emplace packetNumber value).2
  | .remove packetNumber => (q.remove packetNumber).2
  | .removeUpTo packetNumber => q.removeUpTo packetNumber
  | .getEntry _ => q

def mapAfter (m : AppendMap T) : Call T → AppendMap T
  | .emplace packetNumber value => m.emplace packetNumber.toNat value
  | .remove packetNumber => m.remove packetNumber.toNat
  | .removeUpTo packetNumber => m.removeUpTo packetNumber.toNat
  | .getEntry _ => m

def ofCalls (cs : List (Call T)) : PacketNumberIndexedQueue T := cs.foldl after {}

def mapOfCalls (cs : List (Call T)) : AppendMap T := cs.foldl mapAfter {}

theorem Refines.after (h : Refines q m) (c : Call T) : Refines (q.after c) (mapAfter m c) := by
  cases c with
  | emplace packetNumber value => exact (h.emplace packetNumber value).2
  | remove packetNumber => exact (h.remove packetNumber).2
  | removeUpTo packetNumber => exact h.removeUpTo packetNumber
  | getEntry packetNumber => exact h

theorem refines_calls (cs : List (Call T)) : Refines (ofCalls cs) (mapOfCalls cs) := by
  unfold ofCalls mapOfCalls
  have h0 : Refines ({} : PacketNumberIndexedQueue T) {} :=
    ⟨rfl, rfl, nofun, fun _ => rfl, fun h => absurd rfl h⟩
  revert h0
  generalize ({} : PacketNumberIndexedQueue T) = q
  generalize ({} : AppendMap T) = m
  induction cs generalizing q m with
  | nil => exact id
  | cons c cs ih => exact fun h => ih _ _ (h.after c)

/-- **Queue and map agree.** After any calls, on all that the queue can be asked; and what is stored
are the slots from the first entry that is present to the last number of the map. -/
theorem refines_map (cs : List (Call T)) : (∀ p, (ofCalls cs).getEntry p = (mapOfCalls cs).get p.toNat) ∧
    (∀ p v, ((ofCalls cs).emplace p v).1 = true ↔ (mapOfCalls cs).Admits p.toNat) ∧
    (∀ p, ((ofCalls cs).remove p).1 = (mapOfCalls cs).get p.toNat) ∧
    ((mapOfCalls cs).items.Pairwise fun x y => x.1 < y.1) ∧
    (ofCalls cs).numberOfPresentEntries = (mapOfCalls cs).items.length ∧
    ((ofCalls cs).entries = [] ∧ (ofCalls cs).firstPacket.isInitialized = false ∨
      ∃ e rest, (ofCalls cs).entries = e :: rest ∧ e.present = true) ∧
    ((ofCalls cs).isEmpty = true → (ofCalls cs).entries = [] ∧ (ofCalls cs).firstPacket.isInitialized = false) ∧
    ((ofCalls cs).isEmpty = false → (ofCalls cs).firstPacket.toNat ≤ (mapOfCalls cs).last ∧
      (ofCalls cs).entries.length = (mapOfCalls cs).last - (ofCalls cs).firstPacket.toNat + 1 ∧
      (ofCalls cs).lastPacket.toNat = (mapOfCalls cs).last) := by
  have h := refines_calls cs
  generalize ofCalls cs = q at h ⊢
  generalize mapOfCalls cs = m at h ⊢
  have hcleared : q.entries = [] → q.firstPacket.isInitialized = false := fun h0 => by
    rw [h.cleared h0]
    rfl
  refine ⟨h.getEntry, fun p v => (h.emplace p v).1, fun p => (h.remove p).1, h.items ▸ ascending_contents, h.count, ?_,
    ?_, ?_⟩
  · cases he : q.entries with
    | nil => exact .inl ⟨rfl, hcleared he⟩
    | cons e rest => exact .inr ⟨e, rest, rfl, h.front e (by rw [he]; rfl)⟩
  · intro he
    have h0 := h.entries_eq_nil (h.isEmpty_iff.1 he)
    exact ⟨h0, hcleared h0⟩
  · intro he
    have hne : m.items ≠ [] := fun h0 => by rw [h.isEmpty_iff.2 h0] at he; cases he
    have hqe : q.entries ≠ [] := fun h0 => hne (h.items_eq_nil h0)
    have hpos := length_pos_iff.2 hqe
    obtain ⟨hslots, -⟩ := h.slots hqe
    exact ⟨by omega, by omega, h.lastPacket hne⟩

end

end PacketNumberIndexedQueue

end Quictun
