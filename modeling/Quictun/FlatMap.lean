import Mathlib.Data.List.AList

/-!
# Hash maps

`flat_hash_map` as an association list with distinct keys. `AList` has the lookups,
`insert` and `erase`; what is added is `emplace`, which keeps the value of a key that
is present, and `eraseIf`.
-/

abbrev FlatMap (κ υ : Type*) := AList fun _ : κ => υ

namespace FlatMap

section
variable {κ υ : Type*} [DecidableEq κ]

section
variable (m : FlatMap κ υ)

def emplace (k : κ) (v : υ) : FlatMap κ υ := if k ∈ m then m else m.insert k v

def eraseIf (p : κ → υ → Bool) : FlatMap κ υ :=
  ⟨m.entries.filter fun e => !p e.1 e.2, m.nodupKeys.sublist List.filter_sublist⟩

theorem lookup_insert_eq (k j : κ) (v : υ) :
    (m.insert k v).lookup j = if j = k then some v else m.lookup j := by
  split
  next h => rw [h, AList.lookup_insert]
  next h => rw [AList.lookup_insert_ne h]

theorem lookup_erase_eq (k j : κ) : (m.erase k).lookup j = if j = k then none else m.lookup j := by
  split
  next h => rw [h, AList.lookup_erase]
  next h => rw [AList.lookup_erase_ne h]

end

variable {m : FlatMap κ υ} {k : κ}

theorem lookup_emplace_of_none (hk : m.lookup k = none) (j : κ) (v : υ) :
    (m.emplace k v).lookup j = if j = k then some v else m.lookup j := by
  rw [emplace, if_neg (AList.lookup_eq_none.1 hk), lookup_insert_eq]

theorem length_emplace_of_none (hk : m.lookup k = none) (v : υ) :
    (m.emplace k v).entries.length = m.entries.length + 1 := by
  have hk' : k ∉ m := AList.lookup_eq_none.1 hk
  rw [emplace, if_neg hk', AList.entries_insert_of_notMem hk', List.length_cons]

theorem lookup_eraseIf_eq_some {p : κ → υ → Bool} {v : υ} :
    (m.eraseIf p).lookup k = some v ↔ m.lookup k = some v ∧ p k v = false := by
  have hm := AList.mem_lookup_iff (a := k) (b := v) (s := m.eraseIf p)
  have hm' := AList.mem_lookup_iff (a := k) (b := v) (s := m)
  rw [Option.mem_def] at hm hm'
  rw [hm, hm', eraseIf, List.mem_filter, Bool.not_eq_true']

end

end FlatMap
