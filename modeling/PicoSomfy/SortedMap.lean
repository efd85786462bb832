import Mathlib

/-!
# Sorted maps

`Std.ExtTreeMap` stands for `std::map`: `insertIfNew` is `insert`, `erase` is
`erase` and `extract`, and the list of its pairs is the order of iteration. The
lemmas say what a lookup answers after each change, in terms of equality of keys,
and what it means to be in the list.
-/
namespace SortedMap

open Std

variable {K V : Type*} {cmp : K → K → Ordering} [TransCmp cmp] [LawfulEqCmp cmp] [DecidableEq K]
variable {m : ExtTreeMap K V cmp} {k a : K} {v : V}

theorem get_erase : (m.erase k)[a]? = if k = a then none else m[a]? := by
  rw [ExtTreeMap.getElem?_erase]
  simp only [LawfulEqCmp.compare_eq_iff_eq]

theorem get_modify {f : V → V} :
    (m.modify k f)[a]? = if k = a then m[a]?.map f else m[a]? := by
  rw [ExtTreeMap.getElem?_modify]
  simp only [LawfulEqCmp.compare_eq_iff_eq]
  split_ifs with h
  · rw [h]
  · rfl

/-- Inserting does not replace a value that is there. -/
theorem get_insertIfNew :
    (m.insertIfNew k v)[a]? = if k = a ∧ m[a]? = none then some v else m[a]? := by
  rw [ExtTreeMap.getElem?_insertIfNew]
  simp only [LawfulEqCmp.compare_eq_iff_eq, ExtTreeMap.mem_iff_isSome_getElem?]
  by_cases h : k = a
  · subst h
    cases m[k]? <;> simp
  · simp [h]

theorem get_insertIfNew_fresh (h : m[k]? = none) :
    (m.insertIfNew k v)[a]? = if k = a then some v else m[a]? := by
  rw [get_insertIfNew]
  by_cases ha : k = a
  · subst ha
    simp [h]
  · simp [ha]

omit [LawfulEqCmp cmp] [DecidableEq K] in
theorem mem_iff : a ∈ m ↔ ∃ v, m[a]? = some v := by
  rw [ExtTreeMap.mem_iff_isSome_getElem?, Option.isSome_iff_exists]

omit [DecidableEq K] in
theorem mem_toList {p : K × V} : p ∈ m.toList ↔ m[p.1]? = some p.2 :=
  ExtTreeMap.mem_toList_iff_getElem?_eq_some

omit [LawfulEqCmp cmp] [DecidableEq K] in
theorem nodup_toList [LawfulEqCmp cmp] : m.toList.Nodup := by
  have h := ExtTreeMap.nodup_keys (t := m)
  rw [← ExtTreeMap.map_fst_toList_eq_keys] at h
  exact h.of_map

/-- A new key adds its pair to the list, somewhere. -/
theorem toList_insertIfNew_perm (h : m[k]? = none) :
    (m.insertIfNew k v).toList.Perm ((k, v) :: m.toList) := by
  refine (List.perm_ext_iff_of_nodup nodup_toList (List.nodup_cons.mpr ⟨?_, nodup_toList⟩)).mpr ?_
  · rw [mem_toList, h]
    simp
  · rintro ⟨a, w⟩
    rw [mem_toList, get_insertIfNew_fresh h, List.mem_cons, mem_toList]
    by_cases ha : k = a
    · subst ha
      simp [h, eq_comm]
    · simp [ha, Ne.symm ha]

/-- Erasing a key adds nothing to the list. -/
theorem length_filter_erase_le (p : K × V → Bool) :
    ((m.erase k).toList.filter p).length ≤ (m.toList.filter p).length := by
  refine ((nodup_toList.filter p).subperm fun x hx => ?_).length_le
  rw [List.mem_filter, mem_toList, get_erase] at hx
  rw [List.mem_filter, mem_toList]
  split_ifs at hx with hk
  · simp at hx
  · exact hx

end SortedMap
