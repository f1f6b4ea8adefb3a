import Mathlib.Data.List.AList

set_option autoImplicit false

/- Tables as lists of entries: what erasing and inserting do to the list. -/

namespace Tables

variable {α : Type*} {β : α → Type*} [DecidableEq α] {table : AList β} {a : α} {b : β a}

theorem mem_entries_iff : ⟨a, b⟩ ∈ table.entries ↔ table.lookup a = some b :=
  AList.mem_lookup_iff.symm

theorem lookup_of_mem (entry : Sigma β) (member : entry ∈ table.entries) :
    table.lookup entry.1 = some entry.2 :=
  mem_entries_iff.mp member

theorem new_or_other_of_mem_insert {entry : Sigma β}
    (member : entry ∈ (table.insert a b).entries) :
    entry = ⟨a, b⟩ ∨ entry ∈ table.entries ∧ entry.1 ≠ a := by
  rw [AList.entries_insert] at member
  rcases List.mem_cons.mp member with here | old
  · exact .inl here
  · refine .inr ⟨(List.kerase_sublist a table.entries).subset old, fun same => ?_⟩
    have key := List.mem_keys_of_mem old
    rw [same] at key
    exact List.notMem_keys_kerase a table.nodupKeys key

theorem mem_of_mem_insert {entry : Sigma β} (member : entry ∈ (table.insert a b).entries) :
    entry = ⟨a, b⟩ ∨ entry ∈ table.entries :=
  (new_or_other_of_mem_insert member).imp_right And.left

theorem perm_erase (found : table.lookup a = some b) :
    table.entries.Perm (⟨a, b⟩ :: (table.erase a).entries) := by
  have present : a ∈ table.entries.keys :=
    List.mem_keys_of_mem (mem_entries_iff.mpr found)
  obtain ⟨b', before, after, absent, whole, erased⟩ := List.exists_of_kerase present
  have same : b' = b := by
    have : table.lookup a = some b' := mem_entries_iff.mp (by rw [whole]; simp)
    exact Option.some.inj (this.symm.trans found)
  show table.entries.Perm (_ :: List.kerase a table.entries)
  rw [erased, whole, same]
  exact List.perm_middle

theorem erase_of_not_mem (absent : a ∉ table) : table.erase a = table := by
  apply AList.ext
  show List.kerase a table.entries = table.entries
  exact List.kerase_of_notMem_keys absent

theorem length_le_insert : table.entries.length ≤ (table.insert a b).entries.length := by
  rw [AList.entries_insert, List.length_cons]
  show table.entries.length ≤ (table.erase a).entries.length + 1
  by_cases present : a ∈ table
  · obtain ⟨old, found⟩ := Option.isSome_iff_exists.mp (AList.lookup_isSome.mpr present)
    exact Nat.le_of_eq (perm_erase found).length_eq
  · rw [erase_of_not_mem present]
    exact Nat.le_succ _

end Tables
