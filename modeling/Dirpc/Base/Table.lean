import Mathlib.Data.List.AList

namespace Base

variable {α β γ : Type*} [DecidableEq α]

def mapTable (f : β → γ) (table : AList fun _ : α => β) : AList fun _ : α => γ :=
  table.entries.foldl (fun copy row => copy.insert row.1 (f row.2)) ∅

def retain (keep : α → Bool) (table : AList fun _ : α => β) : AList fun _ : α => β :=
  ⟨table.entries.filter fun row => keep row.1, table.nodupKeys.sublist List.filter_sublist⟩

/-- An order in which a hash table may be iterated. -/
structure IterOrder (α : Type*) where
  arrange : List α → List α
  perm : ∀ xs, (arrange xs).Perm xs

theorem lookup_foldRows (f : β → γ) {rows : List (Sigma fun _ : α => β)}
    (distinct : rows.NodupKeys) (copy : AList fun _ : α => γ) (key : α) :
    (rows.foldl (fun copy row => copy.insert row.1 (f row.2)) copy).lookup key =
      ((rows.dlookup key).map f).or (copy.lookup key) := by
  induction rows generalizing copy with
  | nil => rfl
  | cons row rows ih =>
    obtain ⟨own, value⟩ := row
    obtain ⟨fresh, later⟩ := List.nodupKeys_cons.mp distinct
    rw [List.foldl_cons, ih later]
    by_cases same : key = own
    · subst same
      rw [List.dlookup_eq_none.mpr fresh, AList.lookup_insert, List.dlookup_cons_eq]
      rfl
    · have skipped : List.dlookup key (⟨own, value⟩ :: rows) = rows.dlookup key :=
        List.dlookup_cons_ne (β := fun _ => β) rows ⟨own, value⟩ same
      rw [AList.lookup_insert_ne same, skipped]

theorem lookup_mapTable (f : β → γ) (table : AList fun _ : α => β) (key : α) :
    (mapTable f table).lookup key = (table.lookup key).map f := by
  rw [mapTable, lookup_foldRows f table.nodupKeys, AList.lookup_empty, Option.or_none]
  rfl

theorem mem_mapTable {f : β → γ} {table : AList fun _ : α => β} {key : α} :
    key ∈ mapTable f table ↔ key ∈ table := by
  rw [← AList.lookup_isSome, ← AList.lookup_isSome, lookup_mapTable, Option.isSome_map]

theorem mapTable_keys_perm (f : β → γ) (table : AList fun _ : α => β) :
    (mapTable f table).keys.Perm table.keys := by
  apply (List.perm_ext_iff_of_nodup (AList.keys_nodup _) (AList.keys_nodup _)).mpr
  intro key
  exact AList.mem_keys.symm.trans (mem_mapTable.trans AList.mem_keys)

theorem dlookup_filter (keep : α → Bool) (rows : List (Sigma fun _ : α => β)) (key : α) :
    (rows.filter fun row => keep row.1).dlookup key =
      if keep key then rows.dlookup key else none := by
  induction rows with
  | nil => simp
  | cons row rows ih =>
    obtain ⟨own, value⟩ := row
    by_cases same : key = own
    · subst same
      cases kept : keep key with
      | true => simp [kept]
      | false => simpa [kept] using ih
    · have skipped : List.dlookup key (⟨own, value⟩ :: rows) = rows.dlookup key :=
        List.dlookup_cons_ne (β := fun _ => β) rows ⟨own, value⟩ same
      rw [skipped, ← ih, List.filter_cons]
      split
      · exact List.dlookup_cons_ne (β := fun _ => β) _ ⟨own, value⟩ same
      · rfl

theorem lookup_retain (keep : α → Bool) (table : AList fun _ : α => β) (key : α) :
    (retain keep table).lookup key = if keep key then table.lookup key else none :=
  dlookup_filter keep table.entries key

theorem filter_rows {rows : List (Sigma fun _ : α => β)} (distinct : rows.NodupKeys) (key : α) :
    rows.filter (fun row => row.1 = key) =
      ((rows.dlookup key).map fun value => ⟨key, value⟩).toList := by
  induction rows with
  | nil => rfl
  | cons row rows ih =>
    obtain ⟨own, value⟩ := row
    obtain ⟨fresh, later⟩ := List.nodupKeys_cons.mp distinct
    by_cases same : own = key
    · subst same
      rw [List.filter_cons_of_pos (by simp), ih later, List.dlookup_eq_none.mpr fresh,
        List.dlookup_cons_eq]
      rfl
    · have skipped : List.dlookup key (⟨own, value⟩ :: rows) = rows.dlookup key :=
        List.dlookup_cons_ne (β := fun _ => β) rows ⟨own, value⟩ (Ne.symm same)
      rw [List.filter_cons_of_neg (by simpa using same), ih later, skipped]

theorem filter_map_of {ι κ : Type*} {f : ι → κ} {p : κ → Bool} {q : ι → Bool}
    (same : ∀ x, p (f x) = q x) (xs : List ι) : (xs.map f).filter p = (xs.filter q).map f := by
  rw [List.filter_map]
  congr 1
  exact List.filter_congr fun x _ => same x

theorem filterMap_keys_sublist {ι κ τ : Type*} {f : ι → Option κ} {key : ι → τ} {key' : κ → τ}
    (same : ∀ x y, f x = some y → key' y = key x) (xs : List ι) :
    ((xs.filterMap f).map key').Sublist (xs.map key) := by
  induction xs with
  | nil => exact List.Sublist.refl _
  | cons x xs ih =>
    cases kept : f x with
    | none =>
      rw [List.filterMap_cons_none kept]
      exact ih.cons _
    | some y =>
      rw [List.filterMap_cons_some kept, List.map_cons, List.map_cons, same x y kept]
      exact ih.cons_cons _

theorem eq_of_perm_toList {ι : Type*} {xs : List ι} {o : Option ι} (perm : xs.Perm o.toList) :
    xs = o.toList := by
  cases o with
  | none => exact perm.eq_nil
  | some x => exact List.perm_singleton.mp perm

theorem filter_key {ι : Type*} {key : ι → α} {rows : List ι} {row : ι}
    (distinct : (rows.map key).Nodup) (member : row ∈ rows) :
    rows.filter (fun other => key other = key row) = [row] := by
  induction rows with
  | nil => cases member
  | cons head rest ih =>
    rw [List.map_cons, List.nodup_cons] at distinct
    rcases List.mem_cons.mp member with rfl | later
    · have others : rest.filter (fun other => key other = key row) = [] := by
        apply List.filter_eq_nil_iff.mpr
        intro other found same
        exact distinct.1 (List.mem_map.mpr ⟨other, found, by simpa using same⟩)
      rw [List.filter_cons_of_pos (by simp), others]
    · have different : key head ≠ key row := by
        intro same
        exact distinct.1 (List.mem_map.mpr ⟨row, later, same.symm⟩)
      rw [List.filter_cons_of_neg (by simpa using different), ih distinct.2 later]

end Base
