import Mathlib.Data.List.AList
import Mathlib.Logic.Embedding.Basic

/-!
# Association lists under other names

An association list with its keys renamed one to one and its values mapped. It has the same entries in the same order,
so inserting, erasing and looking up commute with the renaming.
-/

namespace AList

variable {α β γ δ : Type*}

/-- The entry under its new name. -/
def renameEntry (f : α ↪ β) (g : γ → δ) (x : (_ : α) × γ) : (_ : β) × δ := ⟨f x.1, g x.2⟩

def rename (f : α ↪ β) (g : γ → δ) (l : AList fun _ : α => γ) : AList fun _ : β => δ where
  entries := l.entries.map (renameEntry f g)
  nodupKeys := by
    have keys : (l.entries.map (renameEntry f g)).keys = l.keys.map f := by
      simp only [List.keys, AList.keys, List.map_map]
      rfl
    rw [List.NodupKeys, keys]
    exact l.keys_nodup.map f.injective

variable {f : α ↪ β} {g : γ → δ} {l : AList fun _ : α => γ}

@[simp] theorem rename_entries : (l.rename f g).entries = l.entries.map (renameEntry f g) := rfl

variable [DecidableEq α] [DecidableEq β]

theorem kerase_rename (k : α) (entries : List ((_ : α) × γ)) :
    List.kerase (f k) (entries.map (renameEntry f g)) = (List.kerase k entries).map (renameEntry f g) := by
  have same : ((fun x : (_ : β) × δ => decide (f k = x.1)) ∘ renameEntry f g) = fun x => decide (k = x.1) := by
    funext x
    exact decide_eq_decide.2 f.injective.eq_iff
  rw [List.kerase, List.eraseP_map, same, List.kerase]

@[simp] theorem rename_erase (k : α) : (l.erase k).rename f g = (l.rename f g).erase (f k) :=
  AList.ext (kerase_rename k l.entries).symm

@[simp] theorem rename_insert (k : α) (v : γ) : (l.insert k v).rename f g = (l.rename f g).insert (f k) (g v) := by
  apply AList.ext
  rw [rename_entries, AList.entries_insert, AList.entries_insert, rename_entries, kerase_rename]
  rfl

theorem lookup_rename (k : α) : (l.rename f g).lookup (f k) = (l.lookup k).map g := by
  obtain ⟨entries, nodup⟩ := l
  show List.dlookup (f k) (entries.map (renameEntry f g)) = (List.dlookup k entries).map g
  induction entries with
  | nil => rfl
  | cons x entries ih =>
    by_cases here : k = x.1
    · subst here
      rw [List.map_cons, renameEntry, List.dlookup_cons_eq, List.dlookup_cons_eq, Option.map_some]
    · have other : f k ≠ (renameEntry f g x).1 := fun same => here (f.injective same)
      rw [List.map_cons, List.dlookup_cons_ne _ _ other, List.dlookup_cons_ne _ _ here]
      exact ih (List.nodupKeys_cons.1 nodup).2

omit [DecidableEq α] [DecidableEq β] in
theorem mem_rename {b : β} : b ∈ l.rename f g ↔ ∃ k ∈ l, f k = b := by
  simp only [AList.mem_keys, AList.keys, List.keys, rename_entries, List.map_map, List.mem_map]
  constructor
  · rintro ⟨x, hx, rfl⟩
    exact ⟨x.1, ⟨x, hx, rfl⟩, rfl⟩
  · rintro ⟨k, ⟨x, hx, rfl⟩, rfl⟩
    exact ⟨x, hx, rfl⟩

end AList
