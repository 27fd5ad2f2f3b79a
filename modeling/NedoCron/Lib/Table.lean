import Mathlib.Data.List.AList

/-!
# Finite tables

A hash table with one entry per key, as an association list whose keys are distinct
(`AList`).  Mathlib has the lookup, the insertion and the removal of one key; this file adds
the operations that touch many entries:

* `mapEntries` — rewrite every value in place, its key at hand;
* `adjust` — rewrite the value of one key, if it is there;
* `keep` — drop every entry that fails a test.
-/

/-- A table from keys to values. -/
abbrev Table (K V : Type) := AList fun _ : K => V

namespace Table

variable {K V : Type} [DecidableEq K]

/-- Rewrite every value; the keys and their order stay. -/
def mapEntries (f : K → V → V) (t : Table K V) : Table K V where
  entries := t.entries.map fun e => ⟨e.1, f e.1 e.2⟩
  nodupKeys := by
    have h : (t.entries.map fun e => (⟨e.1, f e.1 e.2⟩ : Sigma fun _ : K => V)).keys
        = t.entries.keys := by
      simp [List.keys]
    rw [List.NodupKeys, h]
    exact t.nodupKeys

/-- A lookup skips an entry under another key. -/
private theorem dlookup_skip {k k' : K} (h : k ≠ k') (v : V) (es : List (Sigma fun _ : K => V)) :
    List.dlookup k ((⟨k', v⟩ : Sigma fun _ : K => V) :: es) = List.dlookup k es :=
  List.dlookup_cons_ne es (⟨k', v⟩ : Sigma fun _ : K => V) h

/-- The entry under a key, after every entry has been changed. -/
theorem lookup_mapEntries (f : K → V → V) (t : Table K V) (k : K) :
    (mapEntries f t).lookup k = (t.lookup k).map (f k) := by
  have key : ∀ es : List (Sigma fun _ : K => V),
      List.dlookup k (es.map fun e => (⟨e.1, f e.1 e.2⟩ : Sigma fun _ : K => V))
        = Option.map (β := V) (f k) (List.dlookup k es) := by
    intro es
    induction es with
    | nil => rfl
    | cons e es ih =>
      obtain ⟨k', v⟩ := e
      by_cases hk : k = k'
      · subst hk; simp
      · simp only [List.map_cons, dlookup_skip hk, ih]
  exact key t.entries

omit [DecidableEq K] in

/-- Changing entries changes no key. -/
@[simp] theorem keys_mapEntries (f : K → V → V) (t : Table K V) :
    (mapEntries f t).keys = t.keys := by
  simp [AList.keys, mapEntries, List.keys]

/-- Rewrite the value stored under `k`, if there is one. -/
def adjust (k : K) (f : V → V) (t : Table K V) : Table K V :=
  mapEntries (fun k' v => if k' = k then f v else v) t

/-- The changed entry. -/
theorem lookup_adjust_self (k : K) (f : V → V) (t : Table K V) :
    (adjust k f t).lookup k = (t.lookup k).map f := by
  simp [adjust, lookup_mapEntries]

/-- Every other entry. -/
theorem lookup_adjust_ne {k k' : K} (h : k' ≠ k) (f : V → V) (t : Table K V) :
    (adjust k f t).lookup k' = t.lookup k' := by
  simp [adjust, lookup_mapEntries, h]

/-- Drop every entry whose value fails `p`. -/
def keep (p : K → V → Bool) (t : Table K V) : Table K V where
  entries := t.entries.filter fun e => p e.1 e.2
  nodupKeys := List.NodupKeys.sublist List.filter_sublist t.nodupKeys

/-- The entries that are kept. -/
theorem lookup_keep (p : K → V → Bool) (t : Table K V) (k : K) :
    (keep p t).lookup k = (t.lookup k).filter (p k) := by
  have key : ∀ es : List (Sigma fun _ : K => V), es.NodupKeys →
      List.dlookup k (es.filter fun e => p e.1 e.2)
        = Option.filter (α := V) (p k) (List.dlookup k es) := by
    intro es hnd
    induction es with
    | nil => rfl
    | cons e es ih =>
      obtain ⟨k', v⟩ := e
      rw [List.nodupKeys_cons] at hnd
      obtain ⟨hnot, hnd⟩ := hnd
      by_cases hk : k = k'
      · subst hk
        have hes : List.dlookup k es = none := List.dlookup_eq_none.mpr hnot
        by_cases hp : p k v <;> simp [Option.filter, hp, ih hnd, hes]
      · rw [dlookup_skip hk, ← ih hnd]
        by_cases hp : p k' v
        · rw [List.filter_cons_of_pos (by simpa using hp), dlookup_skip hk]
        · rw [List.filter_cons_of_neg (by simpa using hp)]
  exact key t.entries t.nodupKeys

end Table
