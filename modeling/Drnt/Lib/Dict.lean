import Mathlib.Data.List.Nodup

/-! Insertion-ordered dictionaries: assigning to a present key keeps its place,
assigning to a new key appends. Keys are distinct by construction. -/
namespace Lib

variable {κ α β : Type} [DecidableEq κ]

def lookup (k : κ) : List (κ × α) → Option α
  | [] => none
  | (k', v) :: rest => if k' = k then some v else lookup k rest

def replace (k : κ) (v : α) : List (κ × α) → List (κ × α)
  | [] => [(k, v)]
  | (k', v') :: rest => if k' = k then (k, v) :: rest else (k', v') :: replace k v rest

theorem lookup_eq_none {k : κ} {es : List (κ × α)} :
    lookup k es = none ↔ k ∉ es.map Prod.fst := by
  induction es with
  | nil => simp [lookup]
  | cons e rest ih =>
    obtain ⟨k', v⟩ := e
    by_cases h : k' = k
    · simp [lookup, h]
    · simp [lookup, h, ih, Ne.symm h]

theorem lookup_replace_self (k : κ) (v : α) (es : List (κ × α)) :
    lookup k (replace k v es) = some v := by
  induction es with
  | nil => simp [replace, lookup]
  | cons e rest ih =>
    obtain ⟨k', v'⟩ := e
    by_cases h : k' = k <;> simp [replace, lookup, h, ih]

theorem lookup_replace_ne {k j : κ} (hj : j ≠ k) (v : α) (es : List (κ × α)) :
    lookup j (replace k v es) = lookup j es := by
  induction es with
  | nil => simp [replace, lookup, Ne.symm hj]
  | cons e rest ih =>
    obtain ⟨k', v'⟩ := e
    by_cases h : k' = k
    · subst h; simp [replace, lookup, Ne.symm hj]
    · simp [replace, lookup, h, ih]

theorem keys_replace (k : κ) (v : α) (es : List (κ × α)) :
    (replace k v es).map Prod.fst =
      if k ∈ es.map Prod.fst then es.map Prod.fst else es.map Prod.fst ++ [k] := by
  induction es with
  | nil => simp [replace]
  | cons e rest ih =>
    obtain ⟨k', v'⟩ := e
    by_cases h : k' = k
    · simp [replace, h]
    · rw [replace, if_neg h, List.map_cons, ih]
      by_cases hm : k ∈ rest.map Prod.fst
      · simp [hm]
      · simp [hm, Ne.symm h]

theorem lookup_mem {k : κ} {v : α} {es : List (κ × α)} (h : lookup k es = some v) :
    (k, v) ∈ es := by
  induction es with
  | nil => simp [lookup] at h
  | cons e rest ih =>
    obtain ⟨k', v'⟩ := e
    by_cases hk : k' = k
    · subst hk; simp [lookup] at h; simp [h]
    · simp [lookup, hk] at h; exact List.mem_cons_of_mem _ (ih h)

theorem lookup_of_mem {k : κ} {v : α} {es : List (κ × α)} (hn : (es.map Prod.fst).Nodup)
    (h : (k, v) ∈ es) : lookup k es = some v := by
  induction es with
  | nil => simp at h
  | cons e rest ih =>
    obtain ⟨k', v'⟩ := e
    simp only [List.map_cons, List.nodup_cons] at hn
    rcases List.mem_cons.mp h with heq | hm
    · cases heq; simp [lookup]
    · have hne : k' ≠ k := by
        rintro rfl
        exact hn.1 (List.mem_map_of_mem (f := Prod.fst) hm)
      simp [lookup, hne, ih hn.2 hm]

@[ext] structure Dict (κ α : Type) where
  entries : List (κ × α)
  nodup : (entries.map Prod.fst).Nodup

namespace Dict

instance [Repr κ] [Repr α] : Repr (Dict κ α) := ⟨fun d n => reprPrec d.entries n⟩

instance [DecidableEq α] : DecidableEq (Dict κ α) := fun _ _ =>
  decidable_of_iff _ Dict.ext_iff.symm

def empty : Dict κ α := ⟨[], List.nodup_nil⟩

instance : EmptyCollection (Dict κ α) := ⟨empty⟩

def get? (d : Dict κ α) (k : κ) : Option α := lookup k d.entries

def set (d : Dict κ α) (k : κ) (v : α) : Dict κ α where
  entries := replace k v d.entries
  nodup := by
    rw [keys_replace]
    split
    · exact d.nodup
    · rename_i h
      exact List.nodup_append.mpr ⟨d.nodup, List.nodup_singleton k, by
        intro a ha b hb; rw [List.mem_singleton.mp hb]; rintro rfl; exact h ha⟩

/-- The entries a test on key and value keeps, in order. -/
def filter (d : Dict κ α) (p : κ → α → Bool) : Dict κ α where
  entries := d.entries.filter fun e => p e.1 e.2
  nodup := d.nodup.sublist (List.filter_sublist.map Prod.fst)

def erase (d : Dict κ α) (k : κ) : Dict κ α := d.filter fun k' _ => !decide (k' = k)

/-- Assign through a reference: nothing happens when the key is absent. -/
def modify (d : Dict κ α) (k : κ) (f : α → α) : Dict κ α :=
  match d.get? k with
  | none => d
  | some v => d.set k (f v)

def keys (d : Dict κ α) : List κ := d.entries.map Prod.fst

def values (d : Dict κ α) : List α := d.entries.map Prod.snd

@[simp] theorem get?_empty (k : κ) : (∅ : Dict κ α).get? k = none := rfl

@[simp] theorem get?_set_self (d : Dict κ α) (k : κ) (v : α) : (d.set k v).get? k = some v :=
  lookup_replace_self k v d.entries

theorem get?_set_ne (d : Dict κ α) {k j : κ} (h : j ≠ k) (v : α) :
    (d.set k v).get? j = d.get? j :=
  lookup_replace_ne h v d.entries

theorem get?_set (d : Dict κ α) (k j : κ) (v : α) :
    (d.set k v).get? j = if j = k then some v else d.get? j := by
  by_cases h : j = k
  · subst h; simp
  · simp [h, get?_set_ne]

theorem get?_eq_some_iff {d : Dict κ α} {k : κ} {v : α} :
    d.get? k = some v ↔ (k, v) ∈ d.entries :=
  ⟨lookup_mem, lookup_of_mem d.nodup⟩

theorem get?_eq_none_iff {d : Dict κ α} {k : κ} : d.get? k = none ↔ k ∉ d.keys :=
  lookup_eq_none

omit [DecidableEq κ] in
@[simp] theorem keys_empty : (∅ : Dict κ α).keys = [] := rfl

theorem mem_keys_set {d : Dict κ α} {k j : κ} {v : α} :
    j ∈ (d.set k v).keys ↔ j ∈ d.keys ∨ j = k := by
  rw [keys, set, keys_replace]
  split
  · rename_i mem
    constructor
    · exact .inl
    · rintro (h | rfl)
      · exact h
      · exact mem
  · rw [List.mem_append, List.mem_singleton]
    rfl

/-- The keys of a dictionary written from the entries of another under new names. -/
theorem mem_keys_foldl_set {f : κ → κ} {j : κ} (es : List (κ × α)) (d : Dict κ α) :
    j ∈ (es.foldl (fun d e => d.set (f e.1) e.2) d).keys ↔
      j ∈ d.keys ∨ ∃ k ∈ es.map Prod.fst, f k = j := by
  induction es generalizing d with
  | nil => simp
  | cons e es ih =>
    rw [List.foldl_cons, ih, mem_keys_set, or_assoc, List.map_cons, List.exists_mem_cons_iff,
      eq_comm (a := j)]

theorem get?_filter (d : Dict κ α) (p : κ → α → Bool) (k : κ) :
    (d.filter p).get? k = (d.get? k).filter (p k) := by
  have hf (v : α) : (d.filter p).get? k = some v ↔ d.get? k = some v ∧ p k v = true := by
    simp only [get?_eq_some_iff, filter, List.mem_filter]
  cases h : d.get? k with
  | none =>
    have hn : (d.filter p).get? k = none := by
      cases hg : (d.filter p).get? k with
      | none => rfl
      | some v => have := (hf v).mp hg; simp [h] at this
    simp [hn]
  | some v =>
    by_cases hp : p k v = true
    · rw [(hf v).mpr ⟨h, hp⟩]; simp [Option.filter, hp]
    · have hn : (d.filter p).get? k = none := by
        cases hg : (d.filter p).get? k with
        | none => rfl
        | some w =>
          obtain ⟨hw, hpw⟩ := (hf w).mp hg
          rw [h] at hw; cases hw; exact absurd hpw hp
      rw [hn]; simp [Option.filter, hp]

@[simp] theorem get?_erase_self (d : Dict κ α) (k : κ) : (d.erase k).get? k = none := by
  simp [erase, get?_filter]

theorem get?_erase_ne (d : Dict κ α) {k j : κ} (h : j ≠ k) :
    (d.erase k).get? j = d.get? j := by
  rw [erase, get?_filter]
  cases d.get? j <;> simp [h]

theorem get?_modify (d : Dict κ α) (k j : κ) (f : α → α) :
    (d.modify k f).get? j = if j = k then (d.get? k).map f else d.get? j := by
  unfold modify
  cases h : d.get? k with
  | none => by_cases hj : j = k <;> simp [hj, h]
  | some v => simp [get?_set]

@[simp] theorem get?_modify_self (d : Dict κ α) (k : κ) (f : α → α) :
    (d.modify k f).get? k = (d.get? k).map f := by
  simp [get?_modify]

theorem get?_modify_ne (d : Dict κ α) {k j : κ} (h : j ≠ k) (f : α → α) :
    (d.modify k f).get? j = d.get? j := by
  simp [get?_modify, h]

theorem keys_modify (d : Dict κ α) (k : κ) (f : α → α) : (d.modify k f).keys = d.keys := by
  unfold modify
  cases h : d.get? k with
  | none => rfl
  | some v =>
    have mem : k ∈ d.keys := List.mem_map_of_mem (get?_eq_some_iff.mp h)
    exact (keys_replace ..).trans (if_pos mem)

end Dict

end Lib
