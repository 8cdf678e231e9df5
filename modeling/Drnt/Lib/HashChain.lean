import Mathlib.Data.List.Induction
import Mathlib.Data.List.Forall2
import Mathlib.Tactic.Tauto

/-! Hash chains: each item names the digest of the item before it, and the first names an anchor.
A chain may be cut into segments that are anchored anew. -/
namespace Lib.HashChain

variable {α H : Type} (link : α → Option H) (digest : α → H)

/-- Each item names the digest of the one before it, the first names `g`. -/
def Linked (g : H) : List α → Prop
  | [] => True
  | x :: xs => link x = some g ∧ Linked (digest x) xs

/-- The digest that the next item has to name. -/
def tip (g : H) (xs : List α) : H := xs.foldl (fun _ x => digest x) g

section Linked

variable {link digest} {g : H}

@[simp] theorem tip_nil : tip digest g [] = g := rfl

@[simp] theorem tip_cons (x : α) (xs : List α) : tip digest g (x :: xs) = tip digest (digest x) xs :=
  rfl

@[simp] theorem tip_concat (xs : List α) (x : α) : tip digest g (xs ++ [x]) = digest x := by
  simp [tip]

/-- The tip depends on the last item only. -/
theorem tip_append {ys : List α} (some : ys ≠ []) (g h : H) (xs zs : List α) :
    tip digest g (xs ++ ys) = tip digest h (zs ++ ys) := by
  obtain ⟨front, last, rfl⟩ := (List.eq_nil_or_concat' ys).resolve_left some
  rw [← List.append_assoc, ← List.append_assoc, tip_concat, tip_concat]

theorem linked_append {xs ys : List α} : Linked link digest g (xs ++ ys) ↔
    Linked link digest g xs ∧ Linked link digest (tip digest g xs) ys := by
  induction xs generalizing g with
  | nil => simp [Linked]
  | cons x xs ih => simp [Linked, ih, and_assoc]

theorem linked_concat {xs : List α} {x : α} : Linked link digest g (xs ++ [x]) ↔
    Linked link digest g xs ∧ link x = some (tip digest g xs) := by
  simp [linked_append, Linked]

/-- Where no two items collide and none collides with the anchor, a chain is determined by its
last item. -/
theorem Linked.unique {same : α → α → Prop} {xs ys : List α} {x y : α}
    (free : ∀ x ∈ xs, ∀ y ∈ ys, digest x = digest y → same x y)
    (anchored : ∀ x, x ∈ xs ∨ x ∈ ys → digest x ≠ g)
    (links : ∀ {x y}, same x y → link x = link y)
    (hx : Linked link digest g (xs ++ [x])) (hy : Linked link digest g (ys ++ [y]))
    (last : same x y) : List.Forall₂ same (xs ++ [x]) (ys ++ [y]) := by
  induction xs using List.reverseRecOn generalizing ys x y with
  | nil =>
    cases ys using List.reverseRecOn with
    | nil => exact .cons last .nil
    | append_singleton ys y' =>
      have first := (linked_concat.mp hx).2
      have later := (linked_concat.mp hy).2
      rw [links last, later, tip_concat] at first
      exact absurd (Option.some.inj first) (anchored y' (.inr (by simp)))
  | append_singleton xs x' ih =>
    have next := (linked_concat.mp hx).2
    rw [tip_concat, links last, (linked_concat.mp hy).2] at next
    cases ys using List.reverseRecOn with
    | nil =>
      exact absurd (Option.some.inj next).symm (anchored x' (.inl (by simp)))
    | append_singleton ys y' =>
      rw [tip_concat] at next
      have before : same x' y' := free x' (by simp) y' (by simp) (Option.some.inj next).symm
      refine List.rel_append (ih (fun a ha b hb => ?_) (fun a ha => ?_)
        (linked_concat.mp hx).1 (linked_concat.mp hy).1 before) (.cons last .nil)
      · exact free a (List.mem_append_left _ ha) b (List.mem_append_left _ hb)
      · exact anchored a (ha.imp (List.mem_append_left _) (List.mem_append_left _))

end Linked

section Segments

variable (anchor : H)

/-- An item may follow a digest, or start a segment at the anchor. -/
def Admits (prev : H) (starts : Bool) (x : α) : Prop :=
  link x = some prev ∨ starts = true ∧ link x = some anchor

instance [DecidableEq H] (prev : H) (starts : Bool) (x : α) :
    Decidable (Admits link anchor prev starts x) := inferInstanceAs (Decidable (_ ∨ _))

/-- A chain in segments; the flags tell where one may start. -/
def Chained (prev : H) : List (Bool × α) → Prop
  | [] => True
  | (starts, x) :: rest => Admits link anchor prev starts x ∧ Chained (digest x) rest

variable {link digest anchor} {prev : H}

theorem chained_append {xs ys : List (Bool × α)} :
    Chained link digest anchor prev (xs ++ ys) ↔ Chained link digest anchor prev xs ∧
      Chained link digest anchor (tip (fun x => digest x.2) prev xs) ys := by
  induction xs generalizing prev with
  | nil => simp [Chained]
  | cons x xs ih => simp [Chained, ih, and_assoc]

/-- Items under another form, which link and digest as they do. -/
theorem chained_map {β : Type} {f : α → β} {link' : β → Option H} {digest' : β → H}
    {xs : List (Bool × α)} (same : ∀ x ∈ xs, link' (f x.2) = link x.2 ∧ digest' (f x.2) = digest x.2) :
    Chained link' digest' anchor prev (xs.map fun x => (x.1, f x.2)) ↔
      Chained link digest anchor prev xs := by
  induction xs generalizing prev with
  | nil => exact Iff.rfl
  | cons x xs ih =>
    obtain ⟨links, digests⟩ := same x (List.mem_cons_self ..)
    have ih := @ih (digest x.2) fun x mem => same x (List.mem_cons_of_mem _ mem)
    simp only [List.map_cons, Chained, Admits, links, digests, ih]

/-- Without starts of segments, but for the first item at the anchor, it is a single chain. -/
theorem chained_iff_linked {xs : List (Bool × α)} (single : ∀ x ∈ xs.tail, x.1 = false) :
    Chained link digest anchor anchor xs ↔ Linked link digest anchor (xs.map (·.2)) := by
  have rest {prev : H} {ys : List (Bool × α)} (plain : ∀ y ∈ ys, y.1 = false) :
      Chained link digest anchor prev ys ↔ Linked link digest prev (ys.map (·.2)) := by
    induction ys generalizing prev with
    | nil => exact Iff.rfl
    | cons y ys ih =>
      have out : y.1 = false := plain y (List.mem_cons_self ..)
      have more : ∀ y ∈ ys, y.1 = false := fun y mem => plain y (List.mem_cons_of_mem _ mem)
      simp [Chained, Linked, Admits, out, ih more]
  cases xs with
  | nil => exact Iff.rfl
  | cons x xs =>
    have single : ∀ y ∈ xs, y.1 = false := single
    simp only [Chained, Linked, Admits, List.map_cons, rest single]
    tauto

end Segments

end Lib.HashChain
