import Mathlib.Algebra.BigOperators.Finprod

/-
# Ridstore.Lib.Tally — weights summed over a finite map

A map is a partial function that is defined at finitely many keys.  A tally is the sum of the weights of its
values; counters that are kept next to a map are compared with tallies.  What counts is how a tally changes
with one key, how two tallies compare, and how a count splits over the classes of the values.
-/

namespace Ridstore.Lib

open List

variable {α β : Type*} {f : α → Option β} {w w' : β → Nat} {a : α} {o : Option β}

/-- The weight of a value that may be missing. -/
def weigh (w : β → Nat) (o : Option β) : Nat := o.elim 0 w

@[simp] theorem weigh_none : weigh w none = 0 := rfl

@[simp] theorem weigh_some (b : β) : weigh w (some b) = w b := rfl

/-- The map is defined at finitely many keys. -/
def FiniteMap (f : α → Option β) : Prop := {a | f a ≠ none}.Finite

/-- **The tally** of a map. -/
noncomputable def tally (w : β → Nat) (f : α → Option β) : Nat := ∑ᶠ a, weigh w (f a)

theorem FiniteMap.empty : FiniteMap (fun _ : α => (none : Option β)) :=
  Set.finite_empty.subset fun _ h => absurd rfl h

theorem FiniteMap.of_subset {keys : Finset α} (h : ∀ a, f a ≠ none → a ∈ keys) : FiniteMap f :=
  keys.finite_toSet.subset h

theorem FiniteMap.update [DecidableEq α] (h : FiniteMap f) (a : α) (o : Option β) : FiniteMap (Function.update f a o) := by
  refine (h.insert a).subset fun x hx => ?_
  by_cases heq : x = a
  · exact .inl heq
  · refine .inr ?_
    have hx' : Function.update f a o x ≠ none := hx
    rw [Function.update_of_ne heq] at hx'
    exact hx'

/-- A tally is a sum over any finite set that has all the keys. -/
theorem tally_eq_sum {keys : Finset α} (h : ∀ a, f a ≠ none → a ∈ keys) : tally w f = ∑ a ∈ keys, weigh w (f a) := by
  refine finsum_eq_sum_of_support_subset _ fun a ha => h a fun hnone => ha ?_
  show weigh w (f a) = 0
  rw [hnone]
  rfl

/-- **One key changes.** -/
theorem tally_update [DecidableEq α] (hf : FiniteMap f) (w : β → Nat) (a : α) (o : Option β) :
    tally w (Function.update f a o) + weigh w (f a) = tally w f + weigh w o := by
  have hkeys : ∀ x, f x ≠ none → x ∈ insert a hf.toFinset := fun x hx =>
    Finset.mem_insert_of_mem (hf.mem_toFinset.mpr hx)
  have hkeys' : ∀ x, Function.update f a o x ≠ none → x ∈ insert a hf.toFinset := by
    intro x hx
    by_cases heq : x = a
    · exact heq ▸ Finset.mem_insert_self _ _
    · rw [Function.update_of_ne heq] at hx
      exact hkeys x hx
  have hweigh : ∀ x, weigh w (Function.update f a o x) = Function.update (fun x => weigh w (f x)) a (weigh w o) x :=
    fun x => Function.apply_update (fun _ => weigh w) f a o x
  rw [tally_eq_sum hkeys, tally_eq_sum hkeys', Finset.sum_congr rfl fun x _ => hweigh x,
    Finset.sum_update_of_mem (Finset.mem_insert_self _ _),
    ← Finset.add_sum_erase _ (fun x => weigh w (f x)) (Finset.mem_insert_self a hf.toFinset), Finset.erase_eq]
  omega

theorem tally_mono (hf : FiniteMap f) (h : ∀ a b, f a = some b → w b ≤ w' b) : tally w f ≤ tally w' f := by
  have hkeys : ∀ a, f a ≠ none → a ∈ hf.toFinset := fun a ha => hf.mem_toFinset.mpr ha
  rw [tally_eq_sum hkeys, tally_eq_sum hkeys]
  refine Finset.sum_le_sum fun a _ => ?_
  cases hfa : f a with
  | none => exact Nat.le_refl _
  | some b => exact h a b hfa

theorem tally_mul (hf : FiniteMap f) (c : Nat) (w : β → Nat) : tally (fun b => c * w b) f = c * tally w f := by
  have hkeys : ∀ a, f a ≠ none → a ∈ hf.toFinset := fun a ha => hf.mem_toFinset.mpr ha
  rw [tally_eq_sum hkeys, tally_eq_sum hkeys, Finset.mul_sum]
  refine Finset.sum_congr rfl fun a _ => ?_
  cases f a <;> rfl

/-- The weight of a value is at most the tally. -/
theorem le_tally (hf : FiniteMap f) {b : β} (h : f a = some b) : w b ≤ tally w f := by
  have hkeys : ∀ a, f a ≠ none → a ∈ hf.toFinset := fun a ha => hf.mem_toFinset.mpr ha
  have ha : a ∈ hf.toFinset := hkeys a (by rw [h]; exact Option.some_ne_none b)
  rw [tally_eq_sum hkeys]
  have hle := Finset.single_le_sum (f := fun a => weigh w (f a)) (fun _ _ => Nat.zero_le _) ha
  rw [h] at hle
  exact hle

theorem tally_eq_zero (h : ∀ a b, f a = some b → w b = 0) : tally w f = 0 := by
  refine finsum_eq_zero_of_forall_eq_zero fun a => ?_
  cases hfa : f a with
  | none => rfl
  | some b => exact h a b hfa

theorem exists_of_tally_ne_zero (h : tally w f ≠ 0) : ∃ a b, f a = some b ∧ w b ≠ 0 := by
  by_contra hnone
  push Not at hnone
  exact h (tally_eq_zero hnone)

/-- The number of keys is at most that of a set which has all of them. -/
theorem tally_one_le {keys : Finset α} (h : ∀ a, f a ≠ none → a ∈ keys) : tally (fun _ => 1) f ≤ keys.card := by
  rw [tally_eq_sum h, Finset.card_eq_sum_ones]
  refine Finset.sum_le_sum fun a _ => ?_
  cases f a with
  | none => exact Nat.zero_le _
  | some b => exact Nat.le_refl _

/-- **Different keys have different values of a list**: the tally is at most the weight of the list. -/
theorem tally_le_sum [DecidableEq β] (hf : FiniteMap f) {l : List β} (hl : l.Nodup)
    (hinj : ∀ a a' b, f a = some b → f a' = some b → a = a') (hmem : ∀ a b, f a = some b → w b ≠ 0 → b ∈ l) :
    tally w f ≤ (l.map w).sum := by
  have hkeys : ∀ a, f a ≠ none → a ∈ hf.toFinset := fun a ha => hf.mem_toFinset.mpr ha
  -- the keys whose weight counts go to their values
  let counted := hf.toFinset.filter fun a => weigh w (f a) ≠ 0
  have hvalue : ∀ a ∈ counted, ∃ b, f a = some b ∧ w b ≠ 0 := by
    intro a ha
    have hne := (Finset.mem_filter.mp ha).2
    cases hfa : f a with
    | none => rw [hfa] at hne; exact absurd rfl hne
    | some b => rw [hfa] at hne; exact ⟨b, rfl, hne⟩
  have hinjOn : Set.InjOn f counted := by
    intro a ha a' _ heq
    obtain ⟨b, hb, -⟩ := hvalue a ha
    exact hinj a a' b hb (heq ▸ hb)
  have hsub : counted.image f ⊆ l.toFinset.image some := by
    intro o ho
    obtain ⟨a, ha, rfl⟩ := Finset.mem_image.mp ho
    obtain ⟨b, hb, hne⟩ := hvalue a ha
    exact Finset.mem_image.mpr ⟨b, mem_toFinset.mpr (hmem a b hb hne), hb.symm⟩
  calc tally w f = ∑ a ∈ counted, weigh w (f a) := by rw [tally_eq_sum hkeys, Finset.sum_filter_ne_zero]
    _ = ∑ o ∈ counted.image f, weigh w o := (Finset.sum_image hinjOn).symm
    _ ≤ ∑ o ∈ l.toFinset.image some, weigh w o := Finset.sum_le_sum_of_subset hsub
    _ = ∑ b ∈ l.toFinset, w b := Finset.sum_image fun _ _ _ _ h => Option.some.inj h
    _ = (l.map w).sum := sum_toFinset w hl

/-- **A count splits over the classes of the values.** -/
theorem tally_classes {κ : Type*} [DecidableEq κ] (hf : FiniteMap f) (key : β → κ) {keys : List κ} (hnodup : keys.Nodup)
    (hmem : ∀ a b, f a = some b → key b ∈ keys) :
    (keys.map fun k => tally (fun b => if key b = k then 1 else 0) f).sum = tally (fun _ => 1) f := by
  have hdom : ∀ a, f a ≠ none → a ∈ hf.toFinset := fun a ha => hf.mem_toFinset.mpr ha
  rw [← sum_toFinset _ hnodup, tally_eq_sum hdom, Finset.sum_congr rfl fun k _ => tally_eq_sum hdom, Finset.sum_comm]
  refine Finset.sum_congr rfl fun a _ => ?_
  cases hfa : f a with
  | none => exact Finset.sum_eq_zero fun _ _ => rfl
  | some b =>
    show ∑ k ∈ keys.toFinset, (if key b = k then 1 else 0) = 1
    rw [Finset.sum_ite_eq, if_pos (mem_toFinset.mpr (hmem a b hfa))]

end Ridstore.Lib
