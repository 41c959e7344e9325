import Mathlib.Data.Set.Lattice
import Mathlib.Order.CompletePartialOrder

namespace Locality
set_option autoImplicit true

/-- A view of a state as parts, one value for each key, that together determine it. -/
structure Parts (σ : Type u) (κ : Type v) where
  Value : κ → Type w
  part : σ → (k : κ) → Value k
  determined : ∀ s t, (∀ k, part s k = part t k) → s = t

/-- Two states have the same parts under some of the keys. -/
def Parts.AgreeOn (P : Parts σ κ) (K : Set κ) (s t : σ) : Prop :=
  ∀ k ∈ K, P.part s k = P.part t k

variable {P : Parts σ κ} {step : σ → ι → Except ε (ω × σ)} {reads writes : ι → Set κ}

theorem Parts.AgreeOn.symm (h : P.AgreeOn K s t) : P.AgreeOn K t s := fun k hk => (h k hk).symm

theorem Parts.AgreeOn.mono (h : P.AgreeOn K s t) (hL : L ⊆ K) : P.AgreeOn L s t :=
  fun k hk => h k (hL hk)

/-- Each input changes only the parts it writes, and what it answers and leaves there depends
only on the parts it reads. -/
structure Local (P : Parts σ κ) (step : σ → ι → Except ε (ω × σ)) (reads writes : ι → Set κ) :
    Prop where
  frame : ∀ s x o s', step s x = .ok (o, s') → ∀ k, k ∉ writes x → P.part s' k = P.part s k
  depends : ∀ s t x o s', P.AgreeOn (reads x) s t → step s x = .ok (o, s') →
    ∃ t', step t x = .ok (o, t') ∧ P.AgreeOn (writes x) s' t'

theorem Local.agreeOn (h : Local P step reads writes) (hs : step s x = .ok (o, s'))
    (hK : Disjoint (writes x) K) : P.AgreeOn K s s' := by
  intro k hk
  exact (h.frame s x o s' hs k fun hw => Set.disjoint_left.1 hK hw hk).symm

/-- Inputs that do not write what the other one reads or writes can be exchanged. -/
theorem Local.exchange (h : Local P step reads writes) (hxy : Disjoint (writes x) (reads y))
    (hyx : Disjoint (writes y) (reads x)) (hw : Disjoint (writes x) (writes y))
    (hx : step s x = .ok (o, s₁)) (hy : step s₁ y = .ok (o', s₂)) :
    ∃ t₁, step s y = .ok (o', t₁) ∧ step t₁ x = .ok (o, s₂) := by
  obtain ⟨t₁, ht₁, hagree₁⟩ := h.depends _ _ _ _ _ (h.agreeOn hx hxy).symm hy
  obtain ⟨t₂, ht₂, hagree₂⟩ := h.depends _ _ _ _ _ (h.agreeOn ht₁ hyx) hx
  refine ⟨t₁, ht₁, ?_⟩
  suffices he : t₂ = s₂ by rw [ht₂, he]
  apply P.determined
  intro k
  by_cases hkx : k ∈ writes x
  · rw [← hagree₂ k hkx, h.frame _ _ _ _ hy k (Set.disjoint_left.1 hw hkx)]
  · rw [h.frame _ _ _ _ ht₂ k hkx]
    by_cases hky : k ∈ writes y
    · exact (hagree₁ k hky).symm
    · rw [h.frame _ _ _ _ ht₁ k hky, h.frame _ _ _ _ hy k hky, h.frame _ _ _ _ hx k hkx]

end Locality
