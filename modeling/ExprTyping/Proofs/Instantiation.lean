import ExprTyping.Proofs.Renaming
import ExprTyping.Proofs.SubstitutedTypes
import ExprTyping.Proofs.TypeInvariant

namespace ExprTyping

theorem varName_injective : Function.Injective varName := by
  intro n k h
  have hdigits : Nat.toDigits 10 n = Nat.toDigits 10 k := by
    simpa [varName] using congrArg String.toList h
  rw [← Nat.ofDigitChars_ten_toDigits (n := n), hdigits, Nat.ofDigitChars_ten_toDigits]

theorem varName_ne_of_length_lt {p : String} (h : p.length < 4) (k : Nat) : varName k ≠ p := by
  rintro rfl
  have hvar : "_var".length = 4 := rfl
  rw [varName, String.length_append] at h
  omega

def inUse (n : Nat) : Set String := {p | ∀ k, varName k = p → k < n}

theorem varName_mem_inUse {k n : Nat} : varName k ∈ inUse n ↔ k < n := by
  refine ⟨fun h => h k rfl, fun h j hj => ?_⟩
  rwa [varName_injective hj]

theorem inUse_mono {n k : Nat} (h : n ≤ k) : inUse n ⊆ inUse k :=
  fun _ hp j hj => Nat.lt_of_lt_of_le (hp j hj) h

namespace Bindings

variable {m : Bindings}

def Flat (m : Bindings) : Prop :=
  ∀ p t, m.find? (.param p) = some t → ∀ q ∈ t.params, m.find? (.param q) = none

theorem Flat.wf (hk : m.ParamKeys) (h : m.Flat) : m.Wf := by
  refine ⟨hk, fun p hp => ?_⟩
  obtain ⟨q, ⟨t, ht, hq⟩, -⟩ := Relation.TransGen.head'_iff.1 hp
  obtain ⟨r, -, u, hu, hpu⟩ := Relation.TransGen.tail'_iff.1 hp
  rw [h r u hu p hpu] at ht
  cases ht

theorem Flat.subst (hk : m.ParamKeys) (h : m.Flat) (t : Ty) :
    m.subst false t = t.inst fun p => (m.find? (.param p)).getD (.param p) := by
  have hm := h.wf hk
  rw [hk.subst_eq_inst]
  refine Ty.inst_congr fun p _ => ?_
  cases hp : m.find? (.param p) with
  | none => exact hk.subst_free hp
  | some s =>
    have hs : m.Irreducible false s := fun q hq => ⟨h p s hp q hq, rfl⟩
    rw [solution, hm.subst_bound hp, hs.subst_eq hk]
    rfl

def vars (n k : Nat) : Set String := {p | ∃ j, n ≤ j ∧ j < k ∧ varName j = p}

theorem varName_mem_vars {j n k : Nat} : varName j ∈ vars n k ↔ n ≤ j ∧ j < k := by
  constructor
  · rintro ⟨i, hn, hk, heq⟩
    rw [← varName_injective heq]
    exact ⟨hn, hk⟩
  · rintro ⟨hn, hk⟩
    exact ⟨j, hn, hk, rfl⟩

theorem vars_mono {n k l : Nat} (h : k ≤ l) : vars n k ⊆ vars n l := by
  rintro p ⟨j, hn, hk, heq⟩
  exact ⟨j, hn, by omega, heq⟩

end Bindings

namespace Overload

open Bindings

variable {o : Overload} {n : Nat} {ps : List String} {p : String}

def Scoped (o : Overload) : Prop := ∀ t ∈ o.result :: o.params, t.Over {p | p ∈ o.typeParams}

def freshName (n : Nat) : List String → String → String
  | [], p => p
  | q :: ps, p => if p = q ∧ p ∉ ps then varName n else freshName (n + 1) ps p

theorem freshName_mem_vars (hp : p ∈ ps) : freshName n ps p ∈ vars n (n + ps.length) := by
  induction ps generalizing n with
  | nil => cases hp
  | cons q ps ih =>
    rw [freshName, List.length_cons]
    split
    · rw [varName_mem_vars]
      omega
    · next hq =>
      obtain ⟨k, hk, hlt, heq⟩ := ih (n := n + 1) (by grind)
      exact ⟨k, by omega, by omega, heq⟩

theorem injOn_freshName (n : Nat) (ps : List String) :
    Set.InjOn (freshName n ps) {p | p ∈ ps} := by
  induction ps generalizing n with
  | nil => simp
  | cons q ps ih =>
    have hlast : ∀ p ∈ ps, freshName (n + 1) ps p ≠ varName n := by
      intro p hp heq
      have hvar := freshName_mem_vars (n := n + 1) hp
      rw [heq, varName_mem_vars] at hvar
      omega
    intro p hp p' hp' heq
    rw [Set.mem_ofPred_eq, List.mem_cons] at hp hp'
    simp only [freshName] at heq
    split at heq <;> split at heq
    · next h h' => exact h.1.trans h'.1.symm
    · next h h' => exact absurd heq.symm (hlast p' (by grind))
    · next h h' => exact absurd heq (hlast p (by grind))
    · next h h' => exact ih (n + 1) (by grind) (by grind) heq

theorem Scoped.over_vars (ho : o.Scoped) (n : Nat) :
    ∀ u ∈ o.params.map (Ty.rename (freshName n o.typeParams)),
      u.Over (vars n (n + o.typeParams.length)) := by
  intro u hu p hp
  obtain ⟨s, hs, rfl⟩ := List.mem_map.1 hu
  obtain ⟨q, hq, rfl⟩ := Ty.mem_params_rename.1 hp
  exact freshName_mem_vars (ho s (List.mem_cons_of_mem _ hs) q hq)

theorem find?_freshParams_eq (n : Nat) (ps : List String) (m : Bindings) (p : String) :
    (freshParams n ps m).1.find? (.param p) =
      if p ∈ ps then some (.param (freshName n ps p)) else m.find? (.param p) := by
  induction ps generalizing n m with
  | nil => simp [freshParams]
  | cons q ps ih =>
    rw [freshParams, ih, Table.find?_insert, freshName]
    by_cases hps : p ∈ ps
    · simp [hps]
    · by_cases hq : p = q
      · subst hq
        simp [hps, freshVar]
      · simp [hps, hq, Ne.symm hq]

theorem flat_freshParams (hn : ∀ k, n ≤ k → varName k ∉ ps) : (freshParams n ps {}).1.Flat := by
  intro p t ht q hq
  rw [find?_freshParams_eq] at ht ⊢
  split at ht
  · next hp =>
    cases ht
    obtain ⟨k, hk, -, hname⟩ := freshName_mem_vars (n := n) hp
    rw [List.mem_singleton.1 hq, ← hname, if_neg (hn k hk)]
    rfl
  · cases ht

theorem freshName_of_not_mem (hp : p ∉ ps) : freshName n ps p = p := by
  induction ps generalizing n with
  | nil => rfl
  | cons q ps ih =>
    rw [List.mem_cons, not_or] at hp
    rw [freshName, if_neg fun h => hp.1 h.1, ih hp.2]

theorem instantiate_eq (hn : ∀ k, n ≤ k → varName k ∉ o.typeParams) :
    o.instantiate n = (o.params.map (Ty.rename (freshName n o.typeParams)),
      o.result.rename (freshName n o.typeParams), n + o.typeParams.length) := by
  have hsubst : ∀ t,
      (freshParams n o.typeParams {}).1.subst false t = t.rename (freshName n o.typeParams) := by
    intro t
    rw [(flat_freshParams hn).subst (TypeInvariant.paramKeys_freshParams n o.typeParams)]
    refine Ty.inst_congr fun p _ => ?_
    rw [find?_freshParams_eq]
    split
    · rfl
    · next hp => rw [freshName_of_not_mem hp]; rfl
  rw [instantiate]
  split
  · simp only [nextVar_freshParams, hsubst]
    rw [List.map_congr_left fun t _ => hsubst t]
  · next hp =>
    have hnil : o.typeParams = [] := by simpa [isParametric] using hp
    have hid : ∀ t : Ty, t.rename (freshName n []) = t := fun t => Ty.inst_param t
    rw [hnil, hid, List.map_congr_left fun t _ => hid t, List.map_id']
    rfl

end Overload

end ExprTyping
