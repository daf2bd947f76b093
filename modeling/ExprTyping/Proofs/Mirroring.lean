import ExprTyping.Proofs.CheckedTree
import ExprTyping.Proofs.Instantiation

/-!
# States that mirror each other

Of two checks the one may give out more type variables than the other and otherwise do the same.
Then its variables have other numbers, and a renaming leads from the variables of the narrow check
to those of the wide one. States mirror each other along such a renaming if all that the narrow one
holds is found renamed in the wide one (`State.Mirrors`). What a rule does with bindings, types and
overloads keeps this; whenever variables are given out the renaming is extended (`Extends`).
-/

namespace ExprTyping

section Renamings

variable {φ φ₁ φ₂ : String → String} {n n₁ n₂ j k l : Nat} {p : String} {t : Ty}

theorem exists_of_not_mem_inUse (h : p ∉ inUse n) : ∃ j, n ≤ j ∧ varName j = p := by
  by_contra hnone
  refine h fun j hj => ?_
  by_contra hlt
  exact hnone ⟨j, by omega, hj⟩

structure Extends (n : Nat) (φ : String → String) (n₁ : Nat) (φ₁ : String → String) : Prop where
  le : n ≤ n₁
  eqOn : Set.EqOn φ₁ φ (inUse n)

theorem Extends.refl (n : Nat) (φ : String → String) : Extends n φ n φ :=
  ⟨Nat.le_refl n, Set.eqOn_refl φ _⟩

theorem Extends.of_le (h : n ≤ n₁) : Extends n φ n₁ φ := ⟨h, Set.eqOn_refl φ _⟩

theorem Extends.trans (h : Extends n φ n₁ φ₁) (h' : Extends n₁ φ₁ n₂ φ₂) : Extends n φ n₂ φ₂ :=
  ⟨h.le.trans h'.le, fun _ hp => (h'.eqOn (inUse_mono h.le hp)).trans (h.eqOn hp)⟩

theorem Extends.rename (h : Extends n φ n₁ φ₁) (ht : t.Over (inUse n)) :
    t.rename φ₁ = t.rename φ :=
  Ty.rename_congr fun p hp => h.eqOn (ht p hp)

open Classical in
/-- Follows `φ` on the names in use up to `n`, and leads from the variables after them to those from
number `k` on. -/
noncomputable def shiftFrom (φ : String → String) (n k : Nat) (p : String) : String :=
  if p ∈ inUse n then φ p else varName (k + (Function.invFun varName p - n))

theorem shiftFrom_of_mem (hp : p ∈ inUse n) : shiftFrom φ n k p = φ p := if_pos hp

theorem shiftFrom_varName (hj : n ≤ j) : shiftFrom φ n k (varName j) = varName (k + (j - n)) := by
  have hout : varName j ∉ inUse n := fun h => Nat.not_lt.2 hj (varName_mem_inUse.1 h)
  rw [shiftFrom, if_neg hout, Function.leftInverse_invFun varName_injective]

theorem extends_shiftFrom (φ : String → String) (n k l : Nat) :
    Extends n φ (n + l) (shiftFrom φ n k) :=
  ⟨Nat.le_add_right n l, fun _ hp => shiftFrom_of_mem hp⟩

theorem shiftFrom_freshName {ps : List String} (hp : p ∈ inUse 0) (hφ : φ p = p) (i : Nat) :
    shiftFrom φ n k (Overload.freshName (n + i) ps p) = Overload.freshName (k + i) ps p := by
  induction ps generalizing i with
  | nil => rw [Overload.freshName, shiftFrom_of_mem (inUse_mono (Nat.zero_le n) hp), hφ]; rfl
  | cons q ps ih =>
    rw [Overload.freshName, Overload.freshName]
    split
    · rw [shiftFrom_varName (Nat.le_add_right n i), Nat.add_sub_cancel_left]
    · exact ih (i + 1)

end Renamings

structure Overload.VariableFree (o : Overload) : Prop where
  own : ∀ k, varName k ∉ o.typeParams
  signature : ∀ t ∈ o.result :: o.params, t.Over (inUse 0)

namespace Bindings

variable {φ : String → String} {n k k₁ : Nat} {m m' : Bindings} {t u : Ty}

structure Linked (φ : String → String) (n k : Nat) (m m' : Bindings) : Prop where
  agree : Agree (inUse n) φ m m'
  maps : Set.MapsTo φ (inUse n) (inUse k)
  fixed : ∀ p ∈ inUse 0, φ p = p
  free : ∀ j, n ≤ j → m.find? (freshVar j) = none
  free' : ∀ j, k ≤ j → m'.find? (freshVar j) = none

namespace Linked

theorem empty : Linked id 0 0 {} {} where
  agree := ⟨.empty, .empty, Set.injOn_id _, fun _ _ => rfl, fun _ _ _ ht => by cases ht⟩
  maps := Set.mapsTo_id _
  fixed _ _ := rfl
  free _ _ := rfl
  free' _ _ := rfl

theorem rename_eq (h : Linked φ n k m m') (ht : t.Over (inUse 0)) : t.rename φ = t := by
  calc t.rename φ = t.inst .param := Ty.inst_congr fun p hp => by rw [h.fixed p (ht p hp)]
    _ = t := Ty.inst_param t

theorem skip (h : Linked φ n k m m') (hk : k ≤ k₁) : Linked φ n k₁ m m' :=
  ⟨h.agree, h.maps.mono_right (inUse_mono hk), h.fixed, h.free, fun j hj => h.free' j (by omega)⟩

theorem injective_shiftFrom (h : Linked φ n k m m') : Function.Injective (shiftFrom φ n k) := by
  -- the variables from `k` on are not among the names that `φ` leads to
  have hnew : ∀ p ∈ inUse n, ∀ j, n ≤ j → shiftFrom φ n k p ≠ shiftFrom φ n k (varName j) := by
    intro p hp j hj heq
    rw [shiftFrom_of_mem hp, shiftFrom_varName hj] at heq
    have hlt := varName_mem_inUse.1 (heq ▸ h.maps hp)
    omega
  intro p q heq
  by_cases hp : p ∈ inUse n <;> by_cases hq : q ∈ inUse n
  · rw [shiftFrom_of_mem hp, shiftFrom_of_mem hq] at heq
    exact h.agree.inj hp hq heq
  · obtain ⟨j, hj, rfl⟩ := exists_of_not_mem_inUse hq
    exact absurd heq (hnew p hp j hj)
  · obtain ⟨j, hj, rfl⟩ := exists_of_not_mem_inUse hp
    exact absurd heq.symm (hnew q hq j hj)
  · obtain ⟨i, hi, rfl⟩ := exists_of_not_mem_inUse hp
    obtain ⟨j, hj, rfl⟩ := exists_of_not_mem_inUse hq
    rw [shiftFrom_varName hi, shiftFrom_varName hj] at heq
    have := varName_injective heq
    rw [show i = j by omega]

/-- As many variables are given out on both sides. -/
theorem shift (h : Linked φ n k m m') (l : Nat) :
    Linked (shiftFrom φ n k) (n + l) (k + l) m m' where
  agree := by
    have hext := extends_shiftFrom φ n k l
    refine ⟨h.agree.wf, h.agree.wf', h.injective_shiftFrom.injOn, fun p _ => ?_, fun p _ t ht => ?_⟩
    · by_cases hp : p ∈ inUse n
      · rw [shiftFrom_of_mem hp, h.agree.find? p hp]
        cases hm : m.find? (.param p) with
        | none => rfl
        | some t => rw [Option.map_some, Option.map_some, hext.rename (h.agree.closed p hp t hm)]
      · obtain ⟨j, hj, rfl⟩ := exists_of_not_mem_inUse hp
        have hfree' := h.free' (k + (j - n)) (Nat.le_add_right _ _)
        rw [freshVar] at hfree'
        rw [shiftFrom_varName hj, hfree', ← freshVar, h.free j hj, Option.map_none]
    · by_cases hp : p ∈ inUse n
      · exact (h.agree.closed p hp t ht).mono (inUse_mono (Nat.le_add_right n l))
      · obtain ⟨j, hj, rfl⟩ := exists_of_not_mem_inUse hp
        rw [← freshVar, h.free j hj] at ht
        cases ht
  maps := by
    intro p hp
    by_cases hpn : p ∈ inUse n
    · rw [shiftFrom_of_mem hpn]
      exact inUse_mono (Nat.le_add_right k l) (h.maps hpn)
    · obtain ⟨j, hj, rfl⟩ := exists_of_not_mem_inUse hpn
      have hlt := varName_mem_inUse.1 hp
      rw [shiftFrom_varName hj, varName_mem_inUse]
      omega
  fixed p hp := (shiftFrom_of_mem (inUse_mono (Nat.zero_le n) hp)).trans (h.fixed p hp)
  free j hj := h.free j (by omega)
  free' j hj := h.free' j (by omega)

theorem assignAll? (h : Linked φ n k m m') {ts us : List Ty} (hts : ∀ t ∈ ts, t.Over (inUse n))
    (hus : ∀ u ∈ us, u.Over (inUse n)) : Option.Rel (Linked φ n k) (m.assignAll? ts us)
      (m'.assignAll? (ts.map (Ty.rename φ)) (us.map (Ty.rename φ))) := by
  have hrel := h.agree.assignAll? hts hus
  cases ha : m.assignAll? ts us with
  | none =>
    rw [ha] at hrel
    generalize m'.assignAll? (ts.map _) (us.map _) = a' at hrel ⊢
    cases hrel
    exact .none
  | some m₁ =>
    cases ha' : m'.assignAll? (ts.map (Ty.rename φ)) (us.map (Ty.rename φ)) with
    | none =>
      rw [ha, ha'] at hrel
      cases hrel
    | some m₁' =>
      rw [ha, ha'] at hrel
      obtain ⟨hagree⟩ := hrel
      -- only what can be reached from the types is bound
      have hrw := assignAll?_rewrites h.agree.closed_left hts hus ha
      have hrw' := assignAll?_rewrites h.agree.closed_right
        (List.forall_mem_map.2 fun t ht => (hts t ht).rename)
        (List.forall_mem_map.2 fun u hu => (hus u hu).rename) ha'
      refine .some ⟨hagree, h.maps, h.fixed, fun j hj => ?_, fun j hj => ?_⟩
      · rw [hrw.find?_eq fun hv => ?_, h.free j hj]
        have := varName_mem_inUse.1 (hv (varName j) (by simp [freshVar, Ty.params]))
        omega
      · rw [hrw'.find?_eq fun hv => ?_, h.free' j hj]
        obtain ⟨p, hp, heq⟩ := hv (varName j) (by simp [freshVar, Ty.params])
        have := varName_mem_inUse.1 (heq ▸ h.maps hp)
        omega

theorem assign? (h : Linked φ n k m m') (ht : t.Over (inUse n)) (hu : u.Over (inUse n)) :
    Option.Rel (Linked φ n k) (m.assign? t u) (m'.assign? (t.rename φ) (u.rename φ)) := by
  have hone : ∀ (m : Bindings) (t u : Ty), m.assignAll? [t] [u] = m.assign? t u := by
    intro m t u
    rw [Bindings.assignAll?, assignAll, pairwise_singleton]
    rfl
  rw [← hone, ← hone]
  exact h.assignAll? (by simpa using ht) (by simpa using hu)

theorem instantiate (h : Linked φ n k m m') {o : Overload} (ho : o.VariableFree) :
    o.instantiate k = ((o.instantiate n).1.map (Ty.rename (shiftFrom φ n k)),
        (o.instantiate n).2.1.rename (shiftFrom φ n k), k + o.typeParams.length) ∧
      (o.instantiate n).2.2 = n + o.typeParams.length ∧
      ∀ t ∈ (o.instantiate n).2.1 :: (o.instantiate n).1,
        t.Over (inUse (n + o.typeParams.length)) := by
  have hshift : ∀ t ∈ o.result :: o.params,
      (t.rename (Overload.freshName n o.typeParams)).rename (shiftFrom φ n k) =
        t.rename (Overload.freshName k o.typeParams) := by
    intro t ht
    rw [Ty.rename_rename]
    refine Ty.rename_congr fun p hp => ?_
    have hp := ho.signature t ht p hp
    exact shiftFrom_freshName hp (h.fixed p hp) 0
  have hknown : ∀ t ∈ o.result :: o.params,
      (t.rename (Overload.freshName n o.typeParams)).Over (inUse (n + o.typeParams.length)) := by
    intro t ht p hp
    obtain ⟨q, hq, rfl⟩ := Ty.mem_params_rename.1 hp
    by_cases hown : q ∈ o.typeParams
    · obtain ⟨j, -, hj, hname⟩ := Overload.freshName_mem_vars (n := n) hown
      rw [← hname, varName_mem_inUse]
      exact hj
    · rw [Overload.freshName_of_not_mem hown]
      exact inUse_mono (Nat.zero_le _) (ho.signature t ht q hq)
  rw [List.forall_mem_cons] at hshift hknown
  simp only [Overload.instantiate_eq fun j _ => ho.own j, List.map_map]
  refine ⟨?_, trivial, List.forall_mem_cons.2 ⟨hknown.1, List.forall_mem_map.2 hknown.2⟩⟩
  rw [hshift.1]
  congr 1
  exact List.map_congr_left fun t ht => (hshift.2 t ht).symm

end Linked

end Bindings

namespace Trial

open Bindings

variable {φ : String → String} {t u : Trial} {args : List Ty} {o : Overload} {os : List Overload}

structure Mirrors (φ : String → String) (t u : Trial) : Prop where
  linked : Linked φ t.nextVar u.nextVar t.bindings u.bindings
  found : u.found = t.found.map fun r => { r with result := r.result.rename φ }
  known : ∀ r, t.found = some r → r.result.Over (inUse t.nextVar)

theorem add_rename {φ : String → String} {F : Set String} (hφ : Set.InjOn φ F)
    {found : Option Resolution} (hf : ∀ r, found = some r → r.result.Over F) {result : Ty}
    (hr : result.Over F) (id : String) :
    Resolution.add (found.map fun r => { r with result := r.result.rename φ }) id
      (result.rename φ) =
      { Resolution.add found id result with
        result := (Resolution.add found id result).result.rename φ } := by
  cases found with
  | none => rfl
  | some r =>
    have hdyn : r.result.rename φ = .dyn ↔ r.result = .dyn :=
      Ty.rename_inj (u := .dyn) hφ (hf r rfl) (by simp [Ty.Over, Ty.params])
    have hsame := Ty.rename_inj hφ (hf r rfl) hr
    simp only [Option.map_some, Resolution.add, ne_eq, hdyn, hsame]
    split <;> rfl

theorem Mirrors.overload (h : Mirrors φ t u) (ho : o.VariableFree)
    (hargs : ∀ a ∈ args, a.Over (inUse t.nextVar)) :
    Mirrors (shiftFrom φ t.nextVar u.nextVar) (t.overload args o)
        (u.overload (args.map (Ty.rename φ)) o) ∧
      Extends t.nextVar φ (t.overload args o).nextVar (shiftFrom φ t.nextVar u.nextVar) := by
  obtain ⟨hinst, hnext, hknown⟩ := h.linked.instantiate ho
  have hext := extends_shiftFrom φ t.nextVar u.nextVar o.typeParams.length
  have hlinked := h.linked.shift o.typeParams.length
  have hle : inUse t.nextVar ⊆ inUse (t.nextVar + o.typeParams.length) :=
    inUse_mono (Nat.le_add_right _ _)
  have hfound : u.found = t.found.map fun r =>
      { r with result := r.result.rename (shiftFrom φ t.nextVar u.nextVar) } := by
    rw [h.found]
    cases hr : t.found with
    | none => rfl
    | some r => simp only [Option.map_some, hext.rename (h.known r hr)]
  have hargs' : args.map (Ty.rename φ) =
      args.map (Ty.rename (shiftFrom φ t.nextVar u.nextVar)) :=
    List.map_congr_left fun a ha => (hext.rename (hargs a ha)).symm
  rw [List.forall_mem_cons] at hknown
  have hrel := hlinked.assignAll? (fun a ha => (hargs a ha).mono hle) hknown.2
  simp only [Trial.overload, hinst, hnext, hargs']
  generalize t.bindings.assignAll? args (o.instantiate t.nextVar).1 = a,
    u.bindings.assignAll? (args.map _) ((o.instantiate t.nextVar).1.map _) = a' at hrel ⊢
  cases hrel with
  | none => exact ⟨⟨hlinked, hfound, fun r hr => (h.known r hr).mono hle⟩, hext⟩
  | @some m m' hm =>
    have hresult := hm.agree.over_subst hknown.1
    have hold : ∀ r, t.found = some r → r.result.Over (inUse (t.nextVar + o.typeParams.length)) :=
      fun r hr => (h.known r hr).mono hle
    refine ⟨⟨hm, ?_, fun r hr => ?_⟩, hext⟩
    · simp only [hm.agree.subst false hknown.1, hfound,
        add_rename hm.agree.inj hold hresult, Option.map_some]
    · cases hr
      cases hf : t.found with
      | none => exact hresult
      | some r =>
        simp only [Resolution.add]
        split
        · simp [Ty.Over, Ty.params]
        · exact hold r hf

/-- A trial of the wide side alone leaves only its variables behind, unless it matches. -/
theorem Mirrors.refused (h : Mirrors φ t u) {args' : List Ty}
    (ho : (u.overload args' o).ids ≠ u.ids ++ [o.id]) : Mirrors φ t (u.overload args' o) := by
  rcases u.overload_case args' o with heq | ⟨m, -, heq⟩
  · rw [heq]
    exact ⟨h.linked.skip (o.nextVar_instantiate u.nextVar), h.found, h.known⟩
  · refine absurd ?_ ho
    rw [heq]
    cases hf : u.found <;> simp [ids, hf, Resolution.add]

theorem Mirrors.foldl (h : Mirrors φ t u) {x : String} (hos : ∀ o ∈ os, o.VariableFree)
    (hargs : ∀ a ∈ args, a.Over (inUse t.nextVar))
    (hx : x ∉ (os.foldl (·.overload (args.map (Ty.rename φ)) ·) u).ids) :
    ∃ φ₁, Mirrors φ₁ ((os.filter fun o => o.id != x).foldl (·.overload args ·) t)
        (os.foldl (·.overload (args.map (Ty.rename φ)) ·) u) ∧
      Extends t.nextVar φ ((os.filter fun o => o.id != x).foldl (·.overload args ·) t).nextVar
        φ₁ := by
  induction os generalizing φ t u with
  | nil => exact ⟨φ, h, .refl _ _⟩
  | cons o os ih =>
    rw [List.forall_mem_cons] at hos
    rw [List.foldl_cons] at hx ⊢
    by_cases ho : o.id = x
    · rw [List.filter_cons_of_neg (by simp [ho])]
      refine ih (h.refused fun hids => hx ?_) hos.2 hargs hx
      obtain ⟨l, -, hl⟩ := Trial.ids_foldl (u.overload (args.map (Ty.rename φ)) o)
        (args.map (Ty.rename φ)) os
      simp [hl, hids, ho]
    · rw [List.filter_cons_of_pos (by simp [ho]), List.foldl_cons]
      obtain ⟨h₁, hext⟩ := h.overload hos.1 hargs
      have hsame : args.map (Ty.rename φ) =
          args.map (Ty.rename (shiftFrom φ t.nextVar u.nextVar)) :=
        List.map_congr_left fun a ha => (hext.rename (hargs a ha)).symm
      have hargs₁ : ∀ a ∈ args, a.Over (inUse (t.overload args o).nextVar) :=
        fun a ha => (hargs a ha).mono (inUse_mono hext.le)
      rw [hsame] at h₁ hx ⊢
      obtain ⟨φ₂, h₂, hext₂⟩ := ih h₁ hos.2 hargs₁ hx
      exact ⟨φ₂, h₂, hext.trans hext₂⟩

end Trial

section Entries

theorem Table.mapValues_mapValues {κ α β γ : Type} (f : α → β) (g : β → γ) (t : Table κ α) :
    (t.mapValues f).mapValues g = t.mapValues (g ∘ f) := by
  simp [mapValues]

theorem Table.mapValues_congr {κ α β : Type} {t : Table κ α} {f g : α → β}
    (h : ∀ e ∈ t.entries, f e.2 = g e.2) : t.mapValues f = t.mapValues g := by
  rw [mapValues, mapValues, List.map_congr_left fun e he => by rw [h e he]]

variable {κ α β : Type} [DecidableEq κ]

theorem Table.mem_entries_insert {t : Table κ α} {k : κ} {a : α} {e : κ × α}
    (h : e ∈ (t.insert k a).entries) : e = (k, a) ∨ e ∈ t.entries := by
  obtain ⟨es⟩ := t
  simp only [insert] at h ⊢
  induction es with
  | nil => exact .inl (List.mem_singleton.1 h)
  | cons d es ih =>
    rw [put] at h
    split at h
    · exact (List.mem_cons.1 h).imp_right (List.mem_cons_of_mem d)
    · rcases List.mem_cons.1 h with rfl | h
      · exact .inr List.mem_cons_self
      · exact (ih h).imp_right (List.mem_cons_of_mem d)

end Entries

namespace State

open Bindings

variable {φ φ₁ : String → String} {s w w₁ : State} {id : Int} {t u : Ty}

structure Mirrors (φ : String → String) (s w : State) : Prop where
  linked : Linked φ s.nextVar w.nextVar s.bindings w.bindings
  types : w.types = s.types.mapValues (Ty.rename φ)
  known : ∀ e ∈ s.types.entries, e.2.Over (inUse s.nextVar)
  references : w.references = s.references
  reports : s.reports = []

structure MirrorsTyped (φ : String → String) (x y : Ty × State) : Prop where
  state : Mirrors φ x.2 y.2
  type : y.1 = x.1.rename φ
  known : x.1.Over (inUse x.2.nextVar)

structure MirrorsOption (φ : String → String) (n : Nat) (t t' : Option Ty) : Prop where
  eq : t' = t.map (Ty.rename φ)
  known : ∀ u, t = some u → u.Over (inUse n)

theorem MirrorsOption.none (φ : String → String) (n : Nat) : MirrorsOption φ n none none :=
  ⟨rfl, by simp⟩

theorem MirrorsOption.extend {n n₁ : Nat} {t t' : Option Ty} (h : MirrorsOption φ n t t')
    (hext : Extends n φ n₁ φ₁) : MirrorsOption φ₁ n₁ t t' := by
  refine ⟨?_, fun u hu => (h.known u hu).mono (inUse_mono hext.le)⟩
  rw [h.eq]
  cases t with
  | none => rfl
  | some t => rw [Option.map_some, Option.map_some, hext.rename (h.known t rfl)]

theorem MirrorsTyped.option {x y : Ty × State} (h : MirrorsTyped φ x y) :
    MirrorsOption φ x.2.nextVar (some x.1) (some y.1) :=
  ⟨by rw [h.type, Option.map_some], by simpa using h.known⟩

namespace Mirrors

theorem start : Mirrors (fun p => p) {} {} :=
  ⟨.empty, rfl, by simp, rfl, rfl⟩

theorem typeAt (h : Mirrors φ s w) (id : Int) : w.typeAt id = (s.typeAt id).rename φ := by
  rw [State.typeAt, State.typeAt, h.types, Table.find?_mapValues]
  cases s.types.find? id <;> rfl

theorem known_typeAt (h : Mirrors φ s w) (id : Int) : (s.typeAt id).Over (inUse s.nextVar) := by
  rw [State.typeAt]
  cases ht : s.types.find? id with
  | none => exact Ty.over_of_params_eq_nil rfl
  | some t => exact h.known _ (Table.mem_entries_of_find? ht)

theorem subst (h : Mirrors φ s w) (ht : t.Over (inUse s.nextVar)) :
    w.subst (t.rename φ) = (s.subst t).rename φ :=
  h.linked.agree.subst false ht

theorem known_subst (h : Mirrors φ s w) (ht : t.Over (inUse s.nextVar)) :
    (s.subst t).Over (inUse s.nextVar) :=
  h.linked.agree.over_subst ht

/-- Growth of bindings and counters keeps what is annotated. -/
theorem extend (h : Mirrors φ s w) {n k : Nat} {m m' : Bindings} (hext : Extends s.nextVar φ n φ₁)
    (hl : Linked φ₁ n k m m') :
    Mirrors φ₁ { s with bindings := m, nextVar := n } { w with bindings := m', nextVar := k } where
  linked := hl
  types := h.types.trans (Table.mapValues_congr fun e he => (hext.rename (h.known e he)).symm)
  known e he := (h.known e he).mono (inUse_mono hext.le)
  references := h.references
  reports := h.reports

theorem setType (h : Mirrors φ s w) (ht : t.Over (inUse s.nextVar))
    (hset : w.setType id (t.rename φ) = .ok w₁) :
    ∃ s₁, s.setType id t = .ok s₁ ∧ Mirrors φ s₁ w₁ ∧ s₁.nextVar = s.nextVar := by
  rcases setType_cases hset with ⟨hnone, rfl⟩ | ⟨hsome, rfl⟩
  · rw [h.types, Table.find?_mapValues, Option.map_eq_none_iff] at hnone
    refine ⟨{ s with types := s.types.insert id t }, by rw [State.setType, hnone], ?_, rfl⟩
    refine ⟨h.linked, ?_, fun e he => ?_, h.references, h.reports⟩
    · simp only [h.types, Table.mapValues_insert]
    · rcases Table.mem_entries_insert he with rfl | he
      · exact ht
      · exact h.known e he
  · rw [h.types, Table.find?_mapValues, Option.map_eq_some_iff] at hsome
    obtain ⟨u, hu, heq⟩ := hsome
    have hu' := h.known _ (Table.mem_entries_of_find? hu)
    have htu : u = t := (Ty.rename_inj h.linked.agree.inj hu' ht).1 heq
    exact ⟨s, by rw [State.setType, hu, htu]; exact if_pos rfl, h, rfl⟩

theorem setReference (h : Mirrors φ s w) {q : Reference} (hset : w.setReference id q = .ok w₁) :
    ∃ s₁, s.setReference id q = .ok s₁ ∧ Mirrors φ s₁ w₁ ∧ s₁.nextVar = s.nextVar := by
  rw [State.setReference, h.references] at hset
  rw [State.setReference]
  split at hset
  · cases hset
    exact ⟨_, rfl, ⟨h.linked, h.types, h.known, rfl, h.reports⟩, rfl⟩
  · split at hset
    · next hsame =>
      cases hset
      exact ⟨s, if_pos hsame, h, rfl⟩
    · cases hset

theorem unify (h : Mirrors φ s w) (ht : t.Over (inUse s.nextVar)) (hu : u.Over (inUse s.nextVar)) :
    (w.unify (t.rename φ) (u.rename φ)).1 = (s.unify t u).1 ∧
      Mirrors φ (s.unify t u).2 (w.unify (t.rename φ) (u.rename φ)).2 := by
  have hrel := h.linked.assign? ht hu
  rw [State.unify, State.unify]
  generalize s.bindings.assign? t u = a, w.bindings.assign? (t.rename φ) (u.rename φ) = a' at hrel ⊢
  cases hrel with
  | none => exact ⟨rfl, h⟩
  | some hm => exact ⟨rfl, h.extend (.refl _ _) hm⟩

theorem require (h : Mirrors φ s w) (ht : t.Over (inUse s.nextVar))
    (hu : u.Over (inUse s.nextVar)) {c c' : Cause}
    (hr : (w.require (t.rename φ) (u.rename φ) id c').reports = []) :
    Mirrors φ (s.require t u id c) (w.require (t.rename φ) (u.rename φ) id c') := by
  obtain ⟨hb, h₁⟩ := h.unify ht hu
  rw [State.require] at hr ⊢
  rw [State.require]
  generalize s.unify t u = x, w.unify (t.rename φ) (u.rename φ) = y at hb h₁ hr ⊢
  obtain ⟨b, s₁⟩ := x
  obtain ⟨b', w₁⟩ := y
  cases hb
  cases b with
  | true => exact h₁
  | false => simp [report] at hr

theorem expect (h : Mirrors φ s w) (hu : u.Over (inUse s.nextVar)) (id : Int)
    (hr : (w.expect id (u.rename φ)).reports = []) :
    Mirrors φ (s.expect id u) (w.expect id (u.rename φ)) := by
  simp only [State.expect, h.typeAt] at hr ⊢
  exact h.require (h.known_typeAt id) hu hr

theorem orFresh (h : Mirrors φ s w) {t t' : Option Ty} (ht : MirrorsOption φ s.nextVar t t') :
    ∃ φ₁, MirrorsTyped φ₁ (s.orFresh t) (w.orFresh t') ∧
      Extends s.nextVar φ (s.orFresh t).2.nextVar φ₁ := by
  obtain ⟨rfl, hknown⟩ := ht
  cases t with
  | some t => exact ⟨φ, ⟨h, rfl, hknown t rfl⟩, .refl _ _⟩
  | none =>
    have hext := extends_shiftFrom φ s.nextVar w.nextVar 1
    refine ⟨shiftFrom φ s.nextVar w.nextVar, ⟨h.extend hext (h.linked.shift 1), ?_, ?_⟩, hext⟩
    · have hname := shiftFrom_varName (φ := φ) (k := w.nextVar) (Nat.le_refl s.nextVar)
      rw [Nat.sub_self, Nat.add_zero] at hname
      simp only [State.orFresh, fresh, freshVar, Option.map_none, Ty.rename, Ty.inst, hname]
    · intro p hp
      rw [List.mem_singleton.1 hp, varName_mem_inUse]
      exact Nat.lt_succ_self _

end Mirrors

end State

end ExprTyping
