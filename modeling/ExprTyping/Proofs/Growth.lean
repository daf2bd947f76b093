import ExprTyping.Proofs.Rewriting
import ExprTyping.Proofs.Run

namespace ExprTyping

namespace State

variable {s s₁ s₂ : State} {id : Int} {t u : Ty}

structure Grows (s s' : State) : Prop where
  types : ∀ id t, s.types.find? id = some t → s'.types.find? id = some t
  nextVar : s.nextVar ≤ s'.nextVar
  reports : s.reports <+: s'.reports
  wf : s.bindings.Wf → s'.bindings.Wf

def HasType (s : State) (id : Int) : Prop := (s.types.find? id).isSome

structure Quiet (s s' : State) : Prop extends Grows s s' where
  types_eq : s'.types = s.types
  references_eq : s'.references = s.references

theorem Grows.refl (s : State) : Grows s s :=
  ⟨fun _ _ h => h, Nat.le_refl _, List.prefix_refl _, fun h => h⟩

theorem Grows.trans (h : Grows s s₁) (h' : Grows s₁ s₂) : Grows s s₂ :=
  ⟨fun id t ht => h'.types id t (h.types id t ht), Nat.le_trans h.nextVar h'.nextVar,
    h.reports.trans h'.reports, fun hw => h'.wf (h.wf hw)⟩

theorem Grows.hasType (h : Grows s s₁) (hid : s.HasType id) : s₁.HasType id := by
  obtain ⟨t, ht⟩ := Option.isSome_iff_exists.1 hid
  simp [HasType, h.types id t ht]

theorem Grows.reports_eq_nil (h : Grows s s₁) (hr : s₁.reports = []) : s.reports = [] :=
  List.eq_nil_of_prefix_nil (hr ▸ h.reports)

theorem Quiet.refl (s : State) : Quiet s s := ⟨.refl s, rfl, rfl⟩

theorem Quiet.trans (h : Quiet s s₁) (h' : Quiet s₁ s₂) : Quiet s s₂ :=
  ⟨h.toGrows.trans h'.toGrows, h'.types_eq.trans h.types_eq,
    h'.references_eq.trans h.references_eq⟩

theorem Quiet.of_eq {α : Type} {x : α × State} {a : α} (h : Quiet s x.2) (hx : x = (a, s₁)) :
    Quiet s s₁ := by
  rwa [hx] at h

theorem quiet_report (s : State) (id : Int) (c : Cause) : Quiet s (s.report id c) :=
  ⟨⟨fun _ _ h => h, Nat.le_refl _, List.prefix_append _ _, fun h => h⟩, rfl, rfl⟩

theorem quiet_orFresh (s : State) (t : Option Ty) : Quiet s (s.orFresh t).2 := by
  cases t with
  | some t => exact .refl s
  | none => exact ⟨⟨fun _ _ h => h, Nat.le_succ _, List.prefix_refl _, fun h => h⟩, rfl, rfl⟩

theorem quiet_unify (s : State) (t u : Ty) : Quiet s (s.unify t u).2 := by
  rw [unify]
  split
  · next m h =>
    exact ⟨⟨fun _ _ h => h, Nat.le_refl _, List.prefix_refl _, fun hw => hw.assign? h⟩, rfl, rfl⟩
  · exact .refl s

theorem quiet_require (s : State) (t u : Ty) (id : Int) (c : Cause) :
    Quiet s (s.require t u id c) := by
  have h := quiet_unify s t u
  rw [require]
  split
  · next heq => rwa [heq] at h
  · next heq =>
    rw [heq] at h
    exact h.trans (quiet_report _ id c)

theorem quiet_expect (s : State) (id : Int) (t : Ty) : Quiet s (s.expect id t) :=
  quiet_require s _ _ _ _

theorem setType_cases (h : s.setType id t = .ok s₁) :
    s.types.find? id = none ∧ s₁ = { s with types := s.types.insert id t } ∨
      s.types.find? id = some t ∧ s₁ = s := by
  rw [setType] at h
  split at h
  · next hnone =>
    cases h
    exact .inl ⟨hnone, rfl⟩
  · next u hu =>
    split at h
    · next heq =>
      cases h
      exact .inr ⟨heq ▸ hu, rfl⟩
    · cases h

theorem setReference_cases {r : Reference} (h : s.setReference id r = .ok s₁) :
    s.references.find? id = none ∧ s₁ = { s with references := s.references.insert id r } ∨
      (s.references.find? id).isSome ∧ s₁ = s := by
  rw [setReference] at h
  split at h
  · next hnone =>
    cases h
    exact .inl ⟨hnone, rfl⟩
  · next q hq =>
    split at h
    · cases h
      exact .inr ⟨by simp [hq], rfl⟩
    · cases h

theorem grows_setType (h : s.setType id t = .ok s₁) :
    Grows s s₁ ∧ s₁.types.find? id = some t ∧ s₁.bindings = s.bindings := by
  rcases setType_cases h with ⟨hnone, rfl⟩ | ⟨hsome, rfl⟩
  · refine ⟨⟨fun i u hu => ?_, Nat.le_refl _, List.prefix_refl _, fun h => h⟩, by simp, rfl⟩
    rw [Table.find?_insert_of_ne, hu]
    rintro rfl
    simp [hnone] at hu
  · exact ⟨.refl _, hsome, rfl⟩

theorem grows_setReference {r : Reference} (h : s.setReference id r = .ok s₁) :
    Grows s s₁ ∧ s₁.types = s.types ∧ s₁.bindings = s.bindings := by
  rcases setReference_cases h with ⟨-, rfl⟩ | ⟨-, rfl⟩
  · exact ⟨⟨fun _ _ h => h, Nat.le_refl _, List.prefix_refl _, fun h => h⟩, rfl, rfl⟩
  · exact ⟨.refl _, rfl, rfl⟩

end State

namespace Checker

open Run State

variable (env : Env) (s : State) (id : Int)

theorem quiet_fieldType (message field : String) :
    Quiet s (fieldType env s id message field).2 := by
  rw [fieldType]
  split
  · exact quiet_report s id _
  · split
    · exact .refl s
    · exact quiet_report s id _

theorem quiet_selection (operand : Ty) (field : String) :
    Quiet s (selection env s id operand field).2 := by
  unfold selection
  split
  · exact .refl s
  · exact quiet_fieldType env s id _ field
  · exact quiet_unify s _ _
  · exact .refl s
  · exact .refl s
  · exact quiet_report s id _

theorem quiet_join (previous : Option Ty) (current : Ty) :
    Quiet s (join env s id previous current).2 := by
  unfold join
  split
  · exact .refl s
  · next previous =>
    have h := quiet_unify s previous current
    split
    · next heq => rwa [heq] at h
    · next s₁ heq =>
      rw [heq] at h
      split
      · exact h
      · exact h.trans (quiet_report s₁ id _)

theorem quiet_messageType (declared : Ty) : Quiet s (messageType s id declared).2 := by
  unfold messageType
  split
  · exact .refl s
  · exact .refl s
  · exact quiet_report s id _
  · exact quiet_report s id _
  · exact quiet_report s id _

theorem quiet_initField (message : Ty) (field : String) (valueId : Int) :
    Quiet s (initField env s message id field valueId) := by
  unfold initField
  refine .trans ?_ (quiet_require _ _ _ _ _)
  split
  · exact quiet_fieldType env s id _ field
  · exact .refl s

theorem quiet_iterType (range : Ty) : Quiet s (iterType s id range).2 := by
  unfold iterType
  split
  · exact .refl s
  · exact .refl s
  · exact quiet_unify s _ _
  · exact quiet_unify s _ _
  · exact quiet_unify s _ _
  · exact quiet_report s id _

end Checker

section Trial

variable {t : Trial} {args : List Ty} {os : List Overload}

theorem Overload.nextVar_freshParams (n : Nat) (ps : List String) (m : Bindings) :
    (freshParams n ps m).2 = n + ps.length := by
  induction ps generalizing n m with
  | nil => rfl
  | cons p ps ih =>
    rw [freshParams, ih, List.length_cons]
    omega

theorem Overload.nextVar_instantiate (o : Overload) (n : Nat) : n ≤ (o.instantiate n).2.2 := by
  rw [instantiate]
  split
  · simp only [nextVar_freshParams]
    omega
  · exact Nat.le_refl n

theorem Trial.overload_case (t : Trial) (args : List Ty) (o : Overload) :
    t.overload args o = { t with nextVar := (o.instantiate t.nextVar).2.2 } ∨
    ∃ m, t.bindings.assignAll? args (o.instantiate t.nextVar).1 = some m ∧
      t.overload args o = ⟨m, (o.instantiate t.nextVar).2.2,
        some (.add t.found o.id (m.subst false (o.instantiate t.nextVar).2.1))⟩ := by
  simp only [overload]
  cases h : t.bindings.assignAll? args (o.instantiate t.nextVar).1 with
  | none => exact .inl rfl
  | some m => exact .inr ⟨m, rfl, rfl⟩

theorem Trial.quiet_overload (s : State) (t : Trial) (args : List Ty) (o : Overload) :
    State.Quiet (s.trying t) (s.trying (t.overload args o)) := by
  have hnext := o.nextVar_instantiate t.nextVar
  rcases t.overload_case args o with h | ⟨m, hm, h⟩ <;> rw [h]
  · exact ⟨⟨fun _ _ h => h, hnext, List.prefix_refl _, fun h => h⟩, rfl, rfl⟩
  · exact ⟨⟨fun _ _ h => h, hnext, List.prefix_refl _, fun hw => hw.assignAll? hm⟩, rfl, rfl⟩

theorem Trial.quiet_all (s : State) (enabled : String → Bool) (receiver : Bool) (args : List Ty)
    (os : List Overload) :
    State.Quiet s (s.trying (Trial.all ⟨s.bindings, s.nextVar, none⟩ enabled receiver args os)) :=
  List.foldlRecOn (motive := fun t => State.Quiet s (s.trying t)) _ _ (.refl s)
    fun t ht o _ => ht.trans (t.quiet_overload s args o)

namespace Checker

open Run State

variable {env : Env} {s : State}

theorem attempts_invariant {P : Trial → Prop} (ht : P t)
    (h : ∀ t, P t → ∀ o ∈ os, P (t.overload args o)) :
    ∀ p ∈ attempts env s args t os,
      ∃ t, P t ∧ ∃ o ∈ os, p = ⟨env, s.trying t, .attempt args o⟩ := by
  induction os generalizing t with
  | nil => nofun
  | cons o os ih =>
    rw [attempts]
    refine List.forall_mem_cons.2 ⟨⟨t, ht, o, List.mem_cons_self, rfl⟩, fun p hp => ?_⟩
    obtain ⟨t', ht', o', ho', hp'⟩ := ih (h t ht o List.mem_cons_self)
      (fun t ht o ho => h t ht o (List.mem_cons_of_mem _ ho)) p hp
    exact ⟨t', ht', o', List.mem_cons_of_mem _ ho', hp'⟩

end Checker

end Trial

end ExprTyping
