import ExprTyping.Proofs.AddedDeclarations
import ExprTyping.Proofs.SharedPromotions

namespace ExprTyping

open Bindings

namespace Overload

variable {name : String} {o p e : Overload} {existing existing' os ps : List Overload}

/-- The ids differ, and the two have different call styles or signatures of which, with `dyn` for
every parameter, one cannot stand for the other. -/
def Apart (o e : Overload) : Prop :=
  o.id ≠ e.id ∧ ¬ (o.receiver = e.receiver ∧ (assign? {} o.erased e.erased).isSome ∧
    (assign? {} e.erased o.erased).isSome)

def TakesMacro (name : String) (o : Overload) : Prop :=
  ∃ form ∈ macroForms, form.name = name ∧ form.receiver = o.receiver ∧
    form.argCount = o.params.length

theorem apart_iff : o.Apart e ↔ o.overlaps e = false := by
  rw [← Bool.not_eq_true, Apart, overlaps, eq_comm (a := o.receiver), ne_comm]
  simp [and_assoc]

theorem Apart.symm (h : o.Apart e) : e.Apart o :=
  apart_iff.2 ((e.overlaps_comm o).trans (apart_iff.1 h))

/-- Each overload repeats an earlier one or stands apart from all earlier ones. -/
def InOrder (existing os : List Overload) : Prop :=
  ∀ before o after, os = before ++ o :: after →
    o ∈ existing ++ before ∨ ∀ e ∈ existing ++ before, o.Apart e

structure Separated (existing os : List Overload) : Prop where
  old : ∀ o ∈ os, o ∉ existing → ∀ e ∈ existing, o.Apart e
  new : ∀ o ∈ os, ∀ p ∈ os, o ∉ existing → p ∉ existing → o ≠ p → o.Apart p

theorem InOrder.separated (h : InOrder existing os) : Separated existing os := by
  -- the first occurrence of an overload repeats no earlier one
  have hfirst : ∀ {before o after}, os = before ++ o :: after → o ∉ existing → o ∉ before →
      ∀ e ∈ existing ++ before, o.Apart e := by
    intro before o after heq hnew hbefore
    exact (h before o after heq).resolve_left (by simp [hnew, hbefore])
  refine ⟨fun o ho hnew e he => ?_, fun o ho p hp hnew hnew' hne => ?_⟩
  · obtain ⟨before, after, heq, hbefore⟩ := List.eq_append_cons_of_mem ho
    exact hfirst heq hnew hbefore e (List.mem_append_left _ he)
  · obtain ⟨before, after, heq, hbefore⟩ := List.eq_append_cons_of_mem ho
    by_cases hpb : p ∈ before
    · exact hfirst heq hnew hbefore p (List.mem_append_right _ hpb)
    · have hpa : p ∈ after := by
        rw [heq] at hp
        simpa [hpb, Ne.symm hne] using hp
      obtain ⟨between, rest, rfl, hbetween⟩ := List.eq_append_cons_of_mem hpa
      have heq' : os = (before ++ o :: between) ++ p :: rest := by simp [heq]
      have hpfirst : p ∉ before ++ o :: between := by simp [hpb, Ne.symm hne, hbetween]
      exact (hfirst heq' hnew' hpfirst o (by simp)).symm

theorem Separated.inOrder (h : Separated existing os) : InOrder existing os := by
  rintro before o after rfl
  have ho : o ∈ before ++ o :: after := by simp
  by_cases hold : o ∈ existing ++ before
  · exact .inl hold
  · rw [List.mem_append, not_or] at hold
    refine .inr fun e he => ?_
    by_cases hex : e ∈ existing
    · exact h.old o ho hold.1 e hex
    · have hbefore : e ∈ before := (List.mem_append.1 he).resolve_left hex
      have hne : o ≠ e := by
        rintro rfl
        exact hold.2 hbefore
      exact h.new o ho e (List.mem_append_left _ hbefore) hold.1 hex hne

theorem InOrder.perm (h : os.Perm ps) (ho : InOrder existing os) : InOrder existing ps := by
  have hsep := ho.separated
  refine Separated.inOrder ⟨fun o ho => hsep.old o (h.mem_iff.2 ho), fun o ho p hp => ?_⟩
  exact hsep.new o (h.mem_iff.2 ho) p (h.mem_iff.2 hp)

theorem inOrder_nil (existing : List Overload) : InOrder existing [] := by
  intro before o after h
  simp at h

theorem inOrder_cons (hmem : ∀ q, q ∈ existing' ↔ q ∈ existing ∨ q = p) :
    InOrder existing (p :: os) ↔
      (p ∈ existing ∨ ∀ e ∈ existing, p.Apart e) ∧ InOrder existing' os := by
  have hearlier : ∀ before q, q ∈ existing ++ p :: before ↔ q ∈ existing' ++ before := by
    simp [hmem, or_assoc]
  constructor
  · refine fun h => ⟨by simpa using h [] p os rfl, ?_⟩
    rintro before o after rfl
    simpa only [hearlier] using h (p :: before) o after rfl
  · rintro ⟨hp, h⟩ (_ | ⟨q, before⟩) o after heq
    · obtain ⟨rfl, rfl⟩ := List.cons.inj heq
      simpa using hp
    · obtain ⟨rfl, rfl⟩ := List.cons.inj heq
      simpa only [hearlier] using h before o after rfl

end Overload

namespace FunctionDecl

variable {f : FunctionDecl} {o : Overload} {os : List Overload}

theorem conflicts_eq_nil_iff : f.conflicts o = [] ↔
    (∀ e ∈ f.overloads, o.Apart e) ∧ ¬ o.TakesMacro f.name := by
  simp [conflicts, Overload.apart_iff, Overload.TakesMacro, Overload.isMacro, and_assoc]

theorem conflicts_addOverloads_eq_nil_iff : (f.addOverloads os).2 = [] ↔
    Overload.InOrder f.overloads os ∧ ∀ o ∈ os, o ∉ f.overloads → ¬ o.TakesMacro f.name := by
  induction os generalizing f with
  | nil => simp [addOverloads, Overload.inOrder_nil]
  | cons p os ih =>
    rw [addOverloads_cons, List.append_eq_nil_iff, List.forall_mem_cons]
    by_cases hp : (f.addOverload p).2 = []
    · rw [and_iff_right hp, ih, Overload.inOrder_cons fun q => mem_addOverload hp, name_addOverload]
      simp only [mem_addOverload hp]
      rw [conflicts_addOverload_eq_nil_iff, conflicts_eq_nil_iff] at hp
      grind
    · refine iff_of_false (fun h => hp h.1) fun h => hp ?_
      rw [conflicts_addOverload_eq_nil_iff, conflicts_eq_nil_iff]
      have hfirst := h.1 [] p os rfl
      rw [List.append_nil] at hfirst
      exact or_iff_not_imp_left.2 fun hnew => ⟨hfirst.resolve_left hnew, h.2.1 hnew⟩

end FunctionDecl

theorem declaredIdents_perm {ds ds' : List Decl} (h : ds.Perm ds') (name : String) :
    (declaredIdents name ds).Perm (declaredIdents name ds') :=
  h.flatMap_right (Decl.idents name)

theorem declaredOverloads_perm {ds ds' : List Decl} (h : ds.Perm ds') (name : String) :
    (declaredOverloads name ds).Perm (declaredOverloads name ds') :=
  h.flatMap_right (Decl.overloads name)

namespace Scopes

structure Compatible (s : Scopes) (ds : List Decl) : Prop where
  idents : ∀ name, ((s.findInnerIdent? name).toList ++ declaredIdents name ds).Pairwise
    fun d e => d.same e = true
  overloads : ∀ name, Overload.InOrder (s.function name).overloads (declaredOverloads name ds)
  macros : ∀ name, ∀ o ∈ declaredOverloads name ds, o ∉ (s.function name).overloads →
    ¬ o.TakesMacro name

variable {s : Scopes} {ds ds' : List Decl}

theorem compatible_iff : s.Compatible ds ↔ (s.addAll ds).2 = [] := by
  simp only [conflicts_addAll_eq_nil_iff, IdentDecl.firstSame_iff_pairwise,
    FunctionDecl.conflicts_addOverloads_eq_nil_iff, name_function, forall_and]
  exact ⟨fun h => ⟨h.idents, h.overloads, h.macros⟩, fun h => ⟨h.1, h.2.1, h.2.2⟩⟩

theorem Compatible.perm (hperm : ds.Perm ds') (h : s.Compatible ds) : s.Compatible ds' where
  idents name := by
    have hidents := (declaredIdents_perm hperm name).append_left (s.findInnerIdent? name).toList
    refine (hidents.pairwise_iff fun {d e} hde => ?_).1 (h.idents name)
    exact (e.same_comm d).trans hde
  overloads name := (h.overloads name).perm (declaredOverloads_perm hperm name)
  macros name o ho := h.macros name o ((declaredOverloads_perm hperm name).mem_iff.2 ho)

end Scopes

theorem Env.addAll_of_error {env : Env} {ds : List Decl} {cs : List Conflict}
    (h : env.add ds = .error cs) : env.addAll ds = (env, cs) := by
  rw [add, addAll] at h
  rw [addAll]
  generalize env.scopes.addAll ds = r at h ⊢
  obtain ⟨s, es⟩ := r
  cases es with
  | nil => cases h
  | cons e es =>
    cases h
    rfl

theorem Event.apply_add_of_error {env : Env} {ds : List Decl} {cs : List Conflict}
    (h : env.add ds = .error cs) {envs : List Env} {i : Nat} (hi : envs[i]? = some env) :
    (Event.add i ds).apply envs = envs := by
  refine List.ext_getElem? fun j => ?_
  rw [Event.apply, List.getElem?_modify]
  by_cases hj : i = j
  · subst hj
    simp [hi, Env.addAll_of_error h]
  · simp [hj]

/-- A list of declarations is accepted just if it is compatible with the scopes, in whatever order,
and otherwise nothing changes. -/
theorem Env.add_ok_iff_compatible (env : Env) (ds : List Decl) :
    ((∃ env', env.add ds = .ok env') ↔ env.scopes.Compatible ds) ∧
    (∀ cs, env.add ds = .error cs → env.addAll ds = (env, cs) ∧
      ∀ (envs : List Env) (i : Nat), envs[i]? = some env →
        (Event.add i ds).apply envs = envs) ∧
    ∀ ds', ds.Perm ds' → ((∃ env', env.add ds' = .ok env') ↔ ∃ env', env.add ds = .ok env') := by
  have hok : ∀ ds, (∃ env', env.add ds = .ok env') ↔ env.scopes.Compatible ds := by
    simp [add_eq_ok_iff, Scopes.compatible_iff]
  refine ⟨hok ds, fun cs h => ⟨addAll_of_error h, fun envs i hi => ?_⟩, fun ds' hperm => ?_⟩
  · exact Event.apply_add_of_error h hi
  rw [hok, hok]
  exact ⟨.perm hperm.symm, .perm hperm⟩

end ExprTyping
