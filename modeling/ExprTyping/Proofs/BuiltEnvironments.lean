import ExprTyping.Proofs.StandardEnv
import Mathlib.Data.List.Pairwise

namespace ExprTyping

open Bindings

inductive Env.Builds (start : Env) : Env → Prop
  | start : Builds start start
  | add {env env' : Env} {ds : List Decl} : Builds start env → env.add ds = .ok env' →
      Builds start env'
  | enter {env : Env} : Builds start env → Builds start env.enter

theorem Env.Builds.provider_eq {start env : Env} (h : start.Builds env) :
    env.provider = start.provider := by
  induction h with
  | start => rfl
  | add _ hadd ih =>
    rw [(Env.add_eq_ok_iff.1 hadd).2]
    exact ih
  | enter _ ih => exact ih

theorem FunctionDecl.addOverload_cases (f : FunctionDecl) (o : Overload) :
    (f.addOverload o).1 = f ∨ f.conflicts o = [] ∧
      (f.addOverload o).1 = { f with overloads := f.overloads ++ [o] } := by
  rw [addOverload]
  split
  · exact .inl rfl
  · split
    · next hnone => exact .inr ⟨hnone, rfl⟩
    · exact .inl rfl

section Invariants

/-- Properties of identifiers and functions that adding a declaration keeps. -/
structure DeclInvariant where
  Ident : IdentDecl → Prop
  Function : FunctionDecl → Prop
  normalize : ∀ d : IdentDecl, Ident d.normalize
  empty : ∀ name, Function { name }
  extend : ∀ {f : FunctionDecl} {o : Overload}, Function f → f.conflicts o.normalize = [] →
    Function { f with overloads := f.overloads ++ [o.normalize] }

namespace DeclInvariant

variable {K : DeclInvariant} {s : Scopes} {f : FunctionDecl}

structure Holds (K : DeclInvariant) (s : Scopes) : Prop where
  ident : ∀ name d, s.findIdent? name = some d → K.Ident d
  function : ∀ name f, s.findFunction? name = some f → K.Function f

theorem holds_empty (K : DeclInvariant) : K.Holds {} := ⟨nofun, nofun⟩

theorem addOverloads (hf : K.Function f) (os : List Overload) :
    K.Function (f.addOverloads (os.map Overload.normalize)).1 := by
  induction os generalizing f with
  | nil => exact hf
  | cons o os ih =>
    have hstep : K.Function (f.addOverload o.normalize).1 := by
      rcases f.addOverload_cases o.normalize with heq | ⟨hnone, heq⟩ <;> rw [heq]
      · exact hf
      · exact K.extend hf hnone
    exact ih hstep

theorem Holds.addIdent (h : K.Holds s) {d : IdentDecl} (hd : K.Ident d) :
    K.Holds (s.addIdent d) := by
  refine ⟨fun name e he => ?_, h.function⟩
  rw [Scopes.findIdent?_addIdent] at he
  split at he
  · cases he
    exact hd
  · exact h.ident name e he

theorem Holds.setFunction (h : K.Holds s) (hf : K.Function f) : K.Holds (s.setFunction f) := by
  refine ⟨h.ident, fun name g hg => ?_⟩
  rw [Scopes.findFunction?_setFunction] at hg
  split at hg
  · cases hg
    exact hf
  · exact h.function name g hg

theorem Holds.add (h : K.Holds s) (d : Decl) : K.Holds (s.add d).1 := by
  cases d with
  | ident d =>
    simp only [Scopes.add]
    split
    · exact h
    · exact h.addIdent (K.normalize d)
  | function f =>
    refine h.setFunction (K.addOverloads ?_ f.overloads)
    cases hf : s.findFunction? f.name with
    | some g => exact h.function f.name g hf
    | none => exact K.empty f.name

theorem Holds.addAll (h : K.Holds s) (ds : List Decl) : K.Holds (s.addAll ds).1 := by
  induction ds generalizing s with
  | nil => exact h
  | cons d ds ih => exact ih (h.add d)

theorem Holds.builds {start env : Env} (h : K.Holds start.scopes) (hb : start.Builds env) :
    K.Holds env.scopes := by
  induction hb with
  | start => exact h
  | add _ hadd ih =>
    rw [(Env.add_eq_ok_iff.1 hadd).2]
    exact ih.addAll _
  | enter _ ih => exact ⟨ih.ident, ih.function⟩

end DeclInvariant

end Invariants

section Overloads

namespace Overload

def erasedParams (o : Overload) : List Ty := o.params.map (Bindings.subst {} true)

def erasedResult (o : Overload) : Ty := Bindings.subst {} true o.result

variable {o p : Overload}

theorem erased_eq (o : Overload) : o.erased = .function o.erasedResult o.erasedParams := by
  have hinst := funext (Wf.empty.keys.subst_eq_inst true)
  simp only [erased, erasedParams, erasedResult, ty, hinst, Ty.inst, Ty.instAll_eq_map]

theorem params_erasedParams {t : Ty} (ht : t ∈ o.erasedParams) : t.params = [] := by
  obtain ⟨u, -, rfl⟩ := List.mem_map.1 ht
  exact Wf.empty.keys.params_subst u

theorem overlaps_comm (o p : Overload) : o.overlaps p = p.overlaps o := by
  simp only [overlaps, Bool.beq_comm, Bool.and_assoc]
  rw [Bool.and_comm (assign? {} o.erased p.erased).isSome]

end Overload

namespace Bindings

variable {rec : Bindings → Ty → Ty → Outcome} {m m' : Bindings} {r s : Ty} {ts us : List Ty}

theorem pairwise_append (h : pairwise rec m ts us = .assigned m') (ts' us' : List Ty) :
    pairwise rec m (ts ++ ts') (us ++ us') = pairwise rec m' ts' us' := by
  induction ts generalizing m us with
  | nil =>
    obtain ⟨rfl, rfl⟩ := pairwise_nil_eq_assigned h
    rfl
  | cons t ts ih =>
    obtain ⟨u, us, m₁, rfl, hr, h⟩ := pairwise_cons_eq_assigned h
    simp only [List.cons_append, pairwise, hr]
    exact ih h

theorem assignAll?_eq_self (hm : m.Wf) (hts : ∀ t ∈ ts, t.params = [])
    (hus : ∀ u ∈ us, u.params = []) (h : m.assignAll? ts us = some m') : m' = m := by
  have hclosed : m.Closed fun t => t.params = [] := by
    refine ⟨fun t c ht _ hc => ?_, fun t u ht hu => ?_⟩
    · refine List.eq_nil_iff_forall_not_mem.2 fun p hp => ?_
      have := Ty.mem_params_of_mem_children hc hp
      simp [ht] at this
    · obtain ⟨p, rfl⟩ := hm.keys t u hu
      simp [Ty.params] at ht
  cases assignAll?_rewrites hclosed hts hus h with
  | refl => rfl
  | bind _ hp => simp [Ty.params] at hp

theorem assign?_function (hts : ∀ t ∈ ts, t.params = []) (hus : ∀ u ∈ us, u.params = [])
    (hparams : (assignAll? {} ts us).isSome) (hresult : (assign? {} r s).isSome) :
    (assign? {} (.function r ts) (.function s us)).isSome := by
  obtain ⟨m, hm⟩ := Option.isSome_iff_exists.1 hparams
  obtain rfl := assignAll?_eq_self .empty hts hus hm
  have hpairs : pairwise assign {} ts us = .assigned {} := by
    rw [← Wf.empty.assignAll_eq_pairwise]
    exact Outcome.toOption_eq_some.1 hm
  rw [assign?, Wf.empty.assign_eq_step, step]
  split
  · rfl
  · change (pairwise assign {} (ts ++ [r]) (us ++ [s])).toOption.isSome
    rwa [pairwise_append hpairs, pairwise_singleton]

end Bindings

theorem Overload.overlaps_of_assignable {o p : Overload} (hreceiver : o.receiver = p.receiver)
    (hparams : (assignAll? {} o.erasedParams p.erasedParams).isSome)
    (hparams' : (assignAll? {} p.erasedParams o.erasedParams).isSome)
    (hresult : (assign? {} o.erasedResult p.erasedResult).isSome)
    (hresult' : (assign? {} p.erasedResult o.erasedResult).isSome) : o.overlaps p = true := by
  have ho : ∀ t ∈ o.erasedParams, t.params = [] := fun _ => params_erasedParams
  have hp : ∀ t ∈ p.erasedParams, t.params = [] := fun _ => params_erasedParams
  simp [overlaps, erased_eq, hreceiver, assign?_function ho hp hparams hresult,
    assign?_function hp ho hparams' hresult']

/-- No overload overlaps an earlier one. -/
def DeclInvariant.apart : DeclInvariant where
  Ident _ := True
  Function f := f.overloads.Pairwise fun e o => o.overlaps e = false
  normalize _ := trivial
  empty _ := .nil
  extend {f o} hf hnone := by
    simp only [FunctionDecl.conflicts, List.append_eq_nil_iff, List.map_eq_nil_iff,
      List.filter_eq_nil_iff, Bool.not_eq_true] at hnone
    simpa [List.pairwise_append] using ⟨hf, hnone.1⟩

/-- In an environment that is built from nothing, two overloads of one function that share their
call style are told apart by their parameters or by their results: once type parameters are erased,
one of the two cannot stand for the other. -/
theorem Env.Builds.overloads_apart {container : Container} {provider : Provider}
    {options : Options} {env : Env} {name : String} {f : FunctionDecl} {o p : Overload}
    (h : Env.Builds { container, provider, options } env)
    (hf : env.scopes.findFunction? name = some f) (ho : o ∈ f.overloads) (hp : p ∈ f.overloads)
    (hne : o ≠ p) (hreceiver : o.receiver = p.receiver) :
    (assignAll? {} o.erasedParams p.erasedParams = none ∨
      assignAll? {} p.erasedParams o.erasedParams = none) ∨
    (assign? {} o.erasedResult p.erasedResult = none ∨
      assign? {} p.erasedResult o.erasedResult = none) := by
  have hpairwise := ((DeclInvariant.holds_empty .apart).builds h).function name f hf
  have hsymm : Std.Symm fun e o : Overload => o.overlaps e = false :=
    ⟨fun e o h => (e.overlaps_comm o).trans h⟩
  have hapart := hpairwise.forall ho hp hne
  by_contra hcontra
  simp only [not_or, ← ne_eq, Option.ne_none_iff_isSome] at hcontra
  obtain ⟨⟨hop, hpo⟩, hr, hr'⟩ := hcontra
  have := Overload.overlaps_of_assignable hreceiver.symm hpo hop hr' hr
  simp [hapart] at this

theorem Env.Builds.overloads_apart_of_merged :
    let onList : Overload :=
      { id := "f_list", params := [.list (.param "A")], result := .int, typeParams := ["A"] }
    let onMap : Overload :=
      { id := "f_map", params := [.map (.param "A") .dyn], result := .dyn, typeParams := ["A"] }
    let start : Env :=
      { container := {}, provider := ⟨fun _ => none, fun _ _ => none, fun _ => none⟩ }
    ∃ outer inner f, start.add [.function ⟨"f", [onList]⟩] = .ok outer ∧
      outer.enter.add [.function ⟨"f", [onMap]⟩] = .ok inner ∧
      inner.scopes.findFunction? "f" = some f ∧ f.overloads = [onList, onMap] ∧
      ((assignAll? {} onList.erasedParams onMap.erasedParams = none ∨
        assignAll? {} onMap.erasedParams onList.erasedParams = none) ∨
      (assign? {} onList.erasedResult onMap.erasedResult = none ∨
        assign? {} onMap.erasedResult onList.erasedResult = none)) := by
  intro onList onMap start
  obtain ⟨outer, inner, f, houter, hinner, hf, hover⟩ :
      ∃ outer inner f, start.add [.function ⟨"f", [onList]⟩] = .ok outer ∧
        outer.enter.add [.function ⟨"f", [onMap]⟩] = .ok inner ∧
        inner.scopes.findFunction? "f" = some f ∧ f.overloads = [onList, onMap] :=
    ⟨_, _, _, rfl, rfl, rfl, rfl⟩
  refine ⟨outer, inner, f, houter, hinner, hf, hover, ?_⟩
  exact overloads_apart (.add (.enter (.add .start houter)) hinner) hf (by simp [hover])
    (by simp [hover]) (by simp [onList, onMap]) rfl

/-- Overloads with the same parameters may be declared side by side if their results differ. A call
then resolves to both of them and is dynamic. -/
theorem Env.Builds.overloads_of_same_params :
    let toInt : Overload := { id := "f_int", params := [.int], result := .int }
    let toText : Overload := { id := "f_text", params := [.int], result := .string }
    let start : Env :=
      { container := {}, provider := ⟨fun _ => none, fun _ _ => none, fun _ => none⟩ }
    ∃ env f, start.Builds env ∧ env.lookupFunction? "f" = some f ∧ toInt ∈ f.overloads ∧
      toText ∈ f.overloads ∧ toInt ≠ toText ∧ toInt.receiver = toText.receiver ∧
      toInt.params.length = toText.params.length ∧
      (assignAll? {} toInt.erasedParams toText.erasedParams).isSome ∧
      (assignAll? {} toText.erasedParams toInt.erasedParams).isSome ∧
      ∃ r, check env {} (.call 2 "f" [.const 1 (.int 1)]) = .ok r ∧ r.type? = some .dyn ∧
        r.references.find? 2 = some { name := "f", overloads := ["f_int", "f_text"] } := by
  intro toInt toText start
  have hadd : start.add [.function ⟨"f", [toInt, toText]⟩] = .ok _ := rfl
  refine ⟨_, _, .add .start hadd, rfl, ?_⟩
  exact ⟨.head _, .tail _ (.head _), by simp [toInt, toText], rfl, rfl, rfl, rfl, _, rfl, rfl, rfl⟩

end Overloads

end ExprTyping
