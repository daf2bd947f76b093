import ExprTyping.Proofs.FreshVariables

/-!
# What a check can bind

A check reaches types only through the names that it looks up, the signatures of overloads, fields
and fresh variables. If all of these lie in a set of types that the rules do not leave
(`Territory`), then the check binds parameters of this set only, and only to types of it
(`Completes.confined`). So a check leaves alone what none of its names leads to.
-/

namespace ExprTyping

section FreeNames

mutual
/-- The names that the check of an expression may look up as identifiers outside of it. The name of
a message literal is left out, as no type is taken from it. -/
def Expr.freeNames (c : Container) : Expr → List String
  | .const _ _ => []
  | .ident _ name => c.candidates name
  | .select _ operand field _ =>
    (operand.qualifiedName?.map fun p => c.candidates (p ++ "." ++ field)).getD [] ++
      operand.freeNames c
  | .call _ _ args => Expr.freeNamesAll c args
  | .method _ target _ args => target.freeNames c ++ Expr.freeNamesAll c args
  | .list _ elems => Expr.freeNamesAll c elems
  | .message _ _ fields => Expr.freeNamesFields c fields
  | .map _ entries => Expr.freeNamesEntries c entries
  | .fold _ iter range accu init condition step result =>
    range.freeNames c ++ init.freeNames c ++
      ((condition.freeNames c ++ step.freeNames c).filter fun v => v ≠ accu ∧ v ≠ iter) ++
      (result.freeNames c).filter fun v => v ≠ accu

def Expr.freeNamesAll (c : Container) : List Expr → List String
  | [] => []
  | e :: es => e.freeNames c ++ Expr.freeNamesAll c es

def Expr.freeNamesFields (c : Container) : List FieldInit → List String
  | [] => []
  | .mk _ _ value :: fs => value.freeNames c ++ Expr.freeNamesFields c fs

def Expr.freeNamesEntries (c : Container) : List Entry → List String
  | [] => []
  | .mk _ key value :: es => key.freeNames c ++ value.freeNames c ++ Expr.freeNamesEntries c es
end

variable {A : Ty → Prop} {env : Env}

def Env.Gives (env : Env) (A : Ty → Prop) (names : List String) : Prop :=
  ∀ v ∈ names, ∀ d, env.lookupCandidate? v = some d → A d.ty

theorem Env.gives_append {ns ks : List String} :
    env.Gives A (ns ++ ks) ↔ env.Gives A ns ∧ env.Gives A ks :=
  List.forall_mem_append

theorem Env.Gives.lookupIdent {name : String} {d : IdentDecl}
    (h : env.Gives A (env.container.candidates name)) (hd : env.lookupIdent? name = some d) :
    A d.ty := by
  obtain ⟨v, hv, hd⟩ := List.exists_of_findSome?_eq_some hd
  exact h v hv d hd

theorem Env.Gives.selectedDecl {operand : Expr} {field : String} {d : IdentDecl} {id : Int}
    {testOnly : Bool}
    (h : env.Gives A ((Expr.select id operand field testOnly).freeNames env.container))
    (hd : Checker.selectedDecl? env operand field = some d) : A d.ty := by
  obtain ⟨p, hp, hd⟩ := Option.bind_eq_some_iff.1 hd
  rw [Expr.freeNames, hp, gives_append] at h
  exact h.1.lookupIdent hd

theorem Env.Gives.bind {d : IdentDecl} {names : List String} {P : String → Bool}
    (h : env.Gives A (names.filter P)) (hd : A d.ty) (hP : ∀ v, v ≠ d.name → P v = true) :
    (env.enter.bind d).Gives A names := by
  intro v hv e he
  rw [TypeInvariant.lookupCandidate?_bind] at he
  split at he
  · cases he
    exact hd
  · next hne => exact h v (List.mem_filter.2 ⟨hv, hP v (Ne.symm hne)⟩) e he

end FreeNames

structure Env.SelfContained (env : Env) : Prop where
  overload : ∀ name f, env.scopes.findFunction? name = some f →
    ∀ o ∈ f.overloads, o.Scoped ∧ ∀ k, varName k ∉ o.typeParams
  field : ∀ m f t, env.provider.field? m f = some t → t.params = []

theorem Env.SelfContained.bind {env : Env} (h : env.SelfContained) (d : IdentDecl) :
    (env.enter.bind d).SelfContained :=
  ⟨h.overload, h.field⟩

theorem Env.SelfContained.lookupFunction {env : Env} (h : env.SelfContained) {name : String}
    {f : FunctionDecl} (hf : env.lookupFunction? name = some f) :
    ∀ o ∈ f.overloads, o.Scoped ∧ ∀ k, varName k ∉ o.typeParams := by
  obtain ⟨c, -, hc⟩ := List.exists_of_findSome?_eq_some hf
  exact h.overload c f hc

open Bindings in
/-- A set of types that nothing leads out of, for checks that start with the bindings `m` and take
variables from number `n` on. -/
structure Territory (m : Bindings) (n : Nat) (A : Ty → Prop) : Prop extends m.Closed A where
  ofFresh : ∀ t : Ty, (∀ q ∈ t.params, ∃ k, n ≤ k ∧ varName k = q) → A t
  list : ∀ t, A t → A (.list t)
  map : ∀ k v, A k → A v → A (.map k v)
  subst : ∀ m' t, Rewrites A m m' → A t → A (m'.subst false t)

theorem Territory.ground {m : Bindings} {n : Nat} {A : Ty → Prop} (hA : Territory m n A) {t : Ty}
    (h : t.params = []) : A t :=
  hA.ofFresh t (by simp [h])

theorem Territory.instantiate {m : Bindings} {n k : Nat} {A : Ty → Prop} (hA : Territory m n A)
    (hk : n ≤ k) {o : Overload} (ho : o.Scoped ∧ ∀ j, varName j ∉ o.typeParams) :
    ∀ t ∈ (o.instantiate k).2.1 :: (o.instantiate k).1, A t := by
  intro t ht
  rw [Overload.instantiate_eq fun j _ => ho.2 j] at ht
  obtain ⟨u, hu, rfl⟩ : ∃ u ∈ o.result :: o.params,
      u.rename (Overload.freshName k o.typeParams) = t := List.mem_map.1 ht
  refine hA.ofFresh _ fun q hq => ?_
  obtain ⟨p, hp, rfl⟩ := Ty.mem_params_rename.1 hq
  obtain ⟨j, hj, -, hname⟩ := Overload.freshName_mem_vars (n := k) (ho.1 u hu p hp)
  exact ⟨j, Nat.le_trans hk hj, hname⟩

structure State.Confined (m : Bindings) (n : Nat) (A : Ty → Prop) (s : State) : Prop where
  rewrites : Bindings.Rewrites A m s.bindings
  nextVar : n ≤ s.nextVar

def State.TypedIn (s : State) (A : Ty → Prop) (id : Int) : Prop :=
  ∃ t, s.types.find? id = some t ∧ A t

theorem State.Grows.typedIn {s s' : State} {A : Ty → Prop} {id : Int} (h : Grows s s')
    (hid : s.TypedIn A id) : s'.TypedIn A id := by
  obtain ⟨t, ht, hA⟩ := hid
  exact ⟨t, h.types id t ht, hA⟩

theorem State.TypedIn.typeAt {s : State} {A : Ty → Prop} {id : Int} (h : s.TypedIn A id) :
    A (s.typeAt id) := by
  obtain ⟨t, ht, hA⟩ := h
  rwa [State.typeAt, ht]

namespace State.Confined

open Checker Bindings

variable {m : Bindings} {n : Nat} {A : Ty → Prop} {env : Env} {s s' : State} {t u : Ty} {id : Int}

theorem of_bindings_eq (h : s.Confined m n A) (hb : s'.bindings = s.bindings)
    (hn : s.nextVar ≤ s'.nextVar) : s'.Confined m n A :=
  ⟨hb ▸ h.rewrites, Nat.le_trans h.nextVar hn⟩

theorem report (h : s.Confined m n A) (id : Int) (c : Cause) : (s.report id c).Confined m n A :=
  ⟨h.rewrites, h.nextVar⟩

theorem setType (h : s.Confined m n A) (hset : s.setType id t = .ok s') (ht : A t) :
    s'.Confined m n A ∧ s'.TypedIn A id := by
  obtain ⟨hg, hid, hb⟩ := grows_setType hset
  exact ⟨h.of_bindings_eq hb hg.nextVar, t, hid, ht⟩

theorem annotateIdent {d : IdentDecl} (h : s.Confined m n A)
    (hset : annotateIdent s id d = .ok s') (hd : A d.ty) :
    s'.Confined m n A ∧ s'.TypedIn A id := by
  simp only [Checker.annotateIdent, bind_eq_ok] at hset
  obtain ⟨s₁, hs, hr⟩ := hset
  obtain ⟨h₁, hid⟩ := h.setType hs hd
  obtain ⟨hg, -, hb⟩ := grows_setReference hr
  exact ⟨h₁.of_bindings_eq hb hg.nextVar, hg.typedIn hid⟩

variable (hA : Territory m n A)

include hA

theorem annotateUndeclared {name : String} (h : s.Confined m n A)
    (hset : annotateUndeclared env s id name = .ok s') :
    s'.Confined m n A ∧ s'.TypedIn A id := by
  simp only [Checker.annotateUndeclared, bind_eq_ok, pure_eq_ok] at hset
  obtain ⟨s₁, hs, rfl⟩ := hset
  obtain ⟨h₁, hid⟩ := h.setType (t := .error) hs (hA.ground rfl)
  exact ⟨h₁.report id _, hid⟩

theorem subst (h : s.Confined m n A) (ht : A t) : A (s.subst t) := hA.subst _ t h.rewrites ht

theorem unify (h : s.Confined m n A) (ht : A t) (hu : A u) : (s.unify t u).2.Confined m n A := by
  rw [State.unify]
  split
  · next m' hm' =>
    have hrw := assign?_rewrites (h.rewrites.closed hA.toClosed) ht hu hm'
    exact ⟨h.rewrites.trans hrw, h.nextVar⟩
  · exact h

theorem require (h : s.Confined m n A) (ht : A t) (hu : A u) (id : Int) (c : Cause) :
    (s.require t u id c).Confined m n A := by
  have h' := h.unify hA ht hu
  rw [State.require]
  split
  · next heq => rwa [heq] at h'
  · next heq =>
    rw [heq] at h'
    exact h'.report id c

theorem expect (h : s.Confined m n A) (hid : s.TypedIn A id) (hu : A u) :
    (s.expect id u).Confined m n A :=
  h.require hA hid.typeAt hu _ _

theorem orFresh {o : Option Ty} (h : s.Confined m n A) (ho : ∀ t, o = some t → A t)
    (heq : s.orFresh o = (u, s')) : s'.Confined m n A ∧ A u := by
  cases o with
  | some t =>
    cases heq
    exact ⟨h, ho u rfl⟩
  | none =>
    cases heq
    refine ⟨h.of_bindings_eq rfl (Nat.le_succ _), hA.ofFresh _ fun q hq => ?_⟩
    exact ⟨s.nextVar, h.nextVar, (List.mem_singleton.1 hq).symm⟩

theorem fieldType (henv : env.SelfContained) (h : s.Confined m n A) (id : Int)
    (message field : String) : (fieldType env s id message field).2.Confined m n A ∧
      A (fieldType env s id message field).1 := by
  unfold Checker.fieldType
  split
  · exact ⟨h.report id _, hA.ground rfl⟩
  · split
    · next t ht => exact ⟨h, hA.ground (henv.field message field t ht)⟩
    · exact ⟨h.report id _, hA.ground rfl⟩

theorem selection (henv : env.SelfContained) (h : s.Confined m n A) (ht : A t) (id : Int)
    (field : String) : (selection env s id t field).2.Confined m n A ∧
      A (selection env s id t field).1 := by
  unfold Checker.selection
  split
  · exact ⟨h, hA.child _ _ ht rfl (by simp [Ty.children])⟩
  · exact h.fieldType hA henv id _ field
  · exact ⟨h.unify hA (hA.ground rfl) ht, hA.ground rfl⟩
  · exact ⟨h, ht⟩
  · exact ⟨h, hA.ground rfl⟩
  · exact ⟨h.report id _, hA.ground rfl⟩

theorem join {o : Option Ty} (h : s.Confined m n A) (ho : ∀ t, o = some t → A t) (hu : A u)
    (env : Env) (id : Int) :
    (join env s id o u).2.Confined m n A ∧ A (join env s id o u).1 := by
  unfold Checker.join
  split
  · exact ⟨h, hu⟩
  · next t =>
    have h' := h.unify hA (ho t rfl) hu
    split
    · next heq =>
      rw [heq] at h'
      exact ⟨h', mostGeneral_of_both (ho t rfl) hu⟩
    · next s₁ heq =>
      rw [heq] at h'
      split
      · exact ⟨h', hA.ground rfl⟩
      · exact ⟨State.Confined.report h' id _, hA.ground rfl⟩

theorem initField (henv : env.SelfContained) (h : s.Confined m n A) {valueId : Int}
    (hid : s.TypedIn A valueId) (t : Ty) (id : Int) (field : String) :
    (initField env s t id field valueId).Confined m n A := by
  cases t with
  | message name =>
    have hf := h.fieldType hA henv id name field
    exact hf.1.require hA hid.typeAt hf.2 id _
  | _ => exact h.require hA hid.typeAt (hA.ground rfl) id _

theorem iterType (h : s.Confined m n A) (ht : A t) (id : Int) :
    (iterType s id t).2.Confined m n A ∧ A (iterType s id t).1 := by
  unfold Checker.iterType
  split
  · exact ⟨h, hA.child _ _ ht rfl (by simp [Ty.children])⟩
  · exact ⟨h, hA.child _ _ ht rfl (by simp [Ty.children])⟩
  · exact ⟨h.unify hA (hA.ground rfl) ht, hA.ground rfl⟩
  · exact ⟨h.unify hA (hA.ground rfl) ht, hA.ground rfl⟩
  · exact ⟨h.unify hA (hA.ground rfl) ht, hA.ground rfl⟩
  · exact ⟨h.report id _, hA.ground rfl⟩

theorem overload {v : Trial} {args : List Ty} {o : Overload}
    (ho : o.Scoped ∧ ∀ k, varName k ∉ o.typeParams) (hargs : ∀ t ∈ args, A t)
    (h : (s.trying v).Confined m n A) (hv : ∀ r, v.found = some r → A r.result) :
    (s.trying (v.overload args o)).Confined m n A ∧
      ∀ r, (v.overload args o).found = some r → A r.result := by
  have hnext := Nat.le_trans h.nextVar (o.nextVar_instantiate v.nextVar)
  have hinst := hA.instantiate h.nextVar ho
  rw [List.forall_mem_cons] at hinst
  rcases v.overload_case args o with heq | ⟨m', hm', heq⟩
  · rw [heq]
    exact ⟨⟨h.rewrites, hnext⟩, hv⟩
  · rw [heq]
    have hrw : Rewrites A m m' := h.rewrites.trans
      (assignAll?_rewrites (h.rewrites.closed hA.toClosed) hargs hinst.2 hm')
    refine ⟨⟨hrw, hnext⟩, fun r hr => ?_⟩
    cases hr
    have hresult := hA.subst m' _ hrw hinst.1
    cases hf : v.found with
    | none => exact hresult
    | some r =>
      simp only [Resolution.add]
      split
      · exact hA.ground rfl
      · exact hv r hf

theorem resolveCall {f : FunctionDecl} {receiver : Bool} {args : List Int}
    (hf : ∀ o ∈ f.overloads, o.Scoped ∧ ∀ k, varName k ∉ o.typeParams) (h : s.Confined m n A)
    (hargs : ∀ i ∈ args, s.TypedIn A i)
    (hset : resolveCall env s id f receiver args = .ok s') :
    s'.Confined m n A ∧ s'.TypedIn A id := by
  have hargs' : ∀ t ∈ args.map s.typeAt, A t := by
    intro t ht
    obtain ⟨i, hi, rfl⟩ := List.mem_map.1 ht
    exact (hargs i hi).typeAt
  obtain ⟨htrial, hfound⟩ := List.foldlRecOn
    (motive := fun v => (s.trying v).Confined m n A ∧ ∀ r, v.found = some r → A r.result)
    (f.overloads.filter fun o => !env.options.isDisabled o.id && o.receiver == receiver)
    (·.overload (args.map s.typeAt) ·) (b := ⟨s.bindings, s.nextVar, none⟩) ⟨h, by simp⟩
    fun v hv o ho => overload hA (hf o (List.mem_of_mem_filter ho)) hargs' hv.1 hv.2
  simp only [Checker.resolveCall] at hset
  split at hset
  · next r hr =>
    rw [bind_eq_ok] at hset
    obtain ⟨s₁, hs, hq⟩ := hset
    obtain ⟨h₁, hid⟩ := htrial.setType hs (hfound r hr)
    obtain ⟨hg, -, hb⟩ := grows_setReference hq
    exact ⟨h₁.of_bindings_eq hb hg.nextVar, hg.typedIn hid⟩
  · exact (htrial.report id _).setType hset (hA.ground rfl)

omit hA in
theorem messageLiteral {name name' : String} (h : s.Confined m n A)
    (hname : messageLiteral env s id name = .ok (name', t, s')) : s'.Confined m n A := by
  have hq : ∀ s₁ d, s₁.Confined m n A → (messageType s₁ id d).2.Confined m n A := by
    intro s₁ d h₁
    unfold messageType
    split
    · exact h₁
    · exact h₁
    · exact h₁.report id _
    · exact h₁.report id _
    · exact h₁.report id _
  rw [Checker.messageLiteral] at hname
  split at hname
  · cases hname
    exact h.report id _
  · next d hd =>
    simp only [bind_eq_ok, pure_eq_ok] at hname
    obtain ⟨s₁, hs, heq⟩ := hname
    cases heq
    obtain ⟨hg, -, hb⟩ := grows_setReference hs
    exact hq s₁ d.ty (h.of_bindings_eq hb hg.nextVar)

end State.Confined

namespace Checker

open State Bindings

variable {m : Bindings} {n : Nat} {A : Ty → Prop} {env : Env} {s s' : State} {e e' : Expr}

theorem params_literalType {name name' : String} {id : Int} {t : Ty}
    (h : messageLiteral env s id name = .ok (name', t, s')) : (literalType t).params = [] := by
  have hmessage : ∀ s₁ d, (literalType (messageType s₁ id d).1).params = [] := by
    intro s₁ d
    unfold messageType
    split
    · rfl
    · exact params_ofMessageName _
    · rfl
    · rfl
    · rfl
  rw [messageLiteral] at h
  split at h
  · cases h
    rfl
  · next d hd =>
    simp only [bind_eq_ok, pure_eq_ok] at h
    obtain ⟨s₁, -, heq⟩ := h
    cases heq
    exact hmessage s₁ d.ty

def StaysIn (m : Bindings) (n : Nat) (A : Ty → Prop) (env : Env) (s : State) (e : Expr)
    (s' : State) : Prop :=
  env.SelfContained → env.Gives A (e.freeNames env.container) → s.Confined m n A →
    s'.Confined m n A ∧ s'.TypedIn A e.id

def Kept (m : Bindings) (n : Nat) (A : Ty → Prop) (env : Env) (s : State) (e e' : Expr)
    (s' : State) : Prop :=
  Completes env s e e' s' ∧ StaysIn m n A env s e s'

section Lists

theorem InTurn.confined {es es' : List Expr} (h : InTurn (Kept m n A env) s es es' s')
    (henv : env.SelfContained) (hn : env.Gives A (Expr.freeNamesAll env.container es))
    (hs : s.Confined m n A) : s'.Confined m n A ∧ ∀ i ∈ es.map Expr.id, s'.TypedIn A i := by
  induction h with
  | nil => exact ⟨hs, by simp⟩
  | cons he hes ih =>
    rw [Expr.freeNamesAll, Env.gives_append] at hn
    obtain ⟨h₁, hid⟩ := he.2 henv hn.1 hs
    obtain ⟨h₂, hids⟩ := ih hn.2 h₁
    have hg := (hes.mono fun _ _ _ _ h => h.1.advances).advances.toGrows
    exact ⟨h₂, List.forall_mem_cons.2 ⟨hg.typedIn hid, hids⟩⟩

theorem Joined.confined {es es' : List Expr} {t t' : Option Ty} (hA : Territory m n A)
    (h : Joined (Kept m n A env) env s t es es' t' s') (henv : env.SelfContained)
    (hn : env.Gives A (Expr.freeNamesAll env.container es)) (hs : s.Confined m n A)
    (ht : ∀ u, t = some u → A u) : s'.Confined m n A ∧ ∀ u, t' = some u → A u := by
  induction h with
  | nil => exact ⟨hs, ht⟩
  | @cons s s₁ s₂ s₃ e e' es es' t t' u he hj _ ih =>
    rw [Expr.freeNamesAll, Env.gives_append] at hn
    obtain ⟨h₁, hid⟩ := he.2 henv hn.1 hs
    obtain ⟨h₂, hu⟩ := h₁.join hA ht hid.typeAt env e.id
    rw [hj] at h₂ hu
    exact ih hn.2 h₂ (by simpa using hu)

theorem JoinedEntries.confined {es es' : List Entry} {k v k' v' : Option Ty}
    (hA : Territory m n A) (h : JoinedEntries (Kept m n A env) env s k v es es' k' v' s')
    (henv : env.SelfContained) (hn : env.Gives A (Expr.freeNamesEntries env.container es))
    (hs : s.Confined m n A) (hk : ∀ u, k = some u → A u) (hv : ∀ u, v = some u → A u) :
    s'.Confined m n A ∧ (∀ u, k' = some u → A u) ∧ ∀ u, v' = some u → A u := by
  induction h with
  | nil => exact ⟨hs, hk, hv⟩
  | @cons s s₁ s₂ s₃ s₄ s₅ i x x' y y' es es' k v k' v' t u hx hjk hy hjv _ ih =>
    rw [Expr.freeNamesEntries, Env.gives_append, Env.gives_append] at hn
    obtain ⟨h₁, hidx⟩ := hx.2 henv hn.1.1 hs
    obtain ⟨h₂, ht⟩ := h₁.join hA hk hidx.typeAt env x.id
    rw [hjk] at h₂ ht
    obtain ⟨h₃, hidy⟩ := hy.2 henv hn.1.2 h₂
    obtain ⟨h₄, hu⟩ := h₃.join hA hv hidy.typeAt env y.id
    rw [hjv] at h₄ hu
    exact ih hn.2 h₄ (by simpa using ht) (by simpa using hu)

theorem Initialized.confined {fs fs' : List FieldInit} {t : Ty} (hA : Territory m n A)
    (h : Initialized (Kept m n A env) env t s fs fs' s') (henv : env.SelfContained)
    (hn : env.Gives A (Expr.freeNamesFields env.container fs)) (hs : s.Confined m n A) :
    s'.Confined m n A := by
  induction h with
  | nil => exact hs
  | @cons s s₁ s₂ i f x x' fs fs' hx _ ih =>
    rw [Expr.freeNamesFields, Env.gives_append] at hn
    obtain ⟨h₁, hid⟩ := hx.2 henv hn.1 hs
    exact ih hn.2 (h₁.initField hA henv hid t i f)

end Lists

theorem confined_fold {id : Int} {iter accu : String}
    {range range' init init' condition condition' step step' result result' : Expr}
    {accuEnv loopEnv : Env} {iterTy : Ty} {s₁ s₂ s₃ s₄ s₅ s₆ : State} (hA : Territory m n A)
    (hr : Kept m n A env s range range' s₁) (hi : Kept m n A env s₁ init init' s₂)
    (hiter : iterType s₂ range.id (s₂.subst (s₂.typeAt range.id)) = (iterTy, s₃))
    (haccu : accuEnv = env.enter.bind { name := accu, ty := s₂.typeAt init.id })
    (hloop : loopEnv = accuEnv.enter.bind { name := iter, ty := iterTy })
    (hc : Kept m n A loopEnv s₃ condition condition' s₄)
    (hs : Kept m n A loopEnv (s₄.expect condition.id .bool) step step' s₅)
    (ha : Kept m n A accuEnv (s₅.expect step.id (s₂.typeAt init.id)) result result' s₆)
    (hset : s₆.setType id (s₆.subst (s₆.typeAt result.id)) = .ok s') :
    StaysIn m n A env s (.fold id iter range accu init condition step result) s' := by
  intro henv hn hstart
  rw [Expr.freeNames, Env.gives_append, Env.gives_append, Env.gives_append] at hn
  obtain ⟨⟨⟨hnr, hni⟩, hnbody⟩, hnresult⟩ := hn
  obtain ⟨h₁, hidr⟩ := hr.2 henv hnr hstart
  obtain ⟨h₂, hidi⟩ := hi.2 henv hni h₁
  have hrange := h₂.subst hA (hi.1.advances.toGrows.typedIn hidr).typeAt
  obtain ⟨h₃, hiterTy⟩ := h₂.iterType hA hrange range.id
  rw [hiter] at h₃ hiterTy
  -- both variables of the loop have types of `A`
  have hbody : loopEnv.Gives A
      (condition.freeNames env.container ++ step.freeNames env.container) := by
    subst hloop haccu
    refine Env.Gives.bind (P := fun v => v ≠ iter) ?_ hiterTy (by simp)
    refine Env.Gives.bind (P := fun v => v ≠ accu) ?_ hidi.typeAt (by simp)
    rw [List.filter_filter]
    simpa using hnbody
  have hresult : accuEnv.Gives A (result.freeNames env.container) := by
    subst haccu
    exact hnresult.bind hidi.typeAt (by simp)
  rw [Env.gives_append] at hbody
  have haccuEnv : accuEnv.SelfContained := haccu ▸ henv.bind _
  have hloopEnv : loopEnv.SelfContained := hloop ▸ haccuEnv.bind _
  have hcontainer : loopEnv.container = env.container ∧ accuEnv.container = env.container := by
    subst hloop haccu
    exact ⟨rfl, rfl⟩
  obtain ⟨h₄, hidc⟩ := hc.2 hloopEnv (hcontainer.1 ▸ hbody.1) h₃
  have h₄' := h₄.expect hA (u := .bool) hidc (hA.ground rfl)
  obtain ⟨h₅, hids⟩ := hs.2 hloopEnv (hcontainer.1 ▸ hbody.2) h₄'
  have h₅' := h₅.expect hA hids hidi.typeAt
  obtain ⟨h₆, hida⟩ := ha.2 haccuEnv (hcontainer.2 ▸ hresult) h₅'
  exact h₆.setType hset (h₆.subst hA hida.typeAt)

theorem Rule.confined (hA : Territory m n A) (h : Rule (Kept m n A) env s e e' s') :
    StaysIn m n A env s e s' := by
  cases h with
  | @const _ id v hset => exact fun henv hn hs => hs.setType hset (hA.ground (by cases v <;> rfl))
  | ident hd hset => exact fun henv hn hs => hs.annotateIdent hset (hn.lookupIdent hd)
  | undeclaredIdent hd hset => exact fun henv hn hs => hs.annotateUndeclared hA hset
  | qualifiedIdent hd hset => exact fun henv hn hs => hs.annotateIdent hset (hn.selectedDecl hd)
  | testedIdent hd hset =>
    exact fun henv hn hs => (hs.report _ _).setType hset (hA.ground rfl)
  | @select s₁ s₂ s' id operand operand' field testOnly t hd ho hsel hset =>
    intro henv hn hs
    rw [Expr.freeNames, Env.gives_append] at hn
    obtain ⟨h₁, hid⟩ := ho.2 henv hn.2 hs
    obtain ⟨h₂, ht⟩ := h₁.selection hA henv (h₁.subst hA hid.typeAt) id field
    rw [hsel] at h₂ ht
    have ht' : A (if testOnly then .bool else t) := by
      split
      · exact hA.ground rfl
      · exact ht
    exact h₂.setType hset (h₂.subst hA ht')
  | call hargs hd hset =>
    intro henv hn hs
    obtain ⟨h₁, hids⟩ := hargs.confined henv hn hs
    exact h₁.resolveCall hA (henv.lookupFunction hd) hids hset
  | undeclaredCall hargs hd hset =>
    exact fun henv hn hs => (hargs.confined henv hn hs).1.annotateUndeclared hA hset
  | namespacedCall hargs hf hset =>
    intro henv hn hs
    rw [Expr.freeNames, Env.gives_append] at hn
    obtain ⟨p, -, hd⟩ := Option.bind_eq_some_iff.1 hf
    obtain ⟨h₁, hids⟩ := hargs.confined henv hn.2 hs
    exact h₁.resolveCall hA (henv.lookupFunction hd) hids hset
  | method hargs hf ht hd hset =>
    intro henv hn hs
    rw [Expr.freeNames, Env.gives_append] at hn
    obtain ⟨h₁, hids⟩ := hargs.confined henv hn.2 hs
    obtain ⟨h₂, hid⟩ := ht.2 henv hn.1 h₁
    have hg := ht.1.advances.toGrows
    exact h₂.resolveCall hA (henv.lookupFunction hd)
      (List.forall_mem_cons.2 ⟨hid, fun i hi => hg.typedIn (hids i hi)⟩) hset
  | undeclaredMethod hargs hf ht hd hset =>
    intro henv hn hs
    rw [Expr.freeNames, Env.gives_append] at hn
    exact (ht.2 henv hn.1 (hargs.confined henv hn.2 hs).1).1.annotateUndeclared hA hset
  | list helems hf hset =>
    intro henv hn hs
    obtain ⟨h₁, ht⟩ := helems.confined hA henv hn hs (by simp)
    obtain ⟨h₂, hu⟩ := h₁.orFresh hA ht hf
    exact h₂.setType hset (hA.list _ hu)
  | map hentries hk hv hset =>
    intro henv hn hs
    obtain ⟨h₁, htk, htv⟩ := hentries.confined hA henv hn hs (by simp) (by simp)
    obtain ⟨h₂, ht⟩ := h₁.orFresh hA htk hk
    obtain ⟨h₃, hu⟩ := h₂.orFresh hA htv hv
    exact h₃.setType hset (hA.map _ _ ht hu)
  | message hname hset hfields =>
    intro henv hn hs
    obtain ⟨h₂, hid⟩ :=
      (hs.messageLiteral hname).setType hset (hA.ground (params_literalType hname))
    have hg := (hfields.mono fun _ _ _ _ h => h.1.advances).advances.toGrows
    exact ⟨hfields.confined hA henv hn h₂, hg.typedIn hid⟩
  | fold hr hi hiter haccu hloop hc hs ha hset =>
    exact confined_fold hA hr hi hiter haccu hloop hc hs ha hset

/-- A check stays in a territory if it starts there and its names stand for types of it. -/
theorem Completes.confined (hA : Territory m n A) (h : Completes env s e e' s') :
    StaysIn m n A env s e s' :=
  h.strongInduction (R := fun env s e _ s' => StaysIn m n A env s e s')
    fun _ _ _ _ _ hrule => Rule.confined hA hrule

end Checker

end ExprTyping
