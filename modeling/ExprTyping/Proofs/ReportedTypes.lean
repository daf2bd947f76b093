import ExprTyping.Proofs.CheckedNodes
import ExprTyping.Proofs.StandardEnv

namespace ExprTyping

namespace Ty

variable {t c : Ty} {q : String} {σ : String → Ty}

/-- No type variable of a check occurs in the type. -/
def VarFree (t : Ty) : Prop := ∀ k, varName k ∉ t.params

/-- Parameters occur only inside type values, and type variables not even there. -/
structure Determined (t : Ty) : Prop where
  exposed : t.exposed = []
  varFree : t.VarFree

theorem varFree_of_params (h : t.params = []) : t.VarFree := by
  simp [VarFree, h]

theorem determined_of_params (h : t.params = []) : t.Determined := by
  refine ⟨List.eq_nil_iff_forall_not_mem.2 fun q hq => ?_, varFree_of_params h⟩
  simpa [h] using mem_params_of_mem_exposed hq

theorem Determined.child (h : t.Determined) (hi : t.inner? = none) (hc : c ∈ t.children) :
    c.Determined := by
  refine ⟨List.eq_nil_iff_forall_not_mem.2 fun q hq => ?_, fun k hk => ?_⟩
  · simpa [h.exposed] using mem_exposed_of_mem_children hi hc hq
  · exact h.varFree k (mem_params_of_mem_children hc hk)

theorem Determined.not_param (p : String) : ¬ (Ty.param p).Determined :=
  fun h => List.cons_ne_nil _ _ h.exposed

theorem mem_exposed_inst (hq : q ∈ (t.inst σ).exposed) : ∃ p ∈ t.exposed, q ∈ (σ p).exposed := by
  have hall : ∀ ts : List Ty,
      (∀ t ∈ ts, q ∈ (t.inst σ).exposed → ∃ p ∈ t.exposed, q ∈ (σ p).exposed) →
      q ∈ exposedAll (instAll σ ts) → ∃ p ∈ exposedAll ts, q ∈ (σ p).exposed := by
    intro ts hts hq
    rw [instAll_eq_map, mem_exposedAll] at hq
    obtain ⟨u, hu, hq⟩ := hq
    obtain ⟨t, ht, rfl⟩ := List.mem_map.1 hu
    obtain ⟨p, hp, hq⟩ := hts t ht hq
    exact ⟨p, mem_exposedAll.2 ⟨t, ht, hp⟩, hq⟩
  induction t with
  | param n => exact ⟨n, List.mem_singleton_self n, hq⟩
  | list t ih => exact ih hq
  | map k v ihk ihv =>
    simp only [inst, exposed, List.mem_append] at hq ⊢
    grind
  | abstract n ts ih => exact hall ts ih hq
  | function r ts ihr ih =>
    simp only [inst, exposed, List.mem_append] at hq ⊢
    grind
  | _ => cases hq

end Ty

namespace Bindings

variable {A : Ty → Prop} {rec : Bindings → Ty → Ty → Outcome} {m m' : Bindings} {p : String}
  {t u : Ty}

def BoundTo (A : Ty → Prop) (m : Bindings) : Prop := ∀ k u, m.find? k = some u → A u

theorem BoundTo.insert (h : m.BoundTo A) (ht : A t) (k : Ty) : BoundTo A (m.insert k t) := by
  intro j u hj
  rw [Table.find?_insert] at hj
  split at hj
  · cases hj
    exact ht
  · exact h j u hj

theorem BoundTo.rebind (h : m.BoundTo A) (ht : A t) (k : Ty) : BoundTo A (m.rebind k t) := by
  rw [Bindings.rebind]
  split
  · exact h
  · exact h.insert ht k

theorem BoundTo.determined_subst (h : m.BoundTo Ty.Determined) (hm : m.Wf) (ht : t.Determined) :
    (m.subst false t).Determined := by
  constructor
  · refine List.eq_nil_iff_forall_not_mem.2 fun q hq => ?_
    rw [hm.keys.subst_eq_inst] at hq
    obtain ⟨p, hp, -⟩ := Ty.mem_exposed_inst hq
    simp [ht.exposed] at hp
  · intro k hk
    -- what is below a type without variables is so itself
    have hbelow : ∀ u, m.Below t u → u.VarFree := by
      intro u hu
      induction hu with
      | refl => exact ht.varFree
      | tail _ hstep ih =>
        rcases hstep with hc | hs
        · exact fun k hk => ih k (Ty.mem_params_of_mem_children hc hk)
        · exact (h _ _ hs).varFree
    exact hbelow _ (hm.mem_params_subst _ hk).1 k (List.mem_singleton_self _)

section Assign

variable (hchild : ∀ t c, A t → t.inner? = none → c ∈ t.children → A c)
  (hparam : ∀ p, ¬ A (.param p))

theorem pairwise_boundTo
    (hrec : ∀ m t u m', m.BoundTo A → A t → rec m t u = .assigned m' → m'.BoundTo A)
    {ts us : List Ty} (hm : m.BoundTo A) (hts : ∀ t ∈ ts, A t)
    (h : pairwise rec m ts us = .assigned m') : m'.BoundTo A := by
  induction ts generalizing m us with
  | nil =>
    obtain ⟨-, rfl⟩ := pairwise_nil_eq_assigned h
    exact hm
  | cons t ts ih =>
    obtain ⟨u, us, m₁, rfl, hr, h⟩ := pairwise_cons_eq_assigned h
    rw [List.forall_mem_cons] at hts
    exact ih (hrec m t u m₁ hm hts.1 hr) hts.2 h

include hchild

theorem ShapeCase.boundTo {o : Outcome} (hc : ShapeCase rec m t u o)
    (hrec : ∀ m t u m', m.BoundTo A → A t → rec m t u = .assigned m' → m'.BoundTo A)
    (hm : m.BoundTo A) (ht : A t) (h : o = .assigned m') : m'.BoundTo A := by
  cases hc with
  | accept =>
    cases h
    exact hm
  | refuse => cases h
  | unwrap hi hc => exact hrec m _ u m' hm (hchild t _ ht hi hc) h
  | parts hti _ hts _ =>
    exact pairwise_boundTo hrec hm (fun c hc => hchild t c ht hti (hts c hc)) h

include hparam

theorem StepCase.boundTo {o : Outcome} (hc : StepCase rec m t u o)
    (hrec : ∀ m t u m', m.BoundTo A → A t → rec m t u = .assigned m' → m'.BoundTo A)
    (hm : m.BoundTo A) (ht : A t) (h : o = .assigned m') : m'.BoundTo A := by
  cases hc with
  | same =>
    cases h
    exact hm
  | followRight _ hs =>
    obtain ⟨m₁, h₁, rfl⟩ := Outcome.rebind_eq_assigned h
    exact (hrec m _ _ m₁ hm ht h₁).rebind (mostGeneral_of_both ht (hm _ _ hs)) _
  | bindRight =>
    cases h
    exact hm.insert ht _
  | followLeft => exact absurd ht (hparam _)
  | bindLeft => exact absurd ht (hparam _)
  | shape => exact (stepShape_case rec m t u).boundTo hchild hrec hm ht h

/-- If there is no parameter on the left, then only parts of the left type and what was bound before
become bound. -/
theorem assignIn_boundTo {n : Nat} (hm : m.BoundTo A) (ht : A t)
    (h : assignIn n m t u = .assigned m') : m'.BoundTo A := by
  induction n generalizing m t u m' with
  | zero => cases h
  | succ n ih =>
    exact (step_case _ m t u).boundTo hchild hparam (fun _ _ _ _ => ih) hm ht h

theorem assign?_boundTo (hm : m.BoundTo A) (ht : A t) (h : m.assign? t u = some m') :
    m'.BoundTo A :=
  assignIn_boundTo hchild hparam hm ht (Outcome.toOption_eq_some.1 h)

theorem assignAll?_boundTo {ts us : List Ty} (hm : m.BoundTo A) (hts : ∀ t ∈ ts, A t)
    (h : m.assignAll? ts us = some m') : m'.BoundTo A :=
  pairwise_boundTo (fun _ _ _ _ => assignIn_boundTo hchild hparam) hm hts
    (Outcome.toOption_eq_some.1 h)

end Assign

end Bindings

def Cause.types : Cause → List Ty
  | .fieldSelectionUnsupported t => [t]
  | .noMatchingOverload _ ts _ => ts
  | .typeMismatch t u => [t, u]
  | .notAType t => [t]
  | .notAMessageType t => [t]
  | .notAComprehensionRange t => [t]
  | .fieldTypeMismatch _ t u => [t, u]
  | _ => []

open Checker State

structure ReportInvariant where
  Seen : Ty → Prop
  Told : Ty → Prop
  told : ∀ {t}, Seen t → Told t
  inner : ∀ {t}, Seen (.typeOf t) → Told t
  child : ∀ {t c}, Seen t → t.inner? = none → c ∈ t.children → Seen c
  closed : ∀ {t}, t.params = [] → Seen t
  subst : ∀ {m : Bindings} {t}, m.Wf → m.BoundTo Seen → Seen t → Seen (m.subst false t)
  assign : ∀ {m m' : Bindings} {t u}, m.BoundTo Seen → Seen t → m.assign? t u = some m' →
    m'.BoundTo Seen
  assignAll : ∀ {m m' : Bindings} {ts us}, m.BoundTo Seen → (∀ t ∈ ts, Seen t) →
    m.assignAll? ts us = some m' → m'.BoundTo Seen

namespace ReportInvariant

def anything : ReportInvariant where
  Seen _ := True
  Told _ := True
  told _ := trivial
  inner _ := trivial
  child _ _ _ := trivial
  closed _ := trivial
  subst _ _ _ := trivial
  assign _ _ _ _ _ _ := trivial
  assignAll _ _ _ _ _ _ := trivial

def determined : ReportInvariant where
  Seen := Ty.Determined
  Told := Ty.VarFree
  told h := h.varFree
  inner h := h.varFree
  child h := h.child
  closed := Ty.determined_of_params
  subst hm h ht := h.determined_subst hm ht
  assign := Bindings.assign?_boundTo (fun _ _ h => h.child) Ty.Determined.not_param
  assignAll := Bindings.assignAll?_boundTo (fun _ _ h => h.child) Ty.Determined.not_param

variable {K : ReportInvariant} {env : Env} {s s' : State} {id : Int} {t u : Ty}

def Tells (K : ReportInvariant) : Cause → Prop
  | .noMatchingOverload _ ts _ => ∀ t ∈ ts, t.params = []
  | c => ∀ t ∈ c.types, K.Told t

theorem Tells.told {c : Cause} (h : K.Tells c) : ∀ t ∈ c.types, K.Told t := by
  cases c with
  | noMatchingOverload f ts receiver => exact fun t ht => K.told (K.closed (h t ht))
  | _ => exact h

structure SeenEnv (K : ReportInvariant) (env : Env) : Prop where
  ident : ∀ name d, env.lookupCandidate? name = some d → K.Seen d.ty
  field : ∀ m f t, env.provider.field? m f = some t → K.Seen t

def Recorded (K : ReportInvariant) (s : State) : Prop :=
  ∀ id t, s.types.find? id = some t → K.Seen t

structure Holds (K : ReportInvariant) (s : State) : Prop where
  wf : s.bindings.Wf
  bound : s.bindings.BoundTo K.Seen
  reports : ∀ r ∈ s.reports, K.Tells r.2

theorem Recorded.of_advances (h : K.Recorded s') (ha : Advances s s') : K.Recorded s :=
  fun id t ht => h id t (ha.types id t ht)

theorem Recorded.typeAt (h : K.Recorded s) (id : Int) : K.Seen (s.typeAt id) := by
  rw [State.typeAt]
  cases ht : s.types.find? id with
  | none => exact K.closed rfl
  | some t => exact h id t ht

theorem SeenEnv.lookupIdent (h : K.SeenEnv env) {name : String} {d : IdentDecl}
    (hd : env.lookupIdent? name = some d) : K.Seen d.ty := by
  obtain ⟨c, -, hc⟩ := List.exists_of_findSome?_eq_some hd
  exact h.ident c d hc

theorem SeenEnv.bind (h : K.SeenEnv env) {d : IdentDecl} (hd : K.Seen d.ty) :
    K.SeenEnv (env.enter.bind d) := by
  refine ⟨fun name e he => ?_, h.field⟩
  rw [TypeInvariant.lookupCandidate?_bind] at he
  split at he
  · cases he
    exact hd
  · exact h.ident name e he

namespace Holds

theorem setType (h : K.Holds s) (hset : s.setType id t = .ok s') : K.Holds s' := by
  rcases setType_cases hset with ⟨-, rfl⟩ | ⟨-, rfl⟩
  · exact ⟨h.wf, h.bound, h.reports⟩
  · exact h

theorem setReference (h : K.Holds s) {r : Reference} (hset : s.setReference id r = .ok s') :
    K.Holds s' := by
  rcases setReference_cases hset with ⟨-, rfl⟩ | ⟨-, rfl⟩
  · exact ⟨h.wf, h.bound, h.reports⟩
  · exact h

theorem report (h : K.Holds s) {c : Cause} (hc : K.Tells c) (id : Int) :
    K.Holds (s.report id c) := by
  refine ⟨h.wf, h.bound, fun r hr => ?_⟩
  rcases List.mem_append.1 hr with hr | hr
  · exact h.reports r hr
  · rw [List.mem_singleton.1 hr]
    exact hc

theorem orFresh (h : K.Holds s) (t : Option Ty) : K.Holds (s.orFresh t).2 := by
  cases t with
  | none => exact ⟨h.wf, h.bound, h.reports⟩
  | some t => exact h

theorem subst (h : K.Holds s) (ht : K.Seen t) : K.Seen (s.subst t) := K.subst h.wf h.bound ht

theorem unify (h : K.Holds s) (ht : K.Seen t) (u : Ty) : K.Holds (s.unify t u).2 := by
  rw [State.unify]
  split
  · next m hm => exact ⟨h.wf.assign? hm, K.assign h.bound ht hm, h.reports⟩
  · exact h

theorem require (h : K.Holds s) (ht : K.Seen t) {c : Cause} (hc : K.Tells c) (u : Ty) (id : Int) :
    K.Holds (s.require t u id c) := by
  have h' := h.unify ht u
  rw [State.require]
  split
  · next heq => rwa [heq] at h'
  · next heq =>
    rw [heq] at h'
    exact h'.report hc id

theorem expect (h : K.Holds s) (hr : K.Recorded s) (hu : K.Seen u) (id : Int) :
    K.Holds (s.expect id u) :=
  h.require (hr.typeAt id) (by simp [Tells, Cause.types, K.told hu, K.told (hr.typeAt id)]) u id

theorem annotateIdent (h : K.Holds s) {d : IdentDecl} (hs : annotateIdent s id d = .ok s') :
    K.Holds s' := by
  simp only [Checker.annotateIdent, bind_eq_ok] at hs
  obtain ⟨s₁, hs₁, hs⟩ := hs
  exact (h.setType hs₁).setReference hs

theorem annotateUndeclared (h : K.Holds s) {name : String}
    (hs : annotateUndeclared env s id name = .ok s') : K.Holds s' := by
  simp only [Checker.annotateUndeclared, bind_eq_ok, pure_eq_ok] at hs
  obtain ⟨s₁, hs₁, rfl⟩ := hs
  exact (h.setType hs₁).report (by simp [Tells, Cause.types]) id

theorem fieldType (h : K.Holds s) (henv : K.SeenEnv env) (id : Int) (message field : String) :
    K.Holds (fieldType env s id message field).2 ∧
      K.Seen (fieldType env s id message field).1 := by
  unfold Checker.fieldType
  split
  · exact ⟨h.report (by simp [Tells, Cause.types]) id, K.closed rfl⟩
  · split
    · next t ht => exact ⟨h, henv.field message field t ht⟩
    · exact ⟨h.report (by simp [Tells, Cause.types]) id, K.closed rfl⟩

theorem selection (h : K.Holds s) (henv : K.SeenEnv env) (ht : K.Seen t) (id : Int)
    (field : String) : K.Holds (selection env s id t field).2 := by
  unfold Checker.selection
  split
  · exact h
  · exact (h.fieldType henv id _ field).1
  · exact h.unify (K.closed rfl) _
  · exact h
  · exact h
  · exact h.report (by simpa [Tells, Cause.types] using K.told ht) id

theorem join (h : K.Holds s) (env : Env) {previous : Option Ty}
    (hp : ∀ t, previous = some t → K.Seen t) (hu : K.Seen u) (id : Int) :
    K.Holds (join env s id previous u).2 ∧ K.Seen (join env s id previous u).1 := by
  unfold Checker.join
  split
  · exact ⟨h, hu⟩
  · next previous =>
    have hseen := hp previous rfl
    have h' := h.unify hseen u
    split
    · next heq =>
      rw [heq] at h'
      exact ⟨h', Bindings.mostGeneral_of_both hseen hu⟩
    · next s₁ heq =>
      rw [heq] at h'
      split
      · exact ⟨h', K.closed rfl⟩
      · exact ⟨h'.report (by simp [Tells, Cause.types, K.told hseen, K.told hu]) id, K.closed rfl⟩

theorem messageType (h : K.Holds s) (ht : K.Seen t) (id : Int) :
    K.Holds (messageType s id t).2 := by
  unfold Checker.messageType
  split
  · exact h
  · exact h
  · exact h.report (by simpa [Tells, Cause.types] using K.inner ht) id
  · exact h.report (by simpa [Tells, Cause.types] using K.told ht) id
  · exact h.report (by simpa [Tells, Cause.types] using K.told ht) id

theorem messageLiteral (h : K.Holds s) (henv : K.SeenEnv env) {name name' : String}
    (hs : messageLiteral env s id name = .ok (name', t, s')) : K.Holds s' := by
  rw [Checker.messageLiteral] at hs
  split at hs
  · cases hs
    exact h.report (by simp [Tells, Cause.types]) id
  · next d hd =>
    simp only [bind_eq_ok, pure_eq_ok] at hs
    obtain ⟨s₁, hs₁, heq⟩ := hs
    cases heq
    exact (h.setReference hs₁).messageType (henv.lookupIdent hd) id

theorem initField (h : K.Holds s) (henv : K.SeenEnv env) (hr : K.Recorded s) (message : Ty)
    (id : Int) (field : String) (valueId : Int) :
    K.Holds (initField env s message id field valueId) := by
  have hactual := hr.typeAt valueId
  have hmismatch : ∀ {t}, K.Seen t → K.Tells (.fieldTypeMismatch field t (s.typeAt valueId)) :=
    fun ht => by simp [Tells, Cause.types, K.told ht, K.told hactual]
  cases message with
  | message m =>
    have hf := h.fieldType henv id m field
    exact hf.1.require hactual (hmismatch hf.2) _ id
  | _ => exact h.require hactual (hmismatch (K.closed rfl)) _ id

theorem iterType (h : K.Holds s) (ht : K.Seen t) (id : Int) :
    K.Holds (iterType s id t).2 ∧ K.Seen (iterType s id t).1 := by
  unfold Checker.iterType
  split
  · exact ⟨h, K.child ht rfl (by simp [Ty.children])⟩
  · exact ⟨h, K.child ht rfl (by simp [Ty.children])⟩
  · exact ⟨h.unify (K.closed rfl) _, K.closed rfl⟩
  · exact ⟨h.unify (K.closed rfl) _, K.closed rfl⟩
  · exact ⟨h.unify (K.closed rfl) _, K.closed rfl⟩
  · exact ⟨h.report (by simpa [Tells, Cause.types] using K.told ht) id, K.closed rfl⟩

theorem overload {t : Trial} {args : List Ty} (h : K.Holds (s.trying t))
    (hargs : ∀ t ∈ args, K.Seen t) (o : Overload) : K.Holds (s.trying (t.overload args o)) := by
  rcases t.overload_case args o with heq | ⟨m, hm, heq⟩ <;> rw [heq]
  · exact ⟨h.wf, h.bound, h.reports⟩
  · exact ⟨h.wf.assignAll? hm, K.assignAll h.bound hargs hm, h.reports⟩

theorem resolveCall (h : K.Holds s) (hr : K.Recorded s) {f : FunctionDecl} {receiver : Bool}
    {args : List Int} (hs : resolveCall env s id f receiver args = .ok s') : K.Holds s' := by
  have hargs : ∀ t ∈ args.map s.typeAt, K.Seen t := by
    simpa using fun i _ => hr.typeAt i
  have htrial := List.foldlRecOn (motive := fun t => K.Holds (s.trying t))
    (f.overloads.filter fun o => !env.options.isDisabled o.id && o.receiver == receiver)
    (·.overload (args.map s.typeAt) ·) (b := ⟨s.bindings, s.nextVar, none⟩) h
    fun t ht o _ => ht.overload hargs o
  simp only [Checker.resolveCall] at hs
  split at hs
  · rw [bind_eq_ok] at hs
    obtain ⟨s₁, hs₁, hs⟩ := hs
    exact (htrial.setType hs₁).setReference hs
  · refine (htrial.report ?_ id).setType hs
    intro t ht
    obtain ⟨u, -, rfl⟩ := List.mem_map.1 ht
    exact htrial.wf.keys.params_subst u

end Holds

end ReportInvariant

namespace Checker

variable {K : ReportInvariant} {env : Env} {s s' : State} {e e' : Expr}

def KeepsReports (K : ReportInvariant) (env : Env) (s : State) (e e' : Expr) (s' : State) : Prop :=
  Completes env s e e' s' ∧ (K.SeenEnv env → K.Recorded s' → K.Holds s → K.Holds s')

section Lists

variable (henv : K.SeenEnv env)

include henv

theorem InTurn.holds {es es' : List Expr} (h : InTurn (KeepsReports K env) s es es' s')
    (hr : K.Recorded s') (hs : K.Holds s) : K.Holds s' := by
  induction h with
  | nil => exact hs
  | cons he hes ih =>
    have ha := (hes.mono fun _ _ _ _ h => h.1.advances).advances
    exact ih hr (he.2 henv (hr.of_advances ha) hs)

theorem Joined.holds {es es' : List Expr} {t t' : Option Ty}
    (h : Joined (KeepsReports K env) env s t es es' t' s') (hr : K.Recorded s')
    (ht : ∀ u, t = some u → K.Seen u) (hs : K.Holds s) : K.Holds s' := by
  induction h with
  | nil => exact hs
  | @cons s s₁ s₂ s₃ e e' es es' t t' u he hj hes ih =>
    have ha₂ := (hes.mono fun _ _ _ _ h => h.1.advances).advances
    have ha₁ := ((quiet_join ..).of_eq hj).advances.trans ha₂
    have hr₁ := hr.of_advances ha₁
    have hjoin := (he.2 henv hr₁ hs).join env ht (hr₁.typeAt e.id) e.id
    rw [hj] at hjoin
    exact ih hr (by simpa using hjoin.2) hjoin.1

theorem JoinedEntries.holds {es es' : List Entry} {k v k' v' : Option Ty}
    (h : JoinedEntries (KeepsReports K env) env s k v es es' k' v' s') (hr : K.Recorded s')
    (hk : ∀ u, k = some u → K.Seen u) (hv : ∀ u, v = some u → K.Seen u) (hs : K.Holds s) :
    K.Holds s' := by
  induction h with
  | nil => exact hs
  | @cons s s₁ s₂ s₃ s₄ s₅ i x x' y y' es es' k v k' v' t u hx hjk hy hjv hes ih =>
    have ha₄ := (hes.mono fun _ _ _ _ h => h.1.advances).advances
    have hr₃ := hr.of_advances (((quiet_join ..).of_eq hjv).advances.trans ha₄)
    have hr₁ := hr₃.of_advances (((quiet_join ..).of_eq hjk).advances.trans hy.1.advances)
    have hjoin := (hx.2 henv hr₁ hs).join env hk (hr₁.typeAt x.id) x.id
    rw [hjk] at hjoin
    have hjoin' := (hy.2 henv hr₃ hjoin.1).join env hv (hr₃.typeAt y.id) y.id
    rw [hjv] at hjoin'
    exact ih hr (by simpa using hjoin.2) (by simpa using hjoin'.2) hjoin'.1

theorem Initialized.holds {fs fs' : List FieldInit} {message : Ty}
    (h : Initialized (KeepsReports K env) env message s fs fs' s') (hr : K.Recorded s')
    (hs : K.Holds s) : K.Holds s' := by
  induction h with
  | nil => exact hs
  | @cons s s₁ s₂ i f x x' fs fs' hx hfs ih =>
    have ha := (hfs.mono fun _ _ _ _ h => h.1.advances).advances
    have hr₁ := hr.of_advances ((quiet_initField env s₁ i message f x.id).advances.trans ha)
    exact ih hr ((hx.2 henv hr₁ hs).initField henv hr₁ message i f x.id)

end Lists

theorem Rule.holds (h : Rule (KeepsReports K) env s e e' s') (henv : K.SeenEnv env)
    (hr : K.Recorded s') (hs : K.Holds s) : K.Holds s' := by
  cases h with
  | const hset => exact hs.setType hset
  | ident _ hset => exact hs.annotateIdent hset
  | undeclaredIdent _ hset => exact hs.annotateUndeclared hset
  | qualifiedIdent _ hset => exact hs.annotateIdent hset
  | testedIdent _ hset =>
    exact (hs.report (by simp [ReportInvariant.Tells, Cause.types]) _).setType hset
  | @select s₁ s₂ s' id operand operand' field testOnly t hd ho hsel hset =>
    have ha := ((quiet_selection ..).of_eq hsel).advances.trans (advances_setType hset)
    have hr₁ := hr.of_advances ha
    have h₁ := ho.2 henv hr₁ hs
    have h₂ := h₁.selection henv (h₁.subst (hr₁.typeAt operand.id)) id field
    rw [hsel] at h₂
    exact h₂.setType hset
  | call hargs _ hset =>
    have hr₁ := hr.of_advances (advances_resolveCall hset)
    exact (hargs.holds henv hr₁ hs).resolveCall hr₁ hset
  | undeclaredCall hargs _ hset =>
    have hr₁ := hr.of_advances (advances_annotateUndeclared hset)
    exact (hargs.holds henv hr₁ hs).annotateUndeclared hset
  | namespacedCall hargs _ hset =>
    have hr₁ := hr.of_advances (advances_resolveCall hset)
    exact (hargs.holds henv hr₁ hs).resolveCall hr₁ hset
  | method hargs _ ht _ hset =>
    have hr₂ := hr.of_advances (advances_resolveCall hset)
    have h₁ := hargs.holds henv (hr₂.of_advances ht.1.advances) hs
    exact (ht.2 henv hr₂ h₁).resolveCall hr₂ hset
  | undeclaredMethod hargs _ ht _ hset =>
    have hr₂ := hr.of_advances (advances_annotateUndeclared hset)
    have h₁ := hargs.holds henv (hr₂.of_advances ht.1.advances) hs
    exact (ht.2 henv hr₂ h₁).annotateUndeclared hset
  | @list s₁ s₂ s' id elems elems' t u helems hf hset =>
    have ha := ((quiet_orFresh ..).of_eq hf).advances.trans (advances_setType hset)
    have hr₁ := hr.of_advances ha
    have h₂ := (helems.holds henv hr₁ (by simp) hs).orFresh t
    rw [hf] at h₂
    exact h₂.setType hset
  | @map s₁ s₂ s₃ s' id entries entries' k v t u hentries hk hv hset =>
    have ha := ((quiet_orFresh ..).of_eq hv).advances.trans (advances_setType hset)
    have hr₁ := hr.of_advances (((quiet_orFresh ..).of_eq hk).advances.trans ha)
    have h₂ := (hentries.holds henv hr₁ (by simp) (by simp) hs).orFresh k
    rw [hk] at h₂
    have h₃ := h₂.orFresh v
    rw [hv] at h₃
    exact h₃.setType hset
  | message hname hset hfields =>
    exact hfields.holds henv hr ((hs.messageLiteral henv hname).setType hset)
  | @fold s₁ s₂ s₃ s₄ s₅ s₆ s' id iter accu range _ init _ condition _ step _ result _ _ _ iterTy
      hrange hinit hiter haccu hloop hc hst hres hset =>
    subst haccu hloop
    have hr₆ := hr.of_advances (advances_setType hset)
    have hr₅ := hr₆.of_advances ((quiet_expect s₅ _ _).advances.trans hres.1.advances)
    have hr₄ := hr₅.of_advances ((quiet_expect s₄ _ _).advances.trans hst.1.advances)
    have hr₂ := hr₄.of_advances (((quiet_iterType ..).of_eq hiter).advances.trans hc.1.advances)
    have h₂ := hinit.2 henv hr₂ (hrange.2 henv (hr₂.of_advances hinit.1.advances) hs)
    have h₃ := h₂.iterType (h₂.subst (hr₂.typeAt range.id)) range.id
    rw [hiter] at h₃
    have haccu := henv.bind (d := { name := accu, ty := s₂.typeAt init.id }) (hr₂.typeAt init.id)
    have hloop := haccu.bind (d := { name := iter, ty := iterTy }) h₃.2
    have h₄ := (hc.2 hloop hr₄ h₃.1).expect hr₄ (K.closed (t := .bool) rfl) condition.id
    have h₅ := (hst.2 hloop hr₅ h₄).expect hr₅ (hr₂.typeAt init.id) step.id
    exact (hres.2 haccu hr₆ h₅).setType hset

theorem Completes.holds (h : Completes env s e e' s') (henv : K.SeenEnv env)
    (hr : K.Recorded s') (hs : K.Holds s) : K.Holds s' :=
  h.strongInduction
    (R := fun env s _ _ s' => K.SeenEnv env → K.Recorded s' → K.Holds s → K.Holds s')
    (fun _ _ _ _ _ hrule henv hr hs => Rule.holds hrule henv hr hs) henv hr hs

end Checker

section Diagnostics

theorem ReportInvariant.seenEnv_determined {env : Env}
    (hident : ∀ name d, env.scopes.findIdent? name = some d → d.ty.Determined)
    (hmessage : ∀ name t, env.provider.message? name = some t → t.VarFree)
    (hfield : ∀ m f t, env.provider.field? m f = some t → t.Determined) :
    ReportInvariant.determined.SeenEnv env := by
  refine ⟨fun name d hd => ?_, hfield⟩
  rw [Env.lookupCandidate?] at hd
  split at hd
  · next d' hd' =>
    cases hd
    exact hident name d hd'
  · obtain ⟨hexposed, hvar⟩ := Env.ident_promoted hmessage hd
    exact ⟨hexposed, hvar⟩

theorem ReportInvariant.Holds.empty (K : ReportInvariant) : K.Holds {} :=
  ⟨.empty, fun _ _ h => (by cases h), fun _ h => (by cases h)⟩

/-- Where no overload matches, the diagnostic has no type parameter. No diagnostic at all has a type
variable of the check in its types, if the types of the nodes were found without any. -/
theorem check_diagnostics_varFree {env : Env} {source : Source} {e e' : Expr} {s : State}
    {r : CheckResult} (hident : ∀ name d, env.scopes.findIdent? name = some d → d.ty.Determined)
    (hmessage : ∀ name t, env.provider.message? name = some t → t.VarFree)
    (hfield : ∀ m f t, env.provider.field? m f = some t → t.Determined)
    (hs : checkExpr env {} e = .ok (e', s)) (hcheck : check env source e = .ok r) :
    (∀ d ∈ r.diagnostics, ∀ f ts receiver, d.cause = .noMatchingOverload f ts receiver →
      ∀ t ∈ ts, t.params = []) ∧
    ((∀ id t, s.types.find? id = some t → t.Determined) →
      ∀ d ∈ r.diagnostics, ∀ t ∈ d.cause.types, t.VarFree) := by
  obtain ⟨e'', s'', hs'', rfl⟩ := check_eq_ok_iff.1 hcheck
  obtain ⟨rfl, rfl⟩ : e' = e'' ∧ s = s'' := by
    rw [Completes, hs] at hs''
    cases hs''
    exact ⟨rfl, rfl⟩
  constructor
  · intro d hd f ts receiver hcause
    obtain ⟨p, hp, rfl⟩ := List.mem_map.1 hd
    have htells := (Completes.holds (K := .anything) hs'' ⟨fun _ _ _ => trivial,
      fun _ _ _ _ => trivial⟩ (fun _ _ _ => trivial) (.empty _)).reports p hp
    have hcause : p.2 = .noMatchingOverload f ts receiver := hcause
    rw [hcause] at htells
    exact htells
  · intro hrecorded d hd
    obtain ⟨p, hp, rfl⟩ := List.mem_map.1 hd
    have htells := (Completes.holds hs'' (ReportInvariant.seenEnv_determined hident hmessage hfield)
      hrecorded (.empty _)).reports p hp
    exact htells.told

theorem check_diagnostics_varFree_of_arguments :
    let same : Overload :=
      { id := "same_a", params := [.param "A", .param "A"], result := .bool, typeParams := ["A"] }
    let env : Env :=
      { container := {}, provider := ⟨fun _ => none, fun _ _ => none, fun _ => none⟩,
        scopes := Scopes.setFunction {} ⟨"same", [same]⟩ }
    let e : Expr := .list 10 [.call 3 "same" [.const 1 (.int 1), .const 2 (.int 2)],
      .call 6 "same" [.const 4 (.int 1), .const 5 (.string "a")],
      .select 9 (.list 8 [.const 7 (.int 1)]) "f" false]
    ∃ e' s r, checkExpr env {} e = .ok (e', s) ∧ check env {} e = .ok r ∧ s.nextVar = 2 ∧
      (∀ id t, s.types.find? id = some t → t.Determined) ∧
      r.diagnostics.map Diagnostic.cause =
        [.noMatchingOverload "same" [.int, .string] false,
          .fieldSelectionUnsupported (.list .int)] ∧
      ∀ d ∈ r.diagnostics, ∀ t ∈ d.cause.types, t.VarFree := by
  intro same env e
  have hrun : (checkExpr env {} e).toOption.map (fun p =>
      (p.2.nextVar, p.2.types.entries.all (·.2.params.isEmpty), p.2.reports.map Prod.snd)) =
      some (2, true, [.noMatchingOverload "same" [.int, .string] false,
        .fieldSelectionUnsupported (.list .int)]) := by
    decide +kernel
  cases hs : checkExpr env {} e with
  | error => simp [hs, Except.toOption] at hrun
  | ok p =>
    obtain ⟨e', s⟩ := p
    simp only [hs, Except.toOption, Option.map_some, Option.some_inj, Prod.mk.injEq,
      List.all_eq_true, List.isEmpty_iff] at hrun
    obtain ⟨hvar, htypes, hcauses⟩ := hrun
    have hcheck : check env {} e = .ok _ := check_eq_ok_iff.2 ⟨e', s, hs, rfl⟩
    have hrecorded : ∀ id t, s.types.find? id = some t → t.Determined :=
      fun id t ht => Ty.determined_of_params (htypes _ (Table.mem_entries_of_find? ht))
    have hident : ∀ name d, env.scopes.findIdent? name = some d → d.ty.Determined := by
      intro name d hd
      cases hd
    refine ⟨e', s, _, rfl, hcheck, hvar, hrecorded, ?_, ?_⟩
    · rw [← hcauses, List.map_map]
      rfl
    · exact (check_diagnostics_varFree hident (by simp [env]) (by simp [env]) hs hcheck).2 hrecorded

/-- The variable of an empty list is told of wherever the list is at fault, except as an argument of
a call. -/
theorem check_diagnostics_of_empty_list :
    let provider : Provider := ⟨fun n => if n = "m" then some (.message "m") else none,
      fun n f => if n = "m" ∧ f = "f" then some .int else none, fun _ => none⟩
    let env := Env.standard {} provider
    let causes (e : Expr) : Option (List Cause) :=
      (check env {} e).toOption.map fun r => r.diagnostics.map Diagnostic.cause
    let empty : Expr := .list 1 []
    let one : Expr := .const 2 (.int 1)
    let loop (range init condition result : Expr) : Expr :=
      .fold 6 "x" range "a" init condition (.ident 5 "a") result
    let t : Ty := .list (freshVar 0)
    (∀ name d, env.scopes.findIdent? name = some d → d.ty.Determined) ∧
    (∀ name t, env.provider.message? name = some t → t.VarFree) ∧
    (∀ m f t, env.provider.field? m f = some t → t.Determined) ∧ ¬ t.VarFree ∧
    causes (.select 2 empty "f" false) = some [.fieldSelectionUnsupported t] ∧
    causes (loop (.list 3 [one]) (.const 4 (.int 1)) empty (.ident 7 "a")) =
      some [.typeMismatch .bool t] ∧
    causes (loop (.list 3 [one]) empty (.const 4 (.bool true)) (.message 7 "a" [])) =
      some [.notAType t] ∧
    causes (loop (.list 3 [one]) (.call 8 "type" [empty]) (.const 4 (.bool true))
      (.message 7 "a" [])) = some [.notAMessageType t] ∧
    causes (loop (.call 8 "type" [empty]) one (.const 4 (.bool true)) (.ident 7 "a")) =
      some [.notAComprehensionRange (.typeOf t)] ∧
    causes (.message 3 "m" [.mk 2 "f" empty]) = some [.fieldTypeMismatch "f" .int t] ∧
    causes (.call 2 "!_" [empty]) = some [.noMatchingOverload "!_" [.list .dyn] false] := by
  intro provider env causes empty one loop t
  refine ⟨fun name d hd => ⟨(Env.ident_standard hd).1, (Env.ident_standard hd).2⟩, ?_, ?_, ?_, ?_⟩
  · intro name u hu
    obtain ⟨-, hu⟩ := Option.ite_none_right_eq_some.1 hu
    cases hu
    exact Ty.varFree_of_params rfl
  · intro m f u hu
    obtain ⟨-, hu⟩ := Option.ite_none_right_eq_some.1 hu
    cases hu
    exact Ty.determined_of_params rfl
  · exact fun h => h 0 (List.mem_singleton_self _)
  · decide +kernel

end Diagnostics

end ExprTyping
