import ExprTyping.Proofs.AnnotatedOnce
import ExprTyping.Proofs.RuleInduction

namespace ExprTyping

namespace Expr

mutual
def nodes : Expr → List Expr
  | const i v => [const i v]
  | ident i name => [ident i name]
  | select i operand field testOnly => select i operand field testOnly :: operand.nodes
  | call i f args => call i f args :: nodesAll args
  | method i target f args => method i target f args :: (target.nodes ++ nodesAll args)
  | list i elems => list i elems :: nodesAll elems
  | message i name fields => message i name fields :: nodesFields fields
  | map i entries => map i entries :: nodesEntries entries
  | fold i iter range accu init condition step result =>
    fold i iter range accu init condition step result ::
      (range.nodes ++ init.nodes ++ condition.nodes ++ step.nodes ++ result.nodes)

def nodesAll : List Expr → List Expr
  | [] => []
  | e :: es => e.nodes ++ nodesAll es

def nodesFields : List FieldInit → List Expr
  | [] => []
  | .mk _ _ value :: fs => value.nodes ++ nodesFields fs

def nodesEntries : List Entry → List Expr
  | [] => []
  | .mk _ key value :: es => key.nodes ++ value.nodes ++ nodesEntries es
end

theorem map_id_nodesAll {es : List Expr} (h : ∀ e ∈ es, e.nodes.map Expr.id = e.walk) :
    (nodesAll es).map Expr.id = walkAll es := by
  induction es with
  | nil => rfl
  | cons e es ih =>
    rw [List.forall_mem_cons] at h
    simp [nodesAll, walkAll, h.1, ih h.2]

theorem map_id_nodesFields {fs : List FieldInit}
    (h : ∀ i f v, .mk i f v ∈ fs → v.nodes.map Expr.id = v.walk) :
    (nodesFields fs).map Expr.id = walkFields fs := by
  induction fs with
  | nil => rfl
  | cons f fs ih =>
    obtain ⟨i, f, v⟩ := f
    have hv := h i f v List.mem_cons_self
    simp [nodesFields, walkFields, hv, ih fun i f v hm => h i f v (List.mem_cons_of_mem _ hm)]

theorem map_id_nodesEntries {es : List Entry}
    (h : ∀ i k v, .mk i k v ∈ es → k.nodes.map Expr.id = k.walk ∧ v.nodes.map Expr.id = v.walk) :
    (nodesEntries es).map Expr.id = walkEntries es := by
  induction es with
  | nil => rfl
  | cons e es ih =>
    obtain ⟨i, k, v⟩ := e
    have hkv := h i k v List.mem_cons_self
    simp [nodesEntries, walkEntries, hkv, ih fun i k v hm => h i k v (List.mem_cons_of_mem _ hm)]

@[simp] theorem map_id_nodes (e : Expr) : e.nodes.map Expr.id = e.walk := by
  induction e with
  | const i v => rfl
  | ident i name => rfl
  | select i operand field testOnly ih => simp [nodes, walk, Expr.id, ih]
  | call i f args ih => simp [nodes, walk, Expr.id, map_id_nodesAll ih]
  | method i target f args iht ih => simp [nodes, walk, Expr.id, iht, map_id_nodesAll ih]
  | list i elems ih => simp [nodes, walk, Expr.id, map_id_nodesAll ih]
  | message i name fields ih => simp [nodes, walk, Expr.id, map_id_nodesFields ih]
  | map i entries ih => simp [nodes, walk, Expr.id, map_id_nodesEntries ih]
  | fold i iter range accu init condition step result ihr ihi ihc ihs iha =>
    simp [nodes, walk, Expr.id, ihr, ihi, ihc, ihs, iha]

def isNaming : Expr → Bool
  | ident _ _ | call _ _ _ | method _ _ _ _ | message _ _ _ => true
  | _ => false

end Expr

/-- The reference is one to overloads of the function that a call of this style may resolve to, in
the order in which they are declared. -/
structure Env.Resolves (env : Env) (f : FunctionDecl) (receiver : Bool) (q : Reference) : Prop where
  name : q.name = f.name
  nonempty : q.overloads ≠ []
  sublist : q.overloads.Sublist
    ((f.overloads.filter fun o => !env.options.isDisabled o.id && o.receiver == receiver).map
      Overload.id)

def Env.RefersTo (env : Env) (q : Reference) : Expr → Prop
  | .ident _ name => q.name = name ∧ q.overloads = []
  | .message _ name _ => q.name = name ∧ q.overloads = []
  | .call _ f _ => ∃ name d, env.lookupFunction? name = some d ∧ d.name = f ∧ env.Resolves d false q
  | .method _ _ f _ => ∃ d, env.lookupFunction? f = some d ∧ env.Resolves d true q
  | _ => False

theorem Env.refersTo_bind {env : Env} {d : IdentDecl} {q : Reference} {n : Expr} :
    (env.enter.bind d).RefersTo q n ↔ env.RefersTo q n := by
  have hfind : ∀ name, (env.enter.bind d).lookupFunction? name = env.lookupFunction? name := by
    intro name
    rfl
  have hres : ∀ f b, (env.enter.bind d).Resolves f b q ↔ env.Resolves f b q := by
    intro f b
    exact ⟨fun h => ⟨h.name, h.nonempty, h.sublist⟩, fun h => ⟨h.name, h.nonempty, h.sublist⟩⟩
  cases n <;> simp only [Env.RefersTo, hfind, hres]

section Trials

variable {t : Trial} {args : List Ty} {os : List Overload} {r : Resolution}

def Trial.ids (t : Trial) : List String := (t.found.map (·.overloads)).getD []

theorem Trial.ids_overload (t : Trial) (args : List Ty) (o : Overload) :
    (t.overload args o).ids = t.ids ∨ (t.overload args o).ids = t.ids ++ [o.id] := by
  rcases t.overload_case args o with h | ⟨m, -, h⟩
  · left
    rw [h]
    rfl
  · right
    rw [h]
    cases hf : t.found <;> simp [ids, hf, Resolution.add]

theorem Trial.ids_foldl (t : Trial) (args : List Ty) (os : List Overload) :
    ∃ l, l.Sublist (os.map Overload.id) ∧ (os.foldl (·.overload args ·) t).ids = t.ids ++ l := by
  induction os generalizing t with
  | nil => exact ⟨[], .slnil, by simp⟩
  | cons o os ih =>
    obtain ⟨l, hl, hids⟩ := ih (t.overload args o)
    rcases t.ids_overload args o with h | h
    · exact ⟨l, hl.cons o.id, by rw [List.foldl_cons, hids, h]⟩
    · exact ⟨o.id :: l, hl.cons_cons o.id, by rw [List.foldl_cons, hids, h, List.append_assoc]; rfl⟩

theorem Trial.overloads_ne_nil (ht : t.found = none)
    (h : (os.foldl (·.overload args ·) t).found = some r) : r.overloads ≠ [] := by
  have hall := List.foldlRecOn (motive := fun t => ∀ r, t.found = some r → r.overloads ≠ [])
    os (·.overload args ·) (b := t) (by simp [ht])
  refine hall ?_ r h
  intro t ih o _ r hr
  rcases t.overload_case args o with heq | ⟨m, -, heq⟩
  · rw [heq] at hr
    exact ih r hr
  · rw [heq] at hr
    cases hr
    cases t.found <;> simp [Resolution.add]

end Trials

namespace Checker

open State

variable {env : Env} {s s₁ s₂ s' : State} {id : Int}

theorem setReference_find? {q : Reference} (h : s.setReference id q = .ok s') :
    ∃ q', s'.references.find? id = some q' ∧ q'.name = q.name ∧ q'.overloads = q.overloads := by
  rw [setReference] at h
  split at h
  · cases h
    exact ⟨q, Table.find?_insert_self _ _ _, rfl, rfl⟩
  · next q' hq' =>
    split at h
    · next hsame =>
      cases h
      simp only [Reference.same, Bool.and_eq_true, beq_iff_eq] at hsame
      exact ⟨q', hq', hsame.1.1, hsame.1.2⟩
    · cases h

theorem resolveCall_cases {f : FunctionDecl} {receiver : Bool} {args : List Int}
    (h : resolveCall env s id f receiver args = .ok s') : ∃ s₁, Quiet s s₁ ∧
      ((∃ t q s₂, env.Resolves f receiver q ∧ s₁.setType id t = .ok s₂ ∧
        s₂.setReference id q = .ok s') ∨
      ∃ c, (s₁.report id c).setType id .error = .ok s') := by
  have hquiet := Trial.quiet_all s (fun o => !env.options.isDisabled o) receiver
    (args.map s.typeAt) f.overloads
  refine ⟨_, hquiet, ?_⟩
  simp only [resolveCall] at h
  split at h
  · next r hr =>
    rw [bind_eq_ok] at h
    obtain ⟨s₂, hs₂, h⟩ := h
    refine .inl ⟨r.result, _, s₂, ⟨rfl, Trial.overloads_ne_nil rfl hr, ?_⟩, hs₂, h⟩
    obtain ⟨l, hl, hids⟩ := Trial.ids_foldl ⟨s.bindings, s.nextVar, none⟩ (args.map s.typeAt)
      (f.overloads.filter fun o => !env.options.isDisabled o.id && o.receiver == receiver)
    simp only [Trial.all] at hr
    simp only [Trial.ids, hr, Option.map_some, Option.getD_some, Option.map_none, Option.getD_none,
      List.nil_append] at hids
    exact hids ▸ hl
  · exact .inr ⟨_, h⟩

/-- From `s` to `s'` the ids of `ids` were typed and the nodes of `names` given references, unless
something else was reported meanwhile. -/
structure Annotates (env : Env) (s : State) (ids : List Int) (names : List Expr) (s' : State) :
    Prop where
  reports : s.reports <+: s'.reports
  kept : ∀ i q, s.references.find? i = some q → s'.references.find? i = some q
  typed : (∀ p ∈ s'.reports, p.2 ≠ .notAFieldSelection) →
    ∀ i, s'.Has .type i ↔ s.Has .type i ∨ i ∈ ids
  named : s'.reports = [] → ∀ i, s'.Has .reference i ↔ s.Has .reference i ∨ i ∈ names.map Expr.id
  refersTo : s'.reports = [] → ∀ n ∈ names, ∃ q, s'.references.find? n.id = some q ∧
    env.RefersTo q n

namespace Annotates

variable {ids ids' : List Int} {names names' : List Expr}

theorem trans (h : Annotates env s ids names s₁) (h' : Annotates env s₁ ids' names' s') :
    Annotates env s (ids ++ ids') (names ++ names') s' := by
  have hnil : s'.reports = [] → s₁.reports = [] := by
    intro hr
    exact List.eq_nil_of_prefix_nil (hr ▸ h'.reports)
  refine ⟨h.reports.trans h'.reports, fun i q hq => h'.kept i q (h.kept i q hq), ?_, ?_, ?_⟩
  · intro hr i
    rw [h'.typed hr, h.typed fun p hp => hr p (h'.reports.mem hp), List.mem_append, or_assoc]
  · intro hr i
    rw [h'.named hr, h.named (hnil hr), List.map_append, List.mem_append, or_assoc]
  · intro hr n hn
    rcases List.mem_append.1 hn with hn | hn
    · obtain ⟨q, hq, href⟩ := h.refersTo (hnil hr) n hn
      exact ⟨q, h'.kept _ q hq, href⟩
    · exact h'.refersTo hr n hn

theorem congr (h : Annotates env s ids names s') (hids : ∀ i, i ∈ ids ↔ i ∈ ids')
    (hnames : ∀ n, n ∈ names ↔ n ∈ names') : Annotates env s ids' names' s' := by
  refine ⟨h.reports, h.kept, fun hr i => ?_, fun hr i => ?_, fun hr n hn => ?_⟩
  · rw [h.typed hr, hids]
  · rw [h.named hr]
    simp only [List.mem_map, hnames]
  · exact h.refersTo hr n ((hnames n).2 hn)

theorem reported (h : Annotates env s ids names s') (hr : s'.reports ≠ []) (names' : List Expr) :
    Annotates env s ids names' s' :=
  ⟨h.reports, h.kept, h.typed, fun hnil => absurd hnil hr, fun hnil => absurd hnil hr⟩

theorem outer {d : IdentDecl} (h : Annotates (env.enter.bind d) s ids names s') :
    Annotates env s ids names s' := by
  refine ⟨h.reports, h.kept, h.typed, h.named, fun hr n hn => ?_⟩
  obtain ⟨q, hq, href⟩ := h.refersTo hr n hn
  exact ⟨q, hq, Env.refersTo_bind.1 href⟩

theorem of_quiet (h : Quiet s s') : Annotates env s [] [] s' := by
  refine ⟨h.reports, fun i q hq => ?_, fun _ i => ?_, fun _ i => ?_, by simp⟩
  · rwa [h.references_eq]
  · simp [h.has_iff]
  · simp [h.has_iff]

theorem setType {t : Ty} (h : s.setType id t = .ok s') : Annotates env s [id] [] s' := by
  refine ⟨(grows_setType h).1.reports, fun i q hq => ?_, fun _ i => has_setType h, fun _ i => ?_,
    by simp⟩
  · rcases setType_cases h with ⟨-, rfl⟩ | ⟨-, rfl⟩ <;> exact hq
  · rw [has_setType h]
    simp [Mark.once]

theorem setReference {q : Reference} {n : Expr} (h : s.setReference n.id q = .ok s')
    (hn : ∀ q', q'.name = q.name → q'.overloads = q.overloads → env.RefersTo q' n) :
    Annotates env s [] [n] s' := by
  refine ⟨(grows_setReference h).1.reports, fun i q hq => ?_, fun _ i => ?_, fun _ i => ?_, ?_⟩
  · rcases setReference_cases h with ⟨hnone, rfl⟩ | ⟨-, rfl⟩
    · rw [Table.find?_insert_of_ne, hq]
      rintro rfl
      simp [hnone] at hq
    · exact hq
  · rw [has_setReference h]
    simp [Mark.once]
  · rw [has_setReference h]
    simp [Mark.once]
  · intro _ n' hn'
    cases List.mem_singleton.1 hn'
    obtain ⟨q', hq', hname, hover⟩ := setReference_find? h
    exact ⟨q', hq', hn q' hname hover⟩

end Annotates

section Rules

variable {n : Expr}

theorem annotateIdent_annotates {d : IdentDecl} (h : annotateIdent s id d = .ok s') :
    Annotates env s [id] [.ident id d.name] s' := by
  simp only [annotateIdent, bind_eq_ok] at h
  obtain ⟨s₁, hs, h⟩ := h
  refine (Annotates.setType hs).trans (Annotates.setReference (n := .ident id d.name) h ?_)
  intro q hname hover
  exact ⟨hname, hover⟩

theorem annotateUndeclared_annotates {name : String}
    (h : annotateUndeclared env s id name = .ok s') (names : List Expr) :
    Annotates env s [id] names s' := by
  simp only [annotateUndeclared, bind_eq_ok, pure_eq_ok] at h
  obtain ⟨s₁, hs, rfl⟩ := h
  have hquiet := quiet_report s₁ id (.undeclaredReference env.container.name name)
  refine ((Annotates.setType hs).trans (.of_quiet hquiet)).reported ?_ names
  simp [report]

theorem resolveCall_annotates {f : FunctionDecl} {receiver : Bool} {args : List Int}
    (h : resolveCall env s n.id f receiver args = .ok s')
    (hn : ∀ q, env.Resolves f receiver q → env.RefersTo q n) :
    Annotates env s [n.id] [n] s' := by
  obtain ⟨s₁, hquiet, ⟨t, q, s₂, hq, hs, hset⟩ | ⟨c, hset⟩⟩ := resolveCall_cases h
  · refine (Annotates.of_quiet hquiet).trans ((Annotates.setType hs).trans
      (Annotates.setReference hset ?_))
    intro q' hname hover
    exact hn q' ⟨hname.trans hq.name, hover ▸ hq.nonempty, hover ▸ hq.sublist⟩
  · have hann : Annotates env s [n.id] [] s' := (Annotates.of_quiet hquiet).trans
      ((Annotates.of_quiet (quiet_report s₁ n.id c)).trans (Annotates.setType hset))
    refine hann.reported ?_ [n]
    rw [← List.length_pos_iff]
    have hle := (grows_setType hset).1.reports.length_le
    simp only [report, List.length_append, List.length_singleton] at hle
    omega

theorem messageLiteral_annotates {name name' : String} {t : Ty} {fields : List FieldInit}
    (h : messageLiteral env s id name = .ok (name', t, s')) :
    Annotates env s [] [.message id name' fields] s' := by
  rw [messageLiteral] at h
  split at h
  · cases h
    refine (Annotates.of_quiet (quiet_report s id _)).reported ?_ _
    simp [report]
  · next d hd =>
    simp only [bind_eq_ok, pure_eq_ok] at h
    obtain ⟨s₁, hs, heq⟩ := h
    cases heq
    refine (Annotates.setReference (n := .message id d.name fields) hs ?_).trans
      (.of_quiet (quiet_messageType s₁ id d.ty))
    intro q hname hover
    exact ⟨hname, hover⟩

end Rules

def Annotated (env : Env) (s : State) (_ e' : Expr) (s' : State) : Prop :=
  Annotates env s e'.walk (e'.nodes.filter Expr.isNaming) s'

section Lists

theorem InTurn.annotates {es es' : List Expr} (h : InTurn (Annotated env) s es es' s') :
    Annotates env s (Expr.walkAll es') ((Expr.nodesAll es').filter Expr.isNaming) s' := by
  induction h with
  | nil => exact .of_quiet (.refl _)
  | cons he _ ih =>
    rw [Expr.walkAll, Expr.nodesAll, List.filter_append]
    exact he.trans ih

theorem Joined.annotates {es es' : List Expr} {t t' : Option Ty}
    (h : Joined (Annotated env) env s t es es' t' s') :
    Annotates env s (Expr.walkAll es') ((Expr.nodesAll es').filter Expr.isNaming) s' := by
  induction h with
  | nil => exact .of_quiet (.refl _)
  | @cons s s₁ s₂ s₃ e e' es es' t t' u he hj _ ih =>
    have hquiet := (quiet_join ..).of_eq hj
    rw [Expr.walkAll, Expr.nodesAll, List.filter_append]
    exact he.trans ((Annotates.of_quiet hquiet).trans ih)

theorem JoinedEntries.annotates {es es' : List Entry} {k v k' v' : Option Ty}
    (h : JoinedEntries (Annotated env) env s k v es es' k' v' s') :
    Annotates env s (Expr.walkEntries es') ((Expr.nodesEntries es').filter Expr.isNaming) s' := by
  induction h with
  | nil => exact .of_quiet (.refl _)
  | @cons s s₁ s₂ s₃ s₄ s₅ i x x' y y' es es' k v k' v' t u hx hk hy hv _ ih =>
    have hquiet := (quiet_join ..).of_eq hk
    have hquiet' := (quiet_join ..).of_eq hv
    rw [Expr.walkEntries, Expr.nodesEntries, List.filter_append, List.filter_append,
      List.append_assoc, List.append_assoc]
    exact hx.trans ((Annotates.of_quiet hquiet).trans
      (hy.trans ((Annotates.of_quiet hquiet').trans ih)))

theorem Initialized.annotates {fs fs' : List FieldInit} {message : Ty}
    (h : Initialized (Annotated env) env message s fs fs' s') :
    Annotates env s (Expr.walkFields fs') ((Expr.nodesFields fs').filter Expr.isNaming) s' := by
  induction h with
  | nil => exact .of_quiet (.refl _)
  | @cons s s₁ s₂ i f x x' fs fs' hx _ ih =>
    have hquiet := quiet_initField env s₁ i message f x.id
    rw [Expr.walkFields, Expr.nodesFields, List.filter_append]
    exact hx.trans ((Annotates.of_quiet hquiet).trans ih)

end Lists

theorem Annotates.node {ids : List Int} {names names' : List Expr}
    (h : Annotates env s ids names s₁) (h' : Annotates env s₁ [id] names' s') :
    Annotates env s (id :: ids) (names' ++ names) s' := by
  refine (h.trans h').congr (fun i => ?_) fun n => ?_
  · simp [or_comm]
  · simp [or_comm]

theorem Rule.annotated {e e' : Expr} (h : Rule Annotated env s e e' s') :
    Annotated env s e e' s' := by
  cases h with
  | const hs => exact .setType hs
  | ident hd hs => exact annotateIdent_annotates hs
  | undeclaredIdent hd hs => exact annotateUndeclared_annotates hs _
  | qualifiedIdent hd hs => exact annotateIdent_annotates hs
  | @testedIdent s' id operand field d hd hs =>
    -- the nodes below are not checked, but this was reported
    have hreport := (grows_setType hs).1.reports
    have hmem : (id, Cause.notAFieldSelection) ∈ s'.reports :=
      hreport.mem (List.mem_append_right _ (List.mem_singleton_self _))
    have hann : Annotates env s [id] [] s' :=
      (Annotates.of_quiet (quiet_report s id .notAFieldSelection)).trans (.setType hs)
    refine ⟨hann.reports, hann.kept, fun hr => absurd rfl (hr _ hmem), fun hr => ?_, fun hr => ?_⟩
    · simp [hr] at hmem
    · simp [hr] at hmem
  | @select s₁ s₂ s' id operand operand' field testOnly t hd ho hsel hs =>
    have hquiet := (quiet_selection ..).of_eq hsel
    exact ho.node ((Annotates.of_quiet hquiet).trans (.setType hs))
  | @call s₁ s' id f args args' d hargs hd hs =>
    refine hargs.annotates.node (resolveCall_annotates (n := .call id d.name args') hs ?_)
    intro q hq
    exact ⟨f, d, hd, rfl, hq⟩
  | undeclaredCall hargs hd hs => exact hargs.annotates.node (annotateUndeclared_annotates hs [_])
  | @namespacedCall s₁ s' id target f args args' d hargs hn hs =>
    refine hargs.annotates.node (resolveCall_annotates (n := .call id d.name args') hs ?_)
    intro q hq
    obtain ⟨p, -, hd⟩ := Option.bind_eq_some_iff.1 hn
    exact ⟨p ++ "." ++ f, d, hd, rfl, hq⟩
  | @method s₁ s₂ s' id target target' f args args' d hargs hn ht hd hs =>
    refine (hargs.annotates.trans ht).node
      (resolveCall_annotates (n := .method id target' f args') hs ?_) |>.congr ?_ ?_
    · intro q hq
      exact ⟨d, hd, hq⟩
    · simp [Expr.walk, Expr.id, or_comm]
    · rw [Expr.nodes, List.filter_cons_of_pos rfl, List.filter_append]
      simp [or_comm]
  | @undeclaredMethod s₁ s₂ s' id target target' f args args' hargs hn ht hd hs =>
    refine (hargs.annotates.trans ht).node
      (annotateUndeclared_annotates hs [.method id target' f args']) |>.congr ?_ ?_
    · simp [Expr.walk, or_comm]
    · rw [Expr.nodes, List.filter_cons_of_pos rfl, List.filter_append]
      simp [or_comm]
  | @list s₁ s₂ s' id elems elems' t u helems hf hs =>
    have hquiet := (quiet_orFresh ..).of_eq hf
    exact helems.annotates.node ((Annotates.of_quiet hquiet).trans (.setType hs))
  | @map s₁ s₂ s₃ s' id entries entries' k v t u hentries hk hv hs =>
    have hquiet := (quiet_orFresh ..).of_eq hk
    have hquiet' := (quiet_orFresh ..).of_eq hv
    exact hentries.annotates.node ((Annotates.of_quiet hquiet).trans
      ((Annotates.of_quiet hquiet').trans (.setType hs)))
  | message hname hs hfields =>
    exact (messageLiteral_annotates hname).trans ((Annotates.setType hs).trans hfields.annotates)
  | @fold s₁ s₂ s₃ s₄ s₅ s₆ s' id iter accu range range' init init' condition condition' step
      step' result result' accuEnv loopEnv iterTy hr hi hiter haccu hloop hc hs ha hset =>
    subst haccu hloop
    have hquiet := (quiet_iterType ..).of_eq hiter
    have hloop := Annotates.outer (Annotates.outer (Annotates.trans hc ((Annotates.of_quiet
      (quiet_expect s₄ condition.id .bool)).trans (Annotates.trans hs (.of_quiet
      (quiet_expect s₅ step.id (s₂.typeAt init.id)))))))
    refine (((Annotates.trans hr hi).trans (Annotates.of_quiet hquiet)).trans
      (hloop.trans ha.outer)).node (.setType hset) |>.congr ?_ ?_
    · simp [Expr.walk]
    · rw [Expr.nodes, List.filter_cons_of_neg Bool.false_ne_true]
      simp

theorem Completes.annotated {e e' : Expr} (h : Completes env s e e' s') : Annotated env s e e' s' :=
  h.induction fun _ _ _ _ _ => Rule.annotated

end Checker

open Checker

/-- If the check completes and reports no presence test of a name that is declared as a whole, then
the ids that have a type are those of the nodes of the checked tree. -/
theorem check_mem_keys_types_iff {env : Env} {source : Source} {e : Expr} {r : CheckResult}
    (h : check env source e = .ok r) (hr : ∀ d ∈ r.diagnostics, d.cause ≠ .notAFieldSelection)
    (id : Int) : id ∈ r.types.keys ↔ id ∈ r.expr.walk := by
  obtain ⟨e', s, hs, rfl⟩ := check_eq_ok_iff.1 h
  have hreports : ∀ p ∈ s.reports, p.2 ≠ .notAFieldSelection := by
    intro p hp
    exact hr (.located source p.1 p.2) (List.mem_map_of_mem hp)
  rw [Table.mem_keys_iff, Table.find?_mapValues, Option.isSome_map]
  exact (hs.annotated.typed hreports id).trans (or_iff_right (State.not_has_start .type id))

theorem check_mem_keys_types_of_collapsed :
    let env : Env :=
      { container := {}, provider := (Catalog.addMessage {} "M" []).provider,
        scopes := (({} : Scopes).addIdent { name := "a.b", ty := .int }).setFunction
          { name := "m.f", overloads := [{ id := "f", params := [.int], result := .int }] } }
    let e : Expr :=
      .list 1 [.method 2 (.ident 3 "m") "f" [.select 4 (.ident 5 "a") "b" false], .ident 6 "x"]
    ∃ r, check env {} e = .ok r ∧ r.expr.walk = [1, 2, 4, 6] ∧
      r.diagnostics.map (·.cause) = [.undeclaredReference "" "x"] ∧
      ∀ id, id ∈ r.types.keys ↔ id ∈ r.expr.walk := by
  intro env e
  obtain ⟨r, h⟩ : ∃ r, check env {} e = .ok r := ⟨_, rfl⟩
  have hcause : r.diagnostics.map (·.cause) = [.undeclaredReference "" "x"] := by
    cases h
    rfl
  refine ⟨r, h, ?_, hcause, check_mem_keys_types_iff h ?_⟩
  · cases h
    rfl
  · intro d hd
    have hmem := List.mem_map_of_mem (f := (·.cause)) hd
    rw [hcause, List.mem_singleton] at hmem
    simp [hmem]

/-- If the ids of the nodes are distinct then the check completes, and if it reports nothing then
the nodes of the checked tree that name a declaration, and only they, have a reference, which is one
to what they name. -/
theorem check_references_refersTo (env : Env) (source : Source) (e : Expr) (h : e.walk.Nodup) :
    ∃ r, check env source e = .ok r ∧ (r.diagnostics = [] →
      (∀ id, id ∈ r.references.keys ↔ ∃ n ∈ r.expr.nodes, n.isNaming = true ∧ n.id = id) ∧
      ∀ n ∈ r.expr.nodes, n.isNaming = true →
        ∃ q, r.references.find? n.id = some q ∧ env.RefersTo q n) := by
  obtain ⟨⟨e', s⟩, hs⟩ := exists_checkExpr_eq_ok env h
  have hann := Completes.annotated hs
  refine ⟨_, check_eq_ok_iff.2 ⟨e', s, hs, rfl⟩, fun hr => ?_⟩
  have hnil : s.reports = [] := List.map_eq_nil_iff.1 hr
  refine ⟨fun id => ?_, fun n hn hname => ?_⟩
  · rw [Table.mem_keys_iff]
    refine ((hann.named hnil id).trans (or_iff_right (State.not_has_start .reference id))).trans ?_
    simp [and_assoc]
  · exact hann.refersTo hnil n (List.mem_filter.2 ⟨hn, hname⟩)

theorem check_references_of_namespaced_call :
    let f : FunctionDecl :=
      { name := "m.f",
        overloads := [{ id := "f", params := [.int], result := .int },
          { id := "g", params := [.int], result := .int, receiver := true },
          { id := "h", params := [.int], result := .int },
          { id := "k", params := [.dyn], result := .int }] }
    let env : Env :=
      { container := {}, provider := (Catalog.addMessage {} "M" []).provider,
        scopes := (({} : Scopes).addIdent { name := "a.b", ty := .int }).setFunction f,
        options := Options.disable {} ["h"] }
    let e : Expr := .method 2 (.ident 3 "m") "f" [.select 4 (.ident 5 "a") "b" false]
    e.walk.Nodup ∧ ∃ r, check env {} e = .ok r ∧ r.diagnostics = [] ∧ r.references.keys = [4, 2] ∧
      (r.references.find? 2).map (·.overloads) = some ["f", "k"] ∧
      (∀ id, id ∈ r.references.keys ↔ ∃ n ∈ r.expr.nodes, n.isNaming = true ∧ n.id = id) ∧
      ∀ n ∈ r.expr.nodes, n.isNaming = true →
        ∃ q, r.references.find? n.id = some q ∧ env.RefersTo q n := by
  intro f env e
  have h : e.walk.Nodup := by decide
  obtain ⟨r, hr, himp⟩ := check_references_refersTo env {} e h
  have hnil : r.diagnostics = [] := by
    cases hr
    rfl
  refine ⟨h, r, hr, hnil, ?_, ?_, himp hnil⟩
  · cases hr
    rfl
  · cases hr
    rfl

end ExprTyping
