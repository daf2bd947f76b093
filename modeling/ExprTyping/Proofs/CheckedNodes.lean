import ExprTyping.Proofs.RunParts

namespace ExprTyping

theorem Expr.nodes_eq_cons (e : Expr) : e.nodes = e :: e.nodes.tail := by
  cases e <;> rfl

theorem Expr.isSome_qualifiedName?_of_mem_nodes {e n : Expr} (h : e.qualifiedName?.isSome)
    (hn : n ∈ e.nodes) : n.qualifiedName?.isSome := by
  induction e with
  | ident i name => exact List.mem_singleton.1 hn ▸ h
  | select i operand field testOnly ih =>
    cases testOnly with
    | true => cases h
    | false =>
      rcases List.mem_cons.1 hn with rfl | hn
      · exact h
      · exact ih (by simpa [qualifiedName?] using h) hn
  | _ => cases h

def TypeInvariant.anything : TypeInvariant where
  Holds _ _ := True
  Admits _ := True
  mono _ _ := trivial
  child _ _ _ := trivial
  inst _ _ := trivial
  param _ _ := trivial
  list _ := trivial
  map _ _ := trivial
  value _ _ := trivial
  dyn _ := trivial
  error _ := trivial
  fresh _ := trivial
  literal _ := trivial

theorem State.Grows.typeAt_eq {s s' : State} {id : Int} (h : Grows s s') (hid : s.HasType id) :
    s'.typeAt id = s.typeAt id := by
  obtain ⟨t, ht⟩ := Option.isSome_iff_exists.1 hid
  rw [typeAt, typeAt, ht, h.types id t ht]

namespace Checker

open State

namespace Run

variable {α β : Type} {x : Run α} {f : α → Run β} {a : α} {X : List Point}

theorem subset_bind (hX : X ⊆ x.points) : X ⊆ (x >>= f).points := by
  refine List.Subset.trans hX ?_
  cases hr : x.result with
  | ok a =>
    rw [bind_of_ok hr]
    exact List.subset_append_left _ _
  | error e =>
    rw [bind_of_error hr]
    exact List.Subset.refl _

theorem subset_bind_of_ok (h : x.result = .ok a) (hX : X ⊆ (f a).points) :
    X ⊆ (x >>= f).points := by
  rw [bind_of_ok h]
  exact List.subset_append_of_subset_right _ hX

end Run

section Nodes

variable {P : List Point → State → Expr → Prop} {env : Env} {s s' : State} {e e' : Expr}

theorem Completes.hasType (h : Completes env s e e' s') (hwf : s.bindings.Wf) :
    s'.HasType e.id := by
  have hsound : TypeInvariant.anything.Sound env s :=
    { ident := fun _ _ _ => trivial
      overload := fun _ _ _ _ _ => ⟨trivial, fun _ _ => trivial⟩
      field := fun _ _ _ _ => trivial
      wf := hwf
      bound := fun _ _ _ => ⟨trivial, trivial⟩
      types := fun _ _ _ => trivial }
  have hrun : (runExpr env s e).result = .ok (e', s') := by
    rw [result_runExpr]
    exact h
  exact ((TypeInvariant.anything.preserves env e s hsound).2 (e', s') hrun).2

theorem Completes.result_run (h : Completes env s e e' s') :
    (runExpr env s e).result = .ok (e', s') := by
  rw [result_runExpr]
  exact h

theorem InTurn.wf {es es' : List Expr} (h : InTurn (Completes env) s es es' s')
    (hwf : s.bindings.Wf) : s'.bindings.Wf :=
  (h.mono fun _ _ _ _ h => h.advances).advances.wf hwf

theorem InTurn.result_run {es es' : List Expr} (h : InTurn (Completes env) s es es' s') :
    (runAll env s es).result = .ok (es', s') := by
  rw [result_runAll fun _ _ _ => result_runExpr ..]
  exact h.checkAll

section Points

open Run

theorem result_runJoin_of_eq {id : Int} {t : Option Ty} {u v : Ty}
    (h : join env s id t u = (v, s')) : (runJoin env s id t u).result = .ok (v, s') := by
  rw [result_runJoin, h]
  rfl

theorem points_runElems_tail {s₁ s₂ : State} {t : Option Ty} {u : Ty} (es : List Expr)
    (he : Completes env s e e' s₁) (hj : join env s₁ e.id t (s₁.typeAt e.id) = (u, s₂)) :
    (runElems env s₂ (some u) es).points ⊆ (runElems env s t (e :: es)).points := by
  rw [runElems]
  exact subset_bind_of_ok he.result_run
    (subset_bind_of_ok (result_runJoin_of_eq hj) (subset_bind (.refl _)))

theorem points_runEntries_tail {s₁ s₂ s₃ s₄ : State} {i : Int} {x x' y y' : Expr}
    {k v : Option Ty} {t u : Ty} (es : List Entry) (hx : Completes env s x x' s₁)
    (hk : join env s₁ x.id k (s₁.typeAt x.id) = (t, s₂)) (hy : Completes env s₂ y y' s₃)
    (hv : join env s₃ y.id v (s₃.typeAt y.id) = (u, s₄)) :
    (runEntries env s₄ (some t) (some u) es).points ⊆
      (runEntries env s k v (.mk i x y :: es)).points := by
  rw [runEntries]
  exact subset_bind_of_ok hx.result_run (subset_bind_of_ok (result_runJoin_of_eq hk)
    (subset_bind_of_ok hy.result_run (subset_bind_of_ok (result_runJoin_of_eq hv)
      (subset_bind (.refl _)))))

end Points

def Shows (P : List Point → State → Expr → Prop) (env : Env) (s : State) (e e' : Expr)
    (s' : State) : Prop :=
  Completes env s e e' s' ∧ (s.bindings.Wf → ∀ n ∈ e.nodes, P (runExpr env s e).points s' n)

section Lists

open Run

variable (hmono : ∀ X Y s s' n, X ⊆ Y → Advances s s' → P X s n → P Y s' n)

include hmono

theorem InTurn.forall_nodes {es es' : List Expr} (h : InTurn (Shows P env) s es es' s')
    (hwf : s.bindings.Wf) : ∀ n ∈ Expr.nodesAll es, P (runAll env s es).points s' n := by
  induction h with
  | nil => exact fun n hn => by cases hn
  | cons he hes ih =>
    have ha := (hes.mono fun _ _ _ _ h => h.1.advances).advances
    intro n hn
    rw [runAll]
    rcases List.mem_append.1 hn with hn | hn
    · exact hmono _ _ _ _ n (subset_bind (.refl _)) ha (he.2 hwf n hn)
    · refine hmono _ _ _ _ n ?_ (.refl _) (ih (he.1.advances.wf hwf) n hn)
      exact subset_bind_of_ok he.1.result_run (subset_bind (.refl _))

theorem Joined.forall_nodes {es es' : List Expr} {t t' : Option Ty}
    (h : Joined (Shows P env) env s t es es' t' s') (hwf : s.bindings.Wf) :
    ∀ n ∈ Expr.nodesAll es, P (runElems env s t es).points s' n := by
  induction h with
  | nil => exact fun n hn => by cases hn
  | @cons s s₁ s₂ s₃ e e' es es' t t' u he hj hes ih =>
    have hquiet := (quiet_join ..).of_eq hj
    have ha := hquiet.advances.trans (hes.mono fun _ _ _ _ h => h.1.advances).advances
    intro n hn
    rcases List.mem_append.1 hn with hn | hn
    · rw [runElems]
      exact hmono _ _ _ _ n (subset_bind (.refl _)) ha (he.2 hwf n hn)
    · exact hmono _ _ _ _ n (points_runElems_tail es he.1 hj) (.refl _)
        (ih (hquiet.wf (he.1.advances.wf hwf)) n hn)

theorem JoinedEntries.forall_nodes {es es' : List Entry} {k v k' v' : Option Ty}
    (h : JoinedEntries (Shows P env) env s k v es es' k' v' s') (hwf : s.bindings.Wf) :
    ∀ n ∈ Expr.nodesEntries es, P (runEntries env s k v es).points s' n := by
  induction h with
  | nil => exact fun n hn => by cases hn
  | @cons s s₁ s₂ s₃ s₄ s₅ i x x' y y' es es' k v k' v' t u hx hk hy hv hes ih =>
    have hquiet := (quiet_join ..).of_eq hk
    have hquiet' := (quiet_join ..).of_eq hv
    have ha := hquiet'.advances.trans (hes.mono fun _ _ _ _ h => h.1.advances).advances
    have hwf₂ := hquiet.wf (hx.1.advances.wf hwf)
    intro n hn
    rcases List.mem_append.1 hn with hn | hn
    · rw [runEntries]
      rcases List.mem_append.1 hn with hn | hn
      · exact hmono _ _ _ _ n (subset_bind (.refl _))
          (hquiet.advances.trans (hy.1.advances.trans ha)) (hx.2 hwf n hn)
      · refine hmono _ _ _ _ n ?_ ha (hy.2 hwf₂ n hn)
        exact subset_bind_of_ok hx.1.result_run
          (subset_bind_of_ok (result_runJoin_of_eq hk) (subset_bind (.refl _)))
    · exact hmono _ _ _ _ n (points_runEntries_tail es hx.1 hk hy.1 hv) (.refl _)
        (ih (hquiet'.wf (hy.1.advances.wf hwf₂)) n hn)

theorem Initialized.forall_nodes {fs fs' : List FieldInit} {message : Ty}
    (h : Initialized (Shows P env) env message s fs fs' s') (hwf : s.bindings.Wf) :
    ∀ n ∈ Expr.nodesFields fs, P (runFields env s message fs).points s' n := by
  induction h with
  | nil => exact fun n hn => by cases hn
  | @cons s s₁ s₂ i f x x' fs fs' hx hfs ih =>
    have hquiet := quiet_initField env s₁ i message f x.id
    have ha := hquiet.advances.trans (hfs.mono fun _ _ _ _ h => h.1.advances).advances
    intro n hn
    rw [runFields]
    rcases List.mem_append.1 hn with hn | hn
    · exact hmono _ _ _ _ n (subset_bind (.refl _)) ha (hx.2 hwf n hn)
    · refine hmono _ _ _ _ n ?_ (.refl _) (ih (hquiet.wf (hx.1.advances.wf hwf)) n hn)
      exact subset_bind_of_ok hx.1.result_run (subset_bind_of_ok rfl (subset_bind (.refl _)))

end Lists

section Rules

open Run

theorem subset_runExpr {X : List Point} {x : Run (Expr × State)}
    (h : runExpr env s e = (pass env s (.enter e) >>= fun _ => x)) (hX : X ⊆ x.points) :
    X ⊆ (runExpr env s e).points := by
  rw [h]
  exact subset_bind_of_ok rfl hX

theorem InTurn.forall_nodes_target {s₁ s₂ : State} {id : Int} {target target' : Expr} {f : String}
    {args args' : List Expr} (hmono : ∀ X Y s s' n, X ⊆ Y → Advances s s' → P X s n → P Y s' n)
    (hargs : InTurn (Shows P env) s args args' s₁) (hd : namespacedFunction? env target f = none)
    (ht : Shows P env s₁ target target' s₂) (ha : Advances s₂ s') (hwf : s.bindings.Wf) :
    ∀ n ∈ target.nodes ++ Expr.nodesAll args,
      P (runExpr env s (.method id target f args)).points s' n := by
  intro n hn
  have hdone := hargs.mono fun _ _ _ _ h => h.1
  have hrun := runExpr.eq_def env s (.method id target f args)
  simp only [hd] at hrun
  rcases List.mem_append.1 hn with hn | hn
  · exact hmono _ _ _ _ n
      (subset_runExpr hrun (subset_bind_of_ok hdone.result_run (subset_bind (.refl _)))) ha
      (ht.2 (hdone.wf hwf) n hn)
  · exact hmono _ _ _ _ n (subset_runExpr hrun (subset_bind (.refl _))) (ht.1.advances.trans ha)
      (hargs.forall_nodes hmono hwf n hn)

theorem Rule.forall_nodes
    (hmono : ∀ X Y s s' n, X ⊆ Y → Advances s s' → P X s n → P Y s' n)
    (hname : ∀ X s n, n.qualifiedName?.isSome → P X s n) (h : Rule (Shows P) env s e e' s')
    (hwf : s.bindings.Wf) : ∀ n ∈ e.nodes.tail, P (runExpr env s e).points s' n := by
  intro n hn
  have hrun := runExpr.eq_def env s e
  cases h with
  | const => cases hn
  | ident => cases hn
  | undeclaredIdent => cases hn
  | @qualifiedIdent s' id operand field d hd =>
    obtain ⟨p, hp, -⟩ := Option.bind_eq_some_iff.1 hd
    exact hname _ s' n (Expr.isSome_qualifiedName?_of_mem_nodes (by simp [hp]) hn)
  | @testedIdent s' id operand field d hd =>
    obtain ⟨p, hp, -⟩ := Option.bind_eq_some_iff.1 hd
    exact hname _ s' n (Expr.isSome_qualifiedName?_of_mem_nodes (by simp [hp]) hn)
  | @select s₁ s₂ s' id operand operand' field testOnly t hd ho hsel hs =>
    have hquiet := (quiet_selection ..).of_eq hsel
    simp only [hd] at hrun
    exact hmono _ _ _ _ n (subset_runExpr hrun (subset_bind (.refl _)))
      (hquiet.advances.trans (advances_setType hs)) (ho.2 hwf n hn)
  | call hargs hd hs =>
    exact hmono _ _ _ _ n (subset_runExpr hrun (subset_bind (.refl _))) (advances_resolveCall hs)
      (hargs.forall_nodes hmono hwf n hn)
  | undeclaredCall hargs hd hs =>
    exact hmono _ _ _ _ n (subset_runExpr hrun (subset_bind (.refl _)))
      (advances_annotateUndeclared hs) (hargs.forall_nodes hmono hwf n hn)
  | @namespacedCall s₁ s' id target f args args' d hargs hd hs =>
    rcases List.mem_append.1 hn with hn | hn
    · obtain ⟨p, hp, -⟩ := Option.bind_eq_some_iff.1 hd
      exact hname _ s' n (Expr.isSome_qualifiedName?_of_mem_nodes (by simp [hp]) hn)
    · exact hmono _ _ _ _ n (subset_runExpr hrun (subset_bind (.refl _)))
        (advances_resolveCall hs) (hargs.forall_nodes hmono hwf n hn)
  | method hargs hd ht hf hs =>
    exact hargs.forall_nodes_target hmono hd ht (advances_resolveCall hs) hwf n hn
  | undeclaredMethod hargs hd ht hf hs =>
    exact hargs.forall_nodes_target hmono hd ht (advances_annotateUndeclared hs) hwf n hn
  | @list s₁ s₂ s' id elems elems' t u helems hf hs =>
    have hquiet := (quiet_orFresh ..).of_eq hf
    exact hmono _ _ _ _ n (subset_runExpr hrun (subset_bind (.refl _)))
      (hquiet.advances.trans (advances_setType hs)) (helems.forall_nodes hmono hwf n hn)
  | @map s₁ s₂ s₃ s' id entries entries' k v t u hentries hk hv hs =>
    have hquiet := (quiet_orFresh ..).of_eq hk
    have hquiet' := (quiet_orFresh ..).of_eq hv
    exact hmono _ _ _ _ n (subset_runExpr hrun (subset_bind (.refl _)))
      (hquiet.advances.trans (hquiet'.advances.trans (advances_setType hs)))
      (hentries.forall_nodes hmono hwf n hn)
  | @message s₁ s₂ s' id name name' fields fields' t hliteral hs hfields =>
    have ha := (advances_messageLiteral hliteral).trans (advances_setType hs)
    have hres : (runLiteral env s id name).result = .ok (name', t, s₁) := by
      rw [result_runLiteral, hliteral]
    exact hmono _ _ _ _ n
      (subset_runExpr hrun (subset_bind_of_ok hres (subset_bind_of_ok hs (subset_bind (.refl _)))))
      (.refl _) (hfields.forall_nodes hmono (ha.wf hwf) n hn)
  | @fold s₁ s₂ s₃ s₄ s₅ s₆ s' id iter accu range _ init _ condition _ step _ result _ _ _ iterTy
      hr hi hiter haccu hloop hc hs ha hset =>
    subst haccu hloop
    have hquiet := (quiet_iterType ..).of_eq hiter
    have h₁ := hi.1.advances
    have h₂ := hquiet.advances.trans hc.1.advances
    have h₄ := (quiet_expect s₄ condition.id .bool).advances
    have h₅ := (quiet_expect s₅ step.id (s₂.typeAt init.id)).advances
    have hend := advances_setType hset
    have hwf₂ := h₁.wf (hr.1.advances.wf hwf)
    have hwf₄ := h₂.wf hwf₂
    have hlast := h₅.trans (ha.1.advances.trans hend)
    have hloop := h₄.trans (hs.1.advances.trans hlast)
    have hgoOn : (goOn env (iterType s₂ range.id (s₂.subst (s₂.typeAt range.id)))).result =
        .ok (iterTy, s₃) := by
      rw [result_goOn, hiter]
      rfl
    -- the points of each part come after those of the parts before it
    have hrest {X : List Point} (hX : X ⊆ _) :=
      subset_runExpr hrun (subset_bind_of_ok hr.1.result_run (subset_bind_of_ok hi.1.result_run
        (subset_bind_of_ok hgoOn (X := X) hX)))
    simp only [Expr.nodes, List.tail_cons, List.mem_append] at hn
    rcases hn with (((hn | hn) | hn) | hn) | hn
    · exact hmono _ _ _ _ n (subset_runExpr hrun (subset_bind (.refl _)))
        (h₁.trans (h₂.trans hloop)) (hr.2 hwf n hn)
    · exact hmono _ _ _ _ n
        (subset_runExpr hrun (subset_bind_of_ok hr.1.result_run (subset_bind (.refl _))))
        (h₂.trans hloop) (hi.2 (hr.1.advances.wf hwf) n hn)
    · exact hmono _ _ _ _ n (hrest (subset_bind (.refl _))) hloop (hc.2 (hquiet.wf hwf₂) n hn)
    · exact hmono _ _ _ _ n (hrest (subset_bind_of_ok hc.1.result_run (subset_bind (.refl _))))
        hlast (hs.2 (h₄.wf hwf₄) n hn)
    · exact hmono _ _ _ _ n
        (hrest (subset_bind_of_ok hc.1.result_run (subset_bind_of_ok hs.1.result_run
          (subset_bind (.refl _)))))
        hend (ha.2 (h₅.wf (hs.1.advances.wf (h₄.wf hwf₄))) n hn)

/-- To show something of all nodes in the end, show that it stays once it holds, that it holds of a
node when its own check completes, and that it holds of qualified names, whose parts may not be
checked. -/
theorem Completes.forall_nodes (h : Completes env s e e' s') (hwf : s.bindings.Wf)
    (hmono : ∀ X Y s s' n, X ⊆ Y → Advances s s' → P X s n → P Y s' n)
    (hname : ∀ X s n, n.qualifiedName?.isSome → P X s n)
    (hown : ∀ env s e e' s', Completes env s e e' s' → s.bindings.Wf →
      P (runExpr env s e).points s' e) :
    ∀ n ∈ e.nodes, P (runExpr env s e).points s' n := by
  refine h.strongInduction
    (R := fun env s e _ s' => s.bindings.Wf → ∀ n ∈ e.nodes, P (runExpr env s e).points s' n) ?_ hwf
  intro env s e e' s' hrule hwf n hn
  rw [e.nodes_eq_cons] at hn
  rcases List.mem_cons.1 hn with rfl | hn
  · exact hown env s n e' s' (hrule.mono fun _ _ _ _ _ h => h.1).completes hwf
  · exact Rule.forall_nodes hmono hname hrule hwf n hn

end Rules

end Nodes

end Checker

end ExprTyping
