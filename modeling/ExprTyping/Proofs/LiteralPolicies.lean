import ExprTyping.Proofs.RunParts
import ExprTyping.Standard

namespace ExprTyping

def Env.dynamic (env : Env) : Env := { env with options := { env.options with policy := .dynamic } }

namespace Checker

open State

variable {env : Env} {s s' : State} {e e' : Expr}

theorem join_dynamic {id : Int} {previous : Option Ty} {t u : Ty}
    (h : join env s id previous t = (u, s')) (hr : s'.reports = []) :
    join env.dynamic s id previous t = (u, s') := by
  cases previous with
  | none => exact h
  | some previous =>
    simp only [join] at h ⊢
    cases hunify : s.unify previous t with
    | mk assigned s₁ =>
      rw [hunify] at h
      cases assigned with
      | true => exact h
      | false =>
        cases hpolicy : env.options.policy with
        | dynamic =>
          rw [hpolicy] at h
          exact h
        | homogeneous =>
          simp only [hpolicy] at h
          cases h
          simp [report] at hr

def Tolerated (env : Env) (s : State) (e e' : Expr) (s' : State) : Prop :=
  Completes env s e e' s' ∧ (s'.reports = [] → Completes env.dynamic s e e' s')

section Lists

theorem InTurn.dynamic {es es' : List Expr} (h : InTurn (Tolerated env) s es es' s')
    (hr : s'.reports = []) : InTurn (Completes env.dynamic) s es es' s' := by
  induction h with
  | nil => exact .nil
  | cons he hes ih =>
    have ha := (hes.mono fun _ _ _ _ h => h.1.advances).advances
    exact .cons (he.2 (ha.reports_eq_nil hr)) (ih hr)

theorem Joined.dynamic {es es' : List Expr} {t t' : Option Ty}
    (h : Joined (Tolerated env) env s t es es' t' s') (hr : s'.reports = []) :
    Joined (Completes env.dynamic) env.dynamic s t es es' t' s' := by
  induction h with
  | nil => exact .nil
  | @cons s s₁ s₂ s₃ e e' es es' t t' u he hj hes ih =>
    have hr₂ := (hes.mono fun _ _ _ _ h => h.1.advances).advances.reports_eq_nil hr
    have hquiet := (quiet_join ..).of_eq hj
    exact .cons (he.2 (hquiet.advances.reports_eq_nil hr₂)) (join_dynamic hj hr₂) (ih hr)

theorem JoinedEntries.dynamic {es es' : List Entry} {k v k' v' : Option Ty}
    (h : JoinedEntries (Tolerated env) env s k v es es' k' v' s') (hr : s'.reports = []) :
    JoinedEntries (Completes env.dynamic) env.dynamic s k v es es' k' v' s' := by
  induction h with
  | nil => exact .nil
  | @cons s s₁ s₂ s₃ s₄ s₅ i x x' y y' es es' k v k' v' t u hx hk hy hv hes ih =>
    have hr₄ := (hes.mono fun _ _ _ _ h => h.1.advances).advances.reports_eq_nil hr
    have hquiet := (quiet_join ..).of_eq hk
    have hquiet' := (quiet_join ..).of_eq hv
    have hr₃ := hquiet'.advances.reports_eq_nil hr₄
    have hr₂ := hy.1.advances.reports_eq_nil hr₃
    exact .cons (hx.2 (hquiet.advances.reports_eq_nil hr₂)) (join_dynamic hk hr₂) (hy.2 hr₃)
      (join_dynamic hv hr₄) (ih hr)

theorem Initialized.dynamic {fs fs' : List FieldInit} {message : Ty}
    (h : Initialized (Tolerated env) env message s fs fs' s') (hr : s'.reports = []) :
    Initialized (Completes env.dynamic) env.dynamic message s fs fs' s' := by
  induction h with
  | nil => exact .nil
  | @cons s s₁ s₂ i f x x' fs fs' hx hfs ih =>
    have ha := (hfs.mono fun _ _ _ _ h => h.1.advances).advances
    have hr₁ := ((quiet_initField env s₁ i message f x.id).advances.trans ha).reports_eq_nil hr
    exact .cons (hx.2 hr₁) (ih hr)

end Lists

theorem Rule.dynamic (h : Rule Tolerated env s e e' s') (hr : s'.reports = []) :
    Rule Completes env.dynamic s e e' s' := by
  cases h with
  | const hs => exact .const hs
  | ident hd hs => exact .ident hd hs
  | undeclaredIdent hd hs => exact .undeclaredIdent hd hs
  | qualifiedIdent hd hs => exact .qualifiedIdent hd hs
  | testedIdent hd hs => exact .testedIdent hd hs
  | @select s₁ s₂ s' id operand operand' field testOnly t hd ho hsel hs =>
    have hquiet := (quiet_selection ..).of_eq hsel
    have hr₁ := (hquiet.advances.trans (advances_setType hs)).reports_eq_nil hr
    exact .select hd (ho.2 hr₁) hsel hs
  | call hargs hd hs =>
    exact .call (hargs.dynamic ((advances_resolveCall hs).reports_eq_nil hr)) hd hs
  | undeclaredCall hargs hd hs =>
    exact .undeclaredCall (hargs.dynamic ((advances_annotateUndeclared hs).reports_eq_nil hr)) hd hs
  | namespacedCall hargs hn hs =>
    exact .namespacedCall (hargs.dynamic ((advances_resolveCall hs).reports_eq_nil hr)) hn hs
  | method hargs hn ht hd hs =>
    have hr₂ := (advances_resolveCall hs).reports_eq_nil hr
    exact .method (hargs.dynamic (ht.1.advances.reports_eq_nil hr₂)) hn (ht.2 hr₂) hd hs
  | undeclaredMethod hargs hn ht hd hs =>
    have hr₂ := (advances_annotateUndeclared hs).reports_eq_nil hr
    exact .undeclaredMethod (hargs.dynamic (ht.1.advances.reports_eq_nil hr₂)) hn (ht.2 hr₂) hd hs
  | @list s₁ s₂ s' id elems elems' t u helems hf hs =>
    have hquiet := (quiet_orFresh ..).of_eq hf
    have hr₁ := (hquiet.advances.trans (advances_setType hs)).reports_eq_nil hr
    exact .list (helems.dynamic hr₁) hf hs
  | @map s₁ s₂ s₃ s' id entries entries' k v t u hentries hk hv hs =>
    have hquiet := (quiet_orFresh ..).of_eq hk
    have hquiet' := (quiet_orFresh ..).of_eq hv
    have ha := hquiet.advances.trans (hquiet'.advances.trans (advances_setType hs))
    exact .map (hentries.dynamic (ha.reports_eq_nil hr)) hk hv hs
  | message hname hs hfields => exact .message hname hs (hfields.dynamic hr)
  | @fold s₁ s₂ s₃ s₄ s₅ s₆ s' id iter accu range _ init _ condition _ step _ result _ _ _ _
      hrange hinit hiter haccu hloop hc hs ha hset =>
    have hquiet := (quiet_iterType ..).of_eq hiter
    -- back from the end, through the parts of the loop
    have hr₆ := (advances_setType hset).reports_eq_nil hr
    have hr₅ := ((quiet_expect s₅ _ _).advances.trans ha.1.advances).reports_eq_nil hr₆
    have hr₄ := ((quiet_expect s₄ _ _).advances.trans hs.1.advances).reports_eq_nil hr₅
    have hr₂ := (hquiet.advances.trans hc.1.advances).reports_eq_nil hr₄
    have hr₁ := hinit.1.advances.reports_eq_nil hr₂
    subst haccu hloop
    exact .fold (hrange.2 hr₁) (hinit.2 hr₂) hiter rfl rfl (hc.2 hr₄) (hs.2 hr₅) (ha.2 hr₆) hset

theorem Completes.dynamic (h : Completes env s e e' s') (hr : s'.reports = []) :
    Completes env.dynamic s e e' s' :=
  h.strongInduction (R := fun env s e e' s' => s'.reports = [] → Completes env.dynamic s e e' s')
    (fun _ _ _ _ _ hrule hr => (Rule.dynamic hrule hr).completes) hr

end Checker

/-- The homogeneous policy only rejects: a check that reports nothing under it gives the same result
under the dynamic one. -/
theorem check_dynamic (env : Env) (source : Source) (e : Expr) (r : CheckResult)
    (hcheck : check env.homogeneous source e = .ok r) (hdiag : r.diagnostics = []) :
    check env.dynamic source e = .ok r := by
  obtain ⟨e', s, hs, rfl⟩ := check_eq_ok_iff.1 hcheck
  exact check_eq_ok_iff.2 ⟨e', s, hs.dynamic (List.map_eq_nil_iff.1 hdiag), rfl⟩

theorem check_dynamic_of_nested :
    let env := Env.standard {} ⟨fun _ => none, fun _ _ => none, fun _ => none⟩
    let e : Expr := .map 8 [.mk 7 (.const 1 (.string "k"))
      (.list 6 [.list 2 [], .list 5 [.const 3 (.int 1), .const 4 (.int 2)]])]
    ∃ r, check env.homogeneous {} e = .ok r ∧ r.diagnostics = [] ∧
      r.types.find? 2 = some (.list .int) ∧ check env.dynamic {} e = .ok r := by
  intro env e
  obtain ⟨r, hr, hdiag, ht⟩ : ∃ r, check env.homogeneous {} e = .ok r ∧ r.diagnostics = [] ∧
      r.types.find? 2 = some (.list .int) := exists_check_eq_ok (by decide +kernel)
  exact ⟨r, hr, hdiag, ht, check_dynamic env {} e r hr hdiag⟩

end ExprTyping
