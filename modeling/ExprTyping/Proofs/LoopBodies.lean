import ExprTyping.Proofs.Confinement
import ExprTyping.Proofs.NeutralAssignment

namespace ExprTyping

open Checker State

section Exposed

mutual
/-- The parameters of a type outside of type values. -/
def Ty.exposed : Ty → List String
  | .param n => [n]
  | .list t => t.exposed
  | .map k v => k.exposed ++ v.exposed
  | .abstract _ ts => Ty.exposedAll ts
  | .function r ts => r.exposed ++ Ty.exposedAll ts
  | _ => []

def Ty.exposedAll : List Ty → List String
  | [] => []
  | t :: ts => t.exposed ++ Ty.exposedAll ts
end

variable {c t : Ty} {q : String}

theorem Ty.mem_exposedAll {ts : List Ty} : q ∈ exposedAll ts ↔ ∃ t ∈ ts, q ∈ t.exposed := by
  induction ts with
  | nil => simp [exposedAll]
  | cons t ts ih => simp [exposedAll, ih]

theorem Ty.mem_exposed_of_mem_children (hi : t.inner? = none) (hc : c ∈ t.children)
    (hq : q ∈ c.exposed) : q ∈ t.exposed := by
  cases t with
  | typeOf t => cases hi
  | wrapper p =>
    rw [List.mem_singleton.1 hc] at hq
    cases hq
  | list t => rwa [List.mem_singleton.1 hc] at hq
  | map k v => simp_all [children, exposed]; grind
  | abstract n ts => exact mem_exposedAll.2 ⟨c, hc, hq⟩
  | function r ts =>
    simp only [children, List.mem_append, List.mem_singleton] at hc
    simp only [exposed, List.mem_append, mem_exposedAll]
    grind
  | _ => cases hc

theorem Ty.mem_params_of_mem_exposed (hq : q ∈ t.exposed) : q ∈ t.params := by
  induction t with
  | list t ih => exact ih hq
  | map k v ihk ihv => exact List.mem_append.2 ((List.mem_append.1 hq).imp ihk ihv)
  | abstract n ts ih =>
    obtain ⟨t, ht, hq⟩ := mem_exposedAll.1 hq
    exact mem_paramsAll.2 ⟨t, ht, ih t ht hq⟩
  | function r ts ihr ih =>
    refine List.mem_append.2 ((List.mem_append.1 hq).imp ihr fun hq => ?_)
    obtain ⟨t, ht, hq⟩ := mem_exposedAll.1 hq
    exact mem_paramsAll.2 ⟨t, ht, ih t ht hq⟩
  | param n => exact hq
  | _ => cases hq

end Exposed

namespace Bindings

variable {m m' : Bindings} {n : Nat} {x q : String} {t : Ty} {σ : String → Ty}

def Apart (m : Bindings) (x : String) (t : Ty) : Prop :=
  (∀ q ∈ t.exposed, m.find? (.param q) = none) ∧ x ∉ t.params

theorem apart_of_free (h : ∀ q ∈ t.params, m.find? (.param q) = none ∧ q ≠ x) : m.Apart x t :=
  ⟨fun q hq => (h q (Ty.mem_params_of_mem_exposed hq)).1, fun hx => (h x hx).2 rfl⟩

theorem Apart.resolved (h : m.Apart x t) : m.Resolved t := by
  rintro q rfl
  exact h.1 q (List.mem_singleton_self q)

def Avoids (m : Bindings) (x : String) : Prop :=
  ∀ q t, m.find? (.param q) = some t → x ∉ t.params

namespace Rewrites

variable (h : Rewrites (m.Apart x) m m')

include h

theorem not_below (hk : m.ParamKeys) (hx : m.Avoids x) (ht : x ∉ t.params) :
    ¬ m'.Below t (.param x) := by
  intro hb
  have hchild : ∀ t : Ty, x ∉ t.params → ∀ c ∈ t.children, x ∉ c.params :=
    fun t ht c hc hxc => ht (Ty.mem_params_of_mem_children hc hxc)
  refine (h.mono fun _ h => h.2).of_below hchild (fun k u _ hu => ?_) ht hb
    (List.mem_singleton_self x)
  obtain ⟨q, rfl⟩ := hk k u hu
  exact hx q u hu

theorem find?_apart : m'.find? (.param x) = m.find? (.param x) :=
  h.find?_eq fun hx => hx.2 (List.mem_singleton_self x)

theorem find?_of_bound {s : Ty} (hq : m.find? (.param q) = some s) :
    m'.find? (.param q) = some s := by
  rw [h.find?_eq, hq]
  intro hfree
  simp [hfree.1 q (List.mem_singleton_self q)] at hq

theorem models_apart (hσ : Models σ m') : Models σ m :=
  fun q s hq => hσ q s (h.find?_of_bound hq)

end Rewrites

end Bindings

open Bindings in
theorem territory_apart {m : Bindings} {n : Nat} {x : String} (hm : m.Wf) (hx : m.Avoids x)
    (hn : ∀ k, n ≤ k → m.find? (freshVar k) = none ∧ varName k ≠ x) :
    Territory m n (m.Apart x) where
  child t c ht hi hc := ⟨fun q hq => ht.1 q (Ty.mem_exposed_of_mem_children hi hc hq),
    fun hxc => ht.2 (Ty.mem_params_of_mem_children hc hxc)⟩
  bound t u ht hu := by
    obtain ⟨q, rfl⟩ := hm.keys t u hu
    simp [ht.1 q (List.mem_singleton_self q)] at hu
  ofFresh t ht := by
    refine apart_of_free fun q hq => ?_
    obtain ⟨k, hk, rfl⟩ := ht q hq
    exact hn k hk
  list t ht := ht
  map k v hk hv := by
    refine ⟨fun q hq => ?_, fun hx => ?_⟩
    · exact (List.mem_append.1 hq).elim (hk.1 q) (hv.1 q)
    · exact (List.mem_append.1 hx).elim hk.2 hv.2
  subst m' t hrw ht := by
    -- what substitution leaves is free in the new bindings, hence in the old ones
    refine apart_of_free fun q hq => ?_
    obtain ⟨hb, hfree⟩ := (hrw.wf hm).mem_params_subst q hq
    constructor
    · by_contra hne
      have hsome := hrw.isSome_find? (Option.ne_none_iff_isSome.1 hne)
      simp [hfree] at hsome
    · rintro rfl
      exact hrw.not_below hm.keys hx ht.2 hb

section Resolved

open Bindings

theorem Trial.resolved_overload {v : Trial} (hv : v.bindings.Wf)
    (hr : ∀ r, v.found = some r → v.bindings.Resolved r.result) (args : List Ty) (o : Overload) :
    (v.overload args o).bindings.Wf ∧
      ∀ r, (v.overload args o).found = some r → (v.overload args o).bindings.Resolved r.result := by
  rcases v.overload_case args o with heq | ⟨m, hm, heq⟩
  · rw [heq]
    exact ⟨hv, hr⟩
  · rw [heq]
    have hwf := hv.assignAll? hm
    refine ⟨hwf, fun r hadd => ?_⟩
    cases hadd
    cases hf : v.found with
    | none => exact hwf.resolved_subst _
    | some r =>
      simp only [Resolution.add]
      split
      · exact resolved_of_isParam_eq_false rfl
      · next hne =>
        by_cases hdyn : r.result = .dyn
        · exact hdyn ▸ resolved_of_isParam_eq_false rfl
        · have hsame : r.result = m.subst false (o.instantiate v.nextVar).2.1 :=
            not_not.1 (not_and.1 hne hdyn)
          exact hsame ▸ hwf.resolved_subst _

namespace Checker

variable {env : Env} {s s' : State} {id : Int} {e e' : Expr} {t : Ty}

theorem resolved_setType (ht : s.bindings.Resolved t) (h : s.setType id t = .ok s') :
    s'.bindings.Resolved (s'.typeAt id) := by
  obtain ⟨-, hid, hb⟩ := grows_setType h
  rw [typeAt, hid, hb]
  exact ht

theorem resolved_setReference {q : Reference} (hs : s.bindings.Resolved (s.typeAt id))
    (h : s.setReference id q = .ok s') : s'.bindings.Resolved (s'.typeAt id) := by
  obtain ⟨-, ht, hb⟩ := grows_setReference h
  rwa [typeAt, ht, hb]

theorem resolved_annotateIdent {d : IdentDecl} (hd : s.bindings.Resolved d.ty)
    (h : annotateIdent s id d = .ok s') : s'.bindings.Resolved (s'.typeAt id) := by
  simp only [annotateIdent, bind_eq_ok] at h
  obtain ⟨s₁, hs, hq⟩ := h
  exact resolved_setReference (resolved_setType hd hs) hq

theorem resolved_annotateUndeclared {name : String}
    (h : annotateUndeclared env s id name = .ok s') : s'.bindings.Resolved (s'.typeAt id) := by
  simp only [annotateUndeclared, bind_eq_ok, pure_eq_ok] at h
  obtain ⟨s₁, hs, rfl⟩ := h
  have herror : s.bindings.Resolved .error := resolved_of_isParam_eq_false rfl
  exact fun p hp => resolved_setType herror hs p hp

theorem resolved_resolveCall {f : FunctionDecl} {receiver : Bool} {args : List Int}
    (hm : s.bindings.Wf) (h : resolveCall env s id f receiver args = .ok s') :
    s'.bindings.Resolved (s'.typeAt id) := by
  obtain ⟨-, hfound⟩ := List.foldlRecOn
    (motive := fun v : Trial =>
      v.bindings.Wf ∧ ∀ r, v.found = some r → v.bindings.Resolved r.result)
    (f.overloads.filter fun o => !env.options.isDisabled o.id && o.receiver == receiver)
    (·.overload (args.map s.typeAt) ·) (b := ⟨s.bindings, s.nextVar, none⟩) ⟨hm, by simp⟩
    fun v hv o _ => Trial.resolved_overload hv.1 hv.2 (args.map s.typeAt) o
  simp only [resolveCall] at h
  split at h
  · next r hr =>
    rw [bind_eq_ok] at h
    obtain ⟨s₁, hs, hq⟩ := h
    exact resolved_setReference (resolved_setType (hfound r hr) hs) hq
  · exact resolved_setType (resolved_of_isParam_eq_false rfl) h

/-- The type of a checked expression is no bound parameter, unless it is that of a name. -/
theorem Completes.resolved (h : Completes env s e e' s') (hm : s.bindings.Wf)
    (hn : env.Gives s.bindings.Resolved (e.freeNames env.container)) :
    s'.bindings.Resolved (s'.typeAt e.id) := by
  cases h.rule with
  | @const _ id v hset =>
    exact resolved_setType (resolved_of_isParam_eq_false (by cases v <;> rfl)) hset
  | ident hd hset => exact resolved_annotateIdent (hn.lookupIdent hd) hset
  | undeclaredIdent hd hset => exact resolved_annotateUndeclared hset
  | qualifiedIdent hd hset => exact resolved_annotateIdent (hn.selectedDecl hd) hset
  | testedIdent hd hset => exact resolved_setType (resolved_of_isParam_eq_false rfl) hset
  | @select s₁ s₂ s' id operand operand' field testOnly t hd ho hsel hset =>
    have hquiet := (quiet_selection ..).of_eq hsel
    have hwf := hquiet.wf (ho.advances.wf hm)
    exact resolved_setType (hwf.resolved_subst _) hset
  | call hargs hd hset =>
    have hwf := (hargs.mono fun _ _ _ _ h => h.advances).advances.wf hm
    exact resolved_resolveCall hwf hset
  | undeclaredCall hargs hd hset => exact resolved_annotateUndeclared hset
  | namespacedCall hargs hf hset =>
    have hwf := (hargs.mono fun _ _ _ _ h => h.advances).advances.wf hm
    exact resolved_resolveCall hwf hset
  | method hargs hf ht hd hset =>
    have hwf := ht.advances.wf ((hargs.mono fun _ _ _ _ h => h.advances).advances.wf hm)
    exact resolved_resolveCall hwf hset
  | undeclaredMethod hargs hf ht hd hset => exact resolved_annotateUndeclared hset
  | list helems hf hset => exact resolved_setType (resolved_of_isParam_eq_false rfl) hset
  | map hentries hk hv hset => exact resolved_setType (resolved_of_isParam_eq_false rfl) hset
  | @message s₁ s₂ s' id name name' fields fields' t hname hset hfields =>
    obtain ⟨-, hid, -⟩ := grows_setType hset
    have hgrows := (hfields.mono fun _ _ _ _ h => h.advances).advances
    rintro p hp
    have hparams := params_literalType hname
    rw [Expr.id, typeAt, hgrows.types id _ hid, Option.getD_some] at hp
    simp [hp, Ty.params] at hparams
  | @fold s₁ s₂ s₃ s₄ s₅ s₆ s' id iter accu range _ init _ condition _ step _ result _ _ _ _
      hr hi hiter _ _ hc hs ha hset =>
    have hquiet := (quiet_iterType ..).of_eq hiter
    have hwf₃ := hquiet.wf (hi.advances.wf (hr.advances.wf hm))
    have hwf₅ := hs.advances.wf ((quiet_expect s₄ condition.id .bool).wf (hc.advances.wf hwf₃))
    have hwf₆ := ha.advances.wf ((quiet_expect s₅ step.id (s₂.typeAt init.id)).wf hwf₅)
    exact resolved_setType (hwf₆.resolved_subst _) hset

end Checker

end Resolved

end ExprTyping
