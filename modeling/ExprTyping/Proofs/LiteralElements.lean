import ExprTyping.Proofs.AssignmentRules
import ExprTyping.Proofs.CheckedNodes
import ExprTyping.Proofs.CheckedTypes

/-!
# Elements of list and map literals

The type of a literal is joined from the types of its elements, one after the other. A join keeps
the wider of two types, or else the later one, so an element is compared with the one before it and
not with the types that are joined later. Under an instantiation of the parameters that the joins
hold for, all elements fit what is joined so far (`Ty.Covers`), as long as fitting is transitive
wherever a later type takes the place of an earlier one (`Ty.Chained`).
-/

namespace ExprTyping

namespace Ty

variable {θ : String → Ty} {t u : Ty} {ts us : List Ty}

def Chained (θ : String → Ty) (ts : List Ty) : Prop :=
  ∀ before t after, ts = before ++ t :: after → ∀ x ∈ before, ∀ u ∈ before,
    u.lessSpecific t = false → (x.inst θ).fits (u.inst θ) = true →
    (u.inst θ).fits (t.inst θ) = true → (x.inst θ).fits (t.inst θ) = true

theorem Chained.of_append (h : Chained θ (ts ++ us)) : Chained θ ts := by
  rintro before t after rfl
  exact h before t (after ++ us) (by simp)

/-- What the types are joined to: `dyn`, or one of them that all others fit. -/
def Covers (θ : String → Ty) (ts : List Ty) : Option Ty → Prop
  | none => ts = []
  | some u => u = dyn ∨ u ∈ ts ∧ ∀ t ∈ ts, (t.inst θ).fits (u.inst θ) = true

theorem fits_dyn (t : Ty) : t.fits dyn = true := Fits.fits (.wildcard (.inr rfl))

theorem Covers.fits (h : Covers θ ts (some u)) (ht : t ∈ ts) :
    (t.inst θ).fits (u.inst θ) = true := by
  rcases h with rfl | ⟨-, h⟩
  · exact fits_dyn _
  · exact h t ht

theorem Covers.mostGeneral (h : Covers θ ts (some u)) (hchained : Chained θ (ts ++ [t]))
    (hfits : u ∈ ts → (u.inst θ).fits (t.inst θ) = true)
    (hwide : u ∈ ts → u.lessSpecific t = true → (t.inst θ).fits (u.inst θ) = true) :
    Covers θ (ts ++ [t]) (some (u.mostGeneral t)) := by
  rw [Ty.mostGeneral]
  rcases h with rfl | ⟨hu, h⟩
  · exact .inl rfl
  split
  · next hut =>
    refine .inr ⟨List.mem_append_left [t] hu, ?_⟩
    intro x hx
    rcases List.mem_append.1 hx with hx | hx
    · exact h x hx
    · exact List.mem_singleton.1 hx ▸ hwide hu hut
  · next hut =>
    refine .inr ⟨List.mem_append_right ts (List.mem_singleton_self t), ?_⟩
    intro x hx
    rcases List.mem_append.1 hx with hx | hx
    · exact hchained ts t [] rfl x hx u hu (by simpa using hut) (h x hx) (hfits hu)
    · exact List.mem_singleton.1 hx ▸ Ty.fits_refl _

end Ty

def Entry.key : Entry → Expr
  | .mk _ key _ => key

def Entry.value : Entry → Expr
  | .mk _ _ value => value

namespace Checker

open State Bindings

variable {ok : String → Ty → Prop} {θ : String → Ty} {X Y : List Point} {env : Env}
  {s s₁ s₂ s' : State} {id : Int} {e e' : Expr} {es : List Expr} {t t' : Option Ty}
  {ts us : List Ty}

/-- Where one of the nodes is joined, with both types among the given ones, this goes by the rules
with `ok`. -/
def JoinsBy (ok : String → Ty → Prop) (X : List Point) (es : List Expr) (ts : List Ty) : Prop :=
  ∀ p ∈ X, ∀ e ∈ es, ∀ t ∈ ts, ∀ u ∈ ts, ∀ m, p.state.bindings.Wf →
    p.action = .join e.id t u → p.state.bindings.assign? t u = some m →
    p.state.bindings.Assigns ok [t] [u] m

theorem JoinsBy.mono {es' : List Expr} (h : JoinsBy ok Y es' us) (hX : X ⊆ Y) (hes : es ⊆ es')
    (hts : ts ⊆ us) : JoinsBy ok X es ts :=
  fun p hp e he t ht u hu => h p (hX hp) e (hes he) t (hts ht) u (hts hu)

theorem join_covers {u v : Ty} (hok : ∀ p s, ok p s → (θ p).Replaces (s.inst θ))
    (h : join env s id t u = (v, s')) (hr : s'.reports = []) (hcovers : Ty.Covers θ ts t)
    (hjoin : ∀ w ∈ ts, t = some w → ∀ m, s.bindings.assign? w u = some m →
      s.bindings.Assigns ok [w] [u] m)
    (hchained : Ty.Chained θ (ts ++ [u])) : Ty.Covers θ (ts ++ [u]) (some v) := by
  cases t with
  | none =>
    cases h
    obtain rfl : ts = [] := hcovers
    exact .inr ⟨List.mem_singleton_self u, fun x hx => List.mem_singleton.1 hx ▸ Ty.fits_refl _⟩
  | some w =>
    simp only [join, unify] at h
    cases hassign : s.bindings.assign? w u with
    | some m =>
      rw [hassign] at h
      cases h
      apply hcovers.mostGeneral hchained
      · intro hw
        exact (List.forall₂_cons.1 ((hjoin w hw rfl m hassign).fits hok)).1
      · intro hw
        exact (List.forall₂_cons.1 ((hjoin w hw rfl m hassign).fits_of_wide hok)).1
    | none =>
      rw [hassign] at h
      cases hpolicy : env.options.policy with
      | dynamic =>
        simp only [hpolicy] at h
        cases h
        exact .inl rfl
      | homogeneous =>
        simp only [hpolicy] at h
        cases h
        simp [report] at hr

def joinees : Option Ty → List Expr → List Expr
  | none, es => es.tail
  | some _, es => es

theorem subset_joinees (t : Option Ty) (e : Expr) (es : List Expr) : es ⊆ joinees t (e :: es) := by
  cases t with
  | none => exact List.Subset.refl es
  | some t => exact List.subset_cons_self e es

/-- In `s'` the nodes `es` have types, and joining them leads from `t` to `t'`. -/
structure Joins (ok : String → Ty → Prop) (θ : String → Ty) (X : List Point) (s' : State)
    (t : Option Ty) (es : List Expr) (t' : Option Ty) : Prop where
  typed : ∀ e ∈ es, s'.HasType e.id
  covers : s'.reports = [] → ∀ ts, Ty.Covers θ ts t →
    JoinsBy ok X (joinees t es) (ts ++ es.map (s'.typeAt ·.id)) →
    Ty.Chained θ (ts ++ es.map (s'.typeAt ·.id)) →
    Ty.Covers θ (ts ++ es.map (s'.typeAt ·.id)) t'

namespace Joins

theorem nil (s' : State) (t : Option Ty) : Joins ok θ X s' t [] t where
  typed := by simp
  covers _ ts hcovers _ _ := by simpa using hcovers

theorem cons {u : Ty} (h : Joins ok θ X s' (some u) es t')
    (hok : ∀ p s, ok p s → (θ p).Replaces (s.inst θ)) (hwf : s₁.bindings.Wf) (hid : s₁.HasType e.id)
    (hX : ∀ w, t = some w → ⟨env, s₁, .join e.id w (s₁.typeAt e.id)⟩ ∈ X)
    (hj : join env s₁ e.id t (s₁.typeAt e.id) = (u, s₂)) (ha : Advances s₂ s') :
    Joins ok θ X s' t (e :: es) t' := by
  have hquiet := (quiet_join ..).of_eq hj
  have hgrows := hquiet.toGrows.trans ha.toGrows
  constructor
  · rw [List.forall_mem_cons]
    exact ⟨hgrows.hasType hid, h.typed⟩
  · intro hr ts hcovers hjoins hchained
    rw [List.map_cons, List.append_cons, hgrows.typeAt_eq hid] at hjoins hchained ⊢
    apply h.covers hr _ _ (hjoins.mono (.refl _) (subset_joinees t e es) (.refl _)) hchained
    apply join_covers hok hj (ha.reports_eq_nil hr) hcovers _ hchained.of_append
    rintro w hw rfl m
    exact hjoins _ (hX w rfl) e List.mem_cons_self w (by simp [hw]) _ (by simp) m hwf rfl

theorem mono (h : Joins ok θ X s t es t') (hXY : X ⊆ Y) (ha : Advances s s') :
    Joins ok θ Y s' t es t' := by
  have hmap : es.map (s'.typeAt ·.id) = es.map (s.typeAt ·.id) :=
    List.map_congr_left fun e he => ha.typeAt_eq (h.typed e he)
  constructor
  · intro e he
    exact ha.hasType (h.typed e he)
  · intro hr ts hcovers hjoins
    rw [hmap] at hjoins ⊢
    exact h.covers (ha.reports_eq_nil hr) ts hcovers (hjoins.mono hXY (.refl _) (.refl _))

end Joins

theorem mem_runJoin {w u : Ty} :
    ⟨env, s, .join id w u⟩ ∈ (runJoin env s id (some w) u).points :=
  List.mem_append_left _ (List.mem_singleton_self _)

section Run

variable (hok : ∀ p s, ok p s → (θ p).Replaces (s.inst θ))

include hok

theorem Joined.joins {es' : List Expr} (h : Joined (Completes env) env s t es es' t' s')
    (hwf : s.bindings.Wf) : Joins ok θ (runElems env s t es).points s' t es t' := by
  induction h with
  | nil => exact .nil _ _
  | @cons s s₁ s₂ s₃ e e' es es' t t' u he hj hes ih =>
    have hquiet := (quiet_join ..).of_eq hj
    have ha := (hes.mono fun _ _ _ _ h => h.advances).advances
    have hwf₁ := he.advances.wf hwf
    have htail := (ih (hquiet.wf hwf₁)).mono (points_runElems_tail es he hj) (.refl _)
    refine htail.cons hok hwf₁ (he.hasType hwf) ?_ hj ha
    rintro w rfl
    rw [runElems]
    exact Run.subset_bind_of_ok he.result_run (Run.subset_bind (.refl _)) mem_runJoin

theorem JoinedEntries.joins {es es' : List Entry} {k v k' v' : Option Ty}
    (h : JoinedEntries (Completes env) env s k v es es' k' v' s') (hwf : s.bindings.Wf) :
    Joins ok θ (runEntries env s k v es).points s' k (es.map Entry.key) k' ∧
      Joins ok θ (runEntries env s k v es).points s' v (es.map Entry.value) v' := by
  induction h with
  | nil => exact ⟨.nil _ _, .nil _ _⟩
  | @cons s s₁ s₂ s₃ s₄ s₅ i x x' y y' es es' k v k' v' t u hx hk hy hv hes ih =>
    have hquiet := (quiet_join ..).of_eq hk
    have hquiet' := (quiet_join ..).of_eq hv
    have ha := (hes.mono fun _ _ _ _ h => h.advances).advances
    have hwf₁ := hx.advances.wf hwf
    have hwf₂ := hquiet.wf hwf₁
    have hwf₃ := hy.advances.wf hwf₂
    obtain ⟨hkeys, hvalues⟩ := ih (hquiet'.wf hwf₃)
    have htail := points_runEntries_tail (i := i) es hx hk hy hv
    constructor
    · refine (hkeys.mono htail (.refl _)).cons hok hwf₁ (hx.hasType hwf) ?_ hk
        (hy.advances.trans (hquiet'.advances.trans ha))
      rintro w rfl
      rw [runEntries]
      exact Run.subset_bind_of_ok hx.result_run (Run.subset_bind (.refl _)) mem_runJoin
    · refine (hvalues.mono htail (.refl _)).cons hok hwf₃ (hy.hasType hwf₂) ?_ hv ha
      rintro w rfl
      rw [runEntries]
      exact Run.subset_bind_of_ok hx.result_run (Run.subset_bind_of_ok (result_runJoin_of_eq hk)
        (Run.subset_bind_of_ok hy.result_run (Run.subset_bind (.refl _)))) mem_runJoin

end Run

def Combines (ok : String → Ty → Prop) (θ : String → Ty) (X : List Point) (s : State)
    (es : List Expr) (u : Ty) : Prop :=
  ∃ t, Joins ok θ X s none es t ∧ ∀ w, t = some w → u = w

theorem combines_orFresh {u : Ty} (h : Joins ok θ X s none es t)
    (hf : s₁.orFresh t = (u, s₂)) (hXY : X ⊆ Y) (ha : Advances s s') : Combines ok θ Y s' es u := by
  refine ⟨t, h.mono hXY ha, ?_⟩
  rintro w rfl
  cases hf
  rfl

def TypedByElements (ok : String → Ty → Prop) (θ : String → Ty) (X : List Point) (s : State) :
    Expr → Prop
  | .list id elems => ∃ u, s.types.find? id = some (.list u) ∧ Combines ok θ X s elems u
  | .map id entries => ∃ k v, s.types.find? id = some (.map k v) ∧
      Combines ok θ X s (entries.map Entry.key) k ∧ Combines ok θ X s (entries.map Entry.value) v
  | _ => True

theorem TypedByElements.mono (hXY : X ⊆ Y) (ha : Advances s s') (h : TypedByElements ok θ X s e) :
    TypedByElements ok θ Y s' e := by
  have hmono {es : List Expr} {u : Ty} (h : Combines ok θ X s es u) : Combines ok θ Y s' es u := by
    obtain ⟨t, hj, hu⟩ := h
    exact ⟨t, hj.mono hXY ha, hu⟩
  cases e with
  | list id elems =>
    obtain ⟨u, hu, h⟩ := h
    exact ⟨u, ha.types _ _ hu, hmono h⟩
  | map id entries =>
    obtain ⟨k, v, hkv, hk, hv⟩ := h
    exact ⟨k, v, ha.types _ _ hkv, hmono hk, hmono hv⟩
  | _ => trivial

theorem Completes.typedByElements (hok : ∀ p s, ok p s → (θ p).Replaces (s.inst θ))
    (h : Completes env s e e' s') (hwf : s.bindings.Wf) :
    TypedByElements ok θ (runExpr env s e).points s' e := by
  have hrun := runExpr.eq_def env s e
  cases h.rule with
  | @list s₁ s₂ s' id elems elems' t u helems hf hs =>
    have hquiet := (quiet_orFresh ..).of_eq hf
    exact ⟨u, (grows_setType hs).2.1, combines_orFresh (helems.joins hok hwf) hf
      (subset_runExpr hrun (Run.subset_bind (.refl _)))
      (hquiet.advances.trans (advances_setType hs))⟩
  | @map s₁ s₂ s₃ s' id entries entries' k v t u hentries hk hv hs =>
    have hquiet := (quiet_orFresh ..).of_eq hk
    have hquiet' := (quiet_orFresh ..).of_eq hv
    have ha := hquiet'.advances.trans (advances_setType hs)
    have hX := subset_runExpr hrun (Run.subset_bind (.refl _))
    obtain ⟨hkeys, hvalues⟩ := hentries.joins hok hwf
    exact ⟨t, u, (grows_setType hs).2.1, combines_orFresh hkeys hk hX (hquiet.advances.trans ha),
      combines_orFresh (hvalues.mono (.refl _) hquiet.advances) hv hX ha⟩
  | _ => trivial

def Action.isJoin : Action → Bool
  | .join _ _ _ => true
  | _ => false

end Checker

open Checker

namespace State

variable {s : State} {X : List Point} {es : List Expr}

def finalTypeAt (s : State) (id : Int) : Ty := s.bindings.subst true (s.typeAt id)

/-- Assignability of final types is transitive from one node over another to one that comes after
both, if the middle one did not get the wider type of the last two. -/
def Chained (s : State) (es : List Expr) : Prop :=
  ∀ k : Fin es.length, ∀ x ∈ es.take k, ∀ y ∈ es.take k,
    (s.typeAt y.id).lessSpecific (s.typeAt (es.get k).id) = false →
    (Bindings.assign? {} (s.finalTypeAt x.id) (s.finalTypeAt y.id)).isSome →
    (Bindings.assign? {} (s.finalTypeAt y.id) (s.finalTypeAt (es.get k).id)).isSome →
    (Bindings.assign? {} (s.finalTypeAt x.id) (s.finalTypeAt (es.get k).id)).isSome

/-- The final bindings keep what parameters are to be bound to where a node is joined to those
before it. -/
def Steady (s : State) (X : List Point) (es : List Expr) : Prop :=
  ∀ p ∈ X, ∀ x ∈ es.tail, ∀ t u m, p.action = .join x.id t u →
    p.state.bindings.assign? t u = some m →
    p.state.bindings.Assigns s.bindings.Keeps [t] [u] m

structure Joinable (s : State) (X : List Point) (es : List Expr) : Prop where
  chained : s.Chained es
  kept : (∀ e ∈ es, (s.typeAt e.id).params = []) ∨ s.Steady X es

theorem Chained.chained (h : s.Chained es) (hm : s.bindings.Wf) :
    Ty.Chained (s.bindings.solution true) (es.map (s.typeAt ·.id)) := by
  rintro before t after hsplit _ hx _ hu hut hxu
  obtain ⟨xs, zs, rfl, rfl, hzs⟩ := List.map_eq_append_iff.1 hsplit
  obtain ⟨z, zs, rfl, rfl, rfl⟩ := List.map_eq_cons_iff.1 hzs
  obtain ⟨x, hxs, rfl⟩ := List.mem_map.1 hx
  obtain ⟨y, hys, rfl⟩ := List.mem_map.1 hu
  have hlast := h ⟨xs.length, by simp⟩ x (by simpa using hxs) y (by simpa using hys)
  simp only [finalTypeAt, Bindings.isSome_assign?_subst hm, List.get_eq_getElem] at hlast
  simpa using hlast (by simpa using hut) hxu

theorem Joinable.joinsBy (h : s.Joinable X es) :
    JoinsBy s.bindings.Keeps X es.tail (es.map (s.typeAt ·.id)) := by
  intro p hp x hx t ht u hu m hm haction hassign
  rcases h.kept with hclosed | hsteady
  · have hparams : ∀ t ∈ es.map (s.typeAt ·.id), t.params = [] := by
      simpa using hclosed
    exact hm.keys.assigns_of_closed (hparams t ht) (hparams u hu) hassign
  · exact hsteady p hp x hx t u m haction hassign

theorem assignable_of_combines {u : Ty} {x : Expr} (hm : s.bindings.Wf)
    (hu : Combines s.bindings.Keeps (s.bindings.solution true) X s es u)
    (h : s.bindings.subst true u ≠ .dyn → s.Joinable X es) (hr : s.reports = []) (hx : x ∈ es) :
    ∃ t, (s.types.mapValues (s.bindings.subst true)).find? x.id = some t ∧
      (Bindings.assign? {} t (s.bindings.subst true u)).isSome = true := by
  obtain ⟨joined, hj, hjoined⟩ := hu
  obtain ⟨t, ht⟩ := Option.isSome_iff_exists.1 (hj.typed x hx)
  refine ⟨s.bindings.subst true t, by rw [Table.find?_mapValues, ht, Option.map_some], ?_⟩
  rw [Bindings.isSome_assign?_subst hm]
  by_cases hdyn : s.bindings.subst true u = .dyn
  · rw [← hm.keys.subst_eq_inst true u, hdyn]
    exact Ty.fits_dyn _
  have hxs : s.typeAt x.id ∈ es.map (s.typeAt ·.id) := List.mem_map_of_mem hx
  have hcovers := hj.covers hr [] rfl (h hdyn).joinsBy ((h hdyn).chained.chained hm)
  cases joined with
  | none => exact absurd hcovers (List.ne_nil_of_mem hxs)
  | some w =>
    obtain rfl := hjoined w rfl
    rw [typeAt, ht, Option.getD_some] at hxs
    exact hcovers.fits hxs

end State

/-- In a check without diagnostics the elements of a literal are assignable to the type of its
elements, as long as assignability is transitive where a later element takes the place of an earlier
one, and the final bindings keep those that the joins make. -/
theorem check_elements_assignable {env : Env} {source : Source} {e e' : Expr} {s : State}
    {r : CheckResult} (hs : checkExpr env {} e = .ok (e', s)) (hcheck : check env source e = .ok r)
    (hdiag : r.diagnostics = []) :
    (∀ id elems t, .list id elems ∈ e.nodes → r.types.find? id = some (.list t) →
      (t ≠ .dyn → s.Joinable (runExpr env {} e).points elems) → ∀ x ∈ elems,
        ∃ u, r.types.find? x.id = some u ∧ (Bindings.assign? {} u t).isSome = true) ∧
    ∀ id entries k v, .map id entries ∈ e.nodes → r.types.find? id = some (.map k v) →
      ((k ≠ .dyn → s.Joinable (runExpr env {} e).points (entries.map Entry.key)) →
        ∀ x ∈ entries.map Entry.key,
          ∃ u, r.types.find? x.id = some u ∧ (Bindings.assign? {} u k).isSome = true) ∧
      ((v ≠ .dyn → s.Joinable (runExpr env {} e).points (entries.map Entry.value)) →
        ∀ x ∈ entries.map Entry.value,
          ∃ u, r.types.find? x.id = some u ∧ (Bindings.assign? {} u v).isSome = true) := by
  obtain ⟨e'', s'', hs'', rfl⟩ := check_eq_ok_iff.1 hcheck
  obtain ⟨rfl, rfl⟩ : e' = e'' ∧ s = s'' := by
    rw [Completes, hs] at hs''
    cases hs''
    exact ⟨rfl, rfl⟩
  have hr : s.reports = [] := List.map_eq_nil_iff.1 hdiag
  have hm : s.bindings.Wf := Completes.advances hs |>.wf Bindings.Wf.empty
  have hok : ∀ p t, s.bindings.Keeps p t →
      (s.bindings.solution true p).Replaces (t.inst (s.bindings.solution true)) :=
    fun p t h => h.replaces hm.keys
  have hall := Completes.forall_nodes
    (P := TypedByElements s.bindings.Keeps (s.bindings.solution true)) hs Bindings.Wf.empty
    (fun _ _ _ _ _ hXY ha h => h.mono hXY ha) (fun _ s n hn => by cases n <;> trivial)
    (fun _ _ _ _ _ h hwf => h.typedByElements hok hwf)
  constructor
  · intro id elems t hn ht hjoinable x hx
    obtain ⟨u, hu, hcombines⟩ := hall _ hn
    rw [Table.find?_mapValues, hu, Option.map_some, hm.keys.subst_eq_inst] at ht
    cases ht
    rw [← hm.keys.subst_eq_inst] at hjoinable ⊢
    exact State.assignable_of_combines hm hcombines hjoinable hr hx
  · intro id entries k v hn hkv
    obtain ⟨k₀, v₀, hu, hkeys, hvalues⟩ := hall _ hn
    rw [Table.find?_mapValues, hu, Option.map_some, hm.keys.subst_eq_inst] at hkv
    cases hkv
    rw [← hm.keys.subst_eq_inst, ← hm.keys.subst_eq_inst]
    exact ⟨fun hjoinable x hx => State.assignable_of_combines hm hkeys hjoinable hr hx,
      fun hjoinable x hx => State.assignable_of_combines hm hvalues hjoinable hr hx⟩

theorem check_elements_assignable_of_wrappers_and_nested :
    let env : Env :=
      { container := {}, provider := ⟨fun _ => none, fun _ _ => none, fun _ => none⟩,
        scopes := Scopes.addIdent {} { name := "w", ty := .wrapper .int } }
    let elems : List Expr := [.ident 1 "w", .const 2 (.int 1), .ident 3 "w"]
    let entries : List Entry := [.mk 8 (.const 7 (.string "a")) (.list 4 elems),
      .mk 10 (.const 9 (.string "b")) (.list 6 [.const 5 (.int 2)])]
    let lists : List Expr := [.list 1 [], .list 3 [.const 2 (.int 1)]]
    (∃ e' s r, checkExpr env {} (.map 11 entries) = .ok (e', s) ∧
      check env {} (.map 11 entries) = .ok r ∧ r.diagnostics = [] ∧
      r.types.find? 4 = some (.list (.wrapper .int)) ∧
      s.Joinable (runExpr env {} (.map 11 entries)).points elems ∧
      (∀ x ∈ elems, ∃ u, r.types.find? x.id = some u ∧
        (Bindings.assign? {} u (.wrapper .int)).isSome = true) ∧
      r.types.find? 11 = some (.map .string (.list .int)) ∧
      s.Joinable (runExpr env {} (.map 11 entries)).points (entries.map Entry.value) ∧
      ∀ x ∈ entries.map Entry.value, ∃ u, r.types.find? x.id = some u ∧
        (Bindings.assign? {} u (.list .int)).isSome = true) ∧
    ∃ e' s r, checkExpr env {} (.list 4 lists) = .ok (e', s) ∧
      check env {} (.list 4 lists) = .ok r ∧ r.diagnostics = [] ∧
      r.types.find? 4 = some (.list (.list .int)) ∧
      s.Joinable (runExpr env {} (.list 4 lists)).points lists ∧
      ∀ x ∈ lists, ∃ u, r.types.find? x.id = some u ∧
        (Bindings.assign? {} u (.list .int)).isSome = true := by
  intro env elems entries lists
  constructor
  · obtain ⟨e', s, r, hs, hcheck, hdiag, h₄, h₁₁, hc, hc'⟩ :
        ∃ e' s r, checkExpr env {} (.map 11 entries) = .ok (e', s) ∧
          check env {} (.map 11 entries) = .ok r ∧ r.diagnostics = [] ∧
          r.types.find? 4 = some (.list (.wrapper .int)) ∧
          r.types.find? 11 = some (.map .string (.list .int)) ∧
          (s.Chained elems ∧ ∀ e ∈ elems, (s.typeAt e.id).params = []) ∧
          s.Chained (entries.map Entry.value) ∧
          ∀ e ∈ entries.map Entry.value, (s.typeAt e.id).params = [] := by
      unfold State.Chained
      exact ⟨_, _, _, rfl, rfl, rfl, rfl, rfl, by decide +kernel, by decide +kernel⟩
    obtain ⟨hlist, hmap⟩ := check_elements_assignable hs hcheck hdiag
    have hj : s.Joinable (runExpr env {} (.map 11 entries)).points elems := ⟨hc.1, .inl hc.2⟩
    have hj' : s.Joinable (runExpr env {} (.map 11 entries)).points (entries.map Entry.value) :=
      ⟨hc'.1, .inl hc'.2⟩
    refine ⟨e', s, r, hs, hcheck, hdiag, h₄, hj, ?_, h₁₁, hj', ?_⟩
    · exact hlist 4 elems (.wrapper .int) (by simp [entries, Expr.nodes, Expr.nodesEntries]) h₄
        fun _ => hj
    · exact (hmap 11 entries .string (.list .int) (by simp [Expr.nodes]) h₁₁).2 fun _ => hj'
  · obtain ⟨e', s, r, hs, hcheck, hdiag, h₄, hc, hp⟩ :
        ∃ e' s r, checkExpr env {} (.list 4 lists) = .ok (e', s) ∧
          check env {} (.list 4 lists) = .ok r ∧ r.diagnostics = [] ∧
          r.types.find? 4 = some (.list (.list .int)) ∧ s.Chained lists ∧
          s.bindings.subst true (.param "_var0") = s.bindings.subst true .int := by
      unfold State.Chained
      exact ⟨_, _, _, rfl, rfl, rfl, rfl, by decide +kernel, rfl⟩
    obtain ⟨s₁, hX, hs₁⟩ : ∃ s₁ : State,
        (runExpr env {} (.list 4 lists)).points.filter (·.action.isJoin) =
          [⟨env, s₁, .join 3 (.list (.param "_var0")) (.list .int)⟩] ∧ s₁.bindings = {} :=
      ⟨_, rfl, rfl⟩
    have hj : s.Joinable (runExpr env {} (.list 4 lists)).points lists := by
      refine ⟨hc, .inr ?_⟩
      intro p hpX x hx t u m haction hassign
      have hjoin : p.action.isJoin = true := by rw [haction]; rfl
      obtain rfl := List.mem_singleton.1 (hX ▸ List.mem_filter.2 ⟨hpX, hjoin⟩)
      obtain ⟨-, rfl, rfl⟩ := Action.join.inj haction
      rw [hs₁] at hassign ⊢
      cases hassign
      refine .parts (by simp) (.list _ _) (.bindLeft (by simp) (.inl rfl) rfl rfl ?_)
      rw [Bindings.Keeps, hp]
      exact .refl _
    refine ⟨e', s, r, hs, hcheck, hdiag, h₄, hj, ?_⟩
    exact (check_elements_assignable hs hcheck hdiag).1 4 lists (.list .int)
      (by simp [Expr.nodes]) h₄ fun _ => hj

/-- Assignability is not transitive by way of a wrapper, so `null` does not fit the type of the
list; and where an element has a parameter, a later join can bind it to a type that others do not
fit. -/
theorem check_elements_unassignable :
    let env (p : LiteralPolicy) : Env :=
      { container := {}, provider := ⟨fun _ => none, fun _ _ => none, fun _ => none⟩,
        scopes := Scopes.addIdent {} { name := "w", ty := .wrapper .int },
        options := { policy := p } }
    let flat : Expr := .list 4 [.const 1 .null, .ident 2 "w", .const 3 (.int 1)]
    let nested : Expr := .list 11 [.list 4 [.list 1 [], .list 3 [.const 2 .null]],
      .list 7 [.list 6 [.ident 5 "w"]], .list 10 [.list 9 [.const 8 (.int 1)]]]
    (∀ p, ∃ r, check (env p) {} flat = .ok r ∧ r.diagnostics = [] ∧
      r.types.find? 4 = some (.list .int) ∧ r.types.find? 1 = some .null ∧
      Bindings.assign? {} .null .int = none) ∧
    ∀ p, ∃ r, check (env p) {} nested = .ok r ∧ r.diagnostics = [] ∧
      r.types.find? 4 = some (.list (.list .int)) ∧ r.types.find? 3 = some (.list .null) ∧
      Bindings.assign? {} (.list .null) (.list .int) = none := by
  refine ⟨fun p => ?_, fun p => ?_⟩
  · cases p <;> exact ⟨_, rfl, rfl, rfl, rfl, rfl⟩
  · cases p <;> exact ⟨_, rfl, rfl, rfl, rfl, rfl⟩

end ExprTyping
