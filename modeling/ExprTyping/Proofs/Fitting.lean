import ExprTyping.Proofs.Renaming
import Mathlib.Data.List.Forall2

/-!
# Types without parameters

Where no parameter occurs, assignability is a plain relation between two types (`Ty.fits`), and the
bindings play no part in it (`Bindings.Wf.assign_eq_accept`). It is reflexive, and it is kept when
parts of either type are made `dyn` (`Ty.fits_of_relaxes`), so that a type also fits whatever is
wider than what it fits. It is not transitive: `null` fits a wrapper and a wrapper fits its
primitive, and everything fits a wildcard, which fits everything.
-/

namespace ExprTyping

namespace Ty

variable {t u v w : Ty}

mutual
/-- Whether a type may stand where another one is expected, if neither has parameters. -/
def fits : Ty → Ty → Bool
  | dyn, _ | error, _ | _, dyn | _, error => true
  | null, u => u.isNullable
  | prim p, prim q | prim p, wrapper q | wrapper p, prim q | wrapper p, wrapper q => p == q
  | abstract a ts, abstract b us => a == b && fitsAll ts us
  | function r ts, function s us => fitsAll ts us && fits r s
  | list t, list u => fits t u
  | map k v, map l w => fits k l && fits v w
  | type, type | type, typeOf _ | typeOf _, type | typeOf _, typeOf _ => true
  | t, u => t == u

def fitsAll : List Ty → List Ty → Bool
  | [], [] => true
  | t :: ts, u :: us => fits t u && fitsAll ts us
  | _, _ => false
end

theorem fitsAll_iff {ts us : List Ty} :
    fitsAll ts us = true ↔ List.Forall₂ (fun t u => t.fits u = true) ts us := by
  induction ts generalizing us with
  | nil => cases us <;> simp [fitsAll]
  | cons t ts ih => cases us <;> simp [fitsAll, ih]

theorem lessSpecificAll_iff {ts us : List Ty} :
    lessSpecificAll ts us = true ↔ List.Forall₂ (fun t u => t.lessSpecific u = true) ts us := by
  induction ts generalizing us with
  | nil => cases us <;> simp [lessSpecificAll]
  | cons t ts ih => cases us <;> simp [lessSpecificAll, ih]

def base : Ty → Ty
  | wrapper p => prim p
  | typeOf _ => type
  | t => t

namespace SameHead

theorem forall₂_concat {R : Ty → Ty → Prop} {r s : Ty} {ts us : List Ty} :
    List.Forall₂ R (ts ++ [r]) (us ++ [s]) ↔ List.Forall₂ R ts us ∧ R r s := by
  induction ts generalizing us with
  | nil => cases us <;> simp
  | cons t ts ih => cases us <;> simp [ih, and_assoc]

theorem fits_iff (h : SameHead t u) :
    t.fits u = true ↔ List.Forall₂ (fun t u => t.fits u = true) t.children u.children := by
  cases h <;> simp [fits, fitsAll_iff, children, forall₂_concat]

theorem lessSpecific_iff (h : SameHead t u) : t.lessSpecific u = true ↔
    List.Forall₂ (fun t u => t.lessSpecific u = true) t.children u.children := by
  cases h <;> simp [lessSpecific, lessSpecificAll_iff, children, forall₂_concat]

end SameHead

inductive Wider : Ty → Ty → Prop
  | dyn (u : Ty) : Wider .dyn u
  | param (n : String) (u : Ty) : Wider (.param n) u
  | same (t : Ty) : Wider t t
  | parts {t u : Ty} : SameHead t u →
      List.Forall₂ (fun t u => t.lessSpecific u = true) t.children u.children → Wider t u

theorem wider_of_lessSpecific (h : t.lessSpecific u = true) : Wider t u := by
  by_cases hs : SameHead t u
  · exact .parts hs (hs.lessSpecific_iff.1 h)
  by_cases heq : t = u
  · exact heq ▸ .same t
  cases t with
  | dyn => exact .dyn u
  | param n => exact .param n u
  | _ => cases u <;> simp_all [lessSpecific]

/-- How one type can fit another one. -/
inductive Fits : Ty → Ty → Prop
  | wildcard {t u : Ty} : t.isWildcard = true ∨ u.isWildcard = true → Fits t u
  | null {u : Ty} : u.isNullable = true → Fits .null u
  | base {t u : Ty} : t.base = u.base → Fits t u
  | parts {t u : Ty} : SameHead t u →
      List.Forall₂ (fun t u => t.fits u = true) t.children u.children → Fits t u

theorem fits_cases (h : t.fits u = true) : Fits t u := by
  by_cases hs : SameHead t u
  · exact .parts hs (hs.fits_iff.1 h)
  by_cases hw : t.isWildcard = true ∨ u.isWildcard = true
  · exact .wildcard hw
  by_cases hb : t.base = u.base
  · exact .base hb
  cases t with
  | null => exact .null (by cases u <;> simp_all [fits, isWildcard])
  | _ => cases u <;> simp_all [fits, isWildcard, base]

theorem fits_refl (t : Ty) : t.fits t = true := by
  induction t with
  | list t ih => simpa [fits] using ih
  | map k v ihk ihv => simp [fits, ihk, ihv]
  | abstract n ts ih => simpa [fits, fitsAll_iff, List.forall₂_same] using ih
  | function r ts ihr ih => simpa [fits, fitsAll_iff, List.forall₂_same, ihr] using ih
  | _ => simp [fits, isNullable, kind]

theorem fits_wrapper (p : Prim) (u : Ty) : (wrapper p).fits u = (prim p).fits u := by
  cases u <;> rfl

theorem fits_eq_admits (hne : t ≠ u) (hs : ¬ SameHead t u) (hw : ∀ p, t ≠ .wrapper p) :
    t.fits u = t.admits u := by
  cases t with
  | wrapper p => exact absurd rfl (hw p)
  | null => cases u <;> rfl
  | _ => cases u <;> simp_all [fits, admits, isWildcard]

theorem isWildcard_inst (h : u.isWildcard = true) (σ : String → Ty) :
    (u.inst σ).isWildcard = true := by
  cases u <;> cases h <;> rfl

theorem isNullable_inst (h : u.isNullable = true) (σ : String → Ty) :
    (u.inst σ).isNullable = true := by
  cases u <;> cases h <;> rfl

theorem fits_of_base_eq (h : t.base = u.base) : t.fits u = true := by
  by_cases hne : t = u
  · exact hne ▸ t.fits_refl
  · cases t <;> cases u <;> simp_all [base, fits]

theorem Fits.fits (h : Fits t u) : t.fits u = true := by
  cases h with
  | wildcard hw =>
    rcases hw with hw | hw
    · cases t <;> cases hw <;> rfl
    · cases u <;> cases hw <;> cases t <;> rfl
  | null hn => cases u <;> cases hn <;> rfl
  | base hb => exact fits_of_base_eq hb
  | parts hs hp => exact hs.fits_iff.2 hp

theorem lessSpecific_refl (t : Ty) : t.lessSpecific t = true := by
  induction t with
  | list t ih => simpa [lessSpecific] using ih
  | map k v ihk ihv => simp [lessSpecific, ihk, ihv]
  | abstract n ts ih => simpa [lessSpecific, lessSpecificAll_iff, List.forall₂_same] using ih
  | function r ts ihr ih =>
    simpa [lessSpecific, lessSpecificAll_iff, List.forall₂_same, ihr] using ih
  | _ => simp [lessSpecific]

theorem params_of_mem_children {c : Ty} (h : t.params = []) (hc : c ∈ t.children) :
    c.params = [] := by
  rw [List.eq_nil_iff_forall_not_mem] at h ⊢
  intro n hn
  exact h n (mem_params_of_mem_children hc hn)

theorem childInduction {motive : Ty → Prop}
    (h : ∀ t, (∀ c ∈ t.children, motive c) → motive t) (t : Ty) : motive t :=
  (measure size).wf.induction t fun t ih => h t fun c hc => ih c (size_lt_of_mem_children hc)

theorem forall₂_comp {R S T : Ty → Ty → Prop} {ts us vs : List Ty}
    (h : ∀ t ∈ ts, ∀ u ∈ us, ∀ v ∈ vs, R t u → S u v → T t v) (hR : List.Forall₂ R ts us)
    (hS : List.Forall₂ S us vs) : List.Forall₂ T ts vs := by
  induction hR generalizing vs with
  | nil =>
    cases hS
    exact .nil
  | cons hr _ ih =>
    cases hS with
    | cons hs hS =>
      simp only [List.forall_mem_cons] at h
      exact .cons (h.1.1.1 hr hs) (ih (fun t ht u hu v hv => h.2 t ht |>.2 u hu |>.2 v hv) hS)

theorem forall₂_imp {R S : Ty → Ty → Prop} {ts us : List Ty}
    (h : ∀ t ∈ ts, ∀ u ∈ us, R t u → S t u) (hR : List.Forall₂ R ts us) :
    List.Forall₂ S ts us := by
  refine forall₂_comp (S := Eq) ?_ hR (List.forall₂_refl us)
  intro t ht u hu v _ hr heq
  exact heq ▸ h t ht u hu hr

theorem lessSpecific_trans (h : t.lessSpecific u = true) (h' : u.lessSpecific v = true) :
    t.lessSpecific v = true := by
  induction t using childInduction generalizing u v with
  | h t ih =>
    cases wider_of_lessSpecific h with
    | dyn => simp [lessSpecific]
    | param => simp [lessSpecific]
    | same => exact h'
    | parts hs hp =>
      cases wider_of_lessSpecific h' with
      | dyn => cases hs
      | param => cases hs
      | same => exact h
      | parts hs' hp' =>
        rw [(hs.trans hs').lessSpecific_iff]
        refine forall₂_comp ?_ hp hp'
        intro c hc d _ e _
        exact ih c hc

theorem eq_of_base_eq (h : t.base = u.base) (hs : SameHead u u) : t = u := by
  cases hs <;> cases t <;> simp_all [base]

/-- The first type is the second one with some of its parts replaced by `dyn`. -/
inductive Relaxes : Ty → Ty → Prop
  | dyn (t : Ty) : Relaxes .dyn t
  | same (t : Ty) : Relaxes t t
  | typeOf {t u : Ty} : Relaxes t u → Relaxes (.typeOf t) (.typeOf u)
  | parts {t u : Ty} : SameHead t u → List.Forall₂ Relaxes t.children u.children → Relaxes t u

namespace Relaxes

theorem isWildcard (h : Relaxes v t) (ht : t.isWildcard = true) : v.isWildcard = true := by
  cases h with
  | dyn => rfl
  | same => exact ht
  | typeOf => cases ht
  | parts hs => cases hs <;> cases ht

theorem isNullable (h : Relaxes v t) (ht : t.isNullable = true) :
    v = .dyn ∨ v.isNullable = true := by
  cases h with
  | dyn => exact .inl rfl
  | same => exact .inr ht
  | typeOf => cases ht
  | parts hs =>
    right
    cases hs <;> simp_all [Ty.isNullable, kind]

theorem children (h : Relaxes v t) (ht : SameHead t t) :
    v = .dyn ∨ SameHead v t ∧ List.Forall₂ Relaxes v.children t.children := by
  cases h with
  | dyn => exact .inl rfl
  | same => exact .inr ⟨ht, List.forall₂_same.2 fun c _ => .same c⟩
  | typeOf => cases ht
  | parts hs hp => exact .inr ⟨hs, hp⟩

theorem base (h : Relaxes v t) (ht : ¬ SameHead t t) : v = .dyn ∨ v.base = t.base := by
  cases h with
  | dyn => exact .inl rfl
  | same | typeOf => exact .inr rfl
  | parts hs => exact absurd (hs.symm.trans hs) ht

theorem of_lessSpecific (hv : v.params = []) (h : v.lessSpecific t = true) : Relaxes v t := by
  induction v using childInduction generalizing t with
  | h v ih =>
    cases wider_of_lessSpecific h with
    | dyn => exact .dyn t
    | param n => cases hv
    | same => exact .same v
    | parts hs hp =>
      refine .parts hs (forall₂_imp ?_ hp)
      intro c hc d _ hcd
      exact ih c hc (params_of_mem_children hv hc) hcd

end Relaxes

theorem fits_of_relaxes (h : t.fits u = true) (ht : Relaxes v t) (hu : Relaxes w u) :
    v.fits w = true := by
  have hleft : ∀ w, Ty.dyn.fits w = true := fun w => Fits.fits (.wildcard (.inl rfl))
  have hright : ∀ v : Ty, v.fits .dyn = true := fun v => Fits.fits (.wildcard (.inr rfl))
  induction t using childInduction generalizing u v w with
  | h t ih =>
    by_cases hs : SameHead t u
    · rcases ht.children (hs.trans hs.symm) with rfl | ⟨hvt, hvs⟩
      · exact hleft w
      rcases hu.children (hs.symm.trans hs) with rfl | ⟨hwu, hws⟩
      · exact hright v
      rw [((hvt.trans hs).trans hwu.symm).fits_iff]
      have hvu : List.Forall₂ (fun c d => ∀ e, Relaxes e d → c.fits e = true)
          v.children u.children := by
        refine forall₂_comp ?_ hvs (hs.fits_iff.1 h)
        intro c _ d hd e _ hcd hde x hx
        exact ih d hd hde hcd hx
      exact forall₂_comp (fun c _ d _ e _ hcd hed => hcd e hed) hvu (.flip hws)
    · cases fits_cases h with
      | wildcard hw => exact Fits.fits (.wildcard (hw.imp ht.isWildcard hu.isWildcard))
      | null hn =>
        rcases hu.isNullable hn with rfl | hw
        · exact hright v
        cases ht with
        | dyn => exact hleft w
        | same => exact Fits.fits (.null hw)
        | parts hn => cases hn
      | base hb =>
        have hts : ¬ SameHead t t := fun hts => hs (eq_of_base_eq hb.symm hts ▸ hts)
        have hus : ¬ SameHead u u := fun hus => hs (eq_of_base_eq hb hus ▸ hus)
        rcases ht.base hts with rfl | hv
        · exact hleft w
        rcases hu.base hus with rfl | hw
        · exact hright v
        exact fits_of_base_eq (hv.trans (hb.trans hw.symm))
      | parts hs' => exact absurd hs' hs

theorem fits_of_lessSpecific (hu : u.params = []) (h : u.lessSpecific t = true) :
    t.fits u = true :=
  fits_of_relaxes t.fits_refl (.same t) (.of_lessSpecific hu h)

theorem fits_of_wider (hv : v.params = []) (h : t.fits u = true) (hvu : v.lessSpecific u = true) :
    t.fits v = true :=
  fits_of_relaxes h (.same t) (.of_lessSpecific hv hvu)

end Ty

namespace Bindings

variable {m : Bindings} {t u : Ty} {ts us : List Ty}

theorem pairwise_eq_accept {rec : Bindings → Ty → Ty → Outcome}
    (h : ∀ t ∈ ts, ∀ u ∈ us, rec m t u = accept m (t.fits u)) :
    pairwise rec m ts us = accept m (Ty.fitsAll ts us) := by
  induction ts generalizing us with
  | nil => cases us <;> rfl
  | cons t ts ih =>
    cases us with
    | nil => rfl
    | cons u us =>
      simp only [List.forall_mem_cons] at h
      rw [pairwise, h.1.1, Ty.fitsAll]
      cases t.fits u with
      | true => exact ih fun t ht => (h.2 t ht).2
      | false => rfl

theorem Wf.assign_eq_stepShape (hm : m.Wf) (hne : t ≠ u) (ht : t.isParam = false)
    (hu : u.isParam = false) : m.assign t u = stepShape assign m t u := by
  rw [hm.assign_eq_step, step, if_neg hne, slot_of_isParam_eq_false hu, stepLeft,
    slot_of_isParam_eq_false ht]

theorem Wf.assign_eq_accept (hm : m.Wf) (ht : t.params = []) (hu : u.params = []) :
    m.assign t u = accept m (t.fits u) := by
  induction t using Ty.childInduction generalizing u with
  | h t ih =>
    by_cases hne : t = u
    · subst hne
      rw [hm.assign_eq_step, step, if_pos rfl, Ty.fits_refl]
      rfl
    rw [hm.assign_eq_stepShape hne (Ty.isParam_eq_false_of_closed ht)
      (Ty.isParam_eq_false_of_closed hu)]
    cases Ty.shapePair t u with
    | parts hs =>
      have hfits : t.fits u = Ty.fitsAll t.children u.children := by
        rw [Bool.eq_iff_iff, hs.fits_iff, Ty.fitsAll_iff]
      rw [stepShape_of_sameHead _ _ hs, hfits]
      apply pairwise_eq_accept
      intro c hc d hd
      exact ih c hc (Ty.params_of_mem_children ht hc) (Ty.params_of_mem_children hu hd)
    | wrapper p u =>
      rw [stepShape_wrapper, Ty.fits_wrapper, ih (.prim p) (by simp [Ty.children]) rfl hu]
      split
      · next hw =>
        rw [Ty.Fits.fits (.wildcard (.inr hw))]
        rfl
      · rfl
    | other hs hw => rw [stepShape_eq_accept _ _ hs hw, Ty.fits_eq_admits hne hs hw]

theorem Wf.isSome_assign? (hm : m.Wf) (ht : t.params = []) (hu : u.params = []) :
    (m.assign? t u).isSome = t.fits u := by
  rw [Bindings.assign?, hm.assign_eq_accept ht hu]
  cases t.fits u <;> rfl

end Bindings

end ExprTyping
