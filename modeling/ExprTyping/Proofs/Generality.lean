import ExprTyping.Proofs.Fitting

namespace ExprTyping

namespace Ty

variable {t u v : Ty}

theorem eq_dyn_of_lessSpecific (ht : t.params = []) (h : t.lessSpecific .dyn = true) :
    t = .dyn := by
  cases wider_of_lessSpecific h with
  | dyn | same => rfl
  | param n => cases ht
  | parts hs => cases hs

theorem lessSpecific_antisymm (ht : t.params = []) (hu : u.params = [])
    (h : t.lessSpecific u = true) (h' : u.lessSpecific t = true) : t = u := by
  induction t using childInduction generalizing u with
  | h t ih =>
    cases wider_of_lessSpecific h with
    | dyn => exact (eq_dyn_of_lessSpecific hu h').symm
    | param n => cases ht
    | same => rfl
    | parts hs hp =>
      have hback := hs.symm.lessSpecific_iff.1 h'
      refine hs.eq_of_children_eq ?_
      rw [← List.forall₂_eq_eq_eq]
      refine forall₂_imp ?_ (.mp (fun _ _ => And.intro) hp (.flip hback))
      rintro c hc d hd ⟨hcd, hdc⟩
      exact ih c hc (params_of_mem_children ht hc) (params_of_mem_children hu hd) hcd hdc

theorem fits_mostGeneral (ht : t.params = []) (h : t.fits u = true) :
    t.fits (t.mostGeneral u) = true ∧ u.fits (t.mostGeneral u) = true := by
  rw [mostGeneral]
  split
  · next hwide => exact ⟨t.fits_refl, fits_of_lessSpecific ht hwide⟩
  · exact ⟨h, u.fits_refl⟩

theorem Relaxes.closed (h : Relaxes v t) (ht : t.params = []) : v.params = [] := by
  induction v using childInduction generalizing t with
  | h v ih =>
    cases h with
    | dyn => rfl
    | same => exact ht
    | @typeOf v t h => exact ih v (by simp [Ty.children]) h ht
    | parts hs hp =>
      have hclosed :
          List.Forall₂ (fun c d => c.params = [] ∧ Relaxes c d) v.children t.children := by
        refine forall₂_imp ?_ hp
        intro c hc d hd hcd
        exact ⟨ih c hc hcd (params_of_mem_children ht hd), hcd⟩
      have hall := ((List.forall₂_and_left _ _).1 hclosed).1
      rw [List.eq_nil_iff_forall_not_mem]
      intro n hn
      rcases mem_params_iff.1 hn with rfl | ⟨c, hc, hn⟩
      · cases hs
      · simp [hall c hc] at hn

end Ty

open Bindings

/-- The generality order is reflexive and transitive, antisymmetric where there are no parameters,
and has `dyn` below every type. Of two types without parameters of which the first is assignable to
the second, both are assignable to the more general one. -/
theorem generality_order :
    (∀ t : Ty, t.lessSpecific t = true) ∧
    (∀ t u v : Ty, t.lessSpecific u = true → u.lessSpecific v = true → t.lessSpecific v = true) ∧
    (∀ t u : Ty, t.params = [] → u.params = [] → t.lessSpecific u = true →
      u.lessSpecific t = true → t = u) ∧
    (∀ t : Ty, Ty.dyn.lessSpecific t = true) ∧
    ∀ t u : Ty, t.params = [] → u.params = [] → (assign? {} t u).isSome →
      (assign? {} t (t.mostGeneral u)).isSome ∧ (assign? {} u (t.mostGeneral u)).isSome := by
  refine ⟨Ty.lessSpecific_refl, fun _ _ _ => Ty.lessSpecific_trans,
    fun _ _ => Ty.lessSpecific_antisymm, fun t => by simp [Ty.lessSpecific], ?_⟩
  intro t u ht hu h
  have hgeneral : (t.mostGeneral u).params = [] :=
    mostGeneral_of_both (A := fun v => v.params = []) ht hu
  rw [Wf.empty.isSome_assign? ht hu] at h
  rw [Wf.empty.isSome_assign? ht hgeneral, Wf.empty.isSome_assign? hu hgeneral]
  exact Ty.fits_mostGeneral ht h

theorem generality_order_of_incomparable :
    let t : Ty := .map .null (.typeOf (.list .int))
    let u : Ty := .map (.wrapper .int) (.typeOf .string)
    (assign? {} t u).isSome ∧ t.mostGeneral u = u ∧ (assign? {} t (t.mostGeneral u)).isSome ∧
      (assign? {} u (t.mostGeneral u)).isSome := by
  intro t u
  have h := generality_order.2.2.2.2 t u (by decide) (by decide) (by decide)
  exact ⟨by decide, by decide, h⟩

namespace Bindings

/-- Assignability between types without parameters is monotone in dynamic typing: it is kept when
either type is made less specific, and when any parts of either type, be they within type values,
are replaced by `dyn`. -/
theorem assign?_relaxed {t u : Ty} (ht : t.params = []) (hu : u.params = [])
    (h : (assign? {} t u).isSome) :
    (∀ v w : Ty, v.params = [] → w.params = [] → v.lessSpecific t = true →
      w.lessSpecific u = true → (assign? {} v w).isSome) ∧
    ∀ v w : Ty, v.Relaxes t → w.Relaxes u → (assign? {} v w).isSome := by
  have hrelaxed : ∀ v w : Ty, v.Relaxes t → w.Relaxes u → (assign? {} v w).isSome := by
    intro v w hv hw
    rw [Wf.empty.isSome_assign? ht hu] at h
    rw [Wf.empty.isSome_assign? (hv.closed ht) (hw.closed hu)]
    exact Ty.fits_of_relaxes h hv hw
  refine ⟨fun v w hv hw hvt hwu => ?_, hrelaxed⟩
  exact hrelaxed v w (.of_lessSpecific hv hvt) (.of_lessSpecific hw hwu)

theorem assign?_relaxed_of_function :
    let t : Ty := .function (.list .int) [.null, .typeOf (.list .int)]
    let u : Ty := .function (.list (.wrapper .int)) [.message "m", .typeOf .string]
    (assign? {} t u).isSome ∧
      (assign? {} (.function .dyn [.null, .typeOf (.list .int)])
        (.function (.list (.wrapper .int)) [.dyn, .typeOf .string])).isSome ∧
      (assign? {} (.function .dyn [.null, .typeOf (.list .dyn)]) u).isSome := by
  intro t u
  obtain ⟨hspecific, hrelaxed⟩ := assign?_relaxed (t := t) (u := u) (by decide) (by decide)
    (by decide)
  refine ⟨by decide, hspecific _ _ (by decide) (by decide) (by decide) (by decide),
    hrelaxed _ _ ?_ (.same u)⟩
  refine .parts (.function _ _ _ _) (.cons (.same _) (.cons ?_ (.cons (.dyn _) .nil)))
  exact .typeOf (.parts (.list _ _) (.cons (.dyn _) .nil))

end Bindings

end ExprTyping
