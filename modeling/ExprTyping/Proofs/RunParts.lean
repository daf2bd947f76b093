import ExprTyping.Proofs.CheckedTree

namespace ExprTyping

namespace State

variable {s s₁ s₂ : State} {id : Int}

structure Advances (s s' : State) : Prop extends Grows s s' where
  references : ∀ i q, s.references.find? i = some q → s'.references.find? i = some q

theorem Advances.refl (s : State) : Advances s s := ⟨.refl s, fun _ _ h => h⟩

theorem Advances.trans (h : Advances s s₁) (h' : Advances s₁ s₂) : Advances s s₂ :=
  ⟨h.toGrows.trans h'.toGrows, fun i q hq => h'.references i q (h.references i q hq)⟩

theorem Quiet.advances (h : Quiet s s₁) : Advances s s₁ :=
  ⟨h.toGrows, fun i q hq => by rwa [h.references_eq]⟩

theorem advances_setType {t : Ty} (h : s.setType id t = .ok s₁) : Advances s s₁ := by
  refine ⟨(grows_setType h).1, fun i q hq => ?_⟩
  rcases setType_cases h with ⟨-, rfl⟩ | ⟨-, rfl⟩ <;> exact hq

theorem advances_setReference {r : Reference} (h : s.setReference id r = .ok s₁) :
    Advances s s₁ := by
  refine ⟨(grows_setReference h).1, fun i q hq => ?_⟩
  rcases setReference_cases h with ⟨hnone, rfl⟩ | ⟨-, rfl⟩
  · rw [Table.find?_insert_of_ne, hq]
    rintro rfl
    simp [hnone] at hq
  · exact hq

end State

namespace Checker

open State

section Advances

variable {env : Env} {s s₁ s' : State} {id : Int} {e e' : Expr}

theorem advances_annotateIdent {d : IdentDecl} (h : annotateIdent s id d = .ok s') :
    Advances s s' := by
  simp only [annotateIdent, bind_eq_ok] at h
  obtain ⟨s₁, hs, h⟩ := h
  exact (advances_setType hs).trans (advances_setReference h)

theorem advances_annotateUndeclared {name : String}
    (h : annotateUndeclared env s id name = .ok s') : Advances s s' := by
  simp only [annotateUndeclared, bind_eq_ok, pure_eq_ok] at h
  obtain ⟨s₁, hs, rfl⟩ := h
  exact (advances_setType hs).trans (quiet_report s₁ id _).advances

theorem advances_resolveCall {f : FunctionDecl} {receiver : Bool} {args : List Int}
    (h : resolveCall env s id f receiver args = .ok s') : Advances s s' := by
  obtain ⟨s₁, hq, ⟨t, q, s₂, -, hs, hr⟩ | ⟨c, hs⟩⟩ := resolveCall_cases h
  · exact hq.advances.trans ((advances_setType hs).trans (advances_setReference hr))
  · exact hq.advances.trans ((quiet_report s₁ id c).advances.trans (advances_setType hs))

theorem advances_messageLiteral {name name' : String} {t : Ty}
    (h : messageLiteral env s id name = .ok (name', t, s')) : Advances s s' := by
  rw [messageLiteral] at h
  split at h
  · cases h
    exact (quiet_report s id _).advances
  · next d hd =>
    simp only [bind_eq_ok, pure_eq_ok] at h
    obtain ⟨s₁, hs, heq⟩ := h
    cases heq
    exact (advances_setReference hs).trans (quiet_messageType s₁ id d.ty).advances

theorem InTurn.advances {es es' : List Expr} (h : InTurn (fun s _ _ => Advances s) s es es' s') :
    Advances s s' := by
  induction h with
  | nil => exact .refl _
  | cons he _ ih => exact he.trans ih

theorem Joined.advances {es es' : List Expr} {t t' : Option Ty}
    (h : Joined (fun s _ _ => Advances s) env s t es es' t' s') : Advances s s' := by
  induction h with
  | nil => exact .refl _
  | @cons s s₁ s₂ s₃ e e' es es' t t' u he hj _ ih =>
    have hquiet := (quiet_join ..).of_eq hj
    exact he.trans (hquiet.advances.trans ih)

theorem JoinedEntries.advances {es es' : List Entry} {k v k' v' : Option Ty}
    (h : JoinedEntries (fun s _ _ => Advances s) env s k v es es' k' v' s') : Advances s s' := by
  induction h with
  | nil => exact .refl _
  | @cons s s₁ s₂ s₃ s₄ s₅ i x x' y y' es es' k v k' v' t u hx hk hy hv _ ih =>
    have hquiet := (quiet_join ..).of_eq hk
    have hquiet' := (quiet_join ..).of_eq hv
    exact hx.trans (hquiet.advances.trans (hy.trans (hquiet'.advances.trans ih)))

theorem Initialized.advances {fs fs' : List FieldInit} {message : Ty}
    (h : Initialized (fun s _ _ => Advances s) env message s fs fs' s') : Advances s s' := by
  induction h with
  | nil => exact .refl _
  | @cons s s₁ s₂ i f x x' fs fs' hx _ ih =>
    exact hx.trans ((quiet_initField env s₁ i message f x.id).advances.trans ih)

theorem Rule.advances (h : Rule (fun _ s _ _ => Advances s) env s e e' s') : Advances s s' := by
  cases h with
  | const hs => exact advances_setType hs
  | ident hd hs => exact advances_annotateIdent hs
  | undeclaredIdent hd hs => exact advances_annotateUndeclared hs
  | qualifiedIdent hd hs => exact advances_annotateIdent hs
  | testedIdent hd hs => exact (quiet_report s _ _).advances.trans (advances_setType hs)
  | @select s₁ s₂ s' id operand operand' field testOnly t hd ho hsel hs =>
    have hquiet := (quiet_selection ..).of_eq hsel
    exact ho.trans (hquiet.advances.trans (advances_setType hs))
  | call hargs hd hs => exact hargs.advances.trans (advances_resolveCall hs)
  | undeclaredCall hargs hd hs => exact hargs.advances.trans (advances_annotateUndeclared hs)
  | namespacedCall hargs hn hs => exact hargs.advances.trans (advances_resolveCall hs)
  | method hargs hn ht hd hs => exact hargs.advances.trans (ht.trans (advances_resolveCall hs))
  | undeclaredMethod hargs hn ht hd hs =>
    exact hargs.advances.trans (ht.trans (advances_annotateUndeclared hs))
  | @list s₁ s₂ s' id elems elems' t u helems hf hs =>
    have hquiet := (quiet_orFresh ..).of_eq hf
    exact helems.advances.trans (hquiet.advances.trans (advances_setType hs))
  | @map s₁ s₂ s₃ s' id entries entries' k v t u hentries hk hv hs =>
    have hquiet := (quiet_orFresh ..).of_eq hk
    have hquiet' := (quiet_orFresh ..).of_eq hv
    exact hentries.advances.trans
      (hquiet.advances.trans (hquiet'.advances.trans (advances_setType hs)))
  | message hname hs hfields =>
    exact (advances_messageLiteral hname).trans ((advances_setType hs).trans hfields.advances)
  | @fold s₁ s₂ s₃ s₄ s₅ s₆ s' id iter accu range _ init _ condition _ step _ result _ _ _ _
      hr hi hiter _ _ hc hs ha hset =>
    have hquiet := (quiet_iterType ..).of_eq hiter
    have hloop := (hc.trans (quiet_expect s₄ _ _).advances).trans hs
    have hresult := (quiet_expect s₅ _ _).advances.trans ha
    exact (hr.trans (hi.trans hquiet.advances)).trans
      (hloop.trans (hresult.trans (advances_setType hset)))

theorem Completes.advances (h : Completes env s e e' s') : Advances s s' :=
  h.induction (R := fun _ s _ _ => Advances s) fun _ _ _ _ _ => Rule.advances

end Advances

/-- A fold with the state in which its range and its initializer are checked. -/
structure Loop where
  id : Int
  iter : String
  range : Expr
  accu : String
  init : Expr
  condition : Expr
  step : Expr
  result : Expr
  start : State

namespace Loop

def expr (l : Loop) : Expr :=
  .fold l.id l.iter l.range l.accu l.init l.condition l.step l.result

def entry (l : Loop) : Ty × State :=
  iterType l.start l.range.id (l.start.subst (l.start.typeAt l.range.id))

def accuDecl (l : Loop) : IdentDecl := { name := l.accu, ty := l.start.typeAt l.init.id }

def iterDecl (l : Loop) : IdentDecl := { name := l.iter, ty := l.entry.1 }

def Opens (l : Loop) (env : Env) (s : State) : Prop :=
  ∃ range' s₁ init', Completes env s l.range range' s₁ ∧ Completes env s₁ l.init init' l.start

theorem Opens.grows {l : Loop} {env : Env} {s : State} (h : l.Opens env s) :
    Grows s l.entry.2 := by
  obtain ⟨range', s₁, init', hr, hi⟩ := h
  exact (hr.advances.trans hi.advances).toGrows.trans (quiet_iterType l.start _ _).toGrows

end Loop

/-- The parts of a fold in which its variables are declared: both in condition and step, only the
accumulator in the result. -/
inductive Frame
  | body (l : Loop)
  | result (l : Loop)

namespace Frame

def loop : Frame → Loop
  | body l => l
  | result l => l

def exprs : Frame → List Expr
  | body l => [l.condition, l.step]
  | result l => [l.result]

def extend (env : Env) : Frame → Env
  | body l => (env.enter.bind l.accuDecl).enter.bind l.iterDecl
  | result l => env.enter.bind l.accuDecl

end Frame

def sameScope : Expr → List Expr
  | .const _ _ => []
  | .ident _ _ => []
  | .select _ operand _ _ => [operand]
  | .call _ _ args => args
  | .method _ target _ args => target :: args
  | .list _ elems => elems
  | .message _ _ fields => fields.map fun | .mk _ _ value => value
  | .map _ entries => entries.flatMap fun | .mk _ key value => [key, value]
  | .fold _ _ range _ init _ _ _ => [range, init]

theorem frame_induction {motive : Expr → Prop}
    (h : ∀ e, (∀ c ∈ sameScope e, motive c) →
      (∀ f : Frame, f.loop.expr = e → ∀ c ∈ f.exprs, motive c) → motive e) (e : Expr) :
    motive e := by
  have hnone : ∀ {e}, (∀ i x r a n c s t, e ≠ .fold i x r a n c s t) →
      ∀ f : Frame, f.loop.expr = e → ∀ c ∈ f.exprs, motive c := by
    intro e hne f hf
    exact absurd hf.symm (hne _ _ _ _ _ _ _ _)
  induction e with
  | const id v => exact h _ (by simp [sameScope]) (hnone (by simp))
  | ident id name => exact h _ (by simp [sameScope]) (hnone (by simp))
  | select id operand field testOnly ih => exact h _ (by simpa [sameScope]) (hnone (by simp))
  | call id f args ih => exact h _ (by simpa [sameScope]) (hnone (by simp))
  | method id target f args iht ih =>
    exact h _ (by simpa [sameScope] using ⟨iht, ih⟩) (hnone (by simp))
  | list id elems ih => exact h _ (by simpa [sameScope]) (hnone (by simp))
  | message id name fields ih =>
    refine h _ ?_ (hnone (by simp))
    simp only [sameScope, List.forall_mem_map]
    rintro ⟨i, f, v⟩ hv
    exact ih i f v hv
  | map id entries ih =>
    refine h _ ?_ (hnone (by simp))
    simp only [sameScope, List.mem_flatMap]
    rintro c ⟨⟨i, k, v⟩, hkv, hc⟩
    simp only [List.mem_cons, List.not_mem_nil, or_false] at hc
    rcases hc with rfl | rfl
    · exact (ih i _ v hkv).1
    · exact (ih i k _ hkv).2
  | fold id iter range accu init condition step result ihr ihi ihc ihs iha =>
    refine h _ (by simpa [sameScope] using ⟨ihr, ihi⟩) fun f hf => ?_
    cases f with
    | body l =>
      cases hf
      simpa [Frame.exprs] using ⟨ihc, ihs⟩
    | result l =>
      cases hf
      simpa [Frame.exprs, Frame.loop] using iha

def Action.isEnter : Action → Bool
  | .enter _ => true
  | _ => false

/-- How a point of the check of `e` from `s` comes about; the checks of the children are parts of
the points `P`. -/
inductive PartOf (env : Env) (s : State) (e : Expr) (P : List Point) (p : Point) : Prop
  | enter (hp : p = ⟨env, s, .enter e⟩)
  | own (henv : p.env = env) (ha : p.action.isEnter = false) (hg : Grows s p.state)
  | child {c : Expr} {s₁ : State} (hc : c ∈ sameScope e) (hg : Grows s s₁)
      (hP : (runExpr env s₁ c).points <:+: P) (hp : p ∈ (runExpr env s₁ c).points)
  | inner {f : Frame} {c : Expr} {s₁ : State} (he : f.loop.expr = e) (ho : f.loop.Opens env s)
      (hc : c ∈ f.exprs) (hg : Grows f.loop.entry.2 s₁)
      (hP : (runExpr (f.extend env) s₁ c).points <:+: P)
      (hp : p ∈ (runExpr (f.extend env) s₁ c).points)

namespace Run

variable {α β : Type} {P : List Point} {x : Run α} {g : α → Run β} {I : Point → Prop}
  {Q : α → Prop} {R : β → Prop} {env : Env} {s : State}

def SatIn (P : List Point) (x : Run α) (I : Point → Prop) (Q : α → Prop) : Prop :=
  x.points <:+: P → x.Sat I Q

theorem SatIn.pure {a : α} (h : Q a) : (Pure.pure a : Run α).SatIn P I Q := fun _ => .pure h

theorem SatIn.bind (hx : x.SatIn P I Q) (hg : ∀ a, x.result = .ok a → Q a → (g a).SatIn P I R) :
    (x >>= g).SatIn P I R := by
  intro hP
  cases hr : x.result with
  | ok a =>
    rw [bind_of_ok hr] at hP ⊢
    obtain ⟨hI, hQ⟩ := hx ((List.prefix_append _ _).isInfix.trans hP)
    obtain ⟨hI', hR⟩ := hg a hr (hQ a hr) ((List.suffix_append _ _).isInfix.trans hP)
    exact ⟨fun p hp => (List.mem_append.1 hp).elim (hI p) (hI' p), hR⟩
  | error e =>
    rw [bind_of_error hr] at hP ⊢
    refine ⟨(hx hP).1, fun b hb => ?_⟩
    cases hb

end Run

section Parts

open Run

variable {env : Env} {s s₁ : State} {e : Expr} {P : List Point} {id : Int} {t : Ty}

theorem satIn_goOn {α : Type} {r : α × State} (hg : Grows s s₁) (hq : Quiet s₁ r.2) :
    (goOn env r).SatIn P (PartOf env s e P) fun a => a = r ∧ Grows s a.2 :=
  fun _ => sat_goOn (.own rfl rfl (hg.trans hq.toGrows)) ⟨rfl, hg.trans hq.toGrows⟩

theorem satIn_runJoin {previous : Option Ty} {current : Ty} (hg : Grows s s₁) :
    (runJoin env s₁ id previous current).SatIn P (PartOf env s e P) fun a => Grows s a.2 := by
  have hjoin := hg.trans (quiet_join env s₁ id previous current).toGrows
  exact fun _ => sat_runJoin _ _ _ (fun _ => .own rfl rfl hg) (.own rfl rfl hjoin) hjoin

theorem satIn_annotate (hg : Grows s s₁) :
    (annotate env s₁ id t).SatIn P (PartOf env s e P) (Grows s) :=
  fun _ => sat_single (.own rfl rfl hg) fun _ h => hg.trans (grows_setType h).1

theorem satIn_refer {r : Reference} (hg : Grows s s₁) :
    (refer env s₁ id r).SatIn P (PartOf env s e P) (Grows s) :=
  fun _ => sat_single (.own rfl rfl hg) fun _ h => hg.trans (grows_setReference h).1

theorem satIn_runIdent {d : IdentDecl} (hg : Grows s s₁) :
    (runIdent env s₁ id d).SatIn P (PartOf env s e P) (Grows s) :=
  .bind (satIn_annotate hg) fun _ _ h => satIn_refer h

theorem satIn_runUndeclared {name : String} (hg : Grows s s₁) :
    (runUndeclared env s₁ id name).SatIn P (PartOf env s e P) (Grows s) :=
  .bind (satIn_annotate hg) fun s₂ _ h => .pure (h.trans (quiet_report s₂ id _).toGrows)

theorem satIn_runCall {f : FunctionDecl} {receiver : Bool} {args : List Int} (hg : Grows s s₁) :
    (runCall env s₁ id f receiver args).SatIn P (PartOf env s e P) (Grows s) := by
  have hstart : Grows s (s₁.trying ⟨s₁.bindings, s₁.nextVar, none⟩) := hg
  have hstep : ∀ t, Grows s (s₁.trying t) → ∀ o ∈ f.overloads.filter (fun o =>
      !env.options.isDisabled o.id && o.receiver == receiver),
      Grows s (s₁.trying (t.overload (args.map s₁.typeAt) o)) :=
    fun t ht o _ => ht.trans (t.quiet_overload s₁ _ o).toGrows
  refine .bind (Q := fun _ => True) (fun _ => ⟨fun p hp => ?_, fun _ _ => trivial⟩) fun _ _ _ => ?_
  · obtain ⟨t, ht, o, -, rfl⟩ := attempts_invariant hstart hstep p hp
    exact .own rfl rfl ht
  · have hend : Grows s (s₁.trying _) :=
      List.foldlRecOn (motive := fun t => Grows s (s₁.trying t)) _ _ hstart hstep
    split
    · exact .bind (satIn_annotate hend) fun _ _ h => satIn_refer h
    · exact satIn_annotate (hend.trans (quiet_report _ id _).toGrows)

theorem satIn_runLiteral {name : String} (hg : Grows s s₁) :
    (runLiteral env s₁ id name).SatIn P (PartOf env s e P) fun r => Grows s r.2.2 := by
  unfold runLiteral
  split
  · exact .pure (hg.trans (quiet_report s₁ id _).toGrows)
  · next d hd =>
    refine .bind (satIn_refer hg) fun s₂ _ h => ?_
    refine .bind (satIn_goOn h (quiet_messageType s₂ id d.ty)) ?_
    rintro ⟨t, s₃⟩ - ⟨-, h₃⟩
    exact .pure h₃

theorem satIn_child {c : Expr} (hc : c ∈ sameScope e) (hg : Grows s s₁) :
    (runExpr env s₁ c).SatIn P (PartOf env s e P) fun r => Grows s r.2 := by
  refine fun hP => ⟨fun p hp => .child hc hg hP hp, fun r hr => ?_⟩
  rw [result_runExpr] at hr
  exact hg.trans (Completes.advances hr).toGrows

theorem satIn_inner {f : Frame} {c : Expr} {env' : Env} (henv : env' = f.extend env)
    (he : f.loop.expr = e) (ho : f.loop.Opens env s) (hc : c ∈ f.exprs)
    (hg : Grows f.loop.entry.2 s₁) :
    (runExpr env' s₁ c).SatIn P (PartOf env s e P) fun r => Grows f.loop.entry.2 r.2 := by
  subst henv
  refine fun hP => ⟨fun p hp => .inner he ho hc hg hP hp, fun r hr => ?_⟩
  rw [result_runExpr] at hr
  exact hg.trans (Completes.advances hr).toGrows

theorem satIn_runAll {es : List Expr} (hes : ∀ c ∈ es, c ∈ sameScope e) (hg : Grows s s₁) :
    (runAll env s₁ es).SatIn P (PartOf env s e P) fun r => Grows s r.2 := by
  induction es generalizing s₁ with
  | nil =>
    rw [runAll]
    exact .pure hg
  | cons c es ih =>
    rw [List.forall_mem_cons] at hes
    rw [runAll]
    refine .bind (satIn_child hes.1 hg) ?_
    rintro ⟨c', s₂⟩ - h₂
    refine .bind (ih hes.2 h₂) ?_
    rintro ⟨es', s₃⟩ - h₃
    exact .pure h₃

theorem satIn_runElems {es : List Expr} {t : Option Ty} (hes : ∀ c ∈ es, c ∈ sameScope e)
    (hg : Grows s s₁) :
    (runElems env s₁ t es).SatIn P (PartOf env s e P) fun r => Grows s r.2.2 := by
  induction es generalizing s₁ t with
  | nil =>
    rw [runElems]
    exact .pure hg
  | cons c es ih =>
    rw [List.forall_mem_cons] at hes
    rw [runElems]
    refine .bind (satIn_child hes.1 hg) ?_
    rintro ⟨c', s₂⟩ - h₂
    refine .bind (satIn_runJoin h₂) ?_
    rintro ⟨u, s₃⟩ - h₃
    refine .bind (ih hes.2 h₃) ?_
    rintro ⟨es', t', s₄⟩ - h₄
    exact .pure h₄

theorem satIn_runEntries {es : List Entry} {k v : Option Ty}
    (hes : ∀ i x y, .mk i x y ∈ es → x ∈ sameScope e ∧ y ∈ sameScope e) (hg : Grows s s₁) :
    (runEntries env s₁ k v es).SatIn P (PartOf env s e P) fun r => Grows s r.2.2.2 := by
  induction es generalizing s₁ k v with
  | nil =>
    rw [runEntries]
    exact .pure hg
  | cons c es ih =>
    obtain ⟨i, x, y⟩ := c
    obtain ⟨hx, hy⟩ := hes i x y List.mem_cons_self
    rw [runEntries]
    refine .bind (satIn_child hx hg) ?_
    rintro ⟨x', s₂⟩ - h₂
    refine .bind (satIn_runJoin h₂) ?_
    rintro ⟨k', s₃⟩ - h₃
    refine .bind (satIn_child hy h₃) ?_
    rintro ⟨y', s₄⟩ - h₄
    refine .bind (satIn_runJoin h₄) ?_
    rintro ⟨v', s₅⟩ - h₅
    refine .bind (ih (fun i x y hm => hes i x y (List.mem_cons_of_mem _ hm)) h₅) ?_
    rintro ⟨es', k'', v'', s₆⟩ - h₆
    exact .pure h₆

theorem satIn_runFields {fs : List FieldInit} (hfs : ∀ i f x, .mk i f x ∈ fs → x ∈ sameScope e)
    (hg : Grows s s₁) :
    (runFields env s₁ t fs).SatIn P (PartOf env s e P) fun r => Grows s r.2 := by
  induction fs generalizing s₁ with
  | nil =>
    rw [runFields]
    exact .pure hg
  | cons f fs ih =>
    obtain ⟨i, f, x⟩ := f
    rw [runFields]
    refine .bind (satIn_child (hfs i f x List.mem_cons_self) hg) ?_
    rintro ⟨x', s₂⟩ - h₂
    have h₃ := h₂.trans (quiet_initField env s₂ i t f x.id).toGrows
    refine .bind (Q := fun _ => True)
      (fun _ => sat_single (.own rfl rfl h₃) fun _ _ => trivial) fun _ _ _ => ?_
    refine .bind (ih (fun i f x hm => hfs i f x (List.mem_cons_of_mem _ hm)) h₃) ?_
    rintro ⟨fs', s₄⟩ - h₄
    exact .pure h₄

theorem satIn_pass {x : Run (Expr × State)} {Q : Expr × State → Prop}
    (hx : x.SatIn P (PartOf env s e P) Q) :
    (pass env s (.enter e) >>= fun _ => x).SatIn P (PartOf env s e P) Q :=
  .bind (Q := fun _ => True) (fun _ => sat_single (.enter rfl) fun _ _ => trivial) fun _ _ _ => hx

theorem satIn_fold {iter accu : String} {range init condition step result : Expr}
    (he : e = .fold id iter range accu init condition step result) :
    (runExpr env s e).SatIn P (PartOf env s e P) fun _ => True := by
  subst he
  rw [runExpr]
  refine satIn_pass (.bind (satIn_child (by simp [sameScope]) (.refl s)) ?_)
  rintro ⟨range', s₁⟩ hrange h₁
  refine .bind (satIn_child (by simp [sameScope]) h₁) ?_
  rintro ⟨init', s₂⟩ hinit h₂
  refine .bind (satIn_goOn h₂ (quiet_iterType s₂ range.id _)) ?_
  rintro ⟨iterTy, s₃⟩ - ⟨hiter, h₃⟩
  let l : Loop := ⟨id, iter, range, accu, init, condition, step, result, s₂⟩
  have hopens : l.Opens env s := by
    rw [result_runExpr] at hrange hinit
    exact ⟨range', s₁, init', hrange, hinit⟩
  have hentry : l.entry = (iterTy, s₃) := hiter.symm
  have hbody : (env.enter.bind l.accuDecl).enter.bind { name := iter, ty := iterTy } =
      Frame.extend env (.body l) := by
    rw [Frame.extend, Loop.iterDecl, hentry]
  refine .bind (satIn_inner (f := .body l) hbody rfl hopens List.mem_cons_self
    (by rw [Frame.loop, hentry]; exact .refl s₃)) ?_
  rintro ⟨condition', s₄⟩ - h₄
  refine .bind (satIn_inner (f := .body l) hbody rfl hopens (by simp [Frame.exprs, l])
    (h₄.trans (quiet_expect s₄ condition.id .bool).toGrows)) ?_
  rintro ⟨step', s₅⟩ - h₅
  refine .bind (satIn_inner (f := .result l) rfl rfl hopens List.mem_cons_self
    (h₅.trans (quiet_expect s₅ step.id _).toGrows)) ?_
  rintro ⟨result', s₆⟩ - h₆
  exact .bind (satIn_annotate (hopens.grows.trans h₆)) fun _ _ _ => .pure trivial

theorem satIn_select {operand : Expr} {field : String} {testOnly : Bool}
    (he : e = .select id operand field testOnly) :
    (runExpr env s e).SatIn P (PartOf env s e P) fun _ => True := by
  subst he
  rw [runExpr]
  refine satIn_pass ?_
  split
  · split
    · exact .bind (satIn_annotate (quiet_report s id _).toGrows) fun _ _ _ => .pure trivial
    · exact .bind (satIn_runIdent (.refl s)) fun _ _ _ => .pure trivial
  · refine .bind (satIn_child (by simp [sameScope]) (.refl s)) ?_
    rintro ⟨operand', s₁⟩ - h₁
    refine .bind (satIn_goOn h₁ (quiet_selection env s₁ id _ field)) ?_
    rintro ⟨t, s₂⟩ - ⟨-, h₂⟩
    exact .bind (satIn_annotate h₂) fun _ _ _ => .pure trivial

theorem satIn_method {target : Expr} {f : String} {args : List Expr}
    (he : e = .method id target f args) :
    (runExpr env s e).SatIn P (PartOf env s e P) fun _ => True := by
  subst he
  rw [runExpr]
  refine satIn_pass (.bind (satIn_runAll (by simp +contextual [sameScope]) (.refl s)) ?_)
  rintro ⟨args', s₁⟩ - h₁
  simp only
  split
  · exact .bind (satIn_runCall h₁) fun _ _ _ => .pure trivial
  · refine .bind (satIn_child (by simp [sameScope]) h₁) ?_
    rintro ⟨target', s₂⟩ - h₂
    simp only
    split
    · exact .bind (satIn_runCall h₂) fun _ _ _ => .pure trivial
    · exact .bind (satIn_runUndeclared h₂) fun _ _ _ => .pure trivial

theorem satIn_map {entries : List Entry} (he : e = .map id entries) :
    (runExpr env s e).SatIn P (PartOf env s e P) fun _ => True := by
  have hmem : ∀ i x y, .mk i x y ∈ entries → x ∈ sameScope e ∧ y ∈ sameScope e := by
    intro i x y h
    simp only [he, sameScope, List.mem_flatMap]
    exact ⟨⟨_, h, by simp⟩, _, h, by simp⟩
  subst he
  rw [runExpr]
  refine satIn_pass (.bind (satIn_runEntries hmem (.refl s)) ?_)
  rintro ⟨entries', k, v, s₁⟩ - h₁
  refine .bind (satIn_goOn h₁ (quiet_orFresh s₁ k)) ?_
  rintro ⟨k', s₂⟩ - ⟨-, h₂⟩
  refine .bind (satIn_goOn h₂ (quiet_orFresh s₂ v)) ?_
  rintro ⟨v', s₃⟩ - ⟨-, h₃⟩
  exact .bind (satIn_annotate h₃) fun _ _ _ => .pure trivial

theorem satIn_message {name : String} {fields : List FieldInit} (he : e = .message id name fields) :
    (runExpr env s e).SatIn P (PartOf env s e P) fun _ => True := by
  have hmem : ∀ i f x, .mk i f x ∈ fields → x ∈ sameScope e := by
    intro i f x h
    simp only [he, sameScope, List.mem_map]
    exact ⟨_, h, rfl⟩
  subst he
  rw [runExpr]
  refine satIn_pass (.bind (satIn_runLiteral (.refl s)) ?_)
  rintro ⟨name', t, s₁⟩ - h₁
  refine .bind (satIn_annotate h₁) fun s₂ _ h₂ => ?_
  exact .bind (satIn_runFields hmem h₂) fun _ _ _ => .pure trivial

theorem runExpr_parts (env : Env) (s : State) (e : Expr) :
    ∀ p ∈ (runExpr env s e).points, PartOf env s e (runExpr env s e).points p := by
  suffices h : ∀ P, (runExpr env s e).SatIn P (PartOf env s e P) fun _ => True from
    (h _ (List.infix_refl _)).1
  intro P
  cases he : e with
  | const id v =>
    rw [runExpr]
    exact satIn_pass (.bind (satIn_annotate (.refl s)) fun _ _ _ => .pure trivial)
  | ident id name =>
    rw [runExpr]
    refine satIn_pass ?_
    split
    · exact .bind (satIn_runIdent (.refl s)) fun _ _ _ => .pure trivial
    · exact .bind (satIn_runUndeclared (.refl s)) fun _ _ _ => .pure trivial
  | select id operand field testOnly => exact satIn_select rfl
  | call id f args =>
    rw [runExpr]
    refine satIn_pass (.bind (satIn_runAll (by simp [sameScope]) (.refl s)) ?_)
    rintro ⟨args', s₁⟩ - h₁
    simp only
    split
    · exact .bind (satIn_runCall h₁) fun _ _ _ => .pure trivial
    · exact .bind (satIn_runUndeclared h₁) fun _ _ _ => .pure trivial
  | method id target f args => exact satIn_method rfl
  | list id elems =>
    rw [runExpr]
    refine satIn_pass (.bind (satIn_runElems (by simp [sameScope]) (.refl s)) ?_)
    rintro ⟨elems', t, s₁⟩ - h₁
    refine .bind (satIn_goOn h₁ (quiet_orFresh s₁ t)) ?_
    rintro ⟨u, s₂⟩ - ⟨-, h₂⟩
    exact .bind (satIn_annotate h₂) fun _ _ _ => .pure trivial
  | message id name fields => exact satIn_message rfl
  | map id entries => exact satIn_map rfl
  | fold id iter range accu init condition step result => exact satIn_fold rfl

end Parts

end Checker

end ExprTyping
