import ExprTyping.Proofs.CheckedTypes

namespace ExprTyping

open Checker State

inductive Mark
  | type
  | reference
  deriving DecidableEq

def Mark.once (k : Mark) (id : Int) (k' : Mark) : List Int :=
  if k = k' then [id] else []

namespace State

variable {s s₁ : State} {k : Mark} {id i : Int}

def Has (s : State) : Mark → Int → Prop
  | .type, id => (s.types.find? id).isSome
  | .reference, id => (s.references.find? id).isSome

theorem Quiet.has_iff (h : Quiet s s₁) : s₁.Has k i ↔ s.Has k i := by
  cases k with
  | type => rw [Has, h.types_eq, Has]
  | reference => rw [Has, h.references_eq, Has]

theorem isSome_find?_insert {γ : Type} (t : Table Int γ) (c : γ) :
    ((t.insert id c).find? i).isSome ↔ (t.find? i).isSome ∨ i ∈ [id] := by
  rw [Table.find?_insert]
  split
  · next h => simp [h]
  · next h => simp [Ne.symm h]

theorem has_setType {t : Ty} (h : s.setType id t = .ok s₁) :
    s₁.Has k i ↔ s.Has k i ∨ i ∈ Mark.type.once id k := by
  rcases setType_cases h with ⟨-, rfl⟩ | ⟨hid, rfl⟩
  · cases k with
    | type => exact isSome_find?_insert s.types t
    | reference => simp [Has, Mark.once]
  · cases k with
    | type => simp +contextual [Has, Mark.once, hid]
    | reference => simp [Mark.once]

theorem has_setReference {r : Reference} (h : s.setReference id r = .ok s₁) :
    s₁.Has k i ↔ s.Has k i ∨ i ∈ Mark.reference.once id k := by
  rcases setReference_cases h with ⟨-, rfl⟩ | ⟨hid, rfl⟩
  · cases k with
    | type => simp [Has, Mark.once]
    | reference => exact isSome_find?_insert s.references r
  · cases k with
    | type => simp [Mark.once]
    | reference => simp +contextual [Has, Mark.once, hid]

theorem not_has_start (k : Mark) (id : Int) : ¬ Has {} k id := by
  cases k <;> exact Bool.false_ne_true

theorem setType_eq_error {t : Ty} (h : s.setType id t = .error ⟨i⟩) : i = id ∧ s.Has .type id := by
  rw [setType] at h
  split at h
  · cases h
  · next hu =>
    split at h
    · cases h
    · cases h
      exact ⟨rfl, by simp [Has, hu]⟩

theorem setReference_eq_error {r : Reference} (h : s.setReference id r = .error ⟨i⟩) :
    i = id ∧ s.Has .reference id := by
  rw [setReference] at h
  split at h
  · cases h
  · next hu =>
    split at h
    · cases h
    · cases h
      exact ⟨rfl, by simp [Has, hu]⟩

end State

namespace Checker

open Run State

variable {α β : Type} {k : Mark} {i : Int}

def Action.written? : Mark → Action → Option Int
  | .type, .annotate id _ => some id
  | .reference, .refer id _ => some id
  | _, _ => none

def Run.written (x : Run α) (k : Mark) : List Int := x.points.filterMap (·.action.written? k)

/-- A run from `s` writes each id at most as often as it is in `c`; the tables of its final state
gain what it writes; and if it fails at an id then it writes this id a second time. -/
structure Records (s : State) (x : Run α) (state : α → State) (c : Mark → List Int) :
    Prop where
  count_le : ∀ k i, (x.written k).count i ≤ (c k).count i
  has_iff : ∀ a, x.result = .ok a → ∀ k i, (state a).Has k i ↔ s.Has k i ∨ i ∈ x.written k
  error : ∀ i, x.result = .error ⟨i⟩ →
    ∃ k, s.Has k i ∧ i ∈ x.written k ∨ 2 ≤ (x.written k).count i

namespace Records

variable {s s₁ : State} {x : Run α} {f : α → Run β} {state : α → State} {state' : β → State}
  {c d : Mark → List Int}

theorem mono (h : Records s x state c) (hle : ∀ k i, (c k).count i ≤ (d k).count i) :
    Records s x state d :=
  ⟨fun k i => Nat.le_trans (h.count_le k i) (hle k i), h.has_iff, h.error⟩

theorem of_quiet (hq : Quiet s s₁) (h : Records s₁ x state c) : Records s x state c := by
  refine ⟨h.count_le, fun a ha k i => ?_, fun i hi => ?_⟩
  · rw [h.has_iff a ha, hq.has_iff]
  · obtain ⟨k, hk⟩ := h.error i hi
    exact ⟨k, by rwa [hq.has_iff] at hk⟩

theorem silent {a : α} (hw : ∀ k, x.written k = []) (hr : x.result = .ok a)
    (hq : Quiet s (state a)) : Records s x state fun _ => [] := by
  refine ⟨fun k i => by rw [hw], fun b hb k i => ?_, fun i hi => ?_⟩
  · rw [hr] at hb
    cases hb
    simp [hq.has_iff, hw]
  · rw [hr] at hi
    cases hi

theorem pure {a : α} (hq : Quiet s (state a)) :
    Records s (Pure.pure a : Run α) state fun _ => [] :=
  silent (fun _ => rfl) rfl hq

theorem bind (hx : Records s x state c) (hf : ∀ a, Records (state a) (f a) state' d) :
    Records s (x >>= f) state' fun k => c k ++ d k := by
  cases hr : x.result with
  | error e =>
    rw [bind_of_error hr]
    refine ⟨fun k i => ?_, nofun, fun i hi => ?_⟩
    · rw [List.count_append]
      exact Nat.le_add_right_of_le (hx.count_le k i)
    · cases hi
      exact hx.error i hr
  | ok a =>
    have hwritten : ∀ k, Run.written (⟨x.points ++ (f a).points, (f a).result⟩ : Run β) k =
        x.written k ++ (f a).written k := fun k => List.filterMap_append
    rw [bind_of_ok hr]
    refine ⟨fun k i => ?_, fun b hb k i => ?_, fun i hi => ?_⟩
    · rw [hwritten, List.count_append, List.count_append]
      exact Nat.add_le_add (hx.count_le k i) ((hf a).count_le k i)
    · rw [hwritten, List.mem_append, (hf a).has_iff b hb, hx.has_iff a hr, or_assoc]
    · obtain ⟨k, ⟨hhas, hmem⟩ | hcount⟩ := (hf a).error i hi
      · refine ⟨k, ?_⟩
        rw [hwritten, List.mem_append, List.count_append]
        have hpos := List.count_pos_iff.2 hmem
        rcases (hx.has_iff a hr k i).1 hhas with hs | hmem'
        · exact .inl ⟨hs, .inr hmem⟩
        · -- written by the first part and again by the second
          have hpos' := List.count_pos_iff.2 hmem'
          exact .inr (by omega)
      · refine ⟨k, .inr ?_⟩
        rw [hwritten, List.count_append]
        omega

theorem andPure (h : Records s x state c) {g : α → β} (hg : ∀ a, Quiet (state a) (state' (g a))) :
    Records s (x >>= fun a => Pure.pure (g a)) state' c :=
  (h.bind fun a => .pure (hg a)).mono fun k i => by simp

theorem node {id : Int} {l : List Int} (hx : Records s x state fun _ => l)
    (hf : ∀ a, Records (state a) (f a) state' fun _ => [id]) :
    Records s (x >>= f) state' fun _ => id :: l :=
  (hx.bind hf).mono fun _ i => ((List.perm_append_singleton id l).count_eq i).le

section Primitive

variable (env : Env) (s : State) (id : Int)

theorem annotate (t : Ty) :
    Records s (Run.annotate env s id t) (fun s => s) (Mark.type.once id) := by
  have hw : ∀ k, (Run.annotate env s id t).written k = Mark.type.once id k :=
    fun k => by cases k <;> rfl
  refine ⟨fun k i => by rw [hw], fun s₁ hs k i => by rw [hw, has_setType hs], fun i hi => ?_⟩
  obtain ⟨rfl, hi⟩ := setType_eq_error hi
  exact ⟨.type, .inl ⟨hi, List.mem_singleton_self _⟩⟩

theorem refer (r : Reference) :
    Records s (Run.refer env s id r) (fun s => s) (Mark.reference.once id) := by
  have hw : ∀ k, (Run.refer env s id r).written k = Mark.reference.once id k :=
    fun k => by cases k <;> rfl
  refine ⟨fun k i => by rw [hw], fun s₁ hs k i => by rw [hw, has_setReference hs], fun i hi => ?_⟩
  obtain ⟨rfl, hi⟩ := setReference_eq_error hi
  exact ⟨.reference, .inl ⟨hi, List.mem_singleton_self _⟩⟩

variable {env s}

theorem pass {a : Action} (h : Records s x state c) (ha : ∀ k, a.written? k = none) :
    Records s (Run.pass env s a >>= fun _ => x) state c := by
  have hpass : Records s (Run.pass env s a) (fun _ => s) fun _ => [] :=
    .silent (fun k => by simp [Run.written, Run.pass, ha]) rfl (.refl s)
  exact hpass.bind fun _ => h

theorem goOn {γ : Type} {r : γ × State} {g : γ × State → Run β} (hq : Quiet s r.2)
    (h : ∀ r, Records r.2 (g r) state' c) : Records s (Run.goOn env r >>= g) state' c :=
  .of_quiet hq ((h r).pass (a := .proceed) fun k => by cases k <;> rfl)

theorem join {g : Ty × State → Run β} {i : Int} {previous : Option Ty} {current : Ty}
    (h : ∀ r, Records r.2 (g r) state' c) :
    Records s (runJoin env s i previous current >>= g) state' c := by
  have hjoining : Records s (Run.joining env s i previous current) (fun _ => s) fun _ => [] := by
    refine .silent (fun k => ?_) rfl (.refl s)
    cases k <;> cases previous <;> rfl
  rw [runJoin, bind_assoc]
  exact hjoining.bind fun _ => .goOn (quiet_join env s i previous current) h

theorem enter {e : Expr} (h : Records s x state c) :
    Records s (Run.pass env s (.enter e) >>= fun _ => x) state c :=
  h.pass fun k => by cases k <;> rfl

end Primitive

end Records

section Rules

variable (env : Env) (s : State) (id : Int)

theorem annotate_refer_records (t : Ty) (r : Reference) :
    Records s (annotate env s id t >>= fun s => refer env s id r) (fun s => s) fun _ => [id] :=
  ((Records.annotate env s id t).bind fun s₁ => .refer env s₁ id r).mono fun k i => by
    cases k <;> exact Nat.le_refl _

theorem annotate_records (t : Ty) :
    Records s (annotate env s id t) (fun s => s) fun _ => [id] :=
  (Records.annotate env s id t).mono fun k i => by cases k <;> simp [Mark.once]

theorem runIdent_records (d : IdentDecl) :
    Records s (runIdent env s id d) (fun s => s) fun _ => [id] :=
  annotate_refer_records env s id d.ty (.ofIdent d)

theorem runUndeclared_records (name : String) :
    Records s (runUndeclared env s id name) (fun s => s) fun _ => [id] :=
  (annotate_records env s id .error).bind fun s₁ => .pure (quiet_report s₁ id _)

theorem attemptAll_records {s₁ : State} (hq : Quiet s s₁) (args : List Ty) (t : Trial)
    (os : List Overload) : Records s (attemptAll env s args t os) (fun _ => s₁) fun _ => [] := by
  refine .silent (fun k => ?_) rfl hq
  induction os generalizing t with
  | nil => rfl
  | cons o os ih => cases k <;> exact ih (t.overload args o)

theorem runCall_records (f : FunctionDecl) (receiver : Bool) (args : List Int) :
    Records s (runCall env s id f receiver args) (fun s => s) fun _ => [id] := by
  have htried := Trial.quiet_all s (fun o => !env.options.isDisabled o) receiver
    (args.map s.typeAt) f.overloads
  refine .bind (attemptAll_records env s htried _ _ _) fun _ => ?_
  split
  · exact annotate_refer_records env _ id _ _
  · exact .of_quiet (quiet_report _ id _) (annotate_records env _ id .error)

theorem runLiteral_records (name : String) :
    Records s (runLiteral env s id name) (·.2.2) (Mark.reference.once id) := by
  unfold runLiteral
  split
  · exact .mono (.pure (quiet_report s id _)) fun k i => by simp
  · next d hd =>
    refine .mono (.bind (d := fun _ => []) (.refer env s id _) fun s₁ => ?_) fun k i => by simp
    exact .goOn (quiet_messageType s₁ id d.ty) fun r => .pure (.refl r.2)

end Rules

section Lists

variable {env : Env} {s : State}

-- the equations of the walk are made here, once; otherwise all lemmas below wait for them
attribute [local simp] Expr.walk Expr.walkAll Expr.walkFields Expr.walkEntries

def Recorded (env : Env) (e : Expr) : Prop :=
  ∀ s, Records s (runExpr env s e) (·.2) fun _ => e.walk

theorem runAll_records {es : List Expr} (ih : ∀ e ∈ es, Recorded env e) :
    Records s (runAll env s es) (·.2) fun _ => Expr.walkAll es := by
  induction es generalizing s with
  | nil => exact .pure (.refl s)
  | cons e es ihes =>
    rw [List.forall_mem_cons] at ih
    rw [runAll, Expr.walkAll]
    exact .bind (ih.1 s) fun _ => .andPure (ihes ih.2) fun r => .refl r.2

theorem runElems_records {es : List Expr} (ih : ∀ e ∈ es, Recorded env e) {t : Option Ty} :
    Records s (runElems env s t es) (·.2.2) fun _ => Expr.walkAll es := by
  induction es generalizing s t with
  | nil => exact .pure (.refl s)
  | cons e es ihes =>
    rw [List.forall_mem_cons] at ih
    rw [runElems, Expr.walkAll]
    refine .bind (ih.1 s) ?_
    rintro ⟨e', s₁⟩
    refine .join ?_
    rintro ⟨u, s₂⟩
    exact .andPure (ihes ih.2) fun r => .refl r.2.2

theorem runEntries_records {es : List Entry}
    (ih : ∀ i x y, .mk i x y ∈ es → Recorded env x ∧ Recorded env y) {k v : Option Ty} :
    Records s (runEntries env s k v es) (·.2.2.2) fun _ => Expr.walkEntries es := by
  induction es generalizing s k v with
  | nil => exact .pure (.refl s)
  | cons e es ihes =>
    obtain ⟨i, x, y⟩ := e
    obtain ⟨ihx, ihy⟩ := ih i x y List.mem_cons_self
    rw [runEntries, Expr.walkEntries, List.append_assoc]
    refine .bind (ihx s) ?_
    rintro ⟨x', s₁⟩
    refine .join ?_
    rintro ⟨k', s₂⟩
    refine .bind (ihy s₂) ?_
    rintro ⟨y', s₃⟩
    refine .join ?_
    rintro ⟨v', s₄⟩
    exact .andPure (ihes fun i x y hm => ih i x y (List.mem_cons_of_mem _ hm))
      fun r => .refl r.2.2.2

theorem runFields_records {fs : List FieldInit} (ih : ∀ i f x, .mk i f x ∈ fs → Recorded env x)
    {message : Ty} :
    Records s (runFields env s message fs) (·.2) fun _ => Expr.walkFields fs := by
  induction fs generalizing s with
  | nil => exact .pure (.refl s)
  | cons f fs ihfs =>
    obtain ⟨i, f, x⟩ := f
    rw [runFields, Expr.walkFields]
    refine .bind (ih i f x List.mem_cons_self s) ?_
    rintro ⟨x', s₁⟩
    refine .of_quiet (quiet_initField env s₁ i message f x.id) ?_
    refine .pass ?_ fun k => by cases k <;> rfl
    exact .andPure (ihfs fun i f x hm => ih i f x (List.mem_cons_of_mem _ hm)) fun r => .refl r.2

end Lists

section Nodes

variable {env : Env}

theorem recorded_select {operand : Expr} (ih : Recorded env operand) (id : Int) (field : String)
    (testOnly : Bool) : Recorded env (.select id operand field testOnly) := by
  intro s
  rw [runExpr, Expr.walk]
  refine .enter ?_
  split
  · next d hd =>
    -- the nodes of a qualified name are not annotated
    refine .mono (c := fun _ => [id]) ?_ fun k i => by simp [List.count_cons]
    split
    · refine .of_quiet (quiet_report s id _) (.andPure (annotate_records env _ id _) .refl)
    · exact .andPure (runIdent_records env s id d) .refl
  · refine .node (ih s) ?_
    rintro ⟨operand', s₁⟩
    refine .goOn (quiet_selection env s₁ id _ field) ?_
    rintro ⟨t, s₂⟩
    exact .andPure (annotate_records env s₂ id _) .refl

theorem recorded_call {args : List Expr} (ih : ∀ e ∈ args, Recorded env e) (id : Int)
    (f : String) : Recorded env (.call id f args) := by
  intro s
  rw [runExpr, Expr.walk]
  refine .enter (.node (runAll_records ih) ?_)
  rintro ⟨args', s₁⟩
  simp only
  split
  · next d hd => exact .andPure (runCall_records env s₁ id d false _) .refl
  · exact .andPure (runUndeclared_records env s₁ id f) .refl

theorem recorded_method {target : Expr} {args : List Expr} (iht : Recorded env target)
    (ih : ∀ e ∈ args, Recorded env e) (id : Int) (f : String) :
    Recorded env (.method id target f args) := by
  intro s
  rw [runExpr, Expr.walk]
  -- the arguments come first, and a namespaced call leaves its target out
  refine .enter (.mono (.bind (d := fun _ => id :: target.walk) (runAll_records ih) ?_)
    fun k i => ?_)
  · rintro ⟨args', s₁⟩
    simp only
    split
    · next d hd =>
      exact .mono (.andPure (runCall_records env s₁ id d false _) .refl)
        fun k i => by simp [List.count_cons]
    · refine .node (iht s₁) ?_
      rintro ⟨target', s₂⟩
      simp only
      split
      · next d hd => exact .andPure (runCall_records env s₂ id d true _) .refl
      · exact .andPure (runUndeclared_records env s₂ id f) .refl
  · simp only [List.count_append, List.count_cons]
    omega

theorem recorded_list {elems : List Expr} (ih : ∀ e ∈ elems, Recorded env e) (id : Int) :
    Recorded env (.list id elems) := by
  intro s
  rw [runExpr, Expr.walk]
  refine .enter (.node (runElems_records ih) ?_)
  rintro ⟨elems', t, s₁⟩
  refine .goOn (quiet_orFresh s₁ t) ?_
  rintro ⟨u, s₂⟩
  exact .andPure (annotate_records env s₂ id _) .refl

theorem recorded_message {fields : List FieldInit}
    (ih : ∀ i f v, .mk i f v ∈ fields → Recorded env v) (id : Int) (name : String) :
    Recorded env (.message id name fields) := by
  intro s
  rw [runExpr, Expr.walk]
  refine .enter (.mono (.bind (d := fun k => Mark.type.once id k ++ Expr.walkFields fields)
    (runLiteral_records env s id name) ?_) fun k i => ?_)
  · rintro ⟨name', t, s₁⟩
    exact .bind (.annotate env s₁ id _) fun s₂ => .andPure (runFields_records ih) fun r => .refl r.2
  · -- the name is written to one table and the type to the other
    cases k <;> exact Nat.le_refl _

theorem recorded_map {entries : List Entry}
    (ih : ∀ i k v, .mk i k v ∈ entries → Recorded env k ∧ Recorded env v) (id : Int) :
    Recorded env (.map id entries) := by
  intro s
  rw [runExpr, Expr.walk]
  refine .enter (.node (runEntries_records ih) ?_)
  rintro ⟨entries', k, v, s₁⟩
  refine .goOn (quiet_orFresh s₁ k) ?_
  rintro ⟨k', s₂⟩
  refine .goOn (quiet_orFresh s₂ v) ?_
  rintro ⟨v', s₃⟩
  exact .andPure (annotate_records env s₃ id _) .refl

theorem recorded_fold {range init condition step result : Expr} (ihr : Recorded env range)
    (ihi : Recorded env init) (ihc : ∀ env, Recorded env condition)
    (ihs : ∀ env, Recorded env step) (iha : ∀ env, Recorded env result) (id : Int)
    (iter accu : String) :
    Recorded env (.fold id iter range accu init condition step result) := by
  intro s
  rw [runExpr]
  refine .enter (.mono (c := fun _ => range.walk ++ (init.walk ++ (condition.walk ++ (step.walk ++
    id :: result.walk)))) ?_ fun k i => ?_)
  · refine .bind (ihr s) ?_
    rintro ⟨range', s₁⟩
    refine .bind (ihi s₁) ?_
    rintro ⟨init', s₂⟩
    refine .goOn (quiet_iterType s₂ range.id _) ?_
    rintro ⟨iterTy, s₃⟩
    refine .bind (ihc _ s₃) ?_
    rintro ⟨condition', s₄⟩
    refine .of_quiet (quiet_expect s₄ condition.id .bool) ?_
    refine .bind (ihs _ _) ?_
    rintro ⟨step', s₅⟩
    refine .of_quiet (quiet_expect s₅ step.id (s₂.typeAt init.id)) ?_
    refine .node (iha _ _) ?_
    rintro ⟨result', s₆⟩
    exact .andPure (annotate_records env s₆ id _) .refl
  · simp only [Expr.walk, List.count_append, List.count_cons]
    omega

end Nodes

theorem recorded (env : Env) (e : Expr) : Recorded env e := by
  induction e generalizing env with
  | const id v => exact fun s => .enter (.andPure (annotate_records env s id _) .refl)
  | ident id name =>
    intro s
    rw [runExpr, Expr.walk]
    refine .enter ?_
    split
    · next d hd => exact .andPure (runIdent_records env s id d) .refl
    · exact .andPure (runUndeclared_records env s id name) .refl
  | select id operand field testOnly ih => exact recorded_select (ih env) id field testOnly
  | call id f args ih => exact recorded_call (fun e he => ih e he env) id f
  | method id target f args iht ih =>
    exact recorded_method (iht env) (fun e he => ih e he env) id f
  | list id elems ih => exact recorded_list (fun e he => ih e he env) id
  | message id name fields ih => exact recorded_message (fun i f v hv => ih i f v hv env) id name
  | map id entries ih =>
    exact recorded_map (fun i k v hv => ⟨(ih i k v hv).1 env, (ih i k v hv).2 env⟩) id
  | fold id iter range accu init condition step result ihr ihi ihc ihs iha =>
    exact recorded_fold (ihr env) (ihi env) ihc ihs iha id iter accu

theorem nodup_written (env : Env) {e : Expr} (h : e.walk.Nodup) (k : Mark) :
    ((runExpr env {} e).written k).Nodup :=
  List.nodup_iff_count_le_one.2 fun i =>
    ((recorded env e {}).count_le k i).trans (List.nodup_iff_count_le_one.1 h i)

theorem exists_checkExpr_eq_ok (env : Env) {e : Expr} (h : e.walk.Nodup) :
    ∃ r, checkExpr env {} e = .ok r := by
  cases hr : checkExpr env {} e with
  | ok r => exact ⟨r, rfl⟩
  | error err =>
    obtain ⟨k, ⟨hi, -⟩ | htwice⟩ := (recorded env e {}).error err.id (by rw [result_runExpr, hr])
    · exact absurd hi (not_has_start k err.id)
    · have honce := List.nodup_iff_count_le_one.1 (nodup_written env h k) err.id
      omega

end Checker

/-- If the ids of the nodes are distinct then the check completes, and writes an id at most once to
each of its tables. What it writes is what is in the tables of the result. -/
theorem check_annotatesOnce (env : Env) (source : Source) (e : Expr) (h : e.walk.Nodup) :
    ∃ r, check env source e = .ok r ∧
      ((runExpr env {} e).written .type).Nodup ∧ ((runExpr env {} e).written .reference).Nodup ∧
      (∀ id, (r.types.find? id).isSome ↔ id ∈ (runExpr env {} e).written .type) ∧
      ∀ id, (r.references.find? id).isSome ↔ id ∈ (runExpr env {} e).written .reference := by
  obtain ⟨⟨e', s⟩, hs⟩ := exists_checkExpr_eq_ok env h
  have hhas : ∀ k id, s.Has k id ↔ id ∈ (runExpr env {} e).written k := by
    intro k id
    have hiff := (recorded env e {}).has_iff (e', s) (by rw [result_runExpr, hs]) k id
    rwa [or_iff_right (not_has_start k id)] at hiff
  obtain ⟨r, hr, htypes, hreferences⟩ : ∃ r, check env source e = .ok r ∧
      r.types = s.types.mapValues (s.bindings.subst true) ∧ r.references = s.references :=
    ⟨_, by rw [check, hs]; rfl, rfl, rfl⟩
  refine ⟨r, hr, nodup_written env h .type, nodup_written env h .reference, fun id => ?_, ?_⟩
  · rw [htypes, Table.find?_mapValues, Option.isSome_map]
    exact hhas .type id
  · rw [hreferences]
    exact hhas .reference

theorem check_annotatesOnce_of_shared_entry_id :
    let env : Env :=
      { container := {}, provider := (Catalog.addMessage {} "M" [("x", .int)]).provider }
    let e : Expr :=
      .map 1 [.mk 1 (.const 2 (.string "k")) (.message 3 "M" [.mk 2 "x" (.const 4 (.int 0))])]
    e.walk.Nodup ∧ (runExpr env {} e).written .type = [2, 3, 4, 1] ∧
      ∃ r, check env {} e = .ok r ∧ r.diagnostics = [] ∧
        ∀ id, (r.types.find? id).isSome ↔ id ∈ (runExpr env {} e).written .type := by
  intro env e
  have h : e.walk.Nodup := by decide
  obtain ⟨r, hr, -, -, htypes, -⟩ := check_annotatesOnce env {} e h
  refine ⟨h, rfl, r, hr, ?_, htypes⟩
  cases hr
  rfl

end ExprTyping
