import ExprTyping.Proofs.Idempotence
import ExprTyping.Proofs.RunParts
import ExprTyping.Proofs.ThreadedScopes
import ExprTyping.Proofs.TypeInvariant

namespace ExprTyping.Checker

open State Text

def Frame.decl? (v : String) : Frame → Option IdentDecl
  | .body l =>
    if l.iter = v then some l.iterDecl else if l.accu = v then some l.accuDecl else none
  | .result l => if l.accu = v then some l.accuDecl else none

/-- The environment inside frames, the innermost first. -/
def within (env : Env) : List Frame → Env
  | [] => env
  | f :: fs => f.extend (within env fs)

/-- `Site e fs n` says that `n` stands in `e` inside the frames `fs`. -/
inductive Site : Expr → List Frame → Expr → Prop
  | here {e : Expr} : Site e [] e
  | child {e c n : Expr} {fs : List Frame} : c ∈ sameScope e → Site c fs n → Site e fs n
  | inner {f : Frame} {c n : Expr} {fs : List Frame} :
      c ∈ f.exprs → Site c fs n → Site f.loop.expr (fs ++ [f]) n

/-- The folds of the frames were entered, each inside the frames that follow it. -/
def Entered (P : List Point) (env : Env) : List Frame → Prop
  | [] => True
  | f :: fs => (∃ s, ⟨within env fs, s, .enter f.loop.expr⟩ ∈ P ∧
      f.loop.Opens (within env fs) s) ∧ Entered P env fs

section Within

variable {env : Env} {f : Frame} {v : String}

theorem within_append (env : Env) (fs : List Frame) (f : Frame) :
    within env (fs ++ [f]) = within (f.extend env) fs := by
  induction fs with
  | nil => rfl
  | cons g fs ih => rw [List.cons_append, within, ih, within]

theorem container_extend (env : Env) (f : Frame) : (f.extend env).container = env.container := by
  cases f <;> rfl

theorem lookupCandidate?_extend (env : Env) (f : Frame) (v : String) :
    (f.extend env).lookupCandidate? v = (f.decl? v).or (env.lookupCandidate? v) := by
  cases f with
  | body l =>
    simp only [Frame.extend, TypeInvariant.lookupCandidate?_bind, Frame.decl?, Loop.iterDecl,
      Loop.accuDecl]
    split_ifs <;> rfl
  | result l =>
    simp only [Frame.extend, TypeInvariant.lookupCandidate?_bind, Frame.decl?, Loop.accuDecl]
    split_ifs <;> rfl

theorem lookupCandidate?_within (env : Env) (fs : List Frame) (v : String) :
    (within env fs).lookupCandidate? v =
      (fs.findSome? (·.decl? v)).or (env.lookupCandidate? v) := by
  induction fs with
  | nil => rfl
  | cons f fs ih =>
    rw [within, lookupCandidate?_extend, ih, List.findSome?_cons]
    cases f.decl? v <;> rfl

theorem container_within (env : Env) (fs : List Frame) :
    (within env fs).container = env.container := by
  induction fs with
  | nil => rfl
  | cons f fs ih => rw [within, container_extend, ih]

theorem lookupIdent?_eq (hc : env.container = {}) (hv : Dotted.rooted? v = none) :
    env.lookupIdent? v = env.lookupCandidate? v := by
  rw [Env.lookupIdent?, hc, Container.candidates_empty hv, List.findSome?_singleton]

theorem lookupIdent?_within (hc : env.container = {}) (fs : List Frame)
    (hv : Dotted.rooted? v = none) :
    (within env fs).lookupIdent? v = (fs.findSome? (·.decl? v)).or (env.lookupIdent? v) := by
  rw [lookupIdent?_eq hc hv, lookupIdent?_eq (by rw [container_within, hc]) hv,
    lookupCandidate?_within]

theorem Entered.append {P : List Point} {s : State} {fs : List Frame}
    (h : Entered P (f.extend env) fs) (hf : ⟨env, s, .enter f.loop.expr⟩ ∈ P)
    (ho : f.loop.Opens env s) : Entered P env (fs ++ [f]) := by
  induction fs with
  | nil => exact ⟨⟨s, hf, ho⟩, trivial⟩
  | cons g fs ih =>
    obtain ⟨hg, hfs⟩ := h
    rw [List.cons_append, Entered, within_append]
    exact ⟨hg, ih hfs⟩

theorem Entered.mono {P Q : List Point} {fs : List Frame} (h : Entered P env fs) (hPQ : P ⊆ Q) :
    Entered Q env fs := by
  induction fs with
  | nil => trivial
  | cons f fs ih =>
    obtain ⟨⟨s, hs, ho⟩, hfs⟩ := h
    exact ⟨⟨s, hPQ hs, ho⟩, ih hfs⟩

end Within

structure Traced (env : Env) (s : State) (e : Expr) (P : List Point) (p : Point) : Prop where
  grows : Grows s p.state
  frames : ∃ fs, p.env = within env fs ∧ (∀ n, p.action = .enter n → Site e fs n) ∧
    Entered P env fs ∧ ∀ f ∈ fs, Grows f.loop.entry.2 p.state
  nested : ∀ n, p.action = .enter n → (runExpr p.env p.state n).points <:+: P

section Trace

variable {env : Env} {s s₁ : State} {e c : Expr} {P : List Point} {p : Point}

theorem Traced.child (h : Traced env s₁ c (runExpr env s₁ c).points p) (hc : c ∈ sameScope e)
    (hg : Grows s s₁) (hP : (runExpr env s₁ c).points <:+: P) : Traced env s e P p := by
  obtain ⟨hgrows, ⟨fs, henv, hsite, hentered, hfs⟩, hnested⟩ := h
  exact ⟨hg.trans hgrows,
    ⟨fs, henv, fun n hn => .child hc (hsite n hn), hentered.mono hP.subset, hfs⟩,
    fun n hn => (hnested n hn).trans hP⟩

theorem Traced.inner {f : Frame}
    (h : Traced (f.extend env) s₁ c (runExpr (f.extend env) s₁ c).points p)
    (he : ⟨env, s, .enter f.loop.expr⟩ ∈ P) (ho : f.loop.Opens env s) (hc : c ∈ f.exprs)
    (hg : Grows f.loop.entry.2 s₁) (hP : (runExpr (f.extend env) s₁ c).points <:+: P) :
    Traced env s f.loop.expr P p := by
  obtain ⟨hgrows, ⟨fs, henv, hsite, hentered, hfs⟩, hnested⟩ := h
  refine ⟨ho.grows.trans (hg.trans hgrows), ⟨fs ++ [f], ?_, ?_, ?_, ?_⟩,
    fun n hn => (hnested n hn).trans hP⟩
  · rw [henv, within_append]
  · exact fun n hn => .inner hc (hsite n hn)
  · exact (hentered.mono hP.subset).append he ho
  · intro g hg'
    rcases List.mem_append.1 hg' with hg' | hg'
    · exact hfs g hg'
    · cases List.mem_singleton.1 hg'
      exact hg.trans hgrows

theorem mem_points_enter (env : Env) (s : State) (e : Expr) :
    ⟨env, s, .enter e⟩ ∈ (runExpr env s e).points := by
  rw [runExpr.eq_def, Run.bind_of_ok (a := ()) rfl]
  exact List.mem_cons_self

theorem runExpr_traced (env : Env) (s : State) (e : Expr) :
    ∀ p ∈ (runExpr env s e).points, Traced env s e (runExpr env s e).points p := by
  induction e using frame_induction generalizing env s with
  | h e ihc ihf =>
    intro p hp
    rcases runExpr_parts env s e p hp with rfl | ⟨henv, ha, hg⟩ | ⟨hc, hg, hP, hpc⟩ |
      ⟨rfl, ho, hc, hg, hP, hpc⟩
    · refine ⟨.refl s, ⟨[], rfl, ?_, trivial, by simp⟩, ?_⟩
      · rintro n hn
        cases hn
        exact .here
      · rintro n hn
        cases hn
        exact List.infix_refl _
    · have hnot : ∀ n, p.action ≠ .enter n := by
        rintro n hn
        simp [hn, Action.isEnter] at ha
      exact ⟨hg, ⟨[], henv, fun n hn => absurd hn (hnot n), trivial, by simp⟩,
        fun n hn => absurd hn (hnot n)⟩
    · exact (ihc _ hc env _ p hpc).child hc hg hP
    · exact (ihf _ rfl _ hc _ _ p hpc).inner (mem_points_enter env s _) ho hc hg hP

end Trace

def checkName (env : Env) (s : State) (id : Int) (name : String) :
    Option IdentDecl → Checked (Expr × State)
  | some d => do
    let s ← annotateIdent s id d
    return (.ident id d.name, s)
  | none => do
    let s ← annotateUndeclared env s id name
    return (.ident id name, s)

theorem checkExpr_ident (env : Env) (s : State) (id : Int) (name : String) :
    checkExpr env s (.ident id name) = checkName env s id name (env.lookupIdent? name) := by
  rw [checkExpr]
  cases env.lookupIdent? name <;> rfl

/-- In an empty container names follow lexical scope while the environment is handed on from check
to check. The walk ends as the check does. At every node that it enters, a name means what the
innermost frame around the node says that declares it, and else what it means in the environment of
the whole expression; an identifier is checked as just this declaration. The walk of the node is a
part of the whole and, if it completes, leaves the environment in which the node was entered. -/
theorem check_lexicalScope {env : Env} (hc : env.container = {}) (s : State) (e : Expr) :
    (walkExpr ⟨env, s⟩ e).result = Prod.map id (Walker.mk env) <$> checkExpr env s e ∧
    ∀ p ∈ (walkExpr ⟨env, s⟩ e).points, ∀ n, p.action = .enter n →
      (∃ fs, Site e fs n ∧ p.env = within env fs ∧
        Entered (walkExpr ⟨env, s⟩ e).points env fs ∧
        (∀ v, Dotted.rooted? v = none →
          p.env.lookupIdent? v = (fs.findSome? (·.decl? v)).or (env.lookupIdent? v)) ∧
        ∀ i v, n = .ident i v → Dotted.rooted? v = none →
          (walkExpr ⟨p.env, p.state⟩ n).result = Prod.map id (Walker.mk p.env) <$>
            checkName p.env p.state i v ((fs.findSome? (·.decl? v)).or (env.lookupIdent? v))) ∧
      (walkExpr ⟨p.env, p.state⟩ n).points <:+: (walkExpr ⟨env, s⟩ e).points ∧
      ∀ n' w, (walkExpr ⟨p.env, p.state⟩ n).result = .ok (n', w) →
        w.env = p.env ∧ checkExpr p.env p.state n = .ok (n', w.state) := by
  refine ⟨result_walkExpr env s e, ?_⟩
  intro p hp n hn
  simp only [points_walkExpr] at hp ⊢
  obtain ⟨-, ⟨fs, henv, hsite, hentered, -⟩, hnested⟩ := runExpr_traced env s e p hp
  have hlookup : ∀ v, Dotted.rooted? v = none →
      p.env.lookupIdent? v = (fs.findSome? (·.decl? v)).or (env.lookupIdent? v) := by
    intro v hv
    rw [henv, lookupIdent?_within hc fs hv]
  refine ⟨⟨fs, hsite n hn, henv, hentered, hlookup, ?_⟩, hnested n hn, fun n' w h => ?_⟩
  · rintro i v rfl hv
    rw [result_walkExpr, checkExpr_ident, hlookup v hv]
  · rw [result_walkExpr] at h
    cases hr : checkExpr p.env p.state n with
    | error err =>
      rw [hr] at h
      cases h
    | ok r =>
      rw [hr] at h
      cases h
      exact ⟨rfl, rfl⟩

/-- A fold whose two variables have one name, which the environment declares too: the initializer
sees the declaration of the environment, the step the iteration variable and the result the
accumulator, and after the whole the name means what it meant before. -/
theorem check_lexicalScope_of_one_name :
    let env : Env :=
      { container := {}, provider := ⟨fun _ => none, fun _ _ => none, fun _ => none⟩,
        scopes := Scopes.addIdent {} { name := "x", ty := .bool } }
    let e : Expr := .fold 1 "x" (.list 2 [.const 3 (.int 0)]) "x" (.ident 4 "x")
      (.const 5 (.bool true)) (.ident 6 "x") (.ident 7 "x")
    (∀ i t, (i, t) ∈ [(4, Ty.bool), (6, .int), (7, .bool)] →
      ∃ p ∈ (walkExpr ⟨env, {}⟩ e).points, p.action = .enter (.ident i "x") ∧
        p.env.lookupIdent? "x" = some { name := "x", ty := t } ∧
        ∃ fs, Site e fs (.ident i "x") ∧
          p.env.lookupIdent? "x" = (fs.findSome? (·.decl? "x")).or (env.lookupIdent? "x")) ∧
    ∃ e' w, (walkExpr ⟨env, {}⟩ e).result = .ok (e', w) ∧ w.env = env ∧
      w.env.lookupIdent? "x" = some { name := "x", ty := .bool } := by
  intro env e
  have hcontainer : env.container = {} := rfl
  have hscope := check_lexicalScope hcontainer {} e
  constructor
  · intro i t hit
    suffices h : ∃ p ∈ (walkExpr ⟨env, {}⟩ e).points, p.action = .enter (.ident i "x") ∧
        p.env.lookupIdent? "x" = some { name := "x", ty := t } by
      obtain ⟨p, hp, ha, hd⟩ := h
      obtain ⟨⟨fs, hsite, -, -, hlookup, -⟩, -⟩ := hscope.2 p hp _ ha
      exact ⟨p, hp, ha, hd, fs, hsite, hlookup "x" (by decide)⟩
    rw [points_walkExpr]
    simp only [List.mem_cons, Prod.mk.injEq, List.not_mem_nil, or_false] at hit
    rcases hit with ⟨rfl, rfl⟩ | ⟨rfl, rfl⟩ | ⟨rfl, rfl⟩
    · exact ⟨_, List.mem_of_getElem? (i := 7) rfl, rfl, rfl⟩
    · exact ⟨_, List.mem_of_getElem? (i := 13) rfl, rfl, rfl⟩
    · exact ⟨_, List.mem_of_getElem? (i := 16) rfl, rfl, rfl⟩
  · obtain ⟨⟨e', s⟩, hs⟩ : ∃ r, checkExpr env {} e = .ok r := ⟨_, rfl⟩
    have hw : (walkExpr ⟨env, {}⟩ e).result = .ok (e', ⟨env, s⟩) := by
      rw [hscope.1, hs]
      rfl
    have henter : ⟨env, {}, .enter e⟩ ∈ (walkExpr ⟨env, {}⟩ e).points := by
      rw [points_walkExpr]
      exact mem_points_enter env {} e
    obtain ⟨henv, -⟩ := (hscope.2 _ henter e rfl).2.2 e' _ hw
    exact ⟨e', _, hw, henv, rfl⟩

end ExprTyping.Checker
