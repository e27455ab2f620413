import Ximg.Library.Interpretation

/-!
# Simulating a specification

A program is translated by giving each of its calls a program over another signature. When each call
is simulated by a call of a specification, so are the runs of the translation, and the histories of a
server whose requests are handled by it. What only the end of a run shows may be assumed in its steps.
-/

namespace Calls
open Prog

variable {S T : Signature} {α β Q σ τ : Type}

/-! ## Programs in a larger signature -/

@[reducible] def Signature.sum (S T : Signature) : Signature where
  Op := S.Op ⊕ T.Op
  Res := Sum.elim S.Res T.Res

namespace Prog

def translate (h : (op : S.Op) → Prog T (S.Res op)) : Prog S α → Prog T α
  | ret a => ret a
  | call op k => h op >>= fun r => (k r).translate h

def left (p : Prog S α) : Prog (S.sum T) α := p.translate fun op => perform (S := S.sum T) (.inl op)

def right (p : Prog T α) : Prog (S.sum T) α := p.translate fun op => perform (S := S.sum T) (.inr op)

theorem translate_bind (h : (op : S.Op) → Prog T (S.Res op)) (p : Prog S α) (f : α → Prog S β) :
    (p >>= f).translate h = p.translate h >>= fun a => (f a).translate h := by
  induction p with
  | ret a => rfl
  | call op k ih =>
      simp only [call_bind, Prog.translate, bind_assoc]
      exact congrArg _ (funext ih)

theorem translate_left {U : Signature} (h : (op : (S.sum T).Op) → Prog U ((S.sum T).Res op))
    (p : Prog S α) : (left p).translate h = p.translate fun op => h (.inl op) := by
  induction p with
  | ret a => rfl
  | call op k ih => exact congrArg (h (.inl op) >>= ·) (funext ih)

theorem Uses.left {allowed : (S.sum T).Op → Prop} {p : Prog S α}
    (uses : p.Uses fun op => allowed (.inl op)) : (p.left (T := T)).Uses allowed := by
  induction p with
  | ret a => trivial
  | call op k ih => exact ⟨uses.1, fun r => ih r (uses.2 r)⟩

end Prog

namespace Machine

/-- Calls of another signature act on the same state and on one beside it. -/
def beside (M : Machine S σ) (N : Machine T (σ × τ)) : Machine (S.sum T) (σ × τ) where
  Legal s op r := match op, r with
    | .inl op, r => M.Legal s.1 op r
    | .inr op, r => N.Legal s op r
  effect s op r := match op, r with
    | .inl op, r => (M.effect s.1 op r, s.2)
    | .inr op, r => N.effect s op r

variable {M : Machine S σ} {N : Machine T (σ × τ)}

theorem wp_left {p : Prog S α} {Q : α → σ × τ → Prop} {s : σ × τ} :
    (M.beside N).wp (left p) Q s ↔ M.wp p (fun a s' => Q a (s', s.2)) s.1 := by
  induction p generalizing s with
  | ret a => rfl
  | call op k ih => exact forall_congr' fun r => imp_congr_right fun _ => ih r

def inner (M : Machine (S.sum T) σ) : Machine S σ where
  Legal s op r := M.Legal s (.inl op) r
  effect s op r := M.effect s (.inl op) r

theorem wp_inner {M : Machine (S.sum T) σ} {p : Prog S α} {Q : α → σ → Prop} {s : σ} :
    M.wp (left p) Q s ↔ M.inner.wp p Q s := by
  induction p generalizing s with
  | ret a => rfl
  | call op k ih => exact forall_congr' fun r => imp_congr_right fun _ => ih r

def attempt (M : Machine S σ) (answer : σ → (op : S.Op) → Option (S.Res op)) :
    Prog S α → σ → Option (α × σ)
  | ret a, s => some (a, s)
  | call op k, s => (answer s op).bind fun r => attempt M answer (k r) (M.effect s op r)

theorem attempt_runs {answer : σ → (op : S.Op) → Option (S.Res op)}
    (legal : ∀ s op r, answer s op = some r → M.Legal s op r) {p : Prog S α} {s s' : σ} {a : α}
    (found : M.attempt answer p s = some (a, s')) : M.Runs p s a s' := by
  induction p generalizing s with
  | ret b =>
      cases found
      exact ⟨rfl, rfl⟩
  | call op k ih =>
      obtain ⟨r, answered, found⟩ := Option.bind_eq_some_iff.mp found
      exact ⟨r, legal s op r answered, ih r found⟩

def attemptAll (M : Q → Machine S σ) (answer : σ → (op : S.Op) → Option (S.Res op))
    (handle : Q → Prog S α) : List Q → σ → Option (List (Q × α) × σ)
  | [], s => some ([], s)
  | q :: qs, s => ((M q).attempt answer (handle q) s).bind fun first =>
      (attemptAll M answer handle qs first.2).map fun rest => ((q, first.1) :: rest.1, rest.2)

theorem attemptAll_serves {M : Q → Machine S σ} {answer : σ → (op : S.Op) → Option (S.Res op)}
    {handle : Q → Prog S α} (legal : ∀ q s op r, answer s op = some r → (M q).Legal s op r)
    {qs : List Q} {s : σ} {history : List (Q × α)} {s' : σ}
    (found : attemptAll M answer handle qs s = some (history, s')) :
    history.map Prod.fst = qs ∧ Serves M handle s history s' := by
  induction qs generalizing s history with
  | nil =>
      cases found
      exact ⟨rfl, .nil _⟩
  | cons q qs ih =>
      obtain ⟨⟨a, s₁⟩, run, found⟩ := Option.bind_eq_some_iff.mp found
      obtain ⟨⟨rest, s₂⟩, runs, same⟩ := Option.map_eq_some_iff.mp found
      cases same
      obtain ⟨requests, served⟩ := ih runs
      exact ⟨congrArg (q :: ·) requests, .cons (attempt_runs (legal q) run) served⟩

end Machine

/-! ## Simulation -/

/-- Each call of the specification `A` is simulated by its translation. What is good at the end of a
run was good before it, and may be assumed of it. -/
structure Simulation (A : Machine S σ) (C : Machine T τ) (h : (op : S.Op) → Prog T (S.Res op))
    (allowed : S.Op → Prop) (Good : τ → Prop) (R : σ → τ → Prop) : Prop where
  back : ∀ op t, C.wp (h op) (fun _ t' => Good t' → Good t) t
  step : ∀ op s t, allowed op → R s t →
    C.wp (h op) (fun r t' => Good t' → A.Legal s op r ∧ R (A.effect s op r) t') t

namespace Simulation
variable {A : Machine S σ} {C : Machine T τ} {h : (op : S.Op) → Prog T (S.Res op)}
  {allowed : S.Op → Prop} {Good : τ → Prop} {R : σ → τ → Prop}

theorem good (sim : Simulation A C h allowed Good R) (p : Prog S α) (t : τ) :
    C.wp (p.translate h) (fun _ t' => Good t' → Good t) t := by
  induction p generalizing t with
  | ret a => exact id
  | call op k ih =>
      rw [Prog.translate, Machine.wp_bind]
      exact Machine.wp_mono (sim.back op t) fun r t' before =>
        Machine.wp_mono (ih r t') fun _ _ later good => before (later good)

theorem runs (sim : Simulation A C h allowed Good R) {p : Prog S α} (uses : p.Uses allowed)
    {s : σ} {t : τ} (related : R s t) :
    C.wp (p.translate h) (fun a t' => Good t' → ∃ s', A.Runs p s a s' ∧ R s' t') t := by
  induction p generalizing s t with
  | ret a => exact fun _ => ⟨s, ⟨rfl, rfl⟩, related⟩
  | call op k ih =>
      rw [Prog.translate, Machine.wp_bind]
      refine Machine.wp_mono (sim.step op s t uses.1 related) ?_
      intro r t' simulated
      by_cases good : Good t'
      · obtain ⟨legal, related'⟩ := simulated good
        refine Machine.wp_mono (ih r (uses.2 r) related') ?_
        intro a t'' later good'
        obtain ⟨s', run, related''⟩ := later good'
        exact ⟨s', ⟨r, legal, run⟩, related''⟩
      · exact Machine.wp_mono (sim.good (k r) t') fun _ _ before good' => absurd (before good') good

end Simulation

theorem wp_ends_translate {C : Machine T τ} {h : (op : S.Op) → Prog T (S.Res op)}
    {before final : S.Op → Prop} {I : τ → Prop} {Q : τ → Prop}
    (step : ∀ op t, before op → I t → C.wp (h op) (fun _ t' => I t') t)
    (last : ∀ op t, final op → I t → C.wp (h op) (fun _ t' => Q t') t) {p : Prog S α} {t : τ}
    (ends : p.EndsWith before final) (start : I t) : C.wp (p.translate h) (fun _ t' => Q t') t := by
  induction p generalizing t with
  | ret a => exact ends.elim
  | call op k ih =>
      rw [Prog.translate, Machine.wp_bind]
      rcases ends with ⟨here, returns⟩ | ⟨here, later⟩
      · refine Machine.wp_mono (last op t here start) fun r t' ended => ?_
        obtain ⟨a, same⟩ := returns r
        rw [same]
        exact ended
      · exact Machine.wp_mono (step op t here start) fun r t' kept => ih r (later r) kept

/-! ## Simulated histories -/

section Histories
variable {A : Q → Machine S σ} {C : Q → Machine T τ} {h : Q → (op : S.Op) → Prog T (S.Res op)}
  {allowed : Q → S.Op → Prop} {Good : τ → Prop} {R : σ → τ → Prop} {spec : Q → Prog S α}
  {P : Q → Prop}

theorem Serves.good (sim : ∀ q, P q → Simulation (A q) (C q) (h q) (allowed q) Good R) {t t' : τ}
    {history : List (Q × α)}
    (served : Serves C (fun q => (spec q).translate (h q)) t history t')
    (requests : ∀ x ∈ history, P x.1) (good : Good t') : Good t := by
  induction served with
  | nil t => exact good
  | cons run tail ih =>
      exact run.post ((sim _ (requests _ List.mem_cons_self)).good _ _)
        (ih (fun x member => requests x (List.mem_cons_of_mem _ member)) good)

/-- Every history of the translation is one of the specification. -/
theorem Serves.simulated
    (sim : ∀ q, P q → Simulation (A q) (C q) (h q) (allowed q) Good R)
    (uses : ∀ q, P q → (spec q).Uses (allowed q)) {t t' : τ} {history : List (Q × α)}
    (served : Serves C (fun q => (spec q).translate (h q)) t history t')
    (requests : ∀ x ∈ history, P x.1) (good : Good t') {s : σ} (related : R s t) :
    ∃ s', Serves A spec s history s' ∧ R s' t' := by
  induction served generalizing s with
  | nil t => exact ⟨s, .nil s, related⟩
  | cons run tail ih =>
      have here := requests _ List.mem_cons_self
      have later := fun x member => requests x (List.mem_cons_of_mem _ member)
      obtain ⟨s₁, run₁, related₁⟩ :=
        run.post ((sim _ here).runs (uses _ here) related) (tail.good sim later good)
      obtain ⟨s', served, related'⟩ := ih later good related₁
      exact ⟨s', .cons run₁ served, related'⟩

end Histories
end Calls
