import Ximg.Library.Program

/-!
# Programs whose calls are programs

A program over one signature is run by answering each of its calls with a program over another,
which passes a state along. When the answers do not depend on that state, the run makes the same
calls as the run in which they are fixed.
-/

namespace Calls
open Prog

variable {S T : Signature} {α β τ σ : Type}

namespace Prog

def interpret (h : (op : S.Op) → τ → Prog T (S.Res op × τ)) : Prog S α → τ → Prog T (α × τ)
  | ret a, t => ret (a, t)
  | call op k, t => h op t >>= fun r => (k r.1).interpret h r.2

end Prog

theorem Prog.Uses.interpret {allowed : T.Op → Prop}
    {h : (op : S.Op) → τ → Prog T (S.Res op × τ)} (uses : ∀ op t, (h op t).Uses allowed)
    (p : Prog S α) (t : τ) : (p.interpret h t).Uses allowed := by
  induction p generalizing t with
  | ret a => trivial
  | call op k ih => exact (uses op t).bind fun r => ih r.1 r.2

def scripted (answer : (op : S.Op) → S.Res op) (p : Prog S α) (calls : List (Event S)) :
    α × List (Event S) :=
  (recorder S).exec (fun _ op => answer op) p calls

theorem scripted_call (answer : (op : S.Op) → S.Res op) (op : S.Op) (k : S.Res op → Prog S α)
    (calls : List (Event S)) :
    scripted answer (.call op k) calls =
      scripted answer (k (answer op)) (calls ++ [⟨op, answer op⟩]) := rfl

theorem scripted_extends (answer : (op : S.Op) → S.Res op) (p : Prog S α)
    (calls : List (Event S)) : calls <+: (scripted answer p calls).2 := by
  induction p generalizing calls with
  | ret a => exact List.prefix_rfl
  | call op k ih => exact (List.prefix_append _ _).trans (ih _ _)

theorem scripted_bind (answer : (op : S.Op) → S.Res op) (p : Prog S α) (f : α → Prog S β)
    (calls : List (Event S)) :
    scripted answer (p >>= f) calls =
      scripted answer (f (scripted answer p calls).1) (scripted answer p calls).2 := by
  induction p generalizing calls with
  | ret a => rfl
  | call op k ih => exact ih _ _

theorem scripted_append (answer : (op : S.Op) → S.Res op) (p : Prog S α)
    (calls calls' : List (Event S)) :
    scripted answer p (calls ++ calls') =
      ((scripted answer p calls').1, calls ++ (scripted answer p calls').2) := by
  induction p generalizing calls' with
  | ret a => rfl
  | call op k ih =>
      rw [scripted_call, scripted_call, List.append_assoc]
      exact ih _ _

theorem scripted_congr {answer answer' : (op : S.Op) → S.Res op} {p : Prog S α}
    {calls : List (Event S)}
    (agree : ∀ e ∈ (scripted answer p calls).2, answer' e.1 = answer e.1) :
    scripted answer' p calls = scripted answer p calls := by
  induction p generalizing calls with
  | ret a => rfl
  | call op k ih =>
      have here : (⟨op, answer op⟩ : Event S) ∈ (scripted answer (.call op k) calls).2 :=
        (scripted_extends answer (k (answer op)) _).subset
          (List.mem_append_right _ (List.mem_singleton_self _))
      have same : answer' op = answer op := agree _ here
      rw [scripted_call, scripted_call, same]
      exact ih _ agree

theorem scripted_post {M : Machine S (List (Event S))} {answer : (op : S.Op) → S.Res op}
    (records : ∀ calls op r, M.effect calls op r = calls ++ [⟨op, r⟩])
    (legal : ∀ calls op, M.Legal calls op (answer op)) {p : Prog S α} {calls : List (Event S)}
    {Q : α → List (Event S) → Prop} (h : M.wp p Q calls) :
    Q (scripted answer p calls).1 (scripted answer p calls).2 := by
  induction p generalizing calls with
  | ret a => exact h
  | call op k ih =>
      rw [scripted_call, ← records]
      exact ih _ (h (answer op) (legal calls op))

/-- A relation that each call of the scripted run keeps holds after the interpreted run, which has
the result of the scripted one. -/
theorem wp_interpret {M : Machine T σ} {h : (op : S.Op) → τ → Prog T (S.Res op × τ)}
    {answer : (op : S.Op) → S.Res op} {R : List (Event S) → τ → σ → Prop} {p : Prog S α}
    {calls : List (Event S)} {t : τ} {s : σ}
    (step : ∀ calls' op t s, calls' ++ [⟨op, answer op⟩] <+: (scripted answer p calls).2 →
      R calls' t s →
      M.wp (h op t) (fun r s' => r.1 = answer op ∧ R (calls' ++ [⟨op, answer op⟩]) r.2 s') s)
    (initial : R calls t s) :
    M.wp (p.interpret h t) (fun r s' => r.1 = (scripted answer p calls).1 ∧
      R (scripted answer p calls).2 r.2 s') s := by
  induction p generalizing calls t s with
  | ret a => exact ⟨rfl, initial⟩
  | call op k ih =>
      rw [interpret, Machine.wp_bind]
      refine Machine.wp_mono (step calls op t s (scripted_extends answer _ _) initial) ?_
      rintro ⟨r, t'⟩ s' ⟨same, kept⟩
      obtain rfl : r = answer op := same
      exact ih _ step kept

end Calls
