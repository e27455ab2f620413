import Ximg.Library.Program
import Mathlib.Logic.Function.Basic
import Mathlib.Logic.Relation

/-!
# Programs that run together

Several programs share one state. In one step the next call of one of them is answered, so that a
run interleaves whole calls. Where a program stands is told by a stage that its answered calls
move, and an invariant speaks of the stages and the state.
-/

namespace Calls

variable {S : Signature} {α β σ τ ι : Type}

/-! ## Programs and their stages -/

namespace Prog

def result : Prog S α → Option α
  | ret a => some a
  | call _ _ => none

variable {allowed : τ → S.Op → Prop} {next : τ → (op : S.Op) → S.Res op → τ}

/-- Every call is allowed at the stage it is made in, and the last stage fits the result. -/
def Follows (allowed : τ → S.Op → Prop) (next : τ → (op : S.Op) → S.Res op → τ)
    (Q : α → τ → Prop) : Prog S α → τ → Prop
  | ret a, t => Q a t
  | call op k, t => allowed t op ∧ ∀ r, (k r).Follows allowed next Q (next t op r)

theorem Follows.bind {Q : α → τ → Prop} {Q' : β → τ → Prop} {p : Prog S α} {f : α → Prog S β}
    {t : τ} (first : p.Follows allowed next Q t)
    (rest : ∀ a t', Q a t' → (f a).Follows allowed next Q' t') :
    (p >>= f).Follows allowed next Q' t := by
  induction p generalizing t with
  | ret a => exact rest a t first
  | call op k ih => exact ⟨first.1, fun r => ih r (first.2 r)⟩

theorem Follows.mono {Q Q' : α → τ → Prop} {p : Prog S α} {t : τ}
    (follows : p.Follows allowed next Q t) (implies : ∀ a t', Q a t' → Q' a t') :
    p.Follows allowed next Q' t := by
  induction p generalizing t with
  | ret a => exact implies a t follows
  | call op k ih => exact ⟨follows.1, fun r => ih r (follows.2 r)⟩

theorem Follows.of_result {Q : α → τ → Prop} {p : Prog S α} {t : τ} {a : α}
    (follows : p.Follows allowed next Q t) (ended : p.result = some a) : Q a t := by
  cases p with
  | ret a' =>
      cases ended
      exact follows
  | call op k => cases ended

end Prog

/-! ## Steps of one program among the others -/

structure Pool (S : Signature) (ι α σ : Type) where
  progs : ι → Prog S α
  state : σ

namespace Machine
variable [DecidableEq ι] (M : Machine S σ) (guard : σ → S.Op → Bool)

inductive Advances : Pool S ι α σ → Pool S ι α σ → Prop where
  | call {pool : Pool S ι α σ} (i : ι) {op : S.Op} {k : S.Res op → Prog S α} {r : S.Res op}
      (turn : pool.progs i = .call op k) (spared : guard pool.state op = true)
      (legal : M.Legal pool.state op r) :
      Advances pool ⟨Function.update pool.progs i (k r), M.effect pool.state op r⟩

variable {M guard} {allowed : τ → S.Op → Prop} {next : τ → (op : S.Op) → S.Res op → τ}
  {Q : α → τ → Prop} {I : (ι → τ) → σ → Prop}

def Staged (allowed : τ → S.Op → Prop) (next : τ → (op : S.Op) → S.Res op → τ)
    (Q : α → τ → Prop) (I : (ι → τ) → σ → Prop) (pool : Pool S ι α σ) : Prop :=
  ∃ stages : ι → τ, (∀ i, (pool.progs i).Follows allowed next Q (stages i)) ∧ I stages pool.state

theorem Advances.staged
    (step : ∀ stages s i op r, allowed (stages i) op → guard s op = true →
      M.Legal s op r → I stages s →
      I (Function.update stages i (next (stages i) op r)) (M.effect s op r))
    {pool pool' : Pool S ι α σ} (advances : M.Advances guard pool pool')
    (staged : Staged allowed next Q I pool) : Staged allowed next Q I pool' := by
  obtain ⟨stages, follows, holds⟩ := staged
  cases advances with
  | @call i op k r turn spared legal =>
      have here := follows i
      rw [turn] at here
      refine ⟨_, fun j => ?_, step stages pool.state i op r here.1 spared legal holds⟩
      show (Function.update pool.progs i (k r) j).Follows _ _ _ _
      by_cases same : j = i
      · rw [same, Function.update_self, Function.update_self]
        exact here.2 r
      · rw [Function.update_of_ne same, Function.update_of_ne same]
        exact follows j

/-- What every call keeps holds after every interleaving of the programs. -/
theorem staged_run
    (step : ∀ stages s i op r, allowed (stages i) op → guard s op = true →
      M.Legal s op r → I stages s →
      I (Function.update stages i (next (stages i) op r)) (M.effect s op r))
    {pool pool' : Pool S ι α σ} (run : Relation.ReflTransGen (M.Advances guard) pool pool')
    (staged : Staged allowed next Q I pool) : Staged allowed next Q I pool' := by
  induction run with
  | refl => exact staged
  | tail _ advances ih => exact advances.staged step ih

/-! ## Running a schedule -/

section Schedule
variable (M guard) (answer : σ → (op : S.Op) → S.Res op)

def turn (pool : Pool S ι α σ) (i : ι) : Pool S ι α σ :=
  match pool.progs i with
  | .ret _ => pool
  | .call op k =>
      if guard pool.state op then
        ⟨Function.update pool.progs i (k (answer pool.state op)),
          M.effect pool.state op (answer pool.state op)⟩
      else pool

def schedule (pool : Pool S ι α σ) (turns : List ι) : Pool S ι α σ :=
  turns.foldl (M.turn guard answer) pool

variable {M guard answer}

theorem schedule_run (legal : ∀ s op, M.Legal s op (answer s op)) (pool : Pool S ι α σ)
    (turns : List ι) :
    Relation.ReflTransGen (M.Advances guard) pool (M.schedule guard answer pool turns) := by
  induction turns generalizing pool with
  | nil => exact .refl
  | cons i turns ih =>
      apply Relation.ReflTransGen.trans _ (ih (M.turn guard answer pool i))
      unfold turn
      split
      · exact .refl
      · rename_i op k turn
        split
        · rename_i spared
          exact .single (.call i turn spared (legal pool.state op))
        · exact .refl

end Schedule
end Machine
end Calls
