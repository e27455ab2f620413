import Ximg.Library.Interleaving
import Ximg.Library.Simulation

/-!
# Programs that wait for each other

A loop around an atomic instruction makes the same call again until its answer ends the loop. The
programs of one pool perform those of a more abstract one: a call is silent there, or it is where
the next call of the abstract program takes place.
-/

namespace Calls

variable {S T : Signature} {α β σ υ τ ι : Type}

/-! ## A program that performs another one -/

namespace Prog
variable {answers : τ → (op : S.Op) → S.Res op → Prop}
  {moves : τ → (op : S.Op) → S.Res op → Option ((op : T.Op) × T.Res op) → τ → Prop}

/-- From stage `t` the program goes as the moves tell, and makes the calls of `q` on its way. The
answers are those that a call at a stage may end with. -/
def Performs (answers : τ → (op : S.Op) → S.Res op → Prop)
    (moves : τ → (op : S.Op) → S.Res op → Option ((op : T.Op) × T.Res op) → τ → Prop)
    (Q : α → τ → Prop) : Prog S α → τ → Prog T α → Prop
  | ret a, t, q => q = .ret a ∧ Q a t
  | call op k, t, q => ∀ r, answers t op r → ∃ t',
      (moves t op r none t' ∧ (k r).Performs answers moves Q t' q) ∨
      ∃ op' r' k', q = .call op' k' ∧ moves t op r (some ⟨op', r'⟩) t' ∧
        (k r).Performs answers moves Q t' (k' r')

theorem Performs.bind {Q : α → τ → Prop} {Q' : β → τ → Prop} {p : Prog S α} {q : Prog T α}
    {f : α → Prog S β} {g : α → Prog T β} {t : τ} (first : p.Performs answers moves Q t q)
    (rest : ∀ a t', Q a t' → (f a).Performs answers moves Q' t' (g a)) :
    (p >>= f).Performs answers moves Q' t (q >>= g) := by
  induction p generalizing t q with
  | ret a =>
      rw [first.1]
      exact rest a t first.2
  | call op k ih =>
      intro r ends
      obtain ⟨t', silent | performed⟩ := first r ends
      · exact ⟨t', .inl ⟨silent.1, ih r silent.2⟩⟩
      · obtain ⟨op', r', k', rfl, move, performs⟩ := performed
        exact ⟨t', .inr ⟨op', r', fun r => k' r >>= g, rfl, move, ih r performs⟩⟩

theorem performs_translate {U : Signature} {Q : τ → Prop}
    {fine : (op : U.Op) → Prog S (U.Res op)} {coarse : (op : U.Op) → Prog T (U.Res op)}
    (each : ∀ op t, Q t → (fine op).Performs answers moves (fun _ t => Q t) t (coarse op))
    (p : Prog U α) {t : τ} (start : Q t) :
    (Prog.translate fine p).Performs answers moves (fun _ t => Q t) t
      (Prog.translate coarse p) := by
  induction p generalizing t with
  | ret a => exact ⟨rfl, start⟩
  | call op k ih => exact (each op t start).bind fun r t' holds => ih r holds

end Prog

/-! ## Runs with loops -/

namespace Machine
variable [DecidableEq ι] (M : Machine S σ) (again : (op : S.Op) → S.Res op → Bool)

/-- One program makes its next call, and stands where it stood if the call is made again. -/
inductive Loops : Pool S ι α σ → Pool S ι α σ → Prop where
  | retry {pool : Pool S ι α σ} (i : ι) {op : S.Op} {k : S.Res op → Prog S α} {r : S.Res op}
      (turn : pool.progs i = .call op k) (legal : M.Legal pool.state op r)
      (repeats : again op r = true) : Loops pool ⟨pool.progs, M.effect pool.state op r⟩
  | call {pool : Pool S ι α σ} (i : ι) {op : S.Op} {k : S.Res op → Prog S α} {r : S.Res op}
      (turn : pool.progs i = .call op k) (legal : M.Legal pool.state op r)
      (ends : again op r = false) :
      Loops pool ⟨Function.update pool.progs i (k r), M.effect pool.state op r⟩

def Takes (A : Machine T υ) (a : υ) : Option ((op : T.Op) × T.Res op) → υ → Prop
  | none, a' => a' = a
  | some ⟨op, r⟩, a' => A.Legal a op r ∧ a' = A.effect a op r

variable {M again} {A : Machine T υ} {answers : τ → (op : S.Op) → S.Res op → Prop}
  {moves : ι → τ → (op : S.Op) → S.Res op → Option ((op : T.Op) × T.Res op) → τ → Prop}
  {Q : α → τ → Prop} {I : (ι → τ) → σ → υ → Prop}

def Matched (answers : τ → (op : S.Op) → S.Res op → Prop)
    (moves : ι → τ → (op : S.Op) → S.Res op → Option ((op : T.Op) × T.Res op) → τ → Prop)
    (Q : α → τ → Prop) (I : (ι → τ) → σ → υ → Prop) (pool : Pool S ι α σ)
    (abstract : Pool T ι α υ) : Prop :=
  ∃ stages : ι → τ,
    (∀ i, (pool.progs i).Performs answers (moves i) Q (stages i) (abstract.progs i)) ∧
    I stages pool.state abstract.state

theorem performs_update {progs : ι → Prog S α} {abstract : ι → Prog T α} {stages : ι → τ}
    (performs : ∀ i, (progs i).Performs answers (moves i) Q (stages i) (abstract i)) {i : ι}
    {p : Prog S α} {t : τ} {q : Prog T α} (here : p.Performs answers (moves i) Q t q) (j : ι) :
    (Function.update progs i p j).Performs answers (moves j) Q (Function.update stages i t j)
      (Function.update abstract i q j) := by
  by_cases same : j = i
  · subst same
    simpa using here
  · simpa [same] using performs j

theorem Loops.matched
    (retry : ∀ stages s a op r, again op r = true → M.Legal s op r → I stages s a →
      I stages (M.effect s op r) a)
    (known : ∀ stages s a i op r, again op r = false → M.Legal s op r → I stages s a →
      answers (stages i) op r)
    (step : ∀ stages s a i op r label t', moves i (stages i) op r label t' →
      M.Legal s op r → I stages s a →
      ∃ a', A.Takes a label a' ∧ I (Function.update stages i t') (M.effect s op r) a')
    {pool pool' : Pool S ι α σ} {abstract : Pool T ι α υ} (loops : M.Loops again pool pool')
    (matched : Matched answers moves Q I pool abstract) :
    ∃ abstract', Relation.ReflTransGen (A.Advances fun _ _ => true) abstract abstract' ∧
      Matched answers moves Q I pool' abstract' := by
  obtain ⟨stages, performs, holds⟩ := matched
  cases loops with
  | retry i turn legal repeats =>
      exact ⟨abstract, .refl, stages, performs, retry _ _ _ _ _ repeats legal holds⟩
  | @call i op k r turn legal ends =>
      have here := performs i
      rw [turn] at here
      obtain ⟨t', silent | performed⟩ := here r (known _ _ _ i _ _ ends legal holds)
      · obtain ⟨a', rfl, holds'⟩ := step _ _ _ i _ _ _ _ silent.1 legal holds
        refine ⟨abstract, .refl, _, fun j => ?_, holds'⟩
        rw [← Function.update_eq_self i abstract.progs]
        exact performs_update performs silent.2 j
      · obtain ⟨op', r', k', next, move, rest⟩ := performed
        obtain ⟨a', ⟨legal', rfl⟩, holds'⟩ := step _ _ _ i _ _ _ _ move legal holds
        exact ⟨_, .single (.call i next rfl legal'), _, performs_update performs rest, holds'⟩

/-- Every run of the pool is a run of the abstract one. -/
theorem matched_run
    (retry : ∀ stages s a op r, again op r = true → M.Legal s op r → I stages s a →
      I stages (M.effect s op r) a)
    (known : ∀ stages s a i op r, again op r = false → M.Legal s op r → I stages s a →
      answers (stages i) op r)
    (step : ∀ stages s a i op r label t', moves i (stages i) op r label t' →
      M.Legal s op r → I stages s a →
      ∃ a', A.Takes a label a' ∧ I (Function.update stages i t') (M.effect s op r) a')
    {pool pool' : Pool S ι α σ} {abstract : Pool T ι α υ}
    (run : Relation.ReflTransGen (M.Loops again) pool pool')
    (matched : Matched answers moves Q I pool abstract) :
    ∃ abstract', Relation.ReflTransGen (A.Advances fun _ _ => true) abstract abstract' ∧
      Matched answers moves Q I pool' abstract' := by
  induction run with
  | refl => exact ⟨abstract, .refl, matched⟩
  | tail _ loops ih =>
      obtain ⟨between, before, matched⟩ := ih
      obtain ⟨after, steps, matched⟩ := loops.matched retry known step matched
      exact ⟨after, before.trans steps, matched⟩

/-! ## Running a schedule -/

section Schedule
variable (M again) (answer : σ → (op : S.Op) → S.Res op)

def loopTurn (pool : Pool S ι α σ) (i : ι) : Pool S ι α σ :=
  match pool.progs i with
  | .ret _ => pool
  | .call op k =>
      let r := answer pool.state op
      if again op r then ⟨pool.progs, M.effect pool.state op r⟩
      else ⟨Function.update pool.progs i (k r), M.effect pool.state op r⟩

def loopSchedule (pool : Pool S ι α σ) (turns : List ι) : Pool S ι α σ :=
  turns.foldl (M.loopTurn again answer) pool

variable {M again answer}

theorem loopSchedule_run (legal : ∀ s op, M.Legal s op (answer s op)) (pool : Pool S ι α σ)
    (turns : List ι) :
    Relation.ReflTransGen (M.Loops again) pool (M.loopSchedule again answer pool turns) := by
  induction turns generalizing pool with
  | nil => exact .refl
  | cons i turns ih =>
      apply Relation.ReflTransGen.trans _ (ih (M.loopTurn again answer pool i))
      unfold loopTurn
      split
      · exact .refl
      · rename_i op k turn
        dsimp only
        split
        · rename_i repeats
          exact .single (.retry i turn (legal pool.state op) repeats)
        · rename_i ends
          exact .single (.call i turn (legal pool.state op) (Bool.not_eq_true _ ▸ ends))

end Schedule
end Machine
end Calls
