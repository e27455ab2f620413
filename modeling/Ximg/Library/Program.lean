import Mathlib.Control.Basic
import Mathlib.Data.List.Forall2
import Mathlib.Tactic.Basic
import Mathlib.Tactic.Choose

/-!
# Programs over a signature of calls

A program is a tree of calls to its environment. A machine gives the calls their meaning on a
state: which answers may come, and what an answer does to the state. The same program is then run
once, run against every answer, or served request by request.
-/

namespace Calls

structure Signature where
  Op : Type
  Res : Op → Type

variable {S T : Signature} {α β γ σ : Type}

inductive Prog (S : Signature) (α : Type) where
  | ret (a : α)
  | call (op : S.Op) (k : S.Res op → Prog S α)

abbrev Event (S : Signature) := (op : S.Op) × S.Res op

namespace Prog

def bind : Prog S α → (α → Prog S β) → Prog S β
  | ret a, f => f a
  | call op k, f => call op fun r => (k r).bind f

instance : Monad (Prog S) where
  pure := ret
  bind := bind

def perform (op : S.Op) : Prog S (S.Res op) := call op ret

@[simp] theorem pure_eq (a : α) : (pure a : Prog S α) = ret a := rfl

@[simp] theorem ret_bind (a : α) (f : α → Prog S β) : (ret a : Prog S α) >>= f = f a := rfl

@[simp] theorem call_bind (op : S.Op) (k : S.Res op → Prog S α) (f : α → Prog S β) :
    call op k >>= f = call op fun r => k r >>= f := rfl

@[simp] theorem perform_bind (op : S.Op) (f : S.Res op → Prog S β) :
    perform op >>= f = call op f := rfl

theorem bind_ret (p : Prog S α) : p >>= ret = p := by
  induction p with
  | ret a => rfl
  | call op k ih => rw [call_bind, funext ih]

theorem bind_assoc (p : Prog S α) (f : α → Prog S β) (g : β → Prog S γ) :
    p >>= f >>= g = p >>= fun a => f a >>= g := by
  induction p with
  | ret a => rfl
  | call op k ih => simp only [call_bind, ih]

instance : LawfulMonad (Prog S) :=
  LawfulMonad.mk' _ bind_ret (fun _ _ => rfl) bind_assoc

def Uses (allowed : S.Op → Prop) : Prog S α → Prop
  | ret _ => True
  | call op k => allowed op ∧ ∀ r, (k r).Uses allowed

theorem Uses.bind {allowed : S.Op → Prop} {p : Prog S α} {f : α → Prog S β}
    (first : p.Uses allowed) (rest : ∀ a, (f a).Uses allowed) : (p >>= f).Uses allowed := by
  induction p with
  | ret a => exact rest a
  | call op k ih => exact ⟨first.1, fun r => ih r (first.2 r)⟩

theorem Uses.mono {allowed allowed' : S.Op → Prop} {p : Prog S α} (uses : p.Uses allowed)
    (implies : ∀ op, allowed op → allowed' op) : p.Uses allowed' := by
  induction p with
  | ret a => trivial
  | call op k ih => exact ⟨implies op uses.1, fun r => ih r (uses.2 r)⟩

def MayCall (kind : S.Op → Prop) : Prog S α → Prop
  | ret _ => False
  | call op k => kind op ∨ ∃ r, (k r).MayCall kind

theorem MayCall.bind {kind : S.Op → Prop} {p : Prog S α} {f : α → Prog S β}
    (reached : p.MayCall kind) : (p >>= f).MayCall kind := by
  induction p with
  | ret a => exact reached.elim
  | call op k ih => exact reached.imp_right fun ⟨r, later⟩ => ⟨r, ih r later⟩

theorem Uses.mayCall {allowed kind : S.Op → Prop} {p : Prog S α} (uses : p.Uses allowed)
    (reached : p.MayCall kind) : ∃ op, allowed op ∧ kind op := by
  induction p with
  | ret a => exact reached.elim
  | call op k ih =>
      cases reached with
      | inl here => exact ⟨op, uses.1, here⟩
      | inr later =>
          obtain ⟨r, later⟩ := later
          exact ih r (uses.2 r) later

def Yields (allowed : S.Op → Prop) (Q : α → Prop) : Prog S α → Prop
  | ret a => Q a
  | call op k => allowed op ∧ ∀ r, (k r).Yields allowed Q

theorem Yields.bind {allowed : S.Op → Prop} {Q : α → Prop} {Q' : β → Prop} {p : Prog S α}
    {f : α → Prog S β} (first : p.Yields allowed Q)
    (rest : ∀ a, Q a → (f a).Yields allowed Q') : (p >>= f).Yields allowed Q' := by
  induction p with
  | ret a => exact rest a first
  | call op k ih => exact ⟨first.1, fun r => ih r (first.2 r)⟩

theorem Yields.mono {allowed allowed' : S.Op → Prop} {Q : α → Prop} {p : Prog S α}
    (yields : p.Yields allowed Q) (implies : ∀ op, allowed op → allowed' op) :
    p.Yields allowed' Q := by
  induction p with
  | ret a => exact yields
  | call op k ih => exact ⟨implies op yields.1, fun r => ih r (yields.2 r)⟩

theorem yields_true (p : Prog S α) : p.Yields (fun _ => True) fun _ => True := by
  induction p with
  | ret a => trivial
  | call op k ih => exact ⟨trivial, ih⟩

theorem Yields.uses {allowed : S.Op → Prop} {Q : α → Prop} {p : Prog S α} {f : α → Prog S β}
    (first : p.Yields allowed Q) (rest : ∀ a, Q a → (f a).Uses allowed) :
    (p >>= f).Uses allowed := by
  induction p with
  | ret a => exact rest a first
  | call op k ih => exact ⟨first.1, fun r => ih r (first.2 r)⟩

/-- Every run ends with a final call, after which nothing is called, and makes other calls before. -/
def EndsWith (before final : S.Op → Prop) : Prog S α → Prop
  | ret _ => False
  | call op k => (final op ∧ ∀ r, ∃ a, k r = ret a) ∨ (before op ∧ ∀ r, (k r).EndsWith before final)

theorem EndsWith.after {before final : S.Op → Prop} {p : Prog S α} {f : α → Prog S β}
    (first : p.Uses before) (rest : ∀ a, (f a).EndsWith before final) :
    (p >>= f).EndsWith before final := by
  induction p with
  | ret a => exact rest a
  | call op k ih => exact .inr ⟨first.1, fun r => ih r (first.2 r)⟩

theorem EndsWith.map {before final : S.Op → Prop} {p : Prog S α} (ends : p.EndsWith before final)
    (f : α → β) : (p >>= fun a => ret (f a)).EndsWith before final := by
  induction p with
  | ret a => exact ends.elim
  | call op k ih =>
      refine ends.imp (fun last => ⟨last.1, fun r => ?_⟩) fun later =>
        ⟨later.1, fun r => ih r (later.2 r)⟩
      obtain ⟨a, same⟩ := last.2 r
      refine ⟨f a, ?_⟩
      show k r >>= _ = _
      rw [same, ret_bind]

theorem EndsWith.uses {before final allowed : S.Op → Prop} {p : Prog S α}
    (ends : p.EndsWith before final) (first : ∀ op, before op → allowed op)
    (last : ∀ op, final op → allowed op) : p.Uses allowed := by
  induction p with
  | ret a => trivial
  | call op k ih =>
      rcases ends with ⟨here, returns⟩ | ⟨here, later⟩
      · refine ⟨last op here, fun r => ?_⟩
        obtain ⟨a, same⟩ := returns r
        rw [same]
        trivial
      · exact ⟨first op here, fun r => ih r (later r)⟩

end Prog

open Prog

structure Machine (S : Signature) (σ : Type) where
  Legal : σ → (op : S.Op) → S.Res op → Prop
  effect : σ → (op : S.Op) → S.Res op → σ

namespace Machine
variable (M : Machine S σ)

def exec (answer : σ → (op : S.Op) → S.Res op) : Prog S α → σ → α × σ
  | ret a, s => (a, s)
  | call op k, s => exec answer (k (answer s op)) (M.effect s op (answer s op))

def Runs : Prog S α → σ → α → σ → Prop
  | ret a, s, a', s' => a' = a ∧ s' = s
  | call op k, s, a', s' => ∃ r, M.Legal s op r ∧ Runs (k r) (M.effect s op r) a' s'

def wp : Prog S α → (α → σ → Prop) → σ → Prop
  | ret a, Q, s => Q a s
  | call op k, Q, s => ∀ r, M.Legal s op r → wp (k r) Q (M.effect s op r)

/-! ## Rules for postconditions -/

@[simp] theorem wp_ret (a : α) (Q : α → σ → Prop) (s : σ) : M.wp (ret a) Q s ↔ Q a s := Iff.rfl

theorem wp_calm {s : σ} {op : S.Op} {a : S.Res op} (k : S.Res op → Prog S α) (Q : α → σ → Prop)
    (calm : ∀ r, M.Legal s op r ↔ r = a) :
    M.wp (call op k) Q s ↔ M.wp (k a) Q (M.effect s op a) := by
  constructor
  · exact fun h => h a ((calm a).mpr rfl)
  · intro h r legal
    rw [(calm r).mp legal]
    exact h

theorem wp_iff_runs (p : Prog S α) (Q : α → σ → Prop) (s : σ) :
    M.wp p Q s ↔ ∀ a s', M.Runs p s a s' → Q a s' := by
  induction p generalizing s with
  | ret a =>
      constructor
      · rintro h _ _ ⟨rfl, rfl⟩
        exact h
      · intro h
        exact h a s ⟨rfl, rfl⟩
  | call op k ih =>
      constructor
      · rintro h a s' ⟨r, legal, run⟩
        exact (ih r _).mp (h r legal) a s' run
      · intro h r legal
        exact (ih r _).mpr fun a s' run => h a s' ⟨r, legal, run⟩

theorem wp_bind (p : Prog S α) (f : α → Prog S β) (Q : β → σ → Prop) (s : σ) :
    M.wp (p >>= f) Q s ↔ M.wp p (fun a s' => M.wp (f a) Q s') s := by
  induction p generalizing s with
  | ret a => rfl
  | call op k ih => exact forall_congr' fun r => imp_congr_right fun _ => ih r _

variable {M}

theorem wp_mono {p : Prog S α} {Q Q' : α → σ → Prop} {s : σ} (h : M.wp p Q s)
    (implies : ∀ a s', Q a s' → Q' a s') : M.wp p Q' s := by
  induction p generalizing s with
  | ret a => exact implies a s h
  | call op k ih => exact fun r legal => ih r (h r legal)

theorem wp_and {p : Prog S α} {Q Q' : α → σ → Prop} {s : σ} (h : M.wp p Q s) (h' : M.wp p Q' s) :
    M.wp p (fun a s' => Q a s' ∧ Q' a s') s := by
  induction p generalizing s with
  | ret a => exact ⟨h, h'⟩
  | call op k ih => exact fun r legal => ih r (h r legal) (h' r legal)

theorem wp_true (p : Prog S α) (s : σ) : M.wp p (fun _ _ => True) s := by
  induction p generalizing s with
  | ret a => trivial
  | call op k ih => exact fun r _ => ih r _

theorem wp_of_uses {allowed : S.Op → Prop} {R : σ → Prop} {p : Prog S α} {s : σ}
    (uses : p.Uses allowed)
    (step : ∀ s op r, allowed op → R s → M.Legal s op r → R (M.effect s op r)) (h : R s) :
    M.wp p (fun _ s' => R s') s := by
  induction p generalizing s with
  | ret a => exact h
  | call op k ih => exact fun r legal => ih r (uses.2 r) (step s op r uses.1 h legal)

theorem wp_of_yields {allowed : S.Op → Prop} {Q : α → Prop} {p : Prog S α} {s : σ}
    (yields : p.Yields allowed Q) : M.wp p (fun a _ => Q a) s := by
  induction p generalizing s with
  | ret a => exact yields
  | call op k ih => exact fun r _ => ih r (yields.2 r)

variable (M)

/-! ## Runs -/

variable {M}

theorem exec_runs {answer : σ → (op : S.Op) → S.Res op} (legal : ∀ s op, M.Legal s op (answer s op))
    (p : Prog S α) (s : σ) : M.Runs p s (M.exec answer p s).1 (M.exec answer p s).2 := by
  induction p generalizing s with
  | ret a => exact ⟨rfl, rfl⟩
  | call op k ih => exact ⟨_, legal s op, ih _ _⟩

theorem runs_exists (answers : ∀ s op, ∃ r, M.Legal s op r) (p : Prog S α) (s : σ) :
    ∃ a s', M.Runs p s a s' := by
  choose answer legal using answers
  exact ⟨_, _, exec_runs legal p s⟩

theorem runs_exists_of_uses {allowed : S.Op → Prop} {p : Prog S α} (uses : p.Uses allowed)
    (answers : ∀ s op, allowed op → ∃ r, M.Legal s op r) (s : σ) : ∃ a s', M.Runs p s a s' := by
  induction p generalizing s with
  | ret a => exact ⟨a, s, rfl, rfl⟩
  | call op k ih =>
      obtain ⟨r, legal⟩ := answers s op uses.1
      obtain ⟨a, s', run⟩ := ih r (uses.2 r) (M.effect s op r)
      exact ⟨a, s', r, legal, run⟩

theorem Runs.post {p : Prog S α} {Q : α → σ → Prop} {s s' : σ} {a : α}
    (run : M.Runs p s a s') (h : M.wp p Q s) : Q a s' :=
  (M.wp_iff_runs p Q s).mp h a s' run

variable (M) in
/-- Some run returns, and every one that returns ends as described. -/
def Returns (p : Prog S α) (Q : α → σ → Prop) (s : σ) : Prop :=
  (∃ a s', M.Runs p s a s') ∧ M.wp p Q s

theorem returns_iff {p : Prog S α} {Q : α → σ → Prop} {P : Prop} {s : σ}
    (runs : ∃ a s', M.Runs p s a s') (each : M.wp p (fun a s' => Q a s' ↔ P) s) :
    M.Returns p Q s ↔ P := by
  constructor
  · intro returns
    obtain ⟨a, s', run⟩ := runs
    exact (run.post each).mp (run.post returns.2)
  · exact fun holds => ⟨runs, wp_mono each fun _ _ same => same.mpr holds⟩

end Machine

/-! ## Recording the calls -/

/-- Every answer is legal, and the state is the list of the calls made so far. -/
def recorder (S : Signature) : Machine S (List (Event S)) where
  Legal _ _ _ := True
  effect calls op r := calls ++ [⟨op, r⟩]

theorem recorder_call (op : S.Op) (k : S.Res op → Prog S α) (Q : α → List (Event S) → Prop)
    (calls : List (Event S)) :
    (recorder S).wp (call op k) Q calls ↔
      ∀ r, (recorder S).wp (k r) Q (calls ++ [⟨op, r⟩]) :=
  forall_congr' fun _ => ⟨fun h => h trivial, fun h _ => h⟩

theorem recorder_uses {allowed : S.Op → Prop} {p : Prog S α} (uses : p.Uses allowed)
    (calls : List (Event S)) :
    (recorder S).wp p (fun _ calls' => ∃ more, calls' = calls ++ more ∧
      ∀ e ∈ more, allowed e.1) calls := by
  refine Machine.wp_of_uses (R := fun calls' => ∃ more, calls' = calls ++ more ∧
    ∀ e ∈ more, allowed e.1) uses ?_ ⟨[], by simp, by simp⟩
  rintro _ op r ok ⟨more, rfl, within⟩ -
  refine ⟨more ++ [⟨op, r⟩], by simp [recorder], ?_⟩
  intro e member
  rcases List.mem_append.mp member with member | member
  · exact within e member
  · rw [List.mem_singleton.mp member]
    exact ok

/-! ## Serving a sequence of requests -/

section Serving
variable {Q : Type} (M : Q → Machine S σ) (handle : Q → Prog S α)

/-- The requests are handled one after the other, each by its own machine. -/
inductive Serves : σ → List (Q × α) → σ → Prop where
  | nil (s : σ) : Serves s [] s
  | cons {s s' s'' : σ} {q : Q} {a : α} {rest : List (Q × α)}
      (run : (M q).Runs (handle q) s a s') (tail : Serves s' rest s'') :
      Serves s ((q, a) :: rest) s''

variable {M handle}

theorem serves_append {s s' : σ} {h h' : List (Q × α)} :
    Serves M handle s (h ++ h') s' ↔
      ∃ t, Serves M handle s h t ∧ Serves M handle t h' s' := by
  induction h generalizing s with
  | nil =>
      constructor
      · exact fun served => ⟨s, .nil s, served⟩
      · rintro ⟨_, ⟨⟩, served⟩
        exact served
  | cons x xs ih =>
      constructor
      · rintro (_ | ⟨run, tail⟩)
        obtain ⟨t, first, second⟩ := ih.mp tail
        exact ⟨t, .cons run first, second⟩
      · rintro ⟨t, _ | ⟨run, first⟩, second⟩
        exact .cons run (ih.mpr ⟨t, first, second⟩)

theorem Serves.split {s s' : σ} {q : Q} {a : α} {h h' : List (Q × α)}
    (served : Serves M handle s (h ++ (q, a) :: h') s') :
    ∃ t t', Serves M handle s h t ∧ (M q).Runs (handle q) t a t' ∧ Serves M handle t' h' s' := by
  obtain ⟨t, before, _ | ⟨run, tail⟩⟩ := serves_append.mp served
  exact ⟨t, _, before, run, tail⟩

/-- What each request keeps and guarantees, a whole sequence keeps and guarantees. -/
theorem Serves.always {P : Q → Prop} {I : σ → Prop} {G : Q → α → Prop}
    (step : ∀ q s, P q → I s → (M q).wp (handle q) (fun a s' => G q a ∧ I s') s)
    {s s' : σ} {h : List (Q × α)} (served : Serves M handle s h s')
    (requests : ∀ x ∈ h, P x.1) (initial : I s) : (∀ x ∈ h, G x.1 x.2) ∧ I s' := by
  induction served with
  | nil s => exact ⟨by simp, initial⟩
  | cons run tail ih =>
      have first := run.post (step _ _ (requests _ List.mem_cons_self) initial)
      have rest := ih (fun x member => requests x (List.mem_cons_of_mem _ member)) first.2
      exact ⟨List.forall_mem_cons.mpr ⟨first.1, rest.1⟩, rest.2⟩

/-! ## Refinement of a specification that answers each request -/

section Refinement
variable {τ : Type} (spec : τ → Q → α × τ)

def replies : τ → List Q → List (Q × α)
  | _, [] => []
  | t, q :: qs => (q, (spec t q).1) :: replies (spec t q).2 qs

def after : τ → List Q → τ
  | t, [] => t
  | t, q :: qs => after (spec t q).2 qs

variable {spec}

theorem Serves.refines {P : Q → Prop} {R : σ → τ → Prop}
    (step : ∀ q s t, P q → R s t →
      (M q).wp (handle q) (fun a s' => a = (spec t q).1 ∧ R s' (spec t q).2) s)
    {s s' : σ} {h : List (Q × α)} (served : Serves M handle s h s')
    (requests : ∀ x ∈ h, P x.1) {t : τ} (initial : R s t) :
    h = replies spec t (h.map Prod.fst) ∧ R s' (after spec t (h.map Prod.fst)) := by
  induction served generalizing t with
  | nil s => exact ⟨rfl, initial⟩
  | @cons s _ _ q a rest run tail ih =>
      have answered := run.post (step q s t (requests _ List.mem_cons_self) initial)
      have later := ih (fun x member => requests x (List.mem_cons_of_mem _ member)) answered.2
      simp only [List.map_cons, replies, after, ← answered.1]
      exact ⟨congrArg _ later.1, later.2⟩

end Refinement

/-! ## Following a specification that leaves answers open -/

section Tracking
variable {τ : Type} (next : τ → Q → τ) (G : τ → Q → α → Prop)

def Tracked : τ → List (Q × α) → Prop
  | _, [] => True
  | t, (q, a) :: h => G t q a ∧ Tracked (next t q) h

variable {next G}

theorem Serves.tracked {P : Q → Prop} {R : σ → τ → Prop}
    (step : ∀ q s t, P q → R s t →
      (M q).wp (handle q) (fun a s' => G t q a ∧ R s' (next t q)) s)
    {s s' : σ} {h : List (Q × α)} (served : Serves M handle s h s')
    (requests : ∀ x ∈ h, P x.1) {t : τ} (initial : R s t) : Tracked next G t h := by
  induction served generalizing t with
  | nil s => trivial
  | cons run tail ih =>
      have answered := run.post (step _ _ t (requests _ List.mem_cons_self) initial)
      exact ⟨answered.1, ih (fun x member => requests x (List.mem_cons_of_mem _ member)) answered.2⟩

theorem Tracked.agree {E : Q → α → α → Prop} (agree : ∀ t q a a', G t q a → G t q a' → E q a a')
    {h h' : List (Q × α)} {t : τ} (first : Tracked next G t h) (second : Tracked next G t h')
    (same : h.map Prod.fst = h'.map Prod.fst) :
    List.Forall₂ (fun x y => x.1 = y.1 ∧ E x.1 x.2 y.2) h h' := by
  induction h generalizing h' t with
  | nil =>
      rw [List.map_nil, eq_comm, List.map_eq_nil_iff] at same
      rw [same]
      exact .nil
  | cons x h ih =>
      obtain ⟨q, a⟩ := x
      cases h' with
      | nil => cases same
      | cons y h' =>
          obtain ⟨q', a'⟩ := y
          obtain ⟨rfl, rest⟩ := List.cons.inj same
          exact .cons ⟨rfl, agree t q a a' first.1 second.1⟩ (ih first.2 second.2 rest)

theorem Tracked.answer {H : Q → α → Prop} (holds : ∀ t q a, G t q a → H q a) {h : List (Q × α)}
    {t : τ} (tracked : Tracked next G t h) : ∀ x ∈ h, H x.1 x.2 := by
  induction h generalizing t with
  | nil => simp
  | cons x h ih =>
      obtain ⟨q, a⟩ := x
      exact List.forall_mem_cons.mpr ⟨holds t q a tracked.1, ih tracked.2⟩

end Tracking

theorem serves_exists {M : Q → Machine S σ} (answers : ∀ q s op, ∃ r, (M q).Legal s op r)
    (handle : Q → Prog S α) (s : σ) (qs : List Q) :
    ∃ h s', Serves M handle s h s' ∧ h.map Prod.fst = qs := by
  induction qs generalizing s with
  | nil => exact ⟨[], s, .nil s, rfl⟩
  | cons q qs ih =>
      obtain ⟨a, t, run⟩ := Machine.runs_exists (answers q) (handle q) s
      obtain ⟨h, s', served, requests⟩ := ih t
      exact ⟨(q, a) :: h, s', .cons run served, by simp [requests]⟩

end Serving
end Calls
