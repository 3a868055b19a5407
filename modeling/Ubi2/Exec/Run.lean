import Ubi2.Exec.Apply

namespace Ubi2.Exec

open Ubi2.Runtime

-- What a block does to the state: its transactions in order, the sweeps that follow
-- them, and the validator refresh at an epoch boundary.
inductive Action where
  | tx (tx : KernelTx)
  | sweeps
  | refresh

structure Event where
  ctx : BlockCtx
  action : Action

-- `none` is a panic. The outcome is that of a transaction whose fee was charged.
def step (host : Host) (s : MemState) (e : Event) : Option (Option OpOutcome × MemState) :=
  match e.action with
  | .tx tx => applyTx host e.ctx tx s
  | .sweeps => some (none, runSweeps host e.ctx s)
  | .refresh => some (none, s.refreshEpochValidators)

-- A property of every step of the run of a list of events.
def EveryStep (host : Host) (P : MemState → Event → Prop) : MemState → List Event → Prop
  | _, [] => True
  | s, e :: es => P s e ∧ ∀ o s', step host s e = some (o, s') → EveryStep host P s' es

-- The state a list of events leads to, if no step panics.
def run (host : Host) : MemState → List Event → Option MemState
  | s, [] => some s
  | s, e :: es =>
    match step host s e with
    | none => none
    | some (_, s') => run host s' es

theorem EveryStep.imp {host : Host} {P Q : MemState → Event → Prop}
    (himp : ∀ s e, P s e → Q s e) {s : MemState} {es : List Event}
    (h : EveryStep host P s es) : EveryStep host Q s es := by
  induction es generalizing s with
  | nil => trivial
  | cons e es ih => exact ⟨himp s e h.1, fun o s' hstep => ih (h.2 o s' hstep)⟩

-- What each guarded step preserves holds at the end of a run of guarded steps.
theorem EveryStep.invariant {host : Host} {P : MemState → Event → Prop}
    {I : MemState → Prop}
    (hstep : ∀ s e o s', P s e → I s → step host s e = some (o, s') → I s')
    {s s' : MemState} {es : List Event} (h : EveryStep host P s es)
    (hrun : run host s es = some s') (hs : I s) : I s' := by
  induction es generalizing s with
  | nil =>
    cases hrun
    exact hs
  | cons e es ih =>
    rw [run] at hrun
    cases he : step host s e with
    | none => simp [he] at hrun
    | some p =>
      obtain ⟨o, s₁⟩ := p
      rw [he] at hrun
      exact ih (h.2 o s₁ he) hrun (hstep s e o s₁ h.1 hs he)

-- A guard that every step meets, and an invariant that guarded steps keep, give a property
-- of every step.
theorem EveryStep.imp_of_invariant {host : Host} {P Q : MemState → Event → Prop}
    {I : MemState → Prop}
    (hstep : ∀ s e o s', P s e → I s → step host s e = some (o, s') → I s')
    (hPQ : ∀ s e, I s → P s e → Q s e) {s : MemState} {es : List Event}
    (h : EveryStep host P s es) (hs : I s) : EveryStep host Q s es := by
  induction es generalizing s with
  | nil => trivial
  | cons e es ih =>
    refine ⟨hPQ s e hs h.1, fun o s' he => ?_⟩
    exact ih (h.2 o s' he) (hstep s e o s' h.1 hs he)

theorem EveryStep.of_mem {host : Host} {P : MemState → Event → Prop} {s : MemState}
    {es : List Event} (h : ∀ e ∈ es, ∀ s, P s e) : EveryStep host P s es := by
  induction es generalizing s with
  | nil => trivial
  | cons e es ih =>
    rw [List.forall_mem_cons] at h
    exact ⟨h.1 s, fun _ _ _ => ih h.2⟩

-- Every step of a run and of its continuation, and the other way round.
theorem EveryStep.append {host : Host} {P : MemState → Event → Prop} {s : MemState}
    {es es' : List Event} (h : EveryStep host P s es)
    (h' : ∀ s', run host s es = some s' → EveryStep host P s' es') :
    EveryStep host P s (es ++ es') := by
  induction es generalizing s with
  | nil => exact h' s rfl
  | cons e es ih =>
    refine ⟨h.1, fun o s₁ he => ih (h.2 o s₁ he) (fun s' hrun => h' s' ?_)⟩
    rw [run, he]
    exact hrun

theorem EveryStep.after_run {host : Host} {P : MemState → Event → Prop} {s s' : MemState}
    {es es' : List Event} (h : EveryStep host P s (es ++ es'))
    (hrun : run host s es = some s') : EveryStep host P s' es' := by
  induction es generalizing s with
  | nil =>
    cases hrun
    exact h
  | cons e es ih =>
    rw [run] at hrun
    cases he : step host s e with
    | none => simp [he] at hrun
    | some p =>
      obtain ⟨o, s₁⟩ := p
      rw [he] at hrun
      exact ih (h.2 o s₁ he) hrun

end Ubi2.Exec
