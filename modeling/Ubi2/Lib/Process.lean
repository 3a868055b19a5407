import Mathlib.Logic.Function.Basic
import Mathlib.Tactic.Common

namespace Ubi2.Lib

-- How a process ends: with a value, with an error that a handler may catch, or cut off by a
-- crash, which no handler sees.
inductive Exit (ε α : Type) where
  | value (a : α)
  | thrown (e : ε)
  | crashed

-- A process over a state that outlives it.
def Process (σ ε α : Type) : Type := σ → Exit ε α × σ

namespace Process

variable {σ ε ε' α β : Type}

def throw (e : ε) : Process σ ε α := fun s => (.thrown e, s)

def bind (p : Process σ ε α) (f : α → Process σ ε β) : Process σ ε β := fun s =>
  match p s with
  | (.value a, s') => f a s'
  | (.thrown e, s') => (.thrown e, s')
  | (.crashed, s') => (.crashed, s')

instance : Monad (Process σ ε) where
  pure a := fun s => (.value a, s)
  bind := bind

def handle (p : Process σ ε α) (h : ε → Process σ ε' α) : Process σ ε' α := fun s =>
  match p s with
  | (.value a, s') => (.value a, s')
  | (.thrown e, s') => h e s'
  | (.crashed, s') => (.crashed, s')

-- A process whose every error is raised under one name.
def relabel (p : Process σ ε α) (e : ε') : Process σ ε' α := p.handle fun _ => throw e

def read (f : σ → α) : Process σ ε α := fun s => (.value (f s), s)

def ofExcept (x : Except ε α) : Process σ ε α :=
  match x with
  | .ok a => pure a
  | .error e => throw e

-- What holds after a process: `Q` of its value, `E` of its error, `C` of what a crash leaves.
def wp (p : Process σ ε α) (Q : α → σ → Prop) (E : ε → σ → Prop) (C : σ → Prop) (s : σ) : Prop :=
  match p s with
  | (.value a, s') => Q a s'
  | (.thrown e, s') => E e s'
  | (.crashed, s') => C s'

variable {Q Q' : α → σ → Prop} {E E' : ε → σ → Prop} {C C' : σ → Prop} {s : σ}

theorem wp_pure {a : α} : (pure a : Process σ ε α).wp Q E C s ↔ Q a s := Iff.rfl

theorem wp_throw {e : ε} : (throw e : Process σ ε α).wp Q E C s ↔ E e s := Iff.rfl

theorem wp_read {f : σ → α} : (read f : Process σ ε α).wp Q E C s ↔ Q (f s) s := Iff.rfl

theorem wp_bind {p : Process σ ε α} {f : α → Process σ ε β} {R : β → σ → Prop} :
    (p >>= f).wp R E C s ↔ p.wp (fun a => (f a).wp R E C) E C s := by
  show (p.bind f).wp R E C s ↔ _
  simp only [wp, bind]
  rcases p s with ⟨_ | _ | _, s'⟩ <;> rfl

theorem wp_handle {p : Process σ ε α} {h : ε → Process σ ε' α} {E' : ε' → σ → Prop} :
    (p.handle h).wp Q E' C s ↔ p.wp Q (fun e => (h e).wp Q E' C) C s := by
  simp only [wp, handle]
  rcases p s with ⟨_ | _ | _, s'⟩ <;> rfl

theorem wp_relabel {p : Process σ ε α} {e : ε'} {E' : ε' → σ → Prop} :
    (p.relabel e).wp Q E' C s ↔ p.wp Q (fun _ => E' e) C s := wp_handle

theorem wp_ofExcept {x : Except ε α} : (ofExcept x : Process σ ε α).wp Q E C s ↔
    (∀ a, x = .ok a → Q a s) ∧ ∀ e, x = .error e → E e s := by
  cases x with
  | ok a =>
    rw [ofExcept, wp_pure]
    simp
  | error e =>
    rw [ofExcept, wp_throw]
    simp

theorem wp_ofExcept_ok {a : α} : (ofExcept (.ok a) : Process σ ε α).wp Q E C s ↔ Q a s := Iff.rfl

theorem wp_mono {p : Process σ ε α} (h : p.wp Q E C s) (hQ : ∀ a s', Q a s' → Q' a s')
    (hE : ∀ e s', E e s' → E' e s') (hC : ∀ s', C s' → C' s') : p.wp Q' E' C' s := by
  simp only [wp] at h ⊢
  rcases hp : p s with ⟨_ | _ | _, s'⟩ <;> simp only [hp] at h ⊢
  · exact hQ _ _ h
  · exact hE _ _ h
  · exact hC _ h

-- What holds after a process however it ends holds of the state it leaves.
theorem wp_final {p : Process σ ε α} {P : σ → Prop} (h : p.wp (fun _ => P) (fun _ => P) P s) :
    P (p s).2 := by
  simp only [wp] at h
  rcases hp : p s with ⟨_ | _ | _, s'⟩ <;> simpa only [hp] using h

theorem wp_value {p : Process σ ε α} (h : p.wp Q (fun _ _ => False) (fun _ => False) s) :
    ∃ a, (p s).1 = .value a ∧ Q a (p s).2 := by
  simp only [wp] at h
  rcases hp : p s with ⟨a | _ | _, s'⟩
  · exact ⟨a, rfl, by simpa only [hp] using h⟩
  · simp only [hp] at h
  · simp only [hp] at h

end Process

-- What a write comes to: it is done; it is refused, with the file changed or not; the process
-- crashes, before the file has changed or after.
inductive WriteOutcome where
  | done
  | failed (applied : Bool)
  | crashed (applied : Bool)
deriving DecidableEq, Repr

-- Files, and what the next writes will come to. Past the end of the list they are done.
structure Disk (κ γ : Type) where
  files : κ → Option γ
  outcomes : List WriteOutcome

namespace Disk

variable {κ γ ε : Type} [DecidableEq κ]

def put (disk : Disk κ γ) (path : κ) (contents : γ) (applied : Bool) : Disk κ γ where
  files := if applied then Function.update disk.files path (some contents) else disk.files
  outcomes := disk.outcomes.tail

-- A file changes at once or not at all.
def write (path : κ) (contents : γ) (e : ε) : Process (Disk κ γ) ε Unit := fun disk =>
  match disk.outcomes.head?.getD .done with
  | .done => (.value (), disk.put path contents true)
  | .failed applied => (.thrown e, disk.put path contents applied)
  | .crashed applied => (.crashed, disk.put path contents applied)

variable {Q : Unit → Disk κ γ → Prop} {E : ε → Disk κ γ → Prop} {C : Disk κ γ → Prop}
  {disk : Disk κ γ} {path : κ} {contents : γ} {e : ε}

theorem put_same : (disk.put path contents true).files path = some contents :=
  Function.update_self _ _ _

theorem put_other {other : κ} (h : other ≠ path) (applied : Bool) :
    (disk.put path contents applied).files other = disk.files other := by
  cases applied with
  | false => rfl
  | true => exact Function.update_of_ne h _ _

theorem put_outcomes (houtcomes : disk.outcomes = []) (applied : Bool) :
    (disk.put path contents applied).outcomes = [] := by
  rw [put, houtcomes]
  rfl

theorem wp_write_nil (houtcomes : disk.outcomes = [])
    (hdone : Q () (disk.put path contents true)) : (write path contents e).wp Q E C disk := by
  simp only [Process.wp, write, houtcomes]
  exact hdone

theorem wp_write_cons {outcome : WriteOutcome} {rest : List WriteOutcome}
    (houtcomes : disk.outcomes = outcome :: rest) :
    (write path contents e).wp Q E C disk ↔
      match outcome with
      | .done => Q () (disk.put path contents true)
      | .failed applied => E e (disk.put path contents applied)
      | .crashed applied => C (disk.put path contents applied) := by
  simp only [Process.wp, write, houtcomes]
  cases outcome <;> rfl

-- On a disk without faults a write is done.
theorem wp_write (hdone : Q () (disk.put path contents true))
    (hfailed : disk.outcomes ≠ [] → ∀ applied, E e (disk.put path contents applied))
    (hcrashed : disk.outcomes ≠ [] → ∀ applied, C (disk.put path contents applied)) :
    (write path contents e).wp Q E C disk := by
  cases houtcomes : disk.outcomes with
  | nil => exact wp_write_nil houtcomes hdone
  | cons outcome rest =>
    have hfaults : disk.outcomes ≠ [] := by
      rw [houtcomes]
      exact List.cons_ne_nil _ _
    rw [wp_write_cons houtcomes]
    cases outcome with
    | done => exact hdone
    | failed applied => exact hfailed hfaults applied
    | crashed applied => exact hcrashed hfaults applied

end Disk

end Ubi2.Lib
