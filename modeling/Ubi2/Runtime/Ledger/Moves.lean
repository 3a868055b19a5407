import Ubi2.Lib.Run
import Ubi2.Runtime.Ledger.Lemmas

namespace Ubi2.Runtime

open Lib

namespace Account

def credit (a : Account) (v : U128) : Account :=
  { a with settledBalance := Word.satAdd a.settledBalance v }

def debit (a : Account) (v : U128) : Account :=
  { a with settledBalance := a.settledBalance - v }

@[simp] theorem credit_address (a : Account) (v : U128) : (a.credit v).address = a.address := (rfl)
@[simp] theorem debit_address (a : Account) (v : U128) : (a.debit v).address = a.address := (rfl)

@[simp] theorem credit_zero (a : Account) : a.credit 0#128 = a := by
  simp [credit]

end Account

namespace Stream

-- The inflow that a settlement at `now` still pays out.
def owed (s : Stream) (now : U64) : U128 :=
  Word.satSub (s.accrued now) s.drawn

-- The stream after that settlement.
def drawTo (s : Stream) (now : U64) : Stream :=
  let s := { s with drawn := Word.satAdd s.drawn (s.owed now) }
  if s.deposit ≤ s.drawn ∧ s.status = .Active then { s with status := .Completed } else s

@[simp] theorem drawTo_id (s : Stream) (now : U64) : (s.drawTo now).id = s.id := by
  simp only [drawTo]
  split_ifs <;> rfl

@[simp] theorem drawTo_from (s : Stream) (now : U64) : (s.drawTo now).from_ = s.from_ := by
  simp only [drawTo]
  split_ifs <;> rfl

@[simp] theorem drawTo_to (s : Stream) (now : U64) : (s.drawTo now).to_ = s.to_ := by
  simp only [drawTo]
  split_ifs <;> rfl

@[simp] theorem drawTo_deposit (s : Stream) (now : U64) :
    (s.drawTo now).deposit = s.deposit := by
  simp only [drawTo]
  split_ifs <;> rfl

theorem drawTo_drawn (s : Stream) (now : U64) :
    (s.drawTo now).drawn = Word.satAdd s.drawn (s.owed now) := by
  simp only [drawTo]
  split_ifs <;> rfl

theorem drawTo_status (s : Stream) (now : U64) :
    (s.drawTo now).status =
      if s.deposit ≤ Word.satAdd s.drawn (s.owed now) ∧ s.status = .Active then .Completed
      else s.status := by
  simp only [drawTo]
  split_ifs <;> rfl

-- Completion does not change when a stream ends.
@[simp] theorem accrued_drawTo (s : Stream) (now t : U64) :
    (s.drawTo now).accrued t = s.accrued t := by
  simp only [drawTo]
  split_ifs with h
  · simp only [accrued, endOrStop, tEnd, h.2]
  · rfl

theorem toNat_owed (s : Stream) (now : U64) :
    (s.owed now).toNat = (s.accrued now).toNat - s.drawn.toNat :=
  Word.toNat_satSub _ _

-- A settlement raises what is drawn to what has accrued.
theorem toNat_drawTo_drawn (s : Stream) (now : U64) :
    (s.drawTo now).drawn.toNat = max s.drawn.toNat (s.accrued now).toNat := by
  have hdrawn := s.drawn.isLt
  have haccrued := (s.accrued now).isLt
  rw [drawTo_drawn, Word.toNat_satAdd, toNat_owed]
  omega

theorem accrued_le_drawTo_drawn (s : Stream) (now : U64) :
    s.accrued now ≤ (s.drawTo now).drawn := by
  rw [BitVec.le_def, toNat_drawTo_drawn]
  omega

theorem accrued_le_deposit (s : Stream) (t : U64) : s.accrued t ≤ s.deposit :=
  min_le_right _ _

def opened (id : StreamId) (from_ to_ : Address) (rate deposit : U128) (now : U64) : Stream :=
  { id := id, from_ := from_, to_ := to_, rate := rate, deposit := deposit
    drawn := 0#128, startedAt := now, status := .Active }

end Stream

namespace Ledger

-- Who may do what during an operation: spend from an account or stop its streams,
-- change its nonce, and set the emission gate of an account record.
structure Authority where
  spends : Address → Prop
  renonces : Address → Prop
  gates : Account → Bool → U64 → Prop

-- The changes that the operations of the ledger are made of, at one instant.
inductive Move (now : U64) (w : Authority) : Ledger → Ledger → Prop where
  | settle (l : Ledger) (a : Address) :
      Move now w l (l.put ((l.account a).settle now))
  | pay (l : Ledger) (a b : Address) (v : U128) (ha : w.spends a) (hne : a ≠ b)
      (hv : v ≤ (l.account a).settledBalance) :
      Move now w l ((l.put ((l.account a).debit v)).put ((l.account b).credit v))
  -- a fee that the treasury charges itself is paid in and never paid out
  | mint (l : Ledger) (v : U128) (ha : w.spends TREASURY) :
      Move now w l (l.put ((l.account TREASURY).credit v))
  | renonce (l : Ledger) (a : Address) (n : U64) (ha : w.renonces a) :
      Move now w l (l.put { l.account a with nonce := n })
  | lock (l : Ledger) (a b : Address) (rate deposit : U128) (ha : w.spends a) (hne : a ≠ b)
      (hv : deposit ≤ (l.account a).settledBalance) :
      Move now w l
        (({ l with nextId := l.nextId + 1 }.put ((l.account a).debit deposit)).putStream
          (Stream.opened l.nextId a b rate deposit now))
  | draw (l : Ledger) (s : Stream) (hs : l.getStream s.id = some s) :
      Move now w l
        ((l.put ((l.account s.to_).credit (s.owed now))).putStream (s.drawTo now))
  | close (l : Ledger) (s : Stream) (hs : l.getStream s.id = some s) (ha : w.spends s.from_)
      (hdone : s.accrued now ≤ s.drawn)
      (hopen : s.status = .Active ∨ s.status = .Completed ∧ s.deposit ≤ s.drawn) :
      Move now w l
        ((l.put ((l.account s.from_).credit (Word.satSub s.deposit s.drawn))).putStream
          { s with status := .Stopped now })
  | gate (l : Ledger) (a : Address) (verified : Bool) (verifiedAt : U64)
      (ha : w.gates (l.account a) verified verifiedAt) :
      Move now w l (l.put { l.account a with verified := verified, verifiedAt := verifiedAt })

def Moves (now : U64) (w : Authority) : Ledger → Ledger → Prop :=
  Relation.ReflTransGen (Move now w)

-- The authority of one signer over its own account and no other.
def signer (a : Address) : Authority :=
  { spends := fun b => b = a, renonces := fun _ => False, gates := fun _ _ _ => False }

namespace Moves

variable {now : U64} {w : Authority} {l l' l'' : Ledger}

theorem refl : Moves now w l l := Relation.ReflTransGen.refl

theorem trans (h : Moves now w l l') (h' : Moves now w l' l'') : Moves now w l l'' :=
  Relation.ReflTransGen.trans h h'

theorem single (h : Move now w l l') : Moves now w l l' :=
  Relation.ReflTransGen.single h

end Moves

end Ledger

end Ubi2.Runtime
