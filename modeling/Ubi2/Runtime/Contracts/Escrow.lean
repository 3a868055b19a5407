import Ubi2.Runtime.Contracts.Frame
import Ubi2.Runtime.Ledger.Worth
import Ubi2.Runtime.Solvency

namespace Ubi2.Runtime

open Lib

-- A payment of something to the account itself.
def Op.PaysTo (e : Address) : Op → Prop
  | .Transfer to_ amount | .Refund to_ amount => to_ = e ∧ amount ≠ 0#128
  | _ => False

-- Contracts have their own escrow accounts, as long as their ids fit a word.
theorem contractAddress_inj {id id' : ContractId} (hid : id < 2 ^ 64) (hid' : id' < 2 ^ 64)
    (h : contractAddress id = contractAddress id') : id = id' := by
  have hlow (id : ContractId) : (contractAddress id).setWidth 64 = BitVec.ofNat 64 id := by
    ext i hi
    simp [contractAddress]
  have hword : BitVec.ofNat 64 id = BitVec.ofNat 64 id' := by
    rw [← hlow id, h, hlow id']
  have hval := congrArg BitVec.toNat hword
  rwa [BitVec.toNat_ofNat, BitVec.toNat_ofNat, Nat.mod_eq_of_lt hid, Nat.mod_eq_of_lt hid'] at hval

-- What a list of operations takes out of the escrow, as it would be if it could not saturate.
def draws (ops : List Op) : Nat := (ops.map fun op => (MemState.opDraw op).toNat).sum

namespace Ledger

variable {now : U64} {l l' : Ledger} {e : Address}

-- A payment takes no more than its value out of the settled balance of its sender.
theorem settled_applyTransfer_from {b : Address} {v : U128} {nonce : U64}
    (happly : l.applyTransfer e b v nonce now = (.ok (), l')) :
    (l.account e).settledBalance.toNat ≤ (l'.account e).settledBalance.toNat + v.toNat := by
  obtain ⟨l₁, hl₁, hfunds, rfl⟩ := applyTransfer_eq happly
  have hincoming := BitVec.le_def.mp (@settled_le_settleIncoming now e l e)
  rw [← hl₁] at hincoming
  have hsettle := BitVec.le_def.mp ((l₁.account e).settledBalance_le_settle now)
  split_ifs with hself
  · rw [account_put_of_address _ (by simp)]
    dsimp only
    omega
  · rw [account_put_ne _ (by simpa using fun h => hself h.symm),
      account_put_of_address _ (by simp)]
    dsimp only [Account.debit]
    rw [BitVec.toNat_sub_of_le hfunds]
    omega

-- What another account pays arrives.
theorem settled_applyTransfer_to {a : Address} {v : U128} {nonce : U64} (hne : a ≠ e)
    (happly : l.applyTransfer a e v nonce now = (.ok (), l')) :
    (Word.satAdd (l.account e).settledBalance v).toNat ≤
      (l'.account e).settledBalance.toNat := by
  obtain ⟨l₁, hl₁, -, rfl⟩ := applyTransfer_eq happly
  have hincoming := BitVec.le_def.mp (@settled_le_settleIncoming now e l a)
  rw [← hl₁] at hincoming
  have hsettle := BitVec.le_def.mp ((l₁.account e).settledBalance_le_settle now)
  rw [if_neg hne, account_put_of_address _ (by simp), Account.credit]
  dsimp only
  rw [Word.toNat_satAdd, Word.toNat_satAdd]
  omega

theorem settled_openStream_from {b : Address} {rate deposit : U128} {id : StreamId}
    (hopen : l.openStream e b rate deposit now = (.ok id, l')) :
    (l.account e).settledBalance.toNat ≤ (l'.account e).settledBalance.toNat + deposit.toNat := by
  obtain ⟨-, hfunds, rfl⟩ := openStream_eq hopen
  have hsettle := BitVec.le_def.mp ((l.account e).settledBalance_le_settle now)
  rw [account_putStream, account_put_of_address _ (by simp)]
  dsimp only [Account.debit]
  rw [BitVec.toNat_sub_of_le hfunds]
  omega

-- What a stop gives back arrives.
theorem settled_stopStream_from {id : StreamId} {refund : U128}
    (hstop : l.stopStream id e now = some (.ok refund, l')) :
    (Word.satAdd (l.account e).settledBalance refund).toNat ≤
      (l'.account e).settledBalance.toNat := by
  obtain ⟨s, hs, hfrom, -, hrefund, rfl⟩ := stopStream_ok hstop
  have hle := BitVec.le_def.mp (settled_le_of_moves (a := e) (@moves_settleStream now idle l s.id)
    fun h => h)
  simp only [stopped]
  generalize (l.settleStream s.id now).2 = l₁ at hle ⊢
  have hsettle := BitVec.le_def.mp ((l₁.account e).settledBalance_le_settle now)
  rw [account_putStream, hfrom, ← hrefund, account_put_of_address _ (by simp), Account.credit]
  dsimp only
  rw [Word.toNat_satAdd, Word.toNat_satAdd]
  omega

end Ledger

namespace MemState

open Ledger

section Effect

variable {now : U64} {e : Address} {r r' : EffectRun}

-- An operation that is applied leaves the recorded escrow within the settled balance.
theorem covered_applyOp {op : Op}
    (hcovered : r.contract.escrow ≤ (r.ledger.account e).settledBalance)
    (h : applyOp e now r op = some r') :
    r'.contract.escrow ≤ (r'.ledger.account e).settledBalance := by
  rw [BitVec.le_def] at hcovered ⊢
  obtain ⟨to_, amount, l, -, hl, rfl⟩ | ⟨to_, rate, deposit, id, l, -, hl, rfl⟩ |
    ⟨id, refund, l, -, hl, rfl⟩ | ⟨key, value, -, rfl⟩ := applyOp_cases h
  · have hpaid := settled_applyTransfer_from hl
    dsimp only
    rw [Word.toNat_satSub]
    omega
  · have hpaid := settled_openStream_from hl
    dsimp only
    rw [Word.toNat_satSub]
    omega
  · have hreceived := settled_stopStream_from hl
    rw [Word.toNat_satAdd] at hreceived
    dsimp only
    rw [Word.toNat_satAdd]
    omega
  · exact hcovered

theorem covered_applyOps {ops : List Op}
    (hcovered : r.contract.escrow ≤ (r.ledger.account e).settledBalance)
    (h : applyOps e now r ops = some r') :
    r'.contract.escrow ≤ (r'.ledger.account e).settledBalance := by
  induction ops generalizing r with
  | nil =>
    cases h
    exact hcovered
  | cons op ops ih =>
    rw [applyOps] at h
    cases hop : applyOp e now r op with
    | none => simp [hop] at h
    | some r₁ =>
      rw [hop] at h
      exact ih (covered_applyOp hcovered hop) h

-- The recorded escrow and what its account holds have changed by the same amount.
structure Mirrors (now : U64) (e : Address) (r r' : EffectRun) : Prop where
  booked : r'.ledger.Booked
  same : r'.ledger.holding e now + r.contract.escrow.toNat =
    r.ledger.holding e now + r'.contract.escrow.toNat
  bound : r'.ledger.holding e now + r'.ledger.deposits e ≤
    r.ledger.holding e now + r.ledger.deposits e

theorem mirrors_applyOp {op : Op} (hbooked : r.ledger.Booked)
    (hmax : r.ledger.holding e now + r.ledger.deposits e < 2 ^ 128)
    (hheld : r.contract.escrow.toNat ≤ r.ledger.holding e now)
    (hdraw : (opDraw op).toNat ≤ r.contract.escrow.toNat) (hself : ¬ op.PaysTo e)
    (h : applyOp e now r op = some r') :
    Mirrors now e r r' ∧
      r.contract.escrow.toNat ≤ r'.contract.escrow.toNat + (opDraw op).toNat := by
  obtain ⟨to_, amount, l, hop, hl, rfl⟩ | ⟨to_, rate, deposit, id, l, rfl, hl, rfl⟩ |
    ⟨id, refund, l, rfl, hl, rfl⟩ | ⟨key, value, rfl, rfl⟩ := applyOp_cases h
  · have hamount : opDraw op = amount := by
      rcases hop with rfl | rfl <;> rfl
    have hpays : op.PaysTo e ↔ to_ = e ∧ amount ≠ 0#128 := by
      rcases hop with rfl | rfl <;> rfl
    rw [hamount] at hdraw ⊢
    have hfield := Word.toNat_satSub r.contract.escrow amount
    by_cases hto : to_ = e
    · -- only a payment of nothing goes to the escrow account itself
      have hzero : amount = 0#128 := by
        by_contra hne
        exact hself (hpays.mpr ⟨hto, hne⟩)
      have hnone : amount.toNat = 0 := by rw [hzero]; rfl
      rw [hto] at hl
      have hkeeps := keeps_applyTransfer_self hbooked (by omega) hl
      have hheld' := hkeeps.holding
      have hdeposits := hkeeps.deposits
      refine ⟨⟨hkeeps.booked, ?_, ?_⟩, ?_⟩
      all_goals
        dsimp only
        omega
    · obtain ⟨hbooked', hheld', hdeposits⟩ :=
        holding_applyTransfer_from hbooked (by omega) (fun h => hto h.symm) hl
      refine ⟨⟨hbooked', ?_, ?_⟩, ?_⟩
      all_goals
        dsimp only
        omega
  · obtain ⟨hbooked', hheld', hdeposits⟩ := holding_openStream hbooked (by omega) hl
    have hfield := Word.toNat_satSub r.contract.escrow deposit
    have hdraw : deposit.toNat ≤ r.contract.escrow.toNat := hdraw
    refine ⟨⟨hbooked', ?_, ?_⟩, ?_⟩
    all_goals
      dsimp only [opDraw]
      omega
  · obtain ⟨hbooked', hheld', hdeposits⟩ := holding_stopStream hbooked hmax hl
    have hfield := Word.toNat_satAdd r.contract.escrow refund
    refine ⟨⟨hbooked', ?_, ?_⟩, ?_⟩
    all_goals
      dsimp only [opDraw]
      omega
  · exact ⟨⟨hbooked, rfl, le_rfl⟩, Nat.le_add_right _ _⟩

theorem mirrors_applyOps {ops : List Op} (hbooked : r.ledger.Booked)
    (hmax : r.ledger.holding e now + r.ledger.deposits e < 2 ^ 128)
    (hheld : r.contract.escrow.toNat ≤ r.ledger.holding e now)
    (hdraws : draws ops ≤ r.contract.escrow.toNat) (hself : ∀ op ∈ ops, ¬ op.PaysTo e)
    (h : applyOps e now r ops = some r') : Mirrors now e r r' := by
  induction ops generalizing r with
  | nil =>
    cases h
    exact ⟨hbooked, rfl, le_rfl⟩
  | cons op ops ih =>
    rw [applyOps] at h
    obtain ⟨hop, hops⟩ := List.forall_mem_cons.mp hself
    have hsum : draws (op :: ops) = (opDraw op).toNat + draws ops := rfl
    cases hfirst : applyOp e now r op with
    | none => simp [hfirst] at h
    | some r₁ =>
      rw [hfirst] at h
      obtain ⟨hmirrors, hleft⟩ := mirrors_applyOp hbooked hmax hheld (by omega) hop hfirst
      have hsame := hmirrors.same
      have hbound := hmirrors.bound
      have hrest := ih hmirrors.booked (by omega) (by omega) (by omega) hops h
      have hsame' := hrest.same
      have hbound' := hrest.bound
      exact ⟨hrest.booked, by omega, by omega⟩

end Effect

-- The apply phase works on one contract.
theorem id_applyOp {now : U64} {e : Address} {r r' : EffectRun} {op : Op}
    (h : applyOp e now r op = some r') : r'.contract.id = r.contract.id := by
  obtain ⟨_, _, _, -, -, rfl⟩ | ⟨_, _, _, _, _, -, -, rfl⟩ | ⟨_, _, _, -, -, rfl⟩ |
    ⟨_, _, -, rfl⟩ := applyOp_cases h
  all_goals rfl

theorem id_applyOps {now : U64} {e : Address} {r r' : EffectRun} {ops : List Op}
    (h : applyOps e now r ops = some r') : r'.contract.id = r.contract.id := by
  induction ops generalizing r with
  | nil =>
    cases h
    rfl
  | cons op ops ih =>
    rw [applyOps] at h
    cases hop : applyOp e now r op with
    | none => simp [hop] at h
    | some r₁ =>
      rw [hop] at h
      exact (ih h).trans (id_applyOp hop)

-- The sum that the checks arrive at saturates.
theorem toNat_validateOps {contract : PromptContract} {owned : List StreamId} {ops : List Op}
    {start draw : U128} (h : validateOps contract owned start ops = .ok draw) :
    draw.toNat = min (start.toNat + draws ops) (2 ^ 128 - 1) := by
  induction ops generalizing start with
  | nil =>
    cases h
    have hlt := draw.isLt
    simp only [draws, List.map_nil, List.sum_nil]
    omega
  | cons op ops ih =>
    rw [validateOps] at h
    have hsum : draws (op :: ops) = (opDraw op).toNat + draws ops := rfl
    cases hop : validateOp contract owned op with
    | error err => simp [hop] at h
    | ok u =>
      rw [hop] at h
      rw [ih h, Word.toNat_satAdd]
      omega

-- The effect passes all the checks.
def Accepts (s : MemState) (id : ContractId) (effect : CanonicalEffect) : Prop :=
  ∃ contract draw, s.getContract id = some contract ∧
    validateOps contract (s.ledger.outgoing (contractAddress id)) 0#128 effect.ops = .ok draw ∧
    draw ≤ contract.escrow

-- Whether it does depends on the contract and on the streams that its escrow account opened.
theorem Accepts.congr {s s' : MemState} {id : ContractId} {effect : CanonicalEffect}
    (h : s'.Accepts id effect) (hp : s'.prompt = s.prompt)
    (ho : s'.ledger.outgoingIdx = s.ledger.outgoingIdx) : s.Accepts id effect := by
  simp only [Accepts, getContract, outgoing, hp, ho] at h ⊢
  exact h

-- The effect has run all of its operations, from the settled escrow account.
structure Enacts (s : MemState) (id : ContractId) (effect : CanonicalEffect) (now : U64)
    (contract : PromptContract) (r : EffectRun) : Prop where
  get : s.getContract id = some contract
  accepts : s.Accepts id effect
  ops : applyOps (contractAddress id) now (s.effectStart contract (contractAddress id) now)
    effect.ops = some r

section Enacts

variable {s : MemState} {id : ContractId} {effect : CanonicalEffect} {now : U64}
variable {contract : PromptContract} {r : EffectRun}

theorem Enacts.id_eq (h : s.Enacts id effect now contract r) : r.contract.id = id :=
  (id_applyOps h.ops).trans (Table.key_of_get h.get)

theorem Enacts.moves (h : s.Enacts id effect now contract r) {w : Authority}
    (hs : w.spends (contractAddress id)) (hn : w.renonces (contractAddress id)) :
    Moves now w s.ledger r.ledger :=
  (Moves.single (Move.settle s.ledger (contractAddress id))).trans (moves_applyOps hs hn h.ops)

theorem Enacts.covered (h : s.Enacts id effect now contract r)
    (hcovered : contract.escrow ≤ (s.account (contractAddress id)).settledBalance) :
    r.contract.escrow ≤ (r.ledger.account (contractAddress id)).settledBalance := by
  refine covered_applyOps ?_ h.ops
  simp only [effectStart]
  rw [account_put_of_address _ (by simp [MemState.account])]
  exact hcovered.trans (Account.settledBalance_le_settle _ now)

-- An effect that pays nothing to its own escrow account changes the recorded escrow by what
-- it changes the account.
theorem Enacts.mirrors (h : s.Enacts id effect now contract r) (hbooked : s.ledger.Booked)
    (hmax : s.ledger.holding (contractAddress id) now + s.ledger.deposits (contractAddress id) <
      2 ^ 128 - 1)
    (hcovered : contract.escrow ≤ (s.account (contractAddress id)).settledBalance)
    (hself : ∀ op ∈ effect.ops, ¬ op.PaysTo (contractAddress id)) :
    r.ledger.holding (contractAddress id) now + contract.escrow.toNat =
        s.ledger.holding (contractAddress id) now + r.contract.escrow.toNat ∧
      r.ledger.holding (contractAddress id) now < 2 ^ 128 := by
  have hkeeps := keeps_settle hbooked
    (by omega : s.ledger.holding (contractAddress id) now < 2 ^ 128) (contractAddress id)
  have hworth : (s.ledger.account (contractAddress id)).settledBalance.toNat ≤
      s.ledger.holding (contractAddress id) now := by
    rw [holding, Account.worth]
    omega
  have hle := (BitVec.le_def.mp hcovered).trans hworth
  have hheld := hkeeps.holding
  have hdeposits := hkeeps.deposits
  obtain ⟨contract', draw, hget, hvalid, hdraw⟩ := h.accepts
  cases hget.symm.trans h.get
  -- the sum of the checks is exact, since the escrow is below the largest word
  have hsum := toNat_validateOps hvalid
  have hdraw := BitVec.le_def.mp hdraw
  rw [BitVec.toNat_ofNat, Nat.zero_mod, Nat.zero_add] at hsum
  have hmirrors := mirrors_applyOps (r := s.effectStart contract (contractAddress id) now)
    hkeeps.booked (by simp only [effectStart, MemState.account]; omega)
    (by simp only [effectStart, MemState.account]; omega)
    (by simp only [effectStart]; omega) hself h.ops
  have hsame := hmirrors.same
  have hbound := hmirrors.bound
  simp only [effectStart, MemState.account] at hsame hbound
  omega

end Enacts

end MemState

end Ubi2.Runtime
