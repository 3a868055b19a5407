import Ubi2.Lib.Except
import Ubi2.StatusDelta.Refresh

namespace Ubi2.StatusDelta

open Ubi2.Lib Ubi2.StatusSnapshot

inductive Op where
  | activate (statusId : StatusId) (credentialCommitment : StatusField)
  | revoke (statusId : StatusId)

def step (poseidon : Poseidon) (r : StatusRegistry) : Op → StatusRegistry
  | .activate statusId credentialCommitment =>
    (r.activate poseidon statusId credentialCommitment).1
  | .revoke statusId => (r.revoke poseidon statusId).1

def runFrom (poseidon : Poseidon) (r : StatusRegistry) (ops : List Op) : StatusRegistry :=
  ops.foldl (step poseidon) r

def run (poseidon : Poseidon) (ops : List Op) : StatusRegistry :=
  runFrom poseidon .new ops

-- A registry as the leaf changes describe it that its operations committed.
structure Described (poseidon : Poseidon) (r : StatusRegistry) (changes : List Change) :
    Prop where
  nodes : SparseTree.Holds (defaults poseidon) REGISTRY_DEPTH r.nodes
    (tree poseidon (leavesAfter (fun _ => 0) changes))
  history : r.history = deltasOf poseidon 0 (fun _ => 0) changes
  epoch : r.epoch = changes.length
  bound : r.epoch ≤ U32_MAX
  active : ∀ i record, r.records.get i = some (i, record) → record.active = true →
    leavesAfter (fun _ => 0) changes i.toNat =
      activeStatusLeafNative poseidon record.statusId record.credentialCommitment

-- What an operation does: nothing, or one leaf change with the record of its leaf.
inductive Committed (poseidon : Poseidon) (r : StatusRegistry) : Op → StatusRegistry → Prop
  | refused {op : Op} (h : ∀ id, op = .revoke id → ∀ d, (r.revoke poseidon id).2 ≠ .ok d) :
    Committed poseidon r op r
  | activated {id : StatusId} {c : StatusField}
    (hnone : r.records.get (statusPathIndexNative poseidon id) = none)
    (hepoch : r.epoch + 1 ≤ U32_MAX) :
    Committed poseidon r (.activate id c)
      { (r.commitLeaf poseidon (statusPathIndexNative poseidon id)
          (activeStatusLeafNative poseidon id c)).1 with
        records := r.records.put (statusPathIndexNative poseidon id, ⟨id, c, true⟩) }
  | revoked {id : StatusId} {record : StatusRecord} {d : StatusRegistryDelta}
    (hsome : r.records.get (statusPathIndexNative poseidon id) =
      some (statusPathIndexNative poseidon id, record))
    (hid : record.statusId = id) (hactive : record.active = true)
    (hepoch : r.epoch + 1 ≤ U32_MAX) (hok : (r.revoke poseidon id).2 = .ok d) :
    Committed poseidon r (.revoke id)
      { (r.commitLeaf poseidon (statusPathIndexNative poseidon id) 0).1 with
        records := r.records.put
          (statusPathIndexNative poseidon id, { record with active := false }) }

variable {poseidon : Poseidon} {r : StatusRegistry} {changes : List Change}

theorem nextEpoch_eq_ok {next : Nat} (h : r.nextEpoch = .ok next) : r.epoch + 1 ≤ U32_MAX := by
  rw [StatusRegistry.nextEpoch] at h
  by_cases hle : r.epoch + 1 ≤ U32_MAX
  · exact hle
  · rw [if_neg hle] at h
    cases h

theorem step_committed (op : Op) : Committed poseidon r op (step poseidon r op) := by
  cases op with
  | activate id c =>
    rw [step, StatusRegistry.activate]
    cases hvalid : validateStatusId id with
    | error e => exact .refused fun _ h => nomatch h
    | ok =>
      simp only
      cases hget : r.records.get (statusPathIndexNative poseidon id) with
      | some row => exact .refused fun _ h => nomatch h
      | none =>
        simp only
        cases hnext : r.nextEpoch with
        | error e => exact .refused fun _ h => nomatch h
        | ok next => exact .activated hget (nextEpoch_eq_ok hnext)
  | revoke id =>
    have hrefused : ∀ e, r.revoke poseidon id = (r, .error e) →
        Committed poseidon r (.revoke id) (r.revoke poseidon id).1 := by
      intro e he
      rw [he]
      refine .refused fun other hother d hd => ?_
      cases hother
      rw [he] at hd
      cases hd
    rw [step]
    cases hvalid : validateStatusId id with
    | error e => exact hrefused e (by rw [StatusRegistry.revoke, hvalid])
    | ok =>
      cases hget : r.records.get (statusPathIndexNative poseidon id) with
      | none =>
        refine hrefused .UnknownStatus ?_
        simp only [StatusRegistry.revoke, hvalid, hget]
      | some row =>
        obtain ⟨index, record⟩ := row
        have hkey : index = statusPathIndexNative poseidon id := Table.key_of_get hget
        subst hkey
        by_cases hid : record.statusId = id
        · by_cases hactive : record.active = true
          · cases hnext : r.nextEpoch with
            | error e =>
              refine hrefused e ?_
              simp [StatusRegistry.revoke, hvalid, hget, hid, hactive, hnext]
            | ok next =>
              have hrun : r.revoke poseidon id =
                  ({ (r.commitLeaf poseidon (statusPathIndexNative poseidon id) 0).1 with
                      records := r.records.put (statusPathIndexNative poseidon id,
                        { record with active := false }) },
                    .ok (r.commitLeaf poseidon (statusPathIndexNative poseidon id) 0).2) := by
                simp [StatusRegistry.revoke, hvalid, hget, hid, hactive, hnext,
                  StatusRegistry.commitLeaf]
              have hcommitted := Committed.revoked hget hid hactive
                (nextEpoch_eq_ok hnext) (congrArg Prod.snd hrun)
              rw [hrun]
              exact hcommitted
          · refine hrefused .StatusAlreadyRevoked ?_
            simp [StatusRegistry.revoke, hvalid, hget, hid, hactive]
        · refine hrefused .UnknownStatus ?_
          simp [StatusRegistry.revoke, hvalid, hget, hid]

theorem leavesAfter_append (leaf : Nat → StatusField) (changes : List Change) (c : Change) :
    leavesAfter leaf (changes ++ [c]) =
      Function.update (leavesAfter leaf changes) c.1.toNat c.2 := by
  rw [leavesAfter, List.foldl_append]
  rfl

theorem described_new : Described poseidon .new [] where
  nodes := SparseTree.Holds.empty fun level index => SparseTree.dense_const _ 0 level index
  history := rfl
  epoch := rfl
  bound := Nat.zero_le _
  active _ _ h _ := by cases h

namespace Described

theorem node_eq (h : Described poseidon r changes) {level : Nat} (hl : level ≤ REGISTRY_DEPTH)
    (index : Nat) :
    r.node poseidon level index = tree poseidon (leavesAfter (fun _ => 0) changes) level index :=
  h.nodes.node_eq hl index

theorem root_eq (h : Described poseidon r changes) :
    r.root poseidon =
      tree poseidon (leavesAfter (fun _ => 0) changes) REGISTRY_DEPTH 0 :=
  h.node_eq le_rfl 0

theorem siblings_eq (h : Described poseidon r changes) (index : BitVec 32) :
    r.siblings poseidon index =
      siblingsOf poseidon (leavesAfter (fun _ => 0) changes) index := by
  apply Vector.ext
  intro level hlevel
  simp only [StatusRegistry.siblings, siblingsOf, Vector.getElem_ofFn]
  exact h.node_eq (Nat.le_of_lt hlevel) _

-- A commit goes through the tree and the history of the changes with one more.
theorem commitLeaf (h : Described poseidon r changes) {index : BitVec 32}
    {value : StatusField} {record : StatusRecord} (hepoch : r.epoch + 1 ≤ U32_MAX)
    (hvalue : record.active = true →
      value = activeStatusLeafNative poseidon record.statusId record.credentialCommitment) :
    Described poseidon
      { (r.commitLeaf poseidon index value).1 with
        records := r.records.put (index, record) } (changes ++ [(index, value)]) := by
  have hnodes := h.nodes.update index.toNat value
  rw [← leavesAfter_append _ _ (index, value)] at hnodes
  have hroot : SparseTree.node (defaults poseidon) (r.commitLeaf poseidon index value).1.nodes
      REGISTRY_DEPTH 0 =
      tree poseidon (leavesAfter (fun _ => 0) (changes ++ [(index, value)])) REGISTRY_DEPTH 0 :=
    hnodes.node_eq le_rfl 0
  have hdelta : (r.commitLeaf poseidon index value).2 =
      deltaOf poseidon changes.length (leavesAfter (fun _ => 0) changes) index value := by
    simp only [StatusRegistry.commitLeaf, StatusRegistry.checkpoint, deltaOf, h.root_eq,
      h.siblings_eq, h.epoch, h.node_eq (Nat.zero_le _), ← leavesAfter_append _ _ (index, value)]
    rw [StatusRegistryDelta.mk.injEq]
    exact ⟨rfl, rfl, congrArg (StatusCheckpoint.mk _) hroot, rfl, rfl, rfl, rfl⟩
  refine ⟨hnodes, ?_, ?_, hepoch, ?_⟩
  · show r.history ++ [(r.commitLeaf poseidon index value).2] = _
    rw [hdelta, h.history, deltasOf_append, Nat.zero_add]
    rfl
  · show r.epoch + 1 = _
    rw [List.length_append, h.epoch]
    rfl
  · intro i other hget hactive
    rw [leavesAfter_append]
    by_cases hi : i = index
    · subst hi
      have hput : (r.records.put (i, record)).get i = some (i, record) :=
        Table.get_put_self r.records (i, record)
      rw [hput] at hget
      cases hget
      rw [Function.update_self]
      exact hvalue hactive
    · have hput : (r.records.put (index, record)).get i = r.records.get i :=
        Table.get_put_ne fun hc => hi hc.symm
      rw [hput] at hget
      have hne : i.toNat ≠ index.toNat := fun hc => hi (BitVec.eq_of_toNat_eq hc)
      rw [Function.update_of_ne hne]
      exact h.active i other hget hactive

end Described

-- What a lookup of a witness comes down to.
theorem witness_eq_ok {id : StatusId} {c : StatusField} {w : StatusWitness} :
    r.witness poseidon id c = .ok w ↔
      validateStatusId id = .ok () ∧
        r.records.get (statusPathIndexNative poseidon id) =
          some (statusPathIndexNative poseidon id, ⟨id, c, true⟩) ∧
        w = ⟨r.epoch, r.root poseidon, statusPathIndexNative poseidon id,
          activeStatusLeafNative poseidon id c,
          r.siblings poseidon (statusPathIndexNative poseidon id)⟩ := by
  constructor
  · intro h
    rw [StatusRegistry.witness] at h
    cases hvalid : validateStatusId id with
    | error e =>
      rw [hvalid] at h
      cases h
    | ok =>
      simp only [hvalid] at h
      cases hget : r.records.get (statusPathIndexNative poseidon id) with
      | none =>
        simp only [hget] at h
        cases h
      | some row =>
        obtain ⟨index, record⟩ := row
        have hkey : index = statusPathIndexNative poseidon id := Table.key_of_get hget
        simp only [hget] at h
        split at h
        · cases h
        · split at h
          · cases h
          · split at h
            · cases h
            · rename_i hid hactive hcommitment
              cases h
              obtain ⟨recordId, commitment, active⟩ := record
              simp only [ne_eq, not_not, Bool.not_eq_false] at hid hactive hcommitment
              subst hid hcommitment
              rw [hactive, hkey]
              exact ⟨rfl, rfl, rfl⟩
  · rintro ⟨hvalid, hget, rfl⟩
    simp [StatusRegistry.witness, hvalid, hget]

theorem Described.witness_eq (h : Described poseidon r changes) {id : StatusId}
    {c : StatusField} {w : StatusWitness} (hw : r.witness poseidon id c = .ok w) :
    w = witnessOf poseidon changes.length (leavesAfter (fun _ => 0) changes)
      (statusPathIndexNative poseidon id) := by
  obtain ⟨_, hget, rfl⟩ := witness_eq_ok.mp hw
  have hleaf := h.active _ _ hget rfl
  rw [witnessOf, h.root_eq, h.siblings_eq, h.epoch, hleaf]

-- A credential as the registry records it, with no change of its leaf among some changes.
def Untouched (poseidon : Poseidon) (id : StatusId) (more : List Change) : Prop :=
  ∀ d ∈ more, d.1 ≠ statusPathIndexNative poseidon id

def Recorded (poseidon : Poseidon) (r : StatusRegistry) (id : StatusId) (c : StatusField)
    (active : Bool) : Prop :=
  r.records.get (statusPathIndexNative poseidon id) =
    some (statusPathIndexNative poseidon id, ⟨id, c, active⟩)

theorem untouched_nil {id : StatusId} : Untouched poseidon id [] := fun _ hd => by cases hd

theorem Untouched.append {id : StatusId} {more rest : List Change}
    (h : Untouched poseidon id more) (hrest : Untouched poseidon id rest) :
    Untouched poseidon id (more ++ rest) :=
  fun d hd => (List.mem_append.mp hd).elim (h d) (hrest d)

-- An operation revokes a recorded credential, or leaves its record and its leaf alone.
theorem step_recorded (h : Described poseidon r changes) {id : StatusId} {c : StatusField}
    {active : Bool} (hrec : Recorded poseidon r id c active) (op : Op) :
    ∃ more, Described poseidon (step poseidon r op) (changes ++ more) ∧
      ((Recorded poseidon (step poseidon r op) id c active ∧ Untouched poseidon id more ∧
          ∀ d, op = .revoke id → (r.revoke poseidon id).2 ≠ .ok d) ∨
        (active = true ∧ Recorded poseidon (step poseidon r op) id c false ∧
          more = [(statusPathIndexNative poseidon id, 0)] ∧
          ∃ d, op = .revoke id ∧ (r.revoke poseidon id).2 = .ok d)) := by
  have hput : ∀ other : BitVec 32 × StatusRecord,
      other.1 ≠ statusPathIndexNative poseidon id →
      (r.records.put other).get (statusPathIndexNative poseidon id) =
        some (statusPathIndexNative poseidon id, ⟨id, c, active⟩) :=
    fun other hne => (Table.get_put_ne hne).trans hrec
  have hstep : Committed poseidon r op (step poseidon r op) := step_committed op
  generalize step poseidon r op = r' at hstep ⊢
  cases hstep with
  | refused hrefused =>
    refine ⟨[], ?_, .inl ⟨hrec, untouched_nil, fun d hop => hrefused id hop d⟩⟩
    rwa [List.append_nil]
  | @activated other _ hnone hepoch =>
    have hne : statusPathIndexNative poseidon other ≠ statusPathIndexNative poseidon id := by
      intro heq
      rw [heq, hrec] at hnone
      cases hnone
    refine ⟨_, h.commitLeaf hepoch fun _ => rfl, .inl ⟨hput _ hne, ?_, fun _ hop => nomatch hop⟩⟩
    intro d hd
    rw [List.mem_singleton.mp hd]
    exact hne
  | @revoked other record delta hsome hid hactive hepoch hok =>
    refine ⟨_, h.commitLeaf hepoch fun hc => absurd hc Bool.false_ne_true, ?_⟩
    by_cases heq : statusPathIndexNative poseidon other = statusPathIndexNative poseidon id
    · rw [heq, hrec] at hsome
      cases hsome
      simp only at hid hactive
      subst hid
      refine .inr ⟨hactive, ?_, rfl, delta, rfl, hok⟩
      exact Table.get_put_self r.records _
    · refine .inl ⟨hput _ heq, ?_, fun d hop => ?_⟩
      · intro d hd
        rw [List.mem_singleton.mp hd]
        exact heq
      · cases hop
        exact absurd rfl heq

theorem runFrom_described (h : Described poseidon r changes) (ops : List Op) :
    ∃ more, Described poseidon (runFrom poseidon r ops) (changes ++ more) := by
  induction ops generalizing r changes with
  | nil => exact ⟨[], by rwa [List.append_nil]⟩
  | cons op ops ih =>
    have hstep : ∃ more, Described poseidon (step poseidon r op) (changes ++ more) := by
      have hcommitted : Committed poseidon r op (step poseidon r op) := step_committed op
      generalize step poseidon r op = r' at hcommitted ⊢
      cases hcommitted with
      | refused _ => exact ⟨[], by rwa [List.append_nil]⟩
      | activated _ hepoch => exact ⟨_, h.commitLeaf hepoch fun _ => rfl⟩
      | revoked _ _ _ hepoch _ =>
        exact ⟨_, h.commitLeaf hepoch fun hc => absurd hc Bool.false_ne_true⟩
    obtain ⟨more, hmore⟩ := hstep
    obtain ⟨rest, hrest⟩ := ih hmore
    exact ⟨more ++ rest, by rwa [← List.append_assoc]⟩

theorem run_described (ops : List Op) :
    ∃ changes, Described poseidon (run poseidon ops) changes :=
  runFrom_described described_new ops

theorem runFrom_revoked (h : Described poseidon r changes) {id : StatusId} {c : StatusField}
    (hrec : Recorded poseidon r id c false) (ops : List Op) :
    ∃ more, Described poseidon (runFrom poseidon r ops) (changes ++ more) ∧
      Recorded poseidon (runFrom poseidon r ops) id c false ∧ Untouched poseidon id more := by
  induction ops generalizing r changes with
  | nil => exact ⟨[], by rwa [List.append_nil], hrec, untouched_nil⟩
  | cons op ops ih =>
    obtain ⟨more, hmore, ⟨hkept, hfar, -⟩ | ⟨hfalse, -⟩⟩ := step_recorded h hrec op
    · obtain ⟨rest, hrest, hlast, hquiet⟩ := ih hmore hkept
      exact ⟨more ++ rest, by rwa [← List.append_assoc], hlast, hfar.append hquiet⟩
    · cases hfalse

-- The operations that follow a state revoke a credential.
def RevokedIn (poseidon : Poseidon) (r : StatusRegistry) (id : StatusId) (ops : List Op) :
    Prop :=
  ∃ first last delta, ops = first ++ .revoke id :: last ∧
    ((runFrom poseidon r first).revoke poseidon id).2 = .ok delta

theorem revokedIn_cons {id : StatusId} {op : Op} {ops : List Op} :
    RevokedIn poseidon r id (op :: ops) ↔
      (∃ d, op = .revoke id ∧ (r.revoke poseidon id).2 = .ok d) ∨
        RevokedIn poseidon (step poseidon r op) id ops := by
  constructor
  · rintro ⟨first, last, delta, hops, hok⟩
    cases first with
    | nil =>
      cases hops
      exact .inl ⟨delta, rfl, hok⟩
    | cons op' first =>
      cases hops
      exact .inr ⟨first, last, delta, rfl, hok⟩
  · rintro (⟨d, rfl, hok⟩ | ⟨first, last, delta, rfl, hok⟩)
    · exact ⟨[], ops, d, rfl, hok⟩
    · exact ⟨op :: first, last, delta, rfl, hok⟩

-- Over a run, an active credential stays so without changes of its leaf, or its
-- revocation clears the leaf.
theorem runFrom_active (h : Described poseidon r changes) {id : StatusId} {c : StatusField}
    (hrec : Recorded poseidon r id c true) (ops : List Op) :
    ∃ more, Described poseidon (runFrom poseidon r ops) (changes ++ more) ∧
      ((Recorded poseidon (runFrom poseidon r ops) id c true ∧ Untouched poseidon id more ∧
          ¬RevokedIn poseidon r id ops) ∨
        (Recorded poseidon (runFrom poseidon r ops) id c false ∧
          (∃ d ∈ more, d.1 = statusPathIndexNative poseidon id) ∧
          (∀ d ∈ more, d.1 = statusPathIndexNative poseidon id → d.2 = 0) ∧
          RevokedIn poseidon r id ops)) := by
  induction ops generalizing r changes with
  | nil =>
    refine ⟨[], by rwa [List.append_nil], .inl ⟨hrec, untouched_nil, ?_⟩⟩
    rintro ⟨first, last, delta, hops, -⟩
    cases first <;> cases hops
  | cons op ops ih =>
    obtain ⟨more, hmore, ⟨hkept, hfar, hnot⟩ | ⟨-, hcleared, rfl, hrevoke⟩⟩ :=
      step_recorded h hrec op
    · obtain ⟨rest, hrest, hlast⟩ := ih hmore hkept
      refine ⟨more ++ rest, by rwa [← List.append_assoc], ?_⟩
      have hiff : RevokedIn poseidon r id (op :: ops) ↔
          RevokedIn poseidon (step poseidon r op) id ops := by
        rw [revokedIn_cons]
        exact or_iff_right fun ⟨d, hop, hok⟩ => hnot d hop hok
      rcases hlast with ⟨hlast, hquiet, hrevoked⟩ | ⟨hlast, ⟨d, hd, hown⟩, hzero, hrevoked⟩
      · exact .inl ⟨hlast, hfar.append hquiet, fun hc => hrevoked (hiff.mp hc)⟩
      · refine .inr ⟨hlast, ⟨d, List.mem_append_right _ hd, hown⟩, fun e he heq => ?_,
          hiff.mpr hrevoked⟩
        rcases List.mem_append.mp he with he | he
        · exact absurd heq (hfar e he)
        · exact hzero e he heq
    · obtain ⟨rest, hrest, hlast, hquiet⟩ := runFrom_revoked hmore hcleared ops
      refine ⟨_, by rwa [List.append_assoc] at hrest, .inr ⟨hlast, ?_, ?_, ?_⟩⟩
      · exact ⟨_, List.mem_cons_self, rfl⟩
      · intro d hd heq
        rcases List.mem_cons.mp hd with rfl | hd
        · rfl
        · exact absurd heq (hquiet d hd)
      · exact revokedIn_cons.mpr (.inl hrevoke)

-- A batch accepts only what leads to the root that it ends in.
theorem applyDelta_ok {w w' : StatusWitness} {delta : StatusRegistryDelta}
    (h : applyDelta poseidon w delta = some (.ok w')) :
    w'.leafIndex = w.leafIndex ∧ w'.activeLeaf = w.activeLeaf ∧
      rootFromWitness poseidon w' = w'.root := by
  simp only [applyDelta] at h
  split at h
  · cases h
  · split at h
    · cases h
    · split at h
      · cases h
      · split at h
        · cases h
        · simp only [Option.bind_eq_bind, Option.bind_eq_some_iff] at h
          obtain ⟨divergence, -, siblings, -, h⟩ := h
          split at h
          · cases h
          · cases h
            exact ⟨rfl, rfl, rfl⟩

theorem applyDelta_ne_none (w : StatusWitness) (delta : StatusRegistryDelta) :
    applyDelta poseidon w delta ≠ none := by
  simp only [applyDelta]
  split
  · exact Option.some_ne_none _
  · split
    · exact Option.some_ne_none _
    · split
      · exact Option.some_ne_none _
      · split
        · exact Option.some_ne_none _
        · rename_i hindex
          obtain ⟨hdivergence, hlt⟩ := divergence_eq hindex
          rw [hdivergence, Option.bind_eq_bind, Option.bind_some, writeAt, dif_pos hlt,
            Option.bind_eq_bind, Option.bind_some]
          split <;> exact Option.some_ne_none _

theorem applyDeltas_ne_none (w : StatusWitness) (deltas : List StatusRegistryDelta) :
    applyDeltas poseidon w deltas ≠ none := by
  induction deltas generalizing w with
  | nil => exact Option.some_ne_none _
  | cons delta deltas ih =>
    rw [applyDeltas]
    split
    · exact ih _
    · exact applyDelta_ne_none w delta

theorem applyDeltas_ok {w w' : StatusWitness} {deltas : List StatusRegistryDelta}
    (hw : rootFromWitness poseidon w = w.root)
    (h : applyDeltas poseidon w deltas = some (.ok w')) :
    w'.leafIndex = w.leafIndex ∧ w'.activeLeaf = w.activeLeaf ∧
      rootFromWitness poseidon w' = w'.root := by
  induction deltas generalizing w with
  | nil =>
    cases h
    exact ⟨rfl, rfl, hw⟩
  | cons delta deltas ih =>
    rw [applyDeltas] at h
    cases hfirst : applyDelta poseidon w delta with
    | none =>
      rw [hfirst] at h
      cases h
    | some result =>
      cases result with
      | error e =>
        rw [hfirst] at h
        cases h
      | ok next =>
        rw [hfirst] at h
        obtain ⟨hindex, hleaf, hroot⟩ := applyDelta_ok hfirst
        obtain ⟨hindex', hleaf', hroot'⟩ := ih hroot h
        exact ⟨hindex'.trans hindex, hleaf'.trans hleaf, hroot'⟩

-- The deltas since a witness was issued, and the witness after them.
theorem drop_history {more : List Change} (h : Described poseidon r (changes ++ more)) :
    r.deltasSince changes.length =
      .ok (deltasOf poseidon changes.length (leavesAfter (fun _ => 0) changes) more) := by
  have hle : ¬r.epoch < changes.length := by
    rw [h.epoch, List.length_append]
    omega
  rw [StatusRegistry.deltasSince, if_neg hle, h.history, deltasOf_append, Nat.zero_add,
    List.drop_left' (length_deltasOf 0 changes)]

theorem leavesAfter_append_list (leaf : Nat → StatusField) (changes more : List Change) :
    leavesAfter leaf (changes ++ more) = leavesAfter (leavesAfter leaf changes) more :=
  List.foldl_append

theorem rootFromWitness_witnessOf (epoch : Nat) (leaf : Nat → StatusField) (i : BitVec 32) :
    rootFromWitness poseidon (witnessOf poseidon epoch leaf i) =
      (witnessOf poseidon epoch leaf i).root := by
  rw [rootFromWitness_eq]
  exact rootFromPath_own i

-- A refresh through the changes of a run gives the witness that the registry gives.
theorem refresh_described {more : List Change} {r' : StatusRegistry} {id : StatusId}
    {c : StatusField} {w : StatusWitness} (h : Described poseidon r changes)
    (hw : r.witness poseidon id c = .ok w) (h' : Described poseidon r' (changes ++ more))
    (hlast : (Recorded poseidon r' id c true ∧ Untouched poseidon id more) ∨
      (Recorded poseidon r' id c false ∧
        (∃ d ∈ more, d.1 = statusPathIndexNative poseidon id) ∧
        ∀ d ∈ more, d.1 = statusPathIndexNative poseidon id → d.2 = 0)) :
    ∃ deltas, r'.deltasSince w.epoch = .ok deltas ∧
      refreshStatusWitness poseidon w deltas (r'.checkpoint poseidon) =
        some (r'.witness poseidon id c) := by
  obtain ⟨hvalid, -, -⟩ := witness_eq_ok.mp hw
  have hbound : changes.length + more.length ≤ U32_MAX := by
    rw [← List.length_append, ← h'.epoch]
    exact h'.bound
  rw [h.witness_eq hw]
  refine ⟨_, drop_history h', ?_⟩
  rw [refreshStatusWitness, if_neg (not_not.mpr (rootFromWitness_witnessOf _ _ _))]
  rcases hlast with ⟨hrec, hquiet⟩ | ⟨hrec, hown, hzero⟩
  · rw [applyDeltas_other hbound hquiet, ← leavesAfter_append_list, ← List.length_append]
    have hnow : r'.witness poseidon id c = .ok _ :=
      witness_eq_ok.mpr ⟨hvalid, hrec, rfl⟩
    simp only [StatusRegistry.checkpoint, h'.epoch, h'.root_eq]
    rw [hnow, ← h'.witness_eq hnow, if_neg]
    simp [h'.epoch, h'.root_eq]
  · rw [applyDeltas_own hbound hown hzero]
    have hget : r'.records.get _ = some _ := hrec
    simp [StatusRegistry.witness, hvalid, hget]

theorem activate_witness {id : StatusId} {c : StatusField} {a : StatusActivation}
    (h : (r.activate poseidon id c).2 = .ok a) :
    (r.activate poseidon id c).1.witness poseidon id c = .ok a.witness := by
  simp only [StatusRegistry.activate] at h ⊢
  cases hvalid : validateStatusId id with
  | error e =>
    simp only [hvalid] at h
    cases h
  | ok =>
    simp only [hvalid] at h ⊢
    cases hget : r.records.get (statusPathIndexNative poseidon id) with
    | some row =>
      simp only [hget] at h
      cases h
    | none =>
      simp only [hget] at h ⊢
      cases hnext : r.nextEpoch with
      | error e =>
        simp only [hnext] at h
        cases h
      | ok next =>
        simp only [hnext] at h ⊢
        obtain ⟨w, hw, rfl⟩ := Lib.Except.map_eq_ok.mp h
        exact hw

-- Over every run a refreshed witness is the one that the registry gives now, and no batch
-- of deltas yields a witness that the accepted checkpoint does not verify.
theorem refresh_equals_witness (poseidon : Poseidon) :
    (∀ (before after : List Op) (id : StatusId) (c : StatusField) (w : StatusWitness),
      (run poseidon before).witness poseidon id c = .ok w →
      ∃ deltas, (run poseidon (before ++ after)).deltasSince w.epoch = .ok deltas ∧
        refreshStatusWitness poseidon w deltas
            ((run poseidon (before ++ after)).checkpoint poseidon) =
          some ((run poseidon (before ++ after)).witness poseidon id c) ∧
        ((run poseidon (before ++ after)).witness poseidon id c = .error .CredentialRevoked ↔
          RevokedIn poseidon (run poseidon before) id after) ∧
        (¬RevokedIn poseidon (run poseidon before) id after →
          ∃ now, (run poseidon (before ++ after)).witness poseidon id c = .ok now)) ∧
    (∀ (before : List Op) (id : StatusId) (c : StatusField) (a : StatusActivation),
      ((run poseidon before).activate poseidon id c).2 = .ok a →
      (run poseidon (before ++ [.activate id c])).witness poseidon id c = .ok a.witness) ∧
    ∀ (w : StatusWitness) (deltas : List StatusRegistryDelta) (accepted : StatusCheckpoint),
      refreshStatusWitness poseidon w deltas accepted ≠ none ∧
      ∀ w', refreshStatusWitness poseidon w deltas accepted = some (.ok w') →
        w'.epoch = accepted.epoch ∧ w'.root = accepted.root ∧
          rootFromWitness poseidon w' = accepted.root ∧ w'.leafIndex = w.leafIndex ∧
          w'.activeLeaf = w.activeLeaf := by
  refine ⟨?_, ?_, ?_⟩
  · intro before after id c w hw
    obtain ⟨changes, h⟩ := run_described before
    obtain ⟨hvalid, hrec, -⟩ := witness_eq_ok.mp hw
    obtain ⟨more, h', hlast⟩ := runFrom_active h hrec after
    have hrun : run poseidon (before ++ after) = runFrom poseidon (run poseidon before) after :=
      List.foldl_append
    rw [hrun]
    obtain ⟨deltas, hdeltas, hrefresh⟩ := refresh_described h hw h'
      (hlast.imp (fun hl => ⟨hl.1, hl.2.1⟩) fun hr => ⟨hr.1, hr.2.1, hr.2.2.1⟩)
    refine ⟨deltas, hdeltas, hrefresh, ?_⟩
    rcases hlast with ⟨hactive, -, hnot⟩ | ⟨hrevoked, -, -, hin⟩
    · have hnow : (runFrom poseidon (run poseidon before) after).witness poseidon id c = .ok _ :=
        witness_eq_ok.mpr ⟨hvalid, hactive, rfl⟩
      rw [hnow]
      exact ⟨⟨nofun, fun hc => absurd hc hnot⟩, fun _ => ⟨_, rfl⟩⟩
    · have hget : (runFrom poseidon (run poseidon before) after).records.get _ = some _ :=
        hrevoked
      refine ⟨⟨fun _ => hin, fun _ => ?_⟩, fun hc => absurd hin hc⟩
      simp [StatusRegistry.witness, hvalid, hget]
  · intro before id c a h
    have hrun : run poseidon (before ++ [.activate id c]) =
        ((run poseidon before).activate poseidon id c).1 := List.foldl_append
    rw [hrun]
    exact activate_witness h
  · intro w deltas accepted
    constructor
    · rw [refreshStatusWitness]
      split
      · exact Option.some_ne_none _
      · split
        · split <;> exact Option.some_ne_none _
        · exact applyDeltas_ne_none w deltas
    · intro w' h
      rw [refreshStatusWitness] at h
      by_cases hw : rootFromWitness poseidon w = w.root
      · rw [if_neg (not_not.mpr hw)] at h
        split at h
        · rename_i refreshed hrefreshed
          obtain ⟨hindex, hleaf, hroot⟩ := applyDeltas_ok hw hrefreshed
          split at h
          · cases h
          · rename_i haccepted
            cases h
            rw [not_or, not_not, not_not] at haccepted
            exact ⟨haccepted.1, haccepted.2, hroot.trans haccepted.2, hindex, hleaf⟩
        · rename_i hstopped
          exact absurd h (hstopped w')
      · rw [if_pos hw] at h
        cases h

end Ubi2.StatusDelta
