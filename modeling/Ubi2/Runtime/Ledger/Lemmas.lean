import Ubi2.Runtime.Ledger

namespace Ubi2.Runtime

open Lib

namespace Account

variable (a : Account) (now : U64)

@[simp] theorem settle_address : (a.settle now).address = a.address := (rfl)
@[simp] theorem settle_verified : (a.settle now).verified = a.verified := (rfl)
@[simp] theorem settle_verifiedAt : (a.settle now).verifiedAt = a.verifiedAt := (rfl)
@[simp] theorem settle_nonce : (a.settle now).nonce = a.nonce := (rfl)

@[simp] theorem settle_lastSettledAt : (a.settle now).lastSettledAt = max a.lastSettledAt now := by
  simp only [settle]
  split_ifs with h
  · exact (max_eq_right h.le).symm
  · exact (max_eq_left (not_lt.mp h)).symm

theorem settledBalance_le_settle : a.settledBalance ≤ (a.settle now).settledBalance := by
  have h := a.settledBalance.isLt
  simp only [settle, BitVec.le_def, Word.toNat_satAdd]
  omega

end Account

namespace Ledger

variable (l : Ledger)

@[simp] theorem account_address (a : Address) : (l.account a).address = a := by
  simp only [account, get]
  cases h : l.accounts.get a with
  | none => rfl
  | some x => exact Table.key_of_get h

@[simp] theorem put_streams (x : Account) : (l.put x).streams = l.streams := rfl
@[simp] theorem put_nextId (x : Account) : (l.put x).nextId = l.nextId := rfl
@[simp] theorem put_incomingIdx (x : Account) : (l.put x).incomingIdx = l.incomingIdx := rfl
@[simp] theorem put_outgoingIdx (x : Account) : (l.put x).outgoingIdx = l.outgoingIdx := rfl
@[simp] theorem getStream_put (x : Account) (id : StreamId) :
    (l.put x).getStream id = l.getStream id := rfl
@[simp] theorem incoming_put (x : Account) : (l.put x).incoming = l.incoming := rfl
@[simp] theorem outgoing_put (x : Account) : (l.put x).outgoing = l.outgoing := rfl

theorem account_put (x : Account) (a : Address) :
    (l.put x).account a = if x.address = a then x else l.account a := by
  simp only [account, get, put, Table.get_put]
  split_ifs <;> rfl

@[simp] theorem account_put_self (x : Account) : (l.put x).account x.address = x := by
  simp [account_put]

theorem account_put_of_address {x : Account} {a : Address} (h : x.address = a) :
    (l.put x).account a = x := by
  simp [account_put, h]

theorem account_put_ne {x : Account} {a : Address} (h : x.address ≠ a) :
    (l.put x).account a = l.account a := by
  simp [account_put, h]

theorem put_put {x y : Account} (h : x.address = y.address) :
    (l.put x).put y = l.put y := by
  simp only [put, Table.put_put l.accounts h]

theorem put_comm {x y : Account} (h : x.address ≠ y.address) :
    (l.put x).put y = (l.put y).put x := by
  simp only [put, Table.put_comm l.accounts h]

-- A second write to an account passes over a write to another one.
theorem put_put_put {x y x' : Account} (hxy : x.address ≠ y.address)
    (hx : x.address = x'.address) : ((l.put x).put y).put x' = (l.put x').put y := by
  rw [put_comm (l.put x) (by rw [← hx]; exact hxy.symm), put_put l hx]

@[simp] theorem account_putStream (s : Stream) : (l.putStream s).account = l.account := by
  funext a
  simp only [putStream]
  split_ifs <;> rfl

@[simp] theorem putStream_accounts (s : Stream) : (l.putStream s).accounts = l.accounts := by
  simp only [putStream]
  split_ifs <;> rfl

@[simp] theorem putStream_streams (s : Stream) : (l.putStream s).streams = l.streams.put s := by
  simp only [putStream]
  split_ifs <;> rfl

@[simp] theorem putStream_nextId (s : Stream) : (l.putStream s).nextId = l.nextId := by
  simp only [putStream]
  split_ifs <;> rfl

theorem getStream_putStream (s : Stream) (id : StreamId) :
    (l.putStream s).getStream id = if s.id = id then some s else l.getStream id := by
  simp only [getStream, putStream_streams, Table.get_put]

theorem getStream_id {id : StreamId} {s : Stream} (h : l.getStream id = some s) : s.id = id :=
  Table.key_of_get h

-- Writing a stream that exists leaves the indexes alone.
theorem putStream_of_some {s t : Stream} (h : l.getStream s.id = some t) :
    l.putStream s = { l with streams := l.streams.put s } := by
  have hc : l.streams.contains s.id = true := Table.contains_eq_true.mpr ⟨t, h⟩
  simp only [putStream, hc, if_true]

theorem putStream_of_none {s : Stream} (h : l.getStream s.id = none) :
    l.putStream s =
      { l with
        streams := l.streams.put s
        outgoingIdx := l.outgoingIdx.put (s.from_, s.id)
        incomingIdx := l.incomingIdx.put (s.to_, s.id) } := by
  have hc : l.streams.contains s.id = false := by
    simpa [Table.contains, getStream] using h
  simp [putStream, hc]

theorem mem_indexed {idx : StreamIndex} {a : Address} {id : StreamId} :
    id ∈ indexed idx a ↔ ((a, id) : Address × StreamId) ∈ idx.rows := by
  simp only [indexed, List.mem_map, List.mem_filter, decide_eq_true_eq]
  constructor
  · rintro ⟨⟨b, j⟩, ⟨hmem, rfl⟩, rfl⟩
    exact hmem
  · intro hmem
    exact ⟨(a, id), ⟨hmem, rfl⟩, rfl⟩

end Ledger

end Ubi2.Runtime
