import Ubi2.Lib.Cursor
import Ubi2.Network.Swarm

namespace Ubi2.Network

open Ubi2.Runtime Ubi2.Lib Ubi2.Lib.Encode Ubi2.Lib.Decode Ubi2.Rpc

-- The greatest number of the machine, and the most bytes a slice can have.
def USIZE_MAX : Nat := 2 ^ 64 - 1
def ISIZE_MAX : Nat := 2 ^ 63 - 1

-- The reader of the crate, whose `none` is a panic.
namespace Reader

def take (n : Nat) : Scan WireError Bytes := fun c =>
  if USIZE_MAX < c.pos + n then some (.error .TooLong) else Scan.take .Truncated n c

def nat (n : Nat) : Scan WireError Nat := Scan.natOf take n

def word (w : Nat) : Scan WireError (BitVec w) := Scan.word take w

-- A byte string behind its length, of `max` bytes at most.
def bytes (max : Nat) : Scan WireError Bytes := do
  let n ← nat 4
  if max < n then Scan.fail .TooLong else take n

end Reader

-- A decoder goes over the whole of its bytes.
def decodeWhole {α : Type} (read : Scan WireError α) (buf : Bytes) :
    Option (Except WireError α) :=
  Scan.run (do
    let a ← read
    Scan.finish .TrailingBytes
    return a) buf

namespace WireBlock

def readTxs (c : Caps) : Scan WireError (List Bytes) := do
  let count ← Reader.nat 4
  if c.maxBlockBytes / 4 < count then Scan.fail .TooLong
  else Scan.times (Reader.bytes c.maxTxBytes) count

def read (c : Caps) : Scan WireError WireBlock := do
  let number ← Reader.nat 8
  let parentHash ← Reader.word 256
  let timestamp ← Reader.word 64
  let view ← Reader.word 32
  let txsRoot ← Reader.word 256
  let stateRoot ← Reader.word 256
  let proposer ← Reader.word 160
  let proposerSig ← Reader.bytes MAX_SIG_BYTES
  let rawTxs ← readTxs c
  return {
    number := number, parentHash := parentHash, timestamp := timestamp, view := view
    txsRoot := txsRoot, stateRoot := stateRoot, proposer := proposer
    proposerSig := proposerSig, rawTxs := rawTxs }

def decode (buf : Bytes) : Option (Except WireError WireBlock) :=
  if MAX_BLOCK_BYTES < buf.length then some (.error .TooLong) else decodeWhole (read caps) buf

end WireBlock

-- A step over a cursor does what a reader does, in a slice of any length.
abbrev Follows {α : Type} (scan : Scan WireError α) (read : Decode.Reader WireError α) : Prop :=
  Scan.Follows ISIZE_MAX id scan read

-- The end of what is taken is far from the greatest number of the machine.
theorem follows_take {n : Nat} (hn : n ≤ ISIZE_MAX) :
    Follows (Reader.take n) (takeBytes .Truncated n) := by
  have htake : Follows (Scan.take .Truncated n) (takeBytes .Truncated n) := Scan.Follows.take _ n
  have hsame : ∀ c : Cursor, c.Within ISIZE_MAX →
      Reader.take n c = Scan.take .Truncated n c := by
    intro c hc
    have hpos := hc.pos
    have hbuf := hc.buf
    have hend : ¬ USIZE_MAX < c.pos + n := by
      simp only [USIZE_MAX, ISIZE_MAX] at hn hbuf ⊢
      omega
    exact if_neg hend
  refine ⟨?_, ?_⟩
  · intro c a rest hc h
    rw [hsame c hc]
    exact htake.ok hc h
  · intro c e hc h
    rw [hsame c hc]
    exact htake.error hc h

theorem follows_nat {n : Nat} (hn : n ≤ ISIZE_MAX) :
    Follows (Reader.nat n) (natOf .Truncated n) :=
  Scan.Follows.natOf (follows_take hn)

theorem follows_word {w : Nat} (hw : w / 8 ≤ ISIZE_MAX) :
    Follows (Reader.word w) (word .Truncated w) :=
  Scan.Follows.word (follows_take hw)

theorem follows_bytes {max : Nat} (hmax : max ≤ ISIZE_MAX) :
    Follows (Reader.bytes max) (readBytes max) :=
  (follows_nat (by decide)).bind fun _ =>
    .ite (fun _ => .fail WireError.TooLong) fun hlen => follows_take ((not_lt.mp hlen).trans hmax)

theorem decodeWhole_eq {α : Type} {scan : Scan WireError α} {read : Decode.Reader WireError α}
    (h : Follows scan read) {buf : Bytes} (hbuf : buf.length ≤ ISIZE_MAX) :
    decodeWhole scan buf = some (whole .TrailingBytes read buf) := by
  have hfinish : Follows (Scan.finish .TrailingBytes) (finish .TrailingBytes) :=
    Scan.Follows.finish _
  refine (h.run_whole hfinish hbuf).trans ?_
  cases whole WireError.TrailingBytes read buf <;> rfl

theorem follows_readTxs : Follows (WireBlock.readTxs caps) (readTxs caps) :=
  (follows_nat (by decide)).bind fun count =>
    .ite (fun _ => .fail WireError.TooLong) fun _ => .times (follows_bytes (by decide)) count

theorem follows_readBlock : Follows (WireBlock.read caps) (readBlock caps) := by
  have hash : Follows (Reader.word 256) (word .Truncated 256) := follows_word (by decide)
  exact (follows_nat (by decide)).bind fun _ => hash.bind fun _ =>
    (follows_word (by decide)).bind fun _ => (follows_word (by decide)).bind fun _ =>
    hash.bind fun _ => hash.bind fun _ => (follows_word (by decide)).bind fun _ =>
    (follows_bytes (by decide)).bind fun _ => follows_readTxs.bind fun _ => .pure _

-- The decoder never panics, and does to the bytes what the readers do.
theorem decodeBlock_eq (buf : Bytes) : WireBlock.decode buf = some (decode buf) := by
  unfold WireBlock.decode decode decodeWith
  have hcaps : caps.maxBlockBytes = MAX_BLOCK_BYTES := rfl
  rw [hcaps]
  split_ifs with hlong
  · rfl
  · have hcap : MAX_BLOCK_BYTES ≤ ISIZE_MAX := by decide
    rw [decodeWhole_eq follows_readBlock ((not_lt.mp hlong).trans hcap), whole]
    cases readBlock caps buf with
    | error e => rfl
    | ok p => rfl

end Ubi2.Network
