import Ubi2.Lib.Decode

namespace Ubi2.Lib

open Encode Decode

-- A buffer and how far it has been read.
structure Cursor where
  buf : List Byte
  pos : Nat

-- A step over a cursor. `none` is a panic.
def Scan (ε α : Type) := Cursor → Option (Except ε (α × Cursor))

namespace Cursor

def rest (c : Cursor) : List Byte := c.buf.drop c.pos

-- A cursor that has not left its buffer, which has no more bytes than a buffer can have.
structure Within (limit : Nat) (c : Cursor) : Prop where
  pos : c.pos ≤ c.buf.length
  buf : c.buf.length ≤ limit

theorem Within.rest_eq_nil {limit : Nat} {c : Cursor} (h : c.Within limit) :
    c.rest = [] ↔ c.pos = c.buf.length := by
  have hpos := h.pos
  rw [rest, List.drop_eq_nil_iff]
  omega

theorem Within.length_rest {limit : Nat} {c : Cursor} (h : c.Within limit) :
    c.pos + c.rest.length = c.buf.length := by
  have hpos := h.pos
  rw [rest, List.length_drop]
  omega

end Cursor

namespace Scan

variable {δ ε α β : Type}

instance instMonadScan : Monad (Scan ε) where
  pure a := fun c => some (.ok (a, c))
  bind scan next := fun c =>
    match scan c with
    | none => none
    | some (.error e) => some (.error e)
    | some (.ok (a, c)) => next a c

def fail (e : ε) : Scan ε α := fun _ => some (.error e)

def orPanic (o : Option α) : Scan ε α := fun c => o.map fun a => .ok (a, c)

-- A slice of a buffer. `none` is the panic of a range that is not within it.
def slice (buf : List Byte) (start stop : Nat) : Option (List Byte) :=
  if start ≤ stop ∧ stop ≤ buf.length then some ((buf.take stop).drop start) else none

-- A slice as an array of `n` bytes. `none` is the panic of a slice of another length.
def toArray (n : Nat) (s : List Byte) : Option (List Byte) :=
  if s.length = n then some s else none

-- What another decoder makes of bytes that have been read.
def ofResult (r : Option (Except ε α)) : Scan ε α := fun c =>
  r.map fun x => x.map fun a => (a, c)

-- The next `n` bytes.
def take (eof : ε) (n : Nat) : Scan ε (List Byte) := fun c =>
  if c.buf.length < c.pos + n then some (.error eof)
  else (slice c.buf c.pos (c.pos + n)).map fun s => .ok (s, { c with pos := c.pos + n })

-- A number of `n` bytes.
def natOf (take : Nat → Scan ε (List Byte)) (n : Nat) : Scan ε Nat := do
  let s ← take n
  let b ← orPanic (toArray n s)
  return ofBytes b

-- A word whose width is a whole number of bytes.
def word (take : Nat → Scan ε (List Byte)) (w : Nat) : Scan ε (BitVec w) := do
  let v ← natOf take (w / 8)
  return BitVec.ofNat w v

-- So many values in a row.
def times (scan : Scan ε α) : Nat → Scan ε (List α)
  | 0 => return []
  | n + 1 => do
    let a ← scan
    let l ← times scan n
    return a :: l

-- The whole buffer has to be read.
def finish (trailing : ε) : Scan ε Unit := fun c =>
  if c.pos = c.buf.length then some (.ok ((), c)) else some (.error trailing)

-- From the front of a buffer.
def run (scan : Scan ε α) (buf : List Byte) : Option (Except ε α) :=
  (scan ⟨buf, 0⟩).map fun r => r.map Prod.fst

-- The scan does to the rest of the buffer what the reader does to it, its errors translated,
-- and does not panic.
structure Follows (limit : Nat) (err : δ → ε) (scan : Scan ε α) (read : Reader δ α) : Prop where
  ok : ∀ ⦃c : Cursor⦄ ⦃a : α⦄ ⦃rest : List Byte⦄, c.Within limit → read c.rest = .ok (a, rest) →
    ∃ c', scan c = some (.ok (a, c')) ∧ c'.Within limit ∧ c'.rest = rest
  error : ∀ ⦃c : Cursor⦄ ⦃e : δ⦄, c.Within limit → read c.rest = .error e →
    scan c = some (.error (err e))

namespace Follows

variable {limit : Nat} {err : δ → ε} {scan : Scan ε α} {read : Reader δ α}

theorem pure (a : α) : Follows limit err (Pure.pure a : Scan ε α) (succeed a) := by
  refine ⟨?_, ?_⟩
  · intro c x rest hc h
    cases h
    exact ⟨c, rfl, hc, rfl⟩
  · intro c e hc h
    cases h

theorem fail (e : δ) : Follows limit err (fail (err e) : Scan ε α) (fun _ => .error e) := by
  refine ⟨?_, ?_⟩
  · intro c x rest hc h
    cases h
  · intro c e' hc h
    cases h
    rfl

theorem ofResult {r : Option (Except ε α)} {x : Except δ α} (h : r = some (x.mapError err)) :
    Follows limit err (ofResult r) (ofExcept x) := by
  subst h
  cases x with
  | error e => exact fail e
  | ok a => exact pure a

theorem bind {next : α → Scan ε β} {readNext : α → Reader δ β} (h : Follows limit err scan read)
    (hnext : ∀ a, Follows limit err (next a) (readNext a)) :
    Follows limit err (scan >>= next) (andThen read readNext) := by
  refine ⟨?_, ?_⟩
  · intro c y rest hc hread
    obtain ⟨a, mid, ha, hy⟩ := andThen_ok_iff.mp hread
    obtain ⟨c', hscan, hc', rfl⟩ := h.ok hc ha
    obtain ⟨c'', hscan', hc'', hrest⟩ := (hnext a).ok hc' hy
    refine ⟨c'', ?_, hc'', hrest⟩
    simp only [Bind.bind, hscan, hscan']
  · intro c e hc hread
    unfold andThen at hread
    cases ha : read c.rest with
    | error e' =>
      rw [ha] at hread
      cases hread
      simp only [Bind.bind, h.error hc ha]
    | ok p =>
      rw [ha] at hread
      obtain ⟨c', hscan, hc', hrest⟩ := h.ok hc ha
      have herror := (hnext p.1).error (c := c') (e := e) hc' (by rw [hrest]; exact hread)
      simp only [Bind.bind, hscan, herror]

theorem ite {p : Prop} [Decidable p] {scan' : Scan ε α} {read' : Reader δ α}
    (h : p → Follows limit err scan read) (h' : ¬ p → Follows limit err scan' read') :
    Follows limit err (if p then scan else scan') (if p then read else read') := by
  split_ifs with hp
  · exact h hp
  · exact h' hp

theorem take (eof : δ) (n : Nat) :
    Follows limit err (take (err eof) n) (takeBytes eof n) := by
  refine ⟨?_, ?_⟩
  · intro c x rest hc h
    have hlength := hc.length_rest
    obtain ⟨hx, hsplit⟩ := takeBytes_ok_iff.mp h
    have hle : x.length ≤ c.rest.length := by
      rw [hsplit, List.length_append]
      omega
    have hslice : slice c.buf c.pos (c.pos + n) = some x := by
      have hwithin : c.pos ≤ c.pos + n ∧ c.pos + n ≤ c.buf.length := by omega
      rw [slice, if_pos hwithin, List.drop_take, Nat.add_sub_cancel_left]
      change some (c.rest.take n) = some x
      rw [hsplit, ← hx, List.take_left]
    refine ⟨{ c with pos := c.pos + n }, ?_, ⟨by dsimp only; omega, hc.buf⟩, ?_⟩
    · rw [Scan.take, if_neg (by omega), hslice]
      rfl
    · change c.buf.drop (c.pos + n) = rest
      rw [← List.drop_drop]
      change c.rest.drop n = rest
      rw [hsplit, ← hx, List.drop_left]
  · intro c e hc h
    have hlength := hc.length_rest
    unfold takeBytes at h
    split_ifs at h with hshort
    cases h
    rw [Scan.take, if_pos (by omega)]

-- A conversion that succeeds on every slice of its length panics on none of those taken.
theorem natOf {take : Nat → Scan ε (List Byte)} {eof : δ} {n : Nat}
    (h : Follows limit err (take n) (takeBytes eof n)) :
    Follows limit err (natOf take n) (Decode.natOf eof n) := by
  refine ⟨?_, ?_⟩
  · intro c v rest hc hread
    obtain ⟨x, mid, hx, hv⟩ := andThen_ok_iff.mp hread
    obtain ⟨rfl, rfl⟩ := succeed_ok_iff.mp hv
    obtain ⟨c', hscan, hc', hrest⟩ := h.ok hc hx
    refine ⟨c', ?_, hc', hrest⟩
    have harray : toArray n x = some x := if_pos (takeBytes_ok_iff.mp hx).1
    simp only [Scan.natOf, Bind.bind, hscan, harray, orPanic, Option.map_some]
    rfl
  · intro c e hc hread
    unfold Decode.natOf andThen at hread
    cases hx : takeBytes eof n c.rest with
    | error e' =>
      rw [hx] at hread
      cases hread
      simp only [Scan.natOf, Bind.bind, h.error hc hx]
    | ok p =>
      rw [hx] at hread
      cases hread

theorem word {take : Nat → Scan ε (List Byte)} {eof : δ} {w : Nat}
    (h : Follows limit err (take (w / 8)) (takeBytes eof (w / 8))) :
    Follows limit err (word take w) (Decode.word eof w) :=
  (natOf h).bind fun _ => pure _

theorem times (h : Follows limit err scan read) (n : Nat) :
    Follows limit err (times scan n) (Decode.times read n) := by
  induction n with
  | zero => exact pure []
  | succ n ih => exact h.bind fun _ => ih.bind fun _ => pure _

theorem finish (trailing : δ) :
    Follows limit err (finish (err trailing)) (Decode.finish trailing) := by
  refine ⟨?_, ?_⟩
  · intro c x rest hc h
    unfold Decode.finish at h
    split_ifs at h with hrest
    cases h
    exact ⟨c, if_pos (hc.rest_eq_nil.mp hrest), hc, rfl⟩
  · intro c e hc h
    unfold Decode.finish at h
    split_ifs at h with hrest
    cases h
    exact if_neg (mt hc.rest_eq_nil.mpr hrest)

theorem run_eq (h : Follows limit err scan read) {buf : List Byte} (hbuf : buf.length ≤ limit) :
    run scan buf = some (((read buf).map Prod.fst).mapError err) := by
  have hwithin : (Cursor.mk buf 0).Within limit := ⟨Nat.zero_le _, hbuf⟩
  unfold run
  cases hread : read buf with
  | error e => rw [h.error hwithin hread]; rfl
  | ok p =>
    obtain ⟨c', hscan, -⟩ := h.ok hwithin hread
    rw [hscan]
    rfl

-- A scan that checks that nothing is left, however it does so, decodes the whole buffer.
theorem run_whole {check : Scan ε Unit} {trailing : δ} (h : Follows limit err scan read)
    (hcheck : Follows limit err check (Decode.finish trailing)) {buf : List Byte}
    (hbuf : buf.length ≤ limit) :
    run (scan >>= fun a => check >>= fun _ => Pure.pure a) buf =
      some ((whole trailing read buf).mapError err) := by
  rw [(h.bind fun a => hcheck.bind fun _ => pure a).run_eq hbuf]
  unfold andThen whole
  cases read buf with
  | error e => rfl
  | ok p =>
    unfold Decode.finish
    dsimp only
    split_ifs <;> rfl

end Follows

end Scan

end Ubi2.Lib
