import Ubi2.Network.Frames

namespace Ubi2.Network

open Ubi2.Runtime Ubi2.Lib Ubi2.Lib.Encode Ubi2.Lib.Decode Ubi2.Rpc

-- The decoder gives back every value that fits, accepts nothing but the encodings of these, and
-- panics on no bytes.
structure Codec {α : Type} (Fits : α → Prop) (encode : α → Bytes)
    (decode : Bytes → Option (Except WireError α)) : Prop where
  decode_encode : ∀ a, Fits a → decode (encode a) = some (.ok a)
  encode_decode : ∀ buf a, buf.length ≤ ISIZE_MAX → decode buf = some (.ok a) →
    Fits a ∧ encode a = buf
  total : ∀ buf, buf.length ≤ ISIZE_MAX → decode buf ≠ none

namespace Codec

variable {α β : Type} {Fits : α → Prop} {encode : α → Bytes}
variable {decode : Bytes → Option (Except WireError α)}

theorem of_eq {plain : Bytes → Except WireError α}
    (heq : ∀ buf, buf.length ≤ ISIZE_MAX → decode buf = some (plain buf))
    (hiff : ∀ buf a, plain buf = .ok a ↔ Fits a ∧ buf = encode a)
    (hlen : ∀ a, Fits a → (encode a).length ≤ ISIZE_MAX) : Codec Fits encode decode := by
  refine ⟨?_, ?_, ?_⟩
  · intro a ha
    rw [heq _ (hlen a ha), (hiff _ a).mpr ⟨ha, rfl⟩]
  · intro buf a hbuf h
    rw [heq buf hbuf, Option.some.injEq] at h
    obtain ⟨ha, rfl⟩ := (hiff buf a).mp h
    exact ⟨ha, rfl⟩
  · intro buf hbuf
    rw [heq buf hbuf]
    exact Option.some_ne_none _

theorem of_whole {scan : Scan WireError α} {read : Decode.Reader WireError α}
    (hscan : Follows scan read) (hread : Reads Fits encode read)
    (hlen : ∀ a, Fits a → (encode a).length ≤ ISIZE_MAX) :
    Codec Fits encode (decodeWhole scan) := by
  refine of_eq (fun buf hbuf => decodeWhole_eq hscan hbuf) (fun buf a => ?_) hlen
  rw [whole_ok_iff, hread, List.append_nil]

theorem asKind_ok_iff {kind : α → β} {r : Option (Except WireError α)} {b : β} :
    asKind kind r = some (.ok b) ↔ ∃ a, r = some (.ok a) ∧ kind a = b := by
  cases r with
  | none => simp [asKind]
  | some x => cases x <;> simp [asKind, Except.map]

theorem asKind_ne_none {kind : α → β} {r : Option (Except WireError α)} (h : r ≠ none) :
    asKind kind r ≠ none := by
  cases r with
  | none => exact absurd rfl h
  | some x => exact Option.some_ne_none _

end Codec

-- A block within its caps, and the bytes of its encoding with them.
def BlockFits (b : WireBlock) : Prop :=
  Fits MAX_TX_BYTES b ∧ (encode b).length ≤ MAX_BLOCK_BYTES

theorem decode_block_ok_iff {buf : Bytes} {b : WireBlock} :
    decode buf = .ok b ↔ BlockFits b ∧ buf = encode b := by
  rw [decode_ok_iff]
  constructor
  · rintro ⟨hfits, hbuf, hlen⟩
    exact ⟨⟨hfits, hbuf ▸ hlen⟩, hbuf⟩
  · rintro ⟨⟨hfits, hlen⟩, hbuf⟩
    exact ⟨hfits, hbuf, hbuf ▸ hlen⟩

theorem codec_block : Codec BlockFits encode WireBlock.decode := by
  have hcap : MAX_BLOCK_BYTES ≤ ISIZE_MAX := by decide
  refine .of_eq (fun buf _ => decodeBlock_eq buf) (fun _ _ => decode_block_ok_iff) ?_
  rintro b ⟨-, hlen⟩
  exact le_trans hlen hcap

namespace Hello

structure Fits (h : Hello) : Prop where
  tip : h.tip.1 < 256 ^ 8
  peerProof : h.peerProof.length ≤ MAX_SIG_BYTES

def readerValidator : Decode.Reader WireError (Option Address) :=
  andThen (word .Truncated 8) fun tag =>
    if tag = 0#8 then succeed none
    else if tag = 1#8 then andThen (word .Truncated 160) fun a => succeed (some a)
    else fun _ => .error (.Invalid "validator-tag")

theorem readerValidator_ok_iff {b rest : Bytes} {v : Option Address} :
    readerValidator b = .ok (v, rest) ↔ b = encodeValidator v ++ rest := by
  have htag : ∀ tag : U8, beBytes tag = [tag] := fun tag => by simp [beBytes, natBytes]
  simp only [readerValidator, andThen_ok_iff, word_ok_iff (show 8 ∣ 8 by decide), htag]
  constructor
  · rintro ⟨tag, mid, rfl, h⟩
    split_ifs at h with hnone hsome
    · obtain ⟨rfl, rfl⟩ := succeed_ok_iff.mp h
      rw [hnone]
      rfl
    · obtain ⟨a, mid', ha, h⟩ := andThen_ok_iff.mp h
      obtain ⟨rfl, rfl⟩ := succeed_ok_iff.mp h
      rw [(word_ok_iff (by decide)).mp ha, hsome, encodeValidator, List.cons_append]
      exact List.singleton_append
  · rintro rfl
    cases v with
    | none =>
      refine ⟨0#8, rest, rfl, ?_⟩
      rw [if_pos rfl]
      rfl
    | some a =>
      have ha : word WireError.Truncated 160 (beBytes a ++ rest) = .ok (a, rest) :=
        (word_ok_iff (by decide)).mpr rfl
      have hbytes : encodeValidator (some a) ++ rest = [1#8] ++ (beBytes a ++ rest) := by
        rw [encodeValidator, List.cons_append, List.singleton_append]
      refine ⟨1#8, beBytes a ++ rest, hbytes, ?_⟩
      rw [if_neg (by decide), if_pos rfl]
      exact andThen_ok_iff.mpr ⟨a, rest, ha, rfl⟩

def reader : Decode.Reader WireError Hello :=
  andThen (word .Truncated 256) fun genesisHash =>
  andThen (word .Truncated 64) fun chainId =>
  andThen (natOf .Truncated 8) fun tipHeight =>
  andThen (word .Truncated 256) fun tipHash =>
  andThen readerValidator fun validator =>
  andThen (readBytes MAX_SIG_BYTES) fun peerProof =>
  andThen (word .Truncated 16) fun protocolVer =>
  succeed
    { genesisHash := genesisHash, chainId := chainId, tip := (tipHeight, tipHash)
      validator := validator, peerProof := peerProof, protocolVer := protocolVer }

theorem follows_read : Follows read reader := by
  have hash : Follows (Reader.word 256) (word .Truncated 256) := follows_word (by decide)
  have validator : Follows readValidator readerValidator :=
    (follows_word (by decide)).bind fun _ => .ite (fun _ => .pure none) fun _ =>
      .ite (fun _ => (follows_word (by decide)).bind fun a => .pure (some a))
        fun _ => .fail (WireError.Invalid "validator-tag")
  exact hash.bind fun _ => (follows_word (by decide)).bind fun _ =>
    (follows_nat (by decide)).bind fun _ => hash.bind fun _ => validator.bind fun _ =>
    (follows_bytes (by decide)).bind fun _ => (follows_word (by decide)).bind fun _ => .pure _

theorem reads_reader : Reads Fits encode reader := by
  intro b h rest
  simp only [reader, andThen_ok_iff, succeed_ok_iff, natOf_ok_iff, readerValidator_ok_iff,
    word_ok_iff (show 8 ∣ 256 by decide), word_ok_iff (show 8 ∣ 64 by decide),
    word_ok_iff (show 8 ∣ 16 by decide), readBytes_ok_iff (show MAX_SIG_BYTES < 256 ^ 4 by decide)]
  constructor
  · rintro ⟨genesisHash, b₁, h₁, chainId, b₂, h₂, tipHeight, b₃, ⟨htip, h₃⟩, tipHash, b₄, h₄,
      validator, b₅, h₅, peerProof, b₆, ⟨hproof, h₆⟩, protocolVer, b₇, h₇, rfl, rfl⟩
    refine ⟨⟨htip, hproof⟩, ?_⟩
    simp only [h₁, h₂, h₃, h₄, h₅, h₆, h₇, encode, List.append_assoc]
  · rintro ⟨hfits, hbuf⟩
    simp only [hbuf, encode, List.append_assoc]
    exact ⟨h.genesisHash, _, rfl, h.chainId, _, rfl, h.tip.1, _, ⟨hfits.tip, rfl⟩, h.tip.2, _, rfl,
      h.validator, _, rfl, h.peerProof, _, ⟨hfits.peerProof, rfl⟩, h.protocolVer, _, rfl, rfl,
      rfl⟩

theorem length_encode_le {h : Hello} (hfits : h.Fits) : h.encode.length ≤ ISIZE_MAX := by
  have hproof := hfits.peerProof
  have hvalidator : (encodeValidator h.validator).length ≤ 21 := by
    cases h.validator <;> simp [encodeValidator, beBytes]
  simp only [encode, beBytes, List.length_append, length_natBytes, length_putBytes, MAX_SIG_BYTES,
    ISIZE_MAX] at hproof ⊢
  omega

theorem codec : Codec Fits encode decode :=
  .of_whole follows_read reads_reader fun _ => length_encode_le

end Hello

namespace GetBlocks

structure Fits (g : GetBlocks) : Prop where
  from_ : g.from_ < 256 ^ 8
  to_ : g.to_ < 256 ^ 8

def reader : Decode.Reader WireError GetBlocks :=
  andThen (natOf .Truncated 8) fun from_ => andThen (natOf .Truncated 8) fun to_ =>
    succeed { from_ := from_, to_ := to_ }

theorem reads_reader : Reads Fits encode reader := by
  intro b g rest
  simp only [reader, andThen_ok_iff, succeed_ok_iff, natOf_ok_iff]
  constructor
  · rintro ⟨from_, b₁, ⟨hfrom, h₁⟩, to_, b₂, ⟨hto, h₂⟩, rfl, rfl⟩
    refine ⟨⟨hfrom, hto⟩, ?_⟩
    simp only [h₁, h₂, encode, List.append_assoc]
  · rintro ⟨hfits, hbuf⟩
    simp only [hbuf, encode, List.append_assoc]
    exact ⟨g.from_, _, ⟨hfits.from_, rfl⟩, g.to_, _, ⟨hfits.to_, rfl⟩, rfl, rfl⟩

theorem codec : Codec Fits encode decode := by
  have follows : Follows read reader := (follows_nat (by decide)).bind fun _ =>
    (follows_nat (by decide)).bind fun _ => .pure _
  refine .of_whole follows reads_reader fun g _ => ?_
  simp only [encode, List.length_append, length_natBytes, ISIZE_MAX]
  omega

end GetBlocks

theorem GetGenesis.codec : Codec (fun _ => True) GetGenesis.encode GetGenesis.decode := by
  refine ⟨?_, ?_, ?_⟩
  · intro a _
    rfl
  · intro buf a _ h
    unfold GetGenesis.decode at h
    split_ifs at h with hnil
    · exact ⟨trivial, hnil.symm⟩
    · cases h
  · intro buf _
    unfold GetGenesis.decode
    split_ifs <;> exact Option.some_ne_none _

namespace Genesis

def Fits (g : Genesis) : Prop := g.snapshot.length ≤ MAX_BLOCK_BYTES

def reader : Decode.Reader WireError Genesis :=
  andThen (word .Truncated 256) fun genesisHash =>
  andThen (word .Truncated 64) fun chainId =>
  andThen (word .Truncated 256) fun stateRoot =>
  andThen (word .Truncated 64) fun genesisTime =>
  andThen (word .Truncated 160) fun proposer =>
  andThen (readBytes MAX_BLOCK_BYTES) fun snapshot =>
  succeed
    { genesisHash := genesisHash, chainId := chainId, stateRoot := stateRoot
      genesisTime := genesisTime, proposer := proposer, snapshot := snapshot }

theorem follows_read : Follows read reader := by
  have word : ∀ w, w / 8 ≤ ISIZE_MAX → Follows (Reader.word w) (word .Truncated w) :=
    fun _ => follows_word
  exact (word 256 (by decide)).bind fun _ => (word 64 (by decide)).bind fun _ =>
    (word 256 (by decide)).bind fun _ => (word 64 (by decide)).bind fun _ =>
    (word 160 (by decide)).bind fun _ => (follows_bytes (by decide)).bind fun _ => .pure _

theorem reads_reader : Reads Fits encode reader := by
  intro b g rest
  simp only [reader, andThen_ok_iff, succeed_ok_iff, word_ok_iff (show 8 ∣ 256 by decide),
    word_ok_iff (show 8 ∣ 64 by decide), word_ok_iff (show 8 ∣ 160 by decide),
    readBytes_ok_iff (show MAX_BLOCK_BYTES < 256 ^ 4 by decide)]
  constructor
  · rintro ⟨genesisHash, b₁, h₁, chainId, b₂, h₂, stateRoot, b₃, h₃, genesisTime, b₄, h₄,
      proposer, b₅, h₅, snapshot, b₆, ⟨hsnapshot, h₆⟩, rfl, rfl⟩
    refine ⟨hsnapshot, ?_⟩
    simp only [h₁, h₂, h₃, h₄, h₅, h₆, encode, List.append_assoc]
  · rintro ⟨hfits, hbuf⟩
    simp only [hbuf, encode, List.append_assoc]
    exact ⟨g.genesisHash, _, rfl, g.chainId, _, rfl, g.stateRoot, _, rfl, g.genesisTime, _, rfl,
      g.proposer, _, rfl, g.snapshot, _, ⟨hfits, rfl⟩, rfl, rfl⟩

theorem codec : Codec Fits encode decode := by
  refine .of_whole follows_read reads_reader fun g hg => ?_
  simp only [Fits, encode, beBytes, List.length_append, length_natBytes, length_putBytes,
    MAX_BLOCK_BYTES, ISIZE_MAX] at hg ⊢
  omega

end Genesis

namespace Blocks

structure Fits (blocks : List WireBlock) : Prop where
  count : blocks.length ≤ SYNC_MAX_BATCH
  blocks : ∀ b ∈ blocks, BlockFits b

def readerOne : Decode.Reader WireError WireBlock :=
  andThen (readBytes MAX_BLOCK_BYTES) fun raw => ofExcept (Network.decode raw)

def reader : Decode.Reader WireError (List WireBlock) :=
  andThen (natOf .Truncated 4) fun count =>
    if SYNC_MAX_BATCH < count then fun _ => .error .TooLong else times readerOne count

theorem follows_read : Follows read reader := by
  have one : Follows readOne readerOne := (follows_bytes (by decide)).bind fun raw =>
    .ofResult (by rw [decodeBlock_eq]; cases Network.decode raw <;> rfl)
  exact (follows_nat (by decide)).bind fun count =>
    .ite (fun _ => .fail WireError.TooLong) fun _ => .times one count

theorem reads_readerOne :
    Reads BlockFits (fun b => putBytes (Network.encode b)) readerOne := by
  intro b block rest
  simp only [readerOne, andThen_ok_iff, ofExcept_ok_iff, decode_block_ok_iff,
    readBytes_ok_iff (show MAX_BLOCK_BYTES < 256 ^ 4 by decide)]
  constructor
  · rintro ⟨raw, mid, ⟨-, rfl⟩, ⟨hfits, rfl⟩, rfl⟩
    exact ⟨hfits, rfl⟩
  · rintro ⟨hfits, rfl⟩
    exact ⟨_, rest, ⟨hfits.2, rfl⟩, ⟨hfits, rfl⟩, rfl⟩

theorem reads_reader : Reads Fits encode reader := by
  intro b blocks rest
  simp only [reader, andThen_ok_iff, natOf_ok_iff]
  constructor
  · rintro ⟨count, mid, ⟨-, rfl⟩, h⟩
    split_ifs at h with hlong
    obtain ⟨rfl, hall, rfl⟩ := (times_ok_iff reads_readerOne).mp h
    exact ⟨⟨not_lt.mp hlong, hall⟩, by rw [encode, List.append_assoc]⟩
  · rintro ⟨hfits, rfl⟩
    have hcount := hfits.count
    have hcap : SYNC_MAX_BATCH < 256 ^ 4 := by decide
    refine ⟨blocks.length, _, ⟨hcount.trans_lt hcap, by rw [encode, List.append_assoc]⟩, ?_⟩
    rw [if_neg (not_lt.mpr hcount)]
    exact (times_ok_iff reads_readerOne).mpr ⟨rfl, hfits.blocks, rfl⟩

-- Each block takes its length and no more than its cap.
theorem length_flatMap_le (blocks : List WireBlock) (h : ∀ b ∈ blocks, BlockFits b) :
    (blocks.flatMap fun b => putBytes (Network.encode b)).length ≤
      blocks.length * (4 + MAX_BLOCK_BYTES) := by
  induction blocks with
  | nil => exact Nat.zero_le _
  | cons b blocks ih =>
    have hhead := (h b (by simp)).2
    have htail := ih fun x hx => h x (by simp [hx])
    rw [List.flatMap_cons, List.length_append, length_putBytes, List.length_cons, Nat.succ_mul]
    omega

theorem codec : Codec Fits encode decode := by
  refine .of_whole follows_read reads_reader fun blocks hfits => ?_
  have hbytes := length_flatMap_le blocks hfits.blocks
  have hcount : blocks.length * (4 + MAX_BLOCK_BYTES) ≤ SYNC_MAX_BATCH * (4 + MAX_BLOCK_BYTES) :=
    Nat.mul_le_mul_right _ hfits.count
  have hcap : 4 + SYNC_MAX_BATCH * (4 + MAX_BLOCK_BYTES) ≤ ISIZE_MAX := by decide
  rw [encode, List.length_append, length_natBytes]
  omega

end Blocks

namespace SyncRequest

def Fits : SyncRequest → Prop
  | .Hello h => h.Fits
  | .GetBlocks g => g.Fits
  | .GetGenesis => True

theorem codec : Codec Fits encode decode := by
  refine ⟨?_, ?_, ?_⟩
  · intro r hr
    cases r with
    | Hello h =>
      rw [encode, decode, if_pos rfl]
      exact Codec.asKind_ok_iff.mpr ⟨h, Hello.codec.decode_encode h hr, rfl⟩
    | GetBlocks g =>
      rw [encode, decode, if_neg (by decide), if_pos rfl]
      exact Codec.asKind_ok_iff.mpr ⟨g, GetBlocks.codec.decode_encode g hr, rfl⟩
    | GetGenesis =>
      rw [encode, decode, if_neg (by decide), if_neg (by decide), if_pos rfl]
      exact Codec.asKind_ok_iff.mpr ⟨(), GetGenesis.codec.decode_encode () trivial, rfl⟩
  · intro buf r hbuf h
    cases buf with
    | nil => cases h
    | cons tag rest =>
      have hrest : rest.length ≤ ISIZE_MAX := (Nat.le_succ _).trans hbuf
      rw [decode] at h
      split_ifs at h with hhello hblocks hgenesis
      · obtain ⟨x, hx, rfl⟩ := Codec.asKind_ok_iff.mp h
        obtain ⟨hfits, rfl⟩ := Hello.codec.encode_decode rest x hrest hx
        exact ⟨hfits, by rw [hhello]; rfl⟩
      · obtain ⟨x, hx, rfl⟩ := Codec.asKind_ok_iff.mp h
        obtain ⟨hfits, rfl⟩ := GetBlocks.codec.encode_decode rest x hrest hx
        exact ⟨hfits, by rw [hblocks]; rfl⟩
      · obtain ⟨x, hx, rfl⟩ := Codec.asKind_ok_iff.mp h
        obtain ⟨-, rfl⟩ := GetGenesis.codec.encode_decode rest x hrest hx
        exact ⟨trivial, by rw [hgenesis]; rfl⟩
      · cases h
  · intro buf hbuf
    cases buf with
    | nil => exact Option.some_ne_none _
    | cons tag rest =>
      have hrest : rest.length ≤ ISIZE_MAX := (Nat.le_succ _).trans hbuf
      rw [decode]
      split_ifs
      · exact Codec.asKind_ne_none (Hello.codec.total rest hrest)
      · exact Codec.asKind_ne_none (GetBlocks.codec.total rest hrest)
      · exact Codec.asKind_ne_none (GetGenesis.codec.total rest hrest)
      · exact Option.some_ne_none _

end SyncRequest

namespace SyncResponse

def Fits : SyncResponse → Prop
  | .Hello h => h.Fits
  | .Blocks blocks => Blocks.Fits blocks
  | .Genesis g => g.Fits

theorem codec : Codec Fits encode decode := by
  refine ⟨?_, ?_, ?_⟩
  · intro r hr
    cases r with
    | Hello h =>
      rw [encode, decode, if_pos rfl]
      exact Codec.asKind_ok_iff.mpr ⟨h, Hello.codec.decode_encode h hr, rfl⟩
    | Blocks l =>
      rw [encode, decode, if_neg (by decide), if_pos rfl]
      exact Codec.asKind_ok_iff.mpr ⟨l, Blocks.codec.decode_encode l hr, rfl⟩
    | Genesis g =>
      rw [encode, decode, if_neg (by decide), if_neg (by decide), if_pos rfl]
      exact Codec.asKind_ok_iff.mpr ⟨g, Genesis.codec.decode_encode g hr, rfl⟩
  · intro buf r hbuf h
    cases buf with
    | nil => cases h
    | cons tag rest =>
      have hrest : rest.length ≤ ISIZE_MAX := (Nat.le_succ _).trans hbuf
      rw [decode] at h
      split_ifs at h with hhello hblocks hgenesis
      · obtain ⟨x, hx, rfl⟩ := Codec.asKind_ok_iff.mp h
        obtain ⟨hfits, rfl⟩ := Hello.codec.encode_decode rest x hrest hx
        exact ⟨hfits, by rw [hhello]; rfl⟩
      · obtain ⟨x, hx, rfl⟩ := Codec.asKind_ok_iff.mp h
        obtain ⟨hfits, rfl⟩ := Blocks.codec.encode_decode rest x hrest hx
        exact ⟨hfits, by rw [hblocks]; rfl⟩
      · obtain ⟨x, hx, rfl⟩ := Codec.asKind_ok_iff.mp h
        obtain ⟨hfits, rfl⟩ := Genesis.codec.encode_decode rest x hrest hx
        exact ⟨hfits, by rw [hgenesis]; rfl⟩
      · cases h
  · intro buf hbuf
    cases buf with
    | nil => exact Option.some_ne_none _
    | cons tag rest =>
      have hrest : rest.length ≤ ISIZE_MAX := (Nat.le_succ _).trans hbuf
      rw [decode]
      split_ifs
      · exact Codec.asKind_ne_none (Hello.codec.total rest hrest)
      · exact Codec.asKind_ne_none (Blocks.codec.total rest hrest)
      · exact Codec.asKind_ne_none (Genesis.codec.total rest hrest)
      · exact Option.some_ne_none _

end SyncResponse

namespace SyncFrame

variable {α : Type} {P : α → Prop} {encodeBody : α → Bytes}
variable {decodeBody : Bytes → Option (Except WireError α)}

structure Fits (P : α → Prop) (f : SyncFrame α) : Prop where
  reqId : f.reqId < 256 ^ 8
  body : P f.body

-- The id is split off where it stands, and nothing is read past the end.
theorem readReqId_eq (buf : Bytes) :
    readReqId buf = some (if buf.length < 8 then .error .Truncated
      else .ok (ofBytes (buf.take 8), buf.drop 8)) := by
  unfold readReqId
  split_ifs with hshort
  · rfl
  · have hwithin : 0 ≤ 8 ∧ 8 ≤ buf.length := by omega
    have hrest : 8 ≤ buf.length ∧ buf.length ≤ buf.length := by omega
    have htake : (buf.take 8).length = 8 := by
      rw [List.length_take]
      omega
    rw [Scan.slice, if_pos hwithin, List.drop_zero, Option.bind_some, Scan.toArray, if_pos htake,
      Scan.slice, if_pos hrest, List.take_length]

theorem readReqId_ok_iff {buf body : Bytes} {reqId : Nat} :
    readReqId buf = some (.ok (reqId, body)) ↔ reqId < 256 ^ 8 ∧ buf = writeFramed reqId body := by
  rw [readReqId_eq, Option.some.injEq]
  split_ifs with hshort
  · constructor
    · intro h
      cases h
    · rintro ⟨-, rfl⟩
      rw [writeFramed, List.length_append, length_natBytes] at hshort
      omega
  · have htake : (buf.take 8).length = 8 := by
      rw [List.length_take]
      omega
    rw [Except.ok.injEq, Prod.mk.injEq]
    constructor
    · rintro ⟨rfl, rfl⟩
      have hlt := ofBytes_lt (buf.take 8)
      have hbytes := natBytes_ofBytes (buf.take 8)
      rw [htake] at hlt hbytes
      exact ⟨hlt, by rw [writeFramed, hbytes, List.take_append_drop]⟩
    · rintro ⟨hlt, hbuf⟩
      have hsplit := List.append_inj ((List.take_append_drop 8 buf).trans hbuf)
        (by rw [htake, length_natBytes])
      rw [hsplit.1, hsplit.2]
      exact ⟨ofBytes_natBytes hlt, rfl⟩

theorem codec (h : Codec P encodeBody decodeBody) :
    Codec (Fits P) (encode encodeBody) (decode decodeBody) := by
  refine ⟨?_, ?_, ?_⟩
  · intro f hf
    have hid : readReqId (writeFramed f.reqId (encodeBody f.body)) =
        some (.ok (f.reqId, encodeBody f.body)) := readReqId_ok_iff.mpr ⟨hf.reqId, rfl⟩
    unfold decode
    rw [encode, hid]
    dsimp only
    exact Codec.asKind_ok_iff.mpr ⟨f.body, h.decode_encode f.body hf.body, rfl⟩
  · intro buf f hbuf hdecode
    unfold decode at hdecode
    cases hid : readReqId buf with
    | none => rw [hid] at hdecode; cases hdecode
    | some x =>
      cases x with
      | error e => rw [hid] at hdecode; cases hdecode
      | ok p =>
        obtain ⟨hlt, rfl⟩ := readReqId_ok_iff.mp hid
        rw [hid] at hdecode
        obtain ⟨body, hbody, rfl⟩ := Codec.asKind_ok_iff.mp hdecode
        have hrest : p.2.length ≤ ISIZE_MAX := by
          rw [writeFramed, List.length_append] at hbuf
          omega
        obtain ⟨hfits, henc⟩ := h.encode_decode p.2 body hrest hbody
        exact ⟨⟨hlt, hfits⟩, by rw [encode, henc]⟩
  · intro buf hbuf
    unfold decode
    cases hid : readReqId buf with
    | none =>
      rw [readReqId_eq] at hid
      cases hid
    | some x =>
      cases x with
      | error e => exact Option.some_ne_none _
      | ok p =>
        obtain ⟨-, rfl⟩ := readReqId_ok_iff.mp hid
        have hrest : p.2.length ≤ ISIZE_MAX := by
          rw [writeFramed, List.length_append] at hbuf
          omega
        exact Codec.asKind_ne_none (h.total p.2 hrest)

end SyncFrame

-- Every message of the network is encoded in one way only and decoded to itself, and no bytes
-- make a decoder read outside them.
theorem frames_round_trip :
    Codec BlockFits encode WireBlock.decode ∧
    Codec Hello.Fits Hello.encode Hello.decode ∧
    Codec GetBlocks.Fits GetBlocks.encode GetBlocks.decode ∧
    Codec (fun _ => True) GetGenesis.encode GetGenesis.decode ∧
    Codec Genesis.Fits Genesis.encode Genesis.decode ∧
    Codec Blocks.Fits Blocks.encode Blocks.decode ∧
    Codec SyncRequest.Fits SyncRequest.encode SyncRequest.decode ∧
    Codec SyncResponse.Fits SyncResponse.encode SyncResponse.decode ∧
    Codec (SyncFrame.Fits SyncRequest.Fits) SyncFrame.encodeRequest SyncFrame.decodeRequest ∧
    Codec (SyncFrame.Fits SyncResponse.Fits) SyncFrame.encodeResponse
      SyncFrame.decodeResponse :=
  ⟨codec_block, Hello.codec, GetBlocks.codec, GetGenesis.codec, Genesis.codec, Blocks.codec,
    SyncRequest.codec, SyncResponse.codec, SyncFrame.codec SyncRequest.codec,
    SyncFrame.codec SyncResponse.codec⟩

end Ubi2.Network
